import Searchbar.Result
import Searchbar.Schema.Basic

/-!
# Storing values

An accepted value enters a result under the rule of its option: an option that may be given more
than once collects its values in order, any other holds the last value stored. Defaults fill the
options that a query left open and change nothing else.
-/

namespace Searchbar

namespace SearchResult

/-- What an option holds after `v` joins what it held. -/
def joined (held : Option Stored) (multiple : Bool) (v : Value) : Stored :=
  if multiple then .multi (((held.map Stored.values).getD []) ++ [v]) else .single v

/-- **Storing** a value under an option. -/
def store (r : SearchResult) (spec : OptionSpec) (v : Value) : SearchResult :=
  { r with options := r.options.insert spec.name (joined (r.get? spec.name) spec.multiple v) }

@[simp] theorem store_terms (r : SearchResult) (spec : OptionSpec) (v : Value) :
    (r.store spec v).terms = r.terms := rfl

@[simp] theorem get?_store_self (r : SearchResult) (spec : OptionSpec) (v : Value) :
    (r.store spec v).get? spec.name = some (joined (r.get? spec.name) spec.multiple v) :=
  NameMap.get?_insert_self _ _ _

theorem get?_store_of_ne (r : SearchResult) (spec : OptionSpec) (v : Value) {name : String}
    (h : name ≠ spec.name) : (r.store spec v).get? name = r.get? name :=
  NameMap.get?_insert_of_ne _ h _

theorem contains_store (r : SearchResult) (spec : OptionSpec) (v : Value) (name : String) :
    (r.store spec v).contains name = (name == spec.name || r.contains name) := by
  rw [contains_eq_isSome, contains_eq_isSome]
  by_cases h : name = spec.name
  · subst h; simp
  · rw [get?_store_of_ne r spec v h]
    simp [h]

theorem values_store_self (r : SearchResult) (spec : OptionSpec) (v : Value) :
    (r.store spec v).values spec.name =
      if spec.multiple then r.values spec.name ++ [v] else [v] := by
  simp only [values, get?_store_self, joined]
  split <;> rfl

theorem values_store_of_ne (r : SearchResult) (spec : OptionSpec) (v : Value) {name : String}
    (h : name ≠ spec.name) : (r.store spec v).values name = r.values name := by
  rw [values, get?_store_of_ne r spec v h, values]

/-- The result with the default of one option filled in, if the option holds nothing and its
default is a value of its kind. -/
def fillOption (r : SearchResult) (spec : OptionSpec) : SearchResult :=
  if r.contains spec.name then r
  else
    match spec.default.bind spec.read? with
    | some v => r.store spec v
    | none => r

/-- **Defaults**: every option of the schema that holds nothing gets its default. -/
def fillDefaults (r : SearchResult) (schema : Schema) : SearchResult :=
  schema.options.foldl fillOption r

end SearchResult

end Searchbar
