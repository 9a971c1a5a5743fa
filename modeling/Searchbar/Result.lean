import Searchbar.NameMap
import Searchbar.Value

/-!
# Search results

A query means a **search result**: the free-text terms in the order they were typed, and what
each option holds, by name.
-/

namespace Searchbar

/-- **A search result.** -/
structure SearchResult where
  terms : List String := []
  options : NameMap Stored := NameMap.empty
  deriving DecidableEq

namespace SearchResult

instance : Inhabited SearchResult := ⟨{}⟩

/-- Whether there is neither a term nor an option. -/
def isEmpty (r : SearchResult) : Bool := r.terms.isEmpty && r.options.isEmpty

/-- What the option `name` holds. -/
def get? (r : SearchResult) (name : String) : Option Stored := r.options.get? name

/-- Whether the option `name` holds something. -/
def contains (r : SearchResult) (name : String) : Bool := r.options.contains name

/-- The value of an option that holds a single one. -/
def single? (r : SearchResult) (name : String) : Option Value :=
  match r.get? name with
  | some (.single v) => some v
  | _ => none

/-- All values of an option, none if it holds nothing. -/
def values (r : SearchResult) (name : String) : List Value :=
  ((r.get? name).map Stored.values).getD []

/-- Equality with numbers compared by value. -/
def sameValue (r s : SearchResult) : Bool :=
  r.terms == s.terms && r.options.keys == s.options.keys &&
    (r.options.entries.zip s.options.entries).all fun p => p.1.2.sameValue p.2.2

/-- The result with a term added at the end. An empty term carries nothing and is dropped. -/
def push (r : SearchResult) (term : String) : SearchResult :=
  if term.isEmpty then r else { r with terms := r.terms ++ [term] }

@[simp] theorem push_empty (r : SearchResult) : r.push "" = r := rfl

theorem push_of_ne {term : String} (r : SearchResult) (h : term ≠ "") :
    r.push term = { r with terms := r.terms ++ [term] } := by
  have he : term.isEmpty = false := by simpa using h
  simp [push, he]

@[simp] theorem push_options (r : SearchResult) (term : String) :
    (r.push term).options = r.options := by
  unfold push; split <;> rfl

@[simp] theorem get?_push (r : SearchResult) (term name : String) :
    (r.push term).get? name = r.get? name := by
  simp [get?]

@[simp] theorem contains_push (r : SearchResult) (term name : String) :
    (r.push term).contains name = r.contains name := by
  simp [contains]

theorem contains_eq_isSome (r : SearchResult) (name : String) :
    r.contains name = (r.get? name).isSome := rfl

/-- **A result is its terms and what its options hold.** -/
theorem ext_get? {r r' : SearchResult} (terms : r.terms = r'.terms)
    (options : ∀ name, r.get? name = r'.get? name) : r = r' := by
  have same : r.options = r'.options := NameMap.ext_get? options
  cases r
  cases r'
  simp_all

/-- An option that holds nothing has no values. -/
theorem values_eq_nil {r : SearchResult} {name : String} (h : r.contains name = false) :
    r.values name = [] := by
  rw [contains_eq_isSome, Option.isSome_eq_false_iff, Option.isNone_iff_eq_none] at h
  simp [values, h]

end SearchResult

end Searchbar
