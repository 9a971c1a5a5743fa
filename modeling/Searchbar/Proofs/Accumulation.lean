import Mathlib.Data.List.Induction
import Searchbar.Example.Media
import Searchbar.Schema.Store

/-!
# Stores accumulate

Values are stored one after the other, now under one option and now under another, into a result
that may hold something already. What comes out can be told option by option (`Accumulates`): an
option that may be given more than once ends with the values it held and those stored to it, in
order; any other ends with the last value stored to it; and what nothing was stored to stays.

* `Accumulates.store` says what one more store does to this description, and `accumulates_storeAll`
  takes it to a whole sequence.
* A result is determined by the description (`Accumulates.unique`), and the description looks at the
  stores of one option at a time (`Accumulates.of_depositsFor`). So how the stores of different
  options are interleaved does not matter (`stores_accumulate`).
-/

namespace Searchbar

/-- **A value to be stored** under an option of the schema. -/
structure Deposit (schema : Schema) where
  spec : OptionSpec
  declared : spec ∈ schema.options
  value : Value

variable {schema : Schema}

/-- Deposits under one name are under one option. -/
theorem Deposit.spec_eq {d e : Deposit schema} (h : d.spec.name = e.spec.name) : d.spec = e.spec :=
  Schema.eq_of_name_eq d.declared e.declared h

/-- The deposits under the option `name`, in order. -/
def depositsFor (name : String) (deposits : List (Deposit schema)) : List (Deposit schema) :=
  deposits.filter fun d => d.spec.name = name

/-- The values deposited under the option `name`, in order. -/
def deposited (name : String) (deposits : List (Deposit schema)) : List Value :=
  (depositsFor name deposits).map Deposit.value

section Deposited

variable {name : String} {deposits : List (Deposit schema)}

theorem mem_depositsFor {d : Deposit schema} :
    d ∈ depositsFor name deposits ↔ d ∈ deposits ∧ d.spec.name = name := by
  simp [depositsFor]

theorem deposited_eq_nil_iff :
    deposited name deposits = [] ↔ ∀ d ∈ deposits, d.spec.name ≠ name := by
  simp [deposited, depositsFor, List.filter_eq_nil_iff]

theorem deposited_concat (d : Deposit schema) :
    deposited name (deposits ++ [d]) =
      deposited name deposits ++ if d.spec.name = name then [d.value] else [] := by
  by_cases h : d.spec.name = name <;> simp [deposited, depositsFor, h]

end Deposited

/-- **Storing all deposits**, one after the other. -/
def SearchResult.storeAll (r : SearchResult) (deposits : List (Deposit schema)) : SearchResult :=
  deposits.foldl (fun r d => r.store d.spec d.value) r

theorem SearchResult.storeAll_concat (r : SearchResult) (deposits : List (Deposit schema))
    (d : Deposit schema) :
    r.storeAll (deposits ++ [d]) = (r.storeAll deposits).store d.spec d.value := by
  simp [storeAll]

/-- **What a sequence of stores makes of a result**, option by option. -/
structure Accumulates (r : SearchResult) (deposits : List (Deposit schema)) (r' : SearchResult) :
    Prop where
  terms : r'.terms = r.terms
  /-- An option that nothing is stored to holds what it held. -/
  untouched : ∀ name, (∀ d ∈ deposits, d.spec.name ≠ name) → r'.get? name = r.get? name
  /-- An option that may be repeated ends with what it held and all that was stored to it. -/
  collected : ∀ d ∈ deposits, d.spec.multiple = true →
    r'.get? d.spec.name =
      some (.multi (r.values d.spec.name ++ deposited d.spec.name deposits))
  /-- Any other option ends with the last value stored to it. -/
  replaced : ∀ d ∈ deposits, d.spec.multiple = false →
    ∃ v, (deposited d.spec.name deposits).getLast? = some v ∧
      r'.get? d.spec.name = some (.single v)

namespace Accumulates

variable {r r' : SearchResult} {deposits : List (Deposit schema)}

theorem nil (r : SearchResult) : Accumulates r ([] : List (Deposit schema)) r :=
  ⟨rfl, fun _ _ => rfl, by simp, by simp⟩

/-- The values of an option that may be repeated, whether something was stored to it or not. -/
theorem values (h : Accumulates r deposits r') (d : Deposit schema) (hm : d.spec.multiple = true) :
    r'.values d.spec.name = r.values d.spec.name ++ deposited d.spec.name deposits := by
  by_cases hnone : ∀ e ∈ deposits, e.spec.name ≠ d.spec.name
  · -- nothing is deposited, and what the option holds need not be a list
    rw [SearchResult.values, h.untouched d.spec.name hnone, deposited_eq_nil_iff.mpr hnone,
      List.append_nil, SearchResult.values]
  · -- an earlier deposit under this name is under the same option
    push Not at hnone
    obtain ⟨e, he, hname⟩ := hnone
    have collected := h.collected e he (by rwa [Deposit.spec_eq hname])
    rw [hname] at collected
    simp [SearchResult.values, collected]

/-- **One more store.** -/
theorem store (h : Accumulates r deposits r') (d : Deposit schema) :
    Accumulates r (deposits ++ [d]) (r'.store d.spec d.value) := by
  -- what the option that is stored to holds in the end
  have here : ∀ e : Deposit schema, e.spec.name = d.spec.name →
      (r'.store d.spec d.value).get? e.spec.name =
        some (SearchResult.joined (r'.get? d.spec.name) e.spec.multiple d.value) := by
    intro e hname
    rw [Deposit.spec_eq hname, SearchResult.get?_store_self]
  -- the deposits under another name are those before
  have elsewhere : ∀ e ∈ deposits ++ [d], e.spec.name ≠ d.spec.name → e ∈ deposits ∧
      deposited e.spec.name (deposits ++ [d]) = deposited e.spec.name deposits ∧
      (r'.store d.spec d.value).get? e.spec.name = r'.get? e.spec.name := by
    intro e he hname
    refine ⟨?_, ?_, SearchResult.get?_store_of_ne r' d.spec d.value hname⟩
    · rcases List.mem_append.mp he with he | he
      · exact he
      · exact absurd (by rw [List.mem_singleton.mp he]) hname
    · rw [deposited_concat, if_neg (Ne.symm hname), List.append_nil]
  constructor
  case terms => rw [SearchResult.store_terms, h.terms]
  case untouched =>
    intro name hname
    rw [SearchResult.get?_store_of_ne r' d.spec d.value (Ne.symm (hname d (by simp)))]
    exact h.untouched name fun e he => hname e (by simp [he])
  case collected =>
    intro e he hm
    by_cases hname : e.spec.name = d.spec.name
    · have values := h.values e hm
      rw [SearchResult.values, hname] at values
      rw [here e hname, SearchResult.joined, if_pos hm, values, hname, deposited_concat,
        if_pos rfl, List.append_assoc]
    · obtain ⟨earlier, same, get⟩ := elsewhere e he hname
      rw [get, same]
      exact h.collected e earlier hm
  case replaced =>
    intro e he hm
    by_cases hname : e.spec.name = d.spec.name
    · refine ⟨d.value, ?_, ?_⟩
      · rw [hname, deposited_concat, if_pos rfl, List.getLast?_concat]
      · rw [here e hname, SearchResult.joined, hm]
        rfl
    · obtain ⟨earlier, same, get⟩ := elsewhere e he hname
      rw [get, same]
      exact h.replaced e earlier hm

/-- **One result fits the description.** -/
theorem unique {r'' : SearchResult} (h : Accumulates r deposits r')
    (h' : Accumulates r deposits r'') : r' = r'' := by
  refine SearchResult.ext_get? (h.terms.trans h'.terms.symm) fun name => ?_
  by_cases hnone : ∀ d ∈ deposits, d.spec.name ≠ name
  · exact (h.untouched name hnone).trans (h'.untouched name hnone).symm
  · push Not at hnone
    obtain ⟨d, hd, rfl⟩ := hnone
    cases hm : d.spec.multiple with
    | true => exact (h.collected d hd hm).trans (h'.collected d hd hm).symm
    | false =>
      obtain ⟨v, last, held⟩ := h.replaced d hd hm
      obtain ⟨v', last', held'⟩ := h'.replaced d hd hm
      obtain rfl : v = v' := Option.some.inj (last.symm.trans last')
      exact held.trans held'.symm

/-- Only the deposits of each option matter, in their order. -/
theorem of_depositsFor {deposits' : List (Deposit schema)} (h : Accumulates r deposits r')
    (same : ∀ name, depositsFor name deposits' = depositsFor name deposits) :
    Accumulates r deposits' r' := by
  -- a deposit is found among those of its own option
  have mem : ∀ d : Deposit schema, d ∈ deposits' ↔ d ∈ deposits := by
    intro d
    have := congrArg (d ∈ ·) (same d.spec.name)
    simpa [mem_depositsFor] using this
  have values : ∀ name, deposited name deposits' = deposited name deposits := fun name => by
    rw [deposited, same, deposited]
  constructor
  case terms => exact h.terms
  case untouched => exact fun name hname => h.untouched name fun d hd => hname d ((mem d).mpr hd)
  case collected =>
    intro d hd hm
    rw [values]
    exact h.collected d ((mem d).mp hd) hm
  case replaced =>
    intro d hd hm
    rw [values]
    exact h.replaced d ((mem d).mp hd) hm

end Accumulates

/-- **Every sequence of stores** accumulates. -/
theorem accumulates_storeAll (r : SearchResult) (deposits : List (Deposit schema)) :
    Accumulates r deposits (r.storeAll deposits) := by
  -- from the end, since a store adds to what the stores before it have left
  induction deposits using List.reverseRecOn with
  | nil => exact .nil r
  | append_singleton deposits d ih =>
    rw [SearchResult.storeAll_concat]
    exact ih.store d

/-- **What storing all deposits does** to a result. -/
structure StoresAccumulate (r : SearchResult) (deposits : List (Deposit schema)) : Prop where
  /-- Each option ends with what it held and what was stored to it. -/
  outcome : Accumulates r deposits (r.storeAll deposits)
  /-- Another order, in which the deposits of each option follow each other as before, gives the
  same result. -/
  order : ∀ deposits' : List (Deposit schema),
    (∀ name, depositsFor name deposits' = depositsFor name deposits) →
      r.storeAll deposits' = r.storeAll deposits

/-- **Stores accumulate option by option**, however they are interleaved. -/
theorem stores_accumulate (r : SearchResult) (deposits : List (Deposit schema)) :
    StoresAccumulate r deposits where
  outcome := accumulates_storeAll r deposits
  order deposits' same :=
    (accumulates_storeAll r deposits').unique
      ((accumulates_storeAll r deposits).of_depositsFor same)

namespace Example

/-- A value for one of the options of the media library, by its place among them. -/
def mediaDeposit (i : Fin 6) (v : Value) : Deposit media where
  spec := mediaOptions.get i
  declared := List.get_mem mediaOptions i
  value := v

/-- Tags are collected behind the one that is held alone, and the order given between them is
replaced. -/
example :
    ({ options := .ofList [("tag", .single (.string "go"))] } : SearchResult).storeAll
      [mediaDeposit 0 (.string "rust"), mediaDeposit 4 (.enum "newest"),
        mediaDeposit 0 (.string "ruby"), mediaDeposit 4 (.enum "name")] =
      { options := .ofList
          [("sort", .single (.enum "name")),
            ("tag", .multi [.string "go", .string "rust", .string "ruby"])] } := by
  decide +kernel

end Example

end Searchbar
