import Searchbar.Schema.OptionSpec

/-!
# Schemas

A **schema** is the list of options a search understands, in the order they were declared. Every
option of a schema can be declared on its own, and no two have the same name; both facts are part
of the type, so an option is determined by its name in every schema there is.

* `Schema.eq_of_name_eq` and `Schema.get?_eq_some_iff` say that a name stands for one option.
* `Schema.ofOptions` builds a schema or gives the first reason why there is none.
* `Schema.attach` gives an option of a schema another source.
-/

namespace Searchbar

/-- **The options a search understands.** -/
structure Schema where
  options : List OptionSpec
  sound : ∀ spec ∈ options, spec.fault? = none
  distinct : (options.map OptionSpec.name).Nodup

namespace Schema

instance : BEq Schema := ⟨fun a b => a.options == b.options⟩

/-- The schema without options. -/
def empty : Schema := ⟨[], by simp, by simp⟩

instance : Inhabited Schema := ⟨empty⟩

/-- The option of the given name. -/
def get? (s : Schema) (name : String) : Option OptionSpec :=
  s.options.find? fun spec => spec.name == name

/-- **An option is determined by its name.** -/
theorem eq_of_name_eq {s : Schema} {a b : OptionSpec} (ha : a ∈ s.options) (hb : b ∈ s.options)
    (h : a.name = b.name) : a = b := by
  obtain ⟨i, hi, rfl⟩ := List.getElem_of_mem ha
  obtain ⟨j, hj, rfl⟩ := List.getElem_of_mem hb
  have boundI : i < (s.options.map OptionSpec.name).length := by simpa using hi
  have boundJ : j < (s.options.map OptionSpec.name).length := by simpa using hj
  have names : (s.options.map OptionSpec.name)[i] = (s.options.map OptionSpec.name)[j] := by
    simpa using h
  have index : i = j := (List.getElem_inj s.distinct).mp names
  subst index
  rfl

/-- An option is found exactly under its name. -/
theorem get?_eq_some_iff {s : Schema} {name : String} {spec : OptionSpec} :
    s.get? name = some spec ↔ spec ∈ s.options ∧ spec.name = name := by
  constructor
  · intro h
    exact ⟨List.mem_of_find?_eq_some h, by simpa using List.find?_some h⟩
  · rintro ⟨hm, rfl⟩
    have found : (s.get? spec.name).isSome := by
      rw [get?, List.find?_isSome]
      exact ⟨spec, hm, by simp⟩
    obtain ⟨other, ho⟩ := Option.isSome_iff_exists.mp found
    have same : other.name = spec.name := by simpa using List.find?_some ho
    rw [ho, eq_of_name_eq (List.mem_of_find?_eq_some ho) hm same]

/-! ### Building -/

/-- The first reason why a list of options is no schema, going through the list once and looking
at each option on its own before comparing its name with those `before` it. -/
def fault? (before : List OptionSpec) : List OptionSpec → Option SchemaError
  | [] => none
  | spec :: rest =>
    match spec.fault? with
    | some e => some e
    | none =>
      if before.any fun other => other.name == spec.name then some (.duplicateName spec.name)
      else fault? (before ++ [spec]) rest

theorem sound_of_fault? {before options : List OptionSpec} (h : fault? before options = none) :
    ∀ spec ∈ options, spec.fault? = none := by
  induction options generalizing before with
  | nil => simp
  | cons spec rest ih =>
    rw [fault?] at h
    split at h
    · cases h
    · next hspec =>
      split at h
      · cases h
      · intro other ho
        rcases List.mem_cons.mp ho with rfl | ho
        · exact hspec
        · exact ih h other ho

theorem distinct_of_fault? {before options : List OptionSpec} (h : fault? before options = none) :
    (options.map OptionSpec.name).Nodup ∧
      ∀ spec ∈ options, ∀ other ∈ before, other.name ≠ spec.name := by
  induction options generalizing before with
  | nil => simp
  | cons spec rest ih =>
    rw [fault?] at h
    split at h
    · cases h
    · split at h
      · cases h
      · next hnew =>
        obtain ⟨hd, hb⟩ := ih h
        refine ⟨?_, ?_⟩
        · rw [List.map_cons, List.nodup_cons]
          refine ⟨fun hm => ?_, hd⟩
          obtain ⟨later, hlater, hname⟩ := List.mem_map.mp hm
          exact hb later hlater spec (by simp) hname.symm
        · intro later hlater other hother
          rcases List.mem_cons.mp hlater with rfl | hlater
          · intro heq
            exact hnew (List.any_eq_true.mpr ⟨other, hother, by simp [heq]⟩)
          · exact hb later hlater other (by simp [hother])

/-- **The schema of a list of options**, or the first reason why there is none. -/
def ofOptions (options : List OptionSpec) : Except SchemaError Schema :=
  match h : fault? [] options with
  | none => .ok ⟨options, sound_of_fault? h, (distinct_of_fault? h).1⟩
  | some e => .error e

/-! ### Sources -/

/-- The schema in which the option `name` has the given source, if its kind can have one. -/
def setSource (s : Schema) (name : String) (source : Source) : Schema where
  options := s.options.map fun spec => if spec.name = name then spec.withSource source else spec
  sound := by
    intro spec hspec
    obtain ⟨old, hold, rfl⟩ := List.mem_map.mp hspec
    split
    · rw [OptionSpec.fault?_withSource]; exact s.sound old hold
    · exact s.sound old hold
  distinct := by
    have : (s.options.map fun spec =>
        if spec.name = name then spec.withSource source else spec).map OptionSpec.name =
        s.options.map OptionSpec.name := by
      rw [List.map_map]
      refine List.map_congr_left fun spec _ => ?_
      simp only [Function.comp_apply]
      split <;> rfl
    rw [this]
    exact s.distinct

/-- **Attaching a source** to the option `name`. An option that does not exist or whose candidates
are fixed takes none. -/
def attach (s : Schema) (name : String) (source : Source) : Except SchemaError Schema :=
  match s.get? name with
  | none => .error (.unknownOption name)
  | some spec =>
    if spec.kind.takesSource then .ok (s.setSource name source)
    else .error (.sourceNotSupported name)

end Schema

end Searchbar
