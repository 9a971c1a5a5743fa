import Searchbar.Proofs.Defaults

/-!
# Defaults fill the gaps

Filling in defaults goes through the options of a schema one after the other, and each time asks the
result that it is changing. What comes out can be told from what went in (`FillsGaps`): the terms
and all options that held something are as before, the options that held nothing hold their default
if it is a value, and nothing else was added.

A result is determined by this description (`FillsGaps.unique`), in which the order of the options
does not occur, and which holds again of the filled result and itself. So the order of declaration
does not matter, and to fill in twice is to fill in once (`defaults_fillGaps`).
-/

namespace Searchbar

/-- The default of an option **gives** what the option then holds. -/
def OptionSpec.Gives (spec : OptionSpec) (stored : Stored) : Prop :=
  ∃ text v, spec.default = some text ∧ spec.read? text = some v ∧
    stored = if spec.multiple then .multi [v] else .single v

theorem OptionSpec.filled?_eq_some_iff {spec : OptionSpec} {stored : Stored} :
    spec.filled? = some stored ↔ spec.Gives stored := by
  have joined (v : Value) : SearchResult.joined none spec.multiple v =
      if spec.multiple then .multi [v] else .single v := rfl
  simp only [filled?, Option.map_eq_some_iff, Option.bind_eq_some_iff, joined, Gives]
  constructor
  · rintro ⟨v, ⟨text, hdefault, hread⟩, rfl⟩
    exact ⟨text, v, hdefault, hread, rfl⟩
  · rintro ⟨text, v, hdefault, hread, rfl⟩
    exact ⟨v, ⟨text, hdefault, hread⟩, rfl⟩

/-- **The gaps of a result are filled** from the defaults of a schema. -/
structure FillsGaps (schema : Schema) (r filled : SearchResult) : Prop where
  terms : filled.terms = r.terms
  /-- What was held is held. -/
  kept : ∀ name stored, r.get? name = some stored → filled.get? name = some stored
  /-- An option that held nothing holds what its default gives. -/
  added : ∀ spec ∈ schema.options, r.get? spec.name = none → ∀ stored, spec.Gives stored →
    filled.get? spec.name = some stored
  /-- Whatever is held was held or is given by a default. -/
  only : ∀ name stored, filled.get? name = some stored → r.get? name = some stored ∨
    r.get? name = none ∧ ∃ spec ∈ schema.options, spec.name = name ∧ spec.Gives stored

namespace FillsGaps

variable {schema other : Schema} {r filled : SearchResult}

theorem get?_eq_some_iff (h : FillsGaps schema r filled) {name : String} {stored : Stored} :
    filled.get? name = some stored ↔ r.get? name = some stored ∨
      r.get? name = none ∧ ∃ spec ∈ schema.options, spec.name = name ∧ spec.Gives stored := by
  constructor
  · exact h.only name stored
  · rintro (held | ⟨gap, spec, hspec, rfl, gives⟩)
    · exact h.kept name stored held
    · exact h.added spec hspec gap stored gives

/-- **There is one way to fill the gaps.** -/
theorem unique {filled' : SearchResult} (h : FillsGaps schema r filled)
    (h' : FillsGaps schema r filled') : filled = filled' := by
  refine SearchResult.ext_get? (h.terms.trans h'.terms.symm) fun name => ?_
  ext stored
  exact h.get?_eq_some_iff.trans h'.get?_eq_some_iff.symm

/-- Only which options there are matters, not their order. -/
theorem of_mem_iff (h : FillsGaps schema r filled)
    (same : ∀ spec, spec ∈ other.options ↔ spec ∈ schema.options) :
    FillsGaps other r filled where
  terms := h.terms
  kept := h.kept
  added spec hspec := h.added spec ((same spec).mp hspec)
  only name stored held := by
    rcases h.only name stored held with before | ⟨gap, spec, hspec, hname, gives⟩
    · exact .inl before
    · exact .inr ⟨gap, spec, (same spec).mpr hspec, hname, gives⟩

/-- When the gaps are filled, no gap is left that a default would fill. -/
theorem again (h : FillsGaps schema r filled) : FillsGaps schema filled filled where
  terms := rfl
  kept name stored held := held
  added spec hspec gap stored gives := by
    -- the option held nothing before either, so its default has been filled in
    have before : r.get? spec.name = none := by
      cases held : r.get? spec.name with
      | none => rfl
      | some old =>
        rw [h.kept spec.name old held] at gap
        cases gap
    exact h.added spec hspec before stored gives
  only name stored held := .inl held

end FillsGaps

theorem SearchResult.fillsGaps_fillDefaults (r : SearchResult) (schema : Schema) :
    FillsGaps schema r (r.fillDefaults schema) where
  terms := r.terms_fillDefaults schema
  kept name stored held := by
    rw [get?_fillDefaults, held]
    rfl
  added spec hspec gap stored gives := by
    have hget : schema.get? spec.name = some spec := Schema.get?_eq_some_iff.mpr ⟨hspec, rfl⟩
    rw [get?_fillDefaults, gap, hget]
    exact OptionSpec.filled?_eq_some_iff.mpr gives
  only name stored held := by
    rw [get?_fillDefaults] at held
    cases before : r.get? name with
    | some old =>
      rw [before] at held
      exact .inl held
    | none =>
      rw [before, Option.none_or] at held
      obtain ⟨spec, hget, filled⟩ := Option.bind_eq_some_iff.mp held
      obtain ⟨hspec, hname⟩ := Schema.get?_eq_some_iff.mp hget
      exact .inr ⟨rfl, spec, hspec, hname, OptionSpec.filled?_eq_some_iff.mp filled⟩

/-- **What filling in defaults does** to a result. -/
structure DefaultsFill (schema : Schema) (r : SearchResult) : Prop where
  /-- Exactly the gaps are filled. -/
  gaps : FillsGaps schema r (r.fillDefaults schema)
  /-- To fill in twice is to fill in once. -/
  idempotent : (r.fillDefaults schema).fillDefaults schema = r.fillDefaults schema
  /-- The order of declaration does not matter. -/
  order : ∀ other : Schema, other.options.Perm schema.options →
    r.fillDefaults other = r.fillDefaults schema
  /-- Under a schema that was declared in a document, no default is passed over. -/
  declared : ∀ (config : SchemaConfig) (firstId : Nat), config.build firstId = .ok schema →
    ∀ spec ∈ schema.options, spec.default ≠ none →
      (r.fillDefaults schema).contains spec.name = true

/-- **Defaults fill exactly the gaps.** -/
theorem defaults_fillGaps (schema : Schema) (r : SearchResult) : DefaultsFill schema r := by
  have gaps := r.fillsGaps_fillDefaults schema
  refine ⟨gaps, ?_, ?_, ?_⟩
  · exact ((r.fillDefaults schema).fillsGaps_fillDefaults schema).unique gaps.again
  · intro other perm
    exact (r.fillsGaps_fillDefaults other).unique (gaps.of_mem_iff fun spec => perm.mem_iff)
  · intro config firstId hbuild spec hspec hdefault
    obtain ⟨text, htext⟩ := Option.ne_none_iff_exists'.mp hdefault
    -- the default was looked at when the schema was built
    obtain ⟨v, hread⟩ := Option.isSome_iff_exists.mp
      (SchemaConfig.isSome_read?_default hbuild hspec htext)
    rw [SearchResult.contains_eq_isSome]
    cases held : r.get? spec.name with
    | some stored => rw [gaps.kept spec.name stored held, Option.isSome_some]
    | none => rw [gaps.added spec hspec held _ ⟨text, v, htext, hread, rfl⟩, Option.isSome_some]

end Searchbar
