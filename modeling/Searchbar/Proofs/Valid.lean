import Searchbar.Proofs.NumberText
import Searchbar.Proofs.ScanStep
import Searchbar.Query.Print

/-!
# Results that a schema allows

A result is **valid** under a schema if a query could mean it: no term is empty, every option is one
of the schema, and it holds what an option of its kind can hold. A value that fits its option is
determined by its text (`Value.Fits.read?_text`), and its text is what is typed for it, in
quotation marks if need be (`Value.Fits.typed_eq`).
-/

namespace Searchbar

/-- **A value that an option of the given kind can hold.** A number is finite, and a text can be
typed, so it is not empty. -/
def Value.Fits : OptionKind → Value → Prop
  | .number _, .number x => x.isFinite = true
  | .string _, .string s => s ≠ ""
  | .enum choices, .enum s => s ≠ "" ∧ s ∈ choices
  | .boolean, .boolean _ => True
  | _, _ => False

instance : ∀ (kind : OptionKind) (v : Value), Decidable (v.Fits kind)
  | .number _, .number x => inferInstanceAs (Decidable (x.isFinite = true))
  | .string _, .string s => inferInstanceAs (Decidable (s ≠ ""))
  | .enum choices, .enum s => inferInstanceAs (Decidable (s ≠ "" ∧ s ∈ choices))
  | .boolean, .boolean _ => .isTrue trivial
  | .number _, .string _ | .number _, .enum _ | .number _, .boolean _ => .isFalse id
  | .string _, .number _ | .string _, .enum _ | .string _, .boolean _ => .isFalse id
  | .enum _, .number _ | .enum _, .string _ | .enum _, .boolean _ => .isFalse id
  | .boolean, .number _ | .boolean, .string _ | .boolean, .enum _ => .isFalse id

/-- **What an option can hold**: values that fit it, and as many as its rule says. -/
def Stored.Fits (spec : OptionSpec) : Stored → Prop
  | .single v => spec.multiple = false ∧ v.Fits spec.kind
  | .multi vs => spec.multiple = true ∧ vs ≠ [] ∧ ∀ v ∈ vs, v.Fits spec.kind

instance (spec : OptionSpec) : ∀ stored : Stored, Decidable (stored.Fits spec)
  | .single v => inferInstanceAs (Decidable (spec.multiple = false ∧ v.Fits spec.kind))
  | .multi vs =>
    inferInstanceAs (Decidable (spec.multiple = true ∧ vs ≠ [] ∧ ∀ v ∈ vs, v.Fits spec.kind))

/-- **A valid result.** -/
structure SearchResult.Valid (schema : Schema) (r : SearchResult) : Prop where
  terms : ∀ term ∈ r.terms, term ≠ ""
  options : ∀ e ∈ r.options.entries, ∃ spec, schema.get? e.1 = some spec ∧ e.2.Fits spec

theorem Stored.Fits.values {spec : OptionSpec} {stored : Stored} (h : stored.Fits spec) :
    ∀ v ∈ stored.values, v.Fits spec.kind := by
  cases stored with
  | single v => simpa using h.2
  | multi vs => exact h.2.2

/-! ### The text of a value -/

/-- A text is typed without quotation marks if it has a character and all are ordinary. -/
theorem needsQuotes_eq_false_iff {s : String} :
    needsQuotes s = false ↔ s.toList ≠ [] ∧ ∀ c ∈ s.toList, isOrdinary c = true := by
  simp [needsQuotes, isOrdinary]

theorem isOrdinary_of_isDigit {c : Char} (h : c.isDigit = true) : isOrdinary c = true := by
  have bounds : 48 ≤ c.toNat ∧ c.toNat ≤ 57 := by simpa [Char.isDigit_iff_toNat] using h
  -- the digits lie between two of the ranges of blanks
  have hblank : Text.isBlank c = false := by
    simp only [Text.isBlank]
    grind
  refine isOrdinary_iff.mpr ⟨hblank, ?_, ?_, ?_⟩ <;> rintro rfl <;> exact absurd bounds (by decide)

/-- The text of a finite number is typed without quotation marks. -/
theorem needsQuotes_number {x : Binary64} (hx : x.isFinite = true) :
    needsQuotes x.text = false := by
  refine needsQuotes_eq_false_iff.mpr ⟨by simpa using Binary64.text_ne_empty hx, fun c hc => ?_⟩
  rcases Binary64.mem_text hx hc with rfl | rfl | hc
  · decide
  · decide
  · exact isOrdinary_of_isDigit hc

namespace Value.Fits

variable {kind : OptionKind} {v : Value}

/-- **A value that fits is read back from its text.** -/
theorem read?_text (h : v.Fits kind) : kind.read? v.text = some v := by
  cases kind <;> cases v <;> simp only [Value.Fits] at h
  case number.number x => simp [OptionKind.read?, Value.text, Binary64.ofText?_text h, h]
  case string.string => rfl
  case enum.enum => simp [OptionKind.read?, Value.text, h.2]
  case boolean.boolean b => cases b <;> rfl

theorem text_ne_empty (h : v.Fits kind) : v.text ≠ "" := by
  cases kind <;> cases v <;> simp only [Value.Fits] at h
  case number.number x => exact Binary64.text_ne_empty h
  case string.string => exact h
  case enum.enum => exact h.1
  case boolean.boolean b => cases b <;> decide

/-- Numbers and booleans never need quotation marks, so every value is typed like its text. -/
theorem typed_eq (h : v.Fits kind) : v.typed = Searchbar.typed v.text := by
  cases kind <;> cases v <;> simp only [Value.Fits] at h
  case number.number x => simp [Value.typed, Value.text, Searchbar.typed, needsQuotes_number h]
  case string.string => rfl
  case enum.enum => rfl
  case boolean.boolean b => cases b <;> decide

end Value.Fits

end Searchbar
