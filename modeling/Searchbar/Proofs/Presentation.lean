import Mathlib.Data.List.Forall2
import Searchbar.Example.Media
import Searchbar.Proofs.ScanStep

/-!
# A query is read alike however a schema is presented

Two schemas are **alike** if they declare the same names, and under each name the same type, the same
rule on repetition and the same choices. They may differ in the order of the options, in titles,
defaults and sources, and in the order and repetition of choices. Then every query is read alike: the
errors and the results are the same, and so are the tokens, up to what a hint says about its option
beyond the name (`parse_alike`).

The two scans go in lock step. `Scan.Alike` relates them: their texts, offsets, results and errors are
equal, their tokens are alike one by one, and if they read a value, then of options that are alike.
Every operation of a scan keeps this, and so does every character (`Scan.Alike.step`). What is read
from the schema enters in three places only:

* a name is looked up, which does not depend on the order since no name is declared twice
  (`Schema.Alike.get?`);
* a text is read as a value, which uses choices by membership only (`OptionKind.Alike.read?`);
* a value is stored under the name and the rule of its option (`OptionSpec.Alike.store`).
-/

namespace Searchbar

/-! ### Schemas that are alike -/

/-- **Kinds that are alike**: of the same type, and with the same choices in any order and however
often. -/
def OptionKind.Alike : OptionKind → OptionKind → Prop
  | .number _, .number _ => True
  | .string _, .string _ => True
  | .enum choices, .enum choices' =>
    (∀ choice ∈ choices, choice ∈ choices') ∧ ∀ choice ∈ choices', choice ∈ choices
  | .boolean, .boolean => True
  | _, _ => False

instance : ∀ kind kind' : OptionKind, Decidable (kind.Alike kind')
  | .number _, .number _ | .string _, .string _ | .boolean, .boolean => .isTrue trivial
  | .enum choices, .enum choices' =>
    inferInstanceAs (Decidable ((∀ choice ∈ choices, choice ∈ choices') ∧
      ∀ choice ∈ choices', choice ∈ choices))
  | .number _, .string _ | .number _, .enum _ | .number _, .boolean => .isFalse id
  | .string _, .number _ | .string _, .enum _ | .string _, .boolean => .isFalse id
  | .enum _, .number _ | .enum _, .string _ | .enum _, .boolean => .isFalse id
  | .boolean, .number _ | .boolean, .string _ | .boolean, .enum _ => .isFalse id

/-- **Options that are alike.** Their titles, defaults and sources do not matter. -/
structure OptionSpec.Alike (spec spec' : OptionSpec) : Prop where
  name : spec.name = spec'.name
  multiple : spec.multiple = spec'.multiple
  kind : spec.kind.Alike spec'.kind

instance (spec spec' : OptionSpec) : Decidable (spec.Alike spec') :=
  decidable_of_iff (spec.name = spec'.name ∧ spec.multiple = spec'.multiple ∧
      spec.kind.Alike spec'.kind)
    ⟨fun ⟨hn, hm, hk⟩ => ⟨hn, hm, hk⟩, fun h => ⟨h.name, h.multiple, h.kind⟩⟩

/-- **Schemas that are alike**: each option of one is alike to an option of the other. -/
structure Schema.Alike (schema schema' : Schema) : Prop where
  left : ∀ spec ∈ schema.options, ∃ spec' ∈ schema'.options, spec.Alike spec'
  right : ∀ spec' ∈ schema'.options, ∃ spec ∈ schema.options, spec.Alike spec'

instance (schema schema' : Schema) : Decidable (schema.Alike schema') :=
  decidable_of_iff ((∀ spec ∈ schema.options, ∃ spec' ∈ schema'.options, spec.Alike spec') ∧
      ∀ spec' ∈ schema'.options, ∃ spec ∈ schema.options, spec.Alike spec')
    ⟨fun ⟨hl, hr⟩ => ⟨hl, hr⟩, fun h => ⟨h.left, h.right⟩⟩

namespace OptionKind.Alike

variable {kind kind' : OptionKind}

theorem symm (h : kind.Alike kind') : kind'.Alike kind := by
  cases kind <;> cases kind' <;> simp_all [Alike]

/-- Types that are alike have one name. -/
theorem name (h : kind.Alike kind') : kind.name = kind'.name := by
  cases kind <;> cases kind' <;> simp_all [Alike, OptionKind.name]

/-- **The same texts are values**, and they stand for the same values. -/
theorem read? (h : kind.Alike kind') (text : String) : kind.read? text = kind'.read? text := by
  cases kind <;> cases kind' <;> simp only [Alike] at h
  case enum.enum choices choices' =>
    have same : choices.contains text = choices'.contains text := by
      rw [Bool.eq_iff_iff, List.contains_iff_mem, List.contains_iff_mem]
      exact ⟨h.1 text, h.2 text⟩
    simp only [OptionKind.read?, same]
  all_goals rfl

/-- Accepted values are shown alike. -/
theorem ofValue (h : kind.Alike kind') : TokenKind.ofValue kind = TokenKind.ofValue kind' := by
  cases kind <;> cases kind' <;> simp_all [Alike, TokenKind.ofValue]

end OptionKind.Alike

namespace OptionSpec.Alike

variable {spec spec' : OptionSpec}

theorem symm (h : spec.Alike spec') : spec'.Alike spec :=
  ⟨h.name.symm, h.multiple.symm, h.kind.symm⟩

theorem read? (h : spec.Alike spec') (text : String) : spec.read? text = spec'.read? text :=
  h.kind.read? text

/-- **Values are stored alike.** -/
theorem store (h : spec.Alike spec') (r : SearchResult) (v : Value) :
    r.store spec v = r.store spec' v := by
  rw [SearchResult.store, SearchResult.store, h.name, h.multiple]

end OptionSpec.Alike

namespace Schema.Alike

variable {schema schema' : Schema}

theorem symm (h : schema.Alike schema') : schema'.Alike schema where
  left spec' hspec' := by
    obtain ⟨spec, hspec, alike⟩ := h.right spec' hspec'
    exact ⟨spec, hspec, alike.symm⟩
  right spec hspec := by
    obtain ⟨spec', hspec', alike⟩ := h.left spec hspec
    exact ⟨spec', hspec', alike.symm⟩

/-- **A name stands for options that are alike.** -/
theorem get? (h : schema.Alike schema') {name : String} {spec : OptionSpec}
    (hget : schema.get? name = some spec) :
    ∃ spec', schema'.get? name = some spec' ∧ spec.Alike spec' := by
  obtain ⟨hmem, hname⟩ := Schema.get?_eq_some_iff.mp hget
  obtain ⟨spec', hmem', alike⟩ := h.left spec hmem
  exact ⟨spec', Schema.get?_eq_some_iff.mpr ⟨hmem', alike.name.symm.trans hname⟩, alike⟩

/-- A name stands for an option in both schemas or in none. -/
theorem isSome_get? (h : schema.Alike schema') (name : String) :
    (schema.get? name).isSome = (schema'.get? name).isSome := by
  rw [Bool.eq_iff_iff, Option.isSome_iff_exists, Option.isSome_iff_exists]
  constructor
  · rintro ⟨spec, hget⟩
    obtain ⟨spec', hget', -⟩ := h.get? hget
    exact ⟨spec', hget'⟩
  · rintro ⟨spec', hget'⟩
    obtain ⟨spec, hget, -⟩ := h.symm.get? hget'
    exact ⟨spec, hget⟩

end Schema.Alike

/-! ### Tokens and scans that are alike -/

/-- What a hint shows: of an option only its name. -/
inductive Hint.Label where
  | none
  | options
  | value (name : String)
  deriving DecidableEq

/-- The hint with its option replaced by the name. -/
def Hint.label : Hint → Hint.Label
  | .none => .none
  | .options => .options
  | .value spec => .value spec.name

/-- **Tokens that are alike**: equal, up to what their hints say about an option beyond its name. -/
structure Token.Alike (t t' : Token) : Prop where
  kind : t.kind = t'.kind
  raw : t.raw = t'.raw
  text : t.text = t'.text
  span : t.span = t'.span
  hint : t.hint.label = t'.hint.label

theorem Token.Alike.symm {t t' : Token} (h : t.Alike t') : t'.Alike t :=
  ⟨h.kind.symm, h.raw.symm, h.text.symm, h.span.symm, h.hint.symm⟩

/-- **What is read alike.** -/
structure Parse.Alike (p p' : Parse) : Prop where
  tokens : List.Forall₂ Token.Alike p.tokens p'.tokens
  result : p.result = p'.result
  error : p.error = p'.error

/-- Where scans stand that read alike. -/
inductive Mode.Alike : Mode → Mode → Prop
  | bare : Alike .bare .bare
  | quotedText (escaping : Bool) : Alike (.quotedText escaping) (.quotedText escaping)
  | value {spec spec' : OptionSpec} (h : spec.Alike spec') : Alike (.value spec) (.value spec')
  | quotedValue {spec spec' : OptionSpec} (h : spec.Alike spec') (escaping : Bool) :
      Alike (.quotedValue spec escaping) (.quotedValue spec' escaping)

theorem Mode.Alike.symm {m m' : Mode} (h : m.Alike m') : m'.Alike m := by
  cases h with
  | bare => exact .bare
  | quotedText escaping => exact .quotedText escaping
  | value h => exact .value h.symm
  | quotedValue h escaping => exact .quotedValue h.symm escaping

namespace Scan

/-- **Scans in lock step.** -/
structure Alike (s s' : Scan) : Prop where
  mode : s.mode.Alike s'.mode
  raw : s.raw = s'.raw
  decoded : s.decoded = s'.decoded
  cursor : s.cursor = s'.cursor
  valueStart : s.valueStart = s'.valueStart
  tokens : List.Forall₂ Token.Alike s.tokens s'.tokens
  result : s.result = s'.result
  error : s.error = s'.error

/-! ### Reaching back -/

theorem mapFrom_alike (start : Nat) {f : Token → Token}
    (hf : ∀ t t' : Token, t.Alike t' → (f t).Alike (f t')) {tokens tokens' : List Token}
    (h : List.Forall₂ Token.Alike tokens tokens') :
    List.Forall₂ Token.Alike (mapFrom start f tokens) (mapFrom start f tokens') := by
  induction h with
  | nil => exact .nil
  | @cons t t' earlier earlier' ht hrest ih =>
    rw [mapFrom, mapFrom, ht.span]
    split
    · exact .cons (hf t t' ht) ih
    · exact .cons ht hrest

theorem rejectToken_alike {t t' : Token} (h : t.Alike t') :
    (rejectToken t).Alike (rejectToken t') := by
  unfold rejectToken
  rw [h.kind]
  split
  · exact ⟨rfl, h.raw, h.text, h.span, h.hint⟩
  · exact h

theorem retagFrom_alike (start : Nat) (kind : TokenKind) (text : String)
    {tokens tokens' : List Token} (h : List.Forall₂ Token.Alike tokens tokens') :
    List.Forall₂ Token.Alike (retagFrom start kind text tokens)
      (retagFrom start kind text tokens') := by
  induction h with
  | nil => exact .nil
  | @cons t t' earlier earlier' ht hrest ih =>
    rw [retagFrom, retagFrom, ht.span, ht.kind]
    split
    · split
      · exact .cons ⟨rfl, ht.raw, rfl, rfl, ht.hint⟩ hrest
      · exact .cons ht ih
    · exact .cons ht hrest

namespace Alike

variable {schema schema' : Schema} {s s' : Scan} {spec spec' : OptionSpec}

/-! ### Tokens and errors -/

theorem emit (h : s.Alike s') (kind : TokenKind) (raw text : String) {hint hint' : Hint}
    (hhint : hint.label = hint'.label) :
    (s.emit kind raw text hint).Alike (s'.emit kind raw text hint') where
  mode := h.mode
  raw := h.raw
  decoded := h.decoded
  cursor := by rw [Scan.emit, Scan.emit, h.cursor]
  valueStart := h.valueStart
  tokens := .cons ⟨rfl, rfl, rfl, by rw [h.cursor], hhint⟩ h.tokens
  result := h.result
  error := h.error

/-- A blank joins a space in both scans or in none. -/
theorem emitSpace (h : s.Alike s') (c : Char) : (s.emitSpace c).Alike (s'.emitSpace c) := by
  have fresh : (s.emit .space (String.singleton c) "" .options).Alike
      (s'.emit .space (String.singleton c) "" .options) := h.emit _ _ _ rfl
  have htokens := h.tokens
  unfold Scan.emitSpace
  cases hs : s.tokens with
  | nil =>
    rw [hs, List.forall₂_nil_left_iff] at htokens
    rw [htokens]
    exact fresh
  | cons last earlier =>
    rw [hs] at htokens
    obtain ⟨last', earlier', hlast, hearlier, hs'⟩ := List.forall₂_cons_left_iff.mp htokens
    simp only [hs']
    -- whether the blank joins is decided by the class and the end of the last token
    rw [hlast.kind, hlast.span, h.cursor]
    split
    · refine ⟨h.mode, h.raw, h.decoded, rfl, h.valueStart, .cons ?_ hearlier, h.result, h.error⟩
      exact ⟨rfl, by rw [hlast.raw], hlast.text, rfl, hlast.hint⟩
    · exact fresh

theorem reportAt (h : s.Alike s') (position : Nat) (fault : SyntaxFault) :
    (s.reportAt position fault).Alike (s'.reportAt position fault) := by
  unfold Scan.reportAt
  rw [h.error]
  split
  · exact h
  · exact ⟨h.mode, h.raw, h.decoded, h.cursor, h.valueStart, h.tokens, h.result, rfl⟩

theorem report (h : s.Alike s') (fault : SyntaxFault) : (s.report fault).Alike (s'.report fault) := by
  unfold Scan.report
  rw [h.cursor]
  exact h.reportAt _ fault

theorem stray (h : s.Alike s') (c : Char) (fault : SyntaxFault) :
    (s.stray c fault).Alike (s'.stray c fault) :=
  (h.report fault).emit _ _ _ rfl

theorem withMode (h : s.Alike s') {mode mode' : Mode} (hm : mode.Alike mode') :
    ({ s with mode := mode } : Scan).Alike { s' with mode := mode' } :=
  ⟨hm, h.raw, h.decoded, h.cursor, h.valueStart, h.tokens, h.result, h.error⟩

theorem withRaw (h : s.Alike s') {mode mode' : Mode} (hm : mode.Alike mode') (raw : String) :
    ({ s with mode := mode, raw := raw } : Scan).Alike { s' with mode := mode', raw := raw } :=
  ⟨hm, rfl, h.decoded, h.cursor, h.valueStart, h.tokens, h.result, h.error⟩

/-- Scans in lock step take on the same pending text. -/
theorem pending (h : s.Alike s') {mode mode' : Mode} (hm : mode.Alike mode') (raw decoded : String) :
    ({ s with mode := mode, raw := raw, decoded := decoded } : Scan).Alike
      { s' with mode := mode', raw := raw, decoded := decoded } :=
  ⟨hm, rfl, rfl, h.cursor, h.valueStart, h.tokens, h.result, h.error⟩

/-! ### Words -/

theorem accumulate (h : s.Alike s') (c : Char) : (s.accumulate c).Alike (s'.accumulate c) := by
  unfold Scan.accumulate
  rw [h.raw, h.decoded]
  exact h.pending h.mode _ _

theorem flush (h : s.Alike s') {hint hint' : Hint} (hhint : hint.label = hint'.label) :
    (s.flush hint).Alike (s'.flush hint') := by
  unfold Scan.flush
  rw [h.raw, h.decoded]
  split
  · exact h
  · have made := h.emit .text s'.raw s'.decoded hhint
    exact ⟨made.mode, rfl, made.decoded, made.cursor, made.valueStart, made.tokens, made.result,
      made.error⟩

theorem finishWord (h : s.Alike s') : s.finishWord.Alike s'.finishWord := by
  have flushed : (s.flush .options).Alike (s'.flush .options) := h.flush rfl
  refine ⟨.bare, flushed.raw, rfl, flushed.cursor, flushed.valueStart, flushed.tokens, ?_,
    flushed.error⟩
  simp only [Scan.finishWord]
  rw [flushed.result, flushed.decoded]

/-! ### Names -/

/-- A word that is taken as a name in one scan is taken in the other. -/
theorem takes (h : s.Alike s') (hs : schema.Alike schema') (takes : s.Takes schema spec) :
    ∃ spec', spec.Alike spec' ∧ s'.Takes schema' spec' := by
  obtain ⟨spec', hget', alike⟩ := hs.get? takes.1
  refine ⟨spec', alike, h.decoded ▸ hget', ?_⟩
  rw [← alike.multiple, ← h.decoded, ← h.result]
  exact takes.2

theorem symm (h : s.Alike s') : s'.Alike s where
  mode := h.mode.symm
  raw := h.raw.symm
  decoded := h.decoded.symm
  cursor := h.cursor.symm
  valueStart := h.valueStart.symm
  tokens := (h.tokens.imp fun _ _ ht => ht.symm).flip
  result := h.result.symm
  error := h.error.symm

theorem refusal (h : s.Alike s') (hs : schema.Alike schema') :
    s.refusal schema = s'.refusal schema' := by
  unfold Scan.refusal
  rw [h.decoded, hs.isSome_get?]

/-- The value starts at the same offset, and it is of options that are alike. -/
theorem openValue (h : s.Alike s') (alike : spec.Alike spec') :
    (s.openValue spec).Alike (s'.openValue spec') := by
  have made := (h.pending h.mode "" "").emit .optionName (s'.raw.push ':') s'.decoded
    (show Hint.label .none = Hint.label .none from rfl)
  unfold Scan.openValue
  rw [h.raw, h.decoded]
  exact ⟨.value alike, made.raw, made.decoded, made.cursor, made.cursor, made.tokens, made.result,
    made.error⟩

theorem refuseName (h : s.Alike s') (fault : SyntaxFault) :
    (s.refuseName fault).Alike (s'.refuseName fault) := by
  have made := ((h.pending h.mode "" "").report fault).emit .invalidOptionName (s'.raw.push ':')
    s'.decoded (show Hint.label .none = Hint.label .none from rfl)
  unfold Scan.refuseName
  rw [h.raw, h.decoded]
  exact made

/-- **A name is taken in both scans or in none.** -/
theorem finishName (h : s.Alike s') (hs : schema.Alike schema') :
    (s.finishName schema).Alike (s'.finishName schema') := by
  by_cases taken : ∃ spec, s.Takes schema spec
  · obtain ⟨spec, takes⟩ := taken
    obtain ⟨spec', alike, takes'⟩ := h.takes hs takes
    rw [finishName_taken s schema takes, finishName_taken s' schema' takes']
    exact h.openValue alike
  · -- lock step is symmetric, so a name taken by the second scan would be taken by the first
    have refused : ∀ spec', ¬s'.Takes schema' spec' := by
      intro spec' takes'
      obtain ⟨spec, -, takes⟩ := h.symm.takes hs.symm takes'
      exact taken ⟨spec, takes⟩
    rw [finishName_refused s schema (not_exists.mp taken), finishName_refused s' schema' refused,
      h.refusal hs]
    exact h.refuseName _

/-! ### Values -/

theorem rejectValue (h : s.Alike s') : s.rejectValue.Alike s'.rejectValue := by
  refine ⟨h.mode, h.raw, h.decoded, h.cursor, h.valueStart, ?_, h.result, h.error⟩
  unfold Scan.rejectValue
  rw [h.valueStart]
  exact mapFrom_alike _ (fun _ _ => rejectToken_alike) h.tokens

/-- The hint of a value shows the name of its option. -/
theorem label_value (alike : spec.Alike spec') :
    (Hint.value spec).label = (Hint.value spec').label :=
  congrArg Hint.Label.value alike.name

theorem carryValue (h : s.Alike s') (alike : spec.Alike spec') (kind : TokenKind)
    (raw value : String) :
    (s.carryValue spec kind raw value).Alike (s'.carryValue spec' kind raw value) := by
  unfold Scan.carryValue
  split
  · refine ⟨h.mode, h.raw, h.decoded, h.cursor, h.valueStart, ?_, h.result, h.error⟩
    rw [h.valueStart]
    exact retagFrom_alike _ kind value h.tokens
  · exact h.emit kind raw value (label_value alike)

theorem cleared (h : s.Alike s') : s.cleared.Alike s'.cleared := h.pending .bare "" ""

/-- **A value meets the same end** in both scans. -/
theorem completeValue (h : s.Alike s') (alike : spec.Alike spec') :
    (s.completeValue spec).Alike (s'.completeValue spec') := by
  rcases value_cases s spec with hd | ⟨hd, v, hv⟩ | ⟨hd, hv⟩
  · -- the value is missing: the report names the option
    rw [completeValue_missing s spec hd, completeValue_missing s' spec' (h.decoded ▸ hd), h.raw,
      h.valueStart, alike.name]
    exact ((h.cleared.reportAt _ _).rejectValue).emit _ _ _ (label_value alike)
  · -- the value is accepted: the same value is stored under the same name
    have hv' : spec'.read? s'.decoded = some v := by rw [← h.decoded, ← alike.read?, hv]
    rw [completeValue_accepted s spec hd hv, completeValue_accepted s' spec' (h.decoded ▸ hd) hv',
      h.raw, h.decoded, alike.kind.ofValue, h.result, alike.store]
    have cleared := h.cleared
    refine Alike.carryValue ?_ alike _ _ _
    exact ⟨cleared.mode, rfl, rfl, cleared.cursor, cleared.valueStart, cleared.tokens, rfl,
      cleared.error⟩
  · -- the value is rejected: the report names the option and its type
    have hv' : spec'.read? s'.decoded = none := by rw [← h.decoded, ← alike.read?, hv]
    rw [completeValue_rejected s spec hd hv, completeValue_rejected s' spec' (h.decoded ▸ hd) hv',
      h.raw, h.decoded, h.valueStart, alike.name, alike.kind.name]
    exact ((h.cleared.reportAt _ _).rejectValue).carryValue alike _ _ _

/-! ### Escapes -/

theorem escape (h : s.Alike s') (c : Char) {hint hint' : Hint} (hhint : hint.label = hint'.label) :
    (s.escape c hint).Alike (s'.escape c hint') := by
  unfold Scan.escape
  dsimp only
  rw [h.raw, h.decoded]
  split
  · exact (h.pending h.mode _ _).emit _ _ _ hhint
  · exact ((h.pending h.mode _ _).report _).emit _ _ _ hhint

theorem danglingEscape (h : s.Alike s') {hint hint' : Hint} (hhint : hint.label = hint'.label) :
    (s.danglingEscape hint).Alike (s'.danglingEscape hint') := by
  have made := (h.report .invalidEscape).emit .invalidEscapeSequence s'.raw s'.decoded hhint
  unfold Scan.danglingEscape
  rw [h.raw, h.decoded]
  exact ⟨made.mode, rfl, made.decoded, made.cursor, made.valueStart, made.tokens, made.result,
    made.error⟩

theorem missingQuote (h : s.Alike s') : s.missingQuote.Alike s'.missingQuote :=
  (h.report _).emit _ _ _ rfl

/-! ### Steps -/

theorem stepBare (h : s.Alike s') (hs : schema.Alike schema') (c : Char) :
    (s.stepBare schema c).Alike (s'.stepBare schema' c) := by
  unfold Scan.stepBare
  rw [h.raw, h.decoded]
  split_ifs
  · exact h.finishWord.emitSpace c
  · exact h.pending (.quotedText false) _ _
  · exact (h.flush rfl).stray c _
  · exact (h.flush rfl).stray c _
  · exact h.stray c _
  · exact h.finishName hs
  · exact h.accumulate c

theorem stepQuotedText (h : s.Alike s') (escaping : Bool) (c : Char) :
    (s.stepQuotedText escaping c).Alike (s'.stepQuotedText escaping c) := by
  have flushed : (s.flush .options).Alike (s'.flush .options) := h.flush rfl
  have escaped : (s.escape c .none).Alike (s'.escape c .none) := h.escape c rfl
  unfold Scan.stepQuotedText
  dsimp only
  split_ifs
  · exact escaped.withMode (.quotedText false)
  · rw [flushed.raw]
    exact flushed.withRaw (.quotedText true) _
  · rw [h.raw]
    exact (h.withRaw h.mode _).finishWord
  · exact h.accumulate c

theorem stepValue (h : s.Alike s') (alike : spec.Alike spec') (c : Char) :
    (s.stepValue spec c).Alike (s'.stepValue spec' c) := by
  have completed := h.completeValue alike
  unfold Scan.stepValue
  rw [h.raw]
  split_ifs
  · exact completed.emitSpace c
  · exact h.withRaw (.quotedValue alike false) _
  · exact completed.stray c _
  · exact completed.stray c _
  · exact completed.stray c _
  · exact h.accumulate c

theorem stepQuotedValue (h : s.Alike s') (alike : spec.Alike spec') (escaping : Bool) (c : Char) :
    (s.stepQuotedValue spec escaping c).Alike (s'.stepQuotedValue spec' escaping c) := by
  have flushed := h.flush (label_value alike)
  have escaped := h.escape c (label_value alike)
  unfold Scan.stepQuotedValue
  dsimp only
  split_ifs
  · exact escaped.withMode (.quotedValue alike false)
  · rw [flushed.raw]
    exact flushed.withRaw (.quotedValue alike true) _
  · rw [h.raw]
    exact (h.withRaw h.mode _).completeValue alike
  · exact h.accumulate c

/-- **Every character keeps two scans in lock step.** -/
theorem step (h : s.Alike s') (hs : schema.Alike schema') (c : Char) :
    (s.step schema c).Alike (s'.step schema' c) := by
  have modes := h.mode
  unfold Scan.step
  cases hm : s.mode <;> cases hm' : s'.mode <;> rw [hm, hm'] at modes <;> cases modes
  case bare.bare => exact h.stepBare hs c
  case quotedText.quotedText.quotedText escaping => exact h.stepQuotedText escaping c
  case value.value.value spec spec' alike => exact h.stepValue alike c
  case quotedValue.quotedValue.quotedValue spec escaping spec' alike =>
    exact h.stepQuotedValue alike escaping c

/-- The end of the query keeps two scans in lock step. -/
theorem close (h : s.Alike s') : s.close.Alike s'.close := by
  have modes := h.mode
  unfold Scan.close
  cases hm : s.mode <;> cases hm' : s'.mode <;> rw [hm, hm'] at modes <;> cases modes
  case bare.bare => exact h.finishWord
  case quotedText.quotedText.quotedText escaping =>
    cases escaping with
    | false => exact h.finishWord.missingQuote
    | true =>
      have broken : (s.danglingEscape .none).Alike (s'.danglingEscape .none) := h.danglingEscape rfl
      exact broken.finishWord.missingQuote
  case value.value.value spec spec' alike => exact h.completeValue alike
  case quotedValue.quotedValue.quotedValue spec escaping spec' alike =>
    cases escaping with
    | false => exact (h.completeValue alike).missingQuote
    | true => exact ((h.danglingEscape (label_value alike)).completeValue alike).missingQuote

/-- **Every text keeps two scans in lock step.** -/
theorem run (h : s.Alike s') (hs : schema.Alike schema') (text : List Char) :
    (s.run schema text).Alike (s'.run schema' text) := by
  induction text generalizing s s' with
  | nil => exact h
  | cons c text ih => exact ih (h.step hs c)

end Alike

end Scan

/-! ### Whole queries -/

/-- **A query is read alike under schemas that are alike.** -/
theorem parse_alike {schema schema' : Schema} (h : schema.Alike schema') (query : String) :
    (parse schema query).Alike (parse schema' query) := by
  have start : ({} : Scan).Alike {} := ⟨.bare, rfl, rfl, rfl, rfl, .nil, rfl, rfl⟩
  have closed := (start.run h query.toList).close
  exact ⟨List.forall₂_reverse_iff.mpr closed.tokens, closed.result, closed.error⟩

namespace Example

/-- The options of the media library in another order, with other titles, defaults and sources, and
with a choice that is listed twice. -/
def rearrangedOptions : List OptionSpec :=
  [{ name := "archived", title := some "In the attic", default := some "no", kind := .boolean },
   { name := "sort", default := some "name", kind := .enum ["name", "oldest", "name", "newest"] },
   { name := "year", kind := .number (some (.constant 1 [{ name := "2024" }])) },
   { name := "tag", multiple := true, default := some "new", kind := .string none },
   { name := "author", kind := .string (some (.listed 2 tagCandidates)) },
   { name := "title", title := some "Title", kind := .string none }]

/-- The media library, presented in another way. -/
def rearranged : Schema :=
  have h : Schema.fault? [] rearrangedOptions = none := by decide
  ⟨rearrangedOptions, Schema.sound_of_fault? h, (Schema.distinct_of_fault? h).1⟩

/-- A query with values of several kinds, a repeated option and a rejected choice is read alike under
both presentations of the media library. -/
theorem parse_alike_rearranged : media.Alike rearranged ∧
    (parse media "tag:a year:2 sort:name year:3 sort:late").Alike
      (parse rearranged "tag:a year:2 sort:name year:3 sort:late") :=
  have h : media.Alike rearranged := by decide
  ⟨h, parse_alike h _⟩

end Example

end Searchbar
