import Searchbar.Query.Scan

/-!
# What one character does to a scan

The four modes of a scan are two situations, each for free text and for the value of an option. A
**target** is what is being read: `none` for free text, `some spec` for a value of `spec`. Then a
scan is either outside quotation marks (`Mode.outside`) or inside them (`Mode.quoted`), and what it
does at the end of a word or value is `Scan.finish`.

* `Scan.Move` lists everything a character can do to a scan, and `Scan.step_move` says that the
  list is complete. An invariant of scans is proved by going through this list.
* `Scan.step_blank`, `Scan.step_ordinary` and their like say which entry of the list applies.
* `scan_induction` takes an invariant from one character to a whole text.

The first section says of each operation which parts of a scan it leaves alone.
-/

namespace Searchbar

/-- An **ordinary** character: not a blank and without a meaning in queries. -/
def isOrdinary (c : Char) : Bool := !Text.isBlank c && !isReserved c

theorem isOrdinary_iff {c : Char} :
    isOrdinary c = true ↔ Text.isBlank c = false ∧ c ≠ ':' ∧ c ≠ '"' ∧ c ≠ '\\' := by
  simp [isOrdinary, isReserved, and_assoc]

/-- A text that ends in pending text, with one more character. -/
theorem append_push_eq_ofList {before raw : String} {cs : List Char}
    (h : before ++ raw = String.ofList cs) (c : Char) :
    before ++ raw.push c = String.ofList (cs ++ [c]) := by
  rw [String.ofList_append, ← h, String.append_assoc, ← String.singleton_eq_ofList,
    String.append_singleton]

/-- Outside quotation marks, in free text or in a value. -/
def Mode.outside : Option OptionSpec → Mode
  | none => .bare
  | some spec => .value spec

/-- Inside quotation marks, in free text or in a value. -/
def Mode.quoted : Option OptionSpec → Bool → Mode
  | none, escaping => .quotedText escaping
  | some spec, escaping => .quotedValue spec escaping

/-- A mode is outside quotation marks or inside them, for one target. -/
theorem Mode.outside_or_quoted (m : Mode) :
    ∃ target, m = .outside target ∨ ∃ escaping, m = .quoted target escaping := by
  cases m with
  | bare => exact ⟨none, .inl rfl⟩
  | quotedText escaping => exact ⟨none, .inr ⟨escaping, rfl⟩⟩
  | value spec => exact ⟨some spec, .inl rfl⟩
  | quotedValue spec escaping => exact ⟨some spec, .inr ⟨escaping, rfl⟩⟩

/-- What is being read. -/
def Mode.target : Mode → Option OptionSpec
  | .bare => none
  | .quotedText _ => none
  | .value spec => some spec
  | .quotedValue spec _ => some spec

@[simp] theorem Mode.target_outside (target : Option OptionSpec) :
    (Mode.outside target).target = target := by
  cases target <;> rfl

@[simp] theorem Mode.target_quoted (target : Option OptionSpec) (escaping : Bool) :
    (Mode.quoted target escaping).target = target := by
  cases target <;> rfl

@[simp] theorem Mode.outside_none : Mode.outside none = .bare := rfl

@[simp] theorem Mode.outside_ne_quoted (target target' : Option OptionSpec) (escaping : Bool) :
    Mode.outside target ≠ Mode.quoted target' escaping := by
  cases target <;> cases target' <;> nofun

@[simp] theorem Mode.quoted_inj {target target' : Option OptionSpec} {escaping escaping' : Bool} :
    Mode.quoted target escaping = Mode.quoted target' escaping' ↔
      target = target' ∧ escaping = escaping' := by
  cases target <;> cases target' <;> simp [Mode.quoted]

/-- The hint of text that belongs to a target. -/
def Hint.ofText : Option OptionSpec → Hint
  | .none => .options
  | .some spec => .value spec

/-- The hint of an escape that belongs to a target. -/
def Hint.ofEscape : Option OptionSpec → Hint
  | .none => .none
  | .some spec => .value spec

namespace Scan

/-- **The end of a word or value**, whichever the target is. -/
def finish (s : Scan) : Option OptionSpec → Scan
  | none => s.finishWord
  | some spec => s.completeValue spec

/-- A quotation mark that opens a quotation. -/
def openQuote (s : Scan) (target : Option OptionSpec) : Scan :=
  { s with mode := .quoted target false, raw := s.raw.push '"' }

@[simp] theorem openQuote_mode (s : Scan) (target : Option OptionSpec) :
    (s.openQuote target).mode = .quoted target false := rfl

/-- A backslash inside quotation marks. -/
def openEscape (s : Scan) (target : Option OptionSpec) : Scan :=
  let t := s.flush (.ofText target)
  { t with mode := .quoted target true, raw := t.raw.push '\\' }

/-- The character after the backslash. -/
def closeEscape (s : Scan) (target : Option OptionSpec) (c : Char) : Scan :=
  { s.escape c (.ofEscape target) with mode := .quoted target false }

/-- A quotation mark that closes a quotation. -/
def closeQuote (s : Scan) (target : Option OptionSpec) : Scan :=
  { s with raw := s.raw.push '"' }.finish target

/-- The end of the query inside quotation marks. -/
def breakOff (s : Scan) (target : Option OptionSpec) (escaping : Bool) : Scan :=
  ((if escaping then s.danglingEscape (.ofEscape target) else s).finish target).missingQuote

/-! ### What an operation leaves alone -/

section Frame

variable (s : Scan) (kind : TokenKind) (raw text : String) (hint : Hint) (c : Char)
  (position : Nat) (fault : SyntaxFault) (spec : OptionSpec)

@[simp] theorem emit_mode : (s.emit kind raw text hint).mode = s.mode := rfl
@[simp] theorem emit_raw : (s.emit kind raw text hint).raw = s.raw := rfl
@[simp] theorem emit_decoded : (s.emit kind raw text hint).decoded = s.decoded := rfl
@[simp] theorem emit_valueStart : (s.emit kind raw text hint).valueStart = s.valueStart := rfl
@[simp] theorem emit_result : (s.emit kind raw text hint).result = s.result := rfl
@[simp] theorem emit_error : (s.emit kind raw text hint).error = s.error := rfl

@[simp] theorem emitSpace_mode : (s.emitSpace c).mode = s.mode := by
  unfold emitSpace; split; · rfl
  split <;> rfl

@[simp] theorem emitSpace_raw : (s.emitSpace c).raw = s.raw := by
  unfold emitSpace; split; · rfl
  split <;> rfl

@[simp] theorem emitSpace_decoded : (s.emitSpace c).decoded = s.decoded := by
  unfold emitSpace; split; · rfl
  split <;> rfl

@[simp] theorem emitSpace_result : (s.emitSpace c).result = s.result := by
  unfold emitSpace; split; · rfl
  split <;> rfl

@[simp] theorem emitSpace_error : (s.emitSpace c).error = s.error := by
  unfold emitSpace; split; · rfl
  split <;> rfl

@[simp] theorem reportAt_mode : (s.reportAt position fault).mode = s.mode := by
  unfold reportAt; split <;> rfl

@[simp] theorem reportAt_raw : (s.reportAt position fault).raw = s.raw := by
  unfold reportAt; split <;> rfl

@[simp] theorem reportAt_decoded : (s.reportAt position fault).decoded = s.decoded := by
  unfold reportAt; split <;> rfl

@[simp] theorem reportAt_cursor : (s.reportAt position fault).cursor = s.cursor := by
  unfold reportAt; split <;> rfl

@[simp] theorem reportAt_valueStart : (s.reportAt position fault).valueStart = s.valueStart := by
  unfold reportAt; split <;> rfl

@[simp] theorem reportAt_tokens : (s.reportAt position fault).tokens = s.tokens := by
  unfold reportAt; split <;> rfl

@[simp] theorem reportAt_result : (s.reportAt position fault).result = s.result := by
  unfold reportAt; split <;> rfl

/-- The first error is kept. -/
@[simp] theorem reportAt_error :
    (s.reportAt position fault).error = s.error.or (some ⟨position, fault⟩) := by
  unfold reportAt
  cases h : s.error <;> simp [h]

@[simp] theorem stray_mode : (s.stray c fault).mode = s.mode := by simp [stray, report]
@[simp] theorem stray_raw : (s.stray c fault).raw = s.raw := by simp [stray, report]
@[simp] theorem stray_decoded : (s.stray c fault).decoded = s.decoded := by simp [stray, report]
@[simp] theorem stray_result : (s.stray c fault).result = s.result := by simp [stray, report]

@[simp] theorem stray_error :
    (s.stray c fault).error = s.error.or (some ⟨s.cursor, fault⟩) := by
  simp [stray, report]

@[simp] theorem flush_mode : (s.flush hint).mode = s.mode := by
  unfold flush; split <;> rfl

/-- Nothing is pending after a flush. -/
@[simp] theorem flush_raw : (s.flush hint).raw = "" := by
  unfold flush
  split
  · next h => exact String.isEmpty_iff.mp h
  · rfl

@[simp] theorem flush_decoded : (s.flush hint).decoded = s.decoded := by
  unfold flush; split <;> rfl

@[simp] theorem flush_valueStart : (s.flush hint).valueStart = s.valueStart := by
  unfold flush; split <;> rfl

@[simp] theorem flush_result : (s.flush hint).result = s.result := by
  unfold flush; split <;> rfl

@[simp] theorem flush_error : (s.flush hint).error = s.error := by
  unfold flush; split <;> rfl

@[simp] theorem carryValue_mode : (s.carryValue spec kind raw text).mode = s.mode := by
  unfold carryValue; split <;> rfl

@[simp] theorem carryValue_raw : (s.carryValue spec kind raw text).raw = s.raw := by
  unfold carryValue; split <;> rfl

@[simp] theorem carryValue_decoded : (s.carryValue spec kind raw text).decoded = s.decoded := by
  unfold carryValue; split <;> rfl

@[simp] theorem carryValue_result : (s.carryValue spec kind raw text).result = s.result := by
  unfold carryValue; split <;> rfl

@[simp] theorem carryValue_error : (s.carryValue spec kind raw text).error = s.error := by
  unfold carryValue; split <;> rfl

/-- Nothing is pending after an escape. -/
@[simp] theorem escape_raw : (s.escape c hint).raw = "" := by
  unfold escape; dsimp only; split <;> simp [report]

@[simp] theorem escape_result : (s.escape c hint).result = s.result := by
  unfold escape; dsimp only; split <;> simp [report]


end Frame

/-! ### The end of a name -/

/-- The word before a colon taken as the name of `spec`: a value is open. -/
def openValue (s : Scan) (spec : OptionSpec) : Scan :=
  let t := { s with raw := "", decoded := "" }.emit .optionName (s.raw.push ':') s.decoded .none
  { t with mode := .value spec, valueStart := t.cursor }

/-- The word before a colon marked as no name. -/
def refuseName (s : Scan) (fault : SyntaxFault) : Scan :=
  ({ s with raw := "", decoded := "" }.report fault).emit .invalidOptionName (s.raw.push ':')
    s.decoded .none

/-- The word is the name of `spec`, which may be set: it may be repeated or is not there yet. -/
def Takes (s : Scan) (schema : Schema) (spec : OptionSpec) : Prop :=
  schema.get? s.decoded = some spec ∧
    (spec.multiple = true ∨ s.result.contains s.decoded = false)

section Name

variable (s : Scan) (schema : Schema)

theorem finishName_taken {spec : OptionSpec} (h : s.Takes schema spec) :
    s.finishName schema = s.openValue spec := by
  simp [finishName, h.1, h.2, openValue]

/-- **A name is taken or refused.** -/
theorem finishName_cases :
    (∃ spec, s.Takes schema spec ∧ s.finishName schema = s.openValue spec) ∨
      ∃ fault, s.finishName schema = s.refuseName fault := by
  cases hget : schema.get? s.decoded with
  | none => exact .inr ⟨.unknownOption s.decoded, by simp [finishName, hget, refuseName]⟩
  | some spec =>
    by_cases hset : spec.multiple = true ∨ s.result.contains s.decoded = false
    · exact .inl ⟨spec, ⟨hget, hset⟩, s.finishName_taken schema ⟨hget, hset⟩⟩
    · exact .inr ⟨.repeatedOption s.decoded, by simp [finishName, hget, hset, refuseName]⟩

/-- Why a word that is not taken is refused. -/
def refusal : SyntaxFault :=
  if (schema.get? s.decoded).isSome then .repeatedOption s.decoded else .unknownOption s.decoded

theorem finishName_refused (h : ∀ spec, ¬s.Takes schema spec) :
    s.finishName schema = s.refuseName (s.refusal schema) := by
  cases hget : schema.get? s.decoded with
  | none => simp [finishName, hget, refuseName, refusal]
  | some spec =>
    have hset : ¬(spec.multiple = true ∨ s.result.contains s.decoded = false) :=
      fun hset => h spec ⟨hget, hset⟩
    simp [finishName, hget, hset, refuseName, refusal]

/-- Nothing is pending after a name. -/
@[simp] theorem finishName_raw : (s.finishName schema).raw = "" := by
  obtain ⟨spec, -, h⟩ | ⟨fault, h⟩ := s.finishName_cases schema
  · rw [h]
    rfl
  · simp [h, refuseName, report]

/-- A name that is taken opens a value, any other leaves the scan in bare text. -/
theorem finishName_mode (hm : s.mode = .bare) :
    ∃ target, (s.finishName schema).mode = .outside target := by
  obtain ⟨spec, -, h⟩ | ⟨fault, h⟩ := s.finishName_cases schema
  · exact ⟨some spec, by rw [h]; rfl⟩
  · exact ⟨none, by simpa [h, refuseName, report] using hm⟩

end Name

/-! ### The end of a word or value -/

/-- The scan in bare text with nothing pending. -/
def cleared (s : Scan) : Scan := { s with mode := .bare, raw := "", decoded := "" }

/-- **A fresh scan** stands in bare text with nothing pending. -/
structure Fresh (s : Scan) : Prop where
  mode : s.mode = .bare
  raw : s.raw = ""
  decoded : s.decoded = ""

theorem Fresh.outside {s : Scan} (h : s.Fresh) : s.mode = .outside none := h.mode

section Finish

variable (s : Scan) (spec : OptionSpec)

theorem completeValue_missing (h : s.decoded = "") :
    s.completeValue spec =
      ((s.cleared.reportAt s.valueStart (.missingValue spec.name)).rejectValue).emit
        .missingOptionValue s.raw "" (.value spec) := by
  simp [completeValue, h, cleared]

theorem completeValue_accepted (h : s.decoded ≠ "") {v : Value}
    (hv : spec.read? s.decoded = some v) :
    s.completeValue spec =
      { s.cleared with result := s.result.store spec v }.carryValue spec (.ofValue spec.kind)
        s.raw s.decoded := by
  have he : s.decoded.isEmpty = false := by simpa using h
  simp [completeValue, he, hv, cleared]

theorem completeValue_rejected (h : s.decoded ≠ "") (hv : spec.read? s.decoded = none) :
    s.completeValue spec =
      ((s.cleared.reportAt s.valueStart
        (.invalidValue spec.name spec.kind.name s.decoded)).rejectValue).carryValue spec .invalid
        s.raw s.decoded := by
  have he : s.decoded.isEmpty = false := by simpa using h
  simp [completeValue, he, hv, cleared]

/-- A value is missing, accepted or rejected. -/
theorem value_cases :
    s.decoded = "" ∨ (s.decoded ≠ "" ∧ ∃ v, spec.read? s.decoded = some v) ∨
      (s.decoded ≠ "" ∧ spec.read? s.decoded = none) := by
  by_cases h : s.decoded = ""
  · exact .inl h
  · cases hv : spec.read? s.decoded with
    | some v => exact .inr (.inl ⟨h, v, rfl⟩)
    | none => exact .inr (.inr ⟨h, rfl⟩)

theorem fresh_finishWord : s.finishWord.Fresh := ⟨rfl, by simp [finishWord], rfl⟩

theorem fresh_completeValue : (s.completeValue spec).Fresh := by
  rcases value_cases s spec with h | ⟨h, v, hv⟩ | ⟨h, hv⟩
  · rw [completeValue_missing s spec h]
    constructor <;> simp [rejectValue, cleared]
  · rw [completeValue_accepted s spec h hv]
    constructor <;> simp [cleared]
  · rw [completeValue_rejected s spec h hv]
    constructor <;> simp [rejectValue, cleared]

/-- **After a word or value the scan is fresh**, whatever it was. -/
theorem fresh_finish (target : Option OptionSpec) : (s.finish target).Fresh := by
  cases target with
  | none => exact fresh_finishWord s
  | some spec => exact fresh_completeValue s spec

end Finish

/-! ### Which character does what -/

section Step

variable {schema : Schema} {s : Scan} {target : Option OptionSpec} {c : Char}

theorem step_blank (hm : s.mode = .outside target) (hc : Text.isBlank c = true) :
    step schema s c = (s.finish target).emitSpace c := by
  cases target with
  | none => simp only [step, hm, Mode.outside, stepBare, hc, if_true, finish]
  | some spec => simp only [step, hm, Mode.outside, stepValue, hc, if_true, finish]

theorem step_ordinary (hm : s.mode = .outside target) (hc : isOrdinary c = true) :
    step schema s c = s.accumulate c := by
  obtain ⟨hb, hcolon, hquote, hslash⟩ := isOrdinary_iff.mp hc
  cases target with
  | none =>
    simp only [step, hm, Mode.outside, stepBare, hb, hcolon, hquote, hslash, if_false,
      Bool.false_eq_true]
  | some spec =>
    simp only [step, hm, Mode.outside, stepValue, hb, hcolon, hquote, hslash, if_false,
      Bool.false_eq_true]

theorem isBlank_quote : Text.isBlank '"' = false := by decide
theorem isBlank_backslash : Text.isBlank '\\' = false := by decide
theorem isBlank_colon : Text.isBlank ':' = false := by decide

/-- A quotation mark opens a quotation where nothing is pending. -/
theorem step_openQuote (hm : s.mode = .outside target) (hr : s.raw = "")
    (hd : target = none → s.decoded = "") : step schema s '"' = s.openQuote target := by
  cases target with
  | none =>
    simp [step, hm, Mode.outside, stepBare, isBlank_quote, hr, hd rfl, openQuote, Mode.quoted]
  | some spec =>
    simp [step, hm, Mode.outside, stepValue, isBlank_quote, hr, openQuote, Mode.quoted]

/-- A quotation mark inside a bare word. -/
theorem step_bare_quote (hm : s.mode = .bare) (h : ¬(s.raw = "" ∧ s.decoded = "")) :
    step schema s '"' = (s.flush .options).stray '"' .unexpectedQuote := by
  have he : (s.raw.isEmpty && s.decoded.isEmpty) = false := by
    rw [← Bool.not_eq_true]
    simpa using h
  simp [step, hm, stepBare, isBlank_quote, he]

theorem step_bare_backslash (hm : s.mode = .bare) :
    step schema s '\\' = (s.flush .options).stray '\\' .unexpectedEscape := by
  simp [step, hm, stepBare, isBlank_backslash]

theorem step_bare_colon (hm : s.mode = .bare) (hd : s.decoded = "") :
    step schema s ':' = s.stray ':' .unexpectedColon := by
  simp [step, hm, stepBare, isBlank_colon, hd]

theorem step_name (hm : s.mode = .bare) (hd : s.decoded ≠ "") :
    step schema s ':' = s.finishName schema := by
  have he : s.decoded.isEmpty = false := by simpa using hd
  simp [step, hm, stepBare, isBlank_colon, he]

/-- The fault of a character that must not follow a bare value. -/
def strayFault (c : Char) : SyntaxFault :=
  if c = '"' then .unexpectedQuote else if c = ':' then .unexpectedColon else .unexpectedEscape

/-- A character with a meaning ends a bare value, unless it opens a quotation. -/
theorem step_value_reserved {spec : OptionSpec} (hm : s.mode = .value spec)
    (hc : isReserved c = true) (hr : c = '"' → s.raw ≠ "") :
    step schema s c = (s.completeValue spec).stray c (strayFault c) := by
  simp only [isReserved, Bool.or_eq_true, decide_eq_true_eq] at hc
  rcases hc with (rfl | rfl) | rfl
  · simp [step, hm, stepValue, isBlank_colon, strayFault]
  · have he : s.raw.isEmpty = false := by simpa using hr rfl
    simp [step, hm, stepValue, isBlank_quote, he, strayFault]
  · simp [step, hm, stepValue, isBlank_backslash, strayFault]

theorem step_plain (hm : s.mode = .quoted target false) (hq : c ≠ '"') (hb : c ≠ '\\') :
    step schema s c = s.accumulate c := by
  cases target with
  | none => simp [step, hm, Mode.quoted, stepQuotedText, hq, hb]
  | some spec => simp [step, hm, Mode.quoted, stepQuotedValue, hq, hb]

theorem step_openEscape (hm : s.mode = .quoted target false) :
    step schema s '\\' = s.openEscape target := by
  cases target <;>
    simp [step, hm, Mode.quoted, stepQuotedText, stepQuotedValue, openEscape, Hint.ofText]

theorem step_closeQuote (hm : s.mode = .quoted target false) :
    step schema s '"' = s.closeQuote target := by
  cases target <;>
    simp [step, hm, Mode.quoted, stepQuotedText, stepQuotedValue, closeQuote, finish]

theorem step_closeEscape (hm : s.mode = .quoted target true) :
    step schema s c = s.closeEscape target c := by
  cases target <;>
    simp [step, hm, Mode.quoted, stepQuotedText, stepQuotedValue, closeEscape, Hint.ofEscape]

theorem close_outside (hm : s.mode = .outside target) : s.close = s.finish target := by
  cases target <;> simp [close, hm, Mode.outside, finish]

theorem close_quoted {escaping : Bool} (hm : s.mode = .quoted target escaping) :
    s.close = s.breakOff target escaping := by
  cases target <;> simp [close, hm, Mode.quoted, breakOff, finish, Hint.ofEscape]

end Step

/-- **Everything a character can do to a scan.** -/
inductive Move (schema : Schema) (s : Scan) (c : Char) : Scan → Prop
  | blank (target) (hm : s.mode = .outside target) (hc : Text.isBlank c = true) :
      Move schema s c ((s.finish target).emitSpace c)
  | ordinary (target) (hm : s.mode = .outside target) (hc : isOrdinary c = true) :
      Move schema s c (s.accumulate c)
  | openQuote (target) (hm : s.mode = .outside target) (hc : c = '"') (hr : s.raw = "")
      (hd : target = none → s.decoded = "") : Move schema s c (s.openQuote target)
  | strayInWord (hm : s.mode = .bare) (hc : c = '"' ∨ c = '\\')
      (hw : c = '"' → ¬(s.raw = "" ∧ s.decoded = "")) :
      Move schema s c ((s.flush .options).stray c (strayFault c))
  | strayColon (hm : s.mode = .bare) (hc : c = ':') (hd : s.decoded = "") :
      Move schema s c (s.stray c .unexpectedColon)
  | name (hm : s.mode = .bare) (hc : c = ':') (hd : s.decoded ≠ "") :
      Move schema s c (s.finishName schema)
  | strayInValue (spec) (hm : s.mode = .value spec) (hc : isReserved c = true)
      (hr : c = '"' → s.raw ≠ "") :
      Move schema s c ((s.completeValue spec).stray c (strayFault c))
  | plain (target) (hm : s.mode = .quoted target false) (hq : c ≠ '"') (hb : c ≠ '\\') :
      Move schema s c (s.accumulate c)
  | openEscape (target) (hm : s.mode = .quoted target false) (hc : c = '\\') :
      Move schema s c (s.openEscape target)
  | closeQuote (target) (hm : s.mode = .quoted target false) (hc : c = '"') :
      Move schema s c (s.closeQuote target)
  | closeEscape (target) (hm : s.mode = .quoted target true) :
      Move schema s c (s.closeEscape target c)

/-- A character is a blank, ordinary, or has a meaning. -/
theorem char_cases (c : Char) :
    Text.isBlank c = true ∨ isOrdinary c = true ∨ isReserved c = true := by
  cases hb : Text.isBlank c <;> cases hr : isReserved c <;> simp [isOrdinary, hb, hr]

theorem isReserved_iff {c : Char} : isReserved c = true ↔ c = ':' ∨ c = '"' ∨ c = '\\' := by
  simp [isReserved, or_assoc]

/-- **The list of moves is complete.** -/
theorem step_move (schema : Schema) (s : Scan) (c : Char) : Move schema s c (step schema s c) := by
  obtain ⟨target, hm | ⟨escaping, hm⟩⟩ := s.mode.outside_or_quoted
  · rcases char_cases c with hc | hc | hc
    · rw [step_blank hm hc]
      exact .blank target hm hc
    · rw [step_ordinary hm hc]
      exact .ordinary target hm hc
    · cases target with
      | some spec =>
        -- in a value only a quotation mark at its start has another use than to end it
        by_cases hopen : c = '"' ∧ s.raw = ""
        · obtain ⟨rfl, hr⟩ := hopen
          rw [step_openQuote hm hr nofun]
          exact .openQuote (some spec) hm rfl hr nofun
        · have hr : c = '"' → s.raw ≠ "" := fun hq hr => hopen ⟨hq, hr⟩
          rw [step_value_reserved hm hc hr]
          exact .strayInValue spec hm hc hr
      | none =>
        -- in bare text each of the three has its own rule
        rcases isReserved_iff.mp hc with rfl | rfl | rfl
        · by_cases hd : s.decoded = ""
          · rw [step_bare_colon hm hd]
            exact .strayColon hm rfl hd
          · rw [step_name hm hd]
            exact .name hm rfl hd
        · by_cases hopen : s.raw = "" ∧ s.decoded = ""
          · rw [step_openQuote hm hopen.1 fun _ => hopen.2]
            exact .openQuote none hm rfl hopen.1 fun _ => hopen.2
          · rw [step_bare_quote hm hopen]
            exact .strayInWord hm (.inl rfl) fun _ => hopen
        · rw [step_bare_backslash hm]
          exact .strayInWord hm (.inr rfl) (by simp)
  · cases escaping with
    | true =>
      -- after a backslash every character is taken
      rw [step_closeEscape hm]
      exact .closeEscape target hm
    | false =>
      by_cases hq : c = '"'
      · subst hq
        rw [step_closeQuote hm]
        exact .closeQuote target hm rfl
      · by_cases hb : c = '\\'
        · subst hb
          rw [step_openEscape hm]
          exact .openEscape target hm rfl
        · rw [step_plain hm hq hb]
          exact .plain target hm hq hb

/-- **The scan after some more text.** -/
def run (schema : Schema) (s : Scan) (text : List Char) : Scan := text.foldl (step schema) s

section Run

variable (schema : Schema) (s : Scan) (c : Char) (text more : List Char)

@[simp] theorem run_nil : s.run schema [] = s := rfl

@[simp] theorem run_cons : s.run schema (c :: text) = (s.step schema c).run schema text := rfl

theorem run_append : s.run schema (text ++ more) = (s.run schema text).run schema more :=
  List.foldl_append

end Run

end Scan

/-! ### Whole texts -/

theorem scan_eq_run (schema : Schema) (text : String) :
    scan schema text = Scan.run schema {} text.toList := rfl

/-- What every move keeps, with the text read so far at hand, is kept by a whole text. -/
theorem run_induction {schema : Schema} {motive : List Char → Scan → Prop}
    (move : ∀ {read s c s'}, motive read s → Scan.Move schema s c s' → motive (read ++ [c]) s')
    (text read : List Char) {s : Scan} (h : motive read s) :
    motive (read ++ text) (s.run schema text) := by
  induction text generalizing read s with
  | nil => simpa using h
  | cons c text ih => simpa using ih (read ++ [c]) (move h (Scan.step_move schema s c))

/-- **Invariants of scans.** What holds of the empty scan and is kept by every move holds of the
scan of every text. -/
theorem scan_induction {schema : Schema} {motive : List Char → Scan → Prop} (empty : motive [] {})
    (move : ∀ {read s c s'}, motive read s → Scan.Move schema s c s' → motive (read ++ [c]) s')
    (text : String) : motive text.toList (scan schema text) := by
  simpa [scan_eq_run] using run_induction move text.toList [] empty

end Searchbar
