import Searchbar.Proofs.Progress

/-!
# Hints mark the values

The hint of a token says what can be completed there. Hints are given one by one where tokens are
made, and classes change later when a value is complete; but together they mark exactly the values of
options (`parse_hintsMark`): the tokens behind an option's name up to the next token without a hint
for a value, and no others.

* `TextAdded` says that only tokens of free text were added to some tokens. `Scan.Advance` lists what
  a character can do to the tokens and to the value that is being read: free text goes on, a name
  opens a value or is refused, the value goes on, or the value ends and free text follows.
* `Marked` cuts the tokens of a query into tokens of free text and names with the runs of their
  values. Every scan keeps it for the tokens that are settled (`Scan.Marking`).
-/

namespace Searchbar

/-! ### Tokens of free text and of values -/

/-- The hint of a token outside values, by its class. -/
def Hint.ofKind : TokenKind → Hint
  | .text => .options
  | .space => .options
  | _ => .none

namespace TokenKind

/-- The classes that stand only in values. -/
def onlyInValue : TokenKind → Bool
  | missingOptionValue => true
  | number => true
  | enum => true
  | _ => false

/-- The classes that stand only outside values. -/
def onlyOutside : TokenKind → Bool
  | space => true
  | optionName => true
  | invalidOptionName => true
  | missingQuote => true
  | _ => false

/-- The classes of names, taken or refused. -/
def isName : TokenKind → Bool
  | optionName => true
  | invalidOptionName => true
  | _ => false

theorem isName_eq_false {kind : TokenKind} (h : kind.onlyOutside = false) :
    kind.isName = false := by
  cases kind <;> simp_all [isName, onlyOutside]

theorem onlyOutside_of_isPending {kind : TokenKind} (h : kind.isPending = true) :
    kind.onlyOutside = false := by
  cases kind <;> simp_all [isPending, onlyOutside]

theorem onlyOutside_of_isCarrier {kind : TokenKind} (h : kind.isCarrier = true) :
    kind.onlyOutside = false := by
  cases kind <;> simp_all [isCarrier, onlyOutside]

end TokenKind

/-- **A token of free text**: its hint is that of its class, which is neither one of values nor that of
a name. -/
structure Token.IsFree (t : Token) : Prop where
  hint : t.hint = .ofKind t.kind
  outside : t.kind.onlyInValue = false
  unnamed : t.kind ≠ .optionName

/-- No hint that goes with a class is one for a value. -/
theorem Hint.isValue_ofKind (kind : TokenKind) : (Hint.ofKind kind).isValue = false := by
  cases kind <;> rfl

theorem Token.IsFree.isValue {t : Token} (h : t.IsFree) : t.isValue = false := by
  rw [Token.isValue, h.hint, Hint.isValue_ofKind]

/-- **Free text was added** to some tokens, the latest first: tokens of free text were made, none of them
a refused name, and blanks joined a space. -/
inductive TextAdded (tokens : List Token) : List Token → Prop
  | same : TextAdded tokens tokens
  | token (t : Token) {later : List Token} (free : t.IsFree) (plain : t.kind.isName = false)
      (h : TextAdded tokens later) : TextAdded tokens (t :: later)
  | blank (t : Token) (raw : String) (span : Span) {later : List Token} (hk : t.kind = .space)
      (h : TextAdded tokens (t :: later)) :
      TextAdded tokens ({ t with raw := raw, span := span } :: later)

theorem TextAdded.trans {a b c : List Token} (h : TextAdded a b) (h' : TextAdded b c) :
    TextAdded a c := by
  induction h' with
  | same => exact h
  | token t free plain _ ih => exact .token t free plain ih
  | blank t raw span hk _ ih => exact .blank t raw span hk ih

namespace Scan

/-! ### Operations of free text -/

section FreeText

variable (s : Scan)

theorem textAdded_emit (kind : TokenKind) (raw text : String) {hint : Hint}
    (hhint : hint = .ofKind kind) (outside : kind.onlyInValue = false)
    (plain : kind.isName = false) : TextAdded s.tokens (s.emit kind raw text hint).tokens := by
  have unnamed : kind ≠ .optionName := by
    rintro rfl
    cases plain
  exact .token _ ⟨hhint, outside, unnamed⟩ plain .same

/-- A token that is made while an error is reported. -/
theorem textAdded_report (fault : SyntaxFault) (kind : TokenKind) (raw text : String) {hint : Hint}
    (hhint : hint = .ofKind kind) (outside : kind.onlyInValue = false)
    (plain : kind.isName = false) :
    TextAdded s.tokens ((s.report fault).emit kind raw text hint).tokens := by
  have added := (s.report fault).textAdded_emit kind raw text hhint outside plain
  simpa [report] using added

theorem textAdded_stray (c : Char) (fault : SyntaxFault) :
    TextAdded s.tokens (s.stray c fault).tokens :=
  s.textAdded_report fault .invalid (String.singleton c) "" rfl rfl rfl

theorem textAdded_flush : TextAdded s.tokens (s.flush .options).tokens := by
  unfold flush
  split
  · exact .same
  · exact s.textAdded_emit .text s.raw s.decoded rfl rfl rfl

theorem textAdded_finishWord : TextAdded s.tokens s.finishWord.tokens := s.textAdded_flush

/-- A blank joins a space or is a token of its own. -/
theorem textAdded_emitSpace (c : Char) : TextAdded s.tokens (s.emitSpace c).tokens := by
  have fresh : TextAdded s.tokens (s.emit .space (String.singleton c) "" .options).tokens :=
    s.textAdded_emit .space _ _ rfl rfl rfl
  unfold emitSpace
  split
  · exact fresh
  · next last earlier htokens =>
    split
    · next hk =>
      rw [htokens]
      exact .blank last _ _ hk.1 .same
    · exact fresh

theorem textAdded_escape (c : Char) : TextAdded s.tokens (s.escape c .none).tokens := by
  unfold escape
  dsimp only
  split
  · next e _ =>
    exact textAdded_emit { s with raw := "", decoded := s.decoded.push e } .escapeSequence _ _ rfl
      rfl rfl
  · exact textAdded_report { s with raw := "" } _ .invalidEscapeSequence _ _ rfl rfl rfl

theorem textAdded_danglingEscape : TextAdded s.tokens (s.danglingEscape .none).tokens :=
  s.textAdded_report .invalidEscape .invalidEscapeSequence s.raw s.decoded rfl rfl rfl

theorem textAdded_missingQuote : TextAdded s.tokens s.missingQuote.tokens :=
  s.textAdded_report .missingQuote .missingQuote "" "" rfl rfl rfl

end FreeText

/-! ### What a character does to the value that is being read -/

/-- A token that **opens** a value of `spec`. -/
structure Opens (schema : Schema) (spec : OptionSpec) (name : Token) : Prop where
  kind : name.kind = .optionName
  hint : name.hint = .none
  text : name.text = spec.name
  get : schema.get? spec.name = some spec

/-- A name that is refused becomes a token. -/
theorem refuseName_tokens (s : Scan) (fault : SyntaxFault) :
    ∃ name, (s.refuseName fault).tokens = name :: s.tokens ∧ name.kind = .invalidOptionName ∧
      name.hint = .none ∧ name.text = s.decoded := by
  refine ⟨⟨.invalidOptionName, s.raw.push ':', s.decoded,
    ⟨s.cursor, s.cursor + (s.raw.push ':').utf8ByteSize⟩, .none⟩, ?_, rfl, rfl, rfl⟩
  simp [refuseName, report, emit]

/-- **The run of a complete value**: the tokens that hold it. -/
structure RunOf (spec : OptionSpec) (run : List Token) : Prop where
  nonempty : run ≠ []
  hints : ∀ t ∈ run, t.hint = .value spec
  kinds : ∀ t ∈ run, t.kind.onlyOutside = false
  /-- Only the latest token may stand for a value that is missing. -/
  lone : ∀ t ∈ run.tail, t.kind ≠ .missingOptionValue

/-- **What a character can do** to the tokens and to the value that is being read. -/
inductive Advance (schema : Schema) (s s' : Scan) : Prop
  | text (hm : s.mode.target = none) (hm' : s'.mode.target = none)
      (added : TextAdded s.tokens s'.tokens)
  | opened (spec : OptionSpec) (name : Token) (hm : s.mode.target = none)
      (hm' : s'.mode.target = some spec) (takes : s.Takes schema spec)
      (opens : Opens schema spec name) (htext : name.text = s.decoded)
      (htokens : s'.tokens = name :: s.tokens)
  | refused (name : Token) (hm : s.mode.target = none) (hm' : s'.mode.target = none)
      (refuses : ∀ spec, ¬s.Takes schema spec) (free : name.IsFree)
      (hk : name.kind = .invalidOptionName) (htext : name.text = s.decoded)
      (htokens : s'.tokens = name :: s.tokens)
  | inside (spec : OptionSpec) (hm : s.mode.target = some spec) (hm' : s'.mode.target = some spec)
      (settled : s'.settledTokens = s.settledTokens)
  | completed (spec : OptionSpec) (name : Token) (run before : List Token)
      (hm : s.mode.target = some spec) (hm' : s'.mode.target = none)
      (opens : Opens schema spec name) (settled : s.settledTokens = name :: before)
      (holds : RunOf spec run) (added : TextAdded (run ++ name :: before) s'.tokens)

section Advance

variable {schema : Schema} {s s' : Scan} {spec : OptionSpec} {fragments before : List Token}
  {name : Token}

theorem Setting.opens (h : s.Setting schema spec fragments name before) :
    Opens schema spec name := by
  obtain ⟨-, hname⟩ := Schema.get?_eq_some_iff.mp h.names.get
  exact ⟨h.names.kind, h.names.hint, hname.symm, hname ▸ h.names.get⟩

/-- The run that an open value becomes. -/
theorem OpenValue.completeValue_runOf (h : s.OpenValue spec fragments name before)
    (begun : s.decoded ≠ "" → s.raw = "" → fragments ≠ []) :
    ∃ run, (s.completeValue spec).tokens = run ++ name :: before ∧ RunOf spec run := by
  obtain ⟨run, closed⟩ := h.completeValue begun
  obtain ⟨closing, judged, htokens, hjudged, hclosing, hone⟩ := h.completeValue_judged
  have hrun : closing ++ judged = run := List.append_cancel_right (htokens.symm.trans closed.tokens)
  have fragment : ∀ t ∈ judged, t.kind.onlyOutside = false ∧ t.kind ≠ .missingOptionValue := by
    intro t ht
    obtain ⟨u, hu, hjudge⟩ := judged_mem hjudged ht
    rcases hjudge.kind_of_pending (h.pending u hu) with hk | hk | hk
    · exact ⟨TokenKind.onlyOutside_of_isPending hk, fun hm => by simp [hm, TokenKind.isPending] at hk⟩
    · rw [hk]
      exact ⟨rfl, by decide⟩
    · exact ⟨TokenKind.onlyOutside_of_isCarrier hk, fun hm => by simp [hm, TokenKind.isCarrier] at hk⟩
  refine ⟨run, closed.tokens, by simpa using closed.verdict.nonempty, closed.hints, ?_, ?_⟩
  · rw [← hrun]
    intro t ht
    rcases List.mem_append.mp ht with ht | ht
    · -- the token that ends the value
      rcases hclosing t ht with hk | hk | hk
      · rw [hk]
        rfl
      · rw [hk]
        rfl
      · exact TokenKind.onlyOutside_of_isCarrier hk
    · exact (fragment t ht).1
  · -- behind the token that ends the value, if there is one, stand fragments only
    rw [← hrun]
    intro t ht
    refine (fragment t ?_).2
    cases closing with
    | nil => exact List.mem_of_mem_tail ht
    | cons u others =>
      obtain rfl : others = [] := by simpa using hone
      exact ht

/-- The end of a value, behind which free text may have been added. What is pending may have become a
fragment before. -/
theorem Setting.advance_completed {t : Scan} {fragments' : List Token}
    (h : s.Setting schema spec fragments name before) (hm : s.mode.target = some spec)
    (hm' : s'.mode.target = none) (opened : t.OpenValue spec fragments' name before)
    (begun : t.decoded ≠ "" → t.raw = "" → fragments' ≠ [])
    (added : TextAdded (t.completeValue spec).tokens s'.tokens) : s.Advance schema s' := by
  obtain ⟨run, htokens, holds⟩ := opened.completeValue_runOf begun
  rw [htokens] at added
  exact .completed spec name run before hm hm' h.opens (h.opened.settledTokens hm h.names.kind) holds
    added

/-- A value goes on: what stands before its name, and the name, stay. -/
theorem Setting.advance_inside {fragments' : List Token}
    (h : s.Setting schema spec fragments name before) (hm : s.mode.target = some spec)
    (hm' : s'.mode.target = some spec) (opened : s'.OpenValue spec fragments' name before) :
    s.Advance schema s' := by
  refine .inside spec hm hm' ?_
  rw [opened.settledTokens hm' h.names.kind, h.opened.settledTokens hm h.names.kind]

/-- No token is made, and the same is being read. -/
theorem advance_of_tokens (ht : s'.tokens = s.tokens) (hm : s'.mode.target = s.mode.target) :
    s.Advance schema s' := by
  cases htarget : s.mode.target with
  | none => exact .text htarget (hm.trans htarget) (ht ▸ .same)
  | some spec =>
    refine .inside spec htarget (hm.trans htarget) ?_
    rw [settledTokens, settledTokens, hm, ht]

/-- The end of a word or value outside quotation marks, behind which free text may have been added. -/
theorem Agreeing.advance_finish {target : Option OptionSpec} (h : s.Agreeing schema)
    (hm : s.mode = .outside target) (hm' : s'.mode.target = none)
    (added : TextAdded (s.finish target).tokens s'.tokens) : s.Advance schema s' := by
  cases target with
  | none => exact .text (target_of_outside hm) hm' (s.textAdded_finishWord.trans added)
  | some spec =>
    obtain ⟨name, before, setting, hd, -⟩ := h.bareValue hm
    exact setting.advance_completed (target_of_outside hm) hm' setting.opened
      (fun hne hr => absurd (hd ▸ hr) hne) added

/-- **What a character does** to the tokens and to the value that is being read. -/
theorem Agreeing.advance_move {c : Char} (h : s.Agreeing schema) (hmove : Move schema s c s') :
    s.Advance schema s' := by
  cases hmove with
  | blank target hm hc =>
    -- a blank ends the word or the value, and is free text itself
    refine h.advance_finish hm ?_ ((s.finish target).textAdded_emitSpace c)
    rw [emitSpace_mode, (s.fresh_finish target).mode]
    rfl
  | ordinary target hm hc => exact advance_of_tokens rfl rfl
  | openQuote target hm hc hr hd =>
    refine advance_of_tokens rfl ?_
    rw [openQuote_mode, Mode.target_quoted, target_of_outside hm]
  | strayInWord hm hc =>
    refine .text (target_of_bare hm) (by simp [target_of_bare hm]) ?_
    exact s.textAdded_flush.trans ((s.flush .options).textAdded_stray c _)
  | strayColon hm hc hd =>
    exact .text (target_of_bare hm) (by simp [target_of_bare hm]) (s.textAdded_stray c _)
  | name hm hc hd =>
    by_cases htakes : ∃ spec, s.Takes schema spec
    · -- the name is taken: its token is the last one, and no value token is behind it yet
      obtain ⟨spec, takes⟩ := htakes
      rw [s.finishName_taken schema takes]
      obtain ⟨name, opened, hkind, hhint, htext⟩ := s.openValue_openValue spec
      obtain ⟨-, hspec⟩ := Schema.get?_eq_some_iff.mp takes.1
      have opens : Opens schema spec name :=
        ⟨hkind, hhint, htext.trans hspec.symm, hspec ▸ takes.1⟩
      exact .opened spec name (target_of_bare hm) rfl takes opens htext opened.tokens
    · -- a refused name is a token of free text
      have refuses : ∀ spec, ¬s.Takes schema spec := fun spec takes => htakes ⟨spec, takes⟩
      rw [s.finishName_refused schema refuses]
      obtain ⟨name, htokens, hkind, hhint, htext⟩ := s.refuseName_tokens (s.refusal schema)
      refine .refused name (target_of_bare hm) ?_ refuses ?_ hkind htext htokens
      · simp [refuseName, report, target_of_bare hm]
      · constructor <;> rw [hkind]
        · exact hhint
        · rfl
        · decide
  | strayInValue spec hm hc =>
    refine h.advance_finish (show s.mode = .outside (some spec) from hm) ?_
      ((s.completeValue spec).textAdded_stray c _)
    rw [stray_mode, (s.fresh_completeValue spec).mode]
    rfl
  | plain target hm hq hb => exact advance_of_tokens rfl rfl
  | openEscape target hm hc =>
    cases target with
    | none => exact .text (target_of_quoted hm) (target_of_quoted rfl) s.textAdded_flush
    | some spec =>
      -- what is pending becomes one more fragment of the value
      obtain ⟨fragments, name, before, body, setting, -, -⟩ := h.quotation hm
      obtain ⟨fragments', opened, -⟩ := setting.opened.flush
      exact setting.advance_inside (target_of_quoted hm) (target_of_quoted rfl)
        (opened.congr rfl rfl rfl)
  | closeQuote target hm hc =>
    have hm' : (s.closeQuote target).mode.target = none := by
      rw [Scan.closeQuote, (fresh_finish _ target).mode]
      rfl
    cases target with
    | none =>
      exact .text (target_of_quoted hm) hm'
        (textAdded_finishWord { s with raw := s.raw.push '"' })
    | some spec =>
      -- the quotation mark is pending, so the run has a last token of its own
      obtain ⟨fragments, name, before, body, setting, -, -⟩ := h.quotation hm
      refine setting.advance_completed (t := { s with raw := s.raw.push '"' }) (target_of_quoted hm)
        hm' (setting.opened.congr rfl rfl rfl) (fun _ hnil => by simp at hnil) .same
  | closeEscape target hm =>
    cases target with
    | none => exact .text (target_of_quoted hm) (target_of_quoted rfl) (s.textAdded_escape c)
    | some spec =>
      obtain ⟨fragments, name, before, body, setting, hne, -, -, -⟩ := h.quotationEscaping hm
      obtain ⟨fragments', opened, -⟩ := setting.opened.escape hne c
      exact setting.advance_inside (target_of_quoted hm) (target_of_quoted rfl)
        (opened.congr rfl rfl rfl)

theorem breakOff_target (s : Scan) (target : Option OptionSpec) (escaping : Bool) :
    (s.breakOff target escaping).mode.target = none := by
  have hm : (s.breakOff target escaping).mode =
      ((if escaping then s.danglingEscape (.ofEscape target) else s).finish target).mode := by
    simp [breakOff, missingQuote, report]
  rw [hm, (fresh_finish _ target).mode]
  rfl

/-- The end of a query inside quotation marks. -/
theorem Agreeing.advance_breakOff {target : Option OptionSpec} {escaping : Bool}
    (h : s.Agreeing schema) (hm : s.mode = .quoted target escaping) :
    s.Advance schema (s.breakOff target escaping) := by
  have hm' := s.breakOff_target target escaping
  cases target with
  | none =>
    refine .text (target_of_quoted hm) hm' (TextAdded.trans ?_ (textAdded_missingQuote _))
    cases escaping with
    | false => exact s.textAdded_finishWord
    | true => exact s.textAdded_danglingEscape.trans (textAdded_finishWord _)
  | some spec =>
    cases escaping with
    | false =>
      obtain ⟨fragments, name, before, body, setting, hr, -⟩ := h.quotation hm
      -- after an escape nothing is pending, but then there is a fragment
      refine setting.advance_completed (target_of_quoted hm) hm' setting.opened
        (fun _ hraw hnil => ?_) (textAdded_missingQuote _)
      simp [hraw, hnil, String.ofList_cons] at hr
    | true =>
      obtain ⟨fragments, name, before, body, setting, hne, -, hf, -⟩ := h.quotationEscaping hm
      -- the backslash itself has become a fragment
      obtain ⟨fragments', opened, hraw⟩ := setting.opened.danglingEscape hne
      refine setting.advance_completed (target_of_quoted hm) hm' opened (fun _ _ hnil => ?_)
        (textAdded_missingQuote _)
      simp [hnil, hf, String.ofList_cons] at hraw

/-- **What the end of a query does** to the tokens: nothing is being read any more. -/
theorem Agreeing.advance_close (h : s.Agreeing schema) :
    s.Advance schema s.close ∧ s.close.mode.target = none := by
  obtain ⟨target, hm | ⟨escaping, hm⟩⟩ := s.mode.outside_or_quoted
  · have hm' : (s.finish target).mode.target = none := by
      rw [(s.fresh_finish target).mode]
      rfl
    rw [close_outside hm]
    exact ⟨h.advance_finish hm hm' .same, hm'⟩
  · rw [close_quoted hm]
    exact ⟨h.advance_breakOff hm, s.breakOff_target target escaping⟩

end Advance

end Scan

/-! ### Tokens cut into free text and values -/

/-- **Marked tokens**, the latest first: tokens of free text, and names with the runs of their
values. -/
inductive Marked (schema : Schema) : List Token → Prop
  | nil : Marked schema []
  | text (t : Token) {before : List Token} (free : t.IsFree) (h : Marked schema before) :
      Marked schema (t :: before)
  | value (spec : OptionSpec) (name : Token) {run before : List Token}
      (opens : Scan.Opens schema spec name) (holds : Scan.RunOf spec run)
      (h : Marked schema before) : Marked schema (run ++ name :: before)

section Marked

variable {schema : Schema} {tokens : List Token}

/-- A space among marked tokens is one of free text. -/
theorem Marked.of_space {t : Token} (h : Marked schema (t :: tokens)) (hk : t.kind = .space) :
    t.IsFree ∧ Marked schema tokens := by
  generalize heq : t :: tokens = all at h
  cases h with
  | nil => cases heq
  | text u free h =>
    obtain ⟨rfl, rfl⟩ := List.cons.inj heq
    exact ⟨free, h⟩
  | value spec name opens holds h =>
    -- the latest token of a run is of the value
    obtain ⟨u, run, rfl⟩ := List.exists_cons_of_ne_nil holds.nonempty
    obtain ⟨rfl, -⟩ := List.cons.inj heq
    have := holds.kinds t List.mem_cons_self
    rw [hk] at this
    cases this

/-- Marked tokens stay marked when free text is added. -/
theorem Marked.added {later : List Token} (h : Marked schema tokens)
    (added : TextAdded tokens later) : Marked schema later := by
  induction added with
  | same => exact h
  | token t free _ _ ih => exact .text t free ih
  | blank t raw span hk _ ih =>
    obtain ⟨free, before⟩ := ih.of_space hk
    exact .text _ ⟨free.hint, free.outside, free.unnamed⟩ before

end Marked

namespace Scan

/-- **The marking invariant.** In free text the tokens are marked. In a value those before its name
are. -/
structure Marking (schema : Schema) (s : Scan) : Prop where
  text : s.mode.target = none → Marked schema s.tokens
  value : ∀ spec, s.mode.target = some spec →
    ∃ name before, s.settledTokens = name :: before ∧ Opens schema spec name ∧ Marked schema before

namespace Marking

variable {schema : Schema} {s s' : Scan}

theorem of_text (hm : s.mode.target = none) (h : Marked schema s.tokens) : s.Marking schema where
  text _ := h
  value spec hspec := by
    rw [hm] at hspec
    cases hspec

theorem of_value {spec : OptionSpec} {name : Token} {before : List Token}
    (hm : s.mode.target = some spec) (settled : s.settledTokens = name :: before)
    (opens : Opens schema spec name) (h : Marked schema before) : s.Marking schema where
  text hnone := by
    rw [hm] at hnone
    cases hnone
  value spec' hspec := by
    obtain rfl : spec = spec' := Option.some.inj (hm.symm.trans hspec)
    exact ⟨name, before, settled, opens, h⟩

/-- **Invariant preservation.** -/
theorem advance (h : s.Marking schema) (advance : s.Advance schema s') : s'.Marking schema := by
  cases advance with
  | text hm hm' added => exact of_text hm' ((h.text hm).added added)
  | opened spec name hm hm' _ opens _ htokens =>
    -- nothing is open behind the name, and all that was marked stands before it
    have hopen : s'.openTokens = [] := openTokens_of_name htokens opens.kind
    exact of_value hm' ((settledTokens_of_openTokens hopen).trans htokens) opens (h.text hm)
  | refused name hm hm' _ free _ _ htokens =>
    exact of_text hm' (htokens ▸ .text name free (h.text hm))
  | inside spec hm hm' settled =>
    obtain ⟨name, before, settled', opens, marked⟩ := h.value spec hm
    exact of_value hm' (settled.trans settled') opens marked
  | completed spec name run before hm hm' opens settled holds added =>
    -- the name and its run close off what was marked before the name
    obtain ⟨name', before', settled', -, marked⟩ := h.value spec hm
    obtain ⟨-, rfl⟩ := List.cons.inj (settled.symm.trans settled')
    exact of_text hm' ((Marked.value spec name opens holds marked).added added)

end Marking

end Scan

/-- The scan of every text is marked. -/
theorem marking_scan (schema : Schema) (query : String) :
    (scan schema query).Agreeing schema ∧ (scan schema query).Marking schema :=
  scan_induction (motive := fun _ s => s.Agreeing schema ∧ s.Marking schema)
    ⟨agreeing_scan schema "", fun _ => .nil, nofun⟩
    (fun ⟨agreeing, marking⟩ hmove =>
      ⟨agreeing.move hmove, marking.advance (agreeing.advance_move hmove)⟩)
    query

/-- The tokens of every query are marked. -/
theorem marked_parse (schema : Schema) (query : String) :
    Marked schema (parse schema query).tokens.reverse := by
  obtain ⟨agreeing, marking⟩ := marking_scan schema query
  obtain ⟨advance, hm⟩ := agreeing.advance_close
  simpa [parse, Scan.output] using (marking.advance advance).text hm

/-! ### Where a token stands -/

/-- **Where a token stands** among marked tokens, with those `later` and those `before` it, the latest
first: in free text, as a name in front of the run of its value, or in a run behind its name. -/
inductive Placed (schema : Schema) (later : List Token) (t : Token) (before : List Token) : Prop
  | text (free : t.IsFree)
  | name (spec : OptionSpec) (rest run : List Token) (hlater : later = rest ++ run)
      (opens : Scan.Opens schema spec t) (holds : Scan.RunOf spec run)
  | inRun (spec : OptionSpec) (name : Token) (newer older earlier : List Token)
      (hbefore : before = older ++ name :: earlier) (opens : Scan.Opens schema spec name)
      (holds : Scan.RunOf spec (newer ++ t :: older))

section Placed

variable {schema : Schema} {tokens later before : List Token} {t : Token}

theorem Placed.append (h : Placed schema later t before) (more : List Token) :
    Placed schema (more ++ later) t before := by
  cases h with
  | text free => exact .text free
  | name spec rest run hlater opens holds =>
    exact .name spec (more ++ rest) run (by rw [hlater, List.append_assoc]) opens holds
  | inRun spec name newer older earlier hbefore opens holds =>
    exact .inRun spec name newer older earlier hbefore opens holds

/-- **Every marked token has its place.** -/
theorem Marked.placed (h : Marked schema tokens) (heq : tokens = later ++ t :: before) :
    Placed schema later t before := by
  induction h generalizing later with
  | nil => simp at heq
  | text u free _ ih =>
    cases later with
    | nil =>
      obtain ⟨rfl, -⟩ := List.cons.inj heq
      exact .text free
    | cons w later => exact (ih (List.cons.inj heq).2).append [w]
  | @value spec name run earlier opens holds _ ih =>
    -- the token is the name of the last run, stands before it, or is in the run
    rcases List.append_eq_append_iff.mp heq with ⟨between, rfl, hrest⟩ | ⟨between, hrun, hrest⟩
    · cases between with
      | nil =>
        obtain ⟨rfl, -⟩ := List.cons.inj hrest
        exact .name spec [] run (by simp) opens holds
      | cons w between =>
        have placed := (ih (List.cons.inj hrest).2).append (run ++ [w])
        simpa using placed
    · cases between with
      | nil =>
        obtain ⟨rfl, -⟩ := List.cons.inj hrest
        exact .name spec [] run (by simpa using hrun.symm) opens holds
      | cons u older =>
        obtain ⟨rfl, hbefore⟩ := List.cons.inj hrest
        exact .inRun spec name later older earlier hbefore opens (hrun ▸ holds)

end Placed

/-! ### Hints -/

/-- **Hints mark the values** of options among the tokens of a query. -/
structure HintsMark (schema : Schema) (tokens : List Token) : Prop where
  /-- A token with a hint for a value follows every name. -/
  followed : ∀ before name after, tokens = before ++ name :: after → name.kind = .optionName →
    ∃ t rest, after = t :: rest ∧ t.isValue = true
  /-- Going back from a token with a hint for a value, over tokens with the same hint, leads to the
  name of its option. -/
  reached : ∀ before t after spec, tokens = before ++ t :: after → t.hint = .value spec →
    ∃ earlier name run, before = earlier ++ name :: run ∧ (∀ u ∈ run, u.hint = .value spec) ∧
      name.kind = .optionName ∧ name.text = spec.name ∧ schema.get? spec.name = some spec
  inValue : ∀ t ∈ tokens, t.kind.onlyInValue = true → t.isValue = true
  outside : ∀ t ∈ tokens, t.kind.onlyOutside = true → t.isValue = false
  others : ∀ t ∈ tokens, t.isValue = false → t.hint = .ofKind t.kind

/-- A token with the hint of a value. -/
theorem Token.isValue_of_hint {t : Token} {spec : OptionSpec} (h : t.hint = .value spec) :
    t.isValue = true := by
  rw [Token.isValue, h]
  rfl

namespace Placed

variable {schema : Schema} {later before : List Token} {t : Token}

theorem followed (h : Placed schema later t before) (hk : t.kind = .optionName) :
    ∃ rest u, later = rest ++ [u] ∧ u.isValue = true := by
  cases h with
  | text free => exact absurd hk free.unnamed
  | name spec rest run hlater opens holds =>
    -- the oldest token of the run follows the name
    have hrun := List.dropLast_concat_getLast holds.nonempty
    refine ⟨rest ++ run.dropLast, run.getLast holds.nonempty, ?_, ?_⟩
    · rw [hlater, List.append_assoc, hrun]
    · exact Token.isValue_of_hint (holds.hints _ (List.getLast_mem holds.nonempty))
  | inRun spec name newer older earlier hbefore opens holds =>
    have := holds.kinds t (by simp)
    rw [hk] at this
    cases this

theorem reached (h : Placed schema later t before) {spec : OptionSpec} (ht : t.hint = .value spec) :
    ∃ run name earlier, before = run ++ name :: earlier ∧ (∀ u ∈ run, u.hint = .value spec) ∧
      Scan.Opens schema spec name := by
  cases h with
  | text free =>
    have := free.isValue
    rw [Token.isValue_of_hint ht] at this
    cases this
  | name spec' rest run hlater opens holds =>
    rw [opens.hint] at ht
    cases ht
  | inRun spec' name newer older earlier hbefore opens holds =>
    have hspec : t.hint = .value spec' := holds.hints t (by simp)
    obtain rfl : spec' = spec := Hint.value.inj (hspec.symm.trans ht)
    exact ⟨older, name, earlier, hbefore, fun u hu => holds.hints u (by simp [hu]), opens⟩

/-- Class and hint of a token go together. -/
theorem kind_hint (h : Placed schema later t before) :
    (t.isValue = true ∧ t.kind.onlyOutside = false) ∨
      (t.isValue = false ∧ t.kind.onlyInValue = false ∧ t.hint = .ofKind t.kind) := by
  cases h with
  | text free => exact .inr ⟨free.isValue, free.outside, free.hint⟩
  | name spec rest run hlater opens holds =>
    refine .inr ⟨?_, ?_, ?_⟩
    · rw [Token.isValue, opens.hint]
      rfl
    · rw [opens.kind]
      rfl
    · rw [opens.hint, opens.kind]
      rfl
  | inRun spec name newer older earlier hbefore opens holds =>
    exact .inl ⟨Token.isValue_of_hint (holds.hints t (by simp)), holds.kinds t (by simp)⟩

end Placed

/-- A token of a query has its place among the tokens, the latest first. -/
theorem placed_parse {schema : Schema} {query : String} {before after : List Token} {t : Token}
    (h : (parse schema query).tokens = before ++ t :: after) :
    Placed schema after.reverse t before.reverse := by
  refine (marked_parse schema query).placed ?_
  simp [h]

/-- **Hints mark exactly the values of options.** -/
theorem parse_hintsMark (schema : Schema) (query : String) :
    HintsMark schema (parse schema query).tokens := by
  have placed : ∀ t ∈ (parse schema query).tokens, ∃ later before, Placed schema later t before := by
    intro t ht
    obtain ⟨before, after, h⟩ := List.append_of_mem ht
    exact ⟨after.reverse, before.reverse, placed_parse h⟩
  constructor
  case followed =>
    intro before name after h hk
    obtain ⟨rest, u, hafter, hu⟩ := (placed_parse h).followed hk
    refine ⟨u, rest.reverse, ?_, hu⟩
    simpa using congrArg List.reverse hafter
  case reached =>
    intro before t after spec h ht
    obtain ⟨run, name, earlier, hbefore, hints, opens⟩ := (placed_parse h).reached ht
    refine ⟨earlier.reverse, name, run.reverse, ?_, by simpa using hints, opens.kind, opens.text,
      opens.get⟩
    simpa using congrArg List.reverse hbefore
  case inValue =>
    intro t ht hk
    obtain ⟨later, before, place⟩ := placed t ht
    rcases place.kind_hint with ⟨hv, -⟩ | ⟨-, hn, -⟩
    · exact hv
    · rw [hk] at hn
      cases hn
  case outside =>
    intro t ht hk
    obtain ⟨later, before, place⟩ := placed t ht
    rcases place.kind_hint with ⟨-, hn⟩ | ⟨hv, -⟩
    · rw [hk] at hn
      cases hn
    · exact hv
  case others =>
    intro t ht hv
    obtain ⟨later, before, place⟩ := placed t ht
    rcases place.kind_hint with ⟨hv', -⟩ | ⟨-, -, hhint⟩
    · rw [hv] at hv'
      cases hv'
    · exact hhint

end Searchbar
