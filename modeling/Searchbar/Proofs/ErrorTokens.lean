import Searchbar.Example.Media
import Searchbar.Proofs.Agreement
import Searchbar.Proofs.Tiling
import Searchbar.Trace

/-!
# The error of a query and its error tokens

A query has an error exactly if one of its tokens marks one. The error that is reported is the first
in time; it stands at the start of a token that shows it, and tokens that mark errors may stand
before that token in one case only: a value with a broken escape is rejected later, and then what
has been read of it before the escape is marked too (`parse_errorsShown`).

* `SyntaxFault.ShownBy` says which token shows which fault, and `ParseError.ShownBy` adds where it
  stands and what may stand before it.
* `Reported` is the invariant, in free text and in values alike: without an error no token marks one,
  and an error is shown. `Scan.Reports.completeValue` is the hard case: the tokens of a value are
  changed at its end.
* `ParseError.ShownIn.inside` is about the mark under a query: the text before it is cut off between
  two characters.
-/

namespace Searchbar

/-! ### The token that shows an error -/

/-- A token that is nothing but the stray character `raw`. -/
def Token.IsStray (t : Token) (raw : String) : Prop :=
  t.kind = .invalid ∧ t.hint = .none ∧ t.raw = raw

/-- Some tokens end with the name of an option. -/
def EndsWithName (tokens : List Token) (name : String) : Prop :=
  ∃ before n, tokens = before ++ [n] ∧ n.kind = .optionName ∧ n.text = name

/-- **The token that shows a fault**, with the tokens that stand before it. -/
def SyntaxFault.ShownBy (earlier : List Token) (t : Token) : SyntaxFault → Prop
  | unexpectedQuote => t.IsStray "\""
  | unexpectedEscape => t.IsStray "\\"
  | unexpectedColon => t.IsStray ":"
  | invalidEscape => t.kind = .invalidEscapeSequence
  | unknownOption name => t.kind = .invalidOptionName ∧ t.text = name
  | repeatedOption name => t.kind = .invalidOptionName ∧ t.text = name
  | missingQuote => t.kind = .missingQuote
  | missingValue name => t.kind = .missingOptionValue ∧ EndsWithName earlier name
  | invalidValue name _ _ => t.kind = .invalid ∧ EndsWithName earlier name

/-- The token `t`, which follows `earlier`, and the token `u` in it are **of the same value**: both
stand behind one name with nothing but tokens of its value between them. -/
def OfSameValue (earlier : List Token) (t u : Token) : Prop :=
  ∃ spec before name run, earlier = before ++ name :: run ∧ name.kind = .optionName ∧
    name.text = spec.name ∧ u ∈ run ∧ ∀ w ∈ run ++ [t], w.hint = .value spec

/-- **The token that shows an error.** A token that marks an error may stand before it only if the
error is a broken escape and both are of the same value. -/
structure ParseError.ShownBy (e : ParseError) (earlier : List Token) (t : Token) : Prop where
  position : t.span.start = e.position
  fault : e.fault.ShownBy earlier t
  first : ∀ u ∈ earlier, u.kind.isError = true →
    e.fault = .invalidEscape ∧ u.kind = .invalid ∧ OfSameValue earlier t u

/-- An error that is shown by one of the tokens. -/
def ParseError.ShownIn (e : ParseError) (tokens : List Token) : Prop :=
  ∃ earlier t later, tokens = earlier ++ t :: later ∧ e.ShownBy earlier t

namespace SyntaxFault.ShownBy

variable {fault : SyntaxFault} {earlier : List Token} {t : Token}

/-- A token that shows a fault marks an error. -/
theorem isError (h : fault.ShownBy earlier t) : t.kind.isError = true := by
  have kind : t.kind = .invalid ∨ t.kind = .invalidEscapeSequence ∨ t.kind = .invalidOptionName ∨
      t.kind = .missingQuote ∨ t.kind = .missingOptionValue := by
    cases fault <;> simp_all [SyntaxFault.ShownBy, Token.IsStray]
  rcases kind with hk | hk | hk | hk | hk <;> rw [hk] <;> rfl

/-- A broken escape shows no other fault. -/
theorem eq_invalidEscape (h : fault.ShownBy earlier t) (hk : t.kind = .invalidEscapeSequence) :
    fault = .invalidEscape := by
  cases fault <;> simp_all [SyntaxFault.ShownBy, Token.IsStray]

end SyntaxFault.ShownBy

namespace ParseError.ShownIn

variable {e : ParseError} {tokens more : List Token}

theorem append (h : e.ShownIn tokens) (more : List Token) : e.ShownIn (tokens ++ more) := by
  obtain ⟨earlier, t, later, rfl, shown⟩ := h
  exact ⟨earlier, t, later ++ more, by simp, shown⟩

/-- An error is shown by one of the first tokens or by one of those at the end. -/
theorem cases_append (h : e.ShownIn (tokens ++ more)) :
    e.ShownIn tokens ∨
      ∃ between t later, more = between ++ t :: later ∧ e.ShownBy (tokens ++ between) t := by
  obtain ⟨earlier, t, later, heq, shown⟩ := h
  rcases List.append_eq_append_iff.mp heq with ⟨between, rfl, hmore⟩ | ⟨between, rfl, hlater⟩
  · exact .inr ⟨between, t, later, hmore, shown⟩
  · cases between with
    | nil =>
      rw [List.append_nil]
      exact .inr ⟨[], t, later, hlater.symm, by rwa [List.append_nil]⟩
    | cons u between =>
      obtain ⟨rfl, -⟩ := List.cons.inj hlater
      exact .inl ⟨earlier, t, between, rfl, shown⟩

/-- Tokens at the end that mark no error do not show one. -/
theorem of_append (h : e.ShownIn (tokens ++ more)) (clean : ∀ t ∈ more, t.kind.isError = false) :
    e.ShownIn tokens := by
  rcases h.cases_append with h | ⟨between, t, later, rfl, shown⟩
  · exact h
  · have := clean t (by simp)
    rw [shown.fault.isError] at this
    cases this

end ParseError.ShownIn

/-! ### The invariant -/

/-- **Tokens, the latest first, that report an error** or mark none. -/
structure Reported (tokens : List Token) (error : Option ParseError) : Prop where
  silent : error = none → ∀ t ∈ tokens, t.kind.isError = false
  shown : ∀ e, error = some e → e.ShownIn tokens.reverse

namespace Reported

variable {tokens : List Token} {error : Option ParseError} {t : Token}

/-- A token that marks no error does not matter. -/
theorem cons_iff (ht : t.kind.isError = false) :
    Reported (t :: tokens) error ↔ Reported tokens error := by
  constructor
  · intro h
    refine ⟨fun he u hu => h.silent he u (List.mem_cons_of_mem t hu), fun e he => ?_⟩
    have := h.shown e he
    rw [List.reverse_cons] at this
    exact this.of_append (by simpa using ht)
  · intro h
    refine ⟨fun he => List.forall_mem_cons.mpr ⟨ht, h.silent he⟩, fun e he => ?_⟩
    rw [List.reverse_cons]
    exact (h.shown e he).append [t]

/-- A token that shows an error, which is reported if it is the first. -/
theorem report (h : Reported tokens error) {e : ParseError} (position : t.span.start = e.position)
    (fault : e.fault.ShownBy tokens.reverse t) :
    Reported (t :: tokens) (error.or (some e)) := by
  cases error with
  | some e' =>
    refine ⟨nofun, fun e'' he => ?_⟩
    rw [List.reverse_cons]
    exact (h.shown e'' he).append [t]
  | none =>
    refine ⟨nofun, fun e' he => ?_⟩
    obtain rfl : e = e' := Option.some.inj he
    refine ⟨tokens.reverse, t, [], List.reverse_cons, position, fault, fun u hu hk => ?_⟩
    -- nothing was marked so far
    rw [h.silent rfl u (List.mem_reverse.mp hu)] at hk
    cases hk

end Reported

/-! ### Judged fragments -/

theorem TokenKind.eq_invalidEscapeSequence {kind : TokenKind} (h : kind.isPending = true)
    (he : kind.isError = true) : kind = .invalidEscapeSequence := by
  cases kind <;> simp_all [TokenKind.isPending, TokenKind.isError]

/-- A judged fragment that marks an error is invalid, or it marked the same error before. -/
theorem Token.Judged.isError {t t' : Token} (h : t.Judged t') (he : t'.kind.isError = true) :
    t'.kind = .invalid ∨ t'.kind = t.kind := by
  rcases h.kind with hk | ⟨-, hk | hk⟩
  · exact .inr hk
  · exact .inl hk
  · -- what carries a value marks no error
    cases hk' : t'.kind <;> simp_all [TokenKind.isCarrier, TokenKind.isError]

/-- A broken escape stays one. -/
theorem Token.Judged.invalidEscapeSequence {t t' : Token} (h : t.Judged t')
    (ht : t.kind = .invalidEscapeSequence) : t'.kind = .invalidEscapeSequence := by
  rcases h.kind with hk | ⟨hk, -⟩
  · rw [hk, ht]
  · simp [ht] at hk

/-- The tokens of a value that is accepted mark no error, if its fragments did not. -/
theorem isError_of_accepted {fragments judged closing : List Token}
    (hjudged : List.Forall₂ Token.Judged fragments judged)
    (hclosing : ∀ t ∈ closing,
      t.kind = .missingOptionValue ∨ t.kind = .invalid ∨ t.kind.isCarrier = true)
    (silent : ∀ t ∈ fragments, t.kind.isError = false)
    (accepted : ∀ t ∈ closing ++ judged, t.kind ≠ .invalid ∧ t.kind ≠ .missingOptionValue) :
    ∀ t ∈ closing ++ judged, t.kind.isError = false := by
  intro t ht
  obtain ⟨hinvalid, hmissing⟩ := accepted t ht
  rcases List.mem_append.mp ht with ht | ht
  · have carrier := ((hclosing t ht).resolve_left hmissing).resolve_left hinvalid
    cases hk : t.kind <;> simp_all [TokenKind.isCarrier, TokenKind.isError]
  · obtain ⟨u, hu, judged⟩ := Scan.judged_mem hjudged ht
    cases he : t.kind.isError with
    | false => rfl
    | true =>
      have same := (judged.isError he).resolve_left hinvalid
      rw [same, silent u hu] at he
      cases he

/-- The last name before a token is determined, and so are the tokens behind it. -/
theorem run_unique {before before' run run' : List Token} {n n' : Token}
    (h : before ++ n :: run = before' ++ n' :: run') (hn : n ∉ run') (hn' : n' ∉ run) :
    run = run' := by
  rcases List.append_eq_append_iff.mp h with ⟨between, -, heq⟩ | ⟨between, -, heq⟩
  · cases between with
    | nil => exact (List.cons.inj heq).2
    | cons m between =>
      rw [List.cons_append] at heq
      exact absurd ((List.cons.inj heq).2 ▸ by simp) hn'
  · cases between with
    | nil => exact (List.cons.inj heq).2.symm
    | cons m between =>
      rw [List.cons_append] at heq
      exact absurd ((List.cons.inj heq).2 ▸ by simp) hn

/-- Before a token of a pending value that shows an error nothing is marked: what may be marked there
is of the same value, and so it is pending too. -/
theorem ParseError.ShownBy.silent {e : ParseError} {before between : List Token} {name t : Token}
    (h : e.ShownBy (before ++ [name] ++ between) t) (hhint : name.hint = .none)
    (pending : ∀ u ∈ between, u.kind.isPending = true) :
    ∀ u ∈ before ++ [name] ++ between, u.kind.isError = false := by
  intro u hu
  cases he : u.kind.isError with
  | false => rfl
  | true =>
    obtain ⟨-, hk, spec, before', name', run, heq, hname', -, hrun, hhints⟩ := h.first u hu he
    have hbetween : between = run := by
      rw [← List.append_cons] at heq
      refine run_unique heq (fun hmem => ?_) fun hmem => ?_
      · have := hhints name (by simp [hmem])
        rw [hhint] at this
        cases this
      · have := pending name' hmem
        rw [hname'] at this
        cases this
    have := pending u (hbetween ▸ hrun)
    rw [hk] at this
    cases this

/-- A broken escape in a value still shows its error when the tokens of the value are judged. -/
theorem ParseError.ShownBy.judged {e : ParseError} {spec : OptionSpec}
    {before between between' : List Token} {name t t' : Token}
    (h : e.ShownBy (before ++ [name] ++ between) t) (ht : t.kind = .invalidEscapeSequence)
    (hname : name.kind = .optionName) (hhint : name.hint = .none) (htext : name.text = spec.name)
    (pending : ∀ u ∈ between, u.kind.isPending = true)
    (hints : ∀ u ∈ between ++ [t], u.hint = .value spec)
    (hbetween : List.Forall₂ Token.Judged between between') (htt' : t.Judged t') :
    e.ShownBy (before ++ [name] ++ between') t' := by
  have hfault : e.fault = .invalidEscape := h.fault.eq_invalidEscape ht
  have silent := h.silent hhint pending
  refine ⟨htt'.span ▸ h.position, ?_, fun u hu he => ?_⟩
  · rw [hfault]
    exact htt'.invalidEscapeSequence ht
  · rcases List.mem_append.mp hu with hu | hu
    · rw [silent u (List.mem_append_left between hu)] at he
      cases he
    · -- a fragment that was not marked before is invalid now
      obtain ⟨w, hw, hwu⟩ := Scan.judged_mem hbetween hu
      have hinvalid : u.kind = .invalid := by
        rcases hwu.isError he with hk | hk
        · exact hk
        · rw [hk, silent w (List.mem_append_right _ hw)] at he
          cases he
      refine ⟨hfault, hinvalid, spec, before, name, between', by simp, hname, htext, hu, ?_⟩
      intro x hx
      rcases List.mem_append.mp hx with hx | hx
      · obtain ⟨w, hw, hwx⟩ := Scan.judged_mem hbetween hx
        rw [hwx.hint]
        exact hints w (by simp [hw])
      · rw [List.mem_singleton.mp hx, htt'.hint]
        exact hints t (by simp)

/-- **An error is still shown when a value is judged.** It was shown before the value, or by a broken
escape in it; then what stands in the value before the escape may be marked now. -/
theorem ParseError.ShownIn.judged {e : ParseError} {spec : OptionSpec}
    {before fragments judged : List Token} {name : Token}
    (h : e.ShownIn (before ++ name :: fragments)) (hname : name.kind = .optionName)
    (hhint : name.hint = .none) (htext : name.text = spec.name)
    (pending : ∀ t ∈ fragments, t.kind.isPending = true)
    (hints : ∀ t ∈ fragments, t.hint = .value spec)
    (hjudged : List.Forall₂ Token.Judged fragments judged) :
    e.ShownIn (before ++ name :: judged) := by
  rw [List.append_cons] at h ⊢
  rcases h.cases_append with h | ⟨between, t, later, rfl, shown⟩
  · exact h.append judged
  · have ht : t.kind = .invalidEscapeSequence :=
      TokenKind.eq_invalidEscapeSequence (pending t (by simp)) shown.fault.isError
    obtain ⟨between', rest, rfl, hbetween, hrest⟩ := Scan.judged_append hjudged
    obtain ⟨t', later', htt', -, rfl⟩ := List.forall₂_cons_left_iff.mp hrest
    refine ⟨before ++ [name] ++ between', t', later', by simp, ?_⟩
    refine shown.judged ht hname hhint htext (fun u hu => pending u (by simp [hu])) (fun u hu => ?_)
      hbetween htt'
    exact hints u (by simpa [or_assoc] using Or.inl (List.mem_append.mp hu))

namespace Scan

/-- The tokens of a scan report its error. -/
def Reports (s : Scan) : Prop := Reported s.tokens s.error

namespace Reports

variable {s : Scan}

theorem congr {s' : Scan} (h : s.Reports) (ht : s'.tokens = s.tokens) (he : s'.error = s.error) :
    s'.Reports := by
  rw [Reports, ht, he]
  exact h

theorem emit (h : s.Reports) (kind : TokenKind) (raw text : String) (hint : Hint)
    (hk : kind.isError = false) : (s.emit kind raw text hint).Reports :=
  (Reported.cons_iff (t := ⟨kind, raw, text, ⟨s.cursor, s.cursor + raw.utf8ByteSize⟩, hint⟩)
    hk).mpr h

/-- **A fault and the token that shows it.** -/
theorem report_emit (h : s.Reports) (fault : SyntaxFault) (kind : TokenKind) (raw text : String)
    (hint : Hint) (shown : ∀ earlier span, fault.ShownBy earlier ⟨kind, raw, text, span, hint⟩) :
    ((s.report fault).emit kind raw text hint).Reports := by
  have reported := Reported.report
    (t := ⟨kind, raw, text, ⟨s.cursor, s.cursor + raw.utf8ByteSize⟩, hint⟩)
    (e := ⟨s.cursor, fault⟩) h rfl (shown _ _)
  simpa [Reports, report, Scan.emit] using reported

theorem stray (h : s.Reports) {c : Char} (hc : isReserved c = true) :
    (s.stray c (strayFault c)).Reports := by
  refine h.report_emit (strayFault c) .invalid (String.singleton c) "" .none fun _ _ => ?_
  rcases isReserved_iff.mp hc with rfl | rfl | rfl <;> exact ⟨rfl, rfl, rfl⟩

theorem flush (h : s.Reports) (hint : Hint) : (s.flush hint).Reports := by
  unfold Scan.flush
  split
  · exact h
  · exact (h.emit .text s.raw s.decoded hint rfl).congr rfl rfl

theorem finishWord (h : s.Reports) : s.finishWord.Reports :=
  (h.flush .options).congr rfl rfl

/-- A blank joins a space, which marks no error, or is a token of its own. -/
theorem emitSpace (h : s.Reports) (c : Char) : (s.emitSpace c).Reports := by
  have fresh := h.emit .space (String.singleton c) "" .options rfl
  unfold Scan.emitSpace
  split
  · exact fresh
  · next last earlier htokens =>
    split
    · next hk =>
      have hlast : last.kind.isError = false := by rw [hk.1]; rfl
      rw [Reports, htokens, Reported.cons_iff hlast] at h
      exact (Reported.cons_iff (t := { last with
        raw := last.raw.push c, span := ⟨last.span.start, last.span.stop + c.utf8Size⟩ })
        hlast).mpr h
    · exact fresh

theorem finishName (h : s.Reports) (schema : Schema) : (s.finishName schema).Reports := by
  have pending : ({ s with raw := "", decoded := "" } : Scan).Reports := h
  by_cases taken : ∃ spec, s.Takes schema spec
  · obtain ⟨spec, takes⟩ := taken
    rw [finishName_taken s schema takes]
    exact (pending.emit .optionName (s.raw.push ':') s.decoded .none rfl).congr rfl rfl
  · rw [finishName_refused s schema (not_exists.mp taken)]
    refine pending.report_emit (s.refusal schema) .invalidOptionName (s.raw.push ':') s.decoded .none
      fun _ _ => ?_
    unfold refusal
    split <;> exact ⟨rfl, rfl⟩

theorem escape (h : s.Reports) (c : Char) (hint : Hint) : (s.escape c hint).Reports := by
  unfold Scan.escape
  dsimp only
  split
  · next e _ =>
    have decoded : ({ s with raw := "", decoded := s.decoded.push e } : Scan).Reports := h
    exact decoded.emit _ _ _ _ rfl
  · have pending : ({ s with raw := "" } : Scan).Reports := h
    exact pending.report_emit _ _ _ _ _ fun _ _ => rfl

theorem danglingEscape (h : s.Reports) (hint : Hint) : (s.danglingEscape hint).Reports :=
  (h.report_emit .invalidEscape .invalidEscapeSequence s.raw s.decoded hint fun _ _ => rfl).congr
    rfl rfl

theorem missingQuote (h : s.Reports) : s.missingQuote.Reports :=
  h.report_emit _ _ _ _ _ fun _ _ => rfl

/-- A value that is not accepted is shown by the first token behind its name. -/
theorem completeValue_shown {schema : Schema} {spec : OptionSpec} {fragments before run : List Token}
    {name t : Token} {text : String} {e : ParseError} (h : s.Reports) (hs : s.error = none)
    (covers : s.Covers text) (setting : s.Setting schema spec fragments name before)
    (htokens : (s.completeValue spec).tokens.reverse = before.reverse ++ name :: t :: run)
    (herror : (s.completeValue spec).error = some e) (hposition : e.position = s.valueStart)
    (hfault : EndsWithName (before.reverse ++ [name]) spec.name →
      e.fault.ShownBy (before.reverse ++ [name]) t) : (s.completeValue spec).Reports := by
  obtain ⟨-, hname⟩ := Schema.get?_eq_some_iff.mp setting.names.get
  have start : t.span.start = s.valueStart := by
    have tiled := (covers.completeValue spec).tiled
    rw [← List.reverse_reverse (s.completeValue spec).tokens, htokens, List.reverse_append,
      List.reverse_cons, List.reverse_cons, List.reverse_reverse, List.append_assoc,
      List.append_assoc] at tiled
    rw [← setting.opened.stop]
    exact tiled.start_eq_stop
  refine ⟨fun hnone => ?_, fun e' he' => ?_⟩
  · rw [herror] at hnone
    cases hnone
  · obtain rfl : e = e' := Option.some.inj (herror.symm.trans he')
    refine ⟨before.reverse ++ [name], t, run, by simp [htokens], start.trans hposition.symm,
      hfault ⟨before.reverse, name, rfl, setting.names.kind, hname.symm⟩, fun u hu hk => ?_⟩
    -- nothing was marked before the value
    have clean := h.silent hs u (by
      rw [setting.opened.tokens]
      simpa [or_comm] using Or.inr hu)
    rw [clean] at hk
    cases hk

section EndOfValue

variable {schema : Schema} {spec : OptionSpec} {fragments before : List Token} {name : Token}

/-- An error that was there before the end of a value is still shown. -/
theorem completeValue_of_error (h : s.Reports) {e : ParseError} (hs : s.error = some e)
    (setting : s.Setting schema spec fragments name before) : (s.completeValue spec).Reports := by
  obtain ⟨-, hname⟩ := Schema.get?_eq_some_iff.mp setting.names.get
  obtain ⟨closing, judged, htokens, hjudged, -⟩ := setting.opened.completeValue_judged
  have herror : (s.completeValue spec).error = some e := by simp [completeValue_error, hs]
  refine ⟨by simp [herror], fun e' he' => ?_⟩
  obtain rfl : e = e' := Option.some.inj (herror.symm.trans he')
  have shown : e.ShownIn (before.reverse ++ name :: fragments.reverse) := by
    simpa [setting.opened.tokens] using h.shown e hs
  have still := shown.judged setting.names.kind setting.names.hint hname.symm
    (by simpa using setting.opened.pending) (by simpa using setting.opened.hints)
    (List.forall₂_reverse_iff.mpr hjudged)
  simpa [htokens] using still.append closing.reverse

/-- A value that is accepted is no error, and nothing is marked. -/
theorem completeValue_of_accepted (h : s.Reports) (hs : s.error = none)
    (setting : s.Setting schema spec fragments name before)
    (begun : s.decoded ≠ "" → s.raw = "" → fragments ≠ []) (hd : s.decoded ≠ "") {v : Value}
    (hv : spec.read? s.decoded = some v) : (s.completeValue spec).Reports := by
  obtain ⟨closing, judged, htokens, hjudged, hclosing, -⟩ := setting.opened.completeValue_judged
  obtain ⟨run, closed⟩ := setting.opened.completeValue begun
  have hrun : closing ++ judged = run := List.append_cancel_right (htokens.symm.trans closed.tokens)
  obtain ⟨accepted, -⟩ := closed.verdict.accepted hd v hv
  have silent := h.silent hs
  rw [setting.opened.tokens] at silent
  refine ⟨fun _ t ht => ?_, fun e he => ?_⟩
  · rw [htokens] at ht
    rcases List.mem_append.mp ht with ht | ht
    · refine isError_of_accepted hjudged hclosing (fun u hu => ?_) (fun u hu => ?_) t ht
      · exact silent u (List.mem_append_left _ hu)
      · exact accepted u (List.mem_reverse.mpr (hrun ▸ hu))
    · exact silent t (List.mem_append_right _ ht)
  · simp [completeValue_error, hs, OptionSpec.valueFault?, hd, hv] at he

/-- **The end of a value.** Its tokens are changed, and still they report the error: an error that
was there before is still shown, and a value that is not accepted is shown by its first token. -/
theorem completeValue {text : String} (h : s.Reports) (covers : s.Covers text)
    (setting : s.Setting schema spec fragments name before)
    (begun : s.decoded ≠ "" → s.raw = "" → fragments ≠ [])
    (lone : s.error = none → s.decoded = "" → fragments = []) : (s.completeValue spec).Reports := by
  cases hs : s.error with
  | some e => exact h.completeValue_of_error hs setting
  | none =>
    rcases value_cases s spec with hd | ⟨hd, v, hv⟩ | ⟨hd, hv⟩
    · -- a missing value has no fragments, and the mark stands behind the name
      obtain rfl := lone hs hd
      have hmark : (s.completeValue spec).tokens.reverse = before.reverse ++ name ::
          ⟨.missingOptionValue, s.raw, "", ⟨s.cursor, s.cursor + s.raw.utf8ByteSize⟩,
            .value spec⟩ :: [] := by
        rw [completeValue_missing s spec hd]
        simp [Scan.emit, rejectValue, cleared, setting.opened.tokens_reject]
      refine h.completeValue_shown (e := ⟨s.valueStart, .missingValue spec.name⟩) hs covers setting
        hmark ?_ rfl fun hends => ⟨rfl, hends⟩
      simp [completeValue_error, hs, OptionSpec.valueFault?, hd]
    · exact h.completeValue_of_accepted hs setting begun hd hv
    · -- the first token of a rejected value is marked
      obtain ⟨run, closed⟩ := setting.opened.completeValue begun
      obtain ⟨⟨t, later, hfirst, hk⟩, -⟩ := closed.verdict.rejected hd hv
      have hmark : (s.completeValue spec).tokens.reverse = before.reverse ++ name :: t :: later := by
        simp [closed.tokens, hfirst]
      refine h.completeValue_shown
        (e := ⟨s.valueStart, .invalidValue spec.name spec.kind.name s.decoded⟩) hs covers setting
        hmark ?_ rfl fun hends => ⟨hk, hends⟩
      simp [completeValue_error, hs, OptionSpec.valueFault?, hd, hv]

end EndOfValue

end Reports

/-! ### Every character -/

/-- **The invariant of reporting.** Inside the quotation marks of a value, as long as nothing has been
decoded and there is no error, no token has been made since the name: an escape would have been
decoded or reported. -/
structure Reporting (s : Scan) : Prop where
  reports : s.Reports
  lone : ∀ spec, s.error = none → s.mode = .quoted (some spec) false → s.decoded = "" →
    ∀ t ∈ s.tokens.head?, t.kind = .optionName

namespace Reporting

variable {schema : Schema} {s : Scan} {target : Option OptionSpec} {read : List Char}

/-- Outside the quotation marks of a value it is enough that the tokens report the error. -/
theorem of_mode (h : s.Reports) (hm : ∀ spec, s.mode ≠ .quoted (some spec) false) : s.Reporting :=
  ⟨h, fun spec _ hm' => absurd hm' (hm spec)⟩

theorem of_outside (target : Option OptionSpec) (h : s.Reports) (hm : s.mode = .outside target) :
    s.Reporting :=
  of_mode h fun spec => by simp [hm]

/-- A value without decoded text has no fragments. -/
theorem fragments_eq_nil {spec : OptionSpec} {fragments before : List Token} {name : Token}
    (h : s.Reporting) (hm : s.mode = .quoted (some spec) false) (he : s.error = none)
    (hd : s.decoded = "") (opened : s.OpenValue spec fragments name before) : fragments = [] := by
  cases fragments with
  | nil => rfl
  | cons t fragments =>
    have hk : t.kind = .optionName := h.lone spec he hm hd t (by simp [opened.tokens])
    have := opened.pending t List.mem_cons_self
    rw [hk] at this
    cases this

theorem finish (h : s.Reporting) (tiling : Tiling read s) (agreeing : s.Agreeing schema)
    (hm : s.mode = .outside target) : (s.finish target).Reports := by
  obtain ⟨text, covers, -⟩ := tiling.covers
  cases target with
  | none => exact h.reports.finishWord
  | some spec =>
    obtain ⟨name, before, setting, hd, -⟩ := agreeing.bareValue hm
    exact h.reports.completeValue covers setting (fun hne hr => absurd (hd ▸ hr) hne) fun _ _ => rfl

theorem closeQuote (h : s.Reporting) (tiling : Tiling read s) (agreeing : s.Agreeing schema)
    (hm : s.mode = .quoted target false) : (s.closeQuote target).Reports := by
  obtain ⟨text, covers, -⟩ := tiling.covers
  have pending : ({ s with raw := s.raw.push '"' } : Scan).Reports := h.reports
  cases target with
  | none => exact pending.finishWord
  | some spec =>
    obtain ⟨fragments, name, before, body, setting, -, -⟩ := agreeing.quotation hm
    have closing : ({ s with raw := s.raw.push '"' } : Scan).Setting schema spec fragments name
        before := setting.congr (setting.opened.congr rfl rfl rfl) rfl
    exact pending.completeValue (covers.congr rfl rfl) closing (fun _ hnil => by simp at hnil)
      fun he hd => h.fragments_eq_nil hm he hd setting.opened

theorem breakOff (h : s.Reporting) (tiling : Tiling read s) (agreeing : s.Agreeing schema)
    {escaping : Bool} (hm : s.mode = .quoted target escaping) :
    (s.breakOff target escaping).Reports := by
  obtain ⟨text, covers, -⟩ := tiling.covers
  refine Reports.missingQuote ?_
  cases target with
  | none =>
    cases escaping with
    | false => exact h.reports.finishWord
    | true => exact (h.reports.danglingEscape _).finishWord
  | some spec =>
    cases escaping with
    | false =>
      obtain ⟨fragments, name, before, body, setting, hr, -⟩ := agreeing.quotation hm
      refine h.reports.completeValue covers setting (fun _ hraw hnil => ?_) fun he hd =>
        h.fragments_eq_nil hm he hd setting.opened
      simp [hraw, hnil, String.ofList_cons] at hr
    | true =>
      -- the dangling backslash is an error already, so no other can be the first
      obtain ⟨fragments, name, before, body, setting, hne, -, hf, -⟩ :=
        agreeing.quotationEscaping hm
      obtain ⟨fragments', opened, hraw⟩ := setting.opened.danglingEscape hne
      have broken := setting.congr opened (by simp [danglingEscape, report])
      refine (h.reports.danglingEscape _).completeValue
        (covers.danglingEscape (tiling.escaping _ hm) _) broken (fun _ _ hnil => ?_) fun he => ?_
      · simp [hnil, hf, String.ofList_cons] at hraw
      · simp [danglingEscape, report] at he

/-- **Invariant preservation.** Every character keeps the reporting. -/
theorem move {c : Char} {s' : Scan} (h : s.Reporting) (tiling : Tiling read s)
    (agreeing : s.Agreeing schema) (hmove : Move schema s c s') : s'.Reporting := by
  cases hmove with
  | blank target hm hc =>
    refine of_outside none ((h.finish tiling agreeing hm).emitSpace c) ?_
    rw [emitSpace_mode, (s.fresh_finish target).mode]
    rfl
  | ordinary target hm hc => exact of_outside target h.reports hm
  | openQuote target hm hc hr hd =>
    -- nothing of the value has been read, so its name is the latest token
    refine ⟨h.reports, fun spec _ hm' _ => ?_⟩
    obtain ⟨rfl, -⟩ := Mode.quoted_inj.mp (show Mode.quoted target false = _ from hm')
    obtain ⟨name, before, setting, -, -⟩ := agreeing.bareValue hm
    simpa [openQuote, setting.opened.tokens] using setting.names.kind
  | strayInWord hm hc =>
    refine of_outside none ((h.reports.flush .options).stray ?_) (by simpa using hm)
    exact isReserved_iff.mpr (.inr hc)
  | strayColon hm hc hd =>
    subst hc
    exact of_outside none (h.reports.stray rfl) (by simpa using hm)
  | name hm hc hd =>
    obtain ⟨target, hm'⟩ := s.finishName_mode schema hm
    exact of_outside target (h.reports.finishName schema) hm'
  | strayInValue spec hm hc =>
    have finished : (s.completeValue spec).Reports :=
      h.finish tiling agreeing (show s.mode = .outside (some spec) from hm)
    refine of_outside none (finished.stray hc) ?_
    rw [stray_mode, (s.fresh_completeValue spec).mode]
    rfl
  | plain target hm hq hb =>
    exact ⟨h.reports, fun _ _ _ hd => by simp [accumulate] at hd⟩
  | openEscape target hm hc =>
    refine of_mode ((h.reports.flush _).congr rfl rfl) fun spec hm' => ?_
    have := Mode.quoted_inj.mp (show Mode.quoted target true = _ from hm')
    simp at this
  | closeQuote target hm hc =>
    exact of_outside none (h.closeQuote tiling agreeing hm) (fresh_finish _ target).mode
  | closeEscape target hm =>
    refine ⟨(h.reports.escape c _).congr rfl rfl, fun spec he _ hd => ?_⟩
    -- an escape that is no error decodes to a character
    simp only [closeEscape, escape] at he hd
    cases hu : unescape? c <;> simp [hu, report] at he hd

end Reporting

end Scan

/-- The scan of every text reports its error. -/
theorem reporting_scan (schema : Schema) (query : String) :
    Tiling query.toList (scan schema query) ∧ (scan schema query).Agreeing schema ∧
      (scan schema query).Reporting :=
  scan_induction
    (motive := fun read s => Tiling read s ∧ s.Agreeing schema ∧ s.Reporting)
    ⟨tiling_scan schema "", agreeing_scan schema "", .of_outside none ⟨by simp, nofun⟩ rfl⟩
    (fun ⟨tiling, agreeing, reporting⟩ hmove =>
      ⟨tiling.move hmove, agreeing.move hmove, reporting.move tiling agreeing hmove⟩)
    query

/-- The tokens of every query report its error. -/
theorem reports_close (schema : Schema) (query : String) : (scan schema query).close.Reports := by
  obtain ⟨tiling, agreeing, reporting⟩ := reporting_scan schema query
  obtain ⟨target, hm | ⟨escaping, hm⟩⟩ := (scan schema query).mode.outside_or_quoted
  · rw [Scan.close_outside hm]
    exact reporting.finish tiling agreeing hm
  · rw [Scan.close_quoted hm]
    exact reporting.breakOff tiling agreeing hm

/-! ### The place of an error -/

/-- The characters that start before the end of the first part of a text are those of that part. -/
theorem Trace.charsBefore_append (first rest : List Char) :
    Trace.charsBefore (String.ofList first).utf8ByteSize (first ++ rest) = first.length := by
  induction first with
  | nil => cases rest <;> simp [Trace.charsBefore]
  | cons c first ih =>
    have size : (String.ofList (c :: first)).utf8ByteSize =
        c.utf8Size + (String.ofList first).utf8ByteSize := by
      rw [String.ofList_cons, String.utf8ByteSize_append, String.utf8ByteSize_singleton]
    have hpos : c.utf8Size + (String.ofList first).utf8ByteSize ≠ 0 :=
      Nat.ne_of_gt (Nat.add_pos_left (Char.utf8Size_pos c) _)
    rw [size, List.cons_append, charsBefore, if_neg hpos, Nat.add_sub_cancel_left, ih,
      List.length_cons, Nat.add_comm]

/-- **The place of an error**: the query can be cut there, between two characters. What is cut off is
as long as the mark under the query is indented. -/
structure ParseError.Inside (e : ParseError) (query : String) : Prop where
  le : e.position ≤ query.utf8ByteSize
  boundary : String.Pos.Raw.IsValid query ⟨e.position⟩
  mark : ∃ before after, query = before ++ after ∧ before.utf8ByteSize = e.position ∧
    Trace.charsBefore e.position query.toList = before.length

/-- An error that is shown by one of the tokens of a query stands inside the query. -/
theorem ParseError.ShownIn.inside {e : ParseError} {tokens : List Token} {query : String}
    (h : e.ShownIn tokens.reverse) (tiled : Tiled tokens query) : e.Inside query := by
  obtain ⟨earlier, t, later, heq, shown⟩ := h
  have hquery : query =
      String.join (earlier.map Token.raw) ++ String.join ((t :: later).map Token.raw) := by
    rw [← tiled.join, heq, List.map_append, String.join_append]
  have hposition : (String.join (earlier.map Token.raw)).utf8ByteSize = e.position := by
    rw [← shown.position, tiled.span_eq heq]
  refine ⟨?_, ?_, _, _, hquery, hposition, ?_⟩
  · rw [hquery, String.utf8ByteSize_append, hposition]
    exact Nat.le_add_right _ _
  · rw [String.Pos.Raw.isValid_iff_exists_append]
    exact ⟨_, _, hquery, by rw [← hposition]; rfl⟩
  · rw [hquery, String.toList_append, ← hposition]
    have := Trace.charsBefore_append (String.join (earlier.map Token.raw)).toList
      (String.join ((t :: later).map Token.raw)).toList
    rwa [String.ofList_toList, String.length_toList] at this

/-- **What it means that the tokens of a query show its error.** -/
structure ErrorsShown (query : String) (p : Parse) : Prop where
  error_iff : p.error ≠ none ↔ ∃ t ∈ p.tokens, t.kind.isError = true
  shown : ∀ e, p.error = some e → e.ShownIn p.tokens
  inside : ∀ e, p.error = some e → e.Inside query

/-- **The error of every query is shown by its tokens**, and it stands inside the query. -/
theorem parse_errorsShown (schema : Schema) (query : String) :
    ErrorsShown query (parse schema query) := by
  have reports := reports_close schema query
  obtain ⟨tiled, -⟩ := tiled_close schema query
  constructor
  case error_iff =>
    constructor
    · intro hne
      obtain ⟨e, he⟩ := Option.ne_none_iff_exists'.mp hne
      obtain ⟨earlier, t, later, heq, shown⟩ := reports.shown e he
      refine ⟨t, ?_, shown.fault.isError⟩
      change t ∈ (scan schema query).close.tokens.reverse
      rw [heq]
      simp
    · rintro ⟨t, ht, hk⟩ hnone
      rw [reports.silent hnone t (List.mem_reverse.mp ht)] at hk
      cases hk
  case shown => exact reports.shown
  case inside =>
    intro e he
    exact (reports.shown e he).inside tiled

namespace Example

/-- A broken escape in a value that is rejected in the end: the text before the escape is marked as
well, and still the escape is what the error is about. -/
theorem errorsShown_broken :
    (parse media "sort:\"x\\qy\"").error = some ⟨7, .invalidEscape⟩ ∧
      (⟨7, .invalidEscape⟩ : ParseError).ShownIn (parse media "sort:\"x\\qy\"").tokens := by
  have he : (parse media "sort:\"x\\qy\"").error = some ⟨7, .invalidEscape⟩ := by
    decide +kernel
  exact ⟨he, (parse_errorsShown media "sort:\"x\\qy\"").shown _ he⟩

end Example

end Searchbar
