import Searchbar.Example.Media
import Searchbar.Proofs.Tiling
import Searchbar.Proofs.ValueHints

/-!
# What the end of a value reaches

When a value is complete, the scan walks back over the tokens that it has made and changes some of
them. It does not know which tokens belong to the value: it goes by the offset at which the value
started, and where it has to find a token that can carry the value it does not ask whether there is
one. Both are right whenever a value is completed (`values_completed`): the tokens that are visited
are those made since the value was opened, one of them can carry the value if nothing is pending,
and no token before them changes.

* `Scan.ValueEnd` lists the states in which a value is completed, and `Scan.exists_valueEnd` says
  that no value ends in another way.
* `openedAt_scan` goes back to where the value was opened: what was settled then is settled now.
* `Scan.Ready` is what the scan relies on, and `Scan.ValueEnd.ready` says that it holds in each of
  these states. A value outside quotation marks is pending as a whole, and one inside them starts
  with a quotation mark, which is in the oldest token if it is in a token
  (`Scan.OpenValue.oldest_quote`).
-/

namespace Searchbar

namespace Scan

/-- The tokens that the end of a value **visits**, the latest first: those from where the value
started. -/
def visited (s : Scan) : List Token :=
  s.tokens.takeWhile fun t => s.valueStart ≤ t.span.start

theorem OpenValue.visited_eq {spec : OptionSpec} {s : Scan} {fragments before : List Token}
    {name : Token} (h : s.OpenValue spec fragments name before) : s.visited = fragments := by
  have starts : ∀ t ∈ fragments, decide (s.valueStart ≤ t.span.start) = true :=
    fun t ht => decide_eq_true (h.starts t ht)
  rw [visited, h.tokens, List.takeWhile_append_of_pos starts,
    List.takeWhile_cons_of_neg (by simpa using h.start), List.append_nil]

/-! ### The states in which a value is completed -/

/-- The scan after a character, or closed at the end of the query. -/
def proceed (schema : Schema) (s : Scan) : Option Char → Scan
  | some c => s.step schema c
  | none => s.close

/-- **The end of a value.** At `next`, a character or the end of the query, the scan `s` completes
its value of `spec` in the state `t`, and it goes on as `s'`. -/
inductive ValueEnd (s : Scan) (spec : OptionSpec) : Option Char → Scan → Scan → Prop
  | blank (c : Char) (hm : s.mode = .value spec) (hc : Text.isBlank c = true) :
      ValueEnd s spec (some c) s ((s.completeValue spec).emitSpace c)
  | stray (c : Char) (hm : s.mode = .value spec) (hc : isReserved c = true)
      (hr : c = '"' → s.raw ≠ "") :
      ValueEnd s spec (some c) s ((s.completeValue spec).stray c (strayFault c))
  | quote (hm : s.mode = .quotedValue spec false) :
      ValueEnd s spec (some '"') { s with raw := s.raw.push '"' }
        ({ s with raw := s.raw.push '"' }.completeValue spec)
  | bare (hm : s.mode = .value spec) : ValueEnd s spec none s (s.completeValue spec)
  | broken (hm : s.mode = .quotedValue spec false) :
      ValueEnd s spec none s (s.completeValue spec).missingQuote
  | dangling (hm : s.mode = .quotedValue spec true) :
      ValueEnd s spec none (s.danglingEscape (.value spec))
        ((s.danglingEscape (.value spec)).completeValue spec).missingQuote

section ValueEnd

variable {schema : Schema} {s t s' : Scan} {spec : OptionSpec} {next : Option Char}

theorem ValueEnd.target (h : s.ValueEnd spec next t s') : s.mode.target = some spec := by
  cases h with
  | blank _ hm _ => rw [hm]; rfl
  | stray _ hm _ _ => rw [hm]; rfl
  | quote hm => rw [hm]; rfl
  | bare hm => rw [hm]; rfl
  | broken hm => rw [hm]; rfl
  | dangling hm => rw [hm]; rfl

/-- The scan does go on like this. -/
theorem ValueEnd.proceed_eq (h : s.ValueEnd spec next t s') : s.proceed schema next = s' := by
  cases h with
  | blank c hm hc => exact step_blank (show s.mode = .outside (some spec) from hm) hc
  | stray c hm hc hr => exact step_value_reserved hm hc hr
  | quote hm => exact step_closeQuote (show s.mode = .quoted (some spec) false from hm)
  | bare hm => exact close_outside (show s.mode = .outside (some spec) from hm)
  | broken hm => exact close_quoted (show s.mode = .quoted (some spec) false from hm)
  | dangling hm => exact close_quoted (show s.mode = .quoted (some spec) true from hm)

/-- **A value goes on, or it is completed** in one of these states. -/
theorem exists_valueEnd (schema : Schema) (hm : s.mode.target = some spec) (next : Option Char) :
    (s.proceed schema next).mode.target = some spec ∨ ∃ t s', s.ValueEnd spec next t s' := by
  cases next with
  | none =>
    right
    cases hmode : s.mode with
    | bare => simp [hmode, Mode.target] at hm
    | quotedText escaping => simp [hmode, Mode.target] at hm
    | value spec' =>
      obtain rfl : spec' = spec := by simpa [hmode, Mode.target] using hm
      exact ⟨_, _, .bare hmode⟩
    | quotedValue spec' escaping =>
      obtain rfl : spec' = spec := by simpa [hmode, Mode.target] using hm
      cases escaping with
      | false => exact ⟨_, _, .broken hmode⟩
      | true => exact ⟨_, _, .dangling hmode⟩
  | some c =>
    have hmove := step_move schema s c
    change (s.step schema c).mode.target = some spec ∨ _
    generalize s.step schema c = s' at hmove ⊢
    cases hmove with
    | blank target hm' hc =>
      obtain rfl : target = some spec := (target_of_outside hm').symm.trans hm
      exact .inr ⟨_, _, .blank c hm' hc⟩
    | ordinary target hm' hc => exact .inl hm
    | openQuote target hm' hc hr hd =>
      obtain rfl : target = some spec := (target_of_outside hm').symm.trans hm
      exact .inl rfl
    | strayInWord hm' => cases (target_of_bare hm').symm.trans hm
    | strayColon hm' => cases (target_of_bare hm').symm.trans hm
    | name hm' => cases (target_of_bare hm').symm.trans hm
    | strayInValue spec' hm' hc hr =>
      obtain rfl : spec' = spec := by simpa [hm', Mode.target] using hm
      exact .inr ⟨_, _, .stray c hm' hc hr⟩
    | plain target hm' hq hb => exact .inl hm
    | openEscape target hm' hc =>
      exact .inl ((Mode.target_quoted target true).trans ((target_of_quoted hm').symm.trans hm))
    | closeQuote target hm' hc =>
      obtain rfl : target = some spec := (target_of_quoted hm').symm.trans hm
      subst hc
      exact .inr ⟨_, _, .quote hm'⟩
    | closeEscape target hm' =>
      exact .inl ((Mode.target_quoted target false).trans ((target_of_quoted hm').symm.trans hm))

end ValueEnd

end Scan

/-! ### Where the value was opened -/

/-- **A value of `spec` is open** after `first`, and the latest token is the name that opened it. -/
structure OpenedAt (schema : Schema) (spec : OptionSpec) (first : String) (name : Token)
    (before : List Token) : Prop where
  target : (scan schema first).mode.target = some spec
  tokens : (scan schema first).tokens = name :: before
  opens : Scan.Opens schema spec name

/-- **The value that is being read was opened**, and what was settled then is settled now. -/
theorem openedAt_scan (schema : Schema) (text : List Char) {spec : OptionSpec}
    (hm : (scan schema (String.ofList text)).mode.target = some spec) :
    ∃ first rest name before, text = first ++ rest ∧
      OpenedAt schema spec (String.ofList first) name before ∧
      (scan schema (String.ofList text)).settledTokens = name :: before := by
  -- from the end: the last character opened the value, or the value was open before it
  induction text using List.reverseRecOn with
  | nil => cases hm
  | append_singleton text c ih =>
    have step : scan schema (String.ofList (text ++ [c])) =
        (scan schema (String.ofList text)).step schema c := by
      simp [scan_eq_run, Scan.run_append]
    have advance := (agreeing_scan schema (String.ofList text)).advance_move
      (Scan.step_move schema (scan schema (String.ofList text)) c)
    rw [← step] at advance
    cases advance with
    | text _ hm' => cases hm'.symm.trans hm
    | opened spec' name _ hm' _ opens _ htokens =>
      -- this character is the colon behind the name
      obtain rfl : spec' = spec := Option.some.inj (hm'.symm.trans hm)
      refine ⟨text ++ [c], [], name, _, by simp, ⟨hm, htokens, opens⟩, ?_⟩
      rw [Scan.settledTokens_of_openTokens (Scan.openTokens_of_name htokens opens.kind), htokens]
    | refused _ _ hm' => cases hm'.symm.trans hm
    | inside spec' hm₀ hm' settled =>
      obtain rfl : spec' = spec := Option.some.inj (hm'.symm.trans hm)
      obtain ⟨first, rest, name, before, htext, opened, hsettled⟩ := ih hm₀
      exact ⟨first, rest ++ [c], name, before, by simp [htext], opened, settled.trans hsettled⟩
    | completed _ _ _ _ _ hm' => cases hm'.symm.trans hm

namespace Scan

/-! ### What the end of a value relies on -/

section Ready

variable {schema : Schema} {s t s' : Scan} {spec : OptionSpec} {next : Option Char}
  {fragments before : List Token} {name : Token}

/-- **A value that is ready** to be completed: it is pending as a whole, or what has been read of it
starts with a quotation mark. -/
inductive Ready (spec : OptionSpec) (t : Scan) (fragments : List Token) : Prop
  | bare (hf : fragments = []) (hd : t.raw = t.decoded)
  | quoted (body : List Char) (hm : t.mode ≠ .value spec)
      (hr : rawText fragments.reverse ++ t.raw = String.ofList ('"' :: body))

/-- If nothing is pending of a value, it is in fragments. -/
theorem Ready.fragments_ne_nil (h : t.Ready spec fragments) (hd : t.decoded ≠ "")
    (hr : t.raw = "") : fragments ≠ [] := by
  cases h with
  | bare _ hd' => exact absurd (hd' ▸ hr) hd
  | quoted body _ hr' =>
    rintro rfl
    simp [hr, String.ofList_cons] at hr'

/-- **The oldest fragment starts with the quotation mark** that opens the value: it is not empty,
and nothing of the value stands before it. -/
theorem OpenValue.oldest_quote (h : t.OpenValue spec fragments name before) (neat : Neat t.tokens)
    {body : List Char} (hr : rawText fragments.reverse ++ t.raw = String.ofList ('"' :: body))
    (hne : fragments ≠ []) :
    ∃ later first, fragments = later ++ [first] ∧ first.kind = .text ∧
      first.raw.toList.head? = some '"' := by
  obtain ⟨later, first, rfl⟩ := List.eq_nil_or_concat fragments |>.resolve_left hne
  have hk : first.kind = .text := h.oldest first (by simp)
  have solid : first.raw ≠ "" := by
    intro hempty
    have := (neat.sound first (by simp [h.tokens])).solid hempty
    rw [hk] at this
    cases this
  refine ⟨later, first, by simp, hk, ?_⟩
  have spelt := congrArg (fun text => text.toList.head?) hr
  have chars : first.raw.toList ≠ [] := by simpa using solid
  simpa [List.head?_append, List.head?_eq_some_head chars] using spelt

/-- **Every value that is completed is ready**, and its fragments stand behind the name that is
settled. -/
theorem ValueEnd.ready (h : s.ValueEnd spec next t s') (agreeing : s.Agreeing schema)
    {read : List Char} (tiling : Tiling read s) :
    ∃ fragments name before, t.OpenValue spec fragments name before ∧
      s.settledTokens = name :: before ∧ t.Ready spec fragments ∧ Neat t.tokens := by
  obtain ⟨text, covers, -⟩ := tiling.covers
  have target := h.target
  -- outside quotation marks the three ways to end find the same state
  have bare (hm : s.mode = .value spec) :
      ∃ fragments name before, s.OpenValue spec fragments name before ∧
        s.settledTokens = name :: before ∧ s.Ready spec fragments ∧ Neat s.tokens := by
    obtain ⟨name, before, setting, hd, -⟩ :=
      agreeing.bareValue (show s.mode = .outside (some spec) from hm)
    exact ⟨[], name, before, setting.opened,
      setting.opened.settledTokens target setting.names.kind, .bare rfl hd, covers.neat⟩
  cases h with
  | blank c hm hc => exact bare hm
  | stray c hm hc hr => exact bare hm
  | bare hm => exact bare hm
  | quote hm =>
    obtain ⟨fragments, name, before, body, setting, hr, -⟩ :=
      agreeing.quotation (show s.mode = .quoted (some spec) false from hm)
    refine ⟨fragments, name, before, setting.opened.congr rfl rfl rfl,
      setting.opened.settledTokens target setting.names.kind,
      .quoted (body ++ ['"']) (by simp [hm]) (append_push_eq_ofList hr '"'), covers.neat⟩
  | broken hm =>
    obtain ⟨fragments, name, before, body, setting, hr, -⟩ :=
      agreeing.quotation (show s.mode = .quoted (some spec) false from hm)
    exact ⟨fragments, name, before, setting.opened,
      setting.opened.settledTokens target setting.names.kind,
      .quoted body (by simp [hm]) hr, covers.neat⟩
  | dangling hm =>
    -- the backslash has become a fragment, and nothing is pending
    obtain ⟨fragments, name, before, body, setting, hne, hr, hf, -⟩ :=
      agreeing.quotationEscaping (show s.mode = .quoted (some spec) true from hm)
    obtain ⟨fragments', opened, hraw⟩ := setting.opened.danglingEscape hne
    have dangling := covers.danglingEscape (by simp [hr]) (.value spec)
    refine ⟨fragments', name, before, opened,
      setting.opened.settledTokens target setting.names.kind,
      .quoted (body ++ ['\\']) (by simp [danglingEscape, report, hm]) ?_, dangling.neat⟩
    rw [hraw, append_escape hr hf, show (s.danglingEscape (.value spec)).raw = "" from rfl,
      String.append_empty]

/-! ### What the end of a value changes -/

/-- **One token is retagged**: the latest of some tokens that is text or marked gets another class
and another text, and no other token changes. -/
def Retagged (kind : TokenKind) (text : String) (tokens tokens' : List Token) : Prop :=
  ∃ later u earlier, tokens = later ++ u :: earlier ∧ (u.kind = .text ∨ u.kind = .invalid) ∧
    (∀ w ∈ later, w.kind ≠ .text ∧ w.kind ≠ .invalid) ∧
    tokens' = later ++ { u with kind := kind, text := text } :: earlier

/-- A value of which nothing is pending is carried by a token that is there already. -/
theorem carryValue_retagged (spec : OptionSpec) (kind : TokenKind) (value : String)
    (htokens : s.tokens = fragments ++ name :: before) (hname : name.span.start < s.valueStart)
    (starts : ∀ u ∈ fragments, s.valueStart ≤ u.span.start)
    (carrier : ∃ u ∈ fragments, u.kind = .text ∨ u.kind = .invalid) :
    ∃ run, Retagged kind value fragments run ∧
      (s.carryValue spec kind "" value).tokens = run ++ name :: before := by
  obtain ⟨later, u, earlier, hsplit, hu, hlater, htag⟩ := retagFrom_eq kind value carrier
  refine ⟨_, ⟨later, u, earlier, hsplit, hu, hlater, rfl⟩, ?_⟩
  change retagFrom s.valueStart kind value s.tokens = _
  rw [htokens, retagFrom_append kind value hname starts, htag]

/-- **What the completion of a value finds and does** in the state `t`, if the value was opened by
`name` behind the tokens `before`. -/
structure Completed (spec : OptionSpec) (name : Token) (before : List Token) (t : Scan) : Prop where
  start : t.valueStart = name.span.stop
  /-- The tokens that are visited are those made since the name, ... -/
  since : t.tokens = t.visited ++ name :: before
  /-- ... and they are those that are reached when tokens are marked. -/
  reach : ∀ f, mapFrom t.valueStart f t.tokens = t.visited.map f ++ name :: before
  hints : ∀ u ∈ t.visited, u.hint = .value spec
  kinds : ∀ u ∈ t.visited,
    u.kind = .text ∨ u.kind = .escapeSequence ∨ u.kind = .invalidEscapeSequence
  bare : t.mode = .value spec → t.visited = [] ∧ t.raw = t.decoded
  /-- If nothing is pending of a value, there is a token with its opening quotation mark. -/
  carrier : t.raw = "" → t.decoded ≠ "" → ∃ later first, t.visited = later ++ [first] ∧
    first.kind = .text ∧ first.raw.toList.head? = some '"'
  /-- Then one visited token comes to carry the value, which is accepted and shown as such ... -/
  accepted : t.raw = "" → t.decoded ≠ "" → ∀ v, spec.read? t.decoded = some v →
    ∃ shown run, spec.kind.ShownAs shown ∧ Retagged shown t.decoded t.visited run ∧
      (t.completeValue spec).tokens = run ++ name :: before
  /-- ... or rejected, after all have been marked. -/
  rejected : t.raw = "" → t.decoded ≠ "" → spec.read? t.decoded = none →
    ∃ run, Retagged .invalid t.decoded (t.visited.map rejectToken) run ∧
      (t.completeValue spec).tokens = run ++ name :: before
  /-- Whatever becomes of the value, what stands before it does not change. -/
  kept : ∃ closing judged, (t.completeValue spec).tokens = closing ++ judged ++ name :: before ∧
    List.Forall₂ Token.Judged t.visited judged ∧ closing.length ≤ 1

/-- **A value that is ready is completed as it should be.** -/
theorem OpenValue.completed (h : t.OpenValue spec fragments name before)
    (ready : t.Ready spec fragments) (neat : Neat t.tokens) : t.Completed spec name before := by
  have visited := h.visited_eq
  -- the token that can carry the value: the oldest fragment is text, so there is one
  have text (hr : t.raw = "") (hd : t.decoded ≠ "") : ∃ u ∈ fragments, u.kind = .text :=
    h.exists_text (ready.fragments_ne_nil hd hr)
  constructor
  case start => exact h.stop.symm
  case since => rw [visited, h.tokens]
  case reach =>
    intro f
    rw [visited, h.tokens, mapFrom_append f h.start h.starts]
  case hints => rw [visited]; exact h.hints
  case kinds =>
    rw [visited]
    intro u hu
    have := h.pending u hu
    cases hk : u.kind <;> simp_all [TokenKind.isPending]
  case bare =>
    intro hm
    cases ready with
    | bare hf hd => exact ⟨visited.trans hf, hd⟩
    | quoted _ hm' => exact absurd hm hm'
  case carrier =>
    intro hr hd
    have hne := ready.fragments_ne_nil hd hr
    rw [visited]
    cases ready with
    | bare hf _ => exact absurd hf hne
    | quoted body _ hr' => exact h.oldest_quote neat hr' hne
  case accepted =>
    intro hr hd v hv
    rw [visited, completeValue_accepted t spec hd hv, hr]
    obtain ⟨u, hu, hk⟩ := text hr hd
    obtain ⟨run, retagged, htokens⟩ := carryValue_retagged
      (s := { t.cleared with result := t.result.store spec v }) spec (.ofValue spec.kind) t.decoded
      h.tokens h.start h.starts ⟨u, hu, .inl hk⟩
    exact ⟨_, run, spec.kind.shownAs_ofValue, retagged, htokens⟩
  case rejected =>
    intro hr hd hv
    rw [visited, completeValue_rejected t spec hd hv, hr]
    obtain ⟨u, hu, hk⟩ := text hr hd
    -- a fragment that was text is marked by now, and stands where it stood
    refine carryValue_retagged spec _ _ ?_ ?_ ?_
      ⟨rejectToken u, List.mem_map_of_mem hu, .inr (rejectToken_text hk)⟩
    · simp [rejectValue, cleared, h.tokens_reject]
    · simpa [rejectValue, cleared] using h.start
    · simpa [rejectValue, cleared] using h.starts
  case kept =>
    obtain ⟨closing, judged, htokens, hjudged, -, hone⟩ := h.completeValue_judged
    exact ⟨closing, judged, htokens, visited ▸ hjudged, hone⟩

end Ready

end Scan

/-! ### Whole queries -/

/-- **How the values of a query end**, wherever the scan of its first part `text` stands. -/
structure ValuesCompleted (schema : Schema) (text : String) : Prop where
  /-- A value goes on, or it ends in one of the states listed, ... -/
  ends : ∀ spec next, (scan schema text).mode.target = some spec →
    ((scan schema text).proceed schema next).mode.target = some spec ∨
      ∃ t s', (scan schema text).ValueEnd spec next t s'
  /-- ... and the scan goes on from there. -/
  goesOn : ∀ spec next t s', (scan schema text).ValueEnd spec next t s' →
    (scan schema text).proceed schema next = s'
  /-- In each of these states the end of the value reaches its tokens and no others. -/
  completed : ∀ spec next t s', (scan schema text).ValueEnd spec next t s' →
    ∃ first rest name before, text = first ++ rest ∧ OpenedAt schema spec first name before ∧
      t.Completed spec name before

/-- **The end of a value reaches exactly the tokens of the value**, and finds one to carry it. -/
theorem values_completed (schema : Schema) (text : String) : ValuesCompleted schema text where
  ends _ next hm := Scan.exists_valueEnd schema hm next
  goesOn _ _ _ _ h := h.proceed_eq
  completed spec next t s' h := by
    obtain ⟨fragments, name, before, opened, settled, ready, neat⟩ :=
      h.ready (agreeing_scan schema text) (tiling_scan schema text)
    obtain ⟨first, rest, name', before', htext, openedAt, settled'⟩ :=
      openedAt_scan schema text.toList (by simpa using h.target)
    -- the name that is settled now is the one that opened the value
    rw [String.ofList_toList, settled] at settled'
    obtain ⟨rfl, rfl⟩ := List.cons.inj settled'
    refine ⟨String.ofList first, String.ofList rest, name, before, ?_, openedAt,
      opened.completed ready neat⟩
    rw [← String.ofList_append, ← htext, String.ofList_toList]

namespace Example

/-- A value that breaks off right behind an escape: nothing is pending of it, and the quotation mark
and the letter behind it are the token that comes to carry it. -/
theorem values_completed_author :
    ∃ spec, (scan media "x author:\"a\\n").mode = .quotedValue spec false ∧
      (scan media "x author:\"a\\n").raw = "" ∧ (scan media "x author:\"a\\n").decoded = "a\n" ∧
      ∃ name before, (scan media "x author:\"a\\n").Completed spec name before := by
  obtain ⟨spec, hm⟩ : ∃ spec, (scan media "x author:\"a\\n").mode = .quotedValue spec false :=
    ⟨_, rfl⟩
  obtain ⟨-, -, name, before, -, -, completed⟩ :=
    (values_completed media "x author:\"a\\n").completed spec none _ _ (.broken hm)
  exact ⟨spec, hm, by decide +kernel, by decide +kernel, name, before, completed⟩

end Example

end Searchbar
