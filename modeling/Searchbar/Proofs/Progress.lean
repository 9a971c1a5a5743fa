import Searchbar.Proofs.Language
import Searchbar.Proofs.ValidResult

/-!
# A scan only moves forward

What a scan has found in the first part of a query stays when the rest is read (`scan_forward`). The
first error stays the error. Terms and values are only added, and the value of an option that may be
given once is never replaced. The tokens stay as they are, with two exceptions: blanks may join a
space at the end, and the tokens of a value that is still open may change their class and text when
the value is complete.

* `SearchResult.Grows` is about the results. Every change of a result is growth, since a value is
  stored only where it may be set.
* `Scan.openTokens` are the tokens that may still change, and `Scan.Continues` is about the tokens.
  It is not carried along the scan but back from its end: `Scan.Agreeing.continues_move` says that what
  continues a scan after a character continues the scan before it.
-/

namespace Searchbar

/-! ### Results grow -/

/-- **A result that grows.** Nothing is lost, and an option that may be given once keeps what it
holds. -/
structure SearchResult.Grows (schema : Schema) (r r' : SearchResult) : Prop where
  terms : r.terms <+: r'.terms
  values : ∀ name, r.values name <+: r'.values name
  kept : ∀ name spec, schema.get? name = some spec → spec.multiple = false →
    r.contains name = true → r'.get? name = r.get? name

namespace SearchResult

variable {schema : Schema} {r r' r'' : SearchResult}

theorem Grows.refl (schema : Schema) (r : SearchResult) : r.Grows schema r :=
  ⟨List.prefix_rfl, fun _ => List.prefix_rfl, fun _ _ _ _ _ => rfl⟩

theorem Grows.trans (h : r.Grows schema r') (h' : r'.Grows schema r'') : r.Grows schema r'' where
  terms := h.terms.trans h'.terms
  values name := (h.values name).trans (h'.values name)
  kept name spec hget hm hc := by
    have same := h.kept name spec hget hm hc
    have hc' : r'.contains name = true := by rwa [contains_eq_isSome, same, ← contains_eq_isSome]
    rw [h'.kept name spec hget hm hc', same]

theorem grows_push (schema : Schema) (r : SearchResult) (term : String) :
    r.Grows schema (r.push term) := by
  refine ⟨?_, fun name => ?_, fun _ _ _ _ _ => get?_push r term _⟩
  · by_cases ht : term = ""
    · subst ht
      exact List.prefix_rfl
    · rw [push_of_ne r ht]
      exact List.prefix_append _ _
  · simp [values]

/-- A value that may be set is added to what its option holds. -/
theorem grows_store {spec : OptionSpec} (v : Value) (hget : schema.get? spec.name = some spec)
    (hset : spec.multiple = true ∨ r.contains spec.name = false) :
    r.Grows schema (r.store spec v) := by
  refine ⟨List.prefix_rfl, fun name => ?_, fun name spec' hget' hm hc => ?_⟩
  · have := values_storeIf hset (some v) name
    rw [storeIf] at this
    rw [this]
    exact List.prefix_append _ _
  · -- an option that holds something and may be given once is not the one that is set
    refine get?_store_of_ne r spec v fun hname => ?_
    subst hname
    obtain rfl : spec = spec' := Option.some.inj (hget.symm.trans hget')
    rcases hset with h | h
    · rw [hm] at h
      cases h
    · rw [hc] at h
      cases h

/-- **Every change is growth.** -/
theorem Change.grows (h : r.Change schema r') : r.Grows schema r' := by
  cases h with
  | same => exact .refl schema r
  | term text => exact grows_push schema r text
  | value spec v hget hset _ => exact grows_store v hget hset

end SearchResult

namespace Scan

variable {schema : Schema} {s t u : Scan} {spec : OptionSpec}

/-- The result grows to the end of the query. -/
theorem Agreeing.grows_run (h : s.Agreeing schema) (text : List Char) :
    s.result.Grows schema (s.run schema text).close.result := by
  induction text generalizing s with
  | nil => exact h.change_close.grows
  | cons c text ih =>
    have hmove := step_move schema s c
    exact (h.change_move hmove).grows.trans (ih (h.move hmove))

/-! ### Tokens stay -/

/-- **The tokens of a value that is still open**, the latest first: those behind its name. -/
def openTokens (s : Scan) : List Token :=
  match s.mode.target with
  | none => []
  | some _ => s.tokens.takeWhile fun t => t.kind ≠ .optionName

/-- **The tokens that are settled**, the latest first: all others. -/
def settledTokens (s : Scan) : List Token :=
  match s.mode.target with
  | none => s.tokens
  | some _ => s.tokens.dropWhile fun t => t.kind ≠ .optionName

theorem openTokens_append_settledTokens (s : Scan) :
    s.openTokens ++ s.settledTokens = s.tokens := by
  unfold openTokens settledTokens
  split
  · rfl
  · exact List.takeWhile_append_dropWhile

theorem openTokens_of_text (hm : s.mode.target = none) : s.openTokens = [] := by
  simp [openTokens, hm]

/-- A scan whose latest token is a name has nothing open. -/
theorem openTokens_of_name {name : Token} {before : List Token} (ht : s.tokens = name :: before)
    (hname : name.kind = .optionName) : s.openTokens = [] := by
  unfold openTokens
  split
  · rfl
  · simp [ht, hname]

theorem settledTokens_of_openTokens (h : s.openTokens = []) : s.settledTokens = s.tokens := by
  simpa [h] using s.openTokens_append_settledTokens

theorem settledTokens_of_text (hm : s.mode.target = none) : s.settledTokens = s.tokens :=
  settledTokens_of_openTokens (openTokens_of_text hm)

theorem OpenValue.openTokens {fragments before : List Token} {name : Token}
    (h : s.OpenValue spec fragments name before) (hm : s.mode.target = some spec)
    (hname : name.kind = .optionName) : s.openTokens = fragments := by
  have pending : ∀ t ∈ fragments, decide (t.kind ≠ .optionName) = true := by
    intro t ht
    refine decide_eq_true fun hk => ?_
    have := h.pending t ht
    rw [hk] at this
    cases this
  simp only [Scan.openTokens, hm, h.tokens]
  rw [List.takeWhile_append_of_pos pending, List.takeWhile_cons_of_neg (by simp [hname]),
    List.append_nil]

theorem OpenValue.settledTokens {fragments before : List Token} {name : Token}
    (h : s.OpenValue spec fragments name before) (hm : s.mode.target = some spec)
    (hname : name.kind = .optionName) : s.settledTokens = name :: before := by
  have parts := s.openTokens_append_settledTokens
  rw [h.openTokens hm hname, h.tokens] at parts
  exact List.append_cancel_left parts

/-- **Tokens that stay**, the latest first. If the latest is a space, blanks may have joined it. -/
inductive Grown : List Token → List Token → Prop
  | same (tokens : List Token) : Grown tokens tokens
  | space (t : Token) (more : String) (earlier : List Token) (hk : t.kind = .space)
      (blank : ∀ c ∈ more.toList, Text.isBlank c = true) :
      Grown (t :: earlier) ({ t with
        raw := t.raw ++ more
        span := ⟨t.span.start, t.span.stop + more.utf8ByteSize⟩ } :: earlier)

theorem Grown.trans {a b c : List Token} (h : Grown a b) (h' : Grown b c) : Grown a c := by
  cases h with
  | same => exact h'
  | space t more earlier hk blank =>
    cases h' with
    | same => exact .space t more earlier hk blank
    | space _ more' _ _ blank' =>
      have joined := Grown.space t (more ++ more') earlier hk fun c hc => by
        rw [String.toList_append] at hc
        exact (List.mem_append.mp hc).elim (blank c) (blank' c)
      simpa only [String.append_assoc, String.utf8ByteSize_append, Nat.add_assoc] using joined

/-- Only a space grows. -/
theorem Grown.eq_of_cons {t : Token} {earlier tokens : List Token} (h : Grown (t :: earlier) tokens)
    (hk : t.kind ≠ .space) : tokens = t :: earlier := by
  cases h with
  | same => rfl
  | space _ _ _ hk' => exact absurd hk' hk

/-- What stands before the latest token stays. -/
theorem Grown.exists_cons {t : Token} {earlier tokens : List Token}
    (h : Grown (t :: earlier) tokens) : ∃ t', tokens = t' :: earlier := by
  cases h with
  | same => exact ⟨t, rfl⟩
  | space => exact ⟨_, rfl⟩

/-- **The scan `t` continues the scan `s`**: the settled tokens of `s` stay, its open ones are judged
where they stand, and others may follow. -/
def Continues (s t : Scan) : Prop :=
  ∃ settled opened later, t.tokens = later ++ opened ++ settled ∧ Grown s.settledTokens settled ∧
    List.Forall₂ Token.Judged s.openTokens opened

theorem continues_of_append {later : List Token} (h : t.tokens = later ++ s.tokens) :
    s.Continues t := by
  refine ⟨s.settledTokens, s.openTokens, later, ?_, .same _,
    List.forall₂_same.mpr fun t _ => .refl t⟩
  rw [h, List.append_assoc, openTokens_append_settledTokens]

theorem continues_emit (s : Scan) (kind : TokenKind) (raw text : String) (hint : Hint) :
    s.Continues (s.emit kind raw text hint) :=
  continues_of_append (show _ = [_] ++ s.tokens from rfl)

/-- What continues a scan with nothing open, which continues `s`, continues `s`. -/
theorem Continues.trans (h : s.Continues t) (solid : ∀ a ∈ s.openTokens, a.kind ≠ .space)
    (ht : t.openTokens = []) (h' : t.Continues u) : s.Continues u := by
  obtain ⟨settled, opened, later, htokens, grown, judged⟩ := h
  obtain ⟨settled', opened', later', htokens', grown', judged'⟩ := h'
  rw [ht, List.forall₂_nil_left_iff] at judged'
  subst judged'
  rw [settledTokens_of_openTokens ht, htokens] at grown'
  rw [List.append_nil] at htokens'
  -- the latest token of `t` may grow: it is a new one, or an open one of `s`, or a settled one
  cases later with
  | cons a later =>
    obtain ⟨a', rfl⟩ := grown'.exists_cons
    exact ⟨settled, opened, later' ++ a' :: later, by simp [htokens'], grown, judged⟩
  | nil =>
    cases opened with
    | cons a opened =>
      obtain ⟨b, hb, hba⟩ := judged_mem judged List.mem_cons_self
      have hk : a.kind ≠ .space := by
        rcases hba.kind with hk | ⟨-, hk | hk⟩
        · rw [hk]
          exact solid b hb
        · simp [hk]
        · intro hs
          simp [hs, TokenKind.isCarrier] at hk
      obtain rfl := grown'.eq_of_cons hk
      exact ⟨settled, a :: opened, later', by simp [htokens'], grown, judged⟩
    | nil => exact ⟨settled', [], later', by simp [htokens'], grown.trans grown', judged⟩

/-- New tokens while the same word or value is read. -/
theorem Continues.of_append (h : t.Continues u) (new : List Token)
    (ht : t.tokens = new ++ s.tokens) (hm : t.mode.target = s.mode.target)
    (hnew : ∀ a ∈ new, a.kind ≠ .optionName) : s.Continues u := by
  cases htarget : s.mode.target with
  | none =>
    refine (continues_of_append ht).trans ?_ ?_ h
    · simp [openTokens_of_text htarget]
    · exact openTokens_of_text (hm.trans htarget)
  | some spec =>
    -- the new tokens are open like those before them
    have hopen : t.openTokens = new ++ s.openTokens := by
      simp only [openTokens, hm, htarget, ht]
      exact List.takeWhile_append_of_pos fun a ha => decide_eq_true (hnew a ha)
    have hsettled : t.settledTokens = s.settledTokens := by
      have parts := t.openTokens_append_settledTokens
      rw [hopen, ht, List.append_assoc, ← s.openTokens_append_settledTokens] at parts
      exact List.append_cancel_left (List.append_cancel_left parts)
    obtain ⟨settled, opened, later, htokens, grown, judged⟩ := h
    rw [hopen] at judged
    obtain ⟨new', opened', rfl, -, hopened⟩ := judged_append judged
    exact ⟨settled, opened', later ++ new', by simp [htokens], hsettled ▸ grown, hopened⟩

theorem Continues.of_stray {c : Char} {fault : SyntaxFault} (h : (s.stray c fault).Continues u) :
    s.Continues u :=
  h.of_append [⟨.invalid, String.singleton c, "",
    ⟨s.cursor, s.cursor + (String.singleton c).utf8ByteSize⟩, .none⟩]
    (by simp [stray, report, emit]) (by simp) (by simp)

theorem Continues.of_flush (h : t.Continues u) {hint : Hint}
    (ht : t.tokens = (s.flush hint).tokens) (hm : t.mode.target = s.mode.target) :
    s.Continues u := by
  unfold flush at ht
  split at ht
  · exact h.of_append [] ht hm (by simp)
  · exact h.of_append [⟨.text, s.raw, s.decoded, ⟨s.cursor, s.cursor + s.raw.utf8ByteSize⟩, hint⟩]
      ht hm (by simp)

theorem Continues.of_escape (h : t.Continues u) {c : Char} {hint : Hint}
    (ht : t.tokens = (s.escape c hint).tokens) (hm : t.mode.target = s.mode.target) :
    s.Continues u := by
  have hpush : ∃ kind text, (s.escape c hint).tokens = ⟨kind, s.raw.push c, text,
      ⟨s.cursor, s.cursor + (s.raw.push c).utf8ByteSize⟩, hint⟩ :: s.tokens ∧
      kind ≠ .optionName := by
    unfold escape
    dsimp only
    split
    · exact ⟨.escapeSequence, _, rfl, by decide⟩
    · exact ⟨.invalidEscapeSequence, s.decoded, by simp [emit, report], by decide⟩
  obtain ⟨kind, text, hescape, hk⟩ := hpush
  exact h.of_append [_] (ht.trans hescape) hm (by simpa using hk)

/-! ### The end of a word or value -/

theorem emitSpace_continues (hs : s.openTokens = []) {c : Char} (hc : Text.isBlank c = true) :
    s.Continues (s.emitSpace c) := by
  have fresh := s.continues_emit .space (String.singleton c) "" .options
  unfold emitSpace
  split
  · exact fresh
  · next last earlier htokens =>
    split
    · next hk =>
      refine ⟨_, [], [], rfl, ?_, ?_⟩
      · rw [settledTokens_of_openTokens hs, htokens]
        have grown := Grown.space last (String.singleton c) earlier hk.1 (by simpa using hc)
        simpa using grown
      · simp [hs]
    · exact fresh

/-- The value that is open, if any, stands behind its name. -/
def Named (s : Scan) : Prop :=
  ∀ spec, s.mode.target = some spec →
    ∃ fragments name before, s.OpenValue spec fragments name before ∧ name.kind = .optionName

theorem Agreeing.named (h : s.Agreeing schema) : s.Named := by
  intro spec hm
  obtain ⟨fragments, name, before, setting, -⟩ := h.setting hm
  exact ⟨fragments, name, before, setting.opened, setting.names.kind⟩

/-- Pending text is in no token yet. -/
theorem Named.pending (h : s.Named) (raw : String) : ({ s with raw := raw } : Scan).Named := by
  intro spec hm
  obtain ⟨fragments, name, before, opened, hname⟩ := h spec hm
  exact ⟨fragments, name, before, opened.congr rfl rfl rfl, hname⟩

/-- No token of a value that is open is a space. -/
theorem Named.solid (h : s.Named) : ∀ a ∈ s.openTokens, a.kind ≠ .space := by
  intro a ha hk
  cases hm : s.mode.target with
  | none => simp [openTokens_of_text hm] at ha
  | some spec =>
    obtain ⟨fragments, name, before, opened, hname⟩ := h spec hm
    rw [opened.openTokens hm hname] at ha
    have := opened.pending a ha
    rw [hk] at this
    cases this

theorem Named.finish_continues (h : s.Named) : s.Continues (s.finish s.mode.target) := by
  cases hm : s.mode.target with
  | none =>
    have finished : s.finishWord.Continues s.finishWord :=
      continues_of_append (List.nil_append _).symm
    exact finished.of_flush rfl (by rw [hm, s.fresh_finishWord.mode]; rfl)
  | some spec =>
    obtain ⟨fragments, name, before, opened, hname⟩ := h spec hm
    obtain ⟨closing, judged, htokens, hjudged, -⟩ := opened.completeValue_judged
    refine ⟨name :: before, judged, closing, htokens, ?_, ?_⟩
    · rw [opened.settledTokens hm hname]
      exact .same _
    · rwa [opened.openTokens hm hname]

/-- **What continues a scan after a word or value** continues the scan before its end. -/
theorem Named.continues_finish (h : s.Named) (h' : (s.finish s.mode.target).Continues u) :
    s.Continues u := by
  refine h.finish_continues.trans h.solid (openTokens_of_text ?_) h'
  rw [(s.fresh_finish s.mode.target).mode]
  rfl

/-! ### Every character -/

/-- **What continues a scan after a character** continues the scan before it. -/
theorem Agreeing.continues_move (h : s.Agreeing schema) {c : Char} (hmove : Move schema s c t)
    (h' : t.Continues u) : s.Continues u := by
  cases hmove with
  | blank target hm hc =>
    rw [← target_of_outside hm] at h'
    refine h.named.continues_finish ?_
    have hopen : (s.finish s.mode.target).openTokens = [] :=
      openTokens_of_text (by rw [(s.fresh_finish s.mode.target).mode]; rfl)
    refine (emitSpace_continues hopen hc).trans (by simp [hopen]) (openTokens_of_text ?_) h'
    rw [emitSpace_mode, (s.fresh_finish s.mode.target).mode]
    rfl
  | ordinary target hm hc => exact h'
  | openQuote target hm hc hr hd =>
    refine h'.of_append [] rfl ?_ (by simp)
    rw [openQuote_mode, Mode.target_quoted, target_of_outside hm]
  | strayInWord hm hc => exact h'.of_stray.of_flush rfl (by simp)
  | strayColon hm hc hd => exact h'.of_stray
  | name hm hc hd =>
    have htext : s.openTokens = [] := openTokens_of_text (target_of_bare hm)
    obtain ⟨spec, -, hname⟩ | ⟨fault, hname⟩ := s.finishName_cases schema
    · -- the name is settled, and nothing is open behind it
      rw [hname] at h'
      have named : s.Continues (s.openValue spec) :=
        s.continues_emit .optionName (s.raw.push ':') s.decoded .none
      exact named.trans (by simp [htext]) (openTokens_of_name rfl rfl) h'
    · rw [hname] at h'
      have refused : s.Continues (s.refuseName fault) :=
        continues_of_append (show _ = [_] ++ s.tokens by simp [refuseName, report, emit]; rfl)
      refine refused.trans (by simp [htext]) (openTokens_of_text ?_) h'
      simp [refuseName, report, target_of_bare hm]
  | strayInValue spec hm hc =>
    refine h.named.continues_finish ?_
    rw [hm]
    exact h'.of_stray
  | plain target hm hq hb => exact h'
  | openEscape target hm hc =>
    refine h'.of_flush rfl ?_
    rw [target_of_quoted hm]
    exact Mode.target_quoted target true
  | closeQuote target hm hc =>
    rw [Scan.closeQuote, ← target_of_quoted hm] at h'
    exact ((h.named.pending _).continues_finish h').of_append [] rfl rfl (by simp)
  | closeEscape target hm =>
    refine h'.of_escape rfl ?_
    rw [target_of_quoted hm]
    exact Mode.target_quoted target false

/-- A dangling backslash belongs to the value that is open. -/
theorem Agreeing.named_danglingEscape (h : s.Agreeing schema) {target : Option OptionSpec}
    (hm : s.mode = .quoted target true) : (s.danglingEscape (.ofEscape target)).Named := by
  intro spec hspec
  have hmode : (s.danglingEscape (.ofEscape target)).mode = s.mode := by
    simp [danglingEscape, report]
  obtain rfl : target = some spec := by
    rw [← target_of_quoted hm, ← hmode]
    exact hspec
  obtain ⟨fragments, name, before, body, setting, hne, -, -, -⟩ := h.quotationEscaping hm
  obtain ⟨fragments', opened, -⟩ := setting.opened.danglingEscape hne
  exact ⟨fragments', name, before, opened, setting.names.kind⟩

/-- **The end of the query continues the scan.** -/
theorem Agreeing.continues_close (h : s.Agreeing schema) : s.Continues s.close := by
  obtain ⟨target, hm | ⟨escaping, hm⟩⟩ := s.mode.outside_or_quoted
  · rw [close_outside hm, ← target_of_outside hm]
    exact h.named.finish_continues
  · rw [close_quoted hm]
    have mark : ∀ d : Scan, d.Continues d.missingQuote := fun d =>
      continues_of_append (show _ = [_] ++ d.tokens by simp [missingQuote, report, emit]; rfl)
    cases escaping with
    | false =>
      refine h.named.continues_finish ?_
      rw [target_of_quoted hm]
      exact mark (s.finish target)
    | true =>
      -- the backslash gets a token first, and then the word or value ends
      have hmode : (s.danglingEscape (.ofEscape target)).mode.target = target := by
        simp [danglingEscape, report, hm]
      have finished : (s.danglingEscape (.ofEscape target)).Continues (s.breakOff target true) := by
        refine (h.named_danglingEscape hm).continues_finish ?_
        rw [hmode]
        exact mark _
      exact finished.of_append [⟨.invalidEscapeSequence, s.raw, s.decoded,
        ⟨s.cursor, s.cursor + s.raw.utf8ByteSize⟩, .ofEscape target⟩]
        (by simp [danglingEscape, report, emit]) (by rw [hmode, target_of_quoted hm]) (by simp)

/-- **The end of the query continues every scan on the way.** -/
theorem Agreeing.continues_run (h : s.Agreeing schema) (text : List Char) :
    s.Continues (s.run schema text).close := by
  induction text generalizing s with
  | nil => exact h.continues_close
  | cons c text ih =>
    have hmove := step_move schema s c
    exact h.continues_move hmove (ih (h.move hmove))

end Scan

/-! ### Whole queries -/

/-- **What a query keeps of a scan of its first part.** -/
structure Forward (schema : Schema) (s : Scan) (p : Parse) : Prop where
  error : ∀ e, s.error = some e → p.error = some e
  result : s.result.Grows schema p.result
  /-- In the order of the query: the settled tokens, those that were open, and others. -/
  tokens : ∃ settled opened later, p.tokens = settled.reverse ++ opened.reverse ++ later ∧
    Scan.Grown s.settledTokens settled ∧ List.Forall₂ Token.Judged s.openTokens opened

/-- **A scan only moves forward**: what it has found in the first part of a query stays when the rest
is read. -/
theorem scan_forward (schema : Schema) (first rest : String) :
    Forward schema (scan schema first) (parse schema (first ++ rest)) := by
  have agreeing := agreeing_scan schema first
  have hscan : scan schema (first ++ rest) = (scan schema first).run schema rest.toList := by
    rw [scan_eq_run, String.toList_append, Scan.run_append, ← scan_eq_run]
  rw [parse, hscan]
  constructor
  case error =>
    intro e he
    exact Scan.error_close (Scan.error_run schema he rest.toList)
  case result => exact agreeing.grows_run rest.toList
  case tokens =>
    obtain ⟨settled, opened, later, htokens, grown, judged⟩ := agreeing.continues_run rest.toList
    exact ⟨settled, opened, later.reverse, by simp [Scan.output, htokens], grown, judged⟩

end Searchbar
