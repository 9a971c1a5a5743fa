import Searchbar.Proofs.Caret
import Searchbar.Proofs.Separation
import Searchbar.Proofs.SessionHistory

/-!
# Completing what is typed

Candidates are asked for while a query is typed, with the caret at the end of what is typed so far.
Two things are expected of them.

* In a value they are those for the value as it has been decoded so far (`tokenAt_typing`), whether it
  is empty, quoted, cut into pieces by escapes, broken off or rejected. The end of the query closes the
  value in five ways, and each leaves at the caret a token that shows the value (`Token.Shows`,
  `Scan.EndsShowing.completeValue`). The one that makes no token relies on what the scan has shown
  before: after an escape nothing is pending, and the escape's own token has all that is decoded
  (`Scan.showing_scan`).
* What follows the caret does not matter, if a blank separates it (`candidatesAt_append`). A blank
  closes a word or value as the end of the query does, and the tokens that it leaves stay. The blank's
  own token starts at the caret, or it continues a space in which the caret then rests.
-/

namespace Searchbar

/-! ### Tokens that show a value -/

/-- **A token that shows a value** of `spec` which is typed as far as `typed`. An empty one stands for a
missing value. -/
structure Token.Shows (spec : OptionSpec) (typed : String) (t : Token) : Prop where
  hint : t.hint = .value spec
  text : t.text = typed
  solid : t.raw = "" → t.kind = .missingOptionValue

/-- A rejected token still shows the value. -/
theorem Token.Shows.rejectToken {spec : OptionSpec} {typed : String} {t : Token}
    (h : t.Shows spec typed) : (Scan.rejectToken t).Shows spec typed := by
  unfold Scan.rejectToken
  split
  · next hk =>
    refine ⟨h.hint, h.text, fun hraw => ?_⟩
    simp [h.solid hraw] at hk
  · exact h

namespace Scan

/-- The latest token of a scan shows a value. -/
def EndsShowing (s : Scan) (spec : OptionSpec) (typed : String) : Prop :=
  ∃ t earlier, s.tokens = t :: earlier ∧ t.Shows spec typed

namespace EndsShowing

variable {s : Scan} {spec : OptionSpec} {typed : String}

theorem congr {s' : Scan} (h : s.EndsShowing spec typed) (ht : s'.tokens = s.tokens) :
    s'.EndsShowing spec typed := by
  unfold EndsShowing
  rw [ht]
  exact h

theorem emit (s : Scan) (kind : TokenKind) (raw : String) (spec : OptionSpec) (typed : String)
    (solid : raw = "" → kind = .missingOptionValue) :
    (s.emit kind raw typed (.value spec)).EndsShowing spec typed :=
  ⟨_, s.tokens, rfl, rfl, rfl, solid⟩

theorem rejectValue (h : s.EndsShowing spec typed) : s.rejectValue.EndsShowing spec typed := by
  obtain ⟨t, earlier, htokens, shows⟩ := h
  unfold EndsShowing Scan.rejectValue
  rw [htokens, mapFrom]
  split
  · exact ⟨_, _, rfl, shows.rejectToken⟩
  · exact ⟨_, _, rfl, shows⟩

/-- The token that carries the value is the latest one, or the latest one shows it already. -/
theorem carryValue {raw : String} (h : raw = "" → s.EndsShowing spec typed) (kind : TokenKind) :
    (s.carryValue spec kind raw typed).EndsShowing spec typed := by
  unfold Scan.carryValue
  split
  · next he =>
    obtain ⟨t, earlier, htokens, shows⟩ := h (String.isEmpty_iff.mp he)
    unfold EndsShowing
    rw [htokens, retagFrom]
    split
    · split
      · next hk =>
        refine ⟨_, _, rfl, shows.hint, rfl, fun hraw => ?_⟩
        simp [shows.solid hraw] at hk
      · exact ⟨_, _, rfl, shows⟩
    · exact ⟨_, _, rfl, shows⟩
  · next he => exact emit s kind raw spec typed fun hraw => absurd (by simp [hraw]) he

/-- **The end of a value** leaves a token that shows what has been decoded, whatever became of it. -/
theorem completeValue (h : s.raw = "" → s.decoded ≠ "" → s.EndsShowing spec s.decoded) :
    (s.completeValue spec).EndsShowing spec s.decoded := by
  rcases value_cases s spec with hd | ⟨hd, v, hv⟩ | ⟨hd, hv⟩
  · rw [completeValue_missing s spec hd, hd]
    exact emit _ .missingOptionValue s.raw spec "" fun _ => rfl
  · rw [completeValue_accepted s spec hd hv]
    refine carryValue (fun hraw => ?_) _
    exact (h hraw hd).congr rfl
  · -- the fragments are marked as rejected first
    rw [completeValue_rejected s spec hd hv]
    refine carryValue (fun hraw => rejectValue ?_) _
    exact (h hraw hd).congr (by simp [cleared])

end EndsShowing

/-- **What is decoded is shown.** In a value of which something is decoded and nothing is pending, the
latest token shows what is decoded. -/
def Showing (s : Scan) : Prop :=
  ∀ spec, s.mode.target = some spec → s.raw = "" → s.decoded ≠ "" → s.EndsShowing spec s.decoded

theorem showing_of_text {s : Scan} (hm : s.mode.target = none) : s.Showing := by
  intro spec hspec
  rw [hm] at hspec
  cases hspec

theorem showing_of_pending {s : Scan} (hr : s.raw ≠ "") : s.Showing :=
  fun _ _ hraw => absurd hraw hr

/-- The token of an escape has all that is decoded with it. -/
theorem escape_endsShowing (s : Scan) (c : Char) (spec : OptionSpec) :
    (s.escape c (.value spec)).EndsShowing spec (s.escape c (.value spec)).decoded := by
  unfold escape
  dsimp only
  split
  · exact .emit _ _ _ spec _ (by simp)
  · rw [emit_decoded, report, reportAt_decoded]
    exact .emit _ _ _ spec _ (by simp)

/-- After every character what is decoded is shown. Only after an escape is nothing pending. -/
theorem showing_move {schema : Schema} {s s' : Scan} {c : Char} (hmove : Move schema s c s') :
    s'.Showing := by
  cases hmove with
  | blank target hm hc =>
    refine showing_of_text ?_
    rw [emitSpace_mode, (s.fresh_finish target).mode]
    rfl
  | ordinary target hm hc => exact showing_of_pending (by simp [accumulate])
  | openQuote target hm hc hr hd => exact showing_of_pending (by simp [openQuote])
  | strayInWord hm hc => exact showing_of_text (by simp [target_of_bare hm])
  | strayColon hm hc hd => exact showing_of_text (by simp [target_of_bare hm])
  | name hm hc hd =>
    obtain ⟨spec, -, hname⟩ | ⟨fault, hname⟩ := s.finishName_cases schema
    · -- a value that has just been opened is empty
      rw [hname]
      exact fun _ _ _ hne => absurd rfl hne
    · rw [hname]
      exact showing_of_text (by simp [refuseName, report, target_of_bare hm])
  | strayInValue spec hm hc =>
    refine showing_of_text ?_
    rw [stray_mode, (s.fresh_completeValue spec).mode]
    rfl
  | plain target hm hq hb => exact showing_of_pending (by simp [accumulate])
  | openEscape target hm hc => exact showing_of_pending (by simp [openEscape])
  | closeQuote target hm hc =>
    refine showing_of_text ?_
    rw [closeQuote, (fresh_finish _ target).mode]
    rfl
  | closeEscape target hm =>
    cases target with
    | none => exact showing_of_text (target_of_quoted rfl)
    | some spec =>
      intro spec' hm' _ _
      obtain rfl : spec = spec' := Option.some.inj ((target_of_quoted rfl).symm.trans hm')
      exact (s.escape_endsShowing c spec).congr rfl

/-- The scan of every text shows what it has decoded. -/
theorem showing_scan (schema : Schema) (query : String) : (scan schema query).Showing :=
  scan_induction (motive := fun _ s => s.Showing) (showing_of_text rfl) (fun _ => showing_move) query

/-- **The end of the query leaves a token that shows the value** that is being read. Only the mark of a
missing quotation mark may follow. -/
theorem Showing.close {s : Scan} {spec : OptionSpec} (h : s.Showing)
    (typing : s.mode.target = some spec)
    (escaping : ∀ target, s.mode = .quoted target true → s.raw ≠ "") :
    ∃ marks t earlier, s.close.tokens = marks ++ t :: earlier ∧ t.Shows spec s.decoded ∧
      ∀ m ∈ marks, m.raw = "" ∧ m.kind = .missingQuote := by
  obtain ⟨target, hm | ⟨broken, hm⟩⟩ := s.mode.outside_or_quoted
  · obtain rfl : target = some spec := (target_of_outside hm).symm.trans typing
    obtain ⟨t, earlier, htokens, shows⟩ := EndsShowing.completeValue (h spec typing)
    refine ⟨[], t, earlier, ?_, shows, by simp⟩
    rw [close_outside hm]
    exact htokens
  · obtain rfl : target = some spec := (target_of_quoted hm).symm.trans typing
    have mark : ∀ u : Scan, u.missingQuote.tokens =
        [⟨.missingQuote, "", "", ⟨u.cursor, u.cursor⟩, .none⟩] ++ u.tokens := by
      intro u
      simp [missingQuote, report, emit]
    rw [close_quoted hm, breakOff, mark]
    cases broken with
    | false =>
      obtain ⟨t, earlier, htokens, shows⟩ := EndsShowing.completeValue (h spec typing)
      exact ⟨_, t, earlier, congrArg (_ ++ ·) htokens, shows, by simp⟩
    | true =>
      -- the dangling backslash is a token of its own by now, and that shows the value
      have dangling : (s.danglingEscape (.value spec)).EndsShowing spec s.decoded := by
        refine (EndsShowing.emit (s.report .invalidEscape) .invalidEscapeSequence s.raw spec s.decoded
          fun hraw => absurd hraw (escaping _ hm)).congr rfl
      have hdecoded : (s.danglingEscape (.value spec)).decoded = s.decoded := by
        simp [danglingEscape, report]
      have finished : ((s.danglingEscape (.value spec)).completeValue spec).EndsShowing spec
          (s.danglingEscape (.value spec)).decoded :=
        .completeValue fun _ _ => hdecoded.symm ▸ dangling
      rw [hdecoded] at finished
      obtain ⟨t, earlier, htokens, shows⟩ := finished
      exact ⟨_, t, earlier, congrArg (_ ++ ·) htokens, shows, by simp⟩

end Scan

/-! ### Completing a value -/

/-- A token that only marks behind it follow ends with the text. -/
theorem Tiled.stop_eq_size (marks : List Token) {earlier : List Token} {t : Token} {text : String}
    (h : Tiled (marks ++ t :: earlier) text) (hmarks : ∀ m ∈ marks, m.raw = "") :
    t.span.stop = text.utf8ByteSize := by
  induction marks generalizing text with
  | nil =>
    cases h with
    | cons _ span => rw [span]
  | cons m marks ih =>
    cases h with
    | cons h _ =>
      rw [hmarks m List.mem_cons_self, String.append_empty]
      exact ih h fun u hu => hmarks u (List.mem_cons_of_mem m hu)

/-- The caret at the end of a text rests on a token that shows a value, if only marks follow it. -/
theorem Tiled.tokenAt_end {tokens marks earlier : List Token} {t : Token} {text : String}
    (h : Tiled tokens.reverse text) (htokens : tokens.reverse = marks ++ t :: earlier)
    (hmarks : ∀ m ∈ marks, m.raw = "" ∧ m.kind = .missingQuote)
    (solid : t.raw = "" → t.kind = .missingOptionValue) :
    tokenAt tokens (.caret text.utf8ByteSize) = some t := by
  rw [htokens] at h
  have hstop := h.stop_eq_size marks fun m hm => (hmarks m hm).1
  have heq := h.stop_eq (t := t) (by simp)
  refine tokenAt_eq_some marks htokens (fun m hm => Bool.eq_false_iff.mpr fun hholds => ?_) ?_
  · -- a mark takes up no space, and it is no gap
    obtain ⟨hraw, hkind⟩ := hmarks m hm
    have hlt := h.start_lt_stop_iff (t := m) (by simp [hm])
    rw [Token.holds_eq, Bool.or_eq_true, Token.spans_iff, Token.isGap_iff] at hholds
    rcases hholds with ⟨hstart, hcaret⟩ | ⟨-, -, hgap⟩
    · exact hlt.mp (by omega) hraw
    · rw [hkind] at hgap
      cases hgap
  · rw [Token.holds_eq, Bool.or_eq_true, Token.spans_iff, Token.isGap_iff]
    by_cases hraw : t.raw = ""
    · rw [hraw] at heq
      exact .inr ⟨heq.symm, heq.symm.trans hstop, solid hraw⟩
    · have := (h.start_lt_stop_iff (t := t) (by simp)).mpr hraw
      exact .inl ⟨hstop ▸ this, Nat.le_of_eq hstop.symm⟩

/-- **What is offered for a value** of a kind that is typed as far as `typed`. -/
def OptionKind.Offers (typed : String) (offered : List Candidate) : OptionKind → Prop
  | .boolean => offered = [⟨"yes", none⟩, ⟨"no", none⟩]
  | .enum choices =>
    offered = (choices.filter fun choice => typed.toList <+: choice.toList).map (⟨·, none⟩)
  | .number source | .string source =>
    match source with
    | none => offered = []
    | some source => source.Offers typed offered

theorem OptionKind.offers_completeValue (kind : OptionKind) (typed : String) :
    kind.Offers typed (kind.completeValue typed).candidates := by
  cases kind with
  | boolean => rfl
  | enum choices =>
    simp only [OptionKind.completeValue, Text.startsWith_eq_decide]
    rfl
  | number source =>
    cases source with
    | none => rfl
    | some source => exact source.offers_offer typed
  | string source =>
    cases source with
    | none => rfl
    | some source => exact source.offers_offer typed

/-- **A value is completed as it has been decoded so far.** While a value of `spec` is being read, the
caret at the end rests on a token for this option with the decoded text, and what is offered there is
what `spec` offers for that text. -/
theorem tokenAt_typing (schema : Schema) (query : String) (spec : OptionSpec)
    (typing : (scan schema query).mode.target = some spec) :
    ∃ t, tokenAt (parse schema query).tokens (.caret query.utf8ByteSize) = some t ∧
      t.hint = .value spec ∧ t.text = (scan schema query).decoded ∧
      spec.kind.Offers (scan schema query).decoded
        (candidatesAt (parse schema query).tokens (.caret query.utf8ByteSize) schema) := by
  have tiling := tiling_scan schema query
  obtain ⟨marks, t, earlier, htokens, shows, hmarks⟩ :=
    (Scan.showing_scan schema query).close typing tiling.escaping
  have hreverse : (parse schema query).tokens.reverse = marks ++ t :: earlier := by
    rw [← htokens]
    exact List.reverse_reverse _
  have rests := (tiled_parse schema query).tokenAt_end hreverse hmarks shows.solid
  refine ⟨t, rests, shows.hint, shows.text, ?_⟩
  rw [candidatesAt_eq rests, Token.complete, shows.hint, shows.text]
  exact spec.kind.offers_completeValue _

namespace Example

/-- A choice that is rejected, broken off inside quotation marks and after an escape that stands for
nothing, is completed by what is decoded of it. -/
theorem tokenAt_typing_sort :
    ∃ spec t, (scan media "tag:x sort:\"ne\\q").mode.target = some spec ∧ spec.name = "sort" ∧
      tokenAt (parse media "tag:x sort:\"ne\\q").tokens (.caret 16) = some t ∧
      t.hint = .value spec ∧ t.text = "ne" ∧
      candidatesAt (parse media "tag:x sort:\"ne\\q").tokens (.caret 16) media =
        [⟨"newest", none⟩] := by
  obtain ⟨spec, typing, hname⟩ : ∃ spec,
      (scan media "tag:x sort:\"ne\\q").mode.target = some spec ∧ spec.name = "sort" :=
    ⟨_, rfl, rfl⟩
  obtain ⟨t, rests, hint, text, -⟩ := tokenAt_typing media "tag:x sort:\"ne\\q" spec typing
  refine ⟨spec, t, typing, hname, rests, hint, text.trans (by decide +kernel), ?_⟩
  decide +kernel

end Example

/-! ### What follows the caret -/

/-- A token that **continues** another one: it starts where the other does and reaches at least as far,
and it offers the same. -/
structure Token.Continues (t t' : Token) : Prop where
  kind : t'.kind = t.kind
  hint : t'.hint = t.hint
  text : t'.text = t.text
  start : t'.span.start = t.span.start
  stop : t.span.stop ≤ t'.span.stop

namespace Scan

/-- The latest of tokens that stay is continued, and the others are the same. -/
theorem Grown.continues {t : Token} {earlier tokens : List Token} (h : Grown (t :: earlier) tokens) :
    ∃ t', tokens = t' :: earlier ∧ t.Continues t' := by
  cases h with
  | same => exact ⟨t, rfl, rfl, rfl, rfl, rfl, Nat.le_refl _⟩
  | space _ more => exact ⟨_, rfl, rfl, rfl, rfl, rfl, Nat.le_add_right _ _⟩

/-- **The token of a blank** and of the blanks that join it later: it starts at the cursor, or it
continues the space that ends there. Either way it reaches beyond the cursor. -/
theorem emitSpace_grown {s : Scan} {c : Char} {settled : List Token}
    (grown : Grown (s.emitSpace c).tokens settled) :
    ∃ space earlier, settled = space :: earlier ∧ space.kind = .space ∧
      s.cursor < space.span.stop ∧
      (space.span.start = s.cursor ∧ earlier = s.tokens ∨
        ∃ last, s.tokens = last :: earlier ∧ last.Continues space) := by
  have size : 0 < c.utf8Size := c.utf8Size_pos
  -- a token of its own
  have fresh : Grown (s.emit .space (String.singleton c) "" .options).tokens settled →
      ∃ space earlier, settled = space :: earlier ∧ space.kind = .space ∧
        s.cursor < space.span.stop ∧ space.span.start = s.cursor ∧ earlier = s.tokens := by
    intro grown
    obtain ⟨space, rfl, continues⟩ := Grown.continues grown
    refine ⟨space, s.tokens, rfl, continues.kind, ?_, continues.start, rfl⟩
    have hstop := continues.stop
    rw [String.utf8ByteSize_singleton] at hstop
    exact Nat.lt_of_lt_of_le (Nat.lt_add_of_pos_right size) hstop
  unfold emitSpace at grown
  split at grown
  · obtain ⟨space, earlier, hsettled, hk, hstop, hstart⟩ := fresh grown
    exact ⟨space, earlier, hsettled, hk, hstop, .inl hstart⟩
  · next last earlier htokens =>
    split at grown
    · next hk =>
      obtain ⟨space, rfl, continues⟩ := grown.continues
      have hstop := continues.stop
      have reach : last.span.stop < space.span.stop :=
        Nat.lt_of_lt_of_le (Nat.lt_add_of_pos_right size) hstop
      exact ⟨space, earlier, rfl, continues.kind.trans hk.1, hk.2 ▸ reach,
        .inr ⟨last, htokens, continues.kind, continues.hint, continues.text, continues.start,
          Nat.le_of_lt reach⟩⟩
    · obtain ⟨space, earlier, hsettled, hk, hstop, hstart⟩ := fresh grown
      exact ⟨space, earlier, hsettled, hk, hstop, .inl hstart⟩

end Scan

/-- **A blank behind a query** closes it as its end does. The tokens that the query has alone are kept
before the token of the blank, but for a space at its end, which the blank continues. -/
theorem tokens_append_blank {schema : Schema} {first rest : String} {c : Char}
    (closed : ∀ t ∈ (parse schema first).tokens, t.kind ≠ .missingQuote)
    (hhead : rest.toList.head? = some c) (hc : Text.isBlank c = true) :
    ∃ later space earlier, (parse schema (first ++ rest)).tokens.reverse = later ++ space :: earlier ∧
      space.kind = .space ∧ first.utf8ByteSize < space.span.stop ∧
      (space.span.start = first.utf8ByteSize ∧ earlier = (parse schema first).tokens.reverse ∨
        ∃ last, (parse schema first).tokens.reverse = last :: earlier ∧ last.Continues space) := by
  have closed' : ∀ t ∈ (scan schema first).close.tokens, t.kind ≠ .missingQuote :=
    fun t ht => closed t (List.mem_reverse.mpr ht)
  have covers := covers_close closed'
  have agreeing := agreeing_scan schema first
  obtain ⟨more, hrest⟩ : ∃ more, rest.toList = c :: more := List.head?_eq_some_iff.mp hhead
  obtain ⟨target, hm⟩ := Scan.outside_of_closed closed'
  have hstep : (scan schema first).step schema c = (scan schema first).close.emitSpace c := by
    rw [Scan.step_blank hm hc, Scan.close_outside hm]
  have hscan : scan schema (first ++ rest) =
      ((scan schema first).close.emitSpace c).run schema more := by
    rw [← hstep, scan_eq_run, String.toList_append, hrest, Scan.run_append, Scan.run_cons,
      ← scan_eq_run]
  have agreeing' : ((scan schema first).close.emitSpace c).Agreeing schema :=
    hstep ▸ agreeing.move (Scan.step_move schema (scan schema first) c)
  -- nothing is open behind the blank, so what is there by then stays
  obtain ⟨settled, opened, later, htokens, grown, judged⟩ := agreeing'.continues_run more
  have hopen : ((scan schema first).close.emitSpace c).openTokens = [] := by
    refine Scan.openTokens_of_text ?_
    rw [Scan.emitSpace_mode, Scan.close_outside hm, (Scan.fresh_finish _ target).mode]
    rfl
  rw [hopen, List.forall₂_nil_left_iff] at judged
  subst judged
  rw [Scan.settledTokens_of_openTokens hopen] at grown
  obtain ⟨space, earlier, rfl, hk, hstop, hplace⟩ := Scan.emitSpace_grown grown
  rw [covers.cursor] at hstop hplace
  have hfirst : (parse schema first).tokens.reverse = (scan schema first).close.tokens :=
    List.reverse_reverse _
  refine ⟨later, space, earlier, ?_, hk, hstop, hfirst ▸ hplace⟩
  rw [parse, hscan]
  simpa [Scan.output] using htokens

/-- A token that starts behind the caret does not hold it. -/
theorem Token.holds_eq_false {t : Token} {caret : Nat} (h : caret < t.span.start) :
    t.holds caret = false := by
  rw [Bool.eq_false_iff, Token.holds_eq, Ne, Bool.or_eq_true, Token.spans_iff, Token.isGap_iff]
  omega

/-- A caret at the end of a query that is not empty rests on a token, and no later one holds it. -/
theorem exists_holds_end {tokens : List Token} {text : String} (h : Tiled tokens text)
    (hne : text ≠ "") :
    ∃ later t earlier, tokens = later ++ t :: earlier ∧ t.holds text.utf8ByteSize = true ∧
      ∀ u ∈ later, u.holds text.utf8ByteSize = false := by
  have hpos : 0 < text.utf8ByteSize := by
    rw [Nat.pos_iff_ne_zero]
    exact fun hzero => hne (String.utf8ByteSize_eq_zero_iff.mp hzero)
  obtain ⟨t, ht, hspans⟩ := h.exists_spans hpos (Nat.le_refl _)
  have found : (tokens.find? fun t => t.holds text.utf8ByteSize).isSome = true := by
    rw [List.find?_isSome]
    exact ⟨t, ht, by rw [Token.holds_eq, hspans, Bool.true_or]⟩
  obtain ⟨u, hu⟩ := Option.isSome_iff_exists.mp found
  obtain ⟨hholds, later, earlier, htokens, hlater⟩ := List.find?_eq_some_iff_append.mp hu
  exact ⟨later, u, earlier, htokens, hholds, fun w hw => by simpa using hlater w hw⟩

/-- **The caret rests on the same**, up to a space that goes on, when a blank and other text follow. -/
theorem tokenAt_append (schema : Schema) {first rest : String} {c : Char} (hne : first ≠ "")
    (closed : ∀ t ∈ (parse schema first).tokens, t.kind ≠ .missingQuote)
    (hhead : rest.toList.head? = some c) (hc : Text.isBlank c = true) :
    ∃ t t', tokenAt (parse schema first).tokens (.caret first.utf8ByteSize) = some t ∧
      tokenAt (parse schema (first ++ rest)).tokens (.caret first.utf8ByteSize) = some t' ∧
      t.Continues t' := by
  obtain ⟨later, space, earlier, hwhole, hk, hstop, hplace⟩ :=
    tokens_append_blank closed hhead hc
  have tiled := tiled_parse schema first
  have tiled' := tiled_parse schema (first ++ rest)
  -- what comes after the blanks starts behind the caret
  have behind : ∀ u ∈ later, u.holds first.utf8ByteSize = false := by
    intro u hu
    have ordered := tiled'.ordered
    rw [hwhole] at ordered
    have := (List.pairwise_append.mp ordered).2.2 u hu space List.mem_cons_self
    exact Token.holds_eq_false (Nat.lt_of_lt_of_le hstop this)
  rcases hplace with ⟨hstart, rfl⟩ | ⟨last, hlast, continues⟩
  · -- the space starts at the caret, so the search goes on to the tokens of the first part
    have hspace : space.holds first.utf8ByteSize = false := by
      rw [Bool.eq_false_iff, Token.holds_eq, Ne, Bool.or_eq_true, Token.spans_iff, Token.isGap_iff]
      rintro (⟨hlt, -⟩ | ⟨-, -, hgap⟩)
      · omega
      · rw [hk] at hgap
        cases hgap
    obtain ⟨newer, t, older, hfirst, hholds, hnewer⟩ := exists_holds_end tiled hne
    refine ⟨t, t, tokenAt_eq_some newer hfirst hnewer hholds, ?_, rfl, rfl, rfl, rfl, Nat.le_refl _⟩
    have hsplit : (parse schema (first ++ rest)).tokens.reverse =
        (later ++ space :: newer) ++ t :: older := by
      rw [hwhole, hfirst]
      simp
    refine tokenAt_eq_some (later ++ space :: newer) hsplit ?_ hholds
    · intro u hu
      rcases List.mem_append.mp hu with hu | hu
      · exact behind u hu
      · rcases List.mem_cons.mp hu with rfl | hu
        · exact hspace
        · exact hnewer u hu
  · -- the caret is at the end of a space, and rests on it also when it goes on
    rw [hlast] at tiled
    have hend : last.span.stop = first.utf8ByteSize := tiled.stop_eq_size [] (by simp)
    have hspans : last.span.start < first.utf8ByteSize := by
      have hmem : last ∈ (parse schema first).tokens := by
        rw [← List.mem_reverse, hlast]
        exact List.mem_cons_self
      have hgap : last.kind ≠ .missingOptionValue := by
        rw [← continues.kind, hk]
        decide
      rw [← hend]
      exact start_lt_stop hmem hgap (closed last hmem)
    refine ⟨last, space, tokenAt_eq_some [] hlast (by simp) ?_,
      tokenAt_eq_some later hwhole behind ?_, continues⟩
    · rw [Token.holds_eq, Bool.or_eq_true, Token.spans_iff]
      exact .inl ⟨hspans, Nat.le_of_eq hend.symm⟩
    · rw [Token.holds_eq, Bool.or_eq_true, Token.spans_iff, continues.start]
      exact .inl ⟨hspans, Nat.le_of_lt hstop⟩

/-- **What follows the caret does not change the candidates**, if a blank separates it from the text
that is typed so far. The caret rests on a token in both, and a source, if one is asked, is asked the
same. -/
theorem candidatesAt_append (schema : Schema) (first rest : String) (hne : first ≠ "")
    (closed : ∀ t ∈ (parse schema first).tokens, t.kind ≠ .missingQuote)
    (starts : ∃ c ∈ rest.toList.head?, Text.isBlank c = true) :
    (∃ t t', tokenAt (parse schema first).tokens (.caret first.utf8ByteSize) = some t ∧
      tokenAt (parse schema (first ++ rest)).tokens (.caret first.utf8ByteSize) = some t' ∧
      (t'.complete schema).lookups = (t.complete schema).lookups) ∧
    candidatesAt (parse schema (first ++ rest)).tokens (.caret first.utf8ByteSize) schema =
      candidatesAt (parse schema first).tokens (.caret first.utf8ByteSize) schema := by
  obtain ⟨c, hhead, hc⟩ := starts
  obtain ⟨t, t', rests, rests', continues⟩ := tokenAt_append schema hne closed hhead hc
  have same : t'.complete schema = t.complete schema := by
    rw [Token.complete, continues.hint, continues.text, Token.complete]
  refine ⟨⟨t, t', rests, rests', congrArg Completion.lookups same⟩, ?_⟩
  rw [candidatesAt_eq rests, candidatesAt_eq rests', same]

namespace Example

/-- Tags are offered as before when the query goes on with an error and with quotation marks that are
never closed. -/
theorem candidatesAt_append_tags :
    candidatesAt (parse (mediaWithTags 1) ("x tag:r" ++ " tag: sort:bad \"")).tokens (.caret 7)
        (mediaWithTags 1) =
      [⟨"rust", some "Rust language"⟩, ⟨"ruby", none⟩] := by
  have starts : ∃ c ∈ " tag: sort:bad \"".toList.head?, Text.isBlank c = true :=
    ⟨' ', rfl, by decide⟩
  have same := (candidatesAt_append (mediaWithTags 1) "x tag:r" " tag: sort:bad \"" (by decide)
    (by decide +kernel) starts).2
  exact same.trans (by decide +kernel)

end Example

end Searchbar
