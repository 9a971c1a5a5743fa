import Searchbar.Example.Media
import Searchbar.Proofs.Progress
import Searchbar.Proofs.Tiling

/-!
# A blank separates a query

Two queries with a space between them are read as each of them is read alone (`parse_append_space`).
The tokens stand one after the other, the terms and the values of the options are joined, and the
error is the first one. So no error in one part reaches another. The first query must not end inside
quotation marks, and the second must not give again an option that may be given once.

The second query is read by a scan that already holds something. `Scan.after` puts a scan behind
another one, with its offsets moved on, and every operation of a scan commutes with it
(`Scan.Agreeing.move_after`, `close_run_after`). Three operations look at what stands before, and
each has its own reason not to see it:

* The end of a value reaches back over the tokens, but only to the value's name
  (`Scan.OpenValue.completeValue_after`).
* A blank joins a space before it, but by then the second scan has a token of its own
  (`Tiling.finish_tokens_ne_nil`).
* A name is refused if its option holds something and may be given once. That no such name follows is
  an assumption, `NamesFree`, about the tokens of the second query; a name that is taken is still
  among them at the end (`Scan.Agreeing.admitted`).
-/

namespace Searchbar

/-! ### Results joined -/

/-- **Two maps as one.** Where both have a value, `f` makes one value of the two. -/
def NameMap.merge {α : Type} (f : α → α → α) (m m' : NameMap α) : NameMap α :=
  m'.entries.foldl (fun joint e => joint.insert e.1 ((joint.get? e.1).elim e.2 (f · e.2))) m

/-- What a map merged with others holds. -/
theorem NameMap.get?_merge {α : Type} (f : α → α → α) (m m' : NameMap α) (name : String) :
    (m.merge f m').get? name = (m.get? name).merge f (m'.get? name) := by
  obtain ⟨entries, ascending⟩ := m'
  unfold merge
  change _ = (m.get? name).merge f (lookup name entries)
  induction entries generalizing m with
  | nil => simp [lookup]
  | cons e entries ih =>
    rw [List.pairwise_cons] at ascending
    rw [List.foldl_cons, ih _ ascending.2, lookup]
    split
    · next hname =>
      -- the other entries have greater names
      subst hname
      rw [lookup_eq_none_of_lt ascending.1, get?_insert_self]
      cases m.get? e.1 <;> rfl
    · next hname => rw [get?_insert_of_ne m (Ne.symm hname)]

/-- What an option holds that was given in two parts of a query. -/
def Stored.join (a b : Stored) : Stored := .multi (a.values ++ b.values)

namespace SearchResult

/-- **Two results as one**: the terms one after the other, and the options of both. -/
def join (r r' : SearchResult) : SearchResult :=
  ⟨r.terms ++ r'.terms, r.options.merge Stored.join r'.options⟩

variable (r r' : SearchResult)

theorem get?_join (name : String) :
    (r.join r').get? name = (r.get? name).merge Stored.join (r'.get? name) :=
  NameMap.get?_merge Stored.join r.options r'.options name

theorem contains_join (name : String) :
    (r.join r').contains name = (r.contains name || r'.contains name) := by
  simp only [contains_eq_isSome, get?_join]
  cases r.get? name <;> cases r'.get? name <;> rfl

@[simp] theorem join_empty : r.join {} = r := by
  simp [join, NameMap.merge, NameMap.empty]

theorem join_push (term : String) : r.join (r'.push term) = (r.join r').push term := by
  unfold push
  split
  · rfl
  · simp [join]

/-- A value that joins the second part joins the whole, if the first part leaves its option alone. -/
theorem join_store {spec : OptionSpec} (v : Value)
    (hset : spec.multiple = true ∨ r.contains spec.name = false) :
    r.join (r'.store spec v) = (r.join r').store spec v := by
  refine ext_get? rfl fun name => ?_
  by_cases hname : name = spec.name
  · subst hname
    rw [get?_join, get?_store_self, get?_store_self, get?_join]
    cases hm : spec.multiple with
    | true =>
      -- the value is the last one of the second part, and so of the whole
      cases r.get? spec.name <;> cases r'.get? spec.name <;> simp [joined, Stored.join]
    | false =>
      have hnone : r.get? spec.name = none := by simpa [hm, contains_eq_isSome] using hset
      simp [hnone, joined]
  · rw [get?_join, get?_store_of_ne _ _ _ hname, get?_store_of_ne _ _ _ hname, get?_join]

end SearchResult

/-- **The names among some tokens are free** beside a result: none is that of an option which the
result holds and which may be given once. -/
def NamesFree (schema : Schema) (held : SearchResult) (tokens : List Token) : Prop :=
  ∀ t ∈ tokens, t.kind = .optionName →
    ∀ spec ∈ schema.get? t.text, spec.multiple = true ∨ held.contains t.text = false

instance (schema : Schema) (held : SearchResult) (tokens : List Token) :
    Decidable (NamesFree schema held tokens) :=
  inferInstanceAs (Decidable (∀ t ∈ tokens, _ → _))

/-! ### Offsets moved on -/

def Span.shift (k : Nat) (span : Span) : Span := ⟨k + span.start, k + span.stop⟩

/-- A token `k` bytes further on. -/
def Token.shift (k : Nat) (t : Token) : Token := { t with span := t.span.shift k }

@[simp] theorem Token.shift_kind (k : Nat) (t : Token) : (t.shift k).kind = t.kind := rfl
@[simp] theorem Token.shift_start (k : Nat) (t : Token) :
    (t.shift k).span.start = k + t.span.start := rfl
@[simp] theorem Token.shift_stop (k : Nat) (t : Token) :
    (t.shift k).span.stop = k + t.span.stop := rfl

def ParseError.shift (k : Nat) (e : ParseError) : ParseError := { e with position := k + e.position }

namespace Scan

/-- The start of the last value, behind `past`. Before its first value a scan has the offset 0 there,
and then the last value is one of `past`. -/
def startAfter (past : Scan) : Nat → Nat
  | 0 => past.valueStart
  | start + 1 => past.cursor + (start + 1)

theorem startAfter_of_pos (past : Scan) {start : Nat} (h : 0 < start) :
    past.startAfter start = past.cursor + start := by
  obtain ⟨n, rfl⟩ := Nat.exists_eq_add_one_of_ne_zero (Nat.ne_of_gt h)
  rfl

/-- **A scan behind another one**: what it has found follows what `past` has found. -/
def after (s past : Scan) : Scan where
  mode := s.mode
  raw := s.raw
  decoded := s.decoded
  cursor := past.cursor + s.cursor
  valueStart := past.startAfter s.valueStart
  tokens := s.tokens.map (Token.shift past.cursor) ++ past.tokens
  result := past.result.join s.result
  error := past.error.or (s.error.map (ParseError.shift past.cursor))

section After

variable (past s : Scan) (kind : TokenKind) (raw text : String) (hint : Hint) (c : Char)
  (position : Nat) (fault : SyntaxFault) (spec : OptionSpec) (target : Option OptionSpec)

@[simp] theorem after_raw : (s.after past).raw = s.raw := rfl
@[simp] theorem after_decoded : (s.after past).decoded = s.decoded := rfl

/-- A scan that has found nothing yet. -/
theorem after_empty (fresh : past.Fresh) : ({} : Scan).after past = past := by
  obtain ⟨mode, raw, decoded⟩ := fresh
  cases past
  simp_all [after, startAfter]

theorem emit_after :
    (s.after past).emit kind raw text hint = (s.emit kind raw text hint).after past := by
  simp [emit, after, Token.shift, Span.shift, Nat.add_assoc]

/-- An error counts only if `past` has none. -/
theorem reportAt_after :
    (s.after past).reportAt (past.cursor + position) fault =
      (s.reportAt position fault).after past := by
  cases hp : past.error <;> cases hs : s.error <;>
    simp [reportAt, after, hp, hs, ParseError.shift]

theorem report_after : (s.after past).report fault = (s.report fault).after past :=
  reportAt_after past s s.cursor fault

theorem stray_after : (s.after past).stray c fault = (s.stray c fault).after past := by
  rw [stray, report_after, emit_after, stray]

theorem flush_after : (s.after past).flush hint = (s.flush hint).after past := by
  unfold flush
  rw [after_raw]
  split
  · rfl
  · rw [emit_after]
    rfl

theorem finishWord_after : (s.after past).finishWord = s.finishWord.after past := by
  rw [finishWord, flush_after]
  simp only [finishWord, after, SearchResult.join_push]

theorem refuseName_after :
    (s.after past).refuseName fault = (s.refuseName fault).after past := by
  have pending : ({ s.after past with raw := "", decoded := "" } : Scan) =
      ({ s with raw := "", decoded := "" } : Scan).after past := rfl
  rw [refuseName, pending, report_after, emit_after]
  rfl

theorem openValue_after : (s.after past).openValue spec = (s.openValue spec).after past := by
  obtain ⟨name, opened, -⟩ := s.openValue_openValue spec
  have hstart := past.startAfter_of_pos (Nat.zero_lt_of_lt opened.start)
  simp only [openValue, emit] at hstart
  simp only [openValue, emit, after, hstart, Token.shift, Span.shift, Nat.add_assoc, List.map_cons,
    List.cons_append]

theorem escape_after : (s.after past).escape c hint = (s.escape c hint).after past := by
  unfold escape
  dsimp only
  split
  · exact emit_after past { s with raw := "", decoded := _ } _ _ _ hint
  · exact (congrArg (emit · _ _ _ hint) (report_after past { s with raw := "" } _)).trans
      (emit_after past _ _ _ _ hint)

theorem danglingEscape_after :
    (s.after past).danglingEscape hint = (s.danglingEscape hint).after past := by
  rw [danglingEscape, report_after, emit_after]
  rfl

theorem missingQuote_after : (s.after past).missingQuote = s.missingQuote.after past := by
  rw [missingQuote, report_after, emit_after, missingQuote]

theorem openEscape_after : (s.after past).openEscape target = (s.openEscape target).after past := by
  rw [openEscape, flush_after]
  rfl

theorem closeEscape_after :
    (s.after past).closeEscape target c = (s.closeEscape target c).after past := by
  rw [closeEscape, escape_after]
  rfl

/-- A blank sees no further than the latest token, and that is one of the second scan. -/
theorem emitSpace_after (h : s.tokens ≠ []) :
    (s.after past).emitSpace c = (s.emitSpace c).after past := by
  obtain ⟨last, earlier, htokens⟩ := List.exists_cons_of_ne_nil h
  have hafter : (s.after past).tokens =
      last.shift past.cursor :: (earlier.map (Token.shift past.cursor) ++ past.tokens) := by
    simp [after, htokens]
  have hjoins : ((last.shift past.cursor).kind = .space ∧
      (last.shift past.cursor).span.stop = (s.after past).cursor) ↔
      last.kind = .space ∧ last.span.stop = s.cursor := by
    simp [after]
  unfold emitSpace
  simp only [hafter, htokens, hjoins]
  split
  · simp [after, Token.shift, Span.shift, Nat.add_assoc]
  · exact emit_after past s _ _ _ _

end After

/-! ### Reaching back -/

section ReachingBack

variable {start k : Nat} {tokens : List Token}

/-- Tokens are changed only as far as one that starts earlier. -/
theorem mapFrom_shift {f : Token → Token} (hf : ∀ t : Token, f (t.shift k) = (f t).shift k)
    (h : ∃ t ∈ tokens, t.span.start < start) (before : List Token) :
    mapFrom (k + start) f (tokens.map (Token.shift k) ++ before) =
      (mapFrom start f tokens).map (Token.shift k) ++ before := by
  induction tokens with
  | nil => simp at h
  | cons t tokens ih =>
    rw [List.map_cons, List.cons_append, mapFrom, mapFrom]
    by_cases ht : start ≤ t.span.start
    · have rest := ih (by simpa [Nat.not_lt.mpr ht] using h)
      simp [ht, rest, hf]
    · simp [ht]

theorem retagFrom_shift (kind : TokenKind) (text : String)
    (h : ∃ t ∈ tokens, t.span.start < start) (before : List Token) :
    retagFrom (k + start) kind text (tokens.map (Token.shift k) ++ before) =
      (retagFrom start kind text tokens).map (Token.shift k) ++ before := by
  induction tokens with
  | nil => simp at h
  | cons t tokens ih =>
    rw [List.map_cons, List.cons_append, retagFrom, retagFrom, Token.shift_kind]
    by_cases ht : start ≤ t.span.start
    · have rest := ih (by simpa [Nat.not_lt.mpr ht] using h)
      have ht' : k + start ≤ (t.shift k).span.start := Nat.add_le_add_left ht k
      rw [if_pos ht', if_pos ht, rest]
      split <;> rfl
    · simp [ht]

theorem rejectToken_shift (k : Nat) (t : Token) :
    rejectToken (t.shift k) = (rejectToken t).shift k := by
  unfold rejectToken
  rw [Token.shift_kind]
  split <;> rfl

end ReachingBack

section Values

variable {past s : Scan} {schema : Schema} {spec : OptionSpec} {target : Option OptionSpec}

/-- The last value has a token of this scan before it, and so reaching back ends there. -/
def Anchored (s : Scan) : Prop := ∃ t ∈ s.tokens, t.span.start < s.valueStart

theorem Anchored.startAfter (h : s.Anchored) (past : Scan) :
    past.startAfter s.valueStart = past.cursor + s.valueStart := by
  obtain ⟨t, -, ht⟩ := h
  exact past.startAfter_of_pos (Nat.zero_lt_of_lt ht)

theorem rejectValue_after (h : s.Anchored) :
    (s.after past).rejectValue = s.rejectValue.after past := by
  have hstart := h.startAfter past
  have htokens := mapFrom_shift (rejectToken_shift past.cursor) h past.tokens
  simp only [rejectValue, after, hstart, htokens]

theorem carryValue_after (h : s.Anchored) (kind : TokenKind) (raw value : String) :
    (s.after past).carryValue spec kind raw value = (s.carryValue spec kind raw value).after past := by
  unfold carryValue
  split
  · have hstart := h.startAfter past
    have htokens := retagFrom_shift kind value h past.tokens (k := past.cursor)
    simp only [after, hstart, htokens]
  · exact emit_after past s kind raw value _

/-- **The end of a value** reaches back to its name and not to what stands before. -/
theorem OpenValue.completeValue_after {fragments before : List Token} {name : Token}
    (h : s.OpenValue spec fragments name before)
    (hset : spec.multiple = true ∨ past.result.contains spec.name = false) :
    (s.after past).completeValue spec = (s.completeValue spec).after past := by
  have anchored : s.Anchored := ⟨name, by simp [h.tokens], h.start⟩
  have hcleared : (s.after past).cleared = s.cleared.after past := rfl
  have hreport : ∀ fault, (s.cleared.after past).reportAt (s.after past).valueStart fault =
      (s.cleared.reportAt s.valueStart fault).after past := by
    intro fault
    rw [← reportAt_after]
    exact congrArg (reportAt _ · fault) (anchored.startAfter past)
  have reported : ∀ fault, (s.cleared.reportAt s.valueStart fault).Anchored := by
    intro fault
    simpa [Anchored, cleared] using anchored
  rcases value_cases s spec with hd | ⟨hd, v, hv⟩ | ⟨hd, hv⟩
  · rw [completeValue_missing (s.after past) spec hd, completeValue_missing s spec hd, hcleared,
      hreport, rejectValue_after (reported _), after_raw, emit_after]
  · -- only here the result changes
    have hstored : ({ (s.after past).cleared with
        result := (s.after past).result.store spec v } : Scan) =
        ({ s.cleared with result := s.result.store spec v } : Scan).after past := by
      simp only [after, cleared, SearchResult.join_store _ _ v hset]
    rw [completeValue_accepted (s.after past) spec hd hv, completeValue_accepted s spec hd hv,
      hstored]
    exact carryValue_after (s := { s.cleared with result := s.result.store spec v }) anchored _ _ _
  · -- the name is still there when the fragments are marked
    have marked : ∀ fault, ((s.cleared.reportAt s.valueStart fault).rejectValue).Anchored := by
      intro fault
      refine ⟨name, ?_, by simpa [rejectValue, cleared] using h.start⟩
      simp [rejectValue, cleared, h.tokens_reject]
    rw [completeValue_rejected (s.after past) spec hd hv, completeValue_rejected s spec hd hv,
      hcleared, hreport, rejectValue_after (reported _), after_raw, after_decoded,
      carryValue_after (marked _)]

/-- The option whose value is being read, if any, may be set although `past` is there. -/
def Admitted (s past : Scan) : Prop :=
  ∀ spec, s.mode.target = some spec →
    spec.multiple = true ∨ past.result.contains spec.name = false

/-- The end of a word or value. -/
theorem Named.finish_after (h : s.Named) (hset : s.Admitted past) (hm : s.mode.target = target) :
    (s.after past).finish target = (s.finish target).after past := by
  cases target with
  | none => exact finishWord_after past s
  | some spec =>
    obtain ⟨fragments, name, before, opened, -⟩ := h spec hm
    exact opened.completeValue_after (hset spec hm)

/-- **The end of a name.** An option of `past` that may be given once must not be named again. -/
theorem finishName_after
    (hset : ∀ spec, s.Takes schema spec →
      spec.multiple = true ∨ past.result.contains s.decoded = false) :
    (s.after past).finishName schema = (s.finishName schema).after past := by
  have contains : (s.after past).result.contains s.decoded =
      (past.result.contains s.decoded || s.result.contains s.decoded) :=
    SearchResult.contains_join past.result s.result s.decoded
  by_cases h : ∃ spec, s.Takes schema spec
  · obtain ⟨spec, h⟩ := h
    have h' : (s.after past).Takes schema spec := by
      refine ⟨h.1, ?_⟩
      rw [after_decoded, contains]
      rcases hset spec h with hp | hp
      · exact .inl hp
      · simpa [hp] using h.2
    rw [finishName_taken _ schema h', finishName_taken s schema h, openValue_after]
  · rw [not_exists] at h
    have h' : ∀ spec, ¬(s.after past).Takes schema spec := by
      intro spec h'
      refine h spec ⟨h'.1, h'.2.imp_right fun hfree => ?_⟩
      rw [after_decoded, contains, Bool.or_eq_false_iff] at hfree
      exact hfree.2
    rw [finishName_refused _ schema h', finishName_refused s schema h]
    exact refuseName_after past s (s.refusal schema)

end Values

/-! ### Every character -/

section Run

variable {past s u : Scan} {schema : Schema}

/-- **Every character** does to a scan behind another one what it does to the scan alone. -/
theorem Agreeing.move_after (h : s.Agreeing schema) {c : Char} {s' : Scan}
    (hmove : Move schema s c s') (hset : s.Admitted past) (hset' : s'.Admitted past)
    (begun : Text.isBlank c = true → (s.finish s.mode.target).tokens ≠ []) :
    step schema (s.after past) c = s'.after past := by
  cases hmove with
  | blank target hm hc =>
    rw [step_blank (s := s.after past) hm hc, h.named.finish_after hset (target_of_outside hm)]
    rw [target_of_outside hm] at begun
    exact emitSpace_after past _ c (begun hc)
  | ordinary target hm hc => exact step_ordinary (s := s.after past) hm hc
  | openQuote target hm hc hr hd =>
    subst hc
    exact step_openQuote (s := s.after past) hm hr hd
  | strayInWord hm hc hw =>
    rw [← stray_after, ← flush_after]
    rcases hc with rfl | rfl
    · exact step_bare_quote (s := s.after past) hm (hw rfl)
    · exact step_bare_backslash (s := s.after past) hm
  | strayColon hm hc hd =>
    subst hc
    rw [← stray_after]
    exact step_bare_colon (s := s.after past) hm hd
  | name hm hc hd =>
    subst hc
    rw [step_name (s := s.after past) hm hd]
    refine finishName_after fun spec htakes => ?_
    -- the name that is taken opens a value, and its option is admitted there
    rw [finishName_taken s schema htakes] at hset'
    have hname := (Schema.get?_eq_some_iff.mp htakes.1).2
    rw [← hname]
    exact hset' spec rfl
  | strayInValue spec hm hc hr =>
    rw [step_value_reserved (s := s.after past) hm hc hr, ← stray_after]
    have finished := h.named.finish_after hset (show s.mode.target = some spec by rw [hm]; rfl)
    exact congrArg (stray · c (strayFault c)) finished
  | plain target hm hq hb => exact step_plain (s := s.after past) hm hq hb
  | openEscape target hm hc =>
    subst hc
    rw [step_openEscape (s := s.after past) hm, openEscape_after]
  | closeQuote target hm hc =>
    subst hc
    rw [step_closeQuote (s := s.after past) hm]
    exact (h.named.pending (s.raw.push '"')).finish_after hset (target_of_quoted hm)
  | closeEscape target hm => rw [step_closeEscape (s := s.after past) hm, closeEscape_after]

/-- **The end of the query.** -/
theorem Agreeing.close_after (h : s.Agreeing schema) (hset : s.Admitted past) :
    (s.after past).close = s.close.after past := by
  obtain ⟨target, hm | ⟨escaping, hm⟩⟩ := s.mode.outside_or_quoted
  · rw [close_outside hm, close_outside (s := s.after past) hm]
    exact h.named.finish_after hset (target_of_outside hm)
  · rw [close_quoted hm, close_quoted (s := s.after past) hm, Scan.breakOff, Scan.breakOff]
    cases escaping with
    | false =>
      have finished := h.named.finish_after hset (target_of_quoted hm)
      simp only [Bool.false_eq_true, if_false, finished, missingQuote_after]
    | true =>
      have hmode : (s.danglingEscape (.ofEscape target)).mode = s.mode := by
        simp [danglingEscape, report]
      have hset' : (s.danglingEscape (.ofEscape target)).Admitted past := by
        unfold Admitted
        rwa [hmode]
      have finished := (h.named_danglingEscape hm).finish_after hset' (hmode ▸ target_of_quoted hm)
      simp only [if_true, danglingEscape_after, finished, missingQuote_after]

/-- The name of an open value is still there at the end of the query, so its option is free. -/
theorem Agreeing.admitted (h : s.Agreeing schema) (hu : s.Continues u)
    (free : NamesFree schema past.result u.tokens) : s.Admitted past := by
  intro spec hm
  obtain ⟨fragments, name, before, setting, -⟩ := h.setting hm
  obtain ⟨settled, opened, later, htokens, grown, -⟩ := hu
  have hkind := setting.names.kind
  rw [setting.opened.settledTokens hm hkind] at grown
  obtain rfl := grown.eq_of_cons (by simp [hkind])
  have hname : name ∈ u.tokens := by simp [htokens]
  have hset := free name hname hkind spec setting.names.get
  rwa [← (Schema.get?_eq_some_iff.mp setting.names.get).2] at hset

end Run

end Scan

/-- At the end of a word or value something has been read, so there is a token. -/
theorem Tiling.finish_tokens_ne_nil {read : List Char} {s : Scan} (h : Tiling read s)
    (hread : read ≠ []) (target : Option OptionSpec) : (s.finish target).tokens ≠ [] := by
  obtain ⟨text, covers, htext⟩ := h.covers
  have tiled := (covers.finish target).tiled
  rw [htext] at tiled
  intro hnil
  rw [hnil] at tiled
  generalize hquery : String.ofList read = query at tiled
  cases tiled
  exact hread (by simpa using congrArg String.toList hquery)

/-- **The rest of a query** is read behind another scan as it is read alone, if the rest does not
start with a blank and names nothing that must not be given again. -/
theorem close_run_after {schema : Schema} {past s : Scan} {read : List Char} (text : List Char)
    (tiling : Tiling read s) (agreeing : s.Agreeing schema)
    (starts : read = [] → ∀ c ∈ text.head?, Text.isBlank c = false)
    (free : NamesFree schema past.result (s.run schema text).close.tokens) :
    ((s.after past).run schema text).close = (s.run schema text).close.after past := by
  -- that the option being read is free is not carried along: it is seen from the tokens at the end
  induction text generalizing read s with
  | nil => exact agreeing.close_after (agreeing.admitted (agreeing.continues_run []) free)
  | cons c text ih =>
    have hmove := Scan.step_move schema s c
    have agreeing' := agreeing.move hmove
    have hset : s.Admitted past := agreeing.admitted (agreeing.continues_run (c :: text)) free
    have hset' : (s.step schema c).Admitted past :=
      agreeing'.admitted (agreeing'.continues_run text) free
    have begun : Text.isBlank c = true → (s.finish s.mode.target).tokens ≠ [] := by
      -- a blank that is the first character of all is excluded
      intro hc
      refine tiling.finish_tokens_ne_nil (fun hread => ?_) _
      rw [starts hread c rfl] at hc
      cases hc
    rw [Scan.run_cons, Scan.run_cons, agreeing.move_after hmove hset hset' begun]
    exact ih (tiling.move hmove) agreeing' (by simp) free

/-! ### The space between -/

namespace Scan

/-- Tokens that cover a text do not end with a space, if the text does not end with a blank. -/
theorem Covers.head_ne_space {s : Scan} {text : String} (h : s.Covers text)
    (ends : ∀ c ∈ text.toList.getLast?, Text.isBlank c = false) :
    ∀ t ∈ s.tokens.head?, t.kind ≠ .space := by
  obtain ⟨tiled, neat, -⟩ := h
  cases htokens : s.tokens with
  | nil => simp
  | cons t earlier =>
    rw [htokens] at tiled neat
    cases tiled with
    | @cons _ _ before _ _ =>
    intro t' ht' hk
    obtain rfl : t = t' := by simpa using ht'
    have sound := neat.sound t List.mem_cons_self
    -- the last character of the text is one of the space
    have hraw : t.raw.toList ≠ [] := by
      intro hnil
      have := sound.solid (String.toList_inj.mp hnil)
      rw [hk] at this
      cases this
    have hblank := sound.blank hk _ (List.getLast_mem hraw)
    rw [String.toList_append, List.getLast?_append_of_ne_nil _ hraw,
      List.getLast?_eq_some_getLast hraw] at ends
    rw [ends _ rfl] at hblank
    cases hblank

theorem emitSpace_eq_emit {s : Scan} (h : ∀ t ∈ s.tokens.head?, t.kind ≠ .space) (c : Char) :
    s.emitSpace c = s.emit .space (String.singleton c) "" .options := by
  unfold emitSpace
  split
  · rfl
  · next last earlier htokens =>
    have hk : last.kind ≠ .space := h last (by simp [htokens])
    exact if_neg fun hjoin => hk hjoin.1

/-- A query without a missing quotation mark ends outside quotation marks. -/
theorem outside_of_closed {s : Scan} (h : ∀ t ∈ s.close.tokens, t.kind ≠ .missingQuote) :
    ∃ target, s.mode = .outside target := by
  obtain ⟨target, hm | ⟨escaping, hm⟩⟩ := s.mode.outside_or_quoted
  · exact ⟨target, hm⟩
  · rw [close_quoted hm, Scan.breakOff, missingQuote] at h
    exact absurd rfl (h _ List.mem_cons_self)

end Scan

section Whole

variable {schema : Schema} {query : String}

/-- The tokens of a query without a missing quotation mark cover it. -/
theorem covers_close (closed : ∀ t ∈ (scan schema query).close.tokens, t.kind ≠ .missingQuote) :
    (scan schema query).close.Covers query := by
  obtain ⟨target, hm⟩ := Scan.outside_of_closed closed
  obtain ⟨text, covers, htext⟩ := (tiling_scan schema query).covers
  have finished := covers.finish target
  rwa [htext, String.ofList_toList, ← Scan.close_outside hm] at finished

/-- A space behind such a query is a token of its own, and nothing is pending then. -/
theorem step_space (closed : ∀ t ∈ (scan schema query).close.tokens, t.kind ≠ .missingQuote)
    (ends : ∀ c ∈ query.toList.getLast?, Text.isBlank c = false) :
    (scan schema query).step schema ' ' =
        (scan schema query).close.emit .space " " "" .options ∧
      (scan schema query).close.Fresh := by
  obtain ⟨target, hm⟩ := Scan.outside_of_closed closed
  have hclose := Scan.close_outside hm
  refine ⟨?_, hclose ▸ Scan.fresh_finish _ target⟩
  rw [Scan.step_blank hm (by decide), ← hclose]
  exact Scan.emitSpace_eq_emit ((covers_close closed).head_ne_space ends) ' '

end Whole

/-- **Two queries with a space between them**: what is read of them, the first one `size` bytes
long. -/
def Parse.spaced (first : Parse) (size : Nat) (second : Parse) : Parse where
  tokens := first.tokens ++
    ⟨.space, " ", "", ⟨size, size + 1⟩, .options⟩ :: second.tokens.map (Token.shift (size + 1))
  result := first.result.join second.result
  error := first.error.or (second.error.map (ParseError.shift (size + 1)))

/-- **A space separates a query** into parts that are read as each of them is read alone. -/
theorem parse_append_space (schema : Schema) (first second : String)
    (closed : ∀ t ∈ (parse schema first).tokens, t.kind ≠ .missingQuote)
    (ends : ∀ c ∈ first.toList.getLast?, Text.isBlank c = false)
    (starts : ∀ c ∈ second.toList.head?, Text.isBlank c = false)
    (free : NamesFree schema (parse schema first).result (parse schema second).tokens) :
    parse schema (first ++ " " ++ second) =
      (parse schema first).spaced first.utf8ByteSize (parse schema second) := by
  have closed' : ∀ t ∈ (scan schema first).close.tokens, t.kind ≠ .missingQuote :=
    fun t ht => closed t (List.mem_reverse.mpr ht)
  have covers := covers_close closed'
  obtain ⟨hspace, fresh⟩ := step_space closed' ends
  -- the scan that has read the first query and the space
  set past := (scan schema first).close.emit .space " " "" .options
  have hscan : scan schema (first ++ " " ++ second) = past.run schema second.toList := by
    rw [← hspace, scan_eq_run, scan_eq_run, ← Scan.run_cons, ← Scan.run_append]
    simp
  -- it reads the second query as the empty scan does
  have hrest : (past.run schema second.toList).close = (scan schema second).close.after past := by
    have free' : NamesFree schema past.result (scan schema second).close.tokens :=
      fun t ht => free t (List.mem_reverse.mpr ht)
    have rest := close_run_after second.toList (tiling_scan schema "") (agreeing_scan schema "")
      (fun _ => starts) free'
    have hempty : (scan schema "").after past = past :=
      Scan.after_empty past ⟨fresh.mode, fresh.raw, fresh.decoded⟩
    rwa [hempty] at rest
  have hcursor : past.cursor = first.utf8ByteSize + 1 := by
    rw [← covers.cursor]
    rfl
  have htokens : past.tokens.reverse = (parse schema first).tokens ++
      [⟨.space, " ", "", ⟨first.utf8ByteSize, first.utf8ByteSize + 1⟩, .options⟩] := by
    rw [← covers.cursor]
    exact List.reverse_cons
  rw [parse, hscan, hrest]
  simp only [Scan.output, Scan.after, Parse.spaced, parse, hcursor, List.reverse_append, htokens,
    List.map_reverse, List.append_assoc, List.singleton_append]
  rfl

namespace Example

/-- Tags from both parts, and an error of the second one. -/
theorem parse_append_space_tags :
    parse media ("tag:x \"a b\"" ++ " " ++ "tag:y sort:bad") =
        (parse media "tag:x \"a b\"").spaced 11 (parse media "tag:y sort:bad") ∧
      (parse media ("tag:x \"a b\"" ++ " " ++ "tag:y sort:bad")).error =
        some ⟨23, .invalidValue "sort" "enum" "bad"⟩ := by
  have ends : ∀ c ∈ "tag:x \"a b\"".toList.getLast?, Text.isBlank c = false := by
    rintro c ⟨⟩
    decide
  have starts : ∀ c ∈ "tag:y sort:bad".toList.head?, Text.isBlank c = false := by
    rintro c ⟨⟩
    decide
  have separated := parse_append_space media "tag:x \"a b\"" "tag:y sort:bad" (by decide +kernel)
    ends starts (by decide +kernel)
  exact ⟨separated, by decide +kernel⟩

end Example

end Searchbar
