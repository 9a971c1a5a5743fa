import Mathlib.Data.List.Chain
import Mathlib.Data.List.Forall2
import Searchbar.Proofs.ScanStep

/-!
# The tokens of a query tile it

The raw texts of the tokens, one after the other, are the query, and each span is the range of
bytes of its raw text. Only two kinds of token may be empty, a missing quotation mark stands at the
end, and blanks are gathered in one token (`parse_tiles`).

The invariant is `Tiling`: the tokens of a scan tile the text before the cursor, and the pending
text is the rest of what has been read. `Tiled` says the first half of the token list alone, the
latest token first, so that a new token is one more constructor. Two side conditions go along, since
the scan relies on them without a test: a bare word without decoded text has no pending text
either, and after a backslash something is pending.

The end of a value changes tokens that have been made before. What it may change in a token is
`Token.Rekinded`, and `Tiled.rekinded` says that the tiling does not see it.
-/

namespace Searchbar

namespace TokenKind

/-- The classes a value's token may have and change into. -/
def isFragment : TokenKind → Bool
  | space => false
  | missingQuote => false
  | missingOptionValue => false
  | _ => true

theorem isFragment_ofValue (kind : OptionKind) : (ofValue kind).isFragment = true := by
  cases kind <;> rfl

end TokenKind

namespace Token

/-- **What the end of a value may do to a token**: its place and its raw text stay. -/
structure Rekinded (t t' : Token) : Prop where
  raw : t'.raw = t.raw
  span : t'.span = t.span
  hint : t'.hint = t.hint
  kind : t'.kind = t.kind ∨ t.kind.isFragment = true ∧ t'.kind.isFragment = true

theorem Rekinded.rfl {t : Token} : Rekinded t t := ⟨.refl _, .refl _, .refl _, .inl (.refl _)⟩

theorem rekinded_rejectToken (t : Token) : Rekinded t (Scan.rejectToken t) := by
  unfold Scan.rejectToken
  split
  · next h => refine ⟨rfl, rfl, rfl, .inr ⟨?_, rfl⟩⟩; rcases h with h | h <;> rw [h] <;> rfl
  · exact .rfl

/-- What every token of an open query satisfies: it is empty only in place of a missing value, and
one that is called a space consists of blanks. -/
structure Sound (t : Token) : Prop where
  solid : t.raw = "" → t.kind = .missingOptionValue
  blank : t.kind = .space → ∀ c ∈ t.raw.toList, Text.isBlank c = true
  closed : t.kind ≠ .missingQuote

theorem Sound.rekinded {t t' : Token} (h : t.Sound) (hr : Rekinded t t') : t'.Sound := by
  rcases hr.kind with hk | ⟨hk, hk'⟩
  · exact ⟨by rw [hr.raw, hk]; exact h.solid, by rw [hr.raw, hk]; exact h.blank,
      by rw [hk]; exact h.closed⟩
  · refine ⟨fun he => ?_, fun hs => ?_, fun hq => ?_⟩
    · rw [h.solid (hr.raw ▸ he)] at hk
      cases hk
    · rw [hs] at hk'
      cases hk'
    · rw [hq] at hk'
      cases hk'

end Token

/-- **Tokens that tile a text**, the latest first. -/
inductive Tiled : List Token → String → Prop
  | nil : Tiled [] ""
  | cons {t earlier before} (h : Tiled earlier before)
      (span : t.span = ⟨before.utf8ByteSize, (before ++ t.raw).utf8ByteSize⟩) :
      Tiled (t :: earlier) (before ++ t.raw)

/-- **Neat tokens**, the latest first: each is sound, and no space follows a space. -/
structure Neat (tokens : List Token) : Prop where
  sound : ∀ t ∈ tokens, t.Sound
  apart : tokens.IsChain fun later earlier => later.kind = .space → earlier.kind ≠ .space

theorem Neat.cons {t : Token} {earlier : List Token} (h : Neat earlier) (ht : t.Sound)
    (apart : t.kind = .space → ∀ last ∈ earlier.head?, last.kind ≠ .space) :
    Neat (t :: earlier) where
  sound := by
    intro u hu
    rcases List.mem_cons.mp hu with rfl | hu
    · exact ht
    · exact h.sound u hu
  apart := List.isChain_cons.mpr ⟨fun last hl hs => apart hs last hl, h.apart⟩

/-- The tiling does not see what the end of a value changes. -/
theorem Tiled.rekinded {tokens tokens' : List Token} {text : String} (h : Tiled tokens text)
    (hr : List.Forall₂ Token.Rekinded tokens tokens') : Tiled tokens' text := by
  induction h generalizing tokens' with
  | nil =>
    cases hr
    exact .nil
  | cons h span ih =>
    obtain ⟨t', earlier', ht, he, rfl⟩ := List.forall₂_cons_left_iff.mp hr
    rw [← ht.raw]
    exact .cons (ih he) (by rw [ht.span, span, ht.raw])

/-- A token is a space after the change only if it was one before. -/
theorem Token.Rekinded.space {t t' : Token} (h : Rekinded t t') (hk : t'.kind = .space) :
    t.kind = .space := by
  rcases h.kind with h | ⟨-, h⟩
  · rw [← h, hk]
  · rw [hk] at h
    cases h

/-- Neat tokens stay so. -/
theorem Neat.rekinded {tokens tokens' : List Token} (h : Neat tokens)
    (hr : List.Forall₂ Token.Rekinded tokens tokens') : Neat tokens' := by
  induction hr with
  | nil => exact h
  | @cons t t' earlier earlier' ht he ih =>
    obtain ⟨apart, rest⟩ := List.isChain_cons.mp h.apart
    refine (ih ⟨fun u hu => h.sound u (List.mem_cons_of_mem t hu), rest⟩).cons
      ((h.sound t List.mem_cons_self).rekinded ht) fun hs last hl hk => ?_
    cases he with
    | nil => cases hl
    | cons hlast _ =>
      rw [List.head?_cons, Option.mem_some_iff] at hl
      subst hl
      exact apart _ (by simp) (ht.space hs) (hlast.space hk)

namespace Scan

theorem rekinded_mapFrom {f : Token → Token} (hf : ∀ t, Token.Rekinded t (f t)) (start : Nat)
    (tokens : List Token) : List.Forall₂ Token.Rekinded tokens (mapFrom start f tokens) := by
  induction tokens with
  | nil => exact .nil
  | cons t earlier ih =>
    rw [mapFrom]
    split
    · exact .cons (hf t) ih
    · exact .cons .rfl (List.forall₂_same.mpr fun _ _ => .rfl)

theorem rekinded_retagFrom {kind : TokenKind} (hk : kind.isFragment = true) (start : Nat)
    (text : String) (tokens : List Token) :
    List.Forall₂ Token.Rekinded tokens (retagFrom start kind text tokens) := by
  induction tokens with
  | nil => exact .nil
  | cons t earlier ih =>
    rw [retagFrom]
    split
    · split
      · next h =>
        refine .cons ⟨rfl, rfl, rfl, .inr ⟨?_, hk⟩⟩ (List.forall₂_same.mpr fun _ _ => .rfl)
        rcases h with h | h <;> rw [h] <;> rfl
      · exact .cons .rfl ih
    · exact .cons .rfl (List.forall₂_same.mpr fun _ _ => .rfl)

/-! ### What the operations cover -/

/-- The tokens of a scan **cover** a text: they are neat, they tile it, and the cursor stands at
its end. -/
structure Covers (s : Scan) (text : String) : Prop where
  tiled : Tiled s.tokens text
  neat : Neat s.tokens
  cursor : s.cursor = text.utf8ByteSize

namespace Covers

variable {s : Scan} {text : String}

/-- Whether a scan covers a text depends on its tokens and its cursor only. -/
theorem congr {s' : Scan} (h : s.Covers text) (ht : s'.tokens = s.tokens)
    (hc : s'.cursor = s.cursor) : s'.Covers text :=
  ⟨ht ▸ h.tiled, ht ▸ h.neat, hc ▸ h.cursor⟩

theorem rekinded {tokens : List Token} (h : s.Covers text)
    (hr : List.Forall₂ Token.Rekinded s.tokens tokens) : { s with tokens := tokens }.Covers text :=
  ⟨h.tiled.rekinded hr, h.neat.rekinded hr, h.cursor⟩

theorem reportAt (h : s.Covers text) (position : Nat) (fault : SyntaxFault) :
    (s.reportAt position fault).Covers text :=
  h.congr (by simp) (by simp)

/-- The text of a new token is covered as well, if the token is sound. -/
theorem emit_of_sound (h : s.Covers text) (kind : TokenKind) (raw decoded : String) (hint : Hint)
    (sound : ∀ span, Token.Sound ⟨kind, raw, decoded, span, hint⟩)
    (apart : kind = .space → ∀ last ∈ s.tokens.head?, last.kind ≠ .space) :
    (s.emit kind raw decoded hint).Covers (text ++ raw) where
  tiled := .cons h.tiled (by simp only [h.cursor, String.utf8ByteSize_append])
  neat := h.neat.cons (sound _) apart
  cursor := by simp only [Scan.emit, h.cursor, String.utf8ByteSize_append]

theorem emit (h : s.Covers text) (kind : TokenKind) (raw decoded : String) (hint : Hint)
    (hk : kind.isFragment = true ∧ raw ≠ "" ∨ kind = .missingOptionValue) :
    (s.emit kind raw decoded hint).Covers (text ++ raw) := by
  have hs : kind ≠ .space := by
    rintro rfl
    simp [TokenKind.isFragment] at hk
  have hq : kind ≠ .missingQuote := by
    rintro rfl
    simp [TokenKind.isFragment] at hk
  have solid : raw = "" → kind = .missingOptionValue := fun hr => by simpa [hr] using hk
  exact h.emit_of_sound kind raw decoded hint (fun _ => ⟨solid, fun hk => absurd hk hs, hq⟩)
    fun hk => absurd hk hs

theorem stray (h : s.Covers text) (c : Char) (fault : SyntaxFault) :
    (s.stray c fault).Covers (text ++ String.singleton c) :=
  (h.reportAt s.cursor fault).emit .invalid (String.singleton c) "" .none
    (.inl ⟨rfl, by simp⟩)

theorem flush (h : s.Covers text) (hint : Hint) : (s.flush hint).Covers (text ++ s.raw) := by
  unfold Scan.flush
  split
  · next he =>
    rw [String.isEmpty_iff.mp he, String.append_empty]
    exact h
  · next he =>
    have hr : s.raw ≠ "" := fun hr => he (by simp [hr])
    exact (h.emit .text s.raw s.decoded hint (.inl ⟨rfl, hr⟩)).congr rfl rfl

theorem finishWord (h : s.Covers text) : s.finishWord.Covers (text ++ s.raw) :=
  (h.flush .options).congr rfl rfl

/-- A blank joins the run of blanks before it, or starts one. -/
theorem emitSpace (h : s.Covers text) {c : Char} (hc : Text.isBlank c = true) :
    (s.emitSpace c).Covers (text ++ String.singleton c) := by
  have fresh := h.emit_of_sound .space (String.singleton c) "" .options
    fun _ => ⟨by simp, by simpa using hc, nofun⟩
  obtain ⟨tiled, neat, cursor⟩ := h
  unfold Scan.emitSpace
  split
  · next hnil => exact fresh fun _ => by simp [hnil]
  · next last earlier htokens =>
    rw [htokens] at tiled neat
    cases tiled with
    | @cons _ _ before he span =>
    obtain ⟨apart, rest⟩ := List.isChain_cons.mp neat.apart
    have sound := neat.sound last List.mem_cons_self
    have hstop : last.span.stop = s.cursor := by rw [span, cursor]
    split
    · -- the run of blanks before it grows by one character
      next hk =>
      have join : before ++ last.raw ++ String.singleton c = before ++ last.raw.push c := by
        rw [String.append_assoc, String.push_eq_append]
      have size : last.span.stop + c.utf8Size = (before ++ last.raw.push c).utf8ByteSize := by
        rw [hstop, cursor, ← join, String.utf8ByteSize_append (s := before ++ last.raw),
          String.utf8ByteSize_singleton]
      have blank : ∀ c' ∈ (last.raw.push c).toList, Text.isBlank c' = true := by
        intro c' hc'
        rw [String.toList_push, List.mem_append, List.mem_singleton] at hc'
        rcases hc' with hc' | rfl
        · exact sound.blank hk.1 c' hc'
        · exact hc
      have earlierNeat : Neat earlier :=
        ⟨fun t ht => neat.sound t (List.mem_cons_of_mem last ht), rest⟩
      rw [join]
      refine ⟨.cons he ?_, earlierNeat.cons ⟨by simp, fun _ => blank, by rw [hk.1]; nofun⟩
        fun _ u hu => apart u hu hk.1, size⟩
      rw [← size, span]
    · -- a run starts, and the token before it is no space: it would have been joined
      next hk =>
      refine fresh fun _ last' hl hs => ?_
      rw [htokens, List.head?_cons, Option.mem_some_iff] at hl
      subst hl
      exact hk ⟨hs, hstop⟩

theorem rejectValue (h : s.Covers text) : s.rejectValue.Covers text :=
  h.rekinded (rekinded_mapFrom Token.rekinded_rejectToken _ _)

theorem carryValue (h : s.Covers text) (spec : OptionSpec) {kind : TokenKind}
    (hk : kind.isFragment = true) (raw value : String) :
    (s.carryValue spec kind raw value).Covers (text ++ raw) := by
  unfold Scan.carryValue
  split
  · next he =>
    rw [String.isEmpty_iff.mp he, String.append_empty]
    exact h.rekinded (rekinded_retagFrom hk _ _ _)
  · next he =>
    have hr : raw ≠ "" := fun hr => he (by simp [hr])
    exact h.emit kind raw value _ (.inl ⟨hk, hr⟩)

/-- **The end of a value** covers what was pending. -/
theorem completeValue (h : s.Covers text) (spec : OptionSpec) :
    (s.completeValue spec).Covers (text ++ s.raw) := by
  have cleared : s.cleared.Covers text := h.congr rfl rfl
  rcases value_cases s spec with hd | ⟨hd, v, hv⟩ | ⟨hd, hv⟩
  · rw [completeValue_missing s spec hd]
    exact (cleared.reportAt _ _).rejectValue.emit _ s.raw "" _ (.inr rfl)
  · rw [completeValue_accepted s spec hd hv]
    have stored : { s.cleared with result := s.result.store spec v }.Covers text :=
      cleared.congr rfl rfl
    exact stored.carryValue spec (TokenKind.isFragment_ofValue _) _ _
  · rw [completeValue_rejected s spec hd hv]
    exact (cleared.reportAt _ _).rejectValue.carryValue spec rfl _ _

theorem finish (h : s.Covers text) (target : Option OptionSpec) :
    (s.finish target).Covers (text ++ s.raw) := by
  cases target with
  | none => exact h.finishWord
  | some spec => exact h.completeValue spec

theorem finishName (h : s.Covers text) (schema : Schema) :
    (s.finishName schema).Covers (text ++ s.raw.push ':') := by
  have pending : { s with raw := "", decoded := "" }.Covers text := h.congr rfl rfl
  obtain ⟨spec, -, hname⟩ | ⟨fault, hname⟩ := s.finishName_cases schema
  · rw [hname]
    exact (pending.emit .optionName _ s.decoded .none (.inl ⟨rfl, by simp⟩)).congr rfl rfl
  · rw [hname]
    exact (pending.reportAt _ fault).emit _ _ _ _ (.inl ⟨rfl, by simp⟩)

theorem escape (h : s.Covers text) (c : Char) (hint : Hint) :
    (s.escape c hint).Covers (text ++ s.raw.push c) := by
  have pending : ∀ decoded, { s with raw := "", decoded := decoded }.Covers text :=
    fun decoded => h.congr rfl rfl
  unfold Scan.escape
  dsimp only
  split
  · exact (pending _).emit _ _ _ _ (.inl ⟨rfl, by simp⟩)
  · exact ((pending _).reportAt _ _).emit _ _ _ _ (.inl ⟨rfl, by simp⟩)

theorem danglingEscape (h : s.Covers text) (hr : s.raw ≠ "") (hint : Hint) :
    (s.danglingEscape hint).Covers (text ++ s.raw) :=
  ((h.reportAt s.cursor .invalidEscape).emit .invalidEscapeSequence s.raw s.decoded hint
    (.inl ⟨rfl, hr⟩)).congr rfl rfl

end Covers

end Scan

/-! ### The invariant -/

/-- **The tiling invariant** of the scan of a text. -/
structure Tiling (read : List Char) (s : Scan) : Prop where
  covers : ∃ text, s.Covers text ∧ text ++ s.raw = String.ofList read
  bare : s.mode = .bare → s.decoded = "" → s.raw = ""
  escaping : ∀ target, s.mode = .quoted target true → s.raw ≠ ""

namespace Tiling

variable {read : List Char} {s : Scan}

/-- Outside quotation marks with nothing pending, it is enough that the tokens cover the text. -/
theorem of_covers (target : Option OptionSpec) {text : String} (h : s.Covers text)
    (hread : text = String.ofList read) (hr : s.raw = "") (hm : s.mode = .outside target) :
    Tiling read s where
  covers := ⟨text, h, by rw [hr, String.append_empty, hread]⟩
  bare _ _ := hr
  escaping target' hm' := absurd (hm.symm.trans hm') (by simp)

theorem ofList_snoc (cs : List Char) (c : Char) :
    String.ofList (cs ++ [c]) = String.ofList cs ++ String.singleton c := by
  rw [String.ofList_append, String.singleton_eq_ofList]

/-- **Invariant preservation.** Every character keeps the tiling. -/
theorem move {schema : Schema} {c : Char} {s' : Scan} (h : Tiling read s)
    (hmove : Scan.Move schema s c s') : Tiling (read ++ [c]) s' := by
  obtain ⟨text, covers, hread⟩ := h.covers
  have more : text ++ s.raw.push c = String.ofList (read ++ [c]) :=
    append_push_eq_ofList hread c
  cases hmove with
  | blank target hm hc =>
    -- what was pending is finished first, then the blank follows
    refine of_covers none ((covers.finish target).emitSpace hc) ?_ ?_ ?_
    · rw [ofList_snoc, hread]
    · simpa using (s.fresh_finish target).raw
    · simpa using (s.fresh_finish target).mode
  | ordinary target hm hc =>
    -- no token is made: the character joins the pending text
    refine ⟨⟨text, covers.congr rfl rfl, more⟩, fun _ hd => ?_, fun target' hm' => ?_⟩
    · simp [Scan.accumulate] at hd
    · exact absurd (hm.symm.trans hm') (by simp)
  | openQuote target hm hc hr hd =>
    subst hc
    refine ⟨⟨text, covers.congr rfl rfl, more⟩, fun hm' _ => ?_, fun target' hm' => ?_⟩
    · exact absurd hm'.symm (Mode.outside_ne_quoted none target false)
    · simp [Scan.openQuote] at hm'
  | strayInWord hm hc =>
    refine of_covers none ((covers.flush .options).stray c _) ?_ ?_ ?_
    · rw [ofList_snoc, hread]
    · simp
    · simpa using hm
  | strayColon hm hc hd =>
    -- the colon gets a token of its own without a flush: nothing is pending
    have hr := h.bare hm hd
    rw [hr, String.append_empty] at hread
    refine of_covers none (covers.stray c .unexpectedColon) ?_ ?_ ?_
    · rw [ofList_snoc, hread]
    · simpa using hr
    · simpa using hm
  | name hm hc hd =>
    -- taken or refused, the name's token ends with the colon
    subst hc
    obtain ⟨target, hm'⟩ := s.finishName_mode schema hm
    exact of_covers target (covers.finishName schema) (more) (by simp) hm'
  | strayInValue spec hm hc =>
    refine of_covers none ((covers.completeValue spec).stray c _) ?_ ?_ ?_
    · rw [ofList_snoc, hread]
    · simpa using (s.fresh_completeValue spec).raw
    · simpa using (s.fresh_completeValue spec).mode
  | plain target hm hq hb =>
    refine ⟨⟨text, covers.congr rfl rfl, more⟩, fun _ hd => ?_, fun target' hm' => ?_⟩
    · simp [Scan.accumulate] at hd
    · rw [show (s.accumulate c).mode = s.mode from rfl, hm] at hm'
      simp at hm'
  | openEscape target hm hc =>
    -- the text before the backslash is flushed, and the backslash is pending
    subst hc
    refine ⟨⟨_, (covers.flush _).congr rfl rfl, ?_⟩, fun hm' _ => ?_, fun _ _ => ?_⟩
    · rw [ofList_snoc, ← hread]
      simp [Scan.openEscape, String.append_assoc]
    · exact absurd hm'.symm (Mode.outside_ne_quoted none target true)
    · simp [Scan.openEscape]
  | closeQuote target hm hc =>
    -- the closing quotation mark belongs to what it finishes
    subst hc
    have pending : { s with raw := s.raw.push '"' }.Covers text := covers.congr rfl rfl
    exact of_covers none (pending.finish target) (more)
      (Scan.fresh_finish _ target).raw (Scan.fresh_finish _ target).mode
  | closeEscape target hm =>
    -- known or not, the escape is a token of two characters
    refine ⟨⟨_, (covers.escape c _).congr rfl rfl, ?_⟩, fun hm' _ => ?_, fun target' hm' => ?_⟩
    · simpa [Scan.closeEscape] using more
    · exact absurd hm'.symm (Mode.outside_ne_quoted none target false)
    · simp [Scan.closeEscape] at hm'

end Tiling

/-- The tokens of the scan of every text tile it, up to what is pending. -/
theorem tiling_scan (schema : Schema) (query : String) :
    Tiling query.toList (scan schema query) :=
  scan_induction (motive := Tiling)
    (.of_covers none ⟨.nil, ⟨by simp, .nil⟩, rfl⟩ rfl rfl rfl) Tiling.move query

/-- At the end of the query the tokens cover it, and a missing quotation mark may follow. -/
theorem Tiling.close {read : List Char} {s : Scan} (h : Tiling read s) :
    ∃ s' : Scan, s'.Covers (String.ofList read) ∧ (s.close = s' ∨ s.close = s'.missingQuote) := by
  obtain ⟨text, covers, hread⟩ := h.covers
  obtain ⟨target, hm | ⟨escaping, hm⟩⟩ := s.mode.outside_or_quoted
  · rw [Scan.close_outside hm]
    exact ⟨_, hread ▸ covers.finish target, .inl rfl⟩
  · rw [Scan.close_quoted hm]
    refine ⟨_, ?_, .inr rfl⟩
    cases escaping with
    | false => exact hread ▸ covers.finish target
    | true =>
      have dangling := covers.danglingEscape (h.escaping target hm) (.ofEscape target)
      have finished := dangling.finish target
      -- nothing is pending after the dangling backslash
      rw [hread, show (s.danglingEscape (.ofEscape target)).raw = "" from rfl,
        String.append_empty] at finished
      exact finished

/-! ### Tokens in the order of the query -/

/-- What the tokens spell. -/
theorem Tiled.join {tokens : List Token} {text : String} (h : Tiled tokens text) :
    String.join (tokens.reverse.map Token.raw) = text := by
  induction h with
  | nil => rfl
  | cons _ _ ih =>
    rw [List.reverse_cons, List.map_append, String.join_append, ih]
    simp

/-- A token's span goes from what the tokens before it spell to what they spell with it. -/
theorem Tiled.span_eq {tokens : List Token} {text : String} (h : Tiled tokens text)
    {before after : List Token} {t : Token} (heq : tokens.reverse = before ++ t :: after) :
    t.span = ⟨(String.join (before.map Token.raw)).utf8ByteSize,
      (String.join ((before ++ [t]).map Token.raw)).utf8ByteSize⟩ := by
  induction h generalizing before after with
  | nil => simp at heq
  | @cons u earlier text h span ih =>
    rw [List.reverse_cons] at heq
    rcases List.eq_nil_or_concat after with rfl | ⟨after', last, rfl⟩
    · -- the token is the latest one
      obtain ⟨rfl, hu⟩ := List.append_inj' heq rfl
      cases hu
      rw [span, List.map_append, String.join_append, h.join]
      simp
    · rw [List.concat_eq_append, ← List.cons_append, ← List.append_assoc] at heq
      exact ih (List.append_inj' heq rfl).1

/-- A token starts where the one before it stops. -/
theorem Tiled.start_eq_stop {later earlier : List Token} {t u : Token} {text : String}
    (h : Tiled (later ++ t :: u :: earlier) text) : t.span.start = u.span.stop := by
  induction later generalizing text with
  | nil =>
    cases h with
    | cons h span =>
      cases h with
      | cons _ span' => rw [span, span']
  | cons w later ih =>
    cases h with
    | cons h _ => exact ih h

/-- **What it means that tokens tile a query.** -/
structure Tiles (query : String) (tokens : List Token) : Prop where
  /-- The raw texts are the query. -/
  raws : String.join (tokens.map Token.raw) = query
  /-- A span is the range of bytes of its raw text. -/
  span : ∀ {before t after}, tokens = before ++ t :: after →
    t.span.start = (String.join (before.map Token.raw)).utf8ByteSize ∧
      t.span.stop = t.span.start + t.raw.utf8ByteSize
  first : ∀ {t after}, tokens = t :: after → t.span.start = 0
  next : ∀ {before t u after}, tokens = before ++ t :: u :: after → u.span.start = t.span.stop
  last : ∀ {before t}, tokens = before ++ [t] → t.span.stop = query.utf8ByteSize
  empty : tokens = [] ↔ query = ""
  /-- A span ends between two characters. -/
  boundary : ∀ t ∈ tokens, String.Pos.Raw.IsValid query ⟨t.span.stop⟩
  solid : ∀ t ∈ tokens, t.raw = "" → t.kind = .missingQuote ∨ t.kind = .missingOptionValue
  missingQuote : ∀ {before t after}, tokens = before ++ t :: after → t.kind = .missingQuote →
    after = [] ∧ t.raw = ""
  blank : ∀ t ∈ tokens, t.kind = .space → ∀ c ∈ t.raw.toList, Text.isBlank c = true
  apart : ∀ {before t u after}, tokens = before ++ t :: u :: after →
    ¬(t.kind = .space ∧ u.kind = .space)

theorem Tiled.boundary {tokens : List Token} {query : String} (h : Tiled tokens query) {t : Token}
    (ht : t ∈ tokens) : String.Pos.Raw.IsValid query ⟨t.span.stop⟩ := by
  obtain ⟨before, after, heq⟩ := List.append_of_mem (List.mem_reverse.mpr ht)
  rw [String.Pos.Raw.isValid_iff_exists_append]
  refine ⟨String.join ((before ++ [t]).map Token.raw), String.join (after.map Token.raw), ?_, ?_⟩
  · rw [← String.join_append, ← List.map_append, List.append_assoc, List.singleton_append, ← heq,
      h.join]
  · rw [h.span_eq heq]
    rfl

/-- **The tokens of a whole query**, the latest first: neat ones, and perhaps a missing quotation
mark at the end. -/
structure Ended (tokens closed : List Token) : Prop where
  neat : Neat closed
  ending : tokens = closed ∨ ∃ span, tokens = ⟨.missingQuote, "", "", span, .none⟩ :: closed

namespace Ended

variable {tokens closed : List Token}

/-- Every token but a missing quotation mark at the end is sound. -/
theorem sound_or (h : Ended tokens closed) {before after : List Token} {t : Token}
    (heq : tokens.reverse = before ++ t :: after) :
    t.Sound ∨ t.kind = .missingQuote ∧ t.raw = "" ∧ after = [] := by
  have ht : t ∈ tokens := List.mem_reverse.mp (by rw [heq]; simp)
  rcases h.ending with rfl | ⟨span, rfl⟩
  · exact .inl (h.neat.sound t ht)
  · rcases List.eq_nil_or_concat after with rfl | ⟨after', last, rfl⟩
    · rw [List.reverse_cons] at heq
      obtain ⟨-, hmark⟩ := List.append_inj' heq rfl
      cases hmark
      exact .inr ⟨rfl, rfl, rfl⟩
    · rw [List.reverse_cons, List.concat_eq_append, ← List.cons_append, ← List.append_assoc] at heq
      obtain ⟨hclosed, -⟩ := List.append_inj' heq rfl
      exact .inl (h.neat.sound t (List.mem_reverse.mp (by rw [hclosed]; simp)))

theorem apart (h : Ended tokens closed) {before after : List Token} {t u : Token}
    (heq : tokens.reverse = before ++ t :: u :: after) : ¬(t.kind = .space ∧ u.kind = .space) := by
  have chain : tokens.IsChain fun later earlier => later.kind = .space → earlier.kind ≠ .space := by
    rcases h.ending with rfl | ⟨span, rfl⟩
    · exact h.neat.apart
    · refine List.isChain_cons.mpr ⟨fun earlier _ hs => ?_, h.neat.apart⟩
      cases hs
  rw [← List.isChain_reverse, List.isChain_iff_forall_rel_of_append_cons_cons] at chain
  exact fun hk => chain heq hk.2 hk.1

end Ended

/-- The tokens of the closed scan tile the query. -/
theorem tiled_close (schema : Schema) (query : String) :
    Tiled (scan schema query).close.tokens query ∧
      ∃ closed, Ended (scan schema query).close.tokens closed := by
  obtain ⟨s, covers, hclose⟩ := (tiling_scan schema query).close
  rw [String.ofList_toList] at covers
  rcases hclose with h | h
  · rw [h]
    exact ⟨covers.tiled, s.tokens, covers.neat, .inl rfl⟩
  · have htokens : s.missingQuote.tokens =
        ⟨.missingQuote, "", "", ⟨s.cursor, s.cursor⟩, .none⟩ :: s.tokens := by
      simp [Scan.missingQuote, Scan.report, Scan.emit]
    rw [h, htokens]
    refine ⟨?_, s.tokens, covers.neat, .inr ⟨_, rfl⟩⟩
    have mark := Tiled.cons (t := ⟨.missingQuote, "", "", ⟨s.cursor, s.cursor⟩, .none⟩)
      covers.tiled (by simp [covers.cursor])
    rwa [String.append_empty] at mark

/-- **The tokens of every query tile it.** -/
theorem parse_tiles (schema : Schema) (query : String) :
    Tiles query (parse schema query).tokens := by
  obtain ⟨tiled, closed, ended⟩ := tiled_close schema query
  change Tiles query (scan schema query).close.tokens.reverse
  have span : ∀ before {t after}, (scan schema query).close.tokens.reverse = before ++ t :: after →
      t.span.start = (String.join (before.map Token.raw)).utf8ByteSize ∧
        t.span.stop = (String.join ((before ++ [t]).map Token.raw)).utf8ByteSize := by
    intro before t after heq
    rw [tiled.span_eq heq]
    exact ⟨rfl, rfl⟩
  have member : ∀ t ∈ (scan schema query).close.tokens.reverse,
      t.Sound ∨ t.kind = .missingQuote := by
    intro t ht
    obtain ⟨before, after, heq⟩ := List.append_of_mem ht
    exact (ended.sound_or heq).imp_right And.left
  constructor
  case raws => exact tiled.join
  case span =>
    intro before t after heq
    obtain ⟨start, stop⟩ := span before heq
    refine ⟨start, ?_⟩
    rw [stop, start, List.map_append, String.join_append, String.utf8ByteSize_append]
    simp
  case first =>
    intro t after heq
    exact (span [] heq).1
  case next =>
    intro before t u after heq
    rw [(span before heq).2]
    exact (span (before ++ [t]) (by simpa using heq)).1
  case last =>
    intro before t heq
    rw [(span before heq).2, ← heq, tiled.join]
  case empty =>
    constructor
    · intro hnil
      rw [← tiled.join, hnil]
      rfl
    · rintro rfl
      rfl
  case boundary =>
    intro t ht
    exact tiled.boundary (List.mem_reverse.mp ht)
  case solid =>
    intro t ht hr
    rcases member t ht with h | h
    · exact .inr (h.solid hr)
    · exact .inl h
  case missingQuote =>
    intro before t after heq hk
    rcases ended.sound_or heq with h | ⟨-, hr, hafter⟩
    · exact absurd hk h.closed
    · exact ⟨hafter, hr⟩
  case blank =>
    intro t ht hk
    rcases member t ht with h | h
    · exact h.blank hk
    · exact absurd (hk.symm.trans h) nofun
  case apart => exact ended.apart

end Searchbar
