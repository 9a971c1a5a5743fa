import Searchbar.Completion
import Searchbar.Proofs.Tiling
import Searchbar.Proofs.ValueHints

/-!
# The token a caret rests on

A caret rests on one token of a query, and the offsets alone say on which (`parse_caretRests`). Where a
value is missing, an empty token marks the **gap**, and a caret there rests on it. Elsewhere the caret
rests on the token of which it has some text before it; at the very start, where there is no text
before it, on the first token. A selection rests on none, and neither does a caret beyond the query.

The search for the token goes back from the end of the query and takes the first token that holds the
caret. So all that is to be shown is that there is no second one:

* Tokens that tile a text follow each other (`Tiled.ordered`), so that one of them and no other spans
  an offset (`Tiled.exists_filter_spans`).
* A gap is the last token of a value, and the name of its option, which is not empty, stands before
  the value (`gap_behind_name`). So no gap stands at the start, and no two stand at one place.
-/

namespace Searchbar

/-! ### Tokens that hold a caret -/

namespace Token

/-- Whether the caret is inside the token or at its end, behind some of its text. -/
def spans (t : Token) (caret : Nat) : Bool := t.span.start < caret && caret ≤ t.span.stop

/-- Whether the token is **a gap at the caret**: empty, in place of a missing value. -/
def isGap (t : Token) (caret : Nat) : Bool :=
  t.span.isEmpty && t.span.start == caret && t.kind == .missingOptionValue

theorem holds_eq (t : Token) (caret : Nat) : t.holds caret = (t.spans caret || t.isGap caret) := rfl

theorem spans_iff {t : Token} {caret : Nat} :
    t.spans caret = true ↔ t.span.start < caret ∧ caret ≤ t.span.stop := by
  simp [spans]

theorem isGap_iff {t : Token} {caret : Nat} :
    t.isGap caret = true ↔
      t.span.start = t.span.stop ∧ t.span.start = caret ∧ t.kind = .missingOptionValue := by
  simp [isGap, Span.isEmpty, and_assoc]

end Token

/-- The token at a caret, found among the tokens with the latest first, or else the first token that
starts there. -/
theorem tokenAt_caret (tokens : List Token) (caret : Nat) :
    tokenAt tokens (.caret caret) =
      (tokens.reverse.find? fun t => t.holds caret).or
        (tokens.find? fun t => t.span.start == caret) := by
  -- the places that the search carries along do not matter for the token
  have places : tokens.zipIdx.map Prod.fst = tokens := List.zipIdx_map_fst 0 tokens
  have back : (tokens.zipIdx.reverse.find? fun p => p.1.holds caret).map Prod.fst =
      tokens.reverse.find? fun t => t.holds caret := by
    conv => rhs; rw [← places, ← List.map_reverse, List.find?_map]
    rfl
  have forth : (tokens.zipIdx.find? fun p => p.1.span.start == caret).map Prod.fst =
      tokens.find? fun t => t.span.start == caret := by
    conv => rhs; rw [← places, List.find?_map]
    rfl
  simp only [tokenAt, locate, Selection.isCaret, Selection.caret, BEq.rfl, if_true, Option.map_or,
    back, forth]

/-- The last token that holds the caret is the one it rests on. -/
theorem tokenAt_eq_some {tokens earlier : List Token} {t : Token} {caret : Nat} (later : List Token)
    (h : tokens.reverse = later ++ t :: earlier) (hlater : ∀ u ∈ later, u.holds caret = false)
    (ht : t.holds caret = true) : tokenAt tokens (.caret caret) = some t := by
  have skipped : (later.find? fun u => u.holds caret) = none := by
    rw [List.find?_eq_none]
    intro u hu
    simp [hlater u hu]
  have found : ((t :: earlier).find? fun u => u.holds caret) = some t := List.find?_cons_of_pos ht
  rw [tokenAt_caret, h, List.find?_append, skipped, Option.none_or, found, Option.some_or]

/-- A token that alone satisfies a condition is found, from whichever end one starts. -/
theorem find?_reverse_of_filter {tokens : List Token} {p : Token → Bool} {t : Token}
    (h : tokens.filter p = [t]) : tokens.reverse.find? p = some t := by
  rw [← List.head?_filter, List.filter_reverse, h]
  rfl

/-- A condition that no two tokens share is satisfied by one token alone, if by any. -/
theorem filter_eq_singleton {tokens : List Token} {p : Token → Bool} {t : Token}
    (apart : tokens.Pairwise fun u w => ¬(p u = true ∧ p w = true)) (ht : t ∈ tokens)
    (hp : p t = true) : tokens.filter p = [t] := by
  obtain ⟨before, after, rfl⟩ := List.append_of_mem ht
  obtain ⟨-, hafter, hbefore⟩ := List.pairwise_append.mp apart
  have none_before : before.filter p = [] :=
    List.filter_eq_nil_iff.mpr fun u hu hpu => hbefore u hu t List.mem_cons_self ⟨hpu, hp⟩
  have none_after : after.filter p = [] :=
    List.filter_eq_nil_iff.mpr fun u hu hpu => (List.pairwise_cons.mp hafter).1 u hu ⟨hp, hpu⟩
  rw [List.filter_append, none_before, List.filter_cons_of_pos hp, none_after, List.nil_append]

/-! ### Tokens follow each other -/

namespace Tiled

variable {tokens : List Token} {text : String}

/-- A token takes up as much space as its text. -/
theorem stop_eq (h : Tiled tokens text) {t : Token} (ht : t ∈ tokens) :
    t.span.stop = t.span.start + t.raw.utf8ByteSize := by
  induction h with
  | nil => cases ht
  | cons h span ih =>
    rcases List.mem_cons.mp ht with rfl | ht
    · rw [span, String.utf8ByteSize_append]
    · exact ih ht

theorem start_lt_stop_iff (h : Tiled tokens text) {t : Token} (ht : t ∈ tokens) :
    t.span.start < t.span.stop ↔ t.raw ≠ "" := by
  rw [h.stop_eq ht, Nat.lt_add_right_iff_pos, Nat.pos_iff_ne_zero, Ne,
    String.utf8ByteSize_eq_zero_iff]

/-- No token stops beyond the text. -/
theorem stop_le (h : Tiled tokens text) {t : Token} (ht : t ∈ tokens) :
    t.span.stop ≤ text.utf8ByteSize := by
  induction h with
  | nil => cases ht
  | cons h span ih =>
    rcases List.mem_cons.mp ht with rfl | ht
    · rw [span]
    · rw [String.utf8ByteSize_append]
      exact Nat.le_add_right_of_le (ih ht)

/-- **Tokens follow each other**: a later one starts where an earlier one has stopped. -/
theorem ordered (h : Tiled tokens text) :
    tokens.Pairwise fun later earlier => earlier.span.stop ≤ later.span.start := by
  induction h with
  | nil => exact .nil
  | @cons t earlier before h span ih =>
    refine List.pairwise_cons.mpr ⟨fun u hu => ?_, ih⟩
    rw [span]
    exact h.stop_le hu

/-- Every offset behind the start of a text is spanned by a token. -/
theorem exists_spans (h : Tiled tokens text) {caret : Nat} (hpos : 0 < caret)
    (hle : caret ≤ text.utf8ByteSize) : ∃ t ∈ tokens, t.spans caret = true := by
  -- the latest token spans what it adds to the text, and the tokens before it span the rest
  induction h with
  | nil => exact absurd hle (Nat.not_le.mpr hpos)
  | @cons t earlier before h span ih =>
    by_cases hcaret : caret ≤ before.utf8ByteSize
    · obtain ⟨u, hu, hspans⟩ := ih hcaret
      exact ⟨u, List.mem_cons_of_mem t hu, hspans⟩
    · refine ⟨t, List.mem_cons_self, Token.spans_iff.mpr ?_⟩
      rw [span]
      exact ⟨Nat.lt_of_not_le hcaret, hle⟩

/-- **One token and no other** spans an offset. -/
theorem exists_filter_spans (h : Tiled tokens text) {caret : Nat} (hpos : 0 < caret)
    (hle : caret ≤ text.utf8ByteSize) :
    ∃ t, tokens.reverse.filter (fun t => t.spans caret) = [t] := by
  obtain ⟨t, ht, hspans⟩ := h.exists_spans hpos hle
  refine ⟨t, filter_eq_singleton ?_ (List.mem_reverse.mpr ht) hspans⟩
  rw [List.pairwise_reverse]
  refine h.ordered.imp fun {later earlier} hle hboth => ?_
  have hlater := Token.spans_iff.mp hboth.2
  have hearlier := Token.spans_iff.mp hboth.1
  omega

end Tiled

/-! ### Gaps -/

section Gaps

variable {schema : Schema} {query : String}

/-- The tokens of a query, the latest first, tile it. -/
theorem tiled_parse (schema : Schema) (query : String) :
    Tiled (parse schema query).tokens.reverse query := by
  rw [show (parse schema query).tokens = (scan schema query).close.tokens.reverse from rfl,
    List.reverse_reverse]
  exact (tiled_close schema query).1

/-- The tokens of a query follow each other. -/
theorem parse_ordered (schema : Schema) (query : String) :
    (parse schema query).tokens.Pairwise fun earlier later =>
      earlier.span.stop ≤ later.span.start :=
  List.pairwise_reverse.mp (tiled_parse schema query).ordered

/-- The only tokens that take up no space are those of missing values and missing quotation marks. -/
theorem start_lt_stop {t : Token} (ht : t ∈ (parse schema query).tokens)
    (hgap : t.kind ≠ .missingOptionValue) (hquote : t.kind ≠ .missingQuote) :
    t.span.start < t.span.stop := by
  obtain ⟨-, closed, ended⟩ := tiled_close schema query
  obtain ⟨before, after, heq⟩ := List.append_of_mem ht
  rw [(tiled_parse schema query).start_lt_stop_iff (List.mem_reverse.mpr ht)]
  intro hraw
  rcases ended.sound_or heq with sound | ⟨hk, -⟩
  · exact hgap (sound.solid hraw)
  · exact hquote hk

/-- **A missing value stands behind a name**, and no other missing value stands between them. -/
theorem gap_behind_name {before after : List Token} {t : Token}
    (h : (parse schema query).tokens = before ++ t :: after) (hk : t.kind = .missingOptionValue) :
    ∃ earlier name run, before = earlier ++ name :: run ∧ name.span.start < name.span.stop ∧
      ∀ u ∈ run, u.kind ≠ .missingOptionValue := by
  cases placed_parse h with
  | text free =>
    have := free.outside
    rw [hk] at this
    cases this
  | name spec rest run hlater opens holds =>
    rw [opens.kind] at hk
    cases hk
  | inRun spec name newer older earlier hbefore opens holds =>
    have hbefore' : before = earlier.reverse ++ name :: older.reverse := by
      simpa using congrArg List.reverse hbefore
    have hname : name ∈ (parse schema query).tokens := by
      rw [h, hbefore']
      simp
    refine ⟨earlier.reverse, name, older.reverse, hbefore', start_lt_stop hname ?_ ?_, ?_⟩
    · rw [opens.kind]
      decide
    · rw [opens.kind]
      decide
    · intro u hu
      -- the tokens before the gap are not the latest of the run
      refine holds.lone u ?_
      have hu' : u ∈ older := List.mem_reverse.mp hu
      cases newer with
      | nil => exact hu'
      | cons w newer => exact List.mem_append_right newer (List.mem_cons_of_mem t hu')

/-- Some text stands before a gap, and the gaps before it are at other places. -/
theorem gap_first {before after : List Token} {t : Token} {caret : Nat}
    (h : (parse schema query).tokens = before ++ t :: after) (hgap : t.isGap caret = true) :
    0 < caret ∧ ∀ u ∈ before, u.isGap caret = false := by
  obtain ⟨-, hstart, hk⟩ := Token.isGap_iff.mp hgap
  obtain ⟨earlier, name, run, rfl, hname, lone⟩ := gap_behind_name h hk
  have ordered := parse_ordered schema query
  rw [h, List.append_assoc, List.cons_append] at ordered
  obtain ⟨-, hrest, hearlier⟩ := List.pairwise_append.mp ordered
  have stop : name.span.stop ≤ caret := by
    rw [← hstart]
    exact (List.pairwise_cons.mp hrest).1 t (by simp)
  refine ⟨by omega, fun u hu => Bool.eq_false_iff.mpr fun hgap' => ?_⟩
  obtain ⟨hempty, hstart', hk'⟩ := Token.isGap_iff.mp hgap'
  rcases List.mem_append.mp hu with hu | hu
  · -- the name stands between the two, and it takes up space
    have := hearlier u hu name List.mem_cons_self
    omega
  · rcases List.mem_cons.mp hu with rfl | hu
    · omega
    · exact lone u hu hk'

/-- **No two gaps** are at one place. -/
theorem gaps_apart (schema : Schema) (query : String) (caret : Nat) :
    (parse schema query).tokens.Pairwise fun u t =>
      ¬(u.isGap caret = true ∧ t.isGap caret = true) := by
  rw [List.pairwise_iff_forall_sublist]
  rintro u t hsub ⟨hu, ht⟩
  -- the one that stands first is among the tokens before the other
  obtain ⟨first, rest, hsplit, hmem, htail⟩ := List.cons_sublist_iff.mp hsub
  obtain ⟨between, after, rfl⟩ := List.append_of_mem (List.singleton_sublist.mp htail)
  rw [← List.append_assoc] at hsplit
  have := (gap_first hsplit ht).2 u (List.mem_append_left between hmem)
  rw [hu] at this
  cases this

end Gaps

/-! ### Carets -/

/-- **A caret rests on one token.** -/
structure CaretRests (query : String) (tokens : List Token) : Prop where
  /-- A selection rests on no token. -/
  selected : ∀ selection : Selection, selection.start ≠ selection.stop →
    tokenAt tokens selection = none
  /-- A caret beyond the query rests on no token. -/
  beyond : ∀ caret, query.utf8ByteSize < caret → tokenAt tokens (.caret caret) = none
  /-- Where there is a gap, there is one, and the caret rests on it. -/
  gap : ∀ caret, (∃ t ∈ tokens, t.isGap caret = true) →
    ∃ t, tokens.filter (fun t => t.isGap caret) = [t] ∧ tokenAt tokens (.caret caret) = some t
  /-- Elsewhere the caret rests on the token that spans it, of which there is one. -/
  inside : ∀ caret, 0 < caret → caret ≤ query.utf8ByteSize →
    (∀ t ∈ tokens, t.isGap caret = false) →
      ∃ t, tokens.filter (fun t => t.spans caret) = [t] ∧ t.raw ≠ "" ∧
        tokenAt tokens (.caret caret) = some t
  /-- At the start it rests on the first token. -/
  start : tokenAt tokens (.caret 0) = tokens.head?
  /-- The first token is missing only if there is no query. -/
  empty : tokenAt tokens (.caret 0) = none ↔ query = ""

section Rests

variable {schema : Schema} {query : String} {caret : Nat}

theorem tokenAt_beyond (h : query.utf8ByteSize < caret) :
    tokenAt (parse schema query).tokens (.caret caret) = none := by
  have tiled := tiled_parse schema query
  -- all tokens stop before the caret, so neither of the two searches finds one
  have apart : ∀ t ∈ (parse schema query).tokens, t.span.start < caret ∧ t.span.stop < caret := by
    intro t ht
    have hstop := tiled.stop_le (List.mem_reverse.mpr ht)
    have heq := tiled.stop_eq (List.mem_reverse.mpr ht)
    omega
  have held : ((parse schema query).tokens.reverse.find? fun t => t.holds caret) = none := by
    rw [List.find?_eq_none]
    intro t ht hholds
    obtain ⟨hstart, hstop⟩ := apart t (List.mem_reverse.mp ht)
    rw [Token.holds_eq, Bool.or_eq_true] at hholds
    rcases hholds with hspans | hgap
    · exact absurd (Token.spans_iff.mp hspans).2 (Nat.not_le.mpr hstop)
    · exact absurd (Token.isGap_iff.mp hgap).2.1 (Nat.ne_of_lt hstart)
  have started : ((parse schema query).tokens.find? fun t => t.span.start == caret) = none := by
    rw [List.find?_eq_none]
    intro t ht heq
    exact absurd (beq_iff_eq.mp heq) (Nat.ne_of_lt (apart t ht).1)
  rw [tokenAt_caret, held, started]
  rfl

/-- A gap is not hidden by the token before it: the search finds the later one first. -/
theorem tokenAt_gap {t : Token} (ht : t ∈ (parse schema query).tokens)
    (hgap : t.isGap caret = true) : tokenAt (parse schema query).tokens (.caret caret) = some t := by
  obtain ⟨hempty, hstart, -⟩ := Token.isGap_iff.mp hgap
  obtain ⟨before, after, h⟩ := List.append_of_mem ht
  have ordered := parse_ordered schema query
  have apart := gaps_apart schema query caret
  rw [h] at ordered apart
  have hafter := (List.pairwise_cons.mp (List.pairwise_append.mp ordered).2.1).1
  have lone := (List.pairwise_cons.mp (List.pairwise_append.mp apart).2.1).1
  have hreverse : (parse schema query).tokens.reverse = after.reverse ++ t :: before.reverse := by
    simp [h]
  refine tokenAt_eq_some after.reverse hreverse
    (fun u hu => Bool.eq_false_iff.mpr fun hholds => ?_) ?_
  · -- a later token starts at the caret or behind it, so it could only be a second gap
    have hu' := List.mem_reverse.mp hu
    rw [Token.holds_eq, Bool.or_eq_true] at hholds
    rcases hholds with hspans | hgap'
    · have := hafter u hu'
      have := (Token.spans_iff.mp hspans).1
      omega
    · exact lone u hu' ⟨hgap, hgap'⟩
  · rw [Token.holds_eq, hgap, Bool.or_true]

/-- Without a gap the token that spans the caret is the only one that holds it. -/
theorem tokenAt_inside {t : Token}
    (h : (parse schema query).tokens.filter (fun t => t.spans caret) = [t])
    (solid : ∀ t ∈ (parse schema query).tokens, t.isGap caret = false) :
    tokenAt (parse schema query).tokens (.caret caret) = some t := by
  have same : (parse schema query).tokens.filter (fun t => t.holds caret) =
      (parse schema query).tokens.filter fun t => t.spans caret := by
    refine List.filter_congr fun u hu => ?_
    rw [Token.holds_eq, solid u hu, Bool.or_false]
  rw [tokenAt_caret, find?_reverse_of_filter (same.trans h), Option.some_or]

/-- At the start no token holds the caret, and the first token is the one that starts there. -/
theorem tokenAt_start (schema : Schema) (query : String) :
    tokenAt (parse schema query).tokens (.caret 0) = (parse schema query).tokens.head? := by
  have held : ((parse schema query).tokens.reverse.find? fun t => t.holds 0) = none := by
    rw [List.find?_eq_none]
    intro t ht hholds
    rw [Token.holds_eq, Bool.or_eq_true] at hholds
    rcases hholds with hspans | hgap
    · exact Nat.not_lt_zero _ (Token.spans_iff.mp hspans).1
    · -- before a gap there is a name
      obtain ⟨before, after, h⟩ := List.append_of_mem (List.mem_reverse.mp ht)
      exact Nat.lt_irrefl 0 (gap_first h hgap).1
  rw [tokenAt_caret, held, Option.none_or]
  -- the search for a token that starts here succeeds at the first one
  cases h : (parse schema query).tokens with
  | nil => rfl
  | cons t rest =>
    have hsplit : (scan schema query).close.tokens.reverse = [] ++ t :: rest := h
    have hspan := (tiled_close schema query).1.span_eq hsplit
    rw [List.find?_cons_of_pos (by rw [hspan]; rfl), List.head?_cons]

end Rests

/-- **A caret rests on one token** of every query. -/
theorem parse_caretRests (schema : Schema) (query : String) :
    CaretRests query (parse schema query).tokens := by
  have tiled := (tiled_close schema query).1
  constructor
  case selected =>
    intro selection hne
    simp [tokenAt, locate, Selection.isCaret, hne]
  case beyond =>
    intro caret h
    exact tokenAt_beyond h
  case gap =>
    rintro caret ⟨t, ht, hgap⟩
    exact ⟨t, filter_eq_singleton (gaps_apart schema query caret) ht hgap, tokenAt_gap ht hgap⟩
  case inside =>
    intro caret hpos hle solid
    obtain ⟨t, hfilter⟩ := tiled.exists_filter_spans hpos hle
    have ht : t ∈ (parse schema query).tokens.filter fun t => t.spans caret := by
      rw [show (parse schema query).tokens = (scan schema query).close.tokens.reverse from rfl,
        hfilter]
      exact List.mem_singleton_self t
    obtain ⟨hmem, hspans⟩ := List.mem_filter.mp ht
    obtain ⟨hstart, hstop⟩ := Token.spans_iff.mp hspans
    refine ⟨t, hfilter, ?_, tokenAt_inside hfilter solid⟩
    exact (tiled.start_lt_stop_iff (List.mem_reverse.mp hmem)).mp (by omega)
  case start => exact tokenAt_start schema query
  case empty =>
    rw [tokenAt_start, List.head?_eq_none_iff]
    constructor
    · intro hnil
      rw [← tiled.join, show (scan schema query).close.tokens.reverse = [] from hnil]
      rfl
    · rintro rfl
      rfl

end Searchbar
