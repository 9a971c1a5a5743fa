import Mathlib.Data.List.Forall2
import Searchbar.Proofs.JsonLexeme

/-!
# A value from its text

A value that is written is read back, whichever of the two texts it has (`Writable.parse?_compact`,
`Writable.parse?_pretty`). The two texts differ in their blanks only, so they have the same lexemes,
`Json.lexemes`. From there on there is one argument: the machine that reads lexemes puts the value
into whatever frame is open (`Writable.takes`).
-/

namespace Searchbar.Json

/-- **A value that can be written**: its numerals are well-formed, and its strings spell a text. -/
inductive Writable : Json → Prop where
  | null : Writable .null
  | bool (b : Bool) : Writable (.bool b)
  | num {n : Numeral} (h : n.WellFormed) : Writable (.num n)
  | str (s : String) : Writable (.str s)
  | arr {items : List Json} (h : ∀ j ∈ items, Writable j) : Writable (.arr items)
  | obj {fields : List (String × Json)} (h : ∀ f ∈ fields, Writable f.2) : Writable (.obj fields)

/-! ### The lexemes of a value -/

mutual

/-- **The lexemes of a value.** -/
def lexemes : Json → List Lexeme
  | arr items => .beginArray :: [.comma].intercalate (itemLexemes items) ++ [.endArray]
  | obj fields => .beginObject :: [.comma].intercalate (fieldLexemes fields) ++ [.endObject]
  | scalar => [.scalar scalar]

/-- The lexemes of each item. -/
def itemLexemes : List Json → List (List Lexeme)
  | [] => []
  | item :: rest => lexemes item :: itemLexemes rest

/-- The lexemes of each field. -/
def fieldLexemes : List (String × Json) → List (List Lexeme)
  | [] => []
  | (name, value) :: rest => (.scalar (.str name) :: .colon :: lexemes value) :: fieldLexemes rest

end

/-- The lexemes of one field. -/
def lexemesOfField (f : String × Json) : List Lexeme :=
  .scalar (.str f.1) :: .colon :: lexemes f.2

theorem itemLexemes_eq (items : List Json) : itemLexemes items = items.map lexemes := by
  induction items with
  | nil => rfl
  | cons item rest ih => rw [itemLexemes, ih, List.map_cons]

theorem fieldLexemes_eq (fields : List (String × Json)) :
    fieldLexemes fields = fields.map lexemesOfField := by
  induction fields with
  | nil => rfl
  | cons f rest ih =>
    obtain ⟨name, value⟩ := f
    rw [fieldLexemes, ih, List.map_cons, lexemesOfField]

theorem lexemes_arr (items : List Json) :
    lexemes (.arr items) =
      [.beginArray] ++ [.comma].intercalate (items.map lexemes) ++ [.endArray] := by
  rw [lexemes, itemLexemes_eq]
  rfl

theorem lexemes_obj (fields : List (String × Json)) :
    lexemes (.obj fields) =
      [.beginObject] ++ [.comma].intercalate (fields.map lexemesOfField) ++ [.endObject] := by
  rw [lexemes, fieldLexemes_eq]
  rfl

/-! ### The texts spell the lexemes -/

section Spelling

variable {α : Type}

/-- Texts with commas between them spell their lexemes with commas between them. -/
theorem spells_separated {texts : List (List Char)} {lss : List (List Lexeme)}
    (h : List.Forall₂ Spells texts lss) :
    Spells ([','].intercalate texts) ([.comma].intercalate lss) := by
  induction h with
  | nil => exact closes_nil.spells
  | cons first others ih =>
    cases others with
    | nil =>
      rw [List.intercalate_singleton, List.intercalate_singleton]
      exact first
    | cons second others =>
      -- the comma ends what the first text may have left open
      rw [List.intercalate_cons_cons, List.intercalate_cons_cons]
      exact (first.append_sign sign_comma).append_spells ih

theorem spells_separated_map {l : List α} {text : α → List Char} {ls : α → List Lexeme}
    (h : ∀ a ∈ l, Spells (text a) (ls a)) :
    Spells ([','].intercalate (l.map text)) ([.comma].intercalate (l.map ls)) := by
  apply spells_separated
  rw [List.forall₂_map_left_iff, List.forall₂_map_right_iff, List.forall₂_same]
  exact h

/-- A writer that puts commas between the texts of single things. -/
theorem toList_separated {text : List α → String} {one : α → String} (hnil : text [] = "")
    (hone : ∀ a, text [a] = one a)
    (hcons : ∀ a b rest, text (a :: b :: rest) = one a ++ "," ++ text (b :: rest)) (l : List α) :
    (text l).toList = [','].intercalate (l.map fun a => (one a).toList) := by
  induction l with
  | nil => rw [hnil]; rfl
  | cons a rest ih =>
    cases rest with
    | nil => rw [hone, List.map_singleton, List.intercalate_singleton]
    | cons b rest =>
      rw [hcons, String.toList_append, String.toList_append, ih]
      exact List.intercalate_cons_cons.symm

/-- A name and what spells the value, with a colon between them, are a field. -/
theorem spells_field {f : String × Json} {colon text : String}
    (hcolon : Closes colon.toList [.colon]) (h : Spells text.toList (lexemes f.2)) :
    Spells (stringText f.1 ++ colon ++ text).toList (lexemesOfField f) := by
  rw [String.toList_append, String.toList_append]
  exact ((closes_stringText f.1).append hcolon).append_spells h

/-- Between its signs, an array or object is spelled by what spells its contents. -/
theorem spells_between {first last : Char} {begins ends : Lexeme} {cs : List Char}
    {ls : List Lexeme} (hfirst : Sign first begins) (hlast : Sign last ends) (h : Spells cs ls) :
    Spells ([first] ++ cs ++ [last]) ([begins] ++ ls ++ [ends]) :=
  ((hfirst.closes.append_spells h).append_sign hlast).spells

end Spelling

theorem toList_compactItems (items : List Json) :
    (compactItems items).toList = [','].intercalate (items.map fun j => j.compact.toList) :=
  toList_separated rfl (fun _ => rfl) (fun _ _ _ => rfl) items

theorem toList_compactFields (fields : List (String × Json)) :
    (compactFields fields).toList =
      [','].intercalate (fields.map fun f => (stringText f.1 ++ ":" ++ f.2.compact).toList) :=
  toList_separated rfl (fun _ => rfl) (fun _ _ _ => rfl) fields

theorem toList_prettyItems (level : Nat) (items : List Json) :
    (prettyItems level items).toList =
      [','].intercalate (items.map fun j => (indent level ++ j.prettyAt level).toList) :=
  toList_separated rfl (fun _ => rfl) (fun _ _ _ => rfl) items

theorem toList_prettyFields (level : Nat) (fields : List (String × Json)) :
    (prettyFields level fields).toList =
      [','].intercalate (fields.map fun f =>
        (indent level ++ stringText f.1 ++ ": " ++ f.2.prettyAt level).toList) :=
  toList_separated rfl (fun _ => rfl) (fun _ _ _ => rfl) fields

theorem toList_indent (level : Nat) :
    (indent level).toList = '\n' :: List.replicate (2 * level) ' ' := by
  simp [indent]

theorem prettyAt_arr_cons (level : Nat) (item : Json) (rest : List Json) :
    prettyAt level (.arr (item :: rest)) =
      "[" ++ prettyItems (level + 1) (item :: rest) ++ indent level ++ "]" := rfl

theorem prettyAt_obj_cons (level : Nat) (f : String × Json) (rest : List (String × Json)) :
    prettyAt level (.obj (f :: rest)) =
      "\x7b" ++ prettyFields (level + 1) (f :: rest) ++ indent level ++ "\x7d" := rfl

theorem closes_indent (level : Nat) : Closes (indent level).toList [] := by
  apply closes_blanks
  intro c hc
  rw [toList_indent] at hc
  rcases List.mem_cons.mp hc with rfl | hc
  · rfl
  · rw [List.eq_of_mem_replicate hc]
    rfl

/-- The start of a line ends what is open. -/
theorem Spells.append_indent {cs : List Char} {ls : List Lexeme} (h : Spells cs ls) (level : Nat) :
    Spells (cs ++ (indent level).toList) ls := by
  have hclosed := closes_indent level
  rw [toList_indent] at hclosed ⊢
  simpa using (h.append_closes hclosed ⟨rfl, rfl⟩).spells

namespace Writable

variable {j : Json}

/-- **The text without blanks spells the value's lexemes.** -/
theorem spells_compact (h : Writable j) : Spells j.compact.toList (lexemes j) := by
  induction h with
  | null => exact spells_null
  | bool b => exact spells_bool b
  | num h => exact h.spells
  | str s => exact (closes_stringText s).spells
  | @arr items _ ih =>
    rw [compact, lexemes_arr, String.toList_append, String.toList_append, toList_compactItems]
    exact spells_between sign_beginArray sign_endArray (spells_separated_map ih)
  | @obj fields _ ih =>
    rw [compact, lexemes_obj, String.toList_append, String.toList_append, toList_compactFields]
    refine spells_between sign_beginObject sign_endObject (spells_separated_map ?_)
    intro f hf
    exact spells_field sign_colon.closes (ih f hf)

/-- **The text on several lines spells the same lexemes.** -/
theorem spells_prettyAt (h : Writable j) (level : Nat) :
    Spells (j.prettyAt level).toList (lexemes j) := by
  induction h generalizing level with
  | null => exact spells_null
  | bool b => exact spells_bool b
  | num h => exact h.spells
  | str s => exact (closes_stringText s).spells
  | @arr items _ ih =>
    rw [lexemes_arr]
    cases items with
    | nil =>
      -- what is empty stays on one line
      rw [prettyAt]
      exact spells_between sign_beginArray sign_endArray closes_nil.spells
    | cons item rest =>
      rw [prettyAt_arr_cons, String.toList_append, String.toList_append, String.toList_append,
        toList_prettyItems, List.append_assoc ("[".toList)]
      refine spells_between sign_beginArray sign_endArray
        (Spells.append_indent (spells_separated_map ?_) level)
      -- an item may stay open at its end, and the comma or the start of the last line ends it
      intro j hj
      rw [String.toList_append]
      exact (closes_indent (level + 1)).append_spells (ih j hj (level + 1))
  | @obj fields _ ih =>
    rw [lexemes_obj]
    cases fields with
    | nil =>
      rw [prettyAt]
      exact spells_between sign_beginObject sign_endObject closes_nil.spells
    | cons f rest =>
      rw [prettyAt_obj_cons, String.toList_append, String.toList_append, String.toList_append,
        toList_prettyFields, List.append_assoc ("\x7b".toList)]
      refine spells_between sign_beginObject sign_endObject
        (Spells.append_indent (spells_separated_map ?_) level)
      intro f hf
      have hcolon : Closes ": ".toList [.colon] := fun _ => rfl
      rw [String.append_assoc, String.append_assoc, String.toList_append, ← String.append_assoc]
      exact (closes_indent (level + 1)).append_spells (spells_field hcolon (ih f hf (level + 1)))

end Writable

/-! ### The lexemes make the value -/

theorem intercalate_cons {α : Type} (sep l : List α) (ls : List (List α)) :
    sep.intercalate (l :: ls) = l ++ ls.flatMap (sep ++ ·) := by
  induction ls generalizing l with
  | nil => simp
  | cons next rest ih =>
    rw [List.intercalate_cons_cons, ih, List.flatMap_cons, List.append_assoc, List.append_assoc]

/-- An object whose names all spell a text. -/
theorem ofFields_named (fields : List (String × Json)) :
    ofFields (fields.map fun f => (some f.1, f.2)) = .obj fields := by
  have hnamed : (fields.map fun f => (some f.1, f.2)).mapM
      (fun f : Option String × Json => f.1.map fun name => (name, f.2)) = some fields := by
    induction fields with
    | nil => rfl
    | cons f rest ih => simp [ih]
  rw [ofFields, hnamed]

namespace Building

/-- The value under construction after some more lexemes. -/
def run? (b : Building) (ls : List Lexeme) : Option Building := ls.foldlM step? b

theorem run?_cons (b : Building) (l : Lexeme) (ls : List Lexeme) :
    b.run? (l :: ls) = (b.step? l).bind fun b => b.run? ls := rfl

theorem run?_append (b : Building) (ls ms : List Lexeme) :
    b.run? (ls ++ ms) = (b.run? ls).bind fun b => b.run? ms := List.foldlM_append

theorem run?_singleton (b : Building) (l : Lexeme) : b.run? [l] = b.step? l := by
  rw [run?_cons]
  exact Option.bind_fun_some (b.step? l)

section Separated

variable {α β : Type} {ls : α → List Lexeme} (opened closed : List β → Building) (kept : α → β)

/-- More things, each after a comma. The frame is `opened` where the next thing may start and
`closed` after it, both with the things so far, the latest first. -/
theorem run?_more (comma : ∀ acc, (closed acc).step? .comma = some (opened acc)) {l : List α}
    (one : ∀ a ∈ l, ∀ acc, (opened acc).run? (ls a) = some (closed (kept a :: acc)))
    (acc : List β) :
    (closed acc).run? ((l.map ls).flatMap ([.comma] ++ ·)) =
      some (closed ((l.map kept).reverse ++ acc)) := by
  induction l generalizing acc with
  | nil => rfl
  | cons a rest ih =>
    -- the comma opens the frame, the next thing closes it again, and there is one thing more in it
    rw [List.map_cons, List.flatMap_cons, run?_append, run?_append, run?_singleton, comma,
      Option.bind_some, one a List.mem_cons_self, Option.bind_some,
      ih (fun b hb => one b (List.mem_cons_of_mem a hb)), List.map_cons, List.reverse_cons,
      List.append_assoc]
    rfl

/-- **Reading things with commas between them**, from the state `start` in which the first of them
is read as any other. -/
theorem run?_separated (start : Building)
    (first : ∀ a ms, start.run? (ls a ++ ms) = (opened []).run? (ls a ++ ms))
    (comma : ∀ acc, (closed acc).step? .comma = some (opened acc)) {l : List α}
    (one : ∀ a ∈ l, ∀ acc, (opened acc).run? (ls a) = some (closed (kept a :: acc)))
    (hne : l ≠ []) :
    start.run? ([.comma].intercalate (l.map ls)) = some (closed (l.map kept).reverse) := by
  obtain ⟨a, rest, rfl⟩ := List.exists_cons_of_ne_nil hne
  have others := run?_more opened closed kept comma fun b hb => one b (List.mem_cons_of_mem a hb)
  rw [List.map_cons, intercalate_cons, first, run?_append, one a List.mem_cons_self,
    Option.bind_some, others, List.map_cons, List.reverse_cons]

end Separated

/-- A value starts with no end, so it is read the same where an end may come too. -/
theorem run?_valueOrEnd (j : Json) (frames : List Frame) (ms : List Lexeme) :
    run? (.pending .valueOrEnd frames) (lexemes j ++ ms) =
      run? (.pending .value frames) (lexemes j ++ ms) := by
  cases j <;> rfl

theorem run?_nameOrEnd (f : String × Json) (frames : List Frame) (ms : List Lexeme) :
    run? (.pending .nameOrEnd frames) (lexemesOfField f ++ ms) =
      run? (.pending .name frames) (lexemesOfField f ++ ms) := rfl

/-- A value that takes its place in whatever frame is open. -/
def Takes (j : Json) : Prop :=
  ∀ frames, run? (.pending .value frames) (lexemes j) = place j frames

theorem run?_field {f : String × Json} (h : Takes f.2) (fields : List (Option String × Json))
    (frames : List Frame) :
    run? (.pending .name (.object fields :: frames)) (lexemesOfField f) =
      some (.pending .commaOrEnd (.object ((some f.1, f.2) :: fields) :: frames)) :=
  h (.field fields (some f.1) :: frames)

/-- The items of an array and its end. -/
theorem run?_items {items : List Json} (h : ∀ j ∈ items, Takes j) (frames : List Frame) :
    run? (.pending .valueOrEnd (.array [] :: frames))
        ([.comma].intercalate (items.map lexemes) ++ [.endArray]) =
      place (.arr items) frames := by
  by_cases hne : items = []
  · subst hne
    exact (run?_singleton _ _).trans Option.or_none
  · -- the frame holds the items latest first, and its end turns them round
    have contents := run?_separated (fun acc => .pending .value (.array acc :: frames))
      (fun acc => .pending .commaOrEnd (.array acc :: frames)) id _
      (fun j ms => run?_valueOrEnd j (.array [] :: frames) ms) (fun _ => rfl)
      (fun j hj acc => h j hj (.array acc :: frames)) hne
    rw [run?_append, contents, Option.bind_some, run?_singleton]
    simp [step?, separate, endFrame]

/-- The fields of an object and its end. -/
theorem run?_fields {fields : List (String × Json)} (h : ∀ f ∈ fields, Takes f.2)
    (frames : List Frame) :
    run? (.pending .nameOrEnd (.object [] :: frames))
        ([.comma].intercalate (fields.map lexemesOfField) ++ [.endObject]) =
      place (.obj fields) frames := by
  by_cases hne : fields = []
  · subst hne
    exact (run?_singleton _ _).trans Option.or_none
  · have contents := run?_separated (fun acc => .pending .name (.object acc :: frames))
      (fun acc => .pending .commaOrEnd (.object acc :: frames)) (fun f => (some f.1, f.2)) _
      (fun f ms => run?_nameOrEnd f (.object [] :: frames) ms) (fun _ => rfl)
      (fun f hf acc => run?_field (h f hf) acc frames) hne
    rw [run?_append, contents, Option.bind_some, run?_singleton]
    simp [step?, separate, endFrame, ofFields_named]

end Building

open Building in
/-- **The lexemes of a value put it into the frame that is open.** -/
theorem Writable.takes {j : Json} (h : Writable j) : Takes j := by
  induction h with
  -- a value that holds no others is one lexeme
  | null | bool | num | str => exact fun frames => run?_singleton _ _
  | @arr items _ ih =>
    intro frames
    rw [lexemes_arr, List.append_assoc]
    exact run?_items ih frames
  | @obj fields _ ih =>
    intro frames
    rw [lexemes_obj, List.append_assoc]
    exact run?_fields ih frames

theorem Writable.ofLexemes?_lexemes {j : Json} (h : Writable j) :
    ofLexemes? (lexemes j) = some j := by
  have hrun : (lexemes j).foldlM Building.step? (.pending .value []) = some (.done j) := h.takes []
  rw [ofLexemes?, hrun]

/-! ### Reading back -/

/-- **A value is read back from its text without blanks.** -/
theorem Writable.parse?_compact {j : Json} (h : Writable j) : parse? j.compact = some j := by
  rw [parse?, h.spells_compact.lexemes?_eq, Option.bind_some, h.ofLexemes?_lexemes]

/-- **A value is read back from its text on several lines.** -/
theorem Writable.parse?_pretty {j : Json} (h : Writable j) : parse? j.pretty = some j := by
  rw [parse?, pretty, (h.spells_prettyAt 0).lexemes?_eq, Option.bind_some, h.ofLexemes?_lexemes]

end Searchbar.Json
