import Mathlib.Data.List.TakeWhile
import Searchbar.Json.Reader
import Searchbar.Json.Writer

/-!
# The lexemes of a written text

What is written in JSON is cut into the lexemes it was written from. The machine that does it goes
over one character at a time, and a numeral or a word is complete only when something else follows.
So there are two judgements on a text: it **spells** some lexemes if the machine has them at its
end, where the last one may still be open (`Spells`), and it **closes** them if the machine is
between lexemes then (`Closes`). Texts are put together by `Closes.append_spells` and, where the
first may be open, `Spells.append_closes`.

* `Numeral.ofChars?_chars`: a well-formed numeral is read back.
* `closes_stringText`: a string is read back, however its characters are escaped.
-/

namespace Searchbar.Json

/-! ### Putting texts together -/

namespace Lexer

/-- The machine after some more text. -/
def run? (m : Lexer) (cs : List Char) : Option Lexer := cs.foldlM step? m

@[simp] theorem run?_nil (m : Lexer) : m.run? [] = some m := rfl

theorem run?_cons (m : Lexer) (c : Char) (cs : List Char) :
    m.run? (c :: cs) = (m.step? c).bind fun m => m.run? cs := rfl

theorem run?_append (m : Lexer) (cs ds : List Char) :
    m.run? (cs ++ ds) = (m.run? cs).bind fun m => m.run? ds := List.foldlM_append

theorem run?_cons_of_step? {m m' : Lexer} {c : Char} (h : m.step? c = some m') (cs : List Char) :
    m.run? (c :: cs) = m'.run? cs := by
  rw [run?_cons, h, Option.bind_some]

/-- A character that belongs to no numeral and no word. -/
structure Separates (c : Char) : Prop where
  numeral : isNumeralChar c = false
  word : c.isLower = false

/-- Such a character ends what is open. -/
theorem step?_of_finish? {m m' : Lexer} {c : Char} (h : m.finish? = some m') (sep : Separates c) :
    m.step? c = m'.step? c := by
  obtain ⟨state, before⟩ := m
  cases state with
  | between => rw [Option.some.inj h]
  | numeral cs =>
    obtain ⟨n, hn, rfl⟩ := Option.map_eq_some_iff.mp h
    simp [step?, finish?, sep.numeral, hn, push]
  | word cs =>
    obtain ⟨j, hj, rfl⟩ := Option.map_eq_some_iff.mp h
    simp [step?, finish?, sep.word, hj, push]
  | string p | escape p | unit p value left => cases h

end Lexer

/-- **A text that spells some lexemes**, of which the last may be open. -/
def Spells (cs : List Char) (ls : List Lexeme) : Prop :=
  ∀ before, ∃ m, Lexer.run? ⟨.between, before⟩ cs = some m ∧
    m.finish? = some ⟨.between, ls.reverse ++ before⟩

/-- **A text that closes some lexemes**: none of them is open at its end. -/
def Closes (cs : List Char) (ls : List Lexeme) : Prop :=
  ∀ before, Lexer.run? ⟨.between, before⟩ cs = some ⟨.between, ls.reverse ++ before⟩

section Together

variable {cs ds : List Char} {c : Char} {ls ms : List Lexeme}

theorem closes_nil : Closes [] [] := fun _ => rfl

theorem Closes.spells (h : Closes cs ls) : Spells cs ls := fun before => ⟨_, h before, rfl⟩

theorem Closes.append (h : Closes cs ls) (h' : Closes ds ms) : Closes (cs ++ ds) (ls ++ ms) := by
  intro before
  rw [Lexer.run?_append, h before, Option.bind_some, h', List.reverse_append, List.append_assoc]

theorem Closes.append_spells (h : Closes cs ls) (h' : Spells ds ms) :
    Spells (cs ++ ds) (ls ++ ms) := by
  intro before
  obtain ⟨m, hrun, hfinish⟩ := h' (ls.reverse ++ before)
  refine ⟨m, ?_, ?_⟩
  · rw [Lexer.run?_append, h before, Option.bind_some, hrun]
  · rw [hfinish, List.reverse_append, List.append_assoc]

/-- What is open at the end of the first text is ended by the first character of the second. -/
theorem Spells.append_closes (h : Spells cs ls) (h' : Closes (c :: ds) ms)
    (sep : Lexer.Separates c) : Closes (cs ++ c :: ds) (ls ++ ms) := by
  intro before
  obtain ⟨m, hrun, hfinish⟩ := h before
  rw [Lexer.run?_append, hrun, Option.bind_some, Lexer.run?_cons,
    Lexer.step?_of_finish? hfinish sep, ← Lexer.run?_cons, h', List.reverse_append,
    List.append_assoc]

/-- The lexemes of a whole text. -/
theorem Spells.lexemes?_eq {text : String} (h : Spells text.toList ls) :
    lexemes? text = some ls := by
  obtain ⟨m, hrun, hfinish⟩ := h []
  have hrun' : text.toList.foldlM Lexer.step? {} = some m := hrun
  simp [lexemes?, hrun', hfinish]

end Together

/-! ### Blanks and punctuation -/

theorem closes_blanks {cs : List Char} (h : ∀ c ∈ cs, Lexer.isBlank c = true) : Closes cs [] := by
  intro before
  induction cs with
  | nil => rfl
  | cons c cs ih =>
    have step : Lexer.step? ⟨.between, before⟩ c = some ⟨.between, before⟩ := by
      simp [Lexer.step?, Lexer.begin?, h c List.mem_cons_self]
    rw [Lexer.run?_cons_of_step? step]
    exact ih fun d hd => h d (List.mem_cons_of_mem c hd)

/-- **A sign of punctuation**, which is a lexeme for itself. -/
structure Sign (c : Char) (l : Lexeme) : Prop where
  separates : Lexer.Separates c
  closes : Closes [c] [l]

theorem sign_comma : Sign ',' .comma := ⟨⟨rfl, rfl⟩, fun _ => rfl⟩
theorem sign_colon : Sign ':' .colon := ⟨⟨rfl, rfl⟩, fun _ => rfl⟩
theorem sign_beginArray : Sign '[' .beginArray := ⟨⟨rfl, rfl⟩, fun _ => rfl⟩
theorem sign_endArray : Sign ']' .endArray := ⟨⟨rfl, rfl⟩, fun _ => rfl⟩
theorem sign_beginObject : Sign '\x7b' .beginObject := ⟨⟨rfl, rfl⟩, fun _ => rfl⟩
theorem sign_endObject : Sign '\x7d' .endObject := ⟨⟨rfl, rfl⟩, fun _ => rfl⟩

theorem Spells.append_sign {cs : List Char} {ls : List Lexeme} {c : Char} {l : Lexeme}
    (h : Spells cs ls) (sign : Sign c l) : Closes (cs ++ [c]) (ls ++ [l]) :=
  h.append_closes sign.closes sign.separates

/-! ### Words -/

theorem spells_null : Spells "null".toList [.scalar .null] := fun _ => ⟨_, rfl, rfl⟩

theorem spells_bool (b : Bool) : Spells (scalarText (.bool b)).toList [.scalar (.bool b)] := by
  cases b <;> exact fun _ => ⟨_, rfl, rfl⟩

/-! ### Numerals -/

namespace Numeral

/-- **A numeral as it is written**: there are digits before the point, of which zero is the first
only if it is the only one, and an exponent has digits. -/
structure WellFormed (n : Numeral) : Prop where
  whole_ne : n.whole ≠ []
  whole : ∀ c ∈ n.whole, c.isDigit = true
  leading : ∀ d rest, n.whole ≠ '0' :: d :: rest
  fraction : ∀ c ∈ n.fraction, c.isDigit = true
  exponent_ne : ∀ e, n.exponent = some e → e.2 ≠ []
  exponent : ∀ e, n.exponent = some e → ∀ c ∈ e.2, c.isDigit = true

/-- The characters of an exponent. -/
def exponentChars : Option (Bool × List Char) → List Char
  | none => []
  | some (negative, ds) => 'e' :: (if negative then '-' else '+') :: ds

/-- The characters after the digits before the point. -/
def tailChars (n : Numeral) : List Char :=
  (if n.fraction.isEmpty then [] else '.' :: n.fraction) ++ exponentChars n.exponent

theorem chars_eq (n : Numeral) :
    n.chars = (if n.negative then ['-'] else []) ++ (n.whole ++ n.tailChars) :=
  calc n.chars
    _ = (if n.negative then ['-'] else []) ++ n.whole ++
          (if n.fraction.isEmpty then [] else '.' :: n.fraction) ++ exponentChars n.exponent := rfl
    _ = (if n.negative then ['-'] else []) ++ (n.whole ++ n.tailChars) := by
      rw [tailChars, List.append_assoc, List.append_assoc]

theorem digits?_eq {cs : List Char} (hne : cs ≠ []) (h : ∀ c ∈ cs, c.isDigit = true) :
    digits? cs = some cs := by
  have hempty : cs.isEmpty = false := by simpa using hne
  simp [digits?, hempty, List.all_eq_true.mpr h]

/-- Digits end where the rest does not start with one. -/
theorem takeWhile_digits {ds : List Char} (rest : List Char) (h : ∀ c ∈ ds, c.isDigit = true)
    (hrest : ∀ c, rest.head? = some c → c.isDigit = false) :
    (ds ++ rest).takeWhile Char.isDigit = ds ∧ (ds ++ rest).dropWhile Char.isDigit = rest := by
  rw [List.takeWhile_append_of_pos h, List.dropWhile_append_of_pos h]
  cases rest with
  | nil => simp
  | cons c rest => simp [hrest c rfl]

variable {n : Numeral}

theorem exponentOfChars?_exponentChars {exponent : Option (Bool × List Char)}
    (hne : ∀ e, exponent = some e → e.2 ≠ [])
    (h : ∀ e, exponent = some e → ∀ c ∈ e.2, c.isDigit = true) :
    exponentOfChars? (exponentChars exponent) = some exponent := by
  cases exponent with
  | none => rfl
  | some e =>
    obtain ⟨negative, ds⟩ := e
    have hds : digits? ds = some ds := digits?_eq (hne _ rfl) (h _ rfl)
    cases negative <;> simp [exponentChars, exponentOfChars?, hds]

theorem head?_exponentChars {exponent : Option (Bool × List Char)} (c : Char)
    (h : (exponentChars exponent).head? = some c) : c.isDigit = false := by
  cases exponent with
  | none => cases h
  | some e =>
    obtain rfl : 'e' = c := Option.some.inj h
    rfl

theorem head?_tailChars (c : Char) (h : n.tailChars.head? = some c) : c.isDigit = false := by
  unfold tailChars at h
  split at h
  · exact head?_exponentChars c h
  · obtain rfl : '.' = c := Option.some.inj h
    rfl

theorem tailOfChars?_of_no_point {negative : Bool} {whole cs : List Char}
    (h : ∀ rest, cs ≠ '.' :: rest) :
    tailOfChars? negative whole cs =
      (exponentOfChars? cs).map fun exponent => ⟨negative, whole, [], exponent⟩ := by
  unfold tailOfChars?
  split
  · next rest => exact absurd rfl (h rest)
  · rfl

/-- What stands behind the digits before the point is read back. -/
theorem WellFormed.tailOfChars?_tailChars (h : n.WellFormed) :
    tailOfChars? n.negative n.whole n.tailChars = some n := by
  have hexponent := exponentOfChars?_exponentChars h.exponent_ne h.exponent
  unfold tailChars
  split
  · next hempty =>
    -- there is no point, and what follows is the exponent or nothing
    have hfraction : n.fraction = [] := by simpa using hempty
    rw [List.nil_append, tailOfChars?_of_no_point, hexponent, Option.map_some, ← hfraction]
    intro rest heq
    cases he : n.exponent with
    | none =>
      rw [he] at heq
      cases heq
    | some e =>
      rw [he] at heq
      exact absurd (List.cons.inj heq).1 (by decide)
  · next hpoint =>
    have hfraction : n.fraction ≠ [] := by simpa using hpoint
    obtain ⟨htake, hdrop⟩ := takeWhile_digits (exponentChars n.exponent) h.fraction
      head?_exponentChars
    simp [tailOfChars?, htake, hdrop, digits?_eq hfraction h.fraction, hexponent]

/-- Without its sign, a numeral is read back. -/
theorem WellFormed.ofUnsigned?_eq (h : n.WellFormed) :
    ofUnsigned? n.negative (n.whole ++ n.tailChars) = some n := by
  obtain ⟨htake, hdrop⟩ := takeWhile_digits n.tailChars h.whole head?_tailChars
  rw [ofUnsigned?, htake, hdrop]
  split
  · next hnil => exact absurd hnil h.whole_ne
  · next d rest hzero => exact absurd hzero (h.leading d rest)
  · exact h.tailOfChars?_tailChars

/-- A first character that is no sign belongs to the digits. -/
theorem ofChars?_cons_of_ne {c : Char} {cs : List Char} (h : c ≠ '-') :
    ofChars? (c :: cs) = ofUnsigned? false (c :: cs) := by
  unfold ofChars?
  split
  · next heq => exact absurd (List.cons.inj heq).1 h
  · rfl

/-- **A well-formed numeral is read back.** -/
theorem WellFormed.ofChars?_chars (h : n.WellFormed) : ofChars? n.chars = some n := by
  have unsigned := h.ofUnsigned?_eq
  rw [chars_eq]
  cases hneg : n.negative with
  | true =>
    rw [hneg] at unsigned
    exact unsigned
  | false =>
    obtain ⟨d, ds, hwhole⟩ := List.exists_cons_of_ne_nil h.whole_ne
    have hdigit : d.isDigit = true := h.whole d (by simp [hwhole])
    -- the first character is a digit, so it is not taken for a sign
    have hsign : d ≠ '-' := by
      rintro rfl
      cases hdigit
    rw [hneg, hwhole] at unsigned
    rw [hwhole]
    exact (ofChars?_cons_of_ne hsign).trans unsigned

/-- The first character of a well-formed numeral is a digit or the sign. -/
theorem WellFormed.chars_eq_cons (h : n.WellFormed) :
    ∃ c cs, n.chars = c :: cs ∧ (c.isDigit = true ∨ c = '-') := by
  obtain ⟨d, ds, hwhole⟩ := List.exists_cons_of_ne_nil h.whole_ne
  rw [chars_eq, hwhole]
  cases n.negative with
  | true => exact ⟨'-', _, rfl, .inr rfl⟩
  | false => exact ⟨d, _, rfl, .inl (h.whole d (by simp [hwhole]))⟩

theorem isNumeralChar_of_isDigit {c : Char} (h : c.isDigit = true) :
    Lexer.isNumeralChar c = true := by
  simp [Lexer.isNumeralChar, h]

theorem WellFormed.isNumeralChar_of_mem_exponent (h : n.WellFormed) {c : Char}
    (hc : c ∈ exponentChars n.exponent) : Lexer.isNumeralChar c = true := by
  cases he : n.exponent with
  | none =>
    rw [he] at hc
    cases hc
  | some e =>
    rw [he] at hc
    rcases List.mem_cons.mp hc with rfl | hc
    · rfl
    · rcases List.mem_cons.mp hc with rfl | hc
      · cases e.1 <;> rfl
      · exact isNumeralChar_of_isDigit (h.exponent e he c hc)

theorem WellFormed.isNumeralChar_of_mem (h : n.WellFormed) {c : Char} (hc : c ∈ n.chars) :
    Lexer.isNumeralChar c = true := by
  rw [chars_eq, tailChars] at hc
  rcases List.mem_append.mp hc with hc | hc
  · split at hc
    · obtain rfl : c = '-' := List.mem_singleton.mp hc
      rfl
    · cases hc
  rcases List.mem_append.mp hc with hc | hc
  · exact isNumeralChar_of_isDigit (h.whole c hc)
  rcases List.mem_append.mp hc with hc | hc
  · split at hc
    · cases hc
    · rcases List.mem_cons.mp hc with rfl | hc
      · rfl
      · exact isNumeralChar_of_isDigit (h.fraction c hc)
  · exact h.isNumeralChar_of_mem_exponent hc

end Numeral

namespace Lexer

/-- A digit or a minus sign begins a numeral. -/
theorem begin?_numeral (m : Lexer) {c : Char} (h : c.isDigit = true ∨ c = '-') :
    m.begin? c = some { m with state := .numeral [c] } := by
  rcases h with hdigit | rfl
  · have ne : ∀ d : Char, d.isDigit = false → c ≠ d := by
      rintro d hd rfl
      rw [hdigit] at hd
      cases hd
    simp [begin?, isBlank, hdigit, ne ' ' rfl, ne '\t' rfl, ne '\n' rfl, ne '\r' rfl, ne '[' rfl,
      ne ']' rfl, ne '\x7b' rfl, ne '\x7d' rfl, ne ':' rfl, ne ',' rfl, ne '"' rfl]
  · rfl

/-- The characters of a numeral are collected. -/
theorem run?_numeral {cs ds : List Char} (h : ∀ c ∈ ds, isNumeralChar c = true)
    (before : List Lexeme) :
    run? ⟨.numeral cs, before⟩ ds = some ⟨.numeral (ds.reverse ++ cs), before⟩ := by
  induction ds generalizing cs with
  | nil => rfl
  | cons d ds ih =>
    have step : step? ⟨.numeral cs, before⟩ d = some ⟨.numeral (d :: cs), before⟩ := by
      simp [step?, h d List.mem_cons_self]
    rw [run?_cons_of_step? step, ih fun c hc => h c (List.mem_cons_of_mem d hc),
      List.reverse_cons, List.append_assoc]
    rfl

end Lexer

theorem Numeral.WellFormed.spells {n : Numeral} (h : n.WellFormed) :
    Spells (scalarText (.num n)).toList [.scalar (.num n)] := by
  intro before
  obtain ⟨c, cs, hchars, hfirst⟩ := h.chars_eq_cons
  have hrest : ∀ d ∈ cs, Lexer.isNumeralChar d = true := fun d hd =>
    h.isNumeralChar_of_mem (by rw [hchars]; exact List.mem_cons_of_mem c hd)
  have hopen : Lexer.step? ⟨.between, before⟩ c = some ⟨.numeral [c], before⟩ :=
    Lexer.begin?_numeral ⟨.between, before⟩ hfirst
  refine ⟨⟨.numeral n.chars.reverse, before⟩, ?_, ?_⟩
  · rw [scalarText, String.toList_ofList, hchars, Lexer.run?_cons_of_step? hopen,
      Lexer.run?_numeral hrest, List.reverse_cons]
  · simp [Lexer.finish?, h.ofChars?_chars, Lexer.push]

/-! ### Strings -/

/-- A control character is escaped by two zeros and two digits. -/
theorem unitDigits_eq : ∀ n < 32,
    List.replicate (4 - (Nat.toDigits 16 n).length) '0' ++ Nat.toDigits 16 n =
      ['0', '0', (n / 16).digitChar, (n % 16).digitChar] := by
  decide

theorem hexValue?_digitChar : ∀ d < 16, Text.hexValue? d.digitChar = some d := by
  decide

namespace Lexer

variable (p : PartialString) (before : List Lexeme)

/-- An escape by code unit has four digits. -/
theorem run?_unit {a b c d : Char} {i j k l : Nat} (ha : Text.hexValue? a = some i)
    (hb : Text.hexValue? b = some j) (hc : Text.hexValue? c = some k)
    (hd : Text.hexValue? d = some l) :
    run? ⟨.unit p 0 4, before⟩ [a, b, c, d] =
      some ⟨.string (p.pushUnit (16 * (16 * (16 * i + j) + k) + l)), before⟩ := by
  simp [run?_cons, step?, ha, hb, hc, hd]

/-- **A character of a string is read back**, whether it is escaped or not. -/
theorem run?_stringChar (c : Char) :
    run? ⟨.string p, before⟩ (stringChar c) = some ⟨.string (p.push c), before⟩ := by
  unfold stringChar
  split_ifs with hquote hbackslash hb ht hn hf hr hcontrol
  · subst hquote; rfl
  · subst hbackslash; rfl
  · subst hb; rfl
  · subst ht; rfl
  · subst hn; rfl
  · subst hf; rfl
  · subst hr; rfl
  · -- the escape names the code unit of the character
    have hhigh := hexValue?_digitChar (c.toNat / 16) (by omega)
    have hlow := hexValue?_digitChar (c.toNat % 16) (by omega)
    have hnat : 16 * (16 * (16 * 0 + 0) + c.toNat / 16) + c.toNat % 16 = c.toNat := by omega
    have hunit : p.pushUnit c.toNat = p.push c := by
      rw [PartialString.pushUnit, if_neg (by omega), if_neg (by omega), Char.ofNat_toNat]
    have hzero : Text.hexValue? '0' = some 0 := rfl
    have hdigits := run?_unit p before hzero hzero hhigh hlow
    rw [hnat, hunit, ← unitDigits_eq c.toNat hcontrol] at hdigits
    exact hdigits
  · simp [run?_cons, step?, hquote, hbackslash, hcontrol]

theorem run?_stringChars (cs acc : List Char) :
    run? ⟨.string ⟨acc, none, false⟩, before⟩ (cs.flatMap stringChar) =
      some ⟨.string ⟨cs.reverse ++ acc, none, false⟩, before⟩ := by
  induction cs generalizing acc with
  | nil => rfl
  | cons c cs ih =>
    rw [List.flatMap_cons, run?_append, run?_stringChar, Option.bind_some]
    exact (ih (c :: acc)).trans (by rw [List.reverse_cons, List.append_assoc]; rfl)

end Lexer

/-- **A string in quotation marks is read back.** -/
theorem closes_stringText (s : String) : Closes (stringText s).toList [.scalar (.str s)] := by
  intro before
  have hopen : Lexer.step? ⟨.between, before⟩ '"' = some ⟨.string ⟨[], none, false⟩, before⟩ := rfl
  rw [stringText, String.toList_ofList, List.cons_append, Lexer.run?_cons_of_step? hopen,
    Lexer.run?_append, Lexer.run?_stringChars, Option.bind_some]
  simp [Lexer.run?_cons, Lexer.step?, Lexer.push, PartialString.toJson]

end Searchbar.Json
