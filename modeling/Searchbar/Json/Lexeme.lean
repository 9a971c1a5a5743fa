import Searchbar.Json.Basic
import Searchbar.Text.CodePoint

/-!
# The lexemes of JSON

A JSON text is cut into **lexemes**: the six signs of punctuation, and the values that hold no
other values. A machine goes over the text one character at a time (`Lexer.step`); it refuses a
character that no JSON text has at that place.

Inside a string an escape may give one half of a surrogate pair. The machine keeps an upper half
until the lower half follows; a half that stays alone spoils the string, which then spells no text.
-/

namespace Searchbar.Json

/-- **A lexeme.** -/
inductive Lexeme where
  | beginArray
  | endArray
  | beginObject
  | endObject
  | colon
  | comma
  | scalar (j : Json)

/-! ### Numerals -/

/-- Digits, of which there is at least one. -/
def digits? (cs : List Char) : Option (List Char) :=
  if !cs.isEmpty && cs.all Char.isDigit then some cs else none

namespace Numeral

/-- The exponent of a numeral, from the mark on. -/
def exponentOfChars? : List Char → Option (Option (Bool × List Char))
  | [] => some none
  | mark :: rest =>
    if mark = 'e' ∨ mark = 'E' then
      match rest with
      | '-' :: ds => (digits? ds).map fun ds => some (true, ds)
      | '+' :: ds => (digits? ds).map fun ds => some (false, ds)
      | ds => (digits? ds).map fun ds => some (false, ds)
    else none

/-- The rest of a numeral after its digits before the point. -/
def tailOfChars? (negative : Bool) (whole : List Char) : List Char → Option Numeral
  | '.' :: rest => do
    let fraction ← digits? (rest.takeWhile Char.isDigit)
    let exponent ← exponentOfChars? (rest.dropWhile Char.isDigit)
    return ⟨negative, whole, fraction, exponent⟩
  | rest => (exponentOfChars? rest).map fun exponent => ⟨negative, whole, [], exponent⟩

/-- The numeral of a text after its sign. The digits before the point start with zero only if there
is no other digit. -/
def ofUnsigned? (negative : Bool) (cs : List Char) : Option Numeral :=
  match cs.takeWhile Char.isDigit with
  | [] => none
  | '0' :: _ :: _ => none
  | whole => tailOfChars? negative whole (cs.dropWhile Char.isDigit)

/-- **The numeral of a text.** -/
def ofChars? : List Char → Option Numeral
  | '-' :: cs => ofUnsigned? true cs
  | cs => ofUnsigned? false cs

end Numeral

/-! ### Strings -/

/-- The part of a string that has been read: its characters, the latest first, an upper half of a
surrogate pair that waits for the lower one, and whether some half stands alone. -/
structure PartialString where
  chars : List Char := []
  upper : Option Nat := none
  broken : Bool := false

namespace PartialString

/-- One more character. -/
def push (p : PartialString) (c : Char) : PartialString :=
  ⟨c :: p.chars, none, p.broken || p.upper.isSome⟩

/-- One more code unit of sixteen bits. -/
def pushUnit (p : PartialString) (n : Nat) : PartialString :=
  if 0xD800 ≤ n ∧ n < 0xDC00 then ⟨p.chars, some n, p.broken || p.upper.isSome⟩
  else if 0xDC00 ≤ n ∧ n < 0xE000 then
    match p.upper with
    | some u => ⟨Char.ofNat (0x10000 + (u - 0xD800) * 0x400 + (n - 0xDC00)) :: p.chars, none, p.broken⟩
    | none => ⟨p.chars, none, true⟩
  else p.push (Char.ofNat n)

/-- The string that has been read. -/
def toJson (p : PartialString) : Json :=
  if p.broken || p.upper.isSome then .unpaired else .str (String.ofList p.chars.reverse)

end PartialString

/-- The character of a short escape. -/
def shortEscape? (c : Char) : Option Char :=
  if c = '"' then some '"'
  else if c = '\\' then some '\\'
  else if c = '/' then some '/'
  else if c = 'b' then some '\x08'
  else if c = 'f' then some '\x0c'
  else if c = 'n' then some '\n'
  else if c = 'r' then some '\r'
  else if c = 't' then some '\t'
  else none

/-! ### The machine -/

/-- Where the machine stands: between lexemes, or in a numeral, a word, a string, an escape, or an
escape by code unit of which `left` digits are missing. -/
inductive LexState where
  | between
  | numeral (chars : List Char)
  | word (chars : List Char)
  | string (p : PartialString)
  | escape (p : PartialString)
  | unit (p : PartialString) (value left : Nat)

/-- The machine: where it stands, and the lexemes so far, the latest first. -/
structure Lexer where
  state : LexState := .between
  lexemes : List Lexeme := []

namespace Lexer

/-- A complete lexeme. -/
def push (m : Lexer) (l : Lexeme) : Lexer := ⟨.between, l :: m.lexemes⟩

/-- The blanks of JSON. -/
def isBlank (c : Char) : Bool := c = ' ' || c = '\t' || c = '\n' || c = '\r'

/-- The characters of numerals. -/
def isNumeralChar (c : Char) : Bool :=
  c.isDigit || c = '-' || c = '+' || c = '.' || c = 'e' || c = 'E'

/-- The value of a word. -/
def wordValue? (cs : List Char) : Option Json :=
  let w := String.ofList cs
  if w = "null" then some .null
  else if w = "true" then some (.bool true)
  else if w = "false" then some (.bool false)
  else none

/-- A character between lexemes. -/
def begin? (m : Lexer) (c : Char) : Option Lexer :=
  if isBlank c then some m
  else if c = '[' then some (m.push .beginArray)
  else if c = ']' then some (m.push .endArray)
  else if c = '\x7b' then some (m.push .beginObject)
  else if c = '\x7d' then some (m.push .endObject)
  else if c = ':' then some (m.push .colon)
  else if c = ',' then some (m.push .comma)
  else if c = '"' then some { m with state := .string {} }
  else if c.isDigit || c = '-' then some { m with state := .numeral [c] }
  else if c.isLower then some { m with state := .word [c] }
  else none

/-- The end of a numeral or word, whose characters are held latest first. -/
def finish? (m : Lexer) : Option Lexer :=
  match m.state with
  | .between => some m
  | .numeral cs => (Numeral.ofChars? cs.reverse).map fun n => m.push (.scalar (.num n))
  | .word cs => (wordValue? cs.reverse).map fun j => m.push (.scalar j)
  | _ => none

/-- **One character.** -/
def step? (m : Lexer) (c : Char) : Option Lexer :=
  match m.state with
  | .between => m.begin? c
  | .numeral cs =>
    if isNumeralChar c then some { m with state := .numeral (c :: cs) }
    else m.finish?.bind fun m => m.begin? c
  | .word cs =>
    if c.isLower then some { m with state := .word (c :: cs) }
    else m.finish?.bind fun m => m.begin? c
  | .string p =>
    if c = '"' then some (m.push (.scalar p.toJson))
    else if c = '\\' then some { m with state := .escape p }
    else if c.toNat < 0x20 then none
    else some { m with state := .string (p.push c) }
  | .escape p =>
    if c = 'u' then some { m with state := .unit p 0 4 }
    else (shortEscape? c).map fun d => { m with state := .string (p.push d) }
  | .unit p value left =>
    (Text.hexValue? c).map fun d =>
      let value := 16 * value + d
      if left ≤ 1 then { m with state := .string (p.pushUnit value) }
      else { m with state := .unit p value (left - 1) }

end Lexer

/-- **The lexemes of a text**, if the text is made of lexemes. -/
def lexemes? (text : String) : Option (List Lexeme) := do
  let m ← text.toList.foldlM Lexer.step? {}
  let m ← m.finish?
  return m.lexemes.reverse

end Searchbar.Json
