import Searchbar.Text.CodePoint

/-!
# A place in a YAML text

YAML is read with an eye on lines and columns. A **cursor** is the rest of the text together with
its place. The characters are those of the format: the blanks are space and tab, and five
characters break lines, of which a carriage return and a line feed together are one break.
-/

namespace Searchbar.Yaml

/-- A space or a tab. -/
def isBlank (c : Char) : Bool := c = ' ' || c = '\t'

/-- The two Unicode separators, which stay what they are when lines are joined. -/
def isSeparator (c : Char) : Bool := c.toNat = 0x2028 || c.toNat = 0x2029

/-- A character that breaks a line. -/
def isBreak (c : Char) : Bool := c = '\n' || c = '\r' || c.toNat = 0x85 || isSeparator c

/-- A blank or a break. -/
def isGap (c : Char) : Bool := isBlank c || isBreak c

/-- The characters of anchors and of the names of directives and tag handles. -/
def isWord (c : Char) : Bool := c.isAlphanum || c = '_' || c = '-'

/-- The characters that may stand in a text at all. -/
def isAllowed (c : Char) : Bool :=
  let n := c.toNat
  n = 0x09 || n = 0x0A || n = 0x0D || (0x20 ≤ n && n ≤ 0x7E) || n = 0x85 ||
    (0xA0 ≤ n && n ≤ 0xFFFD) || 0x10000 ≤ n

/-- **A place in a text**: what follows it, how many characters are before it, and its line and
column. -/
structure Cursor where
  rest : List Char
  index : Nat := 0
  line : Nat := 0
  column : Nat := 0

/-- Whether a blank, a break or the end comes first. -/
def startsGap : List Char → Bool
  | [] => true
  | c :: _ => isGap c

/-- Whether a break or the end comes first. -/
def startsBreak : List Char → Bool
  | [] => true
  | c :: _ => isBreak c

namespace Cursor

/-- Whether the given character is here. -/
def sees (p : Cursor) (c : Char) : Bool := p.rest.head? == some c

/-- Whether a blank, a break or the end is `k` places ahead. -/
def seesGap (p : Cursor) (k : Nat) : Bool := startsGap (p.rest.drop k)

/-- Past `n` characters of the line. -/
def skip (p : Cursor) (n : Nat) : Cursor := ⟨p.rest.drop n, p.index + n, p.line, p.column + n⟩

/-- The characters of the line that satisfy `f`, and the place behind them. -/
def takeWhile (p : Cursor) (f : Char → Bool) : List Char × Cursor :=
  let cs := p.rest.takeWhile f
  (cs, p.skip cs.length)

/-- Past the characters of the line that satisfy `f`. -/
def skipWhile (p : Cursor) (f : Char → Bool) : Cursor := (p.takeWhile f).2

/-- The break at the cursor, as the line feed that stands for it or as a separator, and the start of
the next line. -/
def takeBreak (p : Cursor) : List Char × Cursor :=
  match p.rest with
  | '\r' :: '\n' :: rest => (['\n'], ⟨rest, p.index + 2, p.line + 1, 0⟩)
  | c :: rest =>
    if isBreak c then
      ([if isSeparator c then c else '\n'], ⟨rest, p.index + 1, p.line + 1, 0⟩)
    else ([], p)
  | [] => ([], p)

/-- Whether one of the two marks between documents is here, at the start of a line. -/
def seesDocumentMark (p : Cursor) : Bool :=
  p.column = 0 && (p.rest.take 3 == ['-', '-', '-'] || p.rest.take 3 == ['.', '.', '.']) && p.seesGap 3

/-- Past a byte order mark at the start of a line, which takes up a column. -/
def skipMark (p : Cursor) : Cursor :=
  if p.column = 0 && p.rest.head?.any Text.isByteOrderMark then p.skip 1 else p

/-- Past a comment, to the end of the line. -/
def skipComment (p : Cursor) : Cursor :=
  if p.sees '#' then p.skipWhile fun c => !isBreak c else p

end Cursor

end Searchbar.Yaml
