import Searchbar.Number.Decimal
import Searchbar.Yaml.Scalar

/-!
# Tokens of YAML

The **tokens** of a text are its scalars, the properties that may stand before a node, the signs
between nodes, and marks for the start and end of blocks, which the text only shows by its
indentation. This module has the tokens that can be read where they stand; `Outline` adds the
marks.
-/

namespace Searchbar.Yaml

open Text (apostrophe hexNumber?)

/-- **The bytes of a tag**, or of a part of one. Escapes name single bytes, which need not be those of
a text. -/
abbrev TagBytes := List UInt8

/-- The bytes of a text. -/
def TagBytes.ofText (text : String) : TagBytes := text.toUTF8.toList

/-- **A token.** -/
inductive Token where
  | version (major minor : Nat)
  | tagHandle (handle : String) (start : TagBytes)
  | documentStart
  | documentEnd
  | blockSequence
  | blockMapping
  | blockEnd
  | openSequence
  | closeSequence
  | openMapping
  | closeMapping
  | blockEntry
  | flowEntry
  | key
  | value
  | aliasOf (name : String)
  | anchor (name : String)
  | tag (handle : String) (suffix : TagBytes)
  | scalar (text : String) (style : Style)
  deriving DecidableEq

/-! ### Anchors and tags -/

/-- The characters that may follow an anchor besides blanks and breaks. -/
def endsAnchor (c : Char) : Bool :=
  c = '?' || c = ':' || c = ',' || c = ']' || c = '\x7d' || c = '%' || c = '@' || c = '\x60'

/-- The name of an anchor or alias, from behind its sign on. -/
def anchorName? (p : Cursor) : Option (String × Cursor) :=
  let (name, p) := p.takeWhile isWord
  if name.isEmpty || !(p.seesGap 0 || p.rest.head?.any endsAnchor) then none
  else some (String.ofList name, p)

/-- The characters of a tag besides those of words. -/
def isTagSign (c : Char) : Bool :=
  [';', '/', '?', ':', '@', '&', '=', '+', '$', '.', '!', '~', '*', apostrophe, '(', ')'].contains c

/-- The byte that a percent escape names. -/
def percentByte? : List Char → Option Nat
  | '%' :: a :: b :: _ => hexNumber? [a, b]
  | _ => none

/-- How many bytes a character has by the first of them. -/
def byteCount? (first : Nat) : Option Nat :=
  if first < 0x80 then some 1
  else if 0xC0 ≤ first && first < 0xE0 then some 2
  else if 0xE0 ≤ first && first < 0xF0 then some 3
  else if 0xF0 ≤ first && first < 0xF8 then some 4
  else none

/-- The bytes of one character that percent escapes name: as many as the first one says, and all but
the first are bytes that go on. Which character it is does not matter. -/
def percentBytes? (cs : List Char) : Option TagBytes := do
  let first ← percentByte? cs
  let size ← byteCount? first
  let others ← (List.range (size - 1)).mapM fun i =>
    (percentByte? (cs.drop (3 * (i + 1)))).filter fun b => 0x80 ≤ b && b < 0xC0
  return (first :: others).map Nat.toUInt8

/-- The bytes of a tag from the cursor on. In its full form a tag may have commas and brackets. -/
def tagBytes? (full : Bool) : Nat → Cursor → TagBytes → Option (TagBytes × Cursor)
  | 0, p, bytes => some (bytes, p)
  | fuel + 1, p, bytes =>
    match p.rest with
    | [] => some (bytes, p)
    | c :: _ =>
      if c = '%' then do
        let more ← percentBytes? p.rest
        tagBytes? full fuel (p.skip (3 * more.length)) (bytes ++ more)
      else if isWord c || isTagSign c || (full && (c = ',' || c = '[' || c = ']')) then
        tagBytes? full fuel (p.skip 1) (bytes ++ [c.toNat.toUInt8])
      else some (bytes, p)

/-- The bytes in front of the first zero, which ends a tag. -/
def TagBytes.untilZero (bytes : TagBytes) : TagBytes := bytes.takeWhile (· ≠ 0)

/-- A tag handle from its exclamation mark on: the mark, a word, and a second mark if there is
one. -/
def tagHandleAt (p : Cursor) : List Char × Cursor :=
  let (word, p) := (p.skip 1).takeWhile isWord
  if p.sees '!' then ('!' :: word ++ ['!'], p.skip 1) else ('!' :: word, p)

/-- **A tag** from its exclamation mark on. Inside brackets it may end at a comma. -/
def tagAt? (flow : Bool) (p : Cursor) : Option (Token × Cursor) := do
  let size := p.rest.length
  let (token, p) ←
    if (p.skip 1).sees '<' then do
      let (bytes, p) ← tagBytes? true size (p.skip 2) []
      if bytes.isEmpty || !p.sees '>' then none
      else some (Token.tag "" bytes.untilZero, p.skip 1)
    else do
      let (handle, q) := tagHandleAt p
      if 1 < handle.length && handle.getLast? = some '!' then
        let (bytes, q) ← tagBytes? false size q []
        if bytes.isEmpty then none
        else some (Token.tag (String.ofList handle) bytes.untilZero, q)
      else
        let (bytes, q) ← tagBytes? false size q (TagBytes.ofText (String.ofList (handle.drop 1)))
        if bytes.untilZero.isEmpty then some (Token.tag "" (TagBytes.ofText "!"), q)
        else some (Token.tag "!" bytes.untilZero, q)
  if p.seesGap 0 || (flow && p.sees ',') then some (token, p) else none

/-! ### Directives -/

/-- A number of at most nine digits. -/
def versionNumber? (p : Cursor) : Option (Nat × Cursor) :=
  let (ds, p) := p.takeWhile Char.isDigit
  if ds.isEmpty || 9 < ds.length then none
  else some (Decimal.ofDigits ds, p)

/-- What a directive of the given name says, from behind the name on. -/
def directiveBody? (name : String) (p : Cursor) : Option (Token × Cursor) :=
  let p := p.skipWhile isBlank
  if name = "YAML" then do
    let (major, p) ← versionNumber? p
    if !p.sees '.' then none
    else
      let (minor, p) ← versionNumber? (p.skip 1)
      return (.version major minor, p)
  else if name = "TAG" then do
    if !p.sees '!' then none
    else
      let (handle, p) := tagHandleAt p
      if (1 < handle.length && handle.getLast? ≠ some '!') || !p.rest.head?.any isBlank then none
      else
        let (bytes, p) ← tagBytes? true p.rest.length (p.skipWhile isBlank) []
        if bytes.isEmpty || !p.seesGap 0 then none
        else return (.tagHandle (String.ofList handle) bytes.untilZero, p)
  else none

/-- **A directive** from its percent sign on, with the rest of its line. -/
def directive? (p : Cursor) : Option (Token × Cursor) := do
  let (name, p) := (p.skip 1).takeWhile isWord
  if name.isEmpty || !p.seesGap 0 then none
  else
    let (token, p) ← directiveBody? (String.ofList name) p
    let p := (p.skipWhile isBlank).skipComment
    if startsBreak p.rest then some (token, p.takeBreak.2) else none

end Searchbar.Yaml
