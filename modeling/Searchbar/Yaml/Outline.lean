import Searchbar.Yaml.Token

/-!
# The outline of a YAML text

A block of YAML is as far indented as its first line, and a key needs no sign of its own: that a
scalar was a key is only known when the colon behind it is met. The **outline** is what is known
after a part of the text: its tokens, the indentation of the open blocks, and for every open
bracket the token that may turn out to be a key. When the colon comes, the marks for the key, and
for the mapping if one starts here, are put in front of that token.

* `tokens?` are the tokens of a text, with all marks.
-/

namespace Searchbar.Yaml

open Text (apostrophe)

/-- **A token that may be a key**: where it is among the tokens and in the text, and whether the text
makes no sense unless it is a key. -/
structure PossibleKey where
  token : Nat
  required : Bool
  index : Nat
  line : Nat
  column : Nat

/-- **The outline of a part of a text.** -/
structure Outline where
  cursor : Cursor
  tokens : Array Token := #[]
  /-- The column of the innermost block, and of those around it. -/
  indent : Int := -1
  indents : List Int := []
  /-- The possible key of the innermost bracket, and of those around it. The last one belongs to the
  text outside all brackets. -/
  key : Option PossibleKey := none
  keys : List (Option PossibleKey) := []
  /-- Whether a key may start here. -/
  keyAllowed : Bool := true

namespace Outline

/-- Whether the place is inside brackets. -/
def inFlow (o : Outline) : Bool := !o.keys.isEmpty

/-- The column of the place. -/
def column (o : Outline) : Int := o.cursor.column

/-- One more token, and the place behind it. -/
def push (o : Outline) (t : Token) (p : Cursor) : Outline :=
  { o with tokens := o.tokens.push t, cursor := p }

/-- A token put in front of the one at place `n`. -/
def insertAt (o : Outline) (n : Nat) (t : Token) : Outline :=
  { o with tokens := o.tokens.extract 0 n ++ #[t] ++ o.tokens.extract n o.tokens.size }

/-! ### Blocks -/

/-- The blocks that start to the right of a column end. -/
def closeBlocks (column : Int) : List Int → Outline → Outline
  | [], o => o
  | outer :: rest, o =>
    if column < o.indent then
      closeBlocks column rest
        { o with tokens := o.tokens.push .blockEnd, indent := outer, indents := rest }
    else o

/-- The end of the blocks that start to the right of a column. Brackets know no indentation. -/
def unindent (o : Outline) (column : Int) : Outline :=
  if o.inFlow then o else closeBlocks column o.indents o

/-- The start of a block at a column, if it is to the right of the block around it. The mark stands
before the token at place `n`. -/
def openBlock (o : Outline) (column : Int) (n : Nat) (mark : Token) : Outline :=
  if !o.inFlow && o.indent < column then
    { o.insertAt n mark with indent := column, indents := o.indent :: o.indents }
  else o

/-! ### Keys -/

/-- A possible key that can no longer be one is dropped: a key ends on the line it starts on, and
within 1024 characters. A required one is refused. -/
def staleKey? (p : Cursor) (key : Option PossibleKey) : Option (Option PossibleKey) :=
  match key with
  | some k =>
    if k.line < p.line || k.index + 1024 < p.index then (if k.required then none else some none)
    else some key
  | none => some none

/-- All possible keys that can no longer be one are dropped. -/
def dropStale? (o : Outline) : Option Outline := do
  let key ← staleKey? o.cursor o.key
  let keys ← o.keys.mapM (staleKey? o.cursor)
  return { o with key := key, keys := keys }

/-- The possible key of the innermost bracket is none. -/
def dropKey? (o : Outline) : Option Outline :=
  if o.key.any (·.required) then none else some { o with key := none }

/-- The next token may be a key, if a key may start here. -/
def saveKey? (o : Outline) : Option Outline :=
  if o.keyAllowed then do
    let p := o.cursor
    let required := !o.inFlow && o.indent = o.column
    let o ← o.dropKey?
    return { o with key := some ⟨o.tokens.size, required, p.index, p.line, p.column⟩ }
  else some o

/-! ### Between tokens -/

/-- Past blanks, comments and breaks, and past a byte order mark at the start of a line. A tab is
passed over only where no key may start. -/
def skipGaps : Nat → Outline → Outline
  | 0, o => o
  | fuel + 1, o =>
    let tabs := o.inFlow || !o.keyAllowed
    let p := (o.cursor.skipMark.skipWhile fun c => c = ' ' || (tabs && c = '\t')).skipComment
    let o := { o with cursor := p }
    if p.rest.head?.any isBreak then
      skipGaps fuel
        { o with cursor := p.takeBreak.2, keyAllowed := o.keyAllowed || !o.inFlow }
    else o

/-! ### Tokens -/

/-- A directive or a mark between documents, which end all blocks. -/
def boundary? (o : Outline) (read? : Cursor → Option (Token × Cursor)) : Option Outline := do
  let o ← (o.unindent (-1)).dropKey?
  let (t, p) ← read? o.cursor
  return { o.push t p with keyAllowed := false }

/-- An opening bracket. -/
def openFlow? (o : Outline) (t : Token) : Option Outline := do
  let o ← o.saveKey?
  return { o.push t (o.cursor.skip 1) with key := none, keys := o.key :: o.keys, keyAllowed := true }

/-- A closing bracket. -/
def closeFlow? (o : Outline) (t : Token) : Option Outline := do
  let o ← o.dropKey?
  let o := { o.push t (o.cursor.skip 1) with keyAllowed := false }
  match o.keys with
  | [] => return o
  | key :: keys => return { o with key := key, keys := keys }

/-- A comma inside brackets. -/
def flowEntry? (o : Outline) : Option Outline := do
  let o ← o.dropKey?
  return { o.push .flowEntry (o.cursor.skip 1) with keyAllowed := true }

/-- The dash of an item. Outside brackets it stands where a key could. -/
def blockEntry? (o : Outline) : Option Outline :=
  if !o.inFlow && !o.keyAllowed then none
  else do
    let o ← (o.openBlock o.column o.tokens.size .blockSequence).dropKey?
    return { o.push .blockEntry (o.cursor.skip 1) with keyAllowed := true }

/-- The question mark of a key. -/
def keySign? (o : Outline) : Option Outline :=
  if !o.inFlow && !o.keyAllowed then none
  else do
    let o ← (o.openBlock o.column o.tokens.size .blockMapping).dropKey?
    return { o.push .key (o.cursor.skip 1) with keyAllowed := !o.inFlow }

/-- The colon of a value. If a token is waiting to be a key, it is one now. -/
def valueSign? (o : Outline) : Option Outline :=
  match o.key with
  | some k =>
    let o := (o.insertAt k.token .key).openBlock k.column k.token .blockMapping
    some { o.push .value (o.cursor.skip 1) with key := none, keyAllowed := false }
  | none =>
    if !o.inFlow && !o.keyAllowed then none
    else
      let o := o.openBlock o.column o.tokens.size .blockMapping
      some { o.push .value (o.cursor.skip 1) with keyAllowed := !o.inFlow }

/-- A token that may be a key by itself. -/
def keyToken? (o : Outline) (read? : Cursor → Option (Token × Cursor)) : Option Outline := do
  let o ← o.saveKey?
  let (t, p) ← read? o.cursor
  return { o.push t p with keyAllowed := false }

/-- An alias or an anchor. -/
def named? (o : Outline) (make : String → Token) : Option Outline :=
  o.keyToken? fun p => (anchorName? (p.skip 1)).map fun (name, p) => (make name, p)

/-- A quoted scalar. -/
def quoted? (o : Outline) (style : Style) : Option Outline :=
  o.keyToken? fun p =>
    (quotedFrom? (style = .singleQuoted) p.rest.length (p.skip 1) []).map fun (text, p) =>
      (.scalar (String.ofList text) style, p)

/-- A block scalar, after which a key may start. -/
def block? (o : Outline) (style : Style) : Option Outline := do
  let o ← o.dropKey?
  let (text, p) ← Yaml.block? (style = .literal) o.indent (o.cursor.skip 1)
  return { o.push (.scalar (String.ofList text) style) p with keyAllowed := true }

/-- A plain scalar. If it ends at the end of a line, a key may start behind it. -/
def plain? (o : Outline) : Option Outline := do
  let o ← o.saveKey?
  let p := o.cursor
  let (text, gap, p) ← plainFrom? o.inFlow (o.indent + 1).toNat (p.rest.length + 1) p [] {}
  return { o.push (.scalar (String.ofList text) .plain) p with keyAllowed := gap.broken }

/-- The signs that start something else than a plain scalar. -/
def isIndicator (c : Char) : Bool :=
  ['-', '?', ':', ',', '[', ']', '\x7b', '\x7d', '#', '&', '*', '!', '|', '>', apostrophe, '"', '%',
    '@', '\x60'].contains c

/-- Whether a plain scalar may start here. Some signs may start one if no blank follows. -/
def startsPlain (o : Outline) (c : Char) : Bool :=
  let p := o.cursor
  !(isGap c || isIndicator c) || (c = '-' && !(p.rest.drop 1).head?.any isBlank) ||
    (!o.inFlow && (c = '?' || c = ':') && !p.seesGap 1)

/-- **The next token**, which starts with `c`. -/
def token? (o : Outline) (c : Char) : Option Outline :=
  let p := o.cursor
  let gapNext := p.seesGap 1
  if p.column = 0 && c = '%' then o.boundary? directive?
  else if p.seesDocumentMark then
    o.boundary? fun p => some (if c = '-' then .documentStart else .documentEnd, p.skip 3)
  else if c = '[' then o.openFlow? .openSequence
  else if c = '\x7b' then o.openFlow? .openMapping
  else if c = ']' then o.closeFlow? .closeSequence
  else if c = '\x7d' then o.closeFlow? .closeMapping
  else if c = ',' then o.flowEntry?
  else if c = '-' && gapNext then o.blockEntry?
  else if c = '?' && (o.inFlow || gapNext) then o.keySign?
  else if c = ':' && (o.inFlow || gapNext) then o.valueSign?
  else if c = '*' then o.named? .aliasOf
  else if c = '&' then o.named? .anchor
  else if c = '!' then o.keyToken? (tagAt? o.inFlow)
  else if c = '|' && !o.inFlow then o.block? .literal
  else if c = '>' && !o.inFlow then o.block? .folded
  else if c = apostrophe then o.quoted? .singleQuoted
  else if c = '"' then o.quoted? .doubleQuoted
  else if o.startsPlain c then o.plain?
  else none

/-- The outline of the rest of the text. At its end all blocks end. -/
def finish? : Nat → Outline → Option Outline
  | 0, _ => none
  | fuel + 1, o => do
    let o ← (skipGaps (o.cursor.rest.length + 1) o).dropStale?
    match o.cursor.rest with
    | [] => (o.unindent (-1)).dropKey?
    | c :: _ => finish? fuel (← (o.unindent o.column).token? c)

end Outline

/-- **The tokens of a text.** Every token takes at least one character, so there are not more tokens to
read than characters. -/
def tokens? (text : String) : Option (List Token) :=
  let cs := text.toList
  if cs.all isAllowed then
    (Outline.finish? (cs.length + 1) { cursor := { rest := cs } }).map fun o => o.tokens.toList
  else none

end Searchbar.Yaml
