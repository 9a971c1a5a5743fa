import Searchbar.Yaml.Cursor

/-!
# Scalars of YAML

A scalar is a text, written in one of five styles. Plain and quoted scalars may run over several
lines, which are joined: one break becomes a space, and of several breaks the first is dropped. A
block scalar keeps its lines, or joins those that are not indented further, and the header says
what becomes of the breaks at its end.
-/

namespace Searchbar.Yaml

open Text (apostrophe charOfHex?)

/-- **How a scalar is written.** -/
inductive Style where
  | plain
  | singleQuoted
  | doubleQuoted
  | literal
  | folded
  deriving DecidableEq

/-! ### Blanks and breaks inside a scalar -/

/-- **Blanks and breaks between two words of a scalar**: the blanks, as long as no break has come,
the first break, and the breaks after it. -/
structure Gap where
  blanks : List Char := []
  first : List Char := []
  more : List Char := []
  broken : Bool := false

namespace Gap

/-- What a gap becomes when the scalar goes on. -/
def joined (g : Gap) : List Char :=
  if !g.broken then g.blanks
  else if g.first = ['\n'] then (if g.more.isEmpty then [' '] else g.more)
  else g.first ++ g.more

/-- The gap from the cursor on. After a break, a tab left of the column `margin` is refused. -/
def read? (margin : Nat) : Nat → Cursor → Gap → Option (Gap × Cursor)
  | 0, p, g => some (g, p)
  | fuel + 1, p, g =>
    match p.rest with
    | [] => some (g, p)
    | c :: _ =>
      if isBlank c then
        if g.broken && c = '\t' && p.column < margin then none
        else read? margin fuel (p.skip 1) (if g.broken then g else { g with blanks := g.blanks ++ [c] })
      else if isBreak c then
        let (b, next) := p.takeBreak
        read? margin fuel next <|
          if g.broken then { g with more := g.more ++ b }
          else { g with blanks := [], first := b, broken := true }
      else some (g, p)

end Gap

/-! ### Plain scalars -/

/-- The signs that end a plain scalar inside brackets. -/
def isFlowSign (c : Char) : Bool :=
  c = ',' || c = '[' || c = ']' || c = '\x7b' || c = '\x7d'

/-- How many characters a plain scalar has before the next gap or its end. Inside brackets a colon
that touches a bracket is refused. -/
def plainLength? (flow : Bool) : List Char → Option Nat
  | [] => some 0
  | c :: rest =>
    if isGap c then some 0
    else if flow && c = ':' && rest.head?.any fun d => d = '?' || isFlowSign d then none
    else if (c = ':' && startsGap rest) || (flow && isFlowSign c) then some 0
    else (plainLength? flow rest).map (· + 1)

/-- The rest of a plain scalar whose lines start at the column `margin` or further right: its text,
the gap behind it, and the place behind the gap. -/
def plainFrom? (flow : Bool) (margin : Nat) :
    Nat → Cursor → List Char → Gap → Option (List Char × Gap × Cursor)
  | 0, p, text, gap => some (text, gap, p)
  | fuel + 1, p, text, gap =>
    if p.seesDocumentMark || p.sees '#' then some (text, gap, p)
    else do
      let n ← plainLength? flow p.rest
      let (text, gap) := if n = 0 then (text, gap) else (text ++ gap.joined ++ p.rest.take n, {})
      let p := p.skip n
      if p.rest.head?.any isGap then
        let (gap, p) ← gap.read? margin (p.rest.length + 1) p
        if !flow && p.column < margin then some (text, gap, p)
        else plainFrom? flow margin fuel p text gap
      else some (text, gap, p)

/-! ### Quoted scalars -/

/-- The character of an escape, by what follows the backslash, and how many characters that is. -/
def escape? : List Char → Option (Char × Nat)
  | [] => none
  | c :: rest =>
    let single (n : Nat) : Option (Char × Nat) := some (Char.ofNat n, 1)
    let numbered (size : Nat) : Option (Char × Nat) :=
      (charOfHex? size rest).map fun d => (d, size + 1)
    if c = '0' then single 0x00
    else if c = 'a' then single 0x07
    else if c = 'b' then single 0x08
    else if c = 't' || c = '\t' then single 0x09
    else if c = 'n' then single 0x0A
    else if c = 'v' then single 0x0B
    else if c = 'f' then single 0x0C
    else if c = 'r' then single 0x0D
    else if c = 'e' then single 0x1B
    else if c = ' ' then single 0x20
    else if c = '"' then single 0x22
    else if c = '/' then single 0x2F
    else if c = '\\' then single 0x5C
    else if c = 'N' then single 0x85
    else if c = '_' then single 0xA0
    else if c = 'L' then single 0x2028
    else if c = 'P' then single 0x2029
    else if c = 'x' then numbered 2
    else if c = 'u' then numbered 4
    else if c = 'U' then numbered 8
    else none

/-- The characters of a quoted scalar up to the next gap, the closing mark or an escaped break; the
flag says that it was an escaped break. -/
def quotedRun? (single : Bool) :
    Nat → Cursor → List Char → Option (List Char × Cursor × Bool)
  | 0, p, text => some (text, p, false)
  | fuel + 1, p, text =>
    match p.rest with
    | [] => some (text, p, false)
    | c :: rest =>
      if isGap c then some (text, p, false)
      else if single then
        if c = apostrophe then
          if rest.head? = some apostrophe then quotedRun? single fuel (p.skip 2) (text ++ [c])
          else some (text, p, false)
        else quotedRun? single fuel (p.skip 1) (text ++ [c])
      else if c = '"' then some (text, p, false)
      else if c = '\\' then
        if rest.head?.any isBreak then some (text, (p.skip 1).takeBreak.2, true)
        else do
          let (d, n) ← escape? rest
          quotedRun? single fuel (p.skip (n + 1)) (text ++ [d])
      else quotedRun? single fuel (p.skip 1) (text ++ [c])

/-- The rest of a quoted scalar after its opening mark, and the place behind its closing mark. -/
def quotedFrom? (single : Bool) : Nat → Cursor → List Char → Option (List Char × Cursor)
  | 0, _, _ => none
  | fuel + 1, p, text =>
    if p.seesDocumentMark || p.rest.isEmpty then none
    else do
      let (text, p, escapedBreak) ← quotedRun? single (p.rest.length + 1) p text
      if p.sees (if single then apostrophe else '"') then some (text, p.skip 1)
      else
        let (gap, p) ← Gap.read? 0 (p.rest.length + 1) p { broken := escapedBreak }
        quotedFrom? single fuel p (text ++ gap.joined)

/-! ### Block scalars -/

/-- What becomes of the breaks at the end of a block scalar: all are dropped, the first is kept, or
all are kept. -/
inductive Chomping where
  | strip
  | clip
  | keep
  deriving DecidableEq

/-- The header of a block scalar: its chomping and the indentation it states, if it does. -/
def blockHeader? (p : Cursor) : Option (Chomping × Nat × Cursor) :=
  let chomping (p : Cursor) : Chomping × Cursor :=
    if p.sees '+' then (.keep, p.skip 1)
    else if p.sees '-' then (.strip, p.skip 1)
    else (.clip, p)
  let level? (p : Cursor) : Option (Nat × Cursor) :=
    match p.rest.head? with
    | some c =>
      if c = '0' then none
      else if c.isDigit then some (c.toNat - '0'.toNat, p.skip 1)
      else some (0, p)
    | none => some (0, p)
  if p.sees '+' || p.sees '-' then do
    let (c, p) := chomping p
    let (n, p) ← level? p
    return (c, n, p)
  else do
    let (n, p) ← level? p
    let (c, p) := if n = 0 then (.clip, p) else chomping p
    return (c, n, p)

/-- The empty lines before a line of a block scalar, and the column at which its lines start: `indent`
if that is known, and else the column of the first line that is not empty, which is at least
`least`. -/
def blockBreaks? (least : Nat) :
    Nat → Cursor → (indent widest : Nat) → List Char → Option (Nat × List Char × Cursor)
  | 0, _, _, _, _ => none
  | fuel + 1, p, indent, widest, breaks =>
    let spaces := (p.rest.takeWhile (· = ' ')).length
    let p := p.skip (if indent = 0 then spaces else min spaces (indent - p.column))
    let widest := max widest p.column
    if (indent = 0 || p.column < indent) && p.sees '\t' then none
    else if p.rest.head?.any isBreak then
      let (b, next) := p.takeBreak
      blockBreaks? least fuel next indent widest (breaks ++ b)
    else some (if indent = 0 then max widest least else indent, breaks, p)

/-- **The lines of a block scalar** that have been read: the text, the break after the last line, the
empty lines after it, and whether that line started with a blank. -/
structure BlockText where
  text : List Char := []
  lastBreak : List Char := []
  breaks : List Char := []
  leadingBlank : Bool := false

namespace BlockText

/-- The text with all breaks so far put in front of the next line. -/
def joined (b : BlockText) (literal nextBlank : Bool) : List Char :=
  let join :=
    if !literal && b.lastBreak = ['\n'] && !b.leadingBlank && !nextBlank then
      (if b.breaks.isEmpty then [' '] else [])
    else b.lastBreak
  b.text ++ join ++ b.breaks

/-- The text at the end of the scalar. -/
def finished (b : BlockText) : Chomping → List Char
  | .strip => b.text
  | .clip => b.text ++ b.lastBreak
  | .keep => b.text ++ b.lastBreak ++ b.breaks

end BlockText

/-- The lines of a block scalar from the cursor on. -/
def blockLines? (literal : Bool) (indent : Nat) :
    Nat → Cursor → BlockText → Option (BlockText × Cursor)
  | 0, p, b => some (b, p)
  | fuel + 1, p, b =>
    if p.column = indent && !p.rest.isEmpty then do
      let blank := p.rest.head?.any isBlank
      let text := b.joined literal blank
      let (line, p) := p.takeWhile fun c => !isBreak c
      let (lastBreak, p) := p.takeBreak
      let (_, breaks, p) ← blockBreaks? 1 (p.rest.length + 1) p indent 0 []
      blockLines? literal indent fuel p ⟨text ++ line, lastBreak, breaks, blank⟩
    else some (b, p)

/-- **A block scalar** from behind its sign on, inside a block whose indentation is `parent`. -/
def block? (literal : Bool) (parent : Int) (p : Cursor) : Option (List Char × Cursor) := do
  let (chomping, stated, p) ← blockHeader? p
  let p := (p.skipWhile isBlank).skipComment
  if !startsBreak p.rest then none
  else
    let p := p.takeBreak.2
    let indent := if stated = 0 then 0 else (max parent 0).toNat + stated
    let least := max (parent + 1).toNat 1
    let (indent, breaks, p) ← blockBreaks? least (p.rest.length + 1) p indent 0 []
    let (b, p) ← blockLines? literal indent (p.rest.length + 1) p { breaks := breaks }
    return (b.finished chomping, p)

end Searchbar.Yaml
