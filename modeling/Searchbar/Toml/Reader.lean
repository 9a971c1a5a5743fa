import Searchbar.Toml.Word

/-!
# Reading TOML

A TOML text is a list of **statements**, each on a line of its own or, where brackets allow it, on
several: a header, a header of a row, or a value for a key. The statements are read first and then
put together.

* `Entries.ofText?` is the table that a text describes.
-/

namespace Searchbar.Toml

open Text (apostrophe charOfHex? isByteOrderMark)

/-! ### Blanks, breaks and comments -/

/-- A space or a tab. -/
def isBlank (c : Char) : Bool := c = ' ' || c = '\t'

/-- The characters that may stand in a comment or a string: all but the controls, of which only the
tab is allowed. -/
def isAllowed (c : Char) : Bool := c = '\t' || (0x20 ≤ c.toNat && c.toNat ≠ 0x7F)

/-- The text without blanks at its start. -/
def skipBlanks (cs : List Char) : List Char := cs.dropWhile isBlank

/-- The text after a break, if it starts with one. -/
def break? : List Char → Option (List Char)
  | '\n' :: rest => some rest
  | '\r' :: '\n' :: rest => some rest
  | _ => none

/-- The text after a comment, if it starts with one. -/
def skipComment (cs : List Char) : List Char :=
  match cs with
  | '#' :: rest => rest.dropWhile isAllowed
  | _ => cs

/-- The text after the rest of a line, which has nothing but blanks and a comment. -/
def lineEnd? (cs : List Char) : Option (List Char) :=
  match skipComment (skipBlanks cs) with
  | [] => some []
  | rest => break? rest

/-- The text without blanks and breaks at its start. -/
def skipEmptyLines : Nat → List Char → List Char
  | 0, cs => cs
  | fuel + 1, cs =>
    let rest := skipBlanks cs
    match break? rest with
    | some next => skipEmptyLines fuel next
    | none => rest

/-- The text without blanks, breaks and comments at its start. -/
def skipLines : Nat → List Char → List Char
  | 0, cs => cs
  | fuel + 1, cs =>
    let rest := skipComment (skipBlanks cs)
    match break? rest with
    | some next => skipLines fuel next
    | none => rest

/-! ### Strings -/

/-- The character of an escape, by what follows the backslash, and the rest. -/
def escape? : List Char → Option (Char × List Char)
  | [] => none
  | c :: rest =>
    let numbered (size : Nat) : Option (Char × List Char) :=
      (charOfHex? size rest).map fun d => (d, rest.drop size)
    if c = 'b' then some ('\x08', rest)
    else if c = 't' then some ('\t', rest)
    else if c = 'n' then some ('\n', rest)
    else if c = 'f' then some ('\x0c', rest)
    else if c = 'r' then some ('\r', rest)
    else if c = '"' then some ('"', rest)
    else if c = '\\' then some ('\\', rest)
    else if c = 'u' then numbered 4
    else if c = 'U' then numbered 8
    else none

/-- The rest of a string on one line, up to the closing mark, and the text behind it. A string in
apostrophes has no escapes. -/
def lineString? (mark : Char) : Nat → List Char → List Char → Option (String × List Char)
  | 0, _, _ => none
  | fuel + 1, text, cs =>
    match cs with
    | [] => none
    | c :: rest =>
      if c = mark then some (String.ofList text, rest)
      else if c = '\\' && mark = '"' then do
        let (d, rest) ← escape? rest
        lineString? mark fuel (text ++ [d]) rest
      else if isAllowed c then lineString? mark fuel (text ++ [c]) rest
      else none

/-- The text after a backslash at the end of a line: the blanks and breaks that follow are left
out. -/
def joinedLine? (cs : List Char) : Option (List Char) :=
  (break? (skipBlanks cs)).map fun rest => skipEmptyLines (rest.length + 1) rest

/-- The rest of a string on several lines, up to the three closing marks, and the text behind them.
One or two marks in front of the closing ones belong to the string. -/
def linesString? (mark : Char) : Nat → List Char → List Char → Option (String × List Char)
  | 0, _, _ => none
  | fuel + 1, text, cs =>
    match cs with
    | [] => none
    | c :: rest =>
      if c = mark then
        let n := (cs.takeWhile (· = mark)).length
        if n < 3 then linesString? mark fuel (text ++ List.replicate n mark) (cs.drop n)
        else
          let n := min n 5
          some (String.ofList (text ++ List.replicate (n - 3) mark), cs.drop n)
      else
        match break? cs with
        | some next => linesString? mark fuel (text ++ ['\n']) next
        | none =>
          if c = '\\' && mark = '"' then
            match joinedLine? rest with
            | some next => linesString? mark fuel text next
            | none => do
              let (d, rest) ← escape? rest
              linesString? mark fuel (text ++ [d]) rest
          else if isAllowed c then linesString? mark fuel (text ++ [c]) rest
          else none

/-- **A string** from its opening mark on. A break right behind three marks is left out. -/
def string? (mark : Char) (cs : List Char) : Option (String × List Char) :=
  let size := cs.length
  if cs.take 3 = [mark, mark, mark] then
    let body := cs.drop 3
    linesString? mark size [] ((break? body).getD body)
  else lineString? mark size [] (cs.drop 1)

/-! ### Keys -/

/-- The characters of a key without marks. -/
def isKeyChar (c : Char) : Bool := c.isAlphanum || c = '_' || c = '-'

/-- One part of a key: a word, or a string on one line. -/
def keyPart? (cs : List Char) : Option (String × List Char) :=
  match cs with
  | [] => none
  | c :: rest =>
    if c = '"' || c = apostrophe then lineString? c cs.length [] rest
    else
      let word := cs.takeWhile isKeyChar
      if word.isEmpty then none else some (String.ofList word, cs.drop word.length)

/-- How deep values may be nested, and how many parts a key may have. -/
def depthLimit : Nat := 79

/-- A key of at most `room` parts. -/
def keyParts? : Nat → List Char → Option (List String × List Char)
  | 0, _ => none
  | room + 1, cs => do
    let (part, rest) ← keyPart? (skipBlanks cs)
    match skipBlanks rest with
    | '.' :: rest =>
      let (parts, rest) ← keyParts? room rest
      return (part :: parts, rest)
    | rest => return ([part], rest)

/-- **A key**: parts with dots between them, and blanks around all of them. -/
def key? (cs : List Char) : Option (List String × List Char) := keyParts? depthLimit cs

/-! ### Values -/

mutual

/-- **A value** from its first character on. Arrays and tables in braces are nested at most `room`
deep. -/
def value? : Nat → Nat → List Char → Option (Value × List Char)
  | 0, _, _ => none
  | fuel + 1, room, cs =>
    match cs with
    | [] => none
    | c :: rest =>
      if c = '"' || c = apostrophe then (string? c cs).map fun (s, rest) => (.text s, rest)
      else if c = '[' then
        if room = 0 then none
        else (items? fuel (room - 1) rest).map fun (items, rest) => (.array items, rest)
      else if c = '\x7b' then
        if room = 0 then none
        else
          match skipBlanks rest with
          | '\x7d' :: rest => some (.table .braces [], rest)
          | rest => (fields? fuel (room - 1) [] rest).map fun (es, rest) => (.table .braces es, rest)
      else word? cs

/-- The items of an array up to its closing bracket. Breaks and comments may stand anywhere, and a
comma may follow the last item. -/
def items? : Nat → Nat → List Char → Option (List Value × List Char)
  | 0, _, _ => none
  | fuel + 1, room, cs =>
    match skipLines (cs.length + 1) cs with
    | ']' :: rest => some ([], rest)
    | cs => do
      let (item, rest) ← value? fuel room cs
      match skipLines (rest.length + 1) rest with
      | ',' :: rest =>
        let (items, rest) ← items? fuel room rest
        return (item :: items, rest)
      | ']' :: rest => return ([item], rest)
      | _ => none

/-- The fields of a table in braces up to its closing brace, on one line and without a comma behind
the last one. -/
def fields? : Nat → Nat → Entries → List Char → Option (Entries × List Char)
  | 0, _, _, _ => none
  | fuel + 1, room, es, cs => do
    let (path, rest) ← key? cs
    match rest with
    | '=' :: rest =>
      let (v, rest) ← value? fuel room (skipBlanks rest)
      let es ← assign? v path es
      match skipBlanks rest with
      | ',' :: rest => fields? fuel room es rest
      | '\x7d' :: rest => return (es, rest)
      | _ => none
    | _ => none

end

/-! ### Statements -/

/-- **A statement**: the header of a table, the header of a row, or a value for a key. -/
inductive Statement where
  | table (path : List String)
  | row (path : List String)
  | assign (path : List String) (v : Value)

/-- A statement from its first character on. -/
def statement? (cs : List Char) : Option (Statement × List Char) :=
  match cs with
  | '[' :: '[' :: rest => do
    let (path, rest) ← key? rest
    match rest with
    | ']' :: ']' :: rest => return (.row path, rest)
    | _ => none
  | '[' :: rest => do
    let (path, rest) ← key? rest
    match rest with
    | ']' :: rest => return (.table path, rest)
    | _ => none
  | _ => do
    let (path, rest) ← key? cs
    match rest with
    | '=' :: rest =>
      let (v, rest) ← value? (cs.length + 1) depthLimit (skipBlanks rest)
      return (.assign path v, rest)
    | _ => none

/-- The statements of a text. Every one takes at least one character. -/
def statements? : Nat → List Char → Option (List Statement)
  | 0, _ => none
  | fuel + 1, cs =>
    match skipLines (cs.length + 1) cs with
    | [] => some []
    | cs => do
      let (s, rest) ← statement? cs
      let next ← lineEnd? rest
      return s :: (← statements? fuel next)

/-- The table after one more statement, and the path of the header that is in force. -/
def perform? (state : Entries × List String) : Statement → Option (Entries × List String)
  | .table path => do
    let key ← path.getLast?
    return (← changeAt? (addTable? key) path.dropLast state.1, path)
  | .row path => do
    let key ← path.getLast?
    return (← changeAt? (addRow? key) path.dropLast state.1, path)
  | .assign path v => do
    return (← changeAt? (assign? v path) state.2 state.1, state.2)

/-- **The table that a text describes**, without a byte order mark at its start. -/
def Entries.ofText? (text : String) : Option Entries := do
  let cs :=
    match text.toList with
    | [] => []
    | c :: rest => if isByteOrderMark c then rest else c :: rest
  let statements ← statements? (cs.length + 1) cs
  let (es, _) ← statements.foldlM perform? ([], [])
  return es

end Searchbar.Toml
