import Searchbar.Query.ParseError
import Searchbar.Query.Token
import Searchbar.Schema.Store

/-!
# Reading a query

A query is read in one pass from left to right. The **scan** is what is known after a part of the
query: the tokens so far, the result so far, the first error, and the text that is not yet in a
token. One character at a time takes it further (`Scan.step`), and at the end of the query what is
still open is closed (`Scan.close`). Every character lands in exactly one token, and an error never
stops the scan: after it the rest is read as well as it can be.

Four situations are told apart by the scan's `Mode`. In bare text a blank ends a word and a colon
makes the word an option's name. In quoted text and in a quoted value a backslash starts an
escape. In a bare value a blank ends the value.

A value with escapes is cut into several tokens, and what they are is only known when the value is
complete. So `Scan.completeValue` reaches back: it changes the kind of the tokens that have been
made since the value started, and no others.

* `parse` reads a whole query.
* `scan` is the scan after a text, before it is closed.
-/

namespace Searchbar

/-- **Where a scan stands.** In quotation marks, `escaping` says that a backslash was just read. -/
inductive Mode where
  | bare
  | quotedText (escaping : Bool)
  | value (spec : OptionSpec)
  | quotedValue (spec : OptionSpec) (escaping : Bool)

/-- **The scan of a part of a query.** -/
structure Scan where
  mode : Mode := .bare
  /-- The text that is not yet in a token. -/
  raw : String := ""
  /-- The decoded text of the word or value that is being read. -/
  decoded : String := ""
  /-- The byte offset at which `raw` starts. -/
  cursor : Nat := 0
  /-- The byte offset at which the last option value started. -/
  valueStart : Nat := 0
  /-- The tokens so far, the latest first. -/
  tokens : List Token := []
  result : SearchResult := {}
  /-- The first error. -/
  error : Option ParseError := none

/-- **What a query is read as.** The result is filled in even if there is an error. -/
structure Parse where
  tokens : List Token := []
  result : SearchResult := {}
  error : Option ParseError := none

namespace Parse

/-- Whether the query has no error. -/
def isOk (p : Parse) : Bool := p.error.isNone

/-- The result, if there is no error. -/
def toExcept (p : Parse) : Except ParseError SearchResult :=
  match p.error with
  | some e => .error e
  | none => .ok p.result

end Parse

/-- The character that an escape stands for, by the character after the backslash. -/
def unescape? (c : Char) : Option Char :=
  if c = 'n' then some '\n'
  else if c = '"' then some '"'
  else if c = '\\' then some '\\'
  else none

namespace Scan

/-! ### Tokens and errors -/

/-- A token of the text `raw` at the cursor. -/
def emit (s : Scan) (kind : TokenKind) (raw text : String) (hint : Hint) : Scan :=
  let stop := s.cursor + raw.utf8ByteSize
  { s with cursor := stop, tokens := ⟨kind, raw, text, ⟨s.cursor, stop⟩, hint⟩ :: s.tokens }

/-- A blank, which joins the run of blanks before it. -/
def emitSpace (s : Scan) (c : Char) : Scan :=
  match s.tokens with
  | [] => s.emit .space (String.singleton c) "" .options
  | last :: earlier =>
    if last.kind = .space ∧ last.span.stop = s.cursor then
      let stop := last.span.stop + c.utf8Size
      { s with
        cursor := stop
        tokens := { last with raw := last.raw.push c, span := ⟨last.span.start, stop⟩ } :: earlier }
    else s.emit .space (String.singleton c) "" .options

/-- An error at a byte offset. The first one is kept. -/
def reportAt (s : Scan) (position : Nat) (fault : SyntaxFault) : Scan :=
  if s.error.isSome then s else { s with error := some ⟨position, fault⟩ }

/-- An error at the cursor. -/
def report (s : Scan) (fault : SyntaxFault) : Scan := s.reportAt s.cursor fault

/-- A character that must not stand here. -/
def stray (s : Scan) (c : Char) (fault : SyntaxFault) : Scan :=
  (s.report fault).emit .invalid (String.singleton c) "" .none

/-! ### Words -/

/-- One more character of the word or value. -/
def accumulate (s : Scan) (c : Char) : Scan :=
  { s with raw := s.raw.push c, decoded := s.decoded.push c }

/-- The pending text becomes a token; the word or value it belongs to goes on. -/
def flush (s : Scan) (hint : Hint) : Scan :=
  if s.raw.isEmpty then s else { s.emit .text s.raw s.decoded hint with raw := "" }

/-- **The end of a word**: its pending text becomes a token, and its decoded text a term. -/
def finishWord (s : Scan) : Scan :=
  let t := s.flush .options
  { t with mode := .bare, decoded := "", result := t.result.push t.decoded }

/-- The word before a colon as an option's name. A name that the schema does not have, or that is
already set and may be given only once, is marked, and bare text goes on. -/
def finishName (s : Scan) (schema : Schema) : Scan :=
  let name := s.decoded
  let raw := s.raw.push ':'
  let t := { s with raw := "", decoded := "" }
  match schema.get? name with
  | some spec =>
    if spec.multiple || !t.result.contains name then
      let u := t.emit .optionName raw name .none
      { u with mode := .value spec, valueStart := u.cursor }
    else (t.report (.repeatedOption name)).emit .invalidOptionName raw name .none
  | none => (t.report (.unknownOption name)).emit .invalidOptionName raw name .none

/-! ### Values -/

/-- The tokens from byte offset `start` on, each changed by `f`. The latest token is first, so
these are the tokens before the first one that starts earlier. -/
def mapFrom (start : Nat) (f : Token → Token) : List Token → List Token
  | [] => []
  | t :: earlier => if start ≤ t.span.start then f t :: mapFrom start f earlier else t :: earlier

/-- A token of a rejected value: what was taken for text or an escape is invalid. -/
def rejectToken (t : Token) : Token :=
  if t.kind = .text ∨ t.kind = .escapeSequence then { t with kind := .invalid } else t

/-- The tokens of the current value marked as rejected. -/
def rejectValue (s : Scan) : Scan :=
  { s with tokens := mapFrom s.valueStart rejectToken s.tokens }

/-- The latest text token from byte offset `start` on, given another kind and text. -/
def retagFrom (start : Nat) (kind : TokenKind) (text : String) : List Token → List Token
  | [] => []
  | t :: earlier =>
    if start ≤ t.span.start then
      if t.kind = .text ∨ t.kind = .invalid then { t with kind := kind, text := text } :: earlier
      else t :: retagFrom start kind text earlier
    else t :: earlier

/-- The token that carries a complete value. When the quotation marks are never closed after an
escape, all characters are in tokens already, and the latest text token carries the value. -/
def carryValue (s : Scan) (spec : OptionSpec) (kind : TokenKind) (raw value : String) : Scan :=
  if raw.isEmpty then { s with tokens := retagFrom s.valueStart kind value s.tokens }
  else s.emit kind raw value (.value spec)

/-- **The end of a value.** An accepted value is stored. A missing or rejected one is an error at
the place where the value started, and its tokens are marked. -/
def completeValue (s : Scan) (spec : OptionSpec) : Scan :=
  let raw := s.raw
  let value := s.decoded
  let t := { s with mode := .bare, raw := "", decoded := "" }
  if value.isEmpty then
    ((t.reportAt t.valueStart (.missingValue spec.name)).rejectValue).emit
      .missingOptionValue raw "" (.value spec)
  else
    match spec.read? value with
    | some v =>
      { t with result := t.result.store spec v }.carryValue spec (.ofValue spec.kind) raw value
    | none =>
      let fault := .invalidValue spec.name spec.kind.name value
      ((t.reportAt t.valueStart fault).rejectValue).carryValue spec .invalid raw value

/-! ### Escapes -/

/-- The character after a backslash, which `raw` already holds. -/
def escape (s : Scan) (c : Char) (hint : Hint) : Scan :=
  let raw := s.raw.push c
  let t := { s with raw := "" }
  match unescape? c with
  | some decoded =>
    let u := { t with decoded := t.decoded.push decoded }
    u.emit .escapeSequence raw u.decoded hint
  | none => (t.report .invalidEscape).emit .invalidEscapeSequence raw t.decoded hint

/-- A backslash that is the last character of the query. -/
def danglingEscape (s : Scan) (hint : Hint) : Scan :=
  { (s.report .invalidEscape).emit .invalidEscapeSequence s.raw s.decoded hint with raw := "" }

/-- Quotation marks that are never closed. -/
def missingQuote (s : Scan) : Scan :=
  (s.report .missingQuote).emit .missingQuote "" "" .none

/-! ### Steps -/

/-- A character in bare text. A stray character does not end the word it stands in. -/
def stepBare (s : Scan) (schema : Schema) (c : Char) : Scan :=
  if Text.isBlank c then s.finishWord.emitSpace c
  else if c = '"' then
    if s.raw.isEmpty && s.decoded.isEmpty then
      { s with mode := .quotedText false, raw := s.raw.push c }
    else (s.flush .options).stray c .unexpectedQuote
  else if c = '\\' then (s.flush .options).stray c .unexpectedEscape
  else if c = ':' then
    if s.decoded.isEmpty then s.stray c .unexpectedColon else s.finishName schema
  else s.accumulate c

/-- A character in quoted text. -/
def stepQuotedText (s : Scan) (escaping : Bool) (c : Char) : Scan :=
  if escaping then { s.escape c .none with mode := .quotedText false }
  else if c = '\\' then
    let t := s.flush .options
    { t with mode := .quotedText true, raw := t.raw.push c }
  else if c = '"' then { s with raw := s.raw.push c }.finishWord
  else s.accumulate c

/-- A character in a bare value. -/
def stepValue (s : Scan) (spec : OptionSpec) (c : Char) : Scan :=
  if Text.isBlank c then (s.completeValue spec).emitSpace c
  else if c = '"' then
    if s.raw.isEmpty then { s with mode := .quotedValue spec false, raw := s.raw.push c }
    else (s.completeValue spec).stray c .unexpectedQuote
  else if c = ':' then (s.completeValue spec).stray c .unexpectedColon
  else if c = '\\' then (s.completeValue spec).stray c .unexpectedEscape
  else s.accumulate c

/-- A character in a quoted value. -/
def stepQuotedValue (s : Scan) (spec : OptionSpec) (escaping : Bool) (c : Char) : Scan :=
  if escaping then { s.escape c (.value spec) with mode := .quotedValue spec false }
  else if c = '\\' then
    let t := s.flush (.value spec)
    { t with mode := .quotedValue spec true, raw := t.raw.push c }
  else if c = '"' then { s with raw := s.raw.push c }.completeValue spec
  else s.accumulate c

/-- **One character.** -/
def step (schema : Schema) (s : Scan) (c : Char) : Scan :=
  match s.mode with
  | .bare => s.stepBare schema c
  | .quotedText escaping => s.stepQuotedText escaping c
  | .value spec => s.stepValue spec c
  | .quotedValue spec escaping => s.stepQuotedValue spec escaping c

/-- **The end of the query**: what is open is closed. -/
def close (s : Scan) : Scan :=
  match s.mode with
  | .bare => s.finishWord
  | .quotedText escaping =>
    (if escaping then s.danglingEscape .none else s).finishWord.missingQuote
  | .value spec => s.completeValue spec
  | .quotedValue spec escaping =>
    ((if escaping then s.danglingEscape (.value spec) else s).completeValue spec).missingQuote

/-- The tokens in the order of the query, with the result and the error. -/
def output (s : Scan) : Parse := ⟨s.tokens.reverse, s.result, s.error⟩

end Scan

/-- **The scan of a text**, not closed. -/
def scan (schema : Schema) (text : String) : Scan :=
  text.toList.foldl (Scan.step schema) {}

/-- **Reading a query** under a schema. -/
def parse (schema : Schema) (query : String) : Parse :=
  (scan schema query).close.output

end Searchbar
