import Searchbar.Schema.OptionSpec

/-!
# Tokens of a query

A query is shown with its parts highlighted. A **token** is such a part: a class for the
highlighting, the exact text of the part, the decoded text of the word or value it belongs to as
far as it has been typed, its byte range in the query, and a hint that says what can be completed
there.
-/

namespace Searchbar

/-- **The class of a token.** -/
inductive TokenKind where
  | space
  | text
  | number
  | enum
  | optionName
  | invalidOptionName
  | escapeSequence
  | invalidEscapeSequence
  | missingQuote
  | missingOptionValue
  | invalid
  deriving DecidableEq

namespace TokenKind

/-- Every class. -/
def all : List TokenKind :=
  [space, text, number, enum, optionName, invalidOptionName, escapeSequence,
   invalidEscapeSequence, missingQuote, missingOptionValue, invalid]

/-- The name of the class as renderers know it. -/
def label : TokenKind → String
  | space => "space"
  | text => "text"
  | number => "number"
  | enum => "enum"
  | optionName => "option-name"
  | invalidOptionName => "invalid-option-name"
  | escapeSequence => "escape-sequence"
  | invalidEscapeSequence => "invalid-escape-sequence"
  | missingQuote => "missing-quote"
  | missingOptionValue => "missing-option-value"
  | invalid => "invalid"

/-- The classes that mark an error. -/
def isError : TokenKind → Bool
  | invalidOptionName => true
  | invalidEscapeSequence => true
  | missingQuote => true
  | missingOptionValue => true
  | invalid => true
  | _ => false

/-- The class of an accepted value of the given kind. -/
def ofValue : OptionKind → TokenKind
  | .number _ => number
  | .enum _ => enum
  | .boolean => enum
  | .string _ => text

end TokenKind

/-- **A range of bytes**, from `start` up to and without `stop`. -/
structure Span where
  start : Nat
  stop : Nat
  deriving DecidableEq

namespace Span

/-- The number of bytes, in the arithmetic of 64-bit offsets. -/
def length (s : Span) : Nat := (s.stop + 0x10000000000000000 - s.start) % 0x10000000000000000

/-- Whether the range has no bytes. -/
def isEmpty (s : Span) : Bool := s.start == s.stop

end Span

/-- **What can be completed at a token.** -/
inductive Hint where
  | none
  /-- The name of an option. -/
  | options
  /-- The value of the given option. -/
  | value (spec : OptionSpec)

/-- **A part of a query.** -/
structure Token where
  kind : TokenKind
  /-- The exact text of the part, with its quotation marks and escapes. -/
  raw : String
  /-- The decoded text, up to this part, of the word or value it belongs to. -/
  text : String
  span : Span
  hint : Hint

end Searchbar
