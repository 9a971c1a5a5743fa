/-!
# Errors of a query

A query is read to its end whatever it holds, and the first error met is reported with the byte
offset it belongs to.
-/

namespace Searchbar

/-- **What is wrong with a query.** -/
inductive SyntaxFault where
  | unexpectedQuote
  | unexpectedEscape
  | unexpectedColon
  | invalidEscape
  | unknownOption (name : String)
  | repeatedOption (name : String)
  | missingQuote
  | missingValue (name : String)
  | invalidValue (name expected value : String)
  deriving DecidableEq

namespace SyntaxFault

def message : SyntaxFault → String
  | unexpectedQuote => "unexpected quotation mark"
  | unexpectedEscape => "unexpected escape character"
  | unexpectedColon => "unexpected colon character"
  | invalidEscape => "invalid escape sequence"
  | unknownOption name => "unknown option: " ++ name
  | repeatedOption name => "illegally repeated option: " ++ name
  | missingQuote => "missing quotation mark"
  | missingValue name => "missing value for option: " ++ name
  | invalidValue name expected value =>
    "invalid " ++ expected ++ " value for option " ++ name ++ ": " ++ value

end SyntaxFault

/-- **The error of a query**: a fault and the byte offset it belongs to. -/
structure ParseError where
  position : Nat
  fault : SyntaxFault
  deriving DecidableEq

namespace ParseError

/-- What is wrong, without the position. -/
def message (e : ParseError) : String := e.fault.message

/-- What is wrong and where. -/
def report (e : ParseError) : String :=
  "Parse error at offset " ++ toString e.position ++ ": " ++ e.message

end ParseError

end Searchbar
