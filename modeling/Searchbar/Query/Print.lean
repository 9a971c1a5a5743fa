import Searchbar.Result
import Searchbar.Schema.OptionSpec

/-!
# Writing a query

A search result is written as the query that means it: first the terms, then the options in the
order of their names, each value of an option as a pair of its own. A text that cannot be typed as
it is stands in quotation marks.
-/

namespace Searchbar

/-- Whether a text has to stand in quotation marks: it is empty, or has a blank or a character with
a meaning in queries. -/
def needsQuotes (s : String) : Bool :=
  s.isEmpty || s.toList.any fun c => Text.isBlank c || isReserved c

/-- A character inside quotation marks, as it has to be typed. -/
def escapedChar (c : Char) : List Char :=
  if c = '"' then ['\\', '"']
  else if c = '\\' then ['\\', '\\']
  else if c = '\n' then ['\\', 'n']
  else [c]

/-- **A text as it has to be typed**, in quotation marks if need be. -/
def typed (s : String) : String :=
  if needsQuotes s then String.ofList ('"' :: s.toList.flatMap escapedChar ++ ['"']) else s

/-- A value as it has to be typed. -/
def Value.typed : Value → String
  | .string s => Searchbar.typed s
  | .enum s => Searchbar.typed s
  | v => v.text

namespace SearchResult

/-- The parts of the query that means a result. -/
def parts (r : SearchResult) : List String :=
  r.terms.map typed ++
    r.options.entries.flatMap fun e => e.2.values.map fun v => e.1 ++ ":" ++ v.typed

/-- **The query that means a result.** -/
def print (r : SearchResult) : String := String.intercalate " " r.parts

end SearchResult

end Searchbar
