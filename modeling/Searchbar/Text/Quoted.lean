import Searchbar.Text.CodePoint
import Searchbar.Text.Visible

/-!
# Text in quotation marks

Messages show a text between quotation marks so that its end and its blanks can be seen. Inside
the marks a quotation mark and a backslash get a backslash; line feed, carriage return, tab and
NUL get their short escapes; every other character without a visible form is written as its code
point in lower-case hexadecimal. All else, an apostrophe included, stands as it is.
-/

namespace Searchbar.Text

/-- One character as it stands between quotation marks. -/
def quotedChar (c : Char) : String :=
  if c = '"' then "\\\""
  else if c = '\\' then "\\\\"
  else if c = '\n' then "\\n"
  else if c = '\r' then "\\r"
  else if c = '\t' then "\\t"
  else if c = '\x00' then "\\0"
  else if isVisible c then c.toString
  else "\\u\x7b" ++ hex c.toNat ++ "\x7d"

/-- **Quotation**: `s` between quotation marks, with every character shown. -/
def quoted (s : String) : String :=
  "\"" ++ String.join (s.toList.map quotedChar) ++ "\""

/-- An optional text, as `None` or as `Some` of its quotation. -/
def quotedOption : Option String → String
  | none => "None"
  | some s => "Some(" ++ quoted s ++ ")"

/-- A list of texts in brackets, each quoted. -/
def quotedList (ss : List String) : String :=
  "[" ++ String.intercalate ", " (ss.map quoted) ++ "]"

end Searchbar.Text
