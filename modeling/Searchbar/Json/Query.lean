import Searchbar.Json.Fields
import Searchbar.Query.ParseError
import Searchbar.Query.Token

/-!
# Parts of a query in JSON

Candidates, spans, token classes and parse errors. A fault is a record that names its case in the
field `kind` and has the components of that case beside it.
-/

namespace Searchbar

namespace Candidate

/-- A candidate in JSON, without a description if there is none. -/
def toJson (c : Candidate) : Json :=
  .obj (("name", .str c.name) ::
    (c.description.toList.map fun d => ("description", Json.str d)))

/-- **The candidate that a JSON value spells.** -/
def ofJson? (j : Json) : Option Candidate := do
  let fields ← j.components? false ["name", "description"]
  let name ← (← fields.lookup "name").string?
  let description ← ((fields.lookup "description").map Json.optionalString?).getD (some none)
  return ⟨name, description⟩

end Candidate

namespace Span

/-- A span in JSON. -/
def toJson (s : Span) : Json :=
  .obj [("start", Json.ofNat s.start), ("end", Json.ofNat s.stop)]

/-- **The span that a JSON value spells.** -/
def ofJson? (j : Json) : Option Span := do
  let fields ← j.components? false ["start", "end"]
  let start ← (← fields.lookup "start").nat?
  let stop ← (← fields.lookup "end").nat?
  return ⟨start, stop⟩

end Span

namespace TokenKind

/-- The name of a class in data: its label with lower dashes. -/
def dataName (k : TokenKind) : String :=
  String.ofList (k.label.toList.map fun c => if c = '-' then '_' else c)

/-- The class with a name in data. -/
def ofDataName? (name : String) : Option TokenKind := all.find? fun k => k.dataName == name

/-- A class in JSON. -/
def toJson (k : TokenKind) : Json := .str k.dataName

/-- **The class that a JSON value spells.** -/
def ofJson? (j : Json) : Option TokenKind := j.caseName?.bind ofDataName?

end TokenKind

namespace SyntaxFault

/-- The name of the fault's case and its components. -/
def parts : SyntaxFault → String × List (String × String)
  | unexpectedQuote => ("unexpected_quote", [])
  | unexpectedEscape => ("unexpected_escape", [])
  | unexpectedColon => ("unexpected_colon", [])
  | invalidEscape => ("invalid_escape", [])
  | unknownOption name => ("unknown_option", [("name", name)])
  | repeatedOption name => ("repeated_option", [("name", name)])
  | missingQuote => ("missing_quote", [])
  | missingValue name => ("missing_value", [("name", name)])
  | invalidValue name expected value =>
    ("invalid_value", [("name", name), ("expected", expected), ("value", value)])

/-- A fault in JSON. -/
def toJson (f : SyntaxFault) : Json :=
  .obj (("kind", .str f.parts.1) :: f.parts.2.map fun p => (p.1, .str p.2))

/-- A fault with one component, its name. -/
def ofName? (make : String → SyntaxFault) (j : Json) : Option SyntaxFault := do
  let fields ← j.components? false ["name"]
  return make (← (← fields.lookup "name").string?)

/-- A fault without components. An object may have anything, an array nothing. -/
def ofNothing? (fault : SyntaxFault) : Json → Option SyntaxFault
  | .arr (_ :: _) => none
  | _ => some fault

/-- The fault of the named case whose components a JSON value holds. -/
def ofCase? (case : String) (j : Json) : Option SyntaxFault :=
  if case = "unexpected_quote" then ofNothing? unexpectedQuote j
  else if case = "unexpected_escape" then ofNothing? unexpectedEscape j
  else if case = "unexpected_colon" then ofNothing? unexpectedColon j
  else if case = "invalid_escape" then ofNothing? invalidEscape j
  else if case = "unknown_option" then ofName? unknownOption j
  else if case = "repeated_option" then ofName? repeatedOption j
  else if case = "missing_quote" then ofNothing? missingQuote j
  else if case = "missing_value" then ofName? missingValue j
  else if case = "invalid_value" then do
    let fields ← j.components? false ["name", "expected", "value"]
    let name ← (← fields.lookup "name").string?
    let expected ← (← fields.lookup "expected").string?
    let value ← (← fields.lookup "value").string?
    return invalidValue name expected value
  else none

/-- How deep the components of a fault may be nested: the fault itself and the error it belongs to
count too. -/
def componentRoom : Nat := Json.depthLimit - 2

/-- **The fault that a JSON value spells.** All components have to be readable, since they are
looked at before the case is known. -/
def ofJson? : Json → Option SyntaxFault
  | .obj fields =>
    match fields.filter fun f => f.1 == "kind" with
    | [(_, .str case)] =>
      let others := fields.filter fun f => f.1 != "kind"
      if Json.areReadableFields componentRoom others then ofCase? case (.obj others) else none
    | _ => none
  | .arr (.str case :: others) =>
    if Json.areReadable componentRoom others then ofCase? case (.arr others) else none
  | _ => none

end SyntaxFault

namespace ParseError

/-- A parse error in JSON. -/
def toJson (e : ParseError) : Json :=
  .obj [("position", Json.ofNat e.position), ("kind", e.fault.toJson)]

/-- **The parse error that a JSON value spells.** -/
def ofJson? (j : Json) : Option ParseError := do
  let fields ← j.components? false ["position", "kind"]
  let position ← (← fields.lookup "position").nat?
  let fault ← SyntaxFault.ofJson? (← fields.lookup "kind")
  return ⟨position, fault⟩

end ParseError

end Searchbar
