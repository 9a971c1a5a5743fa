import Searchbar.Completion
import Searchbar.Config.File
import Searchbar.Json.Result
import Searchbar.Json.Writer
import Searchbar.Query.Print

/-!
# Tracing a query

The command line shows how a query is read: the options of a schema file, the tokens of the query,
its error with a mark under the place, the result, the query that means the same, and the
candidates at the caret.

* `Trace.run` is the whole program, except for reading the file and writing the output.
-/

namespace Searchbar.Trace

/-- **What the program leaves behind**: its exit code and its two outputs. -/
structure Outcome where
  exitCode : Nat
  output : String
  errors : String
  deriving DecidableEq

/-- Lines, each ended. -/
def lines (ls : List String) : String := String.join (ls.map fun l => l ++ "\n")

/-- A failure after some output. -/
def fail (output : String) (errors : List String) : Outcome := ⟨1, output, lines errors⟩

/-- A sign repeated. -/
def repeated (n : Nat) (sign : String) : String := String.join (List.replicate n sign)

/-- The line under the title of a part. -/
def rule : String := repeated 61 "─"

/-- The title of the whole output. -/
def banner : List String :=
  let bar := repeated 63 "═"
  ["╔" ++ bar, "║ QUARRY QUERY TRACER", "╚" ++ bar, ""]

/-- How the program is called. -/
def usage : List String :=
  ["Usage: cargo run --bin trace_query <schema-file> <query> [caret]",
   "",
   "Example:",
   "  cargo run --bin trace_query schema.yaml 'rust tag:async sort:n'"]

/-- A text with blanks before it up to a width in characters. -/
def padLeft (width : Nat) (s : String) : String := repeated (width - s.length) " " ++ s

/-- A text with blanks after it up to a width in characters. -/
def padRight (width : Nat) (s : String) : String := s ++ repeated (width - s.length) " "

/-- An offset in a query as it is given on the command line: digits, perhaps after a plus sign. -/
def offset? (s : String) : Option Nat :=
  let digits :=
    match s.toList with
    | '+' :: rest => rest
    | cs => cs
  if !digits.isEmpty && digits.all Char.isDigit then some (Decimal.ofDigits digits) else none

/-- The caret that the command line asks for, at the end of the query unless it says otherwise. -/
def caret? (query : String) : Option String → Option Nat
  | none => some query.utf8ByteSize
  | some s => (offset? s).filter fun n => n ≤ query.utf8ByteSize

/-- How many characters of a text start before a byte offset. -/
def charsBefore (position : Nat) : List Char → Nat
  | [] => 0
  | c :: rest => if position = 0 then 0 else 1 + charsBefore (position - c.utf8Size) rest

/-- The options of a schema. -/
def schemaLines (schema : Schema) : List String :=
  ("📋 SCHEMA (" ++ toString schema.options.length ++ " options):") ::
    schema.options.map (fun spec =>
      "  " ++ spec.name ++ ": " ++ spec.kind.name ++ (if spec.multiple then " (multiple)" else "")) ++
    [""]

/-- A token on a line. -/
def tokenLine (t : Token) : String :=
  "  " ++ padLeft 3 (toString t.span.start) ++ ".." ++ padRight 3 (toString t.span.stop) ++ " " ++
    padRight 24 t.kind.label ++ " " ++ Text.quoted t.raw

/-- Whether the query could be read, and the place of the error if not. -/
def verdictLines (query : String) : Option ParseError → List String
  | none => ["✅ Parse succeeded!", ""]
  | some e =>
    ["❌ " ++ e.report,
     "   " ++ query,
     "   " ++ repeated (charsBefore e.position query.toList) " " ++ "^",
     ""]

/-- The candidates at the caret. -/
def candidateLines (caret : Nat) (candidates : List Candidate) : List String :=
  ["💡 SUGGESTIONS AT " ++ toString caret ++ ":", rule] ++
    if candidates.isEmpty then ["  (none)"] else candidates.map fun c => "  " ++ c.text

/-- The whole report on a query. -/
def report (schema : Schema) (query : String) (caret : Nat) : List String :=
  let p := parse schema query
  schemaLines schema ++
    ["🔍 TOKENS:", rule] ++ p.tokens.map tokenLine ++ [""] ++
    verdictLines query p.error ++
    ["🌳 RESULT:", rule, p.result.toJson.pretty, ""] ++
    ["🔄 CANONICAL QUERY:", rule, p.result.print, ""] ++
    candidateLines caret (candidatesAt p.tokens (.caret caret) schema)

/-- The report on a query under the schema of a file. -/
def trace (read : Reading) (path query : String) (caret : Nat) : Outcome :=
  match loadSchema read 0 path with
  | .error e => fail (lines banner) ["❌ Failed to load " ++ path ++ ": " ++ e.message]
  | .ok schema => ⟨0, lines (banner ++ report schema query caret), ""⟩

/-- **The program**, by its arguments: a schema file, a query, and perhaps a caret. -/
def run (read : Reading) : List String → Outcome
  | path :: query :: more =>
    match caret? query more.head? with
    | some caret => trace read path query caret
    | none =>
      fail "" ["❌ Caret must be a byte offset between 0 and " ++ toString query.utf8ByteSize]
  | _ => fail "" usage

end Searchbar.Trace
