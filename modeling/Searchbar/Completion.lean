import Searchbar.Query.Scan

/-!
# Completion

While a query is typed, candidates are offered for the token at the caret. The token's hint says
which: names of options, values of an option, or nothing. The candidates for a number or string
come from the option's source, which has to be asked. So a `Completion` is the candidates together
with the questions that were put to sources for them.

* `tokenAt` is the token a caret rests on.
* `Token.complete` is the completion of a token, and `completeAt` that of a caret.
-/

namespace Searchbar

/-- **A caret or a selection**, by byte offsets. -/
structure Selection where
  start : Nat
  stop : Nat
  deriving DecidableEq

namespace Selection

/-- The caret at a byte offset. -/
def caret (offset : Nat) : Selection := ⟨offset, offset⟩

/-- Whether nothing is selected. -/
def isCaret (s : Selection) : Bool := s.start == s.stop

end Selection

/-! ### The token at the caret -/

/-- Whether a caret rests on a token: it is inside or at the end of it, or the token stands for a
missing value and is just there. -/
def Token.holds (t : Token) (caret : Nat) : Bool :=
  (t.span.start < caret && caret ≤ t.span.stop) ||
    (t.span.isEmpty && t.span.start == caret && t.kind == .missingOptionValue)

/-- The token a caret rests on, with its place in the list. The last token that holds the caret is
taken, so that a missing value comes before the name it follows; a token that only starts at the
caret is taken if no token holds it. -/
def locate (tokens : List Token) (selection : Selection) : Option (Token × Nat) :=
  if selection.isCaret then
    (tokens.zipIdx.reverse.find? fun p => p.1.holds selection.start).or
      (tokens.zipIdx.find? fun p => p.1.span.start == selection.start)
  else none

/-- **The token a caret rests on.** A selection rests on none. -/
def tokenAt (tokens : List Token) (selection : Selection) : Option Token :=
  (locate tokens selection).map Prod.fst

/-! ### Candidates -/

/-- **A question to a source**: what is typed so far. -/
structure Lookup where
  source : Source
  typed : String

/-- **What completing comes to**: the candidates, and the questions that were put to sources for
them, in the order of asking. -/
structure Completion where
  candidates : List Candidate := []
  lookups : List Lookup := []

/-- **Asking a source**: one question, and what the source offers. -/
def Source.ask (source : Source) (typed : String) : Completion where
  candidates := source.offer typed
  lookups := [⟨source, typed⟩]

namespace Schema

/-- The options whose name or title begins with the typed text, each as its name with a colon,
described by its title, in the order of the schema. -/
def completeName (schema : Schema) (typed : String) : List Candidate :=
  (schema.options.filter fun spec =>
      Text.startsWith spec.name typed ||
        spec.title.any fun title => Text.startsWith title typed).map
    fun spec => { name := spec.name ++ ":", description := spec.title }

end Schema

namespace OptionKind

/-- The completion of a value of the kind. A boolean offers both words whatever was typed, an enum
its choices that begin with the typed text, and a source decides for itself. -/
def completeValue (kind : OptionKind) (typed : String) : Completion :=
  match kind with
  | boolean => { candidates := [{ name := Value.yes }, { name := Value.no }] }
  | enum choices =>
    let begun := choices.filter fun choice => Text.startsWith choice typed
    { candidates := begun.map fun choice => { name := choice } }
  | number source => (source.map fun s => s.ask typed).getD {}
  | string source => (source.map fun s => s.ask typed).getD {}

end OptionKind

/-- **The completion of a token.** -/
def Token.complete (t : Token) (schema : Schema) : Completion :=
  match t.hint with
  | .none => {}
  | .options => { candidates := schema.completeName t.text }
  | .value spec => spec.kind.completeValue t.text

/-- **The completion at a caret.** -/
def completeAt (tokens : List Token) (selection : Selection) (schema : Schema) : Completion :=
  match tokenAt tokens selection with
  | some t => t.complete schema
  | none => {}

/-- The candidates at a caret. -/
def candidatesAt (tokens : List Token) (selection : Selection) (schema : Schema) :
    List Candidate :=
  (completeAt tokens selection schema).candidates

end Searchbar
