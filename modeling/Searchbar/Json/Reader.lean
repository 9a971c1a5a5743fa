import Searchbar.Json.Lexeme

/-!
# Reading JSON

A second machine makes a value of the lexemes. It keeps a **frame** for every array and object that
is open, innermost first, and knows what may come next. A text is one value; the order of an
object's fields is kept, and so is a name that is repeated.
-/

namespace Searchbar.Json

/-- **An open array or object**, its items or fields latest first. A field whose value is still to
come has given its name, and a name that spells no text is left out. -/
inductive Frame where
  | array (items : List Json)
  | object (fields : List (Option String × Json))
  | field (fields : List (Option String × Json)) (name : Option String)

/-- The object with the given fields. All names have to spell a text. -/
def ofFields (fields : List (Option String × Json)) : Json :=
  match fields.mapM fun f => f.1.map fun name => (name, f.2) with
  | some fields => obj fields
  | none => unpaired

/-- What may come next. -/
inductive Expected where
  | value
  | valueOrEnd
  | name
  | nameOrEnd
  | colon
  | commaOrEnd

/-- **A value under construction**: the open frames and what may come next, or the finished value. -/
inductive Building where
  | pending (expected : Expected) (frames : List Frame)
  | done (j : Json)

namespace Building

/-- A complete value takes its place in the innermost frame. -/
def place (j : Json) : List Frame → Option Building
  | [] => some (.done j)
  | .array items :: outer => some (.pending .commaOrEnd (.array (j :: items) :: outer))
  | .field fields name :: outer => some (.pending .commaOrEnd (.object ((name, j) :: fields) :: outer))
  | .object _ :: _ => none

/-- A lexeme where a value may start. -/
def beginValue (frames : List Frame) : Lexeme → Option Building
  | .scalar j => place j frames
  | .beginArray => some (.pending .valueOrEnd (.array [] :: frames))
  | .beginObject => some (.pending .nameOrEnd (.object [] :: frames))
  | _ => none

/-- The name of a field, which is left out if it spells no text. -/
def fieldName? : Lexeme → Option (Option String)
  | .scalar (.str name) => some (some name)
  | .scalar .unpaired => some none
  | _ => none

/-- A lexeme where a field's name may stand. -/
def beginField (frames : List Frame) (l : Lexeme) : Option Building := do
  let name ← fieldName? l
  match frames with
  | .object fields :: outer => some (.pending .colon (.field fields name :: outer))
  | _ => none

/-- The end of the innermost frame. -/
def endFrame (frames : List Frame) : Lexeme → Option Building
  | .endArray =>
    match frames with
    | .array items :: outer => place (.arr items.reverse) outer
    | _ => none
  | .endObject =>
    match frames with
    | .object fields :: outer => place (ofFields fields.reverse) outer
    | _ => none
  | _ => none

/-- The lexeme after a complete item or field. -/
def separate (frames : List Frame) : Lexeme → Option Building
  | .comma =>
    match frames with
    | .array _ :: _ => some (.pending .value frames)
    | .object _ :: _ => some (.pending .name frames)
    | _ => none
  | l => endFrame frames l

/-- **One lexeme.** -/
def step? : Building → Lexeme → Option Building
  | .done _, _ => none
  | .pending expected frames, l =>
    match expected with
    | .value => beginValue frames l
    | .valueOrEnd => (endFrame frames l).or (beginValue frames l)
    | .name => beginField frames l
    | .nameOrEnd => (endFrame frames l).or (beginField frames l)
    | .colon =>
      match l with
      | .colon => some (.pending .value frames)
      | _ => none
    | .commaOrEnd => separate frames l

end Building

/-- The value that a list of lexemes spells. -/
def ofLexemes? (ls : List Lexeme) : Option Json :=
  match ls.foldlM Building.step? (.pending .value []) with
  | some (.done j) => some j
  | _ => none

/-- **The value that a text spells**, if it is a JSON text. -/
def parse? (text : String) : Option Json := (lexemes? text).bind ofLexemes?

end Searchbar.Json
