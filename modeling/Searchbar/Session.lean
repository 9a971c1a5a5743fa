import Searchbar.Completion

/-!
# Sessions

A **session** is the state behind one search field: the query is read again after every change,
and the number of changes is the session's revision. Completion may take longer than the next
change, so a **request** takes along the token it is for and the revision it was made at; whoever
resolves it can tell whether the answer is still wanted.

A **desk** is a session together with what happened to it: the requests that were kept, the notices
given to a listener, and the questions put to sources.

* `Session.update`, `Session.request?` and `Request.resolve` are the operations of a session.
* `Desk.step` performs one of them and records its effects.
-/

namespace Searchbar

/-- **The state behind a search field.** -/
structure Session where
  schema : Schema
  /-- Whether options that a query leaves open get their defaults. -/
  defaults : Bool := false
  parse : Parse := {}
  /-- The number of changes so far. -/
  revision : Nat := 0

/-- **What a listener is told** after a change. -/
inductive Notice where
  | changed (result : SearchResult)
  | failed (error : ParseError)

/-- **A completion request**, independent of the session that made it. -/
structure Request where
  revision : Nat
  token : Token
  schema : Schema

/-- Candidates and the revision they were asked for at. -/
structure Suggestions where
  revision : Nat
  candidates : List Candidate
  deriving DecidableEq

namespace Session

/-- What the session holds after the query `input`. -/
def read (s : Session) (input : String) : Parse :=
  let p := Searchbar.parse s.schema input
  if s.defaults then { p with result := p.result.fillDefaults s.schema } else p

/-- **A change**: the whole query is read again. -/
def update (s : Session) (input : String) : Session :=
  { s with parse := s.read input, revision := s.revision + 1 }

/-- What a listener is told about the query that the session holds. -/
def notice (s : Session) : Notice :=
  match s.parse.error with
  | some e => .failed e
  | none => .changed s.parse.result

/-- Whether no change has been made since the given revision. -/
def isCurrent (s : Session) (revision : Nat) : Bool := s.revision == revision

/-- **A request** for the token at the caret, if the caret rests on one. -/
def request? (s : Session) (selection : Selection) : Option Request :=
  (tokenAt s.parse.tokens selection).map fun token => ⟨s.revision, token, s.schema⟩

@[simp] theorem revision_update (s : Session) (input : String) :
    (s.update input).revision = s.revision + 1 := rfl

@[simp] theorem schema_update (s : Session) (input : String) :
    (s.update input).schema = s.schema := rfl

end Session

namespace Request

/-- **The answer to a request**, with the questions that were put to sources for it. -/
def resolve (r : Request) : Suggestions × List Lookup :=
  let completion := r.token.complete r.schema
  (⟨r.revision, completion.candidates⟩, completion.lookups)

end Request

/-! ### A session and its effects -/

/-- **A session with its effects**, each list in the order of time. -/
structure Desk where
  session : Session
  /-- Whether somebody listens. -/
  listening : Bool := false
  /-- The requests that were kept, each under a label. -/
  requests : List (String × Request) := []
  notices : List Notice := []
  lookups : List Lookup := []

/-- **A thing to do with a session.** -/
inductive Step where
  | update (input : String)
  | request (label : String) (selection : Selection)
  | resolve (label : String)

/-- What a step answers. -/
inductive Answer where
  | updated (parse : Parse)
  | requested (request : Option Request)
  /-- The suggestions, and whether they are for the current revision. -/
  | resolved (suggestions : Suggestions) (current : Bool)
  | noRequest

namespace Desk

/-- The request that is kept under a label. -/
def request? (d : Desk) (label : String) : Option Request :=
  (d.requests.find? fun p => p.1 == label).map Prod.snd

/-- **One step.** A request that finds no token leaves what is kept under its label. -/
def step (d : Desk) : Step → Desk × Answer
  | .update input =>
    let session := d.session.update input
    let notices := if d.listening then d.notices ++ [session.notice] else d.notices
    ({ d with session := session, notices := notices }, .updated session.parse)
  | .request label selection =>
    match d.session.request? selection with
    | some r => ({ d with requests := (label, r) :: d.requests }, .requested (some r))
    | none => (d, .requested none)
  | .resolve label =>
    match d.request? label with
    | some r =>
      let (suggestions, lookups) := r.resolve
      ({ d with lookups := d.lookups ++ lookups },
        .resolved suggestions (d.session.isCurrent suggestions.revision))
    | none => (d, .noRequest)

/-- The desk after a list of steps. -/
def run (d : Desk) (steps : List Step) : Desk :=
  steps.foldl (fun d s => (d.step s).1) d

end Desk

end Searchbar
