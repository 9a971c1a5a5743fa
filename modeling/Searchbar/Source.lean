import Searchbar.Text.Blank

/-!
# Candidates and where they come from

A **candidate** is one line of a completion list. The candidates for the value of a number or
string option come from a **source**, which is asked with the text typed so far and does its own
filtering. Two sources are the same only if they are one and the same object; the model of that is
an identity number, and `==` on sources compares nothing else.
-/

namespace Searchbar

/-- **A completion candidate**, perhaps with a description. -/
structure Candidate where
  name : String
  description : Option String := none
  deriving DecidableEq

namespace Candidate

/-- The candidate on one line, its description in parentheses. -/
def text (c : Candidate) : String :=
  match c.description with
  | some d => c.name ++ " (" ++ d ++ ")"
  | none => c.name

end Candidate

/-- Why a source gave no candidates. -/
inductive SourceError where
  | unavailable (reason : String)
  | failed (reason : String)
  deriving DecidableEq

namespace SourceError

def message : SourceError → String
  | unavailable reason => "suggestion source unavailable: " ++ reason
  | failed reason => "suggestion lookup failed: " ++ reason

end SourceError

/-- **A source of candidates.** -/
structure Source where
  id : Nat
  lookup : String → Except SourceError (List Candidate)

namespace Source

instance : BEq Source := ⟨fun a b => a.id == b.id⟩

/-- A fixed list, of which the candidates whose name begins with the typed text are offered. -/
def listed (id : Nat) (candidates : List Candidate) : Source :=
  ⟨id, fun typed => .ok (candidates.filter fun c => Text.startsWith c.name typed)⟩

/-- A fixed list, offered whole whatever was typed. -/
def constant (id : Nat) (candidates : List Candidate) : Source :=
  ⟨id, fun _ => .ok candidates⟩

/-- Candidates computed from the typed text. -/
def computed (id : Nat) (candidates : String → List Candidate) : Source :=
  ⟨id, fun typed => .ok (candidates typed)⟩

/-- A source that can never be reached. -/
def unavailable (id : Nat) (reason : String) : Source :=
  ⟨id, fun _ => .error (.unavailable reason)⟩

/-- What a source offers; a failed lookup offers nothing. -/
def offer (s : Source) (typed : String) : List Candidate :=
  match s.lookup typed with
  | .ok candidates => candidates
  | .error _ => []

/-- The reason a source gives when it is unreachable and nobody said why. -/
def offline : String := "backend offline"

end Source

end Searchbar
