import Searchbar.Source
import Searchbar.Text.Quoted
import Searchbar.Value

/-!
# Options

An **option** is what a user gives as `name:value`. Its kind says which texts are values
(`OptionSpec.read?`) and, for numbers and strings, where candidates come from. A name has to be
typeable: it is not empty and has no blank and none of the three characters with a meaning in
queries. An enum has at least one choice.

* `nameFault?_eq_none_iff` says which names are typeable.
* `OptionSpec.fault?` is the first reason why an option cannot be declared.
-/

namespace Searchbar

/-- **The type of an option's values**, with what only that type needs. -/
inductive OptionKind where
  | number (source : Option Source)
  | string (source : Option Source)
  | enum (choices : List String)
  | boolean
  deriving BEq

namespace OptionKind

/-- The name of the type. -/
def name : OptionKind → String
  | number _ => "number"
  | string _ => "string"
  | enum _ => "enum"
  | boolean => "boolean"

/-- The source of candidates, if there is one. -/
def source? : OptionKind → Option Source
  | number source => source
  | string source => source
  | _ => none

/-- The choices of an enum, none for any other kind. -/
def choices : OptionKind → List String
  | enum choices => choices
  | _ => []

/-- Whether the kind can have a source. -/
def takesSource : OptionKind → Bool
  | number _ => true
  | string _ => true
  | _ => false

/-- The kind with its source replaced. An enum and a boolean keep their fixed candidates. -/
def withSource (source : Source) : OptionKind → OptionKind
  | number _ => number (some source)
  | string _ => string (some source)
  | kind => kind

@[simp] theorem name_withSource (source : Source) (kind : OptionKind) :
    (kind.withSource source).name = kind.name := by
  cases kind <;> rfl

@[simp] theorem choices_withSource (source : Source) (kind : OptionKind) :
    (kind.withSource source).choices = kind.choices := by
  cases kind <;> rfl

/-- **The value a text stands for**, if the kind takes it. A text is taken as it is, without
trimming and in the given case; a number has to be finite. -/
def read? (kind : OptionKind) (text : String) : Option Value :=
  match kind with
  | boolean =>
    if text = Value.yes then some (.boolean true)
    else if text = Value.no then some (.boolean false)
    else none
  | string _ => some (.string text)
  | number _ => ((Binary64.ofText? text).filter Binary64.isFinite).map .number
  | enum choices => if choices.contains text then some (.enum text) else none

/-- A kind takes a text by its type and its choices. -/
theorem read?_congr {kind kind' : OptionKind} (name : kind.name = kind'.name)
    (choices : kind.choices = kind'.choices) (text : String) :
    kind.read? text = kind'.read? text := by
  cases kind <;> cases kind' <;> simp_all [OptionKind.name, OptionKind.choices, read?]

@[simp] theorem read?_withSource (source : Source) (kind : OptionKind) (text : String) :
    (kind.withSource source).read? text = kind.read? text := by
  cases kind <;> rfl

end OptionKind

/-- **An option that a search understands.** -/
structure OptionSpec where
  /-- What is typed before the colon. -/
  name : String
  /-- What the option is called, shown beside its name when names are completed. -/
  title : Option String := none
  /-- Whether the option may be given more than once. -/
  multiple : Bool := false
  /-- The value that is filled in on request when the query does not give one. -/
  default : Option String := none
  kind : OptionKind
  deriving BEq

/-! ### Names -/

/-- The characters with a meaning in queries, which no name holds. -/
def isReserved (c : Char) : Bool := c = ':' || c = '"' || c = '\\'

/-- What is wrong with a name. -/
inductive NameFault where
  | empty
  | blank
  | reserved
  deriving DecidableEq

namespace NameFault

def message : NameFault → String
  | empty => "name is empty"
  | blank => "contains whitespace"
  | reserved => "contains a reserved character"

end NameFault

/-- The first fault of a name. -/
def nameFault? (name : String) : Option NameFault :=
  if name.isEmpty then some .empty
  else if name.toList.any Text.isBlank then some .blank
  else if name.toList.any isReserved then some .reserved
  else none

/-- **Typeable names** are those without a fault. -/
theorem nameFault?_eq_none_iff {name : String} :
    nameFault? name = none ↔
      name ≠ "" ∧ ∀ c ∈ name.toList, Text.isBlank c = false ∧ isReserved c = false := by
  unfold nameFault?
  constructor
  · intro h
    split at h
    · cases h
    · next he =>
      split at h
      · cases h
      · next hb =>
        split at h
        · cases h
        · next hr =>
          refine ⟨fun hn => he (by simp [hn]), fun c hc => ?_⟩
          simp only [List.any_eq_true, not_exists, not_and, Bool.not_eq_true] at hb hr
          exact ⟨hb c hc, hr c hc⟩
  · rintro ⟨hn, h⟩
    have he : name.isEmpty ≠ true := fun h => hn (String.isEmpty_iff.mp h)
    have hb : name.toList.any Text.isBlank ≠ true := by
      simp only [List.any_eq_true, ne_eq, not_exists, not_and, Bool.not_eq_true]
      exact fun c hc => (h c hc).1
    have hr : name.toList.any isReserved ≠ true := by
      simp only [List.any_eq_true, ne_eq, not_exists, not_and, Bool.not_eq_true]
      exact fun c hc => (h c hc).2
    rw [if_neg he, if_neg hb, if_neg hr]

/-- **A name that can be typed**: it has a character, and none of its characters ends a name or has
another meaning in queries. -/
def Typeable (name : String) : Prop :=
  name ≠ "" ∧ ∀ c ∈ name.toList, Text.isBlank c = false ∧ c ≠ ':' ∧ c ≠ '"' ∧ c ≠ '\\'

theorem nameFault?_eq_none_iff_typeable {name : String} :
    nameFault? name = none ↔ Typeable name := by
  simp only [nameFault?_eq_none_iff, Typeable, isReserved, Bool.or_eq_false_iff,
    decide_eq_false_iff_not, and_assoc, ne_eq]

/-! ### Errors of a declaration -/

/-- **Why a schema cannot be built or changed.** -/
inductive SchemaError where
  | duplicateName (name : String)
  | invalidName (name : String) (fault : NameFault)
  | emptyChoices (name : String)
  | unknownOption (name : String)
  | sourceNotSupported (name : String)
  deriving DecidableEq

namespace SchemaError

def message : SchemaError → String
  | duplicateName name => "duplicate option name: " ++ name
  | invalidName name fault => "invalid option name " ++ Text.quoted name ++ ": " ++ fault.message
  | emptyChoices name => "enum option " ++ name ++ " declares no choices"
  | unknownOption name => "unknown option: " ++ name
  | sourceNotSupported name => "option " ++ name ++ " does not accept a suggestion source"

end SchemaError

namespace OptionSpec

/-- Whether the kind is an enum without choices. -/
def lacksChoices (spec : OptionSpec) : Bool :=
  match spec.kind with
  | .enum [] => true
  | _ => false

/-- The first reason why an option cannot be declared, whatever the other options are. -/
def fault? (spec : OptionSpec) : Option SchemaError :=
  match nameFault? spec.name with
  | some fault => some (.invalidName spec.name fault)
  | none => if spec.lacksChoices then some (.emptyChoices spec.name) else none

/-- The value a text stands for under the option's kind. -/
def read? (spec : OptionSpec) (text : String) : Option Value := spec.kind.read? text

/-- The option with its source replaced, if its kind can have one. -/
def withSource (spec : OptionSpec) (source : Source) : OptionSpec :=
  { spec with kind := spec.kind.withSource source }

@[simp] theorem name_withSource (spec : OptionSpec) (source : Source) :
    (spec.withSource source).name = spec.name := rfl

@[simp] theorem lacksChoices_withSource (spec : OptionSpec) (source : Source) :
    (spec.withSource source).lacksChoices = spec.lacksChoices := by
  obtain ⟨_, _, _, _, kind⟩ := spec
  cases kind <;> rfl

@[simp] theorem fault?_withSource (spec : OptionSpec) (source : Source) :
    (spec.withSource source).fault? = spec.fault? := by
  simp only [fault?, name_withSource, lacksChoices_withSource]

end OptionSpec

end Searchbar
