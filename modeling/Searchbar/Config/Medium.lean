import Searchbar.Config.Basic

/-!
# The shape of a declaration

A declaration has the same shape in every format, and a format decides how texts, flags, lists and
records are written in it. A **medium** is that decision, for the documents of one format;
`SchemaConfig.ofDoc?` reads a declaration through it. Records are strict: a field that the record
does not have, or has twice, spoils the document.
-/

namespace Searchbar

/-- **How a format writes the parts of a declaration.** -/
structure Medium (Doc : Type) where
  /-- A text. -/
  string? : Doc → Option String
  /-- A text that may be given as absent. -/
  optional? : Doc → Option (Option String)
  /-- A flag. -/
  flag? : Doc → Option Bool
  /-- The items of a list. -/
  items? : Doc → Option (List Doc)
  /-- The components of a record with the given names, as far as they are present. -/
  components? : List String → Doc → Option (List (String × Doc))

variable {Doc α : Type}

namespace Medium

/-- A component that has to be there. -/
def required (read? : Doc → Option α) (fields : List (String × Doc)) (name : String) : Option α :=
  (fields.lookup name).bind read?

/-- A component that may be left out. -/
def optional (read? : Doc → Option α) (absent : α) (fields : List (String × Doc))
    (name : String) : Option α :=
  match fields.lookup name with
  | some doc => read? doc
  | none => some absent

/-- A list of things of one shape. -/
def list? (m : Medium Doc) (read? : Doc → Option α) (doc : Doc) : Option (List α) :=
  (m.items? doc).bind fun items => items.mapM read?

end Medium

open Medium

/-- A declared suggestion. -/
def SuggestionConfig.ofDoc? (m : Medium Doc) (doc : Doc) : Option SuggestionConfig := do
  let fields ← m.components? ["name", "description"] doc
  let name ← required m.string? fields "name"
  let description ← optional m.optional? none fields "description"
  return ⟨name, description⟩

/-- A declared option. -/
def OptionConfig.ofDoc? (m : Medium Doc) (doc : Doc) : Option OptionConfig := do
  let names := ["name", "title", "type", "multiple", "default", "choices", "suggestions"]
  let fields ← m.components? names doc
  let name ← required m.string? fields "name"
  let title ← optional m.optional? none fields "title"
  let typeName ← required m.string? fields "type"
  let multiple ← optional m.flag? false fields "multiple"
  let default ← optional m.optional? none fields "default"
  let choices ← optional (m.list? m.string?) [] fields "choices"
  let suggestions ← optional (m.list? (SuggestionConfig.ofDoc? m)) [] fields "suggestions"
  return ⟨name, title, typeName, multiple, default, choices, suggestions⟩

/-- **The declaration that a document holds.** -/
def SchemaConfig.ofDoc? (m : Medium Doc) (doc : Doc) : Option SchemaConfig := do
  let fields ← m.components? ["options"] doc
  let options ← optional (m.list? (OptionConfig.ofDoc? m)) [] fields "options"
  return ⟨options⟩

end Searchbar
