import Searchbar.Config.Json
import Searchbar.Json.Query
import Searchbar.Json.Result
import Searchbar.Proofs.JsonExact
import Searchbar.Proofs.JsonText

/-!
# Records from their text

Values, search results, candidates, errors and declarations are written in JSON and read back, each
by its own record: a value names its type in a field beside it, what an option holds is a field that
says whether it is one value or many, an error has a fault with its own case in a field of the same
name, and a declaration leaves out what is absent or empty. `restored_from_json` says for each of
them when the text gives back what was written.

* `Json.components?_obj`: the fields that a record writes are the components it reads, as long as
  they come in the order of the names; the ones that are left out make no difference.
* `SearchResult.ofJson?_toJson_iff`: only numbers can be lost. Names come back in their order, since
  a map keeps its entries ascending.
-/

namespace Searchbar

/-! ### Lists and maps -/

section Lists

variable {α β : Type} {l : List α}

/-- A list is read by reading each member. -/
theorem mapM_eq_some_iff {read? : α → Option β} {made : List β} :
    l.mapM read? = some made ↔ List.Forall₂ (fun a b => read? a = some b) l made := by
  induction l generalizing made with
  | nil => cases made <;> simp
  | cons a rest ih =>
    rw [List.mapM_cons, List.forall₂_cons_left_iff]
    constructor
    · intro h
      obtain ⟨b, hb, h⟩ := Option.bind_eq_some_iff.mp h
      obtain ⟨others, hothers, h⟩ := Option.bind_eq_some_iff.mp h
      exact ⟨b, others, hb, ih.mp hothers, (Option.some.inj h).symm⟩
    · rintro ⟨b, others, hb, hothers, rfl⟩
      simp [hb, ih.mpr hothers]

/-- What is read from a list gives the list back if it does so for each member, and only then. -/
theorem mapM_map_eq_some_iff {write : α → β} {read? : β → Option α} :
    (l.map write).mapM read? = some l ↔ ∀ a ∈ l, read? (write a) = some a := by
  rw [mapM_eq_some_iff, List.forall₂_map_left_iff, List.forall₂_same]

end Lists

namespace NameMap

variable {α : Type}

theorem get?_foldl_insert {l : List (String × α)} (h : l.Pairwise fun a b => a.1 < b.1)
    (m : NameMap α) (name : String) :
    (l.foldl (fun m e => m.insert e.1 e.2) m).get? name = (lookup name l).or (m.get? name) := by
  induction l generalizing m with
  | nil => rfl
  | cons e rest ih =>
    rw [List.pairwise_cons] at h
    rw [List.foldl_cons, ih h.2, get?_insert, lookup]
    by_cases hname : name = e.1
    · -- the names that follow are larger, so this entry is not overwritten
      rw [hname, lookup_eq_none_of_lt h.1]
      simp
    · simp [hname, Ne.symm hname]

/-- Entries in ascending order make the map that has them. -/
theorem ofList_of_ascending {l : List (String × α)} (h : l.Pairwise fun a b => a.1 < b.1) :
    ofList l = ⟨l, h⟩ := by
  apply ext_get?
  intro name
  rw [ofList, get?_foldl_insert h, get?_empty, Option.or_none]
  rfl

end NameMap

namespace Json

variable {α : Type}

/-! ### Components -/

/-- A record whose fields are some of the components in their order, as it is written. -/
theorem components?_obj {names : List String} {fields : List (String × Json)} (strict : Bool)
    (hnodup : names.Nodup) (h : (fields.map Prod.fst).Sublist names) :
    components? strict names (.obj fields) = some fields := by
  have hknown : fields.filter (fun f => names.contains f.1) = fields := by
    rw [List.filter_eq_self]
    intro f hf
    simpa using h.subset (List.mem_map_of_mem hf)
  have hdistinct : (fields.map Prod.fst).Nodup := h.nodup hnodup
  simp only [components?, hknown]
  simp [hdistinct]

/-! ### What can be written -/

@[simp] theorem writable_null : Writable .null := .null

@[simp] theorem writable_bool (b : Bool) : Writable (.bool b) := .bool b

@[simp] theorem writable_str (s : String) : Writable (.str s) := .str s

@[simp] theorem writable_arr {items : List Json} :
    Writable (.arr items) ↔ ∀ j ∈ items, Writable j := by
  constructor
  · intro h
    cases h with
    | arr h => exact h
  · exact Writable.arr

@[simp] theorem writable_obj {fields : List (String × Json)} :
    Writable (.obj fields) ↔ ∀ f ∈ fields, Writable f.2 := by
  constructor
  · intro h
    cases h with
    | obj h => exact h
  · exact Writable.obj

@[simp] theorem writable_ofNat (n : Nat) : Writable (ofNat n) := .num (Numeral.wellFormed_ofNat n)

@[simp] theorem writable_ofBinary64 (x : Binary64) : Writable (ofBinary64 x) := by
  unfold ofBinary64
  split
  · next hx => exact .num (Numeral.wellFormed_ofBinary64 hx)
  · exact .null

/-- **What is written is restored** from either of its texts. -/
structure Restores (read? : Json → Option α) (j : Json) (a : α) : Prop where
  compact : (parse? j.compact).bind read? = some a
  pretty : (parse? j.pretty).bind read? = some a

/-- The text adds nothing to the question, as long as it can be written. -/
theorem Writable.restores_iff {j : Json} (h : Writable j) {read? : Json → Option α} {a : α} :
    Restores read? j a ↔ read? j = some a := by
  constructor
  · intro restored
    simpa [h.parse?_compact] using restored.compact
  · intro hread
    exact ⟨by simp [h.parse?_compact, hread], by simp [h.parse?_pretty, hread]⟩

end Json

/-! ### Search results -/

theorem Json.binary64?_ofBinary64_iff (x : Binary64) :
    (Json.ofBinary64 x).binary64? = some x ↔ x.Kept := by
  unfold Json.ofBinary64
  split
  · next hx => exact ⟨fun h => ⟨hx, h⟩, fun h => h.numeral⟩
  · next hx => exact ⟨fun h => (nomatch h), fun h => absurd h.finite hx⟩

namespace Value

theorem writable_toJson (v : Value) : v.toJson.Writable := by
  cases v <;> simp [toJson]

theorem ofJson?_typed (type : String) (j : Json) :
    ofJson? (.obj [("type", .str type), ("value", j)]) = ofTyped? type j := by
  rw [ofJson?, Json.components?_obj false (by decide) (by simp)]
  rfl

/-- **A value is read back**, a number if JSON keeps it. -/
theorem ofJson?_toJson_iff (v : Value) :
    ofJson? v.toJson = some v ↔ ∀ x, v.number? = some x → x.Kept := by
  cases v with
  | number x =>
    rw [toJson, ofJson?_typed]
    simp [ofTyped?, number?, Json.binary64?_ofBinary64_iff]
  | string s | enum s | boolean b =>
    rw [toJson, ofJson?_typed]
    simp [ofTyped?, number?, Json.string?, Json.bool?]

end Value

namespace Stored

/-- The numbers that an option holds. -/
def numbers (s : Stored) : List Binary64 := s.values.filterMap Value.number?

theorem writable_toJson (s : Stored) : s.toJson.Writable := by
  cases s <;> simp [toJson, Value.writable_toJson]

theorem ofJson?_toJson_iff_values (s : Stored) :
    ofJson? s.toJson = some s ↔ ∀ v ∈ s.values, Value.ofJson? v.toJson = some v := by
  cases s with
  | single v => simp [toJson, ofJson?]
  | multi vs =>
    rw [values, ← mapM_map_eq_some_iff]
    simp [toJson, ofJson?, Json.items?]

/-- **What an option holds is read back** if JSON keeps its numbers. -/
theorem ofJson?_toJson_iff (s : Stored) :
    ofJson? s.toJson = some s ↔ ∀ x ∈ s.numbers, x.Kept := by
  rw [ofJson?_toJson_iff_values, numbers, List.forall_mem_filterMap]
  simp only [Value.ofJson?_toJson_iff]

end Stored

namespace SearchResult

/-- The numbers of a result. -/
def numbers (r : SearchResult) : List Binary64 := r.options.entries.flatMap fun e => e.2.numbers

theorem writable_toJson (r : SearchResult) : r.toJson.Writable := by
  have hoptions : ∀ f ∈ r.options.entries.map fun e => (e.1, e.2.toJson), f.2.Writable := by
    rw [List.forall_mem_map]
    exact fun e _ => e.2.writable_toJson
  rw [toJson, Json.writable_obj, List.forall_mem_cons, List.forall_mem_singleton]
  exact ⟨by simp, Json.writable_obj.mpr hoptions⟩

theorem ofJson?_record (terms : List Json) (options : Json) :
    ofJson? (.obj [("free_text", .arr terms), ("options", options)]) =
      (terms.mapM Json.string?).bind fun terms =>
        (optionsOfJson? options).bind fun options => some ⟨terms, options⟩ := by
  rw [ofJson?, Json.components?_obj false (by decide) (by simp)]
  rfl

/-- One option of a result from JSON. -/
def entryOfJson? (f : String × Json) : Option (String × Stored) :=
  (Stored.ofJson? f.2).map fun stored => (f.1, stored)

/-- Reading the options keeps their names. -/
theorem keys_of_mapM_entryOfJson? {fields : List (String × Json)} {l : List (String × Stored)}
    (h : fields.mapM entryOfJson? = some l) : l.map Prod.fst = fields.map Prod.fst := by
  rw [mapM_eq_some_iff] at h
  induction h with
  | nil => rfl
  | cons hentry _ ih =>
    obtain ⟨stored, -, rfl⟩ := Option.map_eq_some_iff.mp hentry
    rw [List.map_cons, List.map_cons, ih]

theorem optionsOfJson?_iff (m : NameMap Stored) :
    optionsOfJson? (.obj (m.entries.map fun e => (e.1, e.2.toJson))) = some m ↔
      ∀ e ∈ m.entries, Stored.ofJson? e.2.toJson = some e.2 := by
  have hentries : ∀ e ∈ m.entries,
      entryOfJson? (e.1, e.2.toJson) = some e ↔ Stored.ofJson? e.2.toJson = some e.2 := by
    rintro ⟨name, stored⟩ -
    simp [entryOfJson?]
  rw [← forall₂_congr hentries, ← mapM_map_eq_some_iff]
  constructor
  · intro h
    obtain ⟨l, hl, hm⟩ := Option.map_eq_some_iff.mp h
    -- the names are those of the map, so the entries that were read are in order already
    have hkeys : l.map Prod.fst = m.entries.map Prod.fst := by
      rw [keys_of_mapM_entryOfJson? hl, List.map_map]
      rfl
    have hascending : l.Pairwise fun a b => a.1 < b.1 := by
      rw [← List.pairwise_map, hkeys, List.pairwise_map]
      exact m.ascending
    rw [NameMap.ofList_of_ascending hascending] at hm
    exact hl.trans (congrArg (some ∘ NameMap.entries) hm)
  · intro h
    refine Option.map_eq_some_iff.mpr ⟨m.entries, h, ?_⟩
    exact NameMap.ofList_of_ascending m.ascending

/-- **A result is read back** if JSON keeps its numbers. -/
theorem ofJson?_toJson_iff (r : SearchResult) :
    ofJson? r.toJson = some r ↔ ∀ x ∈ r.numbers, x.Kept := by
  have hterms : (r.terms.map Json.str).mapM Json.string? = some r.terms :=
    mapM_map_eq_some_iff.mpr fun _ _ => rfl
  have hkept : (∀ x ∈ r.numbers, x.Kept) ↔
      ∀ e ∈ r.options.entries, Stored.ofJson? e.2.toJson = some e.2 := by
    simp only [numbers, List.forall_mem_flatMap, Stored.ofJson?_toJson_iff]
  rw [toJson, ofJson?_record, hterms, Option.bind_some, hkept, ← optionsOfJson?_iff,
    Option.bind_eq_some_iff]
  constructor
  · rintro ⟨options, hoptions, heq⟩
    rw [hoptions, ← Option.some.inj heq]
  · intro h
    exact ⟨r.options, h, rfl⟩

end SearchResult

/-! ### Candidates -/

namespace Candidate

theorem writable_toJson (c : Candidate) : c.toJson.Writable := by
  cases hd : c.description <;> simp [toJson, hd]

/-- **A candidate is read back**, with or without a description. -/
theorem ofJson?_toJson (c : Candidate) : ofJson? c.toJson = some c := by
  obtain ⟨name, description⟩ := c
  cases description with
  | none | some d =>
    rw [ofJson?, toJson, Json.components?_obj false (by decide) (by simp)]
    rfl

end Candidate

/-! ### Errors -/

namespace SyntaxFault

theorem writable_toJson (f : SyntaxFault) : f.toJson.Writable := by
  cases f <;> simp [toJson, parts]

/-- The components of a fault in JSON. -/
def texts (components : List (String × String)) : List (String × Json) :=
  components.map fun p => (p.1, .str p.2)

theorem areReadableFields_texts (room : Nat) (components : List (String × String)) :
    Json.areReadableFields room (texts components) = true := by
  induction components with
  | nil => rfl
  | cons p rest ih => exact ih

/-- The case comes from the field `kind` and the components from the others. -/
theorem ofJson?_case {case : String} {components : List (String × String)}
    (h : ∀ p ∈ components, p.1 ≠ "kind") :
    ofJson? (.obj (("kind", .str case) :: texts components)) =
      ofCase? case (.obj (texts components)) := by
  have hothers : ∀ f ∈ texts components, f.1 ≠ "kind" := by
    rw [texts, List.forall_mem_map]
    exact h
  have hkind : (texts components).filter (fun f => f.1 == "kind") = [] := by
    simpa using hothers
  have hrest : (texts components).filter (fun f => f.1 != "kind") = texts components := by
    simpa using hothers
  simp [ofJson?, hkind, hrest, areReadableFields_texts]

/-- A fault is read back. -/
theorem ofJson?_toJson (f : SyntaxFault) : ofJson? f.toJson = some f := by
  have hread : ofJson? f.toJson = ofCase? f.parts.1 (.obj (texts f.parts.2)) :=
    ofJson?_case (by cases f <;> simp [parts])
  rw [hread]
  cases f with
  | unexpectedQuote | unexpectedEscape | unexpectedColon | invalidEscape | missingQuote => rfl
  | unknownOption name | repeatedOption name | missingValue name => rfl
  | invalidValue name expected value => rfl

end SyntaxFault

namespace ParseError

theorem writable_toJson (e : ParseError) : e.toJson.Writable := by
  simp [toJson, SyntaxFault.writable_toJson]

/-- **An error is read back** if its offset fits into 64 bits. -/
theorem ofJson?_toJson_iff (e : ParseError) :
    ofJson? e.toJson = some e ↔ e.position < wordLimit := by
  obtain ⟨position, fault⟩ := e
  have hposition : (Json.ofNat position).nat? =
      if position < wordLimit then some position else none :=
    Json.Numeral.toNat?_ofNat position
  rw [toJson, ofJson?, Json.components?_obj false (by decide) (by simp)]
  by_cases h : position < wordLimit <;>
    simp [List.lookup_cons, hposition, SyntaxFault.ofJson?_toJson, h]

end ParseError

/-! ### Fields that may be left out -/

namespace Json

/-- A text that is written if it is present. -/
def textField (name : String) (s : Option String) : List (String × Json) :=
  s.toList.map fun s => (name, .str s)

/-- A list that is written if it is not empty. -/
def listField (name : String) (items : List Json) : List (String × Json) :=
  if items.isEmpty then [] else [(name, .arr items)]

theorem names_textField (name : String) (s : Option String) :
    ((textField name s).map Prod.fst).Sublist [name] := by
  cases s <;> simp [textField]

theorem names_listField (name : String) (items : List Json) :
    ((listField name items).map Prod.fst).Sublist [name] := by
  unfold listField
  split <;> simp

theorem writable_textField {name : String} {s : Option String} :
    ∀ f ∈ textField name s, f.2.Writable := by
  cases s <;> simp [textField]

theorem writable_listField {name : String} {items : List Json} (h : ∀ j ∈ items, j.Writable) :
    ∀ f ∈ listField name items, f.2.Writable := by
  unfold listField
  split
  · simp
  · simpa using h

theorem lookup_singleton (key name : String) (j : Json) :
    [(name, j)].lookup key = if key = name then some j else none := by
  by_cases h : key = name
  · simp [h]
  · simp [List.lookup_cons, h, beq_eq_false_iff_ne.mpr h]

@[simp] theorem lookup_textField (key name : String) (s : Option String) :
    (textField name s).lookup key = if key = name then s.map .str else none := by
  cases s with
  | none => simp [textField]
  | some text => exact lookup_singleton key name (.str text)

@[simp] theorem lookup_listField (key name : String) (items : List Json) :
    (listField name items).lookup key =
      if key = name then (if items.isEmpty then none else some (.arr items)) else none := by
  unfold listField
  split
  · simp
  · exact lookup_singleton key name (.arr items)

variable {α : Type} {fields : List (String × Json)} {name : String}

theorem required_text {s : String} (h : fields.lookup name = some (.str s)) :
    Medium.required medium.string? fields name = some s := by
  rw [Medium.required, h]
  rfl

theorem optional_text {s : Option String} (h : fields.lookup name = s.map .str) :
    Medium.optional medium.optional? none fields name = some s := by
  rw [Medium.optional, h]
  cases s <;> rfl

theorem optional_flag {b : Bool} (h : fields.lookup name = some (.bool b)) :
    Medium.optional medium.flag? false fields name = some b := by
  rw [Medium.optional, h]
  rfl

theorem optional_list (write : α → Json) {read? : Json → Option α} {l : List α}
    (h : fields.lookup name =
      if (l.map write).isEmpty then none else some (.arr (l.map write)))
    (hread : ∀ a ∈ l, read? (write a) = some a) :
    Medium.optional (medium.list? read?) [] fields name = some l := by
  rw [Medium.optional, h]
  cases l with
  -- the list was left out, and what is absent is read as the empty list
  | nil => rfl
  | cons a rest => exact mapM_map_eq_some_iff.mpr hread

end Json

/-! ### Declarations -/

namespace SuggestionConfig

theorem writable_toJson (s : SuggestionConfig) : s.toJson.Writable := by
  cases hd : s.description <;> simp [toJson, hd]

theorem ofDoc?_toJson (s : SuggestionConfig) : ofDoc? Json.medium s.toJson = some s := by
  obtain ⟨name, description⟩ := s
  have hfields : Json.medium.components? ["name", "description"] (toJson ⟨name, description⟩) =
      some (("name", .str name) :: Json.textField "description" description) :=
    Json.components?_obj true (by decide) ((Json.names_textField _ _).cons_cons "name")
  rw [ofDoc?, hfields]
  cases description <;> rfl

end SuggestionConfig

namespace OptionConfig

/-- The fields of a declared option. -/
def fields (c : OptionConfig) : List (String × Json) :=
  [("name", .str c.name)] ++ Json.textField "title" c.title ++
    [("type", .str c.typeName), ("multiple", .bool c.multiple)] ++
    Json.textField "default" c.default ++ Json.listField "choices" (c.choices.map Json.str) ++
    Json.listField "suggestions" (c.suggestions.map SuggestionConfig.toJson)

theorem toJson_eq (c : OptionConfig) : c.toJson = .obj c.fields := rfl

theorem writable_toJson (c : OptionConfig) : c.toJson.Writable := by
  rw [toJson_eq, Json.writable_obj]
  simp only [fields, List.forall_mem_append]
  refine ⟨⟨⟨⟨⟨by simp, Json.writable_textField⟩, by simp⟩, Json.writable_textField⟩, ?_⟩, ?_⟩
  · exact Json.writable_listField (by simp)
  · exact Json.writable_listField (by simp [SuggestionConfig.writable_toJson])

theorem names_fields (c : OptionConfig) : (c.fields.map Prod.fst).Sublist
    ["name", "title", "type", "multiple", "default", "choices", "suggestions"] := by
  simp only [fields, List.map_append]
  exact (((((List.Sublist.refl ["name"]).append (Json.names_textField _ _)).append
    (List.Sublist.refl ["type", "multiple"])).append (Json.names_textField _ _)).append
    (Json.names_listField _ _)).append (Json.names_listField _ _)

/-- **A declared option is read back**, whichever of its parts are left out. -/
theorem ofDoc?_toJson (c : OptionConfig) : ofDoc? Json.medium c.toJson = some c := by
  have hfields : Json.medium.components?
      ["name", "title", "type", "multiple", "default", "choices", "suggestions"] c.toJson =
      some c.fields := Json.components?_obj true (by decide) c.names_fields
  -- each component is found under its name, whatever was left out before it
  have hname : Medium.required Json.medium.string? c.fields "name" = some c.name := rfl
  have htitle : Medium.optional Json.medium.optional? none c.fields "title" = some c.title :=
    Json.optional_text (by simp [fields, List.lookup_cons, List.lookup_append])
  have htype : Medium.required Json.medium.string? c.fields "type" = some c.typeName :=
    Json.required_text (by simp [fields, List.lookup_cons, List.lookup_append])
  have hmultiple : Medium.optional Json.medium.flag? false c.fields "multiple" = some c.multiple :=
    Json.optional_flag (by simp [fields, List.lookup_cons, List.lookup_append])
  have hdefault : Medium.optional Json.medium.optional? none c.fields "default" = some c.default :=
    Json.optional_text (by simp [fields, List.lookup_cons, List.lookup_append])
  have hchoices : Medium.optional (Json.medium.list? Json.medium.string?) [] c.fields "choices" =
      some c.choices :=
    Json.optional_list Json.str (by simp [fields, List.lookup_cons, List.lookup_append])
      fun _ _ => rfl
  have hsuggestions : Medium.optional (Json.medium.list? (SuggestionConfig.ofDoc? Json.medium)) []
      c.fields "suggestions" = some c.suggestions :=
    Json.optional_list SuggestionConfig.toJson
      (by simp [fields, List.lookup_cons, List.lookup_append]) fun s _ => s.ofDoc?_toJson
  simp [ofDoc?, hfields, hname, htitle, htype, hmultiple, hdefault, hchoices, hsuggestions]

end OptionConfig

namespace SchemaConfig

theorem writable_toJson (c : SchemaConfig) : c.toJson.Writable := by
  simp [toJson, OptionConfig.writable_toJson]

/-- **A declaration is read back.** -/
theorem ofJson?_toJson (c : SchemaConfig) : ofJson? c.toJson = some c := by
  let fields : List (String × Json) := [("options", .arr (c.options.map OptionConfig.toJson))]
  have hnames : (fields.map Prod.fst).Sublist ["options"] := List.Sublist.refl ["options"]
  have hfields : Json.medium.components? ["options"] c.toJson = some fields :=
    Json.components?_obj true (List.nodup_singleton "options") hnames
  have hoptions : Medium.optional (Json.medium.list? (OptionConfig.ofDoc? Json.medium)) [] fields
      "options" = some c.options :=
    mapM_map_eq_some_iff.mpr fun option _ => option.ofDoc?_toJson
  simp [ofJson?, ofDoc?, hfields, hoptions]

end SchemaConfig

/-! ### Everything that is written -/

/-- **What is restored from JSON**, whichever of its two texts is read: candidates and declarations
always, an error if its offset fits into 64 bits, and what holds numbers exactly if every one of
them is kept. The numbers with short numerals are. -/
structure RestoredFromJson : Prop where
  result : ∀ r : SearchResult,
    Json.Restores SearchResult.ofJson? r.toJson r ↔ ∀ x ∈ r.numbers, x.Kept
  stored : ∀ s : Stored, Json.Restores Stored.ofJson? s.toJson s ↔ ∀ x ∈ s.numbers, x.Kept
  value : ∀ v : Value,
    Json.Restores Value.ofJson? v.toJson v ↔ ∀ x, v.number? = some x → x.Kept
  number : ∀ x : Binary64, x.isFinite = true → (Json.Numeral.ofBinary64 x).Short → x.Kept
  error : ∀ e : ParseError,
    Json.Restores ParseError.ofJson? e.toJson e ↔ e.position < wordLimit
  candidate : ∀ c : Candidate, Json.Restores Candidate.ofJson? c.toJson c
  declaration : ∀ c : SchemaConfig, Json.Restores SchemaConfig.ofJson? c.toJson c

theorem restored_from_json : RestoredFromJson where
  result r := r.writable_toJson.restores_iff.trans r.ofJson?_toJson_iff
  stored s := s.writable_toJson.restores_iff.trans s.ofJson?_toJson_iff
  value v := v.writable_toJson.restores_iff.trans v.ofJson?_toJson_iff
  number _ := Binary64.kept_of_short
  error e := e.writable_toJson.restores_iff.trans e.ofJson?_toJson_iff
  candidate c := c.writable_toJson.restores_iff.mpr c.ofJson?_toJson
  declaration c := c.writable_toJson.restores_iff.mpr c.ofJson?_toJson

/-- A result with a term that has to be escaped and the number `7.5`. -/
theorem restored_from_json_rating :
    let rating : Binary64 := ⟨false, 0x401E000000000000, by decide⟩
    let r : SearchResult :=
      ⟨["a \"b\"\n"], NameMap.empty.insert "rating" (.multi [.number rating, .boolean true])⟩
    rating.isFinite = true ∧ (Json.Numeral.ofBinary64 rating).Short ∧
      Json.Restores SearchResult.ofJson? r.toJson r := by
  intro rating r
  have hfinite : rating.isFinite = true := by decide
  have hshort : (Json.Numeral.ofBinary64 rating).Short :=
    ⟨by decide +kernel, by decide +kernel⟩
  refine ⟨hfinite, hshort, (restored_from_json.result r).mpr ?_⟩
  intro x hx
  obtain rfl : x = rating := List.mem_singleton.mp hx
  exact restored_from_json.number _ hfinite hshort

end Searchbar
