import Searchbar.Example.Media
import Searchbar.Proofs.Language
import Searchbar.Proofs.Valid

/-!
# Results can be typed back

The query that is printed for a valid result is read without an error, and it means that result
(`parse_print`). The proof names the items of the printed query (`SearchResult.items`), with a blank
between any two, and shows that they split the query and mean the result; what a scan does with them
is known from the language of queries.
-/

namespace Searchbar

/-- What is typed between quotation marks for a text stands for that text. -/
theorem quoted_flatMap_escapedChar (text : List Char) :
    Quoted (text.flatMap escapedChar) text := by
  induction text with
  | nil => exact .nil
  | cons c text ih =>
    rw [List.flatMap_cons]
    unfold escapedChar
    split
    · next h => subst h; exact .quote ih
    · next hq =>
      split
      · next h => subst h; exact .backslash ih
      · next hb =>
        split
        · next h => subst h; exact .newline ih
        · exact .plain hq hb ih

namespace Item

/-- The item that a term is printed as. -/
def ofTerm (term : String) : Item :=
  if needsQuotes term then .quoted (term.toList.flatMap escapedChar) term.toList
  else .word term.toList

/-- The item that a value of the option `name` is printed as. -/
def ofValue (name : String) (v : Value) : Item :=
  if needsQuotes v.text then
    .quotedValue name (v.text.toList.flatMap escapedChar) v.text.toList
  else .value name v.text.toList

theorem typed_ofTerm (term : String) : (ofTerm term).typed = (Searchbar.typed term).toList := by
  unfold ofTerm Searchbar.typed
  split <;> simp [typed]

theorem typed_ofValue (name : String) {v : Value} {kind : OptionKind} (fits : v.Fits kind) :
    (ofValue name v).typed = (name ++ ":" ++ v.typed).toList := by
  rw [fits.typed_eq]
  unfold ofValue Searchbar.typed
  split <;> simp [typed]

theorem wellFormed_ofTerm (schema : Schema) (term : String) : (ofTerm term).WellFormed schema := by
  unfold ofTerm
  split
  · exact quoted_flatMap_escapedChar term.toList
  · next h => exact needsQuotes_eq_false_iff.mp (by simpa using h)

theorem wellFormed_ofValue {schema : Schema} {spec : OptionSpec} {name : String} {v : Value}
    (hget : schema.get? name = some spec) (fits : v.Fits spec.kind) :
    (ofValue name v).WellFormed schema := by
  have taken : Taken schema name v.text.toList :=
    ⟨spec, v, hget, by rw [String.ofList_toList]; exact fits.read?_text⟩
  have hne : v.text.toList ≠ [] := by simpa using fits.text_ne_empty
  unfold ofValue
  split
  · exact ⟨quoted_flatMap_escapedChar _, hne, taken⟩
  · next h =>
    obtain ⟨-, hall⟩ := needsQuotes_eq_false_iff.mp (by simpa using h)
    exact ⟨hne, hall, taken⟩

@[simp] theorem setting?_ofTerm (term : String) : (ofTerm term).setting? = none := by
  unfold ofTerm; split <;> rfl

@[simp] theorem setting?_ofValue (name : String) (v : Value) :
    (ofValue name v).setting? = some (name, v.text) := by
  unfold ofValue; split <;> simp [setting?]

@[simp] theorem term?_ofValue (name : String) (v : Value) : (ofValue name v).term? = none := by
  unfold ofValue; split <;> rfl

theorem term?_ofTerm {term : String} (h : term ≠ "") : (ofTerm term).term? = some term := by
  unfold ofTerm
  split <;> simp [term?, h]

end Item

/-! ### Items with blanks between them -/

section Spaced

variable {schema : Schema} {items : List Item}

/-- Items with one blank between any two. -/
def spaced (items : List Item) : List Item := items.intersperse (.blank [' '])

/-- Blanks add nothing. -/
theorem filterMap_spaced {α : Type} {f : Item → Option α} (h : f (.blank [' ']) = none)
    (items : List Item) : (spaced items).filterMap f = items.filterMap f := by
  induction items with
  | nil => rfl
  | cons item rest ih =>
    cases rest with
    | nil => rfl
    | cons next rest =>
      rw [spaced, List.intersperse_cons_cons, List.filterMap_cons, List.filterMap_cons, h,
        List.filterMap_cons]
      simp only [spaced] at ih
      rw [ih]

/-- A blank ends an open item, so any items with blanks between them split what they are typed
as. -/
theorem split_spaced (wf : ∀ item ∈ items, item.WellFormed schema) :
    Split schema ([' '].intercalate (items.map Item.typed)) (spaced items) := by
  induction items with
  | nil => exact .nil
  | cons item rest ih =>
    have hitem := wf item List.mem_cons_self
    cases rest with
    | nil => simpa [spaced] using Split.cons hitem (fun _ => blankOrEnd_nil) .nil
    | cons next rest =>
      -- the blank ends the item before it, and is itself an item that needs no end
      have hrest := ih fun i hi => wf i (List.mem_cons_of_mem item hi)
      have hspace : Text.isBlank ' ' = true := by decide
      have hblank : (Item.blank [' ']).WellFormed schema := ⟨by simp, by simpa using hspace⟩
      simpa [spaced, List.intercalate] using
        Split.cons hitem (fun _ => blankOrEnd_cons hspace _) (.cons hblank nofun hrest)

end Spaced

/-! ### The items of a printed result -/

namespace SearchResult

/-- The items that a result is printed as. -/
def items (r : SearchResult) : List Item :=
  r.terms.map Item.ofTerm ++ r.options.entries.flatMap fun e => e.2.values.map (Item.ofValue e.1)

namespace Valid

variable {schema : Schema} {r : SearchResult}

theorem fits (h : r.Valid schema) {e : String × Stored} (he : e ∈ r.options.entries) {v : Value}
    (hv : v ∈ e.2.values) : ∃ spec, schema.get? e.1 = some spec ∧ v.Fits spec.kind := by
  obtain ⟨spec, hget, hfits⟩ := h.options e he
  exact ⟨spec, hget, hfits.values v hv⟩

theorem wellFormed (h : r.Valid schema) : ∀ item ∈ r.items, item.WellFormed schema := by
  intro item hi
  rcases List.mem_append.mp hi with hi | hi
  · obtain ⟨term, -, rfl⟩ := List.mem_map.mp hi
    exact Item.wellFormed_ofTerm schema term
  · obtain ⟨e, he, hi⟩ := List.mem_flatMap.mp hi
    obtain ⟨v, hv, rfl⟩ := List.mem_map.mp hi
    obtain ⟨spec, hget, fits⟩ := h.fits he hv
    exact Item.wellFormed_ofValue hget fits

/-- The items are typed as the parts of the printed query. -/
theorem map_typed_items (h : r.Valid schema) :
    r.items.map Item.typed = r.parts.map String.toList := by
  unfold items parts
  rw [List.map_append, List.map_append, List.map_map, List.map_map, List.map_flatMap,
    List.map_flatMap]
  congr 1
  · exact List.map_congr_left fun term _ => Item.typed_ofTerm term
  · refine List.flatMap_congr fun e he => ?_
    rw [List.map_map, List.map_map]
    refine List.map_congr_left fun v hv => ?_
    obtain ⟨spec, -, fits⟩ := h.fits he hv
    exact Item.typed_ofValue e.1 fits

theorem split_print (h : r.Valid schema) : Split schema r.print.toList (spaced r.items) := by
  rw [print, String.toList_intercalate, ← h.map_typed_items]
  exact split_spaced h.wellFormed

theorem term?_items (h : r.Valid schema) : r.items.filterMap Item.term? = r.terms := by
  have terms : (r.terms.map Item.ofTerm).filterMap Item.term? = r.terms := by
    rw [List.filterMap_map]
    calc r.terms.filterMap (Item.term? ∘ Item.ofTerm) = r.terms.filterMap some :=
          List.filterMap_congr fun term ht => Item.term?_ofTerm (h.terms term ht)
      _ = r.terms := List.filterMap_some
  rw [items, List.filterMap_append, terms, List.filterMap_flatMap]
  simp

/-- The printed values of one option are given to that option and to no other. -/
theorem givenValues_ofValue {key : String} {vs : List Value}
    (fits : ∀ v ∈ vs, ∃ spec, schema.get? key = some spec ∧ v.Fits spec.kind) (name : String) :
    givenValues schema name (vs.map (Item.ofValue key)) = if key = name then vs else [] := by
  rw [givenValues, List.filterMap_map]
  split
  · next hn =>
    subst hn
    calc vs.filterMap _ = vs.filterMap some := by
          refine List.filterMap_congr fun v hv => ?_
          obtain ⟨spec, hget, hfits⟩ := fits v hv
          simp [hget, OptionSpec.read?, hfits.read?_text]
      _ = vs := List.filterMap_some
  · next hn => simp [hn]

/-- The values that entries give a name are those of the entry of that name. -/
theorem givenValues_entries {entries : List (String × Stored)}
    (ascending : entries.Pairwise fun a b => a.1 < b.1)
    (fits : ∀ e ∈ entries, ∀ v ∈ e.2.values,
      ∃ spec, schema.get? e.1 = some spec ∧ v.Fits spec.kind) (name : String) :
    givenValues schema name (entries.flatMap fun e => e.2.values.map (Item.ofValue e.1)) =
      ((NameMap.lookup name entries).map Stored.values).getD [] := by
  induction entries with
  | nil => rfl
  | cons e entries ih =>
    obtain ⟨hfirst, hrest⟩ := List.pairwise_cons.mp ascending
    have rest := ih hrest fun e he => fits e (List.mem_cons_of_mem _ he)
    rw [List.flatMap_cons, givenValues_append, rest, NameMap.lookup,
      givenValues_ofValue (fits e List.mem_cons_self)]
    split
    · next hn =>
      -- the names ascend, so no later entry has this one
      subst hn
      simp [NameMap.lookup_eq_none_of_lt hfirst]
    · rfl

theorem givenValues_items (h : r.Valid schema) (name : String) :
    givenValues schema name r.items = r.values name := by
  have terms : givenValues schema name (r.terms.map Item.ofTerm) = [] := by
    simp [givenValues, List.filterMap_map]
  rw [items, givenValues_append, terms, List.nil_append]
  exact givenValues_entries r.options.ascending (fun e he v hv => h.fits he hv) name

/-- What a valid result holds for a name is what an option of the schema can hold. -/
theorem stored_fits (h : r.Valid schema) {name : String} {stored : Stored}
    (hs : r.get? name = some stored) :
    ∃ spec, schema.get? name = some spec ∧ stored.Fits spec :=
  h.options (name, stored) (NameMap.mem_of_lookup hs)

/-- The items of a valid result mean it. -/
theorem means_items (h : r.Valid schema) : Means schema (spaced r.items) r where
  terms := by rw [filterMap_spaced rfl, h.term?_items]
  options name := by
    rw [givenValues, filterMap_spaced rfl, ← givenValues, h.givenValues_items, values]
    cases hs : r.get? name with
    | none => cases schema.get? name <;> rfl
    | some stored =>
      obtain ⟨spec, hget, fits⟩ := h.stored_fits hs
      rw [hget]
      cases stored with
      | single v => simp [fits.1]
      | multi vs =>
        obtain ⟨v, vs, rfl⟩ := List.exists_cons_of_ne_nil fits.2.1
        simp [fits.1]

/-- An option that may be given once is printed at most once. -/
theorem itemized_print (h : r.Valid schema) : Itemized schema r.print (spaced r.items) where
  split := h.split_print
  once spec hspec hm := by
    rw [filterMap_spaced rfl, count_name_eq_length h.wellFormed, h.givenValues_items, values]
    cases hs : r.get? spec.name with
    | none => simp
    | some stored =>
      obtain ⟨spec', hget, fits⟩ := h.stored_fits hs
      obtain rfl : spec = spec' :=
        Option.some.inj ((Schema.get?_eq_some_iff.mpr ⟨hspec, rfl⟩).symm.trans hget)
      cases stored with
      | single v => simp
      | multi vs =>
        -- only an option that may be repeated holds a list
        have := fits.1
        rw [hm] at this
        cases this

end Valid

end SearchResult

/-- **A printed result is typed back.** The query printed for a result that is valid under the
schema is read without an error, and its result is that result. -/
theorem parse_print {schema : Schema} {r : SearchResult} (h : r.Valid schema) :
    (parse schema r.print).error = none ∧ (parse schema r.print).result = r :=
  ⟨parse_error_of_itemized h.itemized_print, (means_parse h.itemized_print).unique h.means_items⟩

namespace Example

/-- A search of the media library: terms and tags with every kind of character that needs quotation
marks, and one value of each other kind, among them the negative zero. -/
def search : SearchResult where
  terms := ["plain", "two words", "a \"quoted\" word", "back\\slash\nand line"]
  options :=
    ⟨[("archived", .single (.boolean true)), ("sort", .single (.enum "newest")),
      ("tag", .multi [.string "x:y", .string "z", .string "x:y"]),
      ("year", .single (.number (.ofMagnitude true 0)))], by decide⟩

theorem valid_search : search.Valid media where
  terms := by decide
  options e he := by
    simp only [search, List.mem_cons, List.not_mem_nil, or_false] at he
    rcases he with rfl | rfl | rfl | rfl <;> exact ⟨_, rfl, by decide⟩

/-- The search of the media library is typed back. -/
theorem parse_print_search : search.Valid media ∧ (parse media search.print).error = none ∧
    (parse media search.print).result = search :=
  ⟨valid_search, parse_print valid_search⟩

end Example

end Searchbar
