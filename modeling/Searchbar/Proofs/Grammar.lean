import Searchbar.Proofs.ScanStep

/-!
# The grammar of queries

A query without errors is a sequence of **items**: runs of blanks, bare words, quoted texts, and
options with a bare or a quoted value. This module says what the items are, when a text splits into
items (`Split`), and what a sequence of items means (`Means`), without speaking of a scan.

* `Quoted` relates what is typed between quotation marks to the text it stands for.
* `Itemized` is a split of a query in which no option is repeated that must not be.
* `Item.apply` is the meaning of an item as a change of a result, and `means_foldl_apply` says that
  the changes of all items, one after the other, make up the meaning of the query.
-/

namespace Searchbar

/-- **What is typed between quotation marks**, and the text it stands for. -/
inductive Quoted : List Char → List Char → Prop
  | nil : Quoted [] []
  | plain {c : Char} {typed text : List Char} (hq : c ≠ '"') (hb : c ≠ '\\')
      (h : Quoted typed text) : Quoted (c :: typed) (c :: text)
  | newline {typed text : List Char} (h : Quoted typed text) :
      Quoted ('\\' :: 'n' :: typed) ('\n' :: text)
  | quote {typed text : List Char} (h : Quoted typed text) :
      Quoted ('\\' :: '"' :: typed) ('"' :: text)
  | backslash {typed text : List Char} (h : Quoted typed text) :
      Quoted ('\\' :: '\\' :: typed) ('\\' :: text)

theorem unescape?_eq_some_iff {c e : Char} :
    unescape? c = some e ↔ (c = 'n' ∧ e = '\n') ∨ (c = '"' ∧ e = '"') ∨ (c = '\\' ∧ e = '\\') := by
  unfold unescape?
  split
  · next h => subst h; simp [eq_comm]
  · split
    · next h => subst h; simp [eq_comm]
    · split
      · next h => subst h; simp [eq_comm]
      · next h₁ h₂ h₃ => simp [h₁, h₂, h₃]

/-- The escapes of a quoted text are those that a scan knows. -/
theorem Quoted.escape {c e : Char} {typed text : List Char} (he : unescape? c = some e)
    (h : Quoted typed text) : Quoted ('\\' :: c :: typed) (e :: text) := by
  rcases unescape?_eq_some_iff.mp he with ⟨rfl, rfl⟩ | ⟨rfl, rfl⟩ | ⟨rfl, rfl⟩
  · exact .newline h
  · exact .quote h
  · exact .backslash h

/-- **An item of a query.** A quoted one comes with what is typed and with the text it stands for. -/
inductive Item where
  | blank (typed : List Char)
  | word (text : List Char)
  | quoted (body text : List Char)
  | value (name : String) (text : List Char)
  | quotedValue (name : String) (body text : List Char)

namespace Item

/-- The item as it stands in the query. -/
def typed : Item → List Char
  | blank typed => typed
  | word text => text
  | quoted body _ => '"' :: (body ++ ['"'])
  | value name text => name.toList ++ ':' :: text
  | quotedValue name body _ => name.toList ++ ':' :: '"' :: (body ++ ['"'])

/-- Whether the item goes on until a blank or the end of the query. -/
def isOpen : Item → Bool
  | word _ => true
  | value _ _ => true
  | _ => false

/-- The term that a free text gives. A quotation of nothing gives none. -/
def term? : Item → Option String
  | word text => some (String.ofList text)
  | quoted _ text => if text = [] then none else some (String.ofList text)
  | _ => none

/-- The name and the text of an option's value. -/
def setting? : Item → Option (String × String)
  | value name text => some (name, String.ofList text)
  | quotedValue name _ text => some (name, String.ofList text)
  | _ => none

/-- The option that the item sets. -/
def name? (item : Item) : Option String := item.setting?.map Prod.fst

/-- The schema has the option, and the text is one of its values. -/
def Taken (schema : Schema) (name : String) (text : List Char) : Prop :=
  ∃ spec v, schema.get? name = some spec ∧ spec.read? (String.ofList text) = some v

/-- The item is what its class says. -/
def WellFormed (schema : Schema) : Item → Prop
  | blank typed => typed ≠ [] ∧ ∀ c ∈ typed, Text.isBlank c = true
  | word text => text ≠ [] ∧ ∀ c ∈ text, isOrdinary c = true
  | quoted body text => Quoted body text
  | value name text => text ≠ [] ∧ (∀ c ∈ text, isOrdinary c = true) ∧ Taken schema name text
  | quotedValue name body text => Quoted body text ∧ text ≠ [] ∧ Taken schema name text

/-- An item is not empty. -/
theorem WellFormed.typed_ne_nil {schema : Schema} {item : Item} (wf : item.WellFormed schema) :
    item.typed ≠ [] := by
  cases item with
  | blank typed => exact wf.1
  | word text => exact wf.1
  | _ => simp [typed]

end Item

/-- A blank follows, or nothing. -/
def BlankOrEnd (rest : List Char) : Prop := ∀ c ∈ rest.head?, Text.isBlank c = true

theorem blankOrEnd_nil : BlankOrEnd [] := by simp [BlankOrEnd]

theorem blankOrEnd_cons {c : Char} (h : Text.isBlank c = true) (rest : List Char) :
    BlankOrEnd (c :: rest) := by
  simpa [BlankOrEnd] using h

/-- **A text split into items.** -/
inductive Split (schema : Schema) : List Char → List Item → Prop
  | nil : Split schema [] []
  | cons {item : Item} {rest : List Char} {items : List Item} (wf : item.WellFormed schema)
      (ends : item.isOpen = true → BlankOrEnd rest) (h : Split schema rest items) :
      Split schema (item.typed ++ rest) (item :: items)

/-- **An itemized query**: a split in which an option that may be given once is given at most
once. -/
structure Itemized (schema : Schema) (query : String) (items : List Item) : Prop where
  split : Split schema query.toList items
  once : ∀ spec ∈ schema.options, spec.multiple = false →
    (items.filterMap Item.name?).count spec.name ≤ 1

/-- The values that the items give the option `name`, in order. -/
def givenValues (schema : Schema) (name : String) (items : List Item) : List Value :=
  items.filterMap fun item => item.setting?.bind fun setting =>
    if setting.1 = name then (schema.get? name).bind fun spec => spec.read? setting.2 else none

theorem givenValues_append (schema : Schema) (name : String) (items more : List Item) :
    givenValues schema name (items ++ more) =
      givenValues schema name items ++ givenValues schema name more :=
  List.filterMap_append

/-- **What a sequence of items means**: the terms in order, and for each option that is given its
values in order, or its one value. -/
structure Means (schema : Schema) (items : List Item) (r : SearchResult) : Prop where
  terms : r.terms = items.filterMap Item.term?
  options : ∀ name, r.get? name =
    match schema.get? name, givenValues schema name items with
    | some spec, v :: vs => some (if spec.multiple then .multi (v :: vs) else .single v)
    | _, _ => none

/-- A sequence of items means one result. -/
theorem Means.unique {schema : Schema} {items : List Item} {r r' : SearchResult}
    (h : Means schema items r) (h' : Means schema items r') : r = r' :=
  SearchResult.ext_get? (h.terms.trans h'.terms.symm) fun name =>
    (h.options name).trans (h'.options name).symm

/-! ### Items as changes of a result -/

/-- The result with the value that `text` stands for stored under `name`. -/
def SearchResult.set (r : SearchResult) (schema : Schema) (name text : String) : SearchResult :=
  match schema.get? name with
  | none => r
  | some spec =>
    match spec.read? text with
    | none => r
    | some v => r.store spec v

namespace Item

/-- **What an item does to a result.** -/
def apply (schema : Schema) (r : SearchResult) (item : Item) : SearchResult :=
  match item with
  | blank _ => r
  | word text => r.push (String.ofList text)
  | quoted _ text => r.push (String.ofList text)
  | value name text => r.set schema name (String.ofList text)
  | quotedValue name _ text => r.set schema name (String.ofList text)

/-- The option that the item sets may be set: it may be repeated or is not there yet. -/
def Admissible (schema : Schema) (r : SearchResult) (item : Item) : Prop :=
  ∀ name ∈ item.name?, ∀ spec, schema.get? name = some spec →
    spec.multiple = true ∨ r.contains name = false

theorem admissible_of_name {schema : Schema} {r : SearchResult} {item : Item}
    (h : item.name? = none) : item.Admissible schema r := by
  simp [Admissible, h]

end Item

/-- The options that the items set may all be set, one after the other. -/
def Admits (schema : Schema) (r : SearchResult) (items : List Item) : Prop :=
  ∀ spec ∈ schema.options, spec.multiple = false →
    (if r.contains spec.name then 1 else 0) + (items.filterMap Item.name?).count spec.name ≤ 1

/-- **An item either adds a term or stores a value.** A run of blanks adds the empty term, which is
none. -/
theorem Item.WellFormed.effect {schema : Schema} {item : Item} (wf : item.WellFormed schema) :
    (∃ term, item.setting? = none ∧ item.term? = (if term = "" then none else some term) ∧
        ∀ r, item.apply schema r = r.push term) ∨
      ∃ spec text v, item.setting? = some (spec.name, text) ∧ item.term? = none ∧
        schema.get? spec.name = some spec ∧ spec.read? text = some v ∧
        ∀ r, item.apply schema r = r.store spec v := by
  have stored : ∀ {name text}, Taken schema name text → ∃ spec v, name = spec.name ∧
      schema.get? spec.name = some spec ∧ spec.read? (String.ofList text) = some v ∧
      ∀ r : SearchResult, r.set schema name (String.ofList text) = r.store spec v := by
    rintro name text ⟨spec, v, hget, hread⟩
    obtain ⟨-, rfl⟩ := Schema.get?_eq_some_iff.mp hget
    exact ⟨spec, v, rfl, hget, hread, fun r => by simp [SearchResult.set, hget, hread]⟩
  cases item with
  | blank typed => exact .inl ⟨"", rfl, rfl, fun r => rfl⟩
  | word text => exact .inl ⟨String.ofList text, rfl, by simp [term?, wf.1], fun r => rfl⟩
  | quoted body text => exact .inl ⟨String.ofList text, rfl, by simp [term?], fun r => rfl⟩
  | value name text =>
    obtain ⟨spec, v, rfl, hget, hread, happly⟩ := stored wf.2.2
    exact .inr ⟨spec, String.ofList text, v, rfl, rfl, hget, hread, happly⟩
  | quotedValue name body text =>
    obtain ⟨spec, v, rfl, hget, hread, happly⟩ := stored wf.2.2
    exact .inr ⟨spec, String.ofList text, v, rfl, rfl, hget, hread, happly⟩

/-- Items may be set one after the other when the first may be set and the others may after it. -/
theorem admits_cons {schema : Schema} {r : SearchResult} {item : Item} {items : List Item}
    (wf : item.WellFormed schema) :
    Admits schema r (item :: items) ↔
      item.Admissible schema r ∧ Admits schema (item.apply schema r) items := by
  rcases wf.effect with ⟨term, hset, -, happly⟩ | ⟨spec, text, v, hset, -, hget, hread, happly⟩
  · -- a term sets no option
    have hname : item.name? = none := by simp [Item.name?, hset]
    simp [Admits, Item.Admissible, hname, happly]
  · have hname : item.name? = some spec.name := by simp [Item.name?, hset]
    have hspec := (Schema.get?_eq_some_iff.mp hget).1
    have unique : ∀ other ∈ schema.options, other.name = spec.name → other = spec :=
      fun other ho hn => Schema.eq_of_name_eq ho hspec hn
    rw [happly]
    constructor
    · intro h
      refine ⟨?_, fun other ho hm => ?_⟩
      · intro name hn spec' hget'
        obtain rfl : spec.name = name := by simpa [hname] using hn
        obtain rfl : spec = spec' := Option.some.inj (hget.symm.trans hget')
        cases hm : spec.multiple with
        | true => exact .inl rfl
        | false =>
          -- the item counts one for its option, so the result counts none
          have := h spec hspec hm
          rw [List.filterMap_cons_some hname, List.count_cons_self] at this
          cases hc : r.contains spec.name with
          | false => exact .inr rfl
          | true =>
            rw [hc, if_pos rfl] at this
            omega
      · -- what the item counted is counted by the result now
        have := h other ho hm
        rw [List.filterMap_cons_some hname, List.count_cons] at this
        rw [SearchResult.contains_store]
        by_cases hn : other.name = spec.name
        · simp only [hn, beq_self_eq_true, if_true, Bool.true_or] at this ⊢
          omega
        · simpa [hn, Ne.symm hn] using this
    · rintro ⟨hfirst, hrest⟩ other ho hm
      have := hrest other ho hm
      rw [SearchResult.contains_store] at this
      rw [List.filterMap_cons_some hname, List.count_cons]
      by_cases hn : other.name = spec.name
      · obtain rfl := unique other ho hn
        have hc : r.contains other.name = false := by
          rcases hfirst other.name hname other hget with h | h
          · rw [hm] at h
            cases h
          · exact h
        simp only [hc, beq_self_eq_true, if_true, Bool.true_or, Bool.false_eq_true,
          if_false] at this ⊢
        omega
      · simpa [hn, Ne.symm hn] using this

/-! ### The meaning of all items -/

theorem givenValues_eq_nil {schema : Schema} {name : String} {items : List Item}
    (h : (items.filterMap Item.name?).count name = 0) : givenValues schema name items = [] := by
  rw [List.count_eq_zero] at h
  refine List.filterMap_eq_nil_iff.mpr fun item hi => ?_
  cases hset : item.setting? with
  | none => rfl
  | some setting =>
    have hne : setting.1 ≠ name := by
      rintro rfl
      exact h (List.mem_filterMap.mpr ⟨item, hi, by simp [Item.name?, hset]⟩)
    simp [hne]

/-- An option is given as many values as there are items that set it. -/
theorem count_name_eq_length {schema : Schema} {items : List Item}
    (wf : ∀ item ∈ items, item.WellFormed schema) (name : String) :
    (items.filterMap Item.name?).count name = (givenValues schema name items).length := by
  induction items with
  | nil => rfl
  | cons item items ih =>
    have rest := ih fun i hi => wf i (List.mem_cons_of_mem item hi)
    rcases (wf item List.mem_cons_self).effect with
      ⟨term, hset, -, -⟩ | ⟨spec, text, v, hset, -, hget, hread, -⟩
    · have hname : item.name? = none := by simp [Item.name?, hset]
      simpa [hname, givenValues, hset] using rest
    · have hname : item.name? = some spec.name := by simp [Item.name?, hset]
      by_cases hn : spec.name = name
      · subst hn
        simpa [hname, givenValues, hset, hget, hread] using rest
      · simpa [hname, givenValues, hset, hn] using rest

/-- The terms of the items follow those that are there. -/
theorem foldl_apply_terms {schema : Schema} {items : List Item}
    (wf : ∀ item ∈ items, item.WellFormed schema) (r : SearchResult) :
    (items.foldl (Item.apply schema) r).terms = r.terms ++ items.filterMap Item.term? := by
  induction items generalizing r with
  | nil => simp
  | cons item items ih =>
    rw [List.foldl_cons, ih fun i hi => wf i (List.mem_cons_of_mem item hi)]
    rcases (wf item List.mem_cons_self).effect with
      ⟨term, -, hterm, happly⟩ | ⟨spec, text, v, -, hterm, -, -, happly⟩
    · by_cases ht : term = ""
      · simp [happly, hterm, ht]
      · simp [happly, hterm, ht, SearchResult.push_of_ne r ht]
    · simp [happly, hterm]

/-- The values of the items follow those that an option holds. -/
theorem foldl_apply_get? {schema : Schema} {items : List Item}
    (wf : ∀ item ∈ items, item.WellFormed schema) {r : SearchResult}
    (admits : Admits schema r items) (name : String) :
    (items.foldl (Item.apply schema) r).get? name =
      match schema.get? name, givenValues schema name items with
      | some spec, v :: vs =>
        some (if spec.multiple then .multi (r.values name ++ v :: vs) else .single v)
      | _, _ => r.get? name := by
  induction items generalizing r with
  | nil => cases schema.get? name <;> rfl
  | cons item items ih =>
    have wf' : ∀ i ∈ items, i.WellFormed schema := fun i hi => wf i (List.mem_cons_of_mem item hi)
    have hitem := wf item List.mem_cons_self
    obtain ⟨-, admits'⟩ := (admits_cons hitem).mp admits
    rw [List.foldl_cons, ih wf' admits']
    rcases hitem.effect with
      ⟨term, hset, -, happly⟩ | ⟨spec, text, v, hset, -, hget, hread, happly⟩
    · have hgiven : givenValues schema name (item :: items) = givenValues schema name items := by
        simp [givenValues, hset]
      simp only [hgiven, happly, SearchResult.get?_push, SearchResult.values]
    · rw [happly] at admits' ⊢
      by_cases hn : spec.name = name
      · subst hn
        have hgiven : givenValues schema spec.name (item :: items) =
            v :: givenValues schema spec.name items := by
          simp [givenValues, hset, hget, hread]
        simp only [hgiven, hget]
        cases hrest : givenValues schema spec.name items with
        | nil =>
          simp only [SearchResult.get?_store_self, SearchResult.joined, SearchResult.values]
        | cons v' vs =>
          cases hm : spec.multiple with
          | true => simp [SearchResult.values_store_self, hm]
          | false =>
            -- an option that may be given once is held already, so no item gives it again
            have hspec := (Schema.get?_eq_some_iff.mp hget).1
            have hcount := admits' spec hspec hm
            rw [SearchResult.contains_store] at hcount
            simp only [beq_self_eq_true, Bool.true_or, if_true] at hcount
            rw [givenValues_eq_nil (by omega)] at hrest
            cases hrest
      · have hgiven : givenValues schema name (item :: items) = givenValues schema name items := by
          simp [givenValues, hset, hn]
        have hget' : (r.store spec v).get? name = r.get? name :=
          SearchResult.get?_store_of_ne r spec v (Ne.symm hn)
        simp only [hgiven, hget', SearchResult.values]

theorem Split.wellFormed {schema : Schema} {text : List Char} {items : List Item}
    (h : Split schema text items) : ∀ item ∈ items, item.WellFormed schema := by
  induction h with
  | nil => nofun
  | cons wf _ _ ih =>
    intro i hi
    rcases List.mem_cons.mp hi with rfl | hi
    · exact wf
    · exact ih i hi

theorem admits_empty_iff {schema : Schema} {items : List Item} :
    Admits schema {} items ↔ ∀ spec ∈ schema.options, spec.multiple = false →
      (items.filterMap Item.name?).count spec.name ≤ 1 := by
  have hc : ∀ name, SearchResult.contains {} name = false := fun _ => rfl
  simp [Admits, hc]

/-- **The items, one after the other, make up the meaning of the query.** -/
theorem means_foldl_apply {schema : Schema} {query : String} {items : List Item}
    (h : Itemized schema query items) : Means schema items (items.foldl (Item.apply schema) {}) where
  terms := by simpa using foldl_apply_terms h.split.wellFormed {}
  options name := by
    rw [foldl_apply_get? h.split.wellFormed (admits_empty_iff.mpr h.once) name]
    have hempty : SearchResult.values {} name = [] := rfl
    cases schema.get? name with
    | none => rfl
    | some spec =>
      cases givenValues schema name items with
      | nil => rfl
      | cons v vs => simp [hempty]

end Searchbar
