import Searchbar.Proofs.Declaration
import Searchbar.Proofs.RoundTrip
import Searchbar.Proofs.ValidResult
import Searchbar.Session

/-!
# Defaults and what can be typed

A session may fill in the defaults of the options that a query leaves open. What it then reports can
be typed back if every value in it can be typed, and exactly one value cannot: the empty text. An
empty text is a value of a string option, and of an enum that has it as a choice, so it may be
declared as a default; but typed as a value it counts as missing.

* `SearchResult.get?_fillDefaults` says what every option holds once defaults are filled in.
* `SchemaConfig.isSome_read?_default`: the defaults of a schema that was declared are values.
* `SearchResult.typedBack_iff_valid`: the results that can be typed back are the valid ones.
* `typedBack_update_iff`: a session with defaults reports a result that can be typed back exactly if
  the query gives a value to each option whose default is empty.
-/

namespace Searchbar

/-! ### Filling in defaults -/

/-- What an option that holds nothing gets from its default. -/
def OptionSpec.filled? (spec : OptionSpec) : Option Stored :=
  (spec.default.bind spec.read?).map (SearchResult.joined none spec.multiple)

namespace SearchResult

@[simp] theorem terms_fillOption (r : SearchResult) (spec : OptionSpec) :
    (r.fillOption spec).terms = r.terms := by
  unfold fillOption
  split
  · rfl
  · split <;> rfl

theorem get?_fillOption (r : SearchResult) (spec : OptionSpec) (name : String) :
    (r.fillOption spec).get? name =
      (r.get? name).or (if spec.name = name then spec.filled? else none) := by
  unfold fillOption OptionSpec.filled?
  split
  · next held =>
    split
    · next hname =>
      -- the option holds something already
      subst hname
      rw [contains_eq_isSome] at held
      rw [Option.or_of_isSome held]
    · rw [Option.or_none]
  · next empty =>
    have hnone : r.get? spec.name = none := by
      simpa [contains_eq_isSome] using empty
    split
    · next v hv =>
      rw [hv]
      split
      · next hname =>
        subst hname
        rw [get?_store_self, hnone]
        rfl
      · next hname => rw [get?_store_of_ne r spec v (Ne.symm hname), Option.or_none]
    · next hv =>
      rw [hv]
      split <;> simp

/-- Options of different names are filled in one after the other without touching each other. -/
theorem get?_foldl_fillOption {specs : List OptionSpec}
    (distinct : (specs.map OptionSpec.name).Nodup) (r : SearchResult) (name : String) :
    (specs.foldl fillOption r).get? name =
      (r.get? name).or ((specs.find? fun spec => spec.name == name).bind OptionSpec.filled?) := by
  induction specs generalizing r with
  | nil => simp
  | cons spec specs ih =>
    rw [List.map_cons, List.nodup_cons] at distinct
    rw [List.foldl_cons, ih distinct.2, get?_fillOption, List.find?_cons]
    by_cases hname : spec.name = name
    · -- no later option has this name
      have absent : (specs.find? fun other => other.name == name) = none := by
        rw [List.find?_eq_none]
        intro other ho heq
        refine distinct.1 (List.mem_map.mpr ⟨other, ho, ?_⟩)
        rw [hname]
        simpa using heq
      simp [hname, absent]
    · rw [if_neg hname, Option.or_none, beq_false_of_ne hname]

/-- **Defaults fill exactly the gaps**: an option keeps what it holds, and one that holds nothing gets
its default. -/
theorem get?_fillDefaults (r : SearchResult) (schema : Schema) (name : String) :
    (r.fillDefaults schema).get? name =
      (r.get? name).or ((schema.get? name).bind OptionSpec.filled?) :=
  get?_foldl_fillOption schema.distinct r name

@[simp] theorem terms_fillDefaults (r : SearchResult) (schema : Schema) :
    (r.fillDefaults schema).terms = r.terms := by
  unfold fillDefaults
  induction schema.options generalizing r with
  | nil => rfl
  | cons spec specs ih => rw [List.foldl_cons, ih, terms_fillOption]

end SearchResult

/-! ### Declared defaults -/

/-- **The defaults of a schema that was declared are values.** -/
theorem SchemaConfig.isSome_read?_default {c : SchemaConfig} {firstId : Nat} {schema : Schema}
    (h : c.build firstId = .ok schema) {spec : OptionSpec} (hspec : spec ∈ schema.options)
    {text : String} (hdefault : spec.default = some text) : (spec.read? text).isSome = true := by
  obtain ⟨inOrder, describes⟩ := of_build_eq_ok h
  obtain ⟨i, rfl⟩ := List.get_of_mem hspec
  -- the declaration in the same place describes this option
  have hi : i < c.options.length := Nat.lt_of_lt_of_eq i.isLt describes.length_eq.symm
  exact (inOrder _ (List.get_mem c.options ⟨i, hi⟩)).isSome_read?_default
    (describes.get hi i.isLt) hdefault

/-! ### Values that can be typed -/

/-- **The empty text is the one value that does not fit.** -/
theorem Value.fits_iff_of_read? {kind : OptionKind} {text : String} {v : Value}
    (h : kind.read? text = some v) : v.Fits kind ↔ text ≠ "" := by
  cases kind with
  | number source =>
    obtain ⟨x, hx, rfl⟩ := Option.map_eq_some_iff.mp h
    obtain ⟨hread, finite⟩ := Option.filter_eq_some_iff.mp hx
    refine ⟨fun _ hempty => ?_, fun _ => finite⟩
    have : Binary64.ofText? "" = none := by decide +kernel
    rw [hempty, this] at hread
    cases hread
  | string source =>
    obtain rfl := Option.some.inj h
    exact Iff.rfl
  | enum choices =>
    simp only [OptionKind.read?] at h
    split at h
    · next hmem =>
      obtain rfl := Option.some.inj h
      exact ⟨fun fits => fits.1, fun hne => ⟨hne, List.contains_iff_mem.mp hmem⟩⟩
    · cases h
  | boolean =>
    refine ⟨fun _ hempty => ?_, fun _ => ?_⟩
    · subst hempty
      cases h
    · simp only [OptionKind.read?] at h
      split at h
      · obtain rfl := Option.some.inj h
        trivial
      · split at h
        · obtain rfl := Option.some.inj h
          trivial
        · cases h

theorem Stored.fits_joined_none {spec : OptionSpec} {v : Value} :
    (SearchResult.joined none spec.multiple v).Fits spec ↔ v.Fits spec.kind := by
  unfold SearchResult.joined
  split
  · next hm => simp [Stored.Fits, hm]
  · next hm => simp [Stored.Fits, hm]

/-- The entries of a map are what it holds. -/
theorem NameMap.get?_of_mem {α : Type} {m : NameMap α} {e : String × α} (h : e ∈ m.entries) :
    m.get? e.1 = some e.2 := by
  obtain ⟨entries, ascending⟩ := m
  change lookup e.1 entries = some e.2
  change e ∈ entries at h
  induction entries with
  | nil => cases h
  | cons first rest ih =>
    rw [List.pairwise_cons] at ascending
    rw [lookup]
    rcases List.mem_cons.mp h with rfl | h
    · rw [if_pos rfl]
    · -- the names ascend, so the first one is another
      rw [if_neg (String.ne_of_lt (ascending.1 e h)), ih ascending.2 h]

namespace SearchResult

variable {schema : Schema} {r : SearchResult}

/-- A result is valid by its terms and by what its options hold. -/
theorem valid_iff : r.Valid schema ↔ (∀ term ∈ r.terms, term ≠ "") ∧
    ∀ name stored, r.get? name = some stored →
      ∃ spec, schema.get? name = some spec ∧ stored.Fits spec := by
  constructor
  · intro h
    exact ⟨h.terms, fun name stored hget => h.stored_fits hget⟩
  · rintro ⟨terms, options⟩
    exact ⟨terms, fun e he => options e.1 e.2 (NameMap.get?_of_mem he)⟩

/-- **Defaults keep a result valid** exactly if no empty default is filled in. -/
theorem valid_fillDefaults_iff (h : r.Valid schema) : (r.fillDefaults schema).Valid schema ↔
    ∀ spec ∈ schema.options, r.contains spec.name = false → spec.default = some "" →
      spec.read? "" = none := by
  rw [valid_iff] at h ⊢
  rw [terms_fillDefaults]
  constructor
  · rintro ⟨-, options⟩ spec hspec hempty hdefault
    by_contra hread
    obtain ⟨v, hv⟩ := Option.ne_none_iff_exists'.mp hread
    have hget : schema.get? spec.name = some spec := Schema.get?_eq_some_iff.mpr ⟨hspec, rfl⟩
    have hnone : r.get? spec.name = none := by simpa [contains_eq_isSome] using hempty
    -- the default is filled in, and then the option holds an empty text
    have held : (r.fillDefaults schema).get? spec.name = some (joined none spec.multiple v) := by
      rw [get?_fillDefaults, hnone, hget]
      simp [OptionSpec.filled?, hdefault, hv]
    obtain ⟨spec', hget', fits⟩ := options _ _ held
    obtain rfl : spec = spec' := Option.some.inj (hget.symm.trans hget')
    exact (Value.fits_iff_of_read? hv).mp (Stored.fits_joined_none.mp fits) rfl
  · intro typed
    refine ⟨h.1, fun name stored hstored => ?_⟩
    rw [get?_fillDefaults] at hstored
    cases hheld : r.get? name with
    | some held =>
      -- what the query gave was valid before
      rw [hheld] at hstored
      obtain rfl := Option.some.inj hstored
      exact h.2 name held hheld
    | none =>
      rw [hheld, Option.none_or] at hstored
      obtain ⟨spec, hget, hfilled⟩ := Option.bind_eq_some_iff.mp hstored
      obtain ⟨v, hv, rfl⟩ := Option.map_eq_some_iff.mp hfilled
      obtain ⟨text, hdefault, hread⟩ := Option.bind_eq_some_iff.mp hv
      obtain ⟨hspec, rfl⟩ := Schema.get?_eq_some_iff.mp hget
      refine ⟨spec, hget, Stored.fits_joined_none.mpr ((Value.fits_iff_of_read? hread).mpr ?_)⟩
      rintro rfl
      have := typed spec hspec (by simp [contains_eq_isSome, hheld]) hdefault
      rw [hread] at this
      cases this

/-! ### What can be typed back -/

/-- A result can be **typed back** if the query printed for it is read without an error and means
it. -/
def TypedBack (schema : Schema) (r : SearchResult) : Prop :=
  (parse schema r.print).error = none ∧ (parse schema r.print).result = r

theorem valid_parse (schema : Schema) (query : String) :
    (parse schema query).result.Valid schema := by
  obtain ⟨agreeing, read⟩ := read_scan schema query
  exact (read.change agreeing.change_close).valid

/-- **The results that can be typed back are the valid ones.** -/
theorem typedBack_iff_valid : r.TypedBack schema ↔ r.Valid schema := by
  constructor
  · rintro ⟨-, hresult⟩
    rw [← hresult]
    exact valid_parse schema r.print
  · intro h
    exact ⟨parse_error_of_itemized h.itemized_print,
      (means_parse h.itemized_print).unique h.means_items⟩

end SearchResult

/-- **What a session with defaults reports can be typed back** exactly if the query gives a value to
each option whose default is empty. -/
theorem typedBack_update_iff {config : SchemaConfig} {firstId : Nat} {session : Session}
    (declared : config.build firstId = .ok session.schema) (hdefaults : session.defaults = true)
    (input : String) :
    (session.update input).parse.result.TypedBack session.schema ↔
      ∀ spec ∈ session.schema.options, spec.default = some "" →
        (parse session.schema input).result.contains spec.name = true := by
  have held : (session.update input).parse.result =
      (parse session.schema input).result.fillDefaults session.schema := by
    simp [Session.update, Session.read, hdefaults]
  rw [held, SearchResult.typedBack_iff_valid,
    SearchResult.valid_fillDefaults_iff (SearchResult.valid_parse session.schema input)]
  constructor
  · intro typed spec hspec hdefault
    by_contra hempty
    -- a declared default is a value, and so an empty one would have been filled in
    have value := SchemaConfig.isSome_read?_default declared hspec hdefault
    rw [typed spec hspec (by simpa using hempty) hdefault] at value
    cases value
  · intro given spec hspec hempty hdefault
    rw [given spec hspec hdefault] at hempty
    cases hempty

namespace Example

/-- A declaration of notes, which are empty by default, and of an order. -/
def notes : SchemaConfig where
  options :=
    [{ name := "note", typeName := "string", default := some "" },
     { name := "sort", typeName := "enum", default := some "newest", choices := ["newest", "oldest"] }]

/-- The schema that is declared. -/
def notesSchema : Schema :=
  let options : List OptionSpec :=
    [{ name := "note", default := some "", kind := .string none },
     { name := "sort", default := some "newest", kind := .enum ["newest", "oldest"] }]
  have h : Schema.fault? [] options = none := by decide
  ⟨options, Schema.sound_of_fault? h, (Schema.distinct_of_fault? h).1⟩

/-- A session with defaults over that schema. -/
def notesSession : Session where
  schema := notesSchema
  defaults := true

theorem build_notes : notes.build 0 = .ok notesSchema := by rfl

/-- A query that gives a note: the order is filled in, and the result can be typed back. -/
theorem typedBack_given_note :
    notes.build 0 = .ok notesSession.schema ∧ notesSession.defaults = true ∧
      (notesSession.update "rust note:\"a b\"").parse.result.TypedBack notesSession.schema :=
  ⟨build_notes, rfl, (typedBack_update_iff build_notes rfl _).mpr (by decide +kernel)⟩

/-- The empty query: the empty note is filled in, and typed it counts as missing. -/
theorem not_typedBack_empty_note :
    notes.build 0 = .ok notesSession.schema ∧ notesSession.defaults = true ∧
      ¬(notesSession.update "").parse.result.TypedBack notesSession.schema := by
  refine ⟨build_notes, rfl, fun typed => ?_⟩
  have missing : (parse notesSession.schema (notesSession.update "").parse.result.print).error =
      some ⟨5, .missingValue "note"⟩ := by decide +kernel
  rw [typed.1] at missing
  cases missing

end Example

end Searchbar
