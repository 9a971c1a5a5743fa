import Searchbar.Proofs.Agreement
import Searchbar.Proofs.Valid

/-!
# Every query means a valid result

The result of a query is written at several places of a scan, and errors do not stop it. Still there
are only two things that a character can do to it: add a term, or store a value that was read for an
option of the schema which may be set. `SearchResult.Change` says so, and `Scan.Agreeing.change_move`
is the one place where the moves of a scan are gone through for the sake of the result.

* `SearchResult.Read` says that all a result holds was read: every value is what some text stands
  for under its option.
* Such a result is valid (`SearchResult.Read.valid`), and the result of every query, well formed or
  not, is such a result (`parse_result_read`).
-/

namespace Searchbar

/-! ### Results that were read -/

/-- **A value that was read** for an option: a text with at least one character stands for it. -/
def Value.Read (spec : OptionSpec) (v : Value) : Prop :=
  ∃ d, d ≠ "" ∧ spec.read? d = some v

/-- What an option holds, all of it read, and as many values as its rule says. -/
def Stored.Read (spec : OptionSpec) : Stored → Prop
  | .single v => spec.multiple = false ∧ v.Read spec
  | .multi vs => spec.multiple = true ∧ vs ≠ [] ∧ ∀ v ∈ vs, v.Read spec

/-- **A result that was read** under a schema. -/
structure SearchResult.Read (schema : Schema) (r : SearchResult) : Prop where
  terms : ∀ term ∈ r.terms, term ≠ ""
  options : ∀ e ∈ r.options.entries, ∃ spec, schema.get? e.1 = some spec ∧ e.2.Read spec

/-- A value that was read fits its option. -/
theorem Value.Read.fits {spec : OptionSpec} {v : Value} (h : v.Read spec) : v.Fits spec.kind := by
  obtain ⟨d, hd, hv⟩ := h
  unfold OptionSpec.read? OptionKind.read? at hv
  cases hk : spec.kind with
  | number source =>
    -- what is read as a number is kept only if it is finite
    rw [hk] at hv
    obtain ⟨x, hx, rfl⟩ := Option.map_eq_some_iff.mp hv
    exact (Option.filter_eq_some_iff.mp hx).2
  | string source =>
    rw [hk] at hv
    obtain rfl := Option.some.inj hv
    exact hd
  | enum choices =>
    simp only [hk] at hv
    split at hv
    · next hmem =>
      obtain rfl := Option.some.inj hv
      exact ⟨hd, List.contains_iff_mem.mp hmem⟩
    · cases hv
  | boolean =>
    simp only [hk] at hv
    split at hv
    · obtain rfl := Option.some.inj hv
      trivial
    · split at hv
      · obtain rfl := Option.some.inj hv
        trivial
      · cases hv

theorem Stored.Read.fits {spec : OptionSpec} {stored : Stored} (h : stored.Read spec) :
    stored.Fits spec := by
  cases stored with
  | single v => exact ⟨h.1, h.2.fits⟩
  | multi vs => exact ⟨h.1, h.2.1, fun v hv => (h.2.2 v hv).fits⟩

/-- **What was read is valid.** -/
theorem SearchResult.Read.valid {schema : Schema} {r : SearchResult} (h : r.Read schema) :
    r.Valid schema where
  terms := h.terms
  options e he := by
    obtain ⟨spec, hget, read⟩ := h.options e he
    exact ⟨spec, hget, read.fits⟩

/-! ### What a scan does to its result -/

/-- **Everything a scan can do to its result.** -/
inductive SearchResult.Change (schema : Schema) (r : SearchResult) : SearchResult → Prop
  | same : Change schema r r
  | term (text : String) : Change schema r (r.push text)
  | value (spec : OptionSpec) (v : Value) (hget : schema.get? spec.name = some spec)
      (hset : spec.multiple = true ∨ r.contains spec.name = false) (read : v.Read spec) :
      Change schema r (r.store spec v)

namespace Scan

section Result

variable {schema : Schema} {s s' : Scan} {c : Char} {spec : OptionSpec}

/-- What the end of a word or value does to the result depends on what has been decoded only. -/
theorem finish_result (s : Scan) (target : Option OptionSpec) :
    (s.finish target).result =
      match target with
      | none => s.result.push s.decoded
      | some spec => s.result.storeIf spec (spec.accept? s.decoded) := by
  cases target with
  | none => simp [finish, finishWord]
  | some spec => exact completeValue_result s spec

@[simp] theorem finishName_result (s : Scan) (schema : Schema) :
    (s.finishName schema).result = s.result := by
  obtain ⟨spec, -, hname⟩ | ⟨fault, hname⟩ := s.finishName_cases schema
  · rw [hname]
    rfl
  · simp [hname, refuseName, report]

/-- The option whose value is being read is one of the schema, and it may be set. -/
theorem Agreeing.admits (h : s.Agreeing schema) (hm : s.mode.target = some spec) :
    schema.get? spec.name = some spec ∧
      (spec.multiple = true ∨ s.result.contains spec.name = false) := by
  obtain ⟨fragments, name, before, setting, -⟩ := h.setting hm
  obtain ⟨-, hname⟩ := Schema.get?_eq_some_iff.mp setting.names.get
  rw [hname]
  exact ⟨setting.names.get, setting.names.admits⟩

/-- The end of a word adds a term, the end of a value stores it if it is accepted. -/
theorem Agreeing.change_finish (h : s.Agreeing schema) :
    s.result.Change schema (s.finish s.mode.target).result := by
  rw [finish_result]
  cases hm : s.mode.target with
  | none => exact .term s.decoded
  | some spec =>
    change s.result.Change schema (s.result.storeIf spec (spec.accept? s.decoded))
    cases hv : spec.accept? s.decoded with
    | none => exact .same
    | some v =>
      have read : s.decoded ≠ "" ∧ spec.read? s.decoded = some v := by
        simpa [OptionSpec.accept?] using hv
      obtain ⟨hget, hset⟩ := h.admits hm
      exact .value spec v hget hset ⟨s.decoded, read⟩

/-- A character leaves the result alone or finishes the word or value. -/
theorem result_move (hmove : Move schema s c s') :
    s'.result = s.result ∨ s'.result = (s.finish s.mode.target).result := by
  cases hmove with
  | blank target hm =>
    rw [emitSpace_result, target_of_outside hm]
    exact .inr rfl
  | ordinary => exact .inl rfl
  | openQuote => exact .inl rfl
  | strayInWord => exact .inl (by simp)
  | strayColon => exact .inl (by simp)
  | name => exact .inl (by simp)
  | strayInValue spec hm =>
    rw [stray_result, hm]
    exact .inr rfl
  | plain => exact .inl rfl
  | openEscape => exact .inl (by simp [openEscape])
  | closeQuote target hm =>
    -- the quotation mark is pending text, and that is not what is stored
    rw [closeQuote, finish_result, target_of_quoted hm, finish_result]
    exact .inr rfl
  | closeEscape => exact .inl (by simp [closeEscape])

/-- The end of the query finishes the word or value. -/
theorem result_close (s : Scan) : s.close.result = (s.finish s.mode.target).result := by
  obtain ⟨target, hm | ⟨escaping, hm⟩⟩ := s.mode.outside_or_quoted
  · rw [close_outside hm, target_of_outside hm]
  · rw [close_quoted hm, target_of_quoted hm]
    cases escaping <;>
      simp [breakOff, missingQuote, report, finish_result, danglingEscape]

/-- **What a character does to the result.** -/
theorem Agreeing.change_move (h : s.Agreeing schema) (hmove : Move schema s c s') :
    s.result.Change schema s'.result := by
  rcases result_move hmove with hsame | hfinish
  · rw [hsame]
    exact .same
  · rw [hfinish]
    exact h.change_finish

theorem Agreeing.change_close (h : s.Agreeing schema) :
    s.result.Change schema s.close.result := by
  rw [result_close]
  exact h.change_finish

end Result

end Scan

/-! ### The result of a query -/

namespace SearchResult

variable {schema : Schema} {r r' : SearchResult}

theorem read_empty (schema : Schema) : SearchResult.Read schema {} :=
  ⟨nofun, nofun⟩

theorem Read.push (h : r.Read schema) (term : String) : (r.push term).Read schema := by
  by_cases ht : term = ""
  · subst ht
    exact h
  · rw [push_of_ne r ht]
    refine ⟨fun other ho => ?_, h.options⟩
    rcases List.mem_append.mp ho with ho | ho
    · exact h.terms other ho
    · rwa [List.mem_singleton.mp ho]

/-- What an option holds together with a value that was read. -/
theorem Read.joined (h : r.Read schema) {spec : OptionSpec} {v : Value}
    (hget : schema.get? spec.name = some spec) (read : v.Read spec) :
    (joined (r.get? spec.name) spec.multiple v).Read spec := by
  cases hm : spec.multiple with
  | false => exact ⟨hm, read⟩
  | true =>
    refine ⟨hm, by simp, fun w hw => ?_⟩
    rcases List.mem_append.mp hw with hw | hw
    · -- what the option held was read for the same option
      cases hs : r.get? spec.name with
      | none =>
        rw [hs] at hw
        cases hw
      | some stored =>
        rw [hs] at hw
        obtain ⟨spec', hget', held⟩ := h.options _ (NameMap.mem_of_lookup hs)
        obtain rfl : spec = spec' := Option.some.inj (hget.symm.trans hget')
        cases stored with
        | single u =>
          obtain rfl := List.mem_singleton.mp hw
          exact held.2
        | multi vs => exact held.2.2 w hw
    · rw [List.mem_singleton.mp hw]
      exact read

theorem Read.store (h : r.Read schema) {spec : OptionSpec} {v : Value}
    (hget : schema.get? spec.name = some spec) (read : v.Read spec) :
    (r.store spec v).Read schema := by
  refine ⟨h.terms, fun e he => ?_⟩
  rcases NameMap.mem_insertEntry he with rfl | he
  · exact ⟨spec, hget, h.joined hget read⟩
  · exact h.options e he

/-- **Every change keeps a result read.** -/
theorem Read.change (h : r.Read schema) (change : r.Change schema r') : r'.Read schema := by
  cases change with
  | same => exact h
  | term text => exact h.push text
  | value spec v hget _ read => exact h.store hget read

end SearchResult

/-- The result of the scan of every text was read. -/
theorem read_scan (schema : Schema) (query : String) :
    (scan schema query).Agreeing schema ∧ (scan schema query).result.Read schema :=
  scan_induction (motive := fun _ s => s.Agreeing schema ∧ s.result.Read schema)
    ⟨agreeing_scan schema "", SearchResult.read_empty schema⟩
    (fun ⟨agreeing, read⟩ hmove => ⟨agreeing.move hmove, read.change (agreeing.change_move hmove)⟩)
    query

/-- **Every query means a valid result**, whatever errors it has: no term is empty, and each option
that holds something is one of the schema and holds as many values as its rule says, each the value
that some text stands for, so that it fits the option. -/
theorem parse_result_read (schema : Schema) (query : String) :
    (parse schema query).result.Read schema ∧ (parse schema query).result.Valid schema := by
  obtain ⟨agreeing, read⟩ := read_scan schema query
  have closed : (parse schema query).result.Read schema := read.change agreeing.change_close
  exact ⟨closed, closed.valid⟩

end Searchbar
