import Searchbar.Example.Media
import Searchbar.Proofs.ValidResult
import Searchbar.Proofs.ValueHints

/-!
# Which names are taken

A word before a colon is taken as the name of an option, or it is refused. The scan decides by what
the result holds at that moment, and the result was filled by the values before, some of which were
missing or rejected. The tokens tell the same (`parse_nameRules`): a name is taken exactly if the
schema has it and it may be repeated or none of its values in the tokens before was accepted.

* `SetIn` says when an option is set by some tokens, and `MayBeSet` when its name is taken behind
  them. `Scan.Settles.takes_iff` is the step: between values this is what the scan asks the result.
* `NamesDecided` says it of every name in a list of tokens, and every scan keeps it for the tokens that
  are settled (`Scan.namesDecided_advance`). The tokens of a value that is being read hold no names.
* `NameRules` puts together what follows for the options.
-/

namespace Searchbar

/-! ### Options that are set by tokens -/

/-- A name with the run of its value is **accepted**: what the run spells is a value of the option. -/
def Accepted (schema : Schema) (run : Token × List Token) : Prop :=
  ∃ spec v, schema.get? run.1.text = some spec ∧
    spec.accept? (decodeValue (rawText run.2)) = some v

/-- Some tokens **set** an option: one of its names in them is accepted. -/
def SetIn (schema : Schema) (tokens : List Token) (name : String) : Prop :=
  ∃ run ∈ valueRuns tokens, run.1.text = name ∧ Accepted schema run

/-- **An option may be set** behind some tokens: the schema has it, and it may be repeated or is not set
by the tokens. -/
def MayBeSet (schema : Schema) (before : List Token) (name : String) : Prop :=
  ∃ spec, schema.get? name = some spec ∧ (spec.multiple = true ∨ ¬SetIn schema before name)

/-- An option is set if the tokens show a value of it that is accepted. -/
theorem setIn_iff {schema : Schema} {tokens : List Token} {name : String} :
    SetIn schema tokens name ↔ acceptedValues schema name tokens ≠ [] := by
  -- a list is not empty if it has a member, and the members come from accepted runs
  rw [Ne, List.eq_nil_iff_forall_not_mem, not_forall]
  simp only [not_not, acceptedValues, List.mem_filterMap]
  constructor
  · rintro ⟨run, hrun, rfl, spec, v, hget, hv⟩
    exact ⟨v, run, hrun, by simp [hget, hv]⟩
  · rintro ⟨v, run, hrun, hv⟩
    split at hv
    · next hname =>
      subst hname
      obtain ⟨spec, hget, hv⟩ := Option.bind_eq_some_iff.mp hv
      exact ⟨run, hrun, rfl, spec, v, hget, hv⟩
    · cases hv

theorem Agrees.contains_eq_false {schema : Schema} {tokens : List Token} {r : SearchResult}
    (h : Agrees schema tokens r) (name : String) :
    r.contains name = false ↔ ¬SetIn schema tokens name := by
  rw [h.contains, setIn_iff, not_not, Bool.not_eq_false', List.isEmpty_iff]

/-- **Between values** the scan takes the names that may be set behind its tokens. -/
theorem Scan.Settles.takes_iff {schema : Schema} {s : Scan} (h : s.Settles schema) :
    (∃ spec, s.Takes schema spec) ↔ MayBeSet schema s.tokens.reverse s.decoded := by
  refine exists_congr fun spec => and_congr_right fun _ => or_congr_right ?_
  exact h.agrees.contains_eq_false s.decoded

/-! ### Names one by one -/

/-- **Names that are decided**: each name in a list of tokens, the latest first, is taken exactly if it
may be set behind the tokens before it. -/
def NamesDecided (schema : Schema) : List Token → Prop
  | [] => True
  | t :: before =>
    (t.kind.isName = true → (t.kind = .optionName ↔ MayBeSet schema before.reverse t.text)) ∧
      NamesDecided schema before

section NamesDecided

variable {schema : Schema} {tokens later : List Token}

theorem namesDecided_cons_iff {t : Token} (plain : t.kind.isName = false) :
    NamesDecided schema (t :: tokens) ↔ NamesDecided schema tokens := by
  simp [NamesDecided, plain]

/-- Tokens that are no names do not matter. -/
theorem namesDecided_append_iff {run : List Token} (plain : ∀ t ∈ run, t.kind.isName = false) :
    NamesDecided schema (run ++ tokens) ↔ NamesDecided schema tokens := by
  induction run with
  | nil => rfl
  | cons t run ih =>
    obtain ⟨ht, hrun⟩ := List.forall_mem_cons.mp plain
    rw [List.cons_append, namesDecided_cons_iff ht, ih hrun]

theorem NamesDecided.added (h : NamesDecided schema tokens) (added : TextAdded tokens later) :
    NamesDecided schema later := by
  induction added with
  | same => exact h
  | token t _ plain _ ih => exact (namesDecided_cons_iff plain).mpr ih
  | blank t raw span hk _ ih =>
    -- the space grows, and it is no name
    have plain : t.kind.isName = false := by rw [hk]; rfl
    exact (namesDecided_cons_iff (t := { t with raw := raw, span := span }) plain).mpr
      ((namesDecided_cons_iff plain).mp ih)

/-- What is decided of a name at its place. -/
theorem NamesDecided.at {before : List Token} {t : Token}
    (h : NamesDecided schema (later ++ t :: before)) (hk : t.kind.isName = true) :
    t.kind = .optionName ↔ MayBeSet schema before.reverse t.text := by
  induction later with
  | nil => exact h.1 hk
  | cons u later ih => exact ih h.2

end NamesDecided

namespace Scan

variable {schema : Schema} {s s' : Scan}

/-- **Invariant preservation.** A name is decided when it is made, and the tokens before it do not
change any more. -/
theorem namesDecided_advance (h : NamesDecided schema s.settledTokens) (agreeing : s.Agreeing schema)
    (advance : s.Advance schema s') : NamesDecided schema s'.settledTokens := by
  cases advance with
  | text hm hm' added =>
    rw [settledTokens_of_text hm] at h
    rw [settledTokens_of_text hm']
    exact h.added added
  | opened spec name hm hm' takes opens htext htokens =>
    -- the result holds what the tokens show, so the scan has asked about the tokens
    rw [settledTokens_of_text hm] at h
    rw [settledTokens_of_openTokens (openTokens_of_name htokens opens.kind), htokens]
    refine ⟨fun _ => iff_of_true opens.kind ?_, h⟩
    rw [htext]
    exact (agreeing.settles hm).takes_iff.mp ⟨spec, takes⟩
  | refused name hm hm' refuses free hk htext htokens =>
    rw [settledTokens_of_text hm] at h
    rw [settledTokens_of_text hm', htokens]
    refine ⟨fun _ => iff_of_false free.unnamed fun may => ?_, h⟩
    rw [htext] at may
    obtain ⟨spec, takes⟩ := (agreeing.settles hm).takes_iff.mpr may
    exact refuses spec takes
  | inside spec hm hm' settled =>
    -- only tokens behind the name have changed
    rwa [settled]
  | completed spec name run before hm hm' opens settled holds added =>
    -- the run that is added behind the name holds no names
    rw [settled] at h
    rw [settledTokens_of_text hm']
    refine NamesDecided.added ((namesDecided_append_iff fun t ht => ?_).mpr h) added
    exact TokenKind.isName_eq_false (holds.kinds t ht)

theorem Agreeing.settles_close (h : s.Agreeing schema) : s.close.Settles schema := by
  obtain ⟨target, hm | ⟨escaping, hm⟩⟩ := s.mode.outside_or_quoted
  · rw [close_outside hm]
    exact h.finish hm
  · rw [close_quoted hm]
    exact h.breakOff hm

end Scan

/-- The names in the scan of every text are decided. -/
theorem namesDecided_scan (schema : Schema) (query : String) :
    (scan schema query).Agreeing schema ∧ NamesDecided schema (scan schema query).settledTokens :=
  scan_induction (motive := fun _ s => s.Agreeing schema ∧ NamesDecided schema s.settledTokens)
    ⟨agreeing_scan schema "", trivial⟩
    (fun ⟨agreeing, decided⟩ hmove =>
      ⟨agreeing.move hmove, Scan.namesDecided_advance decided agreeing (agreeing.advance_move hmove)⟩)
    query

/-- A name among the tokens of a query is taken exactly if it may be set behind those before it. -/
theorem name_taken_iff {schema : Schema} {query : String} {before after : List Token} {t : Token}
    (h : (parse schema query).tokens = before ++ t :: after) (hk : t.kind.isName = true) :
    t.kind = .optionName ↔ MayBeSet schema before t.text := by
  obtain ⟨agreeing, decided⟩ := namesDecided_scan schema query
  -- the end of the query is one more step, and behind it all tokens are settled
  obtain ⟨advance, hm⟩ := agreeing.advance_close
  have closed := Scan.namesDecided_advance decided agreeing advance
  have htokens : (scan schema query).close.settledTokens = after.reverse ++ t :: before.reverse := by
    rw [Scan.settledTokens_of_text hm]
    simpa using List.reverse_eq_iff.mp (show (scan schema query).close.tokens.reverse = _ from h)
  rw [htokens] at closed
  simpa using closed.at hk

/-! ### What follows for the options -/

/-- The marks on the tokens of a run tell whether its value was accepted. -/
theorem Verdict.accept?_iff {spec : OptionSpec} {d : String} {run : List Token}
    (h : Verdict spec d run) :
    (∃ v, spec.accept? d = some v) ↔
      ∀ t ∈ run, t.kind ≠ .missingOptionValue ∧ t.kind ≠ .invalid := by
  by_cases hd : d = ""
  · -- the last token stands for the missing value
    obtain ⟨earlier, t, rfl, hk⟩ := h.missing hd
    refine iff_of_false (by simp [OptionSpec.accept?, hd]) fun clear => ?_
    exact (clear t (by simp)).1 hk
  · cases hv : spec.read? d with
    | none =>
      -- the first token of a rejected value is invalid
      obtain ⟨⟨t, later, rfl, hk⟩, -⟩ := h.rejected hd hv
      refine iff_of_false (by simp [OptionSpec.accept?, hv]) fun clear => ?_
      exact (clear t List.mem_cons_self).2 hk
    | some v =>
      refine iff_of_true ⟨v, by simp [OptionSpec.accept?, hd, hv]⟩ fun t ht => ?_
      exact ((h.accepted hd v hv).1 t ht).symm

theorem Agrees.accepted_iff {schema : Schema} {tokens : List Token} {r : SearchResult}
    (h : Agrees schema tokens r) {run : Token × List Token} (hrun : run ∈ valueRuns tokens) :
    Accepted schema run ↔ ∀ t ∈ run.2, t.kind ≠ .missingOptionValue ∧ t.kind ≠ .invalid := by
  obtain ⟨spec, hget, verdict⟩ := h.verdicts run hrun
  rw [← verdict.accept?_iff]
  constructor
  · rintro ⟨spec', v, hget', hv⟩
    obtain rfl : spec = spec' := Option.some.inj (hget.symm.trans hget')
    exact ⟨v, hv⟩
  · rintro ⟨v, hv⟩
    exact ⟨spec, v, hget, hv⟩

/-- An option that may be given once holds at most one value. -/
theorem SearchResult.Read.values_length {schema : Schema} {r : SearchResult} (h : r.Read schema)
    {name : String} {spec : OptionSpec} (hget : schema.get? name = some spec)
    (once : spec.multiple = false) : (r.values name).length ≤ 1 := by
  rw [SearchResult.values]
  cases hs : r.get? name with
  | none => exact Nat.zero_le 1
  | some stored =>
    obtain ⟨spec', hget', read⟩ := h.options _ (NameMap.mem_of_lookup hs)
    obtain rfl : spec = spec' := Option.some.inj (hget.symm.trans hget')
    cases stored with
    | single v => exact Nat.le_refl 1
    | multi vs =>
      -- several values are held only if the option may be repeated
      have := read.1
      rw [once] at this
      cases this

/-- The runs before a name are complete: they are runs of the query. -/
theorem valueRuns_before {schema : Schema} {query : String} {before after : List Token} {t : Token}
    (h : (parse schema query).tokens = before ++ t :: after) (hk : t.kind.isName = true) :
    valueRuns before <+: valueRuns (parse schema query).tokens := by
  refine ⟨valueRuns (t :: after), ?_⟩
  rw [h]
  refine (valueRuns_append fun u hu => ?_).symm
  obtain rfl : t = u := Option.some.inj hu
  -- a name has no hint for a value, so no run goes on behind it
  rcases (placed_parse h).kind_hint with ⟨-, hout⟩ | ⟨hv, -⟩
  · rw [TokenKind.isName_eq_false hout] at hk
    cases hk
  · exact hv

/-- Two places at which a list is split are the same, or one stands before the other. -/
theorem eq_or_mem_of_split {first first' rest rest' : List Token} {t u : Token}
    (h : first ++ t :: rest = first' ++ u :: rest') : t = u ∨ t ∈ first' ∨ u ∈ first := by
  rcases List.append_eq_append_iff.mp h with ⟨more, rfl, heq⟩ | ⟨more, rfl, heq⟩
  · cases more with
    | nil => exact .inl (List.cons.inj heq).1
    | cons w more =>
      obtain ⟨rfl, -⟩ := List.cons.inj heq
      exact .inr (.inl (by simp))
  · cases more with
    | nil => exact .inl (List.cons.inj heq).1.symm
    | cons w more =>
      obtain ⟨rfl, -⟩ := List.cons.inj heq
      exact .inr (.inr (by simp))

/-- Behind a refused name, up to the next name that is taken, stands no token of a value. -/
theorem isValue_of_refused {schema : Schema} {query : String} {before between after : List Token}
    {t u : Token} (h : (parse schema query).tokens = before ++ t :: (between ++ u :: after))
    (hk : t.kind = .invalidOptionName) (unnamed : ∀ w ∈ between, w.kind ≠ .optionName) :
    u.isValue = false := by
  have hsplit : (parse schema query).tokens = (before ++ t :: between) ++ u :: after := by
    rw [h, List.append_assoc, List.cons_append]
  cases placed_parse hsplit with
  | text free => exact free.isValue
  | name spec rest run hlater opens holds =>
    rw [Token.isValue, opens.hint]
    rfl
  | inRun spec name newer older earlier hbefore opens holds =>
    -- the name of the value and the refused name are two tokens, so one stands behind the other
    rw [List.reverse_append, List.reverse_cons, List.append_assoc, List.singleton_append] at hbefore
    rcases eq_or_mem_of_split hbefore with rfl | hmem | hmem
    · rw [opens.kind] at hk
      cases hk
    · have := holds.kinds t (by simp [hmem])
      rw [hk] at this
      cases this
    · exact absurd opens.kind (unnamed name (List.mem_reverse.mp hmem))

/-- **What the names in a query follow**, told by its tokens and its result. -/
structure NameRules (schema : Schema) (tokens : List Token) (r : SearchResult) : Prop where
  /-- A name is taken exactly if it may be set behind the tokens before it, and refused otherwise. -/
  decided : ∀ before t after, tokens = before ++ t :: after → t.kind.isName = true →
    (t.kind = .optionName ↔ MayBeSet schema before t.text) ∧
      (t.kind = .invalidOptionName ↔ ¬MayBeSet schema before t.text)
  /-- The values before a name are complete, so the next two say of them what became of them. -/
  complete : ∀ before t after, tokens = before ++ t :: after → t.kind.isName = true →
    valueRuns before <+: valueRuns tokens
  /-- A value is accepted exactly if none of its tokens is marked as missing or rejected. -/
  accepted : ∀ run ∈ valueRuns tokens, Accepted schema run ↔
    ∀ t ∈ run.2, t.kind ≠ .missingOptionValue ∧ t.kind ≠ .invalid
  /-- The result holds the accepted values. -/
  stored : ∀ name, r.values name = acceptedValues schema name tokens
  /-- An option that may be given once is set by at most one of its names. -/
  once : ∀ name spec, schema.get? name = some spec → spec.multiple = false →
    (acceptedValues schema name tokens).length ≤ 1
  /-- A name whose values before are all missing or rejected is taken. -/
  unblocked : ∀ before t after spec, tokens = before ++ t :: after → t.kind.isName = true →
    schema.get? t.text = some spec →
    (∀ run ∈ valueRuns before, run.1.text = t.text →
      ∃ u ∈ run.2, u.kind = .missingOptionValue ∨ u.kind = .invalid) → t.kind = .optionName
  /-- Behind a refused name, up to the next name that is taken, stands free text. -/
  bare : ∀ before t between u after, tokens = before ++ t :: (between ++ u :: after) →
    t.kind = .invalidOptionName → (∀ w ∈ between, w.kind ≠ .optionName) → u.isValue = false

/-- **Names are taken by what was accepted before them.** -/
theorem parse_nameRules (schema : Schema) (query : String) :
    NameRules schema (parse schema query).tokens (parse schema query).result := by
  obtain ⟨agreeing, read⟩ := read_scan schema query
  have agrees : Agrees schema (parse schema query).tokens (parse schema query).result :=
    agreeing.settles_close.agrees
  have closed : (parse schema query).result.Read schema := read.change agreeing.change_close
  constructor
  case decided =>
    intro before t after h hk
    have taken := name_taken_iff h hk
    refine ⟨taken, ?_⟩
    -- a name has one of two classes
    rw [← taken]
    cases hkind : t.kind <;> simp_all [TokenKind.isName]
  case complete =>
    intro before t after h hk
    exact valueRuns_before h hk
  case accepted =>
    intro run hrun
    exact agrees.accepted_iff hrun
  case stored => exact agrees.values
  case once =>
    intro name spec hget once
    rw [← agrees.values]
    exact closed.values_length hget once
  case unblocked =>
    intro before t after spec h hk hget marked
    refine (name_taken_iff h hk).mpr ⟨spec, hget, .inr ?_⟩
    -- an accepted run would have no mark
    rintro ⟨run, hrun, htext, accepted⟩
    have hmem : run ∈ valueRuns (parse schema query).tokens := (valueRuns_before h hk).mem hrun
    obtain ⟨u, hu, hkind⟩ := marked run hrun htext
    have clear := (agrees.accepted_iff hmem).mp accepted u hu
    exact hkind.elim clear.1 clear.2
  case bare =>
    intro before t between u after h hk unnamed
    exact isValue_of_refused h hk unnamed

/-- A missing and a rejected value leave the option free, an accepted one does not. -/
example :
    ((parse Example.media "sort: sort:x sort:name sort:newest tag:a tag:b x:").tokens.map
      Token.kind).filter TokenKind.isName =
      [.optionName, .optionName, .optionName, .invalidOptionName, .optionName, .optionName,
        .invalidOptionName] := by
  decide +kernel

end Searchbar
