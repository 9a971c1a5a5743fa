import Searchbar.Proofs.Language
import Searchbar.Proofs.ValueHints

/-!
# The names that can be typed

A schema refuses names that could not be typed, and a scan takes for a name whatever stands before a
colon. The two look at characters on their own, one before there is any query and one in the midst
of it, and they agree: a name is shown by the tokens of some query exactly if an option could have
it (`name_typed_iff_declarable`).

* `Scan.names_move` says when a character makes a name: the word that is being read becomes one, and
  no other step adds or changes a name, however it changes other tokens.
* `Scan.Wording` is the invariant behind one half: the word that is being read in bare text has
  ordinary characters only, also when stray characters stood between them.
* `parse_typeable` is the other half: a name that can be typed is the first token of the query that
  has it and a colon.
-/

namespace Searchbar

/-! ### The names among some tokens -/

/-- The names among some tokens, taken or refused. -/
def namesOf (tokens : List Token) : List String :=
  (tokens.filter fun t => t.kind.isName).map Token.text

theorem mem_namesOf {tokens : List Token} {name : String} :
    name ∈ namesOf tokens ↔ ∃ t ∈ tokens, t.kind.isName = true ∧ t.text = name := by
  simp [namesOf, and_assoc]

theorem namesOf_cons_of_plain {t : Token} (tokens : List Token) (plain : t.kind.isName = false) :
    namesOf (t :: tokens) = namesOf tokens := by
  simp [namesOf, plain]

theorem namesOf_cons_of_name {t : Token} (tokens : List Token) (name : t.kind.isName = true) :
    namesOf (t :: tokens) = t.text :: namesOf tokens := by
  simp [namesOf, name]

theorem TokenKind.isName_ofValue (kind : OptionKind) : (TokenKind.ofValue kind).isName = false := by
  cases kind <;> rfl

namespace Scan

section Operations

variable (s : Scan) (kind : TokenKind) (raw text : String) (hint : Hint) (c : Char)
  (fault : SyntaxFault) (spec : OptionSpec)

theorem namesOf_emit {kind : TokenKind} (plain : kind.isName = false) :
    namesOf (s.emit kind raw text hint).tokens = namesOf s.tokens :=
  namesOf_cons_of_plain s.tokens plain

@[simp] theorem namesOf_stray : namesOf (s.stray c fault).tokens = namesOf s.tokens := by
  rw [stray, namesOf_emit _ _ _ _ rfl, report, reportAt_tokens]

/-- A space that grows stays a space. -/
@[simp] theorem namesOf_emitSpace : namesOf (s.emitSpace c).tokens = namesOf s.tokens := by
  unfold emitSpace
  split
  · exact s.namesOf_emit _ _ _ rfl
  · next last earlier htokens =>
    split
    · next hlast =>
      have plain : last.kind.isName = false := by rw [hlast.1]; rfl
      rw [htokens, namesOf_cons_of_plain earlier plain]
      exact namesOf_cons_of_plain earlier plain
    · exact s.namesOf_emit _ _ _ rfl

@[simp] theorem namesOf_flush : namesOf (s.flush hint).tokens = namesOf s.tokens := by
  unfold flush
  split
  · rfl
  · exact s.namesOf_emit _ _ _ rfl

@[simp] theorem namesOf_escape : namesOf (s.escape c hint).tokens = namesOf s.tokens := by
  unfold escape
  dsimp only
  split
  · exact namesOf_emit _ _ _ _ rfl
  · rw [namesOf_emit _ _ _ _ rfl, report, reportAt_tokens]

@[simp] theorem namesOf_danglingEscape :
    namesOf (s.danglingEscape hint).tokens = namesOf s.tokens := by
  unfold danglingEscape
  rw [namesOf_emit _ _ _ _ rfl, report, reportAt_tokens]

@[simp] theorem namesOf_missingQuote : namesOf s.missingQuote.tokens = namesOf s.tokens := by
  rw [missingQuote, namesOf_emit _ _ _ _ rfl, report, reportAt_tokens]

/-- What is rejected was no name. -/
theorem namesOf_mapFrom (start : Nat) (tokens : List Token) :
    namesOf (mapFrom start rejectToken tokens) = namesOf tokens := by
  induction tokens with
  | nil => rfl
  | cons t earlier ih =>
    rw [mapFrom]
    split
    · cases hname : t.kind.isName with
      | true =>
        have kept : rejectToken t = t := by
          unfold rejectToken
          split
          · next hk => rcases hk with hk | hk <;> rw [hk] at hname <;> cases hname
          · rfl
        rw [kept, namesOf_cons_of_name _ hname, namesOf_cons_of_name _ hname, ih]
      | false =>
        have plain : (rejectToken t).kind.isName = false := by
          unfold rejectToken
          split
          · rfl
          · exact hname
        rw [namesOf_cons_of_plain _ plain, namesOf_cons_of_plain _ hname, ih]
    · rfl

/-- The token that comes to carry a value was no name and becomes none. -/
theorem namesOf_retagFrom (start : Nat) {kind : TokenKind} (plain : kind.isName = false)
    (tokens : List Token) : namesOf (retagFrom start kind text tokens) = namesOf tokens := by
  induction tokens with
  | nil => rfl
  | cons t earlier ih =>
    rw [retagFrom]
    split
    · split
      · next hk =>
        have hname : t.kind.isName = false := by rcases hk with hk | hk <;> rw [hk] <;> rfl
        rw [namesOf_cons_of_plain earlier hname]
        exact namesOf_cons_of_plain earlier plain
      · cases hname : t.kind.isName with
        | true => rw [namesOf_cons_of_name _ hname, namesOf_cons_of_name _ hname, ih]
        | false => rw [namesOf_cons_of_plain _ hname, namesOf_cons_of_plain _ hname, ih]
    · rfl

@[simp] theorem namesOf_rejectValue : namesOf s.rejectValue.tokens = namesOf s.tokens :=
  namesOf_mapFrom s.valueStart s.tokens

theorem namesOf_carryValue {kind : TokenKind} (plain : kind.isName = false) :
    namesOf (s.carryValue spec kind raw text).tokens = namesOf s.tokens := by
  unfold carryValue
  split
  · exact namesOf_retagFrom text s.valueStart plain s.tokens
  · exact s.namesOf_emit _ _ _ plain

/-- The end of a value changes tokens of the value, which are no names. -/
@[simp] theorem namesOf_completeValue :
    namesOf (s.completeValue spec).tokens = namesOf s.tokens := by
  rcases value_cases s spec with h | ⟨h, v, hv⟩ | ⟨h, hv⟩
  · rw [completeValue_missing s spec h, namesOf_emit _ _ _ _ rfl, namesOf_rejectValue,
      reportAt_tokens]
    rfl
  · rw [completeValue_accepted s spec h hv,
      namesOf_carryValue _ _ _ _ (TokenKind.isName_ofValue spec.kind)]
    rfl
  · rw [completeValue_rejected s spec h hv, namesOf_carryValue _ _ _ _ rfl, namesOf_rejectValue,
      reportAt_tokens]
    rfl

@[simp] theorem namesOf_finish (target : Option OptionSpec) :
    namesOf (s.finish target).tokens = namesOf s.tokens := by
  cases target with
  | none => exact s.namesOf_flush .options
  | some spec => exact s.namesOf_completeValue spec

/-- The word before a colon becomes a name. -/
theorem namesOf_finishName (schema : Schema) :
    namesOf (s.finishName schema).tokens = s.decoded :: namesOf s.tokens := by
  obtain ⟨spec, -, h⟩ | ⟨fault, h⟩ := s.finishName_cases schema
  · rw [h]
    exact namesOf_cons_of_name s.tokens rfl
  · rw [h]
    obtain ⟨name, htokens, hkind, -, htext⟩ := s.refuseName_tokens fault
    rw [htokens, namesOf_cons_of_name s.tokens (by rw [hkind]; rfl), htext]

@[simp] theorem finishName_decoded (schema : Schema) : (s.finishName schema).decoded = "" := by
  obtain ⟨spec, -, h⟩ | ⟨fault, h⟩ := s.finishName_cases schema
  · rw [h]
    rfl
  · simp [h, refuseName, report]

end Operations

variable {schema : Schema} {s s' : Scan} {c : Char}

/-- **When a character makes a name**: a colon does, in bare text and behind a word. -/
theorem names_move (h : Move schema s c s') :
    namesOf s'.tokens = namesOf s.tokens ∨
      s.mode = .bare ∧ s.decoded ≠ "" ∧ namesOf s'.tokens = s.decoded :: namesOf s.tokens := by
  cases h with
  | name hm hc hd => exact .inr ⟨hm, hd, s.namesOf_finishName schema⟩
  | blank target | closeQuote target | closeEscape target =>
    left
    simp [Scan.closeQuote, Scan.closeEscape]
  | strayInWord | strayColon | strayInValue spec => left; simp
  | openEscape target =>
    left
    exact s.namesOf_flush (.ofText target)
  | ordinary target | openQuote target | plain target => exact .inl rfl

theorem names_close : namesOf s.close.tokens = namesOf s.tokens := by
  obtain ⟨target, hm | ⟨escaping, hm⟩⟩ := s.mode.outside_or_quoted
  · rw [close_outside hm, namesOf_finish]
  · rw [close_quoted hm, breakOff, namesOf_missingQuote, namesOf_finish]
    split
    · exact s.namesOf_danglingEscape (.ofEscape target)
    · rfl

/-! ### Words have ordinary characters -/

/-- **What a scan has words and names of**: ordinary characters. -/
structure Wording (s : Scan) : Prop where
  word : s.mode = .bare → ∀ c ∈ s.decoded.toList, isOrdinary c = true
  names : ∀ name ∈ namesOf s.tokens, Typeable name

end Scan

theorem typeable_iff {name : String} :
    Typeable name ↔ name ≠ "" ∧ ∀ c ∈ name.toList, isOrdinary c = true := by
  simp only [Typeable, isOrdinary_iff]

namespace Scan

variable {schema : Schema} {s s' : Scan} {c : Char}

/-- A word goes on with ordinary characters only, and a new one starts empty. -/
theorem word_move (h : s.mode = .bare → ∀ d ∈ s.decoded.toList, isOrdinary d = true)
    (hmove : Move schema s c s') :
    s'.mode = .bare → ∀ d ∈ s'.decoded.toList, isOrdinary d = true := by
  intro hm'
  cases hmove with
  | ordinary target hm hc =>
    intro d hd
    have split : d ∈ s.decoded.toList ∨ d = c := by simpa [accumulate] using hd
    rcases split with hd | rfl
    · exact h hm' d hd
    · exact hc
  | strayInWord hm => simpa using h hm
  | strayColon hm => simpa using h hm
  | name => simp
  | blank target => simp [(s.fresh_finish target).decoded]
  | strayInValue spec => simp [(s.fresh_completeValue spec).decoded]
  | closeQuote target => simp [Scan.closeQuote, (fresh_finish _ target).decoded]
  -- inside quotation marks there is no word in bare text
  | plain target hm => exact absurd (hm'.symm.trans hm) (Mode.outside_ne_quoted none target false)
  | openQuote target | openEscape target | closeEscape target =>
    exact absurd hm'.symm (Mode.outside_ne_quoted none target _)

/-- **Invariant preservation.** -/
theorem Wording.move (h : s.Wording) (hmove : Move schema s c s') : s'.Wording := by
  refine ⟨word_move h.word hmove, ?_⟩
  rcases names_move hmove with same | ⟨hm, hd, added⟩
  · rw [same]
    exact h.names
  · -- the word that becomes a name was read in bare text
    rw [added]
    intro name hname
    rcases List.mem_cons.mp hname with rfl | hname
    · exact typeable_iff.mpr ⟨hd, h.word hm⟩
    · exact h.names name hname

end Scan

theorem wording_scan (schema : Schema) (query : String) : (scan schema query).Wording :=
  scan_induction (motive := fun _ s => s.Wording) ⟨by simp, by simp [namesOf]⟩
    (fun h hmove => h.move hmove) query

/-- **The names in a query can be typed** as names. -/
theorem typeable_of_mem_parse {schema : Schema} {query : String} {t : Token}
    (ht : t ∈ (parse schema query).tokens) (hname : t.kind.isName = true) : Typeable t.text := by
  refine (wording_scan schema query).names t.text ?_
  rw [← Scan.names_close, mem_namesOf]
  exact ⟨t, List.mem_reverse.mp ht, hname, rfl⟩

/-! ### Typing a name -/

section Typing

variable {schema : Schema} {name : String}

/-- The scan of a name that has been typed, up to its colon. -/
def typedName (name : String) : Scan := Scan.gather {} name.toList

@[simp] theorem typedName_raw (name : String) : (typedName name).raw = name := by
  simp [typedName, Scan.gather]

@[simp] theorem typedName_decoded (name : String) : (typedName name).decoded = name := by
  simp [typedName, Scan.gather]

@[simp] theorem typedName_tokens (name : String) : (typedName name).tokens = [] := rfl

@[simp] theorem typedName_result (name : String) : (typedName name).result = {} := rfl

/-- The colon makes a name of what has been typed. -/
theorem scan_name_colon (schema : Schema) (h : Typeable name) :
    scan schema (name ++ ":") = (typedName name).finishName schema := by
  obtain ⟨hne, ordinary⟩ := typeable_iff.mp h
  have outside : ({} : Scan).mode = .outside none := rfl
  have colon : (name ++ ":").toList = name.toList ++ [':'] := by simp
  rw [scan_eq_run, colon, Scan.run_append, Scan.run_ordinary outside ordinary, ← typedName,
    Scan.run_cons, Scan.run_nil]
  exact Scan.step_name rfl (by simpa using hne)

/-- A token that shows a name with its colon. -/
structure Token.ShowsName (t : Token) (kind : TokenKind) (name : String) : Prop where
  kind : t.kind = kind
  raw : t.raw = name ++ ":"
  text : t.text = name

theorem push_colon (name : String) : name.push ':' = name ++ ":" := by
  rw [← String.append_singleton]
  rfl

/-- A value that is missing is shown by a token of its own. -/
theorem Scan.tokens_completeValue_missing (s : Scan) (spec : OptionSpec) (h : s.decoded = "") :
    ∃ u, (s.completeValue spec).tokens = u :: mapFrom s.valueStart rejectToken s.tokens ∧
      u.hint = .value spec := by
  rw [completeValue_missing s spec h]
  refine ⟨⟨.missingOptionValue, s.raw, "", ⟨s.cursor, s.cursor + s.raw.utf8ByteSize⟩,
    .value spec⟩, ?_, rfl⟩
  simp [emit, rejectValue, cleared]

/-- A name that the schema has, and a colon: the name is taken, and behind it stands the missing
value. -/
theorem parse_option {spec : OptionSpec} (hget : schema.get? name = some spec) :
    ∃ t u, (parse schema (name ++ ":")).tokens = [t, u] ∧ t.ShowsName .optionName name ∧
      u.hint = .value spec := by
  have typeable : Typeable name := typeable_iff.mpr (Scan.name_ordinary hget)
  have takes : (typedName name).Takes schema spec := ⟨by simpa using hget, .inr rfl⟩
  have scanned : scan schema (name ++ ":") = (typedName name).openValue spec := by
    rw [scan_name_colon schema typeable, Scan.finishName_taken _ schema takes]
  obtain ⟨t, htokens, shows⟩ : ∃ t, ((typedName name).openValue spec).tokens = [t] ∧
      t.ShowsName .optionName name :=
    ⟨_, rfl, rfl, by simp [push_colon], typedName_decoded name⟩
  have closed : ((typedName name).openValue spec).close =
      ((typedName name).openValue spec).completeValue spec := rfl
  obtain ⟨u, hu, hhint⟩ :=
    Scan.tokens_completeValue_missing ((typedName name).openValue spec) spec rfl
  -- the name is none of the tokens that are marked with the value
  have kept : Scan.rejectToken t = t := by simp [Scan.rejectToken, shows.kind]
  refine ⟨t, u, ?_, shows, hhint⟩
  rw [parse, scanned, closed, Scan.output, hu, htokens]
  simp [Scan.mapFrom, kept]

/-- A name that the schema does not have, and a colon: the name is refused. -/
theorem parse_unknown (typeable : Typeable name) (hget : schema.get? name = none) :
    ∃ t, (parse schema (name ++ ":")).tokens = [t] ∧ t.ShowsName .invalidOptionName name := by
  have scanned : scan schema (name ++ ":") =
      (typedName name).refuseName (.unknownOption name) := by
    rw [scan_name_colon schema typeable]
    simp [Scan.finishName, hget, Scan.refuseName]
  obtain ⟨t, htokens, shows⟩ :
      ∃ t, ((typedName name).refuseName (.unknownOption name)).tokens = [t] ∧
        t.ShowsName .invalidOptionName name :=
    ⟨_, rfl, rfl, by simp [push_colon], typedName_decoded name⟩
  have closed : ((typedName name).refuseName (.unknownOption name)).close.tokens = [t] := by
    rw [← htokens]
    rfl
  exact ⟨t, by rw [parse, scanned, Scan.output, closed]; rfl, shows⟩

/-- **A name that can be typed is shown** by the first token of the query that spells it. -/
theorem parse_typeable (schema : Schema) (typeable : Typeable name) :
    ∃ t later kind, (parse schema (name ++ ":")).tokens = t :: later ∧ kind.isName = true ∧
      t.ShowsName kind name := by
  cases hget : schema.get? name with
  | some spec =>
    obtain ⟨t, u, htokens, shows, -⟩ := parse_option hget
    exact ⟨t, [u], .optionName, htokens, rfl, shows⟩
  | none =>
    obtain ⟨t, htokens, shows⟩ := parse_unknown typeable hget
    exact ⟨t, [], .invalidOptionName, htokens, rfl, shows⟩

end Typing

/-! ### What can be typed can be declared -/

/-- A name of which no option is refused. -/
def Declarable (name : String) : Prop :=
  ∀ spec : OptionSpec, spec.name = name →
    ∀ other fault, spec.fault? ≠ some (.invalidName other fault)

theorem declarable_iff_typeable {name : String} : Declarable name ↔ Typeable name := by
  rw [← nameFault?_eq_none_iff_typeable]
  constructor
  · intro h
    by_contra faulty
    obtain ⟨fault, hfault⟩ := Option.ne_none_iff_exists'.mp faulty
    -- an option of any kind would be refused for this name
    exact h { name := name, kind := .boolean } rfl name fault (by simp [OptionSpec.fault?, hfault])
  · rintro h spec rfl other fault hfault
    simp [OptionSpec.fault?, h] at hfault

/-- **The names that can be typed.** -/
structure TypedAsName (name : String) : Prop where
  /-- The names that some query shows are those of which no option is refused. -/
  shown :
    (∃ schema query, ∃ t ∈ (parse schema query).tokens, t.kind.isName = true ∧ t.text = name) ↔
      Declarable name
  /-- No option is refused of a name that has a character and only ordinary ones. -/
  declarable : Declarable name ↔ Typeable name
  /-- Such a name is typed with a colon, whatever the schema. -/
  typed : Typeable name → ∀ schema, ∃ t later, (parse schema (name ++ ":")).tokens = t :: later ∧
    t.kind.isName = true ∧ t.raw = name ++ ":" ∧ t.text = name
  /-- The name of an option is taken, and its value comes next. -/
  taken : ∀ schema spec, schema.get? name = some spec → ∃ t u later,
    (parse schema (name ++ ":")).tokens = t :: u :: later ∧ t.kind = .optionName ∧
      t.raw = name ++ ":" ∧ t.text = name ∧ u.hint = .value spec

/-- **A name can be typed exactly if it can be declared.** -/
theorem name_typed_iff_declarable (name : String) : TypedAsName name := by
  have typed : Typeable name → ∀ schema, ∃ t later,
      (parse schema (name ++ ":")).tokens = t :: later ∧ t.kind.isName = true ∧
        t.raw = name ++ ":" ∧ t.text = name := by
    intro typeable schema
    obtain ⟨t, later, kind, htokens, hname, shows⟩ := parse_typeable schema typeable
    exact ⟨t, later, htokens, shows.kind ▸ hname, shows.raw, shows.text⟩
  refine ⟨?_, declarable_iff_typeable, typed, ?_⟩
  · rw [declarable_iff_typeable]
    constructor
    · rintro ⟨schema, query, t, ht, hname, rfl⟩
      exact typeable_of_mem_parse ht hname
    · intro typeable
      obtain ⟨t, later, htokens, hname, -, htext⟩ := typed typeable .empty
      exact ⟨.empty, name ++ ":", t, by simp [htokens], hname, htext⟩
  · intro schema spec hget
    obtain ⟨t, u, htokens, shows, hhint⟩ := parse_option hget
    exact ⟨t, u, [], htokens, shows.kind, shows.raw, shows.text, hhint⟩

end Searchbar
