import Mathlib.Data.List.Forall2
import Searchbar.Proofs.ScanStep

/-!
# The end of a value

While a value is being read, the tokens made for it are the latest ones, and before them stands the
name that opened it (`Scan.OpenValue`). When the value is complete these tokens are changed, and
perhaps one more is made; the name and what stands before it stay as they are.

* What the tokens of the value are then, its **run**, shows what became of the value (`Verdict`,
  `Scan.OpenValue.completeValue`).
* What becomes of each fragment is `Token.Judged`: its place and its raw text stay, and so does a
  mark that it has already (`Scan.OpenValue.completeValue_judged`).

The other modules use these two facts about the end of a value, and `Scan.completeValue_result` and
`Scan.completeValue_error` about what it does to the result and the error.
-/

namespace Searchbar

namespace TokenKind

/-- The classes of the tokens of a value that is not complete. -/
def isPending : TokenKind → Bool
  | text => true
  | escapeSequence => true
  | invalidEscapeSequence => true
  | _ => false

/-- The classes of a token that can carry an accepted value. -/
def isCarrier : TokenKind → Bool
  | text => true
  | number => true
  | enum => true
  | _ => false

end TokenKind

/-- **The class that shows an accepted value**, kind by kind. A boolean is shown like a choice. -/
inductive OptionKind.ShownAs : OptionKind → TokenKind → Prop
  | number (source : Option Source) : ShownAs (.number source) .number
  | enum (choices : List String) : ShownAs (.enum choices) .enum
  | boolean : ShownAs .boolean .enum
  | string (source : Option Source) : ShownAs (.string source) .text

/-- The class that the scan gives an accepted value is the one that shows it. -/
theorem OptionKind.shownAs_ofValue (kind : OptionKind) : kind.ShownAs (.ofValue kind) := by
  cases kind with
  | number source => exact .number source
  | string source => exact .string source
  | enum choices => exact .enum choices
  | boolean => exact .boolean

/-- A token of such a class can carry the value. -/
theorem OptionKind.ShownAs.isCarrier {kind : OptionKind} {shown : TokenKind}
    (h : kind.ShownAs shown) : shown.isCarrier = true := by
  cases h <;> rfl

/-- What some tokens spell. -/
def rawText (tokens : List Token) : String := String.join (tokens.map Token.raw)

@[simp] theorem rawText_nil : rawText [] = "" := rfl

@[simp] theorem rawText_append (tokens more : List Token) :
    rawText (tokens ++ more) = rawText tokens ++ rawText more := by
  simp [rawText]

@[simp] theorem rawText_cons (t : Token) (tokens : List Token) :
    rawText (t :: tokens) = t.raw ++ rawText tokens := by
  simp [rawText]

/-- The value that a decoded text gives an option, if it gives one. -/
def OptionSpec.accept? (spec : OptionSpec) (d : String) : Option Value :=
  if d = "" then none else spec.read? d

/-- What is wrong with the decoded text of a value, if anything is. -/
def OptionSpec.valueFault? (spec : OptionSpec) (d : String) : Option SyntaxFault :=
  if d = "" then some (.missingValue spec.name)
  else if (spec.read? d).isNone then some (.invalidValue spec.name spec.kind.name d)
  else none

/-- The result with a value stored, if there is one. -/
def SearchResult.storeIf (r : SearchResult) (spec : OptionSpec) : Option Value → SearchResult
  | some v => r.store spec v
  | none => r

/-- An option that may be set has its values followed by the one that is stored. -/
theorem SearchResult.values_storeIf {r : SearchResult} {spec : OptionSpec}
    (h : spec.multiple = true ∨ r.contains spec.name = false) (v? : Option Value) (name : String) :
    (r.storeIf spec v?).values name =
      r.values name ++ if spec.name = name then v?.toList else [] := by
  cases v? with
  | none => simp [storeIf]
  | some v =>
    by_cases hn : spec.name = name
    · subst hn
      rw [storeIf, values_store_self]
      rcases h with h | h
      · simp [h]
      · -- an option that may be given once held nothing, so the value is its only one
        simp [values_eq_nil h]
    · simp [storeIf, values_store_of_ne r spec v (Ne.symm hn), hn]

theorem SearchResult.contains_storeIf (r : SearchResult) (spec : OptionSpec) (v? : Option Value)
    (name : String) :
    (r.storeIf spec v?).contains name = (r.contains name || (spec.name == name && v?.isSome)) := by
  cases v? with
  | none => simp [storeIf]
  | some v => simp [storeIf, contains_store, Bool.or_comm, Bool.beq_comm (a := name)]

/-- **What became of a value**, as the tokens of its run show it. The value is missing, rejected or
accepted, by its decoded text `d`; an accepted value is carried by the last token that can carry
one, which shows it by the class for its kind. -/
structure Verdict (spec : OptionSpec) (d : String) (run : List Token) : Prop where
  nonempty : run ≠ []
  missing : d = "" → ∃ earlier t, run = earlier ++ [t] ∧ t.kind = .missingOptionValue
  rejected : d ≠ "" → spec.read? d = none →
    (∃ t later, run = t :: later ∧ t.kind = .invalid) ∧
      ∀ t ∈ run, t.kind ≠ .text ∧ t.kind ≠ .escapeSequence ∧ t.kind ≠ .number ∧ t.kind ≠ .enum
  accepted : d ≠ "" → ∀ v, spec.read? d = some v →
    (∀ t ∈ run, t.kind ≠ .invalid ∧ t.kind ≠ .missingOptionValue) ∧
      ∃ earlier t later, run = earlier ++ t :: later ∧ spec.kind.ShownAs t.kind ∧ t.text = d ∧
        ∀ u ∈ later, u.kind.isCarrier = false

/-- **What the end of a value may make of a fragment**: its place and its raw text stay, and a
fragment that was not marked may be marked as rejected or may carry the value. -/
structure Token.Judged (t t' : Token) : Prop where
  raw : t'.raw = t.raw
  span : t'.span = t.span
  hint : t'.hint = t.hint
  kind : t'.kind = t.kind ∨
    (t.kind = .text ∨ t.kind = .escapeSequence) ∧ (t'.kind = .invalid ∨ t'.kind.isCarrier = true)

namespace Token.Judged

theorem refl (t : Token) : Judged t t := ⟨rfl, rfl, rfl, .inl rfl⟩

theorem trans {t t' t'' : Token} (h : Judged t t') (h' : Judged t' t'') : Judged t t'' := by
  refine ⟨h'.raw.trans h.raw, h'.span.trans h.span, h'.hint.trans h.hint, ?_⟩
  rcases h.kind with hk | ⟨hopen, hmark⟩
  · -- the first judgement changed nothing
    have := h'.kind
    rwa [hk] at this
  · rcases h'.kind with hk' | ⟨-, hmark'⟩
    · exact .inr ⟨hopen, hk' ▸ hmark⟩
    · exact .inr ⟨hopen, hmark'⟩

/-- A fragment stays pending, or it is marked as rejected, or it carries the value. -/
theorem kind_of_pending {t t' : Token} (h : Judged t t') (ht : t.kind.isPending = true) :
    t'.kind.isPending = true ∨ t'.kind = .invalid ∨ t'.kind.isCarrier = true := by
  rcases h.kind with hk | ⟨-, hk⟩
  · exact .inl (hk ▸ ht)
  · exact .inr hk

end Token.Judged

namespace Scan

/-! ### Reaching back -/

section ReachingBack

variable {start : Nat} {name : Token} {fragments before : List Token}

/-- Only the tokens of the value are changed. -/
theorem mapFrom_append (f : Token → Token) (hname : name.span.start < start)
    (h : ∀ t ∈ fragments, start ≤ t.span.start) :
    mapFrom start f (fragments ++ name :: before) = fragments.map f ++ name :: before := by
  induction fragments with
  | nil => simp [mapFrom, Nat.not_le.mpr hname]
  | cons t fragments ih =>
    simp [mapFrom, h t List.mem_cons_self, ih fun u hu => h u (List.mem_cons_of_mem t hu)]

theorem retagFrom_append (kind : TokenKind) (text : String) (hname : name.span.start < start)
    (h : ∀ t ∈ fragments, start ≤ t.span.start) :
    retagFrom start kind text (fragments ++ name :: before) =
      retagFrom 0 kind text fragments ++ name :: before := by
  induction fragments with
  | nil => simp [retagFrom, Nat.not_le.mpr hname]
  | cons t fragments ih =>
    have rest := ih fun u hu => h u (List.mem_cons_of_mem t hu)
    simp only [List.cons_append, retagFrom, h t List.mem_cons_self, Nat.zero_le, if_true, rest]
    split <;> rfl

/-- The token that is retagged is the latest text among the tokens of the value. -/
theorem retagFrom_eq (kind : TokenKind) (text : String) {tokens : List Token}
    (h : ∃ t ∈ tokens, t.kind = .text ∨ t.kind = .invalid) :
    ∃ later t earlier, tokens = later ++ t :: earlier ∧ (t.kind = .text ∨ t.kind = .invalid) ∧
      (∀ u ∈ later, u.kind ≠ .text ∧ u.kind ≠ .invalid) ∧
      retagFrom 0 kind text tokens = later ++ { t with kind := kind, text := text } :: earlier := by
  induction tokens with
  | nil => simp at h
  | cons t earlier ih =>
    by_cases ht : t.kind = .text ∨ t.kind = .invalid
    · exact ⟨[], t, earlier, rfl, ht, by simp, by simp [retagFrom, ht]⟩
    · obtain ⟨later, u, earlier', rfl, hu, hlater, htag⟩ := ih (by simpa [ht] using h)
      refine ⟨t :: later, u, earlier', rfl, hu, ?_, by simp [retagFrom, ht, htag]⟩
      intro w hw
      rcases List.mem_cons.mp hw with rfl | hw
      · exact not_or.mp ht
      · exact hlater w hw

end ReachingBack

/-! ### The tokens of an open value -/

/-- **An open value** of `spec`: its fragments are the latest tokens, and they follow the `name` that
opened it. -/
structure OpenValue (spec : OptionSpec) (s : Scan) (fragments : List Token) (name : Token)
    (before : List Token) : Prop where
  tokens : s.tokens = fragments ++ name :: before
  start : name.span.start < s.valueStart
  stop : name.span.stop = s.valueStart
  cursor : s.valueStart ≤ s.cursor
  starts : ∀ t ∈ fragments, s.valueStart ≤ t.span.start
  hints : ∀ t ∈ fragments, t.hint = .value spec
  pending : ∀ t ∈ fragments, t.kind.isPending = true
  /-- The oldest fragment is the text with the opening quotation mark. -/
  oldest : ∀ t ∈ fragments.getLast?, t.kind = .text

namespace OpenValue

variable {spec : OptionSpec} {s : Scan} {fragments before : List Token} {name : Token}

/-- Whether a value is open depends on the tokens and the two offsets only. -/
theorem congr {s' : Scan} (h : s.OpenValue spec fragments name before)
    (ht : s'.tokens = s.tokens) (hc : s'.cursor = s.cursor) (hv : s'.valueStart = s.valueStart) :
    s'.OpenValue spec fragments name before where
  tokens := ht.trans h.tokens
  start := hv ▸ h.start
  stop := hv ▸ h.stop
  cursor := hv ▸ hc ▸ h.cursor
  starts := hv ▸ h.starts
  hints := h.hints
  pending := h.pending
  oldest := h.oldest

/-- A new fragment. The first one has to be text. -/
theorem emit (h : s.OpenValue spec fragments name before) (kind : TokenKind) (raw text : String)
    (hk : kind.isPending = true) (first : fragments = [] → kind = .text) :
    ∃ t, (s.emit kind raw text (.value spec)).OpenValue spec (t :: fragments) name before ∧
      t.raw = raw := by
  refine ⟨⟨kind, raw, text, ⟨s.cursor, s.cursor + raw.utf8ByteSize⟩, .value spec⟩, ?_, rfl⟩
  constructor
  case tokens => simp [Scan.emit, h.tokens]
  case start => exact h.start
  case stop => exact h.stop
  case cursor => exact Nat.le_trans h.cursor (Nat.le_add_right _ _)
  case starts => exact List.forall_mem_cons.mpr ⟨h.cursor, h.starts⟩
  case hints => exact List.forall_mem_cons.mpr ⟨rfl, h.hints⟩
  case pending => exact List.forall_mem_cons.mpr ⟨hk, h.pending⟩
  case oldest =>
    cases fragments with
    | nil => simpa using first rfl
    | cons u fragments => simpa using h.oldest

/-- The pending text becomes a fragment. -/
theorem flush (h : s.OpenValue spec fragments name before) :
    ∃ fragments', (s.flush (.value spec)).OpenValue spec fragments' name before ∧
      rawText fragments'.reverse = rawText fragments.reverse ++ s.raw := by
  unfold Scan.flush
  split
  · next he => exact ⟨fragments, h, by simp [String.isEmpty_iff.mp he]⟩
  · obtain ⟨t, opened, hraw⟩ := h.emit .text s.raw s.decoded rfl fun _ => rfl
    exact ⟨t :: fragments, opened.congr rfl rfl rfl, by simp [hraw]⟩

/-- An escape becomes a fragment. It is not the first one: the quotation mark stands before it. -/
theorem escape (h : s.OpenValue spec fragments name before) (hne : fragments ≠ []) (c : Char) :
    ∃ fragments', (s.escape c (.value spec)).OpenValue spec fragments' name before ∧
      rawText fragments'.reverse = rawText fragments.reverse ++ s.raw.push c := by
  unfold Scan.escape
  dsimp only
  split
  · next e _ =>
    have opened : ({ s with raw := "", decoded := s.decoded.push e } : Scan).OpenValue spec fragments
        name before := h.congr rfl rfl rfl
    obtain ⟨t, opened, hraw⟩ := opened.emit .escapeSequence (s.raw.push c)
      (s.decoded.push e) rfl fun hnil => absurd hnil hne
    exact ⟨t :: fragments, opened, by simp [hraw]⟩
  · have opened : (({ s with raw := "" } : Scan).report .invalidEscape).OpenValue spec fragments
        name before := h.congr (by simp [report]) (by simp [report]) (by simp [report])
    obtain ⟨t, opened, hraw⟩ := opened.emit .invalidEscapeSequence (s.raw.push c)
      s.decoded rfl fun hnil => absurd hnil hne
    exact ⟨t :: fragments, opened, by simp [hraw]⟩

theorem danglingEscape (h : s.OpenValue spec fragments name before) (hne : fragments ≠ []) :
    ∃ fragments', (s.danglingEscape (.value spec)).OpenValue spec fragments' name before ∧
      rawText fragments'.reverse = rawText fragments.reverse ++ s.raw := by
  have opened : (s.report .invalidEscape).OpenValue spec fragments name before :=
    h.congr (by simp [report]) (by simp [report]) (by simp [report])
  obtain ⟨t, opened, hraw⟩ := opened.emit .invalidEscapeSequence s.raw s.decoded rfl
    fun hnil => absurd hnil hne
  exact ⟨t :: fragments, opened.congr rfl rfl rfl, by simp [hraw]⟩

end OpenValue

/-- A name that is taken opens a value without fragments. -/
theorem openValue_openValue (s : Scan) (spec : OptionSpec) :
    ∃ name, (s.openValue spec).OpenValue spec [] name s.tokens ∧ name.kind = .optionName ∧
      name.hint = .none ∧ name.text = s.decoded := by
  refine ⟨_, ⟨rfl, ?_, rfl, Nat.le_refl _, by simp, by simp, by simp, by simp⟩, rfl, rfl, rfl⟩
  -- the colon is part of the name's token, so the value starts behind the name's start
  have colon : 0 < (s.raw.push ':').utf8ByteSize := by
    rw [String.utf8ByteSize_push]
    exact Nat.add_pos_right _ (Char.utf8Size_pos ':')
  exact Nat.lt_add_of_pos_right colon

/-! ### Completing a value -/

@[simp] theorem rejectToken_raw (t : Token) : (rejectToken t).raw = t.raw := by
  unfold rejectToken; split <;> rfl

@[simp] theorem rejectToken_hint (t : Token) : (rejectToken t).hint = t.hint := by
  unfold rejectToken; split <;> rfl

@[simp] theorem rejectToken_span (t : Token) : (rejectToken t).span = t.span := by
  unfold rejectToken; split <;> rfl

theorem rejectToken_kind {t : Token} (h : t.kind.isPending = true) :
    (rejectToken t).kind = .invalid ∨ (rejectToken t).kind = .invalidEscapeSequence := by
  unfold rejectToken
  cases hk : t.kind <;> simp_all [TokenKind.isPending]

theorem rejectToken_text {t : Token} (h : t.kind = .text) : (rejectToken t).kind = .invalid := by
  simp [rejectToken, h]

@[simp] theorem rawText_rejectToken (tokens : List Token) :
    rawText (tokens.map rejectToken) = rawText tokens := by
  simp [rawText, Function.comp_def]

/-- **A value and its carrier.** The token `t` carries the value; the other tokens of the run are
fragments of it, and the text of the run is that of the fragments with the pending text. -/
structure Carried (spec : OptionSpec) (kind : TokenKind) (raw value : String)
    (fragments later : List Token) (t : Token) (earlier : List Token) : Prop where
  kind : t.kind = kind
  text : t.text = value
  hint : t.hint = .value spec
  newer : ∀ u ∈ later, u ∈ fragments ∧ u.kind ≠ .text ∧ u.kind ≠ .invalid
  older : ∀ u ∈ earlier, u ∈ fragments
  oldest : earlier = [] ∨ earlier.getLast? = fragments.getLast?
  raws : rawText (later ++ t :: earlier).reverse = rawText fragments.reverse ++ raw

namespace Carried

variable {spec : OptionSpec} {kind : TokenKind} {raw value : String}
  {fragments later earlier : List Token} {t : Token}

theorem forall_mem (h : Carried spec kind raw value fragments later t earlier) {p : Token → Prop}
    (carrier : p t) (rest : ∀ u ∈ fragments, p u) : ∀ u ∈ later ++ t :: earlier, p u := by
  intro u hu
  rcases List.mem_append.mp hu with hu | hu
  · exact rest u (h.newer u hu).1
  · rcases List.mem_cons.mp hu with rfl | hu
    · exact carrier
    · exact rest u (h.older u hu)

/-- The first token of the run is its carrier, or it was the first before. -/
theorem reverse_eq_cons (h : Carried spec kind raw value fragments later t earlier) :
    ∃ u rest, (later ++ t :: earlier).reverse = u :: rest ∧ (u = t ∨ u ∈ fragments.getLast?) := by
  rcases List.eq_nil_or_concat earlier with rfl | ⟨others, u, rfl⟩
  · exact ⟨t, later.reverse, by simp, .inl rfl⟩
  · refine ⟨u, (later ++ t :: others).reverse, by simp, .inr ?_⟩
    rcases h.oldest with hnil | hlast
    · simp at hnil
    · simp [← hlast]

end Carried

/-- **Carrying a value** changes one of its fragments, or makes a new token. -/
theorem carryValue_carried {s : Scan} {spec : OptionSpec} {fragments before : List Token}
    {name : Token} (kind : TokenKind) (raw value : String)
    (htokens : s.tokens = fragments ++ name :: before) (hname : name.span.start < s.valueStart)
    (starts : ∀ t ∈ fragments, s.valueStart ≤ t.span.start)
    (hints : ∀ t ∈ fragments, t.hint = .value spec)
    (carrier : raw = "" → ∃ t ∈ fragments, t.kind = .text ∨ t.kind = .invalid) :
    ∃ later t earlier, (s.carryValue spec kind raw value).tokens =
        later ++ t :: earlier ++ name :: before ∧
      Carried spec kind raw value fragments later t earlier := by
  unfold carryValue
  split
  · next he =>
    have hraw := String.isEmpty_iff.mp he
    obtain ⟨later, t, earlier, rfl, -, hlater, htag⟩ := retagFrom_eq kind value (carrier hraw)
    -- all characters are in tokens: the latest text is retagged
    refine ⟨later, { t with kind := kind, text := value }, earlier, ?_, rfl, rfl,
      hints t (by simp), fun u hu => ⟨by simp [hu], hlater u hu⟩, fun u hu => by simp [hu], ?_, ?_⟩
    · rw [htokens, retagFrom_append kind value hname starts, htag]
    · cases earlier with
      | nil => exact .inl rfl
      | cons u earlier => exact .inr (by simp [List.getLast?_cons])
    · simp [hraw]
  · -- the pending text is a token of its own, the latest of the run
    refine ⟨[], ⟨kind, raw, value, ⟨s.cursor, s.cursor + raw.utf8ByteSize⟩, .value spec⟩, fragments,
      ?_, rfl, rfl, rfl, by simp, fun u hu => hu, .inr rfl, by simp⟩
    rw [emit, htokens]
    rfl

/-- A value that is accepted is stored, and nothing else is. -/
theorem completeValue_result (s : Scan) (spec : OptionSpec) :
    (s.completeValue spec).result = s.result.storeIf spec (spec.accept? s.decoded) := by
  rcases value_cases s spec with hd | ⟨hd, v, hv⟩ | ⟨hd, hv⟩
  · rw [completeValue_missing s spec hd]
    simp [OptionSpec.accept?, hd, rejectValue, cleared, SearchResult.storeIf]
  · rw [completeValue_accepted s spec hd hv]
    simp [OptionSpec.accept?, hd, hv, SearchResult.storeIf]
  · rw [completeValue_rejected s spec hd hv]
    simp [OptionSpec.accept?, hd, hv, rejectValue, cleared, SearchResult.storeIf]

/-- A value that is not accepted is an error at the place where it starts. -/
theorem completeValue_error (s : Scan) (spec : OptionSpec) :
    (s.completeValue spec).error =
      s.error.or ((spec.valueFault? s.decoded).map fun fault => ⟨s.valueStart, fault⟩) := by
  rcases value_cases s spec with hd | ⟨hd, v, hv⟩ | ⟨hd, hv⟩
  · rw [completeValue_missing s spec hd]
    simp [OptionSpec.valueFault?, hd, rejectValue, cleared]
  · rw [completeValue_accepted s spec hd hv]
    simp [OptionSpec.valueFault?, hd, hv, cleared]
  · rw [completeValue_rejected s spec hd hv]
    simp [OptionSpec.valueFault?, hd, hv, rejectValue, cleared]

/-- **A complete value** of `spec` that was typed as `raw` and decoded to `d`: the tokens since its
name are a run that spells it and shows what became of it. -/
structure ClosedValue (spec : OptionSpec) (raw d : String) (s : Scan) (run : List Token)
    (name : Token) (before : List Token) : Prop where
  tokens : s.tokens = run ++ name :: before
  raws : rawText run.reverse = raw
  hints : ∀ t ∈ run, t.hint = .value spec
  kinds : ∀ t ∈ run, t.kind ≠ .optionName ∧ t.kind ≠ .space
  verdict : Verdict spec d run.reverse

namespace OpenValue

variable {spec : OptionSpec} {s : Scan} {fragments before : List Token} {name : Token}

theorem hints_reject (h : s.OpenValue spec fragments name before) :
    ∀ t ∈ fragments.map rejectToken, t.hint = .value spec := by
  intro t ht
  obtain ⟨u, hu, rfl⟩ := List.mem_map.mp ht
  simpa using h.hints u hu

theorem kinds_reject (h : s.OpenValue spec fragments name before) :
    ∀ t ∈ fragments.map rejectToken, t.kind = .invalid ∨ t.kind = .invalidEscapeSequence := by
  intro t ht
  obtain ⟨u, hu, rfl⟩ := List.mem_map.mp ht
  exact rejectToken_kind (h.pending u hu)

theorem tokens_reject (h : s.OpenValue spec fragments name before) :
    mapFrom s.valueStart rejectToken s.tokens = fragments.map rejectToken ++ name :: before := by
  rw [h.tokens, mapFrom_append rejectToken h.start h.starts]

/-- A value that is missing leaves a mark at the end of its run. -/
theorem completeValue_of_missing (h : s.OpenValue spec fragments name before)
    (hd : s.decoded = "") :
    ∃ run, (s.completeValue spec).ClosedValue spec (rawText fragments.reverse ++ s.raw) s.decoded run
      name before := by
  refine ⟨⟨.missingOptionValue, s.raw, "", ⟨s.cursor, s.cursor + s.raw.utf8ByteSize⟩,
    .value spec⟩ :: fragments.map rejectToken, ?_, ?_, ?_, ?_, ?_⟩
  · rw [completeValue_missing s spec hd]
    simp [Scan.emit, rejectValue, cleared, h.tokens_reject]
  · simp [← List.map_reverse]
  · exact List.forall_mem_cons.mpr ⟨rfl, h.hints_reject⟩
  · refine List.forall_mem_cons.mpr ⟨by simp, fun t ht => ?_⟩
    rcases h.kinds_reject t ht with hk | hk <;> rw [hk] <;> decide
  · refine ⟨by simp, fun _ => ⟨_, _, List.reverse_cons, rfl⟩, ?_, ?_⟩
    · exact fun hne => absurd hd hne
    · exact fun hne => absurd hd hne

theorem exists_text (h : s.OpenValue spec fragments name before) (hne : fragments ≠ []) :
    ∃ t ∈ fragments, t.kind = .text :=
  ⟨fragments.getLast hne, List.getLast_mem hne, h.oldest _ (List.getLast?_eq_some_getLast hne)⟩

/-- A value that is rejected has a run of invalid tokens. -/
theorem completeValue_of_rejected (h : s.OpenValue spec fragments name before)
    (hd : s.decoded ≠ "") (hv : spec.read? s.decoded = none)
    (begun : s.raw = "" → fragments ≠ []) :
    ∃ run, (s.completeValue spec).ClosedValue spec (rawText fragments.reverse ++ s.raw) s.decoded run
      name before := by
  -- the oldest fragment was text, so it is invalid now
  have oldest : ∀ t ∈ (fragments.map rejectToken).getLast?, t.kind = .invalid := by
    intro t ht
    rw [List.getLast?_map] at ht
    obtain ⟨u, hu, rfl⟩ := Option.map_eq_some_iff.mp ht
    exact rejectToken_text (h.oldest u hu)
  have starts : ∀ t ∈ fragments.map rejectToken, s.valueStart ≤ t.span.start := by
    intro t ht
    obtain ⟨u, hu, rfl⟩ := List.mem_map.mp ht
    simpa using h.starts u hu
  -- the scan whose tokens are marked already, and which only has to carry the value
  let marked := (s.cleared.reportAt s.valueStart
    (.invalidValue spec.name spec.kind.name s.decoded)).rejectValue
  have htokens : marked.tokens = fragments.map rejectToken ++ name :: before := by
    simp [marked, rejectValue, cleared, h.tokens_reject]
  have hstart : marked.valueStart = s.valueStart := by simp [marked, rejectValue, cleared]
  have carrier : s.raw = "" →
      ∃ t ∈ fragments.map rejectToken, t.kind = .text ∨ t.kind = .invalid := by
    intro hr
    obtain ⟨u, hu, hk⟩ := h.exists_text (begun hr)
    exact ⟨_, List.mem_map_of_mem hu, .inr (rejectToken_text hk)⟩
  obtain ⟨later, t, earlier, hcarried, carried⟩ := carryValue_carried .invalid s.raw s.decoded
    htokens (hstart ▸ h.start) (hstart ▸ starts) h.hints_reject carrier
  have kinds : ∀ u ∈ later ++ t :: earlier,
      u.kind = .invalid ∨ u.kind = .invalidEscapeSequence :=
    carried.forall_mem (.inl carried.kind) h.kinds_reject
  refine ⟨later ++ t :: earlier, ?_, ?_, ?_, ?_, ?_⟩
  · rw [completeValue_rejected s spec hd hv, hcarried]
  · rw [carried.raws, ← List.map_reverse, rawText_rejectToken]
  · exact carried.forall_mem carried.hint h.hints_reject
  · intro u hu
    rcases kinds u hu with hk | hk <;> rw [hk] <;> decide
  · refine ⟨by simp, fun he => absurd he hd, fun _ _ => ⟨?_, fun u hu => ?_⟩, fun _ v hv' => ?_⟩
    · obtain ⟨u, rest, hrun, hu⟩ := carried.reverse_eq_cons
      refine ⟨u, rest, hrun, ?_⟩
      rcases hu with rfl | hu
      · exact carried.kind
      · exact oldest u hu
    · rcases kinds u (List.mem_reverse.mp hu) with hk | hk <;> rw [hk] <;> decide
    · rw [hv] at hv'
      cases hv'

/-- A value that is accepted is carried by the last token of its run that can. -/
theorem completeValue_of_accepted (h : s.OpenValue spec fragments name before)
    (hd : s.decoded ≠ "") {v : Value} (hv : spec.read? s.decoded = some v)
    (begun : s.raw = "" → fragments ≠ []) :
    ∃ run, (s.completeValue spec).ClosedValue spec (rawText fragments.reverse ++ s.raw) s.decoded run
      name before := by
  obtain ⟨later, t, earlier, htokens, carried⟩ := carryValue_carried
    (s := { s.cleared with result := s.result.store spec v }) (.ofValue spec.kind) s.raw s.decoded
    h.tokens h.start h.starts h.hints fun hr => by
      obtain ⟨u, hu, hk⟩ := h.exists_text (begun hr)
      exact ⟨u, hu, .inl hk⟩
  have shown : spec.kind.ShownAs t.kind := carried.kind ▸ spec.kind.shownAs_ofValue
  have kinds : ∀ u ∈ later ++ t :: earlier, u.kind.isPending = true ∨ u.kind.isCarrier = true :=
    carried.forall_mem (.inr shown.isCarrier) fun u hu => .inl (h.pending u hu)
  refine ⟨later ++ t :: earlier, ?_, carried.raws, ?_, ?_, ?_⟩
  · rw [completeValue_accepted s spec hd hv, htokens]
  · exact carried.forall_mem carried.hint h.hints
  · intro u hu
    constructor <;> intro hk <;> simpa [hk, TokenKind.isPending, TokenKind.isCarrier] using kinds u hu
  · refine ⟨by simp, fun he => absurd he hd, fun _ hn => ?_, fun _ _ _ => ⟨fun u hu => ?_, ?_⟩⟩
    · rw [hv] at hn
      cases hn
    · have := kinds u (List.mem_reverse.mp hu)
      constructor <;> intro hk <;> simp [hk, TokenKind.isPending, TokenKind.isCarrier] at this
    · refine ⟨earlier.reverse, t, later.reverse, by simp, shown, carried.text, fun u hu => ?_⟩
      -- a later token is a fragment that is not text, so it can carry nothing
      obtain ⟨hu, htext, -⟩ := carried.newer u (List.mem_reverse.mp hu)
      have := h.pending u hu
      cases hk : u.kind <;> simp_all [TokenKind.isPending, TokenKind.isCarrier]

/-- **The end of an open value.** The tokens since its name become a run that spells what has been
read of the value and shows what became of it. -/
theorem completeValue (h : s.OpenValue spec fragments name before)
    (begun : s.decoded ≠ "" → s.raw = "" → fragments ≠ []) :
    ∃ run, (s.completeValue spec).ClosedValue spec (rawText fragments.reverse ++ s.raw) s.decoded run
      name before := by
  rcases value_cases s spec with hd | ⟨hd, v, hv⟩ | ⟨hd, hv⟩
  · exact h.completeValue_of_missing hd
  · exact h.completeValue_of_accepted hd hv (begun hd)
  · exact h.completeValue_of_rejected hd hv (begun hd)

end OpenValue

/-! ### What becomes of the fragments -/

/-- Tokens that are judged are judged part by part. -/
theorem judged_append {first second judged : List Token}
    (h : List.Forall₂ Token.Judged (first ++ second) judged) :
    ∃ first' second', judged = first' ++ second' ∧ List.Forall₂ Token.Judged first first' ∧
      List.Forall₂ Token.Judged second second' := by
  induction first generalizing judged with
  | nil => exact ⟨[], judged, rfl, .nil, h⟩
  | cons t first ih =>
    obtain ⟨t', rest, ht, hrest, rfl⟩ := List.forall₂_cons_left_iff.mp h
    obtain ⟨first', second', rfl, hfirst, hsecond⟩ := ih hrest
    exact ⟨t' :: first', second', rfl, .cons ht hfirst, hsecond⟩

theorem judged_mem {tokens judged : List Token} (h : List.Forall₂ Token.Judged tokens judged)
    {t' : Token} (ht' : t' ∈ judged) : ∃ t ∈ tokens, t.Judged t' := by
  induction h with
  | nil => cases ht'
  | @cons t u tokens judged htu _ ih =>
    rcases List.mem_cons.mp ht' with rfl | ht'
    · exact ⟨t, List.mem_cons_self, htu⟩
    · obtain ⟨w, hw, hjudged⟩ := ih ht'
      exact ⟨w, List.mem_cons_of_mem t hw, hjudged⟩

theorem judged_rejectToken (t : Token) : t.Judged (rejectToken t) := by
  unfold rejectToken
  split
  · next hk => exact ⟨rfl, rfl, rfl, .inr ⟨hk, .inl rfl⟩⟩
  · exact .refl t

/-- A fragment that carries the value was text, or it was marked and still is. -/
theorem judged_retagFrom {kind : TokenKind} (text : String) {tokens : List Token}
    (h : kind = .invalid ∨ kind.isCarrier = true ∧ ∀ t ∈ tokens, t.kind ≠ .invalid) :
    List.Forall₂ Token.Judged tokens (retagFrom 0 kind text tokens) := by
  have same : ∀ tokens : List Token, List.Forall₂ Token.Judged tokens tokens :=
    fun tokens => List.forall₂_same.mpr fun t _ => .refl t
  induction tokens with
  | nil => exact .nil
  | cons t earlier ih =>
    simp only [retagFrom, Nat.zero_le, if_true]
    split
    · next ht =>
      refine .cons ⟨rfl, rfl, rfl, ?_⟩ (same earlier)
      rcases h with rfl | ⟨hk, hclear⟩
      · exact ht.elim (fun ht => .inr ⟨.inl ht, .inl rfl⟩) fun ht => .inl ht.symm
      · exact .inr ⟨.inl (ht.resolve_right (hclear t List.mem_cons_self)), .inr hk⟩
    · exact .cons (.refl t)
        (ih (h.imp_right fun h => ⟨h.1, fun u hu => h.2 u (List.mem_cons_of_mem t hu)⟩))

/-- Carrying a value judges its fragments, and makes at most one token. -/
theorem carryValue_judged {s : Scan} (spec : OptionSpec) {fragments before : List Token}
    {name : Token} {kind : TokenKind} (raw value : String)
    (htokens : s.tokens = fragments ++ name :: before) (hname : name.span.start < s.valueStart)
    (starts : ∀ t ∈ fragments, s.valueStart ≤ t.span.start)
    (hkind : kind = .invalid ∨ kind.isCarrier = true ∧ ∀ t ∈ fragments, t.kind ≠ .invalid) :
    ∃ closing judged, (s.carryValue spec kind raw value).tokens =
        closing ++ judged ++ name :: before ∧
      List.Forall₂ Token.Judged fragments judged ∧ (∀ t ∈ closing, t.kind = kind) ∧
      closing.length ≤ 1 := by
  unfold carryValue
  split
  · refine ⟨[], retagFrom 0 kind value fragments, ?_, judged_retagFrom value hkind, by simp,
      Nat.zero_le 1⟩
    rw [List.nil_append, htokens, retagFrom_append kind value hname starts]
  · refine ⟨[⟨kind, raw, value, ⟨s.cursor, s.cursor + raw.utf8ByteSize⟩, .value spec⟩], fragments,
      ?_, List.forall₂_same.mpr fun t _ => .refl t, by simp, Nat.le_refl 1⟩
    rw [emit, htokens]
    rfl

namespace OpenValue

variable {spec : OptionSpec} {s : Scan} {fragments before : List Token} {name : Token}

theorem judged_reject (fragments : List Token) :
    List.Forall₂ Token.Judged fragments (fragments.map rejectToken) :=
  List.forall₂_map_right_iff.mpr (List.forall₂_same.mpr fun t _ => judged_rejectToken t)

/-- **What becomes of the fragments.** Each is judged where it stands, and what stands before the
value is not touched. At most the pending text becomes one more token. -/
theorem completeValue_judged (h : s.OpenValue spec fragments name before) :
    ∃ closing judged, (s.completeValue spec).tokens = closing ++ judged ++ name :: before ∧
      List.Forall₂ Token.Judged fragments judged ∧
      (∀ t ∈ closing,
        t.kind = .missingOptionValue ∨ t.kind = .invalid ∨ t.kind.isCarrier = true) ∧
      closing.length ≤ 1 := by
  rcases value_cases s spec with hd | ⟨hd, v, hv⟩ | ⟨hd, hv⟩
  · refine ⟨[⟨.missingOptionValue, s.raw, "", ⟨s.cursor, s.cursor + s.raw.utf8ByteSize⟩,
      .value spec⟩], fragments.map rejectToken, ?_, judged_reject fragments, by simp, Nat.le_refl 1⟩
    rw [completeValue_missing s spec hd]
    simp [Scan.emit, rejectValue, cleared, h.tokens_reject]
  · have clear : ∀ t ∈ fragments, t.kind ≠ .invalid := by
      intro t ht hk
      have := h.pending t ht
      rw [hk] at this
      cases this
    obtain ⟨closing, judged, htokens, hjudged, hclosing, hone⟩ := carryValue_judged
      (s := { s.cleared with result := s.result.store spec v }) spec s.raw s.decoded h.tokens h.start
      h.starts (.inr ⟨spec.kind.shownAs_ofValue.isCarrier, clear⟩)
    refine ⟨closing, judged, ?_, hjudged, fun t ht => .inr (.inr ?_), hone⟩
    · rw [completeValue_accepted s spec hd hv, htokens]
    · rw [hclosing t ht]
      exact spec.kind.shownAs_ofValue.isCarrier
  · -- the fragments are judged twice: they are marked first, and then one carries the value
    have htokens : ((s.cleared.reportAt s.valueStart
        (.invalidValue spec.name spec.kind.name s.decoded)).rejectValue).tokens =
        fragments.map rejectToken ++ name :: before := by
      simp [rejectValue, cleared, h.tokens_reject]
    have starts : ∀ t ∈ fragments.map rejectToken, s.valueStart ≤ t.span.start := by
      intro t ht
      obtain ⟨u, hu, rfl⟩ := List.mem_map.mp ht
      simpa using h.starts u hu
    obtain ⟨closing, judged, hcarried, hjudged, hclosing, hone⟩ := carryValue_judged spec s.raw
      s.decoded htokens (by simpa [rejectValue, cleared] using h.start)
      (by simpa [rejectValue, cleared] using starts) (.inl rfl)
    refine ⟨closing, judged, ?_, ?_, fun t ht => .inr (.inl (hclosing t ht)), hone⟩
    · rw [completeValue_rejected s spec hd hv, hcarried]
    · exact (List.forall₂_map_left_iff.mp hjudged).imp fun t _ h => (judged_rejectToken t).trans h

end OpenValue

end Scan

end Searchbar
