import Mathlib.Data.List.TakeWhile
import Searchbar.Proofs.OpenValue

/-!
# Tokens and result agree

The tokens of a query show which values it gives to which options, and the result holds them. The
two are made by different parts of the scan, but they agree (`parse_agrees`): decoding what the
tokens after an option's name spell, as one would read them off the screen, tells whether the value
is missing, rejected or accepted; the tokens are marked accordingly, and the result holds the
accepted values and no others.

* `decodeValue` reads a value off its raw text, without a scan.
* `valueRuns` finds the names in a list of tokens, each with the tokens of its value.
* `Agreeing` is the invariant. In free text the tokens and the result agree. In a value those before
  its name do, and what has been read of the value decodes to what the scan has decoded
  (`Scan.Reading`).
-/

namespace Searchbar

/-! ### Decoding a value -/

/-- **What follows an opening quotation mark, decoded**: up to the closing quotation mark or the
end, the three escapes replaced by what they stand for. Any other escape is dropped, and so is a
backslash at the end. -/
def decodeBody : List Char → List Char
  | [] => []
  | '"' :: _ => []
  | '\\' :: 'n' :: rest => '\n' :: decodeBody rest
  | '\\' :: '"' :: rest => '"' :: decodeBody rest
  | '\\' :: '\\' :: rest => '\\' :: decodeBody rest
  | '\\' :: _ :: rest => decodeBody rest
  | ['\\'] => []
  | c :: rest => c :: decodeBody rest

/-- **The raw text of a value, decoded.** -/
def decodeValue (raw : String) : String :=
  match raw.toList with
  | '"' :: body => String.ofList (decodeBody body)
  | _ => raw

theorem decodeBody_plain {c : Char} (hq : c ≠ '"') (hb : c ≠ '\\') (rest : List Char) :
    decodeBody (c :: rest) = c :: decodeBody rest := by
  rw [decodeBody]
  · exact hq
  -- all that is left to exclude starts with a backslash
  all_goals
    intros
    contradiction

/-- The escapes that are decoded are those that a scan knows. -/
theorem decodeBody_escape (c : Char) (rest : List Char) :
    decodeBody ('\\' :: c :: rest) = (unescape? c).toList ++ decodeBody rest := by
  unfold unescape?
  split_ifs with hn hq hb
  · rw [hn]
    rfl
  · rw [hq]
    rfl
  · rw [hb]
    rfl
  · -- no escape, so it is dropped
    rw [decodeBody]
    · rfl
    · exact hn
    · exact hq
    · exact hb

theorem decodeValue_quoted (body : List Char) :
    decodeValue (String.ofList ('"' :: body)) = String.ofList (decodeBody body) := by
  simp [decodeValue]

/-- A value without a quotation mark stands for itself. -/
theorem decodeValue_ordinary {raw : String} (h : ∀ c ∈ raw.toList, isOrdinary c = true) :
    decodeValue raw = raw := by
  unfold decodeValue
  split
  · next body heq =>
    have := h '"' (by rw [heq]; exact List.mem_cons_self)
    exact absurd this (by decide)
  · rfl

/-- What has been typed after an opening quotation mark, and the text it **decodes** to whatever
follows. -/
def Decodes (body text : List Char) : Prop :=
  ∀ rest, decodeBody (body ++ rest) = text ++ decodeBody rest

namespace Decodes

variable {body text : List Char}

theorem nil : Decodes [] [] := fun _ => rfl

theorem plain (h : Decodes body text) {c : Char} (hq : c ≠ '"') (hb : c ≠ '\\') :
    Decodes (body ++ [c]) (text ++ [c]) := by
  intro rest
  rw [List.append_assoc, List.singleton_append, h, decodeBody_plain hq hb, List.append_assoc,
    List.singleton_append]

theorem escape (h : Decodes body text) (c : Char) :
    Decodes (body ++ ['\\', c]) (text ++ (unescape? c).toList) := by
  intro rest
  rw [List.append_assoc, h, List.append_assoc, ← decodeBody_escape]
  rfl

/-- A quotation mark closes the quotation. -/
theorem closed (h : Decodes body text) : decodeBody (body ++ ['"']) = text := by
  rw [h, decodeBody, List.append_nil]

/-- A quotation that breaks off stands for what has been decoded. -/
theorem broken (h : Decodes body text) : decodeBody body = text := by
  simpa [decodeBody] using h []

/-- A backslash at the end stands for nothing. -/
theorem dangling (h : Decodes body text) : decodeBody (body ++ ['\\']) = text := by
  rw [h, decodeBody, List.append_nil]

end Decodes

/-! ### Names and the runs of their values -/

/-- Whether the hint is for a value. -/
def Hint.isValue : Hint → Bool
  | .value _ => true
  | _ => false

/-- A token of a value: values can be completed there. -/
def Token.isValue (t : Token) : Bool := t.hint.isValue

/-- **The names in a list of tokens**, each with the run of tokens of a value that follows it. -/
def valueRuns : List Token → List (Token × List Token)
  | [] => []
  | t :: rest =>
    if t.kind = .optionName then (t, rest.takeWhile Token.isValue) :: valueRuns rest
    else valueRuns rest

/-- The values that the tokens show as accepted for the option `name`, in order. -/
def acceptedValues (schema : Schema) (name : String) (tokens : List Token) : List Value :=
  (valueRuns tokens).filterMap fun run =>
    if run.1.text = name then
      (schema.get? name).bind fun spec => spec.accept? (decodeValue (rawText run.2))
    else none

/-- **Tokens and a result that agree.** Every name is that of an option, its run shows what became
of the value that the run spells, and the result holds the accepted values and no others. -/
structure Agrees (schema : Schema) (tokens : List Token) (r : SearchResult) : Prop where
  verdicts : ∀ run ∈ valueRuns tokens, ∃ spec, schema.get? run.1.text = some spec ∧
    Verdict spec (decodeValue (rawText run.2)) run.2
  values : ∀ name, r.values name = acceptedValues schema name tokens
  contains : ∀ name, r.contains name = !(acceptedValues schema name tokens).isEmpty

section Runs

variable {tokens more : List Token} {t : Token}

/-- Runs end where a token of another kind follows. -/
theorem valueRuns_append (h : ∀ t ∈ more.head?, t.isValue = false) :
    valueRuns (tokens ++ more) = valueRuns tokens ++ valueRuns more := by
  -- a run that reaches the end of `tokens` is not continued by `more`
  have stop : more.takeWhile Token.isValue = [] := by
    cases more with
    | nil => rfl
    | cons t more => exact List.takeWhile_cons_of_neg (by simp [h t rfl])
  induction tokens with
  | nil => rfl
  | cons t tokens ih =>
    have run : (tokens ++ more).takeWhile Token.isValue = tokens.takeWhile Token.isValue := by
      rw [List.takeWhile_append, stop, List.append_nil]
      split
      · next hlen => exact (List.takeWhile_prefix _).eq_of_length hlen |>.symm
      · rfl
    rw [List.cons_append, valueRuns, valueRuns, run, ih]
    split <;> rfl

theorem valueRuns_eq_nil (h : ∀ t ∈ tokens, t.kind ≠ .optionName) : valueRuns tokens = [] := by
  induction tokens with
  | nil => rfl
  | cons t tokens ih =>
    rw [valueRuns, if_neg (h t List.mem_cons_self), ih fun u hu => h u (List.mem_cons_of_mem t hu)]

/-- A token that is neither a name nor of a value changes nothing. -/
theorem valueRuns_snoc (hk : t.kind ≠ .optionName) (hv : t.isValue = false) :
    valueRuns (tokens ++ [t]) = valueRuns tokens := by
  have none : valueRuns [t] = [] := valueRuns_eq_nil (by simpa using hk)
  rw [valueRuns_append (by simpa using hv), none, List.append_nil]

/-- A name and the tokens of its value. -/
theorem valueRuns_snoc_run {name : Token} {run : List Token} (hname : name.kind = .optionName)
    (hn : name.isValue = false) (hv : ∀ t ∈ run, t.isValue = true)
    (hk : ∀ t ∈ run, t.kind ≠ .optionName) :
    valueRuns (tokens ++ name :: run) = valueRuns tokens ++ [(name, run)] := by
  rw [valueRuns_append (by simpa using hn), valueRuns, if_pos hname, valueRuns_eq_nil hk,
    List.takeWhile_eq_self_iff.mpr hv]

end Runs

/-! ### Agreement token by token -/

/-- Tokens, the latest first, that are **settled**: they agree with the result, and no space is taken
for a token of a value. -/
structure Settled (schema : Schema) (tokens : List Token) (r : SearchResult) : Prop where
  agrees : Agrees schema tokens.reverse r
  spaces : ∀ t ∈ tokens, t.kind = .space → t.isValue = false

section Settled

variable {schema : Schema} {tokens : List Token} {r r' : SearchResult}

/-- Agreement depends on the runs and on what the options hold only. -/
theorem Agrees.congr {tokens' : List Token} (h : Agrees schema tokens r)
    (hruns : valueRuns tokens' = valueRuns tokens) (hr : ∀ name, r'.get? name = r.get? name) :
    Agrees schema tokens' r' where
  verdicts := by rw [hruns]; exact h.verdicts
  values name := by
    rw [SearchResult.values, hr, acceptedValues, hruns]
    exact h.values name
  contains name := by
    rw [SearchResult.contains_eq_isSome, hr, acceptedValues, hruns]
    exact h.contains name

theorem settled_cons_iff {t : Token} (hk : t.kind ≠ .optionName) (hv : t.isValue = false) :
    Settled schema (t :: tokens) r ↔ Settled schema tokens r := by
  have hruns : valueRuns (t :: tokens).reverse = valueRuns tokens.reverse := by
    rw [List.reverse_cons, valueRuns_snoc hk hv]
  constructor
  · intro h
    exact ⟨h.agrees.congr hruns.symm fun _ => rfl,
      fun u hu => h.spaces u (List.mem_cons_of_mem t hu)⟩
  · intro h
    exact ⟨h.agrees.congr hruns fun _ => rfl, List.forall_mem_cons.mpr ⟨fun _ => hv, h.spaces⟩⟩

theorem Settled.push (h : Settled schema tokens r) (term : String) :
    Settled schema tokens (r.push term) :=
  ⟨h.agrees.congr rfl (by simp), h.spaces⟩

/-- A token that **names** `spec`, which may be set: it may be repeated or is not there yet. -/
structure Names (schema : Schema) (spec : OptionSpec) (r : SearchResult) (name : Token) : Prop where
  kind : name.kind = .optionName
  hint : name.hint = .none
  get : schema.get? name.text = some spec
  admits : spec.multiple = true ∨ r.contains name.text = false

/-- A complete value adds one run. -/
theorem valueRuns_closedValue {s : Scan} {spec : OptionSpec} {run before : List Token}
    {name : Token} {raw d : String} (names : Names schema spec r name)
    (closed : s.ClosedValue spec raw d run name before) :
    valueRuns s.tokens.reverse = valueRuns before.reverse ++ [(name, run.reverse)] := by
  have hreverse : s.tokens.reverse = before.reverse ++ name :: run.reverse := by
    simp [closed.tokens]
  rw [hreverse]
  refine valueRuns_snoc_run names.kind ?_ ?_ ?_
  · simp [Token.isValue, names.hint, Hint.isValue]
  · intro t ht
    simp [Token.isValue, closed.hints t (List.mem_reverse.mp ht), Hint.isValue]
  · exact fun t ht => (closed.kinds t (List.mem_reverse.mp ht)).1

/-- A complete value is accepted as its raw text decodes. -/
theorem acceptedValues_closedValue {s : Scan} {spec : OptionSpec} {run before : List Token}
    {name : Token} {raw d : String} (names : Names schema spec r name)
    (closed : s.ClosedValue spec raw d run name before) (n : String) :
    acceptedValues schema n s.tokens.reverse = acceptedValues schema n before.reverse ++
      if spec.name = n then (spec.accept? (decodeValue raw)).toList else [] := by
  obtain ⟨-, hname⟩ := Schema.get?_eq_some_iff.mp names.get
  rw [acceptedValues, valueRuns_closedValue names closed, List.filterMap_append, ← acceptedValues]
  by_cases hn : name.text = n
  · subst hn
    cases hv : spec.accept? (decodeValue raw) <;> simp [names.get, hname, closed.raws, hv]
  · simp [hn, hname]

/-- **A complete value.** A name that may be set, and the run that shows what became of its value, go
on a settled list; the result gets the value if it is accepted. -/
theorem Settled.closedValue {s : Scan} {spec : OptionSpec} {run before : List Token} {name : Token}
    {raw : String} (h : Settled schema before r) (names : Names schema spec r name)
    (closed : s.ClosedValue spec raw (decodeValue raw) run name before) :
    Settled schema s.tokens (r.storeIf spec (spec.accept? (decodeValue raw))) := by
  obtain ⟨-, hname⟩ := Schema.get?_eq_some_iff.mp names.get
  refine ⟨⟨?_, fun n => ?_, fun n => ?_⟩, ?_⟩
  · rw [valueRuns_closedValue names closed]
    intro run' hrun
    rcases List.mem_append.mp hrun with hrun | hrun
    · exact h.agrees.verdicts run' hrun
    · rw [List.mem_singleton.mp hrun]
      exact ⟨spec, names.get, closed.raws.symm ▸ closed.verdict⟩
  · rw [SearchResult.values_storeIf (hname ▸ names.admits), h.agrees.values n,
      acceptedValues_closedValue names closed]
  · rw [SearchResult.contains_storeIf, h.agrees.contains n, acceptedValues_closedValue names closed]
    by_cases hn : spec.name = n
    · cases spec.accept? (decodeValue raw) <;> simp [hn]
    · simp [hn]
  · rw [closed.tokens]
    intro t ht hk
    rcases List.mem_append.mp ht with ht | ht
    · exact absurd hk (closed.kinds t ht).2
    · rcases List.mem_cons.mp ht with rfl | ht
      · rw [names.kind] at hk
        cases hk
      · exact h.spaces t ht hk

end Settled

namespace Scan

/-- The tokens and the result of a scan are settled. -/
def Settles (schema : Schema) (s : Scan) : Prop := Settled schema s.tokens s.result

namespace Settles

variable {schema : Schema} {s : Scan}

theorem congr {s' : Scan} (h : s.Settles schema) (ht : s'.tokens = s.tokens)
    (hr : s'.result = s.result) : s'.Settles schema := by
  rw [Settles, ht, hr]
  exact h

theorem emit (h : s.Settles schema) (kind : TokenKind) (raw text : String) (hint : Hint)
    (hk : kind ≠ .optionName) (hv : hint.isValue = false) :
    (s.emit kind raw text hint).Settles schema :=
  (settled_cons_iff (t := ⟨kind, raw, text, ⟨s.cursor, s.cursor + raw.utf8ByteSize⟩, hint⟩) hk
    hv).mpr h

theorem report (h : s.Settles schema) (fault : SyntaxFault) : (s.report fault).Settles schema :=
  h.congr (by simp [Scan.report]) (by simp [Scan.report])

theorem stray (h : s.Settles schema) (c : Char) (fault : SyntaxFault) :
    (s.stray c fault).Settles schema :=
  (h.report fault).emit _ _ _ _ (by decide) rfl

theorem flush (h : s.Settles schema) : (s.flush .options).Settles schema := by
  unfold Scan.flush
  split
  · exact h
  · exact (h.emit .text s.raw s.decoded .options (by decide) rfl).congr rfl rfl

theorem finishWord (h : s.Settles schema) : s.finishWord.Settles schema :=
  Settled.push h.flush _

/-- A blank joins a space, which is not of a value, or is a token of its own. -/
theorem emitSpace (h : s.Settles schema) (c : Char) : (s.emitSpace c).Settles schema := by
  have fresh : (s.emit .space (String.singleton c) "" .options).Settles schema :=
    h.emit _ _ _ _ (by decide) rfl
  unfold Scan.emitSpace
  split
  · exact fresh
  · next last earlier htokens =>
    split
    · -- the space that grows is neither a name nor of a value, so it does not matter
      next hk =>
      rw [Settles, htokens] at h
      have hname : last.kind ≠ .optionName := by simp [hk.1]
      have hvalue : last.isValue = false := h.spaces last List.mem_cons_self hk.1
      have earlierSettled : Settled schema earlier s.result := (settled_cons_iff hname hvalue).mp h
      exact (settled_cons_iff (t := { last with
        raw := last.raw.push c, span := ⟨last.span.start, last.span.stop + c.utf8Size⟩ })
        hname hvalue).mpr earlierSettled
    · exact fresh

theorem refuseName (h : s.Settles schema) (fault : SyntaxFault) :
    (s.refuseName fault).Settles schema := by
  have cleared : ({ s with raw := "", decoded := "" } : Scan).Settles schema := h
  exact (cleared.report fault).emit _ _ _ _ (by decide) rfl

theorem escape (h : s.Settles schema) (c : Char) : (s.escape c .none).Settles schema := by
  unfold Scan.escape
  dsimp only
  split
  · next e _ =>
    have decoded : ({ s with raw := "", decoded := s.decoded.push e } : Scan).Settles schema := h
    exact decoded.emit _ _ _ _ (by decide) rfl
  · have cleared : ({ s with raw := "" } : Scan).Settles schema := h
    exact (cleared.report _).emit _ _ _ _ (by decide) rfl

theorem danglingEscape (h : s.Settles schema) : (s.danglingEscape .none).Settles schema :=
  ((h.report .invalidEscape).emit .invalidEscapeSequence s.raw s.decoded .none (by decide)
    rfl).congr rfl rfl

theorem missingQuote (h : s.Settles schema) : s.missingQuote.Settles schema :=
  (h.report _).emit _ _ _ _ (by decide) rfl

end Settles

/-! ### The invariant -/

/-- **What has been read of a value.** A bare value is what it decodes to. A quoted one starts with a
quotation mark, and what follows decodes to what the scan has decoded. -/
inductive Reading (spec : OptionSpec) (s : Scan) (fragments : List Token) : Prop
  | bare (hm : s.mode = .outside (some spec)) (hf : fragments = []) (hd : s.raw = s.decoded)
      (ordinary : ∀ c ∈ s.raw.toList, isOrdinary c = true)
  | quoted (body : List Char) (hm : s.mode = .quoted (some spec) false)
      (hr : rawText fragments.reverse ++ s.raw = String.ofList ('"' :: body))
      (hd : Decodes body s.decoded.toList)
  | escaping (body : List Char) (hm : s.mode = .quoted (some spec) true) (hr : s.raw = "\\")
      (hf : rawText fragments.reverse = String.ofList ('"' :: body))
      (hd : Decodes body s.decoded.toList)

/-- **A value that may be set** is open, and the tokens before its name are settled. -/
structure Setting (schema : Schema) (spec : OptionSpec) (s : Scan) (fragments : List Token)
    (name : Token) (before : List Token) : Prop where
  opened : s.OpenValue spec fragments name before
  names : Names schema spec s.result name
  settled : Settled schema before s.result

/-- **The agreement invariant.** -/
inductive Agreeing (schema : Schema) (s : Scan) : Prop
  | text (hm : s.mode.target = none) (h : s.Settles schema)
  | value (spec : OptionSpec) (fragments : List Token) (name : Token) (before : List Token)
      (setting : s.Setting schema spec fragments name before) (reading : s.Reading spec fragments)

/-- The end of a value whose raw text decodes to what the scan has decoded. -/
theorem Setting.completeValue {schema : Schema} {spec : OptionSpec} {s : Scan}
    {fragments before : List Token} {name : Token}
    (h : s.Setting schema spec fragments name before)
    (hd : decodeValue (rawText fragments.reverse ++ s.raw) = s.decoded)
    (begun : s.decoded ≠ "" → s.raw = "" → fragments ≠ []) :
    (s.completeValue spec).Settles schema := by
  obtain ⟨run, closed⟩ := h.opened.completeValue begun
  rw [← hd] at closed
  rw [Settles, completeValue_result, ← hd]
  exact h.settled.closedValue h.names closed

section Agreeing

variable {schema : Schema} {s : Scan} {spec : OptionSpec} {target : Option OptionSpec}

theorem target_of_outside (hm : s.mode = .outside target) : s.mode.target = target := by
  rw [hm, Mode.target_outside]

theorem target_of_bare (hm : s.mode = .bare) : s.mode.target = none := by
  rw [hm]
  rfl

theorem target_of_quoted {escaping : Bool} (hm : s.mode = .quoted target escaping) :
    s.mode.target = target := by
  rw [hm, Mode.target_quoted]

theorem Reading.mode_target {fragments : List Token} (h : s.Reading spec fragments) :
    s.mode.target = some spec := by
  cases h with
  | bare hm => exact target_of_outside hm
  | quoted _ hm => exact target_of_quoted hm
  | escaping _ hm => exact target_of_quoted hm

theorem Setting.congr {s' : Scan} {fragments fragments' before : List Token} {name : Token}
    (h : s.Setting schema spec fragments name before)
    (opened : s'.OpenValue spec fragments' name before) (hr : s'.result = s.result) :
    s'.Setting schema spec fragments' name before :=
  ⟨opened, hr ▸ h.names, hr ▸ h.settled⟩

/-- What has been read of a value, with the backslash that is pending. -/
theorem append_escape {fragments : List Token} {body : List Char} (hr : s.raw = "\\")
    (hf : rawText fragments.reverse = String.ofList ('"' :: body)) :
    rawText fragments.reverse ++ s.raw = String.ofList ('"' :: (body ++ ['\\'])) := by
  rw [hr, hf, ← List.cons_append, String.ofList_append]

/-- What an escape adds to the decoded text. -/
theorem escape_decoded (s : Scan) (c : Char) (hint : Hint) :
    (s.escape c hint).decoded.toList = s.decoded.toList ++ (unescape? c).toList := by
  unfold escape
  dsimp only
  cases unescape? c <;> simp [report]

namespace Agreeing

theorem settles (h : s.Agreeing schema) (hm : s.mode.target = none) : s.Settles schema := by
  cases h with
  | text _ h => exact h
  | value spec fragments name before setting reading =>
    rw [reading.mode_target] at hm
    cases hm

theorem setting (h : s.Agreeing schema) (hm : s.mode.target = some spec) :
    ∃ fragments name before, s.Setting schema spec fragments name before ∧
      s.Reading spec fragments := by
  cases h with
  | text hm' =>
    rw [hm'] at hm
    cases hm
  | value spec' fragments name before setting reading =>
    obtain rfl : spec' = spec := Option.some.inj (reading.mode_target.symm.trans hm)
    exact ⟨fragments, name, before, setting, reading⟩

/-- What has been read of a bare value. -/
theorem bareValue (h : s.Agreeing schema) (hm : s.mode = .outside (some spec)) :
    ∃ name before, s.Setting schema spec [] name before ∧ s.raw = s.decoded ∧
      ∀ c ∈ s.raw.toList, isOrdinary c = true := by
  obtain ⟨fragments, name, before, setting, reading⟩ := h.setting (target_of_outside hm)
  cases reading with
  | bare _ hf hd ordinary =>
    subst hf
    exact ⟨name, before, setting, hd, ordinary⟩
  | quoted _ hm' => exact absurd (hm.symm.trans hm') (Mode.outside_ne_quoted _ _ _)
  | escaping _ hm' => exact absurd (hm.symm.trans hm') (Mode.outside_ne_quoted _ _ _)

/-- What has been read inside quotation marks, after no backslash. -/
theorem quotation (h : s.Agreeing schema) (hm : s.mode = .quoted (some spec) false) :
    ∃ fragments name before body, s.Setting schema spec fragments name before ∧
      rawText fragments.reverse ++ s.raw = String.ofList ('"' :: body) ∧
      Decodes body s.decoded.toList := by
  obtain ⟨fragments, name, before, setting, reading⟩ := h.setting (target_of_quoted hm)
  cases reading with
  | bare hm' => exact absurd (hm'.symm.trans hm) (Mode.outside_ne_quoted _ _ _)
  | quoted body _ hr hd => exact ⟨fragments, name, before, body, setting, hr, hd⟩
  | escaping _ hm' =>
    have := hm.symm.trans hm'
    simp at this

/-- What has been read inside quotation marks, after a backslash. -/
theorem quotationEscaping (h : s.Agreeing schema) (hm : s.mode = .quoted (some spec) true) :
    ∃ fragments name before body, s.Setting schema spec fragments name before ∧
      fragments ≠ [] ∧ s.raw = "\\" ∧ rawText fragments.reverse = String.ofList ('"' :: body) ∧
      Decodes body s.decoded.toList := by
  obtain ⟨fragments, name, before, setting, reading⟩ := h.setting (target_of_quoted hm)
  cases reading with
  | bare hm' => exact absurd (hm'.symm.trans hm) (Mode.outside_ne_quoted _ _ _)
  | quoted _ hm' =>
    have := hm.symm.trans hm'
    simp at this
  | escaping body _ hr hf hd =>
    refine ⟨fragments, name, before, body, setting, ?_, hr, hf, hd⟩
    rintro rfl
    simp [String.ofList_cons] at hf

/-! The ends of a word or value -/

theorem finish (h : s.Agreeing schema) (hm : s.mode = .outside target) :
    (s.finish target).Settles schema := by
  cases target with
  | none => exact (h.settles (target_of_outside hm)).finishWord
  | some spec =>
    obtain ⟨name, before, setting, hd, ordinary⟩ := h.bareValue hm
    refine setting.completeValue ?_ fun hne hr => absurd (hd ▸ hr) hne
    rw [List.reverse_nil, rawText_nil, String.empty_append, decodeValue_ordinary ordinary, hd]

theorem closeQuote (h : s.Agreeing schema) (hm : s.mode = .quoted target false) :
    (s.closeQuote target).Settles schema := by
  cases target with
  | none =>
    have settles := h.settles (target_of_quoted hm)
    exact Settles.finishWord (s := { s with raw := s.raw.push '"' }) settles
  | some spec =>
    obtain ⟨fragments, name, before, body, setting, hr, hd⟩ := h.quotation hm
    have closing : ({ s with raw := s.raw.push '"' } : Scan).Setting schema spec fragments name
        before := setting.congr (setting.opened.congr rfl rfl rfl) rfl
    refine closing.completeValue ?_ fun _ hnil => by simp at hnil
    have hraw : rawText fragments.reverse ++ s.raw.push '"' =
        String.ofList ('"' :: (body ++ ['"'])) := append_push_eq_ofList hr '"'
    rw [hraw, decodeValue_quoted, hd.closed, String.ofList_toList]

theorem breakOff (h : s.Agreeing schema) {escaping : Bool} (hm : s.mode = .quoted target escaping) :
    (s.breakOff target escaping).Settles schema := by
  refine Settles.missingQuote ?_
  cases target with
  | none =>
    have settles := h.settles (target_of_quoted hm)
    cases escaping with
    | false => exact settles.finishWord
    | true => exact settles.danglingEscape.finishWord
  | some spec =>
    cases escaping with
    | false =>
      obtain ⟨fragments, name, before, body, setting, hr, hd⟩ := h.quotation hm
      -- after an escape nothing is pending, but then there is a fragment to carry the value
      refine setting.completeValue ?_ fun _ hraw hnil => ?_
      · rw [hr, decodeValue_quoted, hd.broken, String.ofList_toList]
      · simp [hraw, hnil, String.ofList_cons] at hr
    | true =>
      obtain ⟨fragments, name, before, body, setting, hne, hr, hf, hd⟩ := h.quotationEscaping hm
      obtain ⟨fragments', opened, hraw⟩ := setting.opened.danglingEscape hne
      have broken := setting.congr opened (by simp [danglingEscape, report])
      -- the dangling backslash is in a token of its own, and it decodes to nothing
      have hspelt : rawText fragments'.reverse ++ "" = String.ofList ('"' :: (body ++ ['\\'])) := by
        rw [hraw, String.append_empty]
        exact append_escape hr hf
      refine broken.completeValue ?_ fun _ _ hnil => ?_
      · rw [show (s.danglingEscape (.value spec)).raw = "" from rfl, hspelt, decodeValue_quoted,
          hd.dangling, String.ofList_toList]
        simp [danglingEscape, report]
      · simp [hnil, String.ofList_cons] at hspelt

/-- **Invariant preservation.** Every character keeps the agreement. -/
theorem move {c : Char} {s' : Scan} (h : s.Agreeing schema) (hmove : Move schema s c s') :
    s'.Agreeing schema := by
  cases hmove with
  | blank target hm hc =>
    -- the word or value ends, and free text follows
    refine .text ?_ ((h.finish hm).emitSpace c)
    rw [emitSpace_mode, (s.fresh_finish target).mode]
    rfl
  | ordinary target hm hc =>
    cases target with
    | none => exact .text (target_of_outside hm) (h.settles (target_of_outside hm))
    | some spec =>
      -- a bare value grows, typed and decoded alike
      obtain ⟨name, before, setting, hd, ordinary⟩ := h.bareValue hm
      refine .value spec [] name before (setting.congr (setting.opened.congr rfl rfl rfl) rfl)
        (.bare hm rfl (by simp [accumulate, hd]) fun d hmem => ?_)
      rw [accumulate, String.toList_push, List.mem_append, List.mem_singleton] at hmem
      rcases hmem with hmem | rfl
      · exact ordinary d hmem
      · exact hc
  | openQuote target hm hc hr hd =>
    cases target with
    | none => exact .text (target_of_quoted rfl) (h.settles (target_of_outside hm))
    | some spec =>
      -- nothing of the value has been read, so the quotation mark is its first character
      obtain ⟨name, before, setting, hd, -⟩ := h.bareValue hm
      refine .value spec [] name before (setting.congr (setting.opened.congr rfl rfl rfl) rfl)
        (.quoted [] rfl (by simp [openQuote, hr]) ?_)
      rw [show (s.openQuote (some spec)).decoded = "" from hd.symm.trans hr]
      exact .nil
  | strayInWord hm hc =>
    have settles := h.settles (target_of_bare hm)
    exact .text (by simp [target_of_bare hm]) (settles.flush.stray c _)
  | strayColon hm hc hd =>
    have settles := h.settles (target_of_bare hm)
    exact .text (by simp [target_of_bare hm]) (settles.stray c _)
  | name hm hc hd =>
    have settles := h.settles (target_of_bare hm)
    obtain ⟨spec, takes, hname⟩ | ⟨fault, hname⟩ := s.finishName_cases schema
    · -- the name is taken: what is settled now stays before it
      rw [hname]
      obtain ⟨name, opened, hkind, hhint, htext⟩ := s.openValue_openValue spec
      have names : Names schema spec s.result name :=
        ⟨hkind, hhint, htext ▸ takes.1, htext ▸ takes.2⟩
      exact .value spec [] name s.tokens ⟨opened, names, settles⟩
        (.bare rfl rfl rfl (by simp [Scan.openValue]))
    · -- the name is refused, and free text goes on
      rw [hname]
      exact .text (by simp [refuseName, report, target_of_bare hm]) (settles.refuseName fault)
  | strayInValue spec hm hc =>
    have settles : (s.completeValue spec).Settles schema :=
      h.finish (show s.mode = .outside (some spec) from hm)
    refine .text ?_ (settles.stray c _)
    rw [stray_mode, (s.fresh_completeValue spec).mode]
    rfl
  | plain target hm hq hb =>
    cases target with
    | none => exact .text (target_of_quoted hm) (h.settles (target_of_quoted hm))
    | some spec =>
      -- the character stands for itself in the raw text and in the decoded one
      obtain ⟨fragments, name, before, body, setting, hr, hd⟩ := h.quotation hm
      refine .value spec fragments name before
        (setting.congr (setting.opened.congr rfl rfl rfl) rfl)
        (.quoted (body ++ [c]) hm (append_push_eq_ofList hr c) ?_)
      rw [accumulate, String.toList_push]
      exact hd.plain hq hb
  | openEscape target hm hc =>
    cases target with
    | none =>
      have settles := (h.settles (target_of_quoted hm)).flush
      exact .text (target_of_quoted rfl) (settles.congr rfl rfl)
    | some spec =>
      -- the pending text becomes a fragment, so that all of `body` is in tokens
      obtain ⟨fragments, name, before, body, setting, hr, hd⟩ := h.quotation hm
      obtain ⟨fragments', opened, hraw⟩ := setting.opened.flush
      refine .value spec fragments' name before
        (setting.congr (opened.congr rfl rfl rfl) (by simp [openEscape]))
        (.escaping body rfl (by simp [openEscape]) (hraw.trans hr) ?_)
      simpa [openEscape] using hd
  | closeQuote target hm hc =>
    refine .text ?_ (h.closeQuote hm)
    rw [Scan.closeQuote, (fresh_finish _ target).mode]
    rfl
  | closeEscape target hm =>
    cases target with
    | none =>
      have settles := (h.settles (target_of_quoted hm)).escape c
      exact .text (target_of_quoted rfl) (settles.congr rfl rfl)
    | some spec =>
      -- both readers drop an escape that stands for nothing
      obtain ⟨fragments, name, before, body, setting, hne, hr, hf, hd⟩ := h.quotationEscaping hm
      obtain ⟨fragments', opened, hraw⟩ := setting.opened.escape hne c
      refine .value spec fragments' name before
        (setting.congr (opened.congr rfl rfl rfl) (by simp [closeEscape]))
        (.quoted (body ++ ['\\', c]) rfl ?_ ?_)
      · rw [show (s.closeEscape (some spec) c).raw = "" from s.escape_raw _ c, String.append_empty,
          hraw, append_push_eq_ofList (append_escape hr hf) c]
        simp
      · rw [show (s.closeEscape (some spec) c).decoded = (s.escape c (.value spec)).decoded from rfl,
          escape_decoded]
        exact hd.escape c

end Agreeing

end Agreeing

end Scan

/-- The scan of every text keeps the agreement. -/
theorem agreeing_scan (schema : Schema) (query : String) : (scan schema query).Agreeing schema :=
  scan_induction (motive := fun _ s => s.Agreeing schema)
    (.text rfl ⟨⟨by simp [valueRuns], fun _ => rfl, fun _ => rfl⟩, by simp⟩) Scan.Agreeing.move query

/-- **Tokens and result agree.** -/
theorem parse_agrees (schema : Schema) (query : String) :
    Agrees schema (parse schema query).tokens (parse schema query).result := by
  have agreeing := agreeing_scan schema query
  have settles : (scan schema query).close.Settles schema := by
    obtain ⟨target, hm | ⟨escaping, hm⟩⟩ := (scan schema query).mode.outside_or_quoted
    · rw [Scan.close_outside hm]
      exact agreeing.finish hm
    · rw [Scan.close_quoted hm]
      exact agreeing.breakOff hm
  exact settles.agrees

end Searchbar
