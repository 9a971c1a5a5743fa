import Searchbar.Example.Media
import Searchbar.Proofs.Grammar

/-!
# The queries without errors

A query is read without an error exactly if it can be itemized, and then the result is what
the items mean (`parse_error_eq_none_iff`).

* From the items to the scan: `run_item` takes a fresh scan over one item. It says where the scan
  would stand if the item had been finished at once; an open item is finished by the blank or the
  end that follows it, which `close_run_finish` allows to be done early.
* From the scan to the items: an error is never taken back (`error_run`), so a query that ends
  without one had none at any place. `first_item` reads the first item off such a query, and
  `run_item` goes on to the next.
-/

namespace Searchbar

namespace Scan

/-! ### Errors stay -/

section Errors

variable {s : Scan} {e : ParseError}

theorem error_completeValue (h : s.error = some e) (spec : OptionSpec) :
    (s.completeValue spec).error = some e := by
  rcases value_cases s spec with hd | ⟨hd, v, hv⟩ | ⟨hd, hv⟩
  · simp [completeValue_missing s spec hd, rejectValue, cleared, h]
  · simp [completeValue_accepted s spec hd hv, cleared, h]
  · simp [completeValue_rejected s spec hd hv, rejectValue, cleared, h]

theorem error_finish (h : s.error = some e) (target : Option OptionSpec) :
    (s.finish target).error = some e := by
  cases target with
  | none => simpa [finish, finishWord] using h
  | some spec => exact error_completeValue h spec

theorem error_finishName (h : s.error = some e) (schema : Schema) :
    (s.finishName schema).error = some e := by
  obtain ⟨spec, -, hname⟩ | ⟨fault, hname⟩ := s.finishName_cases schema
  · rw [hname]
    exact h
  · simp [hname, refuseName, report, h]

theorem error_escape (h : s.error = some e) (c : Char) (hint : Hint) :
    (s.escape c hint).error = some e := by
  unfold escape
  dsimp only
  split <;> simp [report, h]

/-- **The first error is kept** by every character. -/
theorem error_move {schema : Schema} {c : Char} {s' : Scan} (h : s.error = some e)
    (hmove : Move schema s c s') : s'.error = some e := by
  cases hmove with
  | blank target =>
    -- the blank itself is no error, only what it finishes may be
    simpa using error_finish h target
  | ordinary => exact h
  | openQuote => exact h
  | strayInWord => simp [h]
  | strayColon => simp [h]
  | name => exact error_finishName h schema
  | strayInValue spec => simp [error_completeValue h spec]
  | plain => exact h
  | openEscape target => simpa [openEscape] using h
  | closeQuote target => exact error_finish (s := { s with raw := s.raw.push '"' }) h target
  | closeEscape target => exact error_escape h c _

theorem error_run (schema : Schema) (h : s.error = some e) (text : List Char) :
    (s.run schema text).error = some e :=
  run_induction (motive := fun _ s => s.error = some e) error_move text [] h

theorem error_close (h : s.error = some e) : s.close.error = some e := by
  obtain ⟨target, hm | ⟨escaping, hm⟩⟩ := s.mode.outside_or_quoted
  · rw [close_outside hm]
    exact error_finish h target
  · rw [close_quoted hm]
    have dangling : (if escaping then s.danglingEscape (.ofEscape target) else s).error = some e := by
      split
      · simp [danglingEscape, report, h]
      · exact h
    simp [breakOff, missingQuote, report, error_finish dangling target]

/-- A query that ends without an error had none before. -/
theorem error_eq_none_of_close {schema : Schema} {text : List Char}
    (h : (s.run schema text).close.error = none) : s.error = none := by
  cases he : s.error with
  | none => rfl
  | some e =>
    rw [error_close (error_run schema he text)] at h
    cases h

end Errors

/-! ### Over a part of an item -/

section Parts

variable {schema : Schema} {s : Scan} {target : Option OptionSpec}

theorem push_append_ofList (text : String) (c : Char) (cs : List Char) :
    text.push c ++ String.ofList cs = text ++ String.ofList (c :: cs) := by
  rw [String.ofList_cons, ← String.append_assoc, String.append_singleton]

theorem append_ofList_singleton (text : String) (c : Char) :
    text ++ String.ofList [c] = text.push c := by
  rw [← push_append_ofList, String.ofList_nil, String.append_empty]

/-- The scan with more text that stands for itself. -/
def gather (s : Scan) (text : List Char) : Scan :=
  { s with raw := s.raw ++ String.ofList text, decoded := s.decoded ++ String.ofList text }

/-- Ordinary characters are gathered. -/
theorem run_ordinary (hm : s.mode = .outside target) {word : List Char}
    (hw : ∀ c ∈ word, isOrdinary c = true) : s.run schema word = s.gather word := by
  induction word generalizing s with
  | nil => simp [gather]
  | cons c word ih =>
    have rest : (s.accumulate c).run schema word = (s.accumulate c).gather word :=
      ih hm fun d hd => hw d (List.mem_cons_of_mem c hd)
    rw [run_cons, step_ordinary hm (hw c List.mem_cons_self), rest]
    simp only [gather, accumulate, push_append_ofList]

/-- What changes while a quotation is read: the decoded text grows, and all that matters to the
result stays. -/
structure Along (s t : Scan) (text : List Char) : Prop where
  mode : t.mode = s.mode
  decoded : t.decoded = s.decoded ++ String.ofList text
  result : t.result = s.result
  error : t.error = s.error

theorem Along.trans {s t u : Scan} {text more : List Char} (h : Along s t text)
    (h' : Along t u more) : Along s u (text ++ more) where
  mode := h'.mode.trans h.mode
  decoded := by rw [h'.decoded, h.decoded, String.append_assoc, ← String.ofList_append]
  result := h'.result.trans h.result
  error := h'.error.trans h.error

/-- An escape that the scan knows decodes to one character. -/
theorem along_escape (hm : s.mode = .quoted target false) {c e : Char}
    (he : unescape? c = some e) : Along s (s.run schema ['\\', c]) [e] := by
  rw [run_cons, run_cons, run_nil, step_openEscape hm,
    step_closeEscape (s := s.openEscape target) rfl]
  constructor
  · exact hm.symm
  · rw [append_ofList_singleton]
    simp [closeEscape, openEscape, escape, he]
  · simp [closeEscape, openEscape]
  · simp [closeEscape, openEscape, escape, he]

/-- **Inside quotation marks** what is typed is decoded to what it stands for. -/
theorem along_quoted (hm : s.mode = .quoted target false) {body text : List Char}
    (h : Quoted body text) : Along s (s.run schema body) text := by
  have escaped : ∀ {c e : Char} {body text : List Char}, unescape? c = some e →
      (∀ {s : Scan}, s.mode = .quoted target false → Along s (s.run schema body) text) →
      ∀ {s : Scan}, s.mode = .quoted target false →
        Along s (s.run schema ('\\' :: c :: body)) (e :: text) := by
    intro c e body text he ih s hm
    have first : Along s (s.run schema ['\\', c]) [e] := along_escape hm he
    exact first.trans (ih (first.mode.trans hm))
  induction h generalizing s with
  | nil => exact ⟨rfl, by simp, rfl, rfl⟩
  | @plain c body text hq hb _ ih =>
    have first : Along s (s.run schema [c]) [c] := by
      rw [run_cons, run_nil, step_plain hm hq hb]
      exact ⟨rfl, by rw [append_ofList_singleton]; rfl, rfl, rfl⟩
    exact first.trans (ih (first.mode.trans hm))
  | newline _ ih => exact escaped rfl ih hm
  | quote _ ih => exact escaped rfl ih hm
  | backslash _ ih => exact escaped rfl ih hm

end Parts

/-! ### Over a whole item -/

section Items

variable {schema : Schema} {s : Scan} {target : Option OptionSpec}

/-- Finishing a fresh scan changes nothing. -/
theorem Fresh.finishWord_eq (h : s.Fresh) : s.finishWord = s := by
  obtain ⟨mode, raw, decoded, cursor, valueStart, tokens, result, error⟩ := s
  obtain ⟨hm, hr, hd⟩ := h
  subst hm hr hd
  simp [finishWord, flush]

/-- **A word or value may be finished early** when a blank or the end of the query follows. -/
theorem close_run_finish (hm : s.mode = .outside target) {rest : List Char}
    (h : BlankOrEnd rest) :
    (s.run schema rest).close = ((s.finish target).run schema rest).close := by
  have fresh := s.fresh_finish target
  cases rest with
  | nil =>
    rw [run_nil, run_nil, close_outside hm, close_outside fresh.outside]
    exact fresh.finishWord_eq.symm
  | cons c rest =>
    have hc : Text.isBlank c = true := h c rfl
    rw [run_cons, run_cons, step_blank hm hc, step_blank fresh.outside hc]
    rw [show (s.finish target).finish none = (s.finish target).finishWord from rfl,
      fresh.finishWord_eq]

theorem finish_word (s : Scan) :
    (s.finish none).result = s.result.push s.decoded ∧ (s.finish none).error = s.error := by
  simp [finish, finishWord]

theorem finish_accepted {spec : OptionSpec} {v : Value} (hd : s.decoded ≠ "")
    (hv : spec.read? s.decoded = some v) :
    (s.finish (some spec)).result = s.result.store spec v ∧
      (s.finish (some spec)).error = s.error := by
  simp [finish, completeValue_accepted s spec hd hv, cleared]

/-- A value that leaves no error was there and was accepted. -/
theorem accepted_of_error {spec : OptionSpec} (h : (s.completeValue spec).error = none) :
    s.decoded ≠ "" ∧ ∃ v, spec.read? s.decoded = some v := by
  rcases value_cases s spec with hd | h' | ⟨hd, hv⟩
  · simp [completeValue_missing s spec hd, rejectValue] at h
  · exact h'
  · simp [completeValue_rejected s spec hd hv, rejectValue] at h

/-- A fresh scan over a name that may be set: a value is open. -/
structure Opened (s t : Scan) (spec : OptionSpec) : Prop where
  mode : t.mode = .outside (some spec)
  raw : t.raw = ""
  decoded : t.decoded = ""
  result : t.result = s.result
  error : t.error = s.error

/-- The characters of an option's name are ordinary, and there is one. -/
theorem name_ordinary {spec : OptionSpec} {name : String} (h : schema.get? name = some spec) :
    name ≠ "" ∧ ∀ c ∈ name.toList, isOrdinary c = true := by
  obtain ⟨hspec, rfl⟩ := Schema.get?_eq_some_iff.mp h
  have sound := schema.sound spec hspec
  have typeable : nameFault? spec.name = none := by
    unfold OptionSpec.fault? at sound
    split at sound
    · cases sound
    · assumption
  obtain ⟨hne, hall⟩ := nameFault?_eq_none_iff.mp typeable
  exact ⟨hne, fun c hc => by simp [isOrdinary, hall c hc]⟩

theorem opened_name (fresh : s.Fresh) {name : String} {spec : OptionSpec}
    (hget : schema.get? name = some spec)
    (hset : spec.multiple = true ∨ s.result.contains name = false) :
    Opened s (s.run schema (name.toList ++ [':'])) spec := by
  obtain ⟨hne, hall⟩ := name_ordinary hget
  have hdecoded : (s.gather name.toList).decoded = name := by simp [gather, fresh.decoded]
  have takes : (s.gather name.toList).Takes schema spec := by
    rw [Takes, hdecoded]
    exact ⟨hget, hset⟩
  rw [run_append, run_ordinary fresh.outside hall, run_cons, run_nil,
    step_name (s := s.gather name.toList) fresh.mode (by rwa [hdecoded]),
    finishName_taken _ schema takes]
  exact ⟨rfl, rfl, rfl, rfl, rfl⟩

/-- Every blank finishes the empty word, so a fresh scan stays fresh. -/
theorem run_blanks (schema : Schema) (fresh : s.Fresh) {blanks : List Char}
    (h : ∀ c ∈ blanks, Text.isBlank c = true) :
    (s.run schema blanks).Fresh ∧ (s.run schema blanks).result = s.result ∧
      (s.run schema blanks).error = s.error := by
  induction blanks generalizing s with
  | nil => exact ⟨fresh, rfl, rfl⟩
  | cons c blanks ih =>
    have hstep : s.step schema c = s.emitSpace c := by
      rw [step_blank fresh.outside (h c List.mem_cons_self), finish, fresh.finishWord_eq]
    have fresh' : (s.emitSpace c).Fresh :=
      ⟨by simp [fresh.mode], by simp [fresh.raw], by simp [fresh.decoded]⟩
    rw [run_cons, hstep]
    simpa using ih fresh' fun d hd => h d (List.mem_cons_of_mem c hd)

/-- **Over a quotation.** The quotation mark that closes it finishes what it decodes to. -/
theorem run_quotation (schema : Schema) (hm : s.mode = .outside target) (hr : s.raw = "")
    (hd : s.decoded = "") {body text : List Char} (h : Quoted body text) :
    ∃ t : Scan, t.decoded = String.ofList text ∧ t.result = s.result ∧ t.error = s.error ∧
      s.run schema ('"' :: (body ++ ['"'])) = t.finish target := by
  have along : Along (s.openQuote target) ((s.openQuote target).run schema body) text :=
    along_quoted (s.openQuote_mode target) h
  refine ⟨{ (s.openQuote target).run schema body with
    raw := ((s.openQuote target).run schema body).raw.push '"' }, ?_, along.result, along.error, ?_⟩
  · simpa [openQuote, hd] using along.decoded
  · rw [run_cons, step_openQuote hm hr fun _ => hd, run_append, run_cons, run_nil,
      step_closeQuote along.mode]
    rfl

/-- **Over one item.** From a fresh scan the item leads to where a fresh scan stands that has done
to the result what the item does. -/
theorem run_item (fresh : s.Fresh) {item : Item} (wf : item.WellFormed schema) {rest : List Char}
    (ends : item.isOpen = true → BlankOrEnd rest) (adm : item.Admissible schema s.result) :
    ∃ t : Scan, t.Fresh ∧ t.error = s.error ∧ t.result = item.apply schema s.result ∧
      (s.run schema (item.typed ++ rest)).close = (t.run schema rest).close := by
  cases item with
  | blank typed =>
    obtain ⟨hfresh, hresult, herror⟩ := run_blanks schema fresh wf.2
    exact ⟨_, hfresh, herror, hresult, by rw [Item.typed, run_append]⟩
  | word text =>
    -- the word is open: what follows finishes it, which may be done early
    refine ⟨(s.gather text).finish none, fresh_finish _ _, (finish_word _).2, ?_, ?_⟩
    · rw [(finish_word _).1]
      simp [gather, fresh.decoded, Item.apply]
    · rw [Item.typed, run_append, run_ordinary fresh.outside wf.2]
      exact close_run_finish (s := s.gather text) fresh.outside (ends rfl)
  | quoted body text =>
    -- the closing quotation mark has finished it
    obtain ⟨t, hdecoded, hresult, herror, hrun⟩ :=
      run_quotation schema fresh.outside fresh.raw fresh.decoded wf
    refine ⟨t.finish none, fresh_finish _ _, (finish_word t).2.trans herror, ?_, ?_⟩
    · rw [(finish_word t).1, hdecoded, hresult, Item.apply]
    · rw [Item.typed, run_append, hrun]
  | value name text =>
    -- after the name a value is open, and it is read like a word
    obtain ⟨hne, hall, spec, v, hget, hread⟩ := wf
    have opened := opened_name fresh hget (adm name rfl spec hget)
    generalize hx : s.run schema (name.toList ++ [':']) = x at opened
    have hdecoded : (x.gather text).decoded = String.ofList text := by
      simp [gather, opened.decoded]
    obtain ⟨hresult, herror⟩ := finish_accepted (s := x.gather text)
      (by rw [hdecoded]; simpa using hne) (by rw [hdecoded]; exact hread)
    refine ⟨(x.gather text).finish (some spec), fresh_finish _ _, herror.trans opened.error, ?_, ?_⟩
    · rw [hresult, show (x.gather text).result = s.result from opened.result]
      simp [Item.apply, SearchResult.set, hget, hread]
    · rw [Item.typed, List.append_cons, List.append_assoc, run_append, run_append, hx,
        run_ordinary opened.mode hall]
      exact close_run_finish (s := x.gather text) opened.mode (ends rfl)
  | quotedValue name body text =>
    -- after the name a value is open, and it is read like a quoted text
    obtain ⟨hquoted, hne, spec, v, hget, hread⟩ := wf
    have opened := opened_name fresh hget (adm name rfl spec hget)
    generalize hx : s.run schema (name.toList ++ [':']) = x at opened
    obtain ⟨t, hdecoded, htresult, hterror, hrun⟩ :=
      run_quotation schema opened.mode opened.raw opened.decoded hquoted
    obtain ⟨hresult, herror⟩ := finish_accepted (s := t)
      (by rw [hdecoded]; simpa using hne) (by rw [hdecoded]; exact hread)
    refine ⟨t.finish (some spec), fresh_finish _ _,
      herror.trans (hterror.trans opened.error), ?_, ?_⟩
    · rw [hresult, htresult, opened.result]
      simp [Item.apply, SearchResult.set, hget, hread]
    · rw [Item.typed, List.append_cons, List.append_assoc, run_append, hx, run_append, hrun]

/-- **Over all items.** Nothing is reported, and every item does to the result what it does. -/
theorem close_run_items {text : List Char} {items : List Item} (h : Split schema text items)
    (fresh : s.Fresh) (admits : Admits schema s.result items) :
    (s.run schema text).close.error = s.error ∧
      (s.run schema text).close.result = items.foldl (Item.apply schema) s.result := by
  induction h generalizing s with
  | nil =>
    rw [run_nil, close_outside fresh.outside, finish, fresh.finishWord_eq]
    exact ⟨rfl, rfl⟩
  | cons wf ends _ ih =>
    -- the first item leads to a fresh scan, from which the others go on
    obtain ⟨adm, admits'⟩ := (admits_cons wf).mp admits
    obtain ⟨t, fresh', herror, hresult, hclose⟩ := run_item fresh wf ends adm
    rw [← hresult] at admits'
    rw [hclose, List.foldl_cons, ← hresult, ← herror]
    exact ih fresh' admits'

end Items

/-! ### The items of a query without errors -/

section Shape

variable {schema : Schema} {s : Scan} {target : Option OptionSpec}

/-- Quotation marks that are never closed are an error. -/
theorem error_breakOff (s : Scan) (target : Option OptionSpec) (escaping : Bool) :
    (s.breakOff target escaping).error ≠ none := by
  simp [breakOff, missingQuote, report]

/-- A stray character is an error for good. -/
theorem not_stray {c : Char} {fault : SyntaxFault} {rest : List Char}
    (h : ((s.stray c fault).run schema rest).close.error = none) : False := by
  have := error_eq_none_of_close h
  simp at this

/-- **A quotation without errors is closed**, and what is typed in it stands for some text. -/
theorem quotation_shape : ∀ (cs : List Char) {s : Scan}, s.mode = .quoted target false →
    (s.run schema cs).close.error = none →
    ∃ body text rest, cs = body ++ '"' :: rest ∧ Quoted body text
  | [], s, hm, h => by
    rw [run_nil, close_quoted hm] at h
    exact absurd h (error_breakOff s target false)
  | c :: cs, s, hm, h => by
    by_cases hq : c = '"'
    · subst hq
      exact ⟨[], [], cs, rfl, .nil⟩
    by_cases hb : c = '\\'
    · subst hb
      rw [run_cons, step_openEscape hm] at h
      -- an escape takes two characters, so the rest of the quotation starts after the next one
      match cs with
      | [] =>
        rw [run_nil, close_quoted (s := s.openEscape target) rfl] at h
        exact absurd h (error_breakOff _ target true)
      | c :: cs =>
        rw [run_cons, step_closeEscape (s := s.openEscape target) rfl] at h
        cases he : unescape? c with
        | none =>
          have := error_eq_none_of_close h
          simp [closeEscape, escape, he, report] at this
        | some e =>
          obtain ⟨body, text, rest, rfl, hbody⟩ :=
            quotation_shape cs (s := (s.openEscape target).closeEscape target c) rfl h
          exact ⟨'\\' :: c :: body, e :: text, rest, rfl, hbody.escape he⟩
    · rw [run_cons, step_plain hm hq hb] at h
      obtain ⟨body, text, rest, rfl, hbody⟩ := quotation_shape cs (s := s.accumulate c) hm h
      exact ⟨c :: body, c :: text, rest, rfl, .plain hq hb hbody⟩

/-- A text starts with ordinary characters, as many as there are; then comes a blank, the end, or a
character with a meaning. -/
theorem ordinary_shape (cs : List Char) :
    ∃ word rest, cs = word ++ rest ∧ (∀ c ∈ word, isOrdinary c = true) ∧
      (BlankOrEnd rest ∨ ∃ c tail, rest = c :: tail ∧ isReserved c = true) := by
  induction cs with
  | nil => exact ⟨[], [], rfl, nofun, .inl blankOrEnd_nil⟩
  | cons c cs ih =>
    rcases char_cases c with hc | hc | hc
    · exact ⟨[], c :: cs, rfl, nofun, .inl (blankOrEnd_cons hc cs)⟩
    · obtain ⟨word, rest, rfl, hword, hrest⟩ := ih
      exact ⟨c :: word, rest, rfl, by simpa using ⟨hc, hword⟩, hrest⟩
    · exact ⟨[], c :: cs, rfl, nofun, .inr ⟨c, cs, rfl, hc⟩⟩

/-- **A value without errors** is bare or quoted, and it is taken. -/
theorem value_shape {name : String} {spec : OptionSpec} (hget : schema.get? name = some spec)
    (hm : s.mode = .outside (some spec)) (hr : s.raw = "") (hd : s.decoded = "") {cs : List Char}
    (h : (s.run schema cs).close.error = none) :
    (∃ text rest, cs = text ++ rest ∧ (Item.value name text).WellFormed schema ∧
        BlankOrEnd rest) ∨
      ∃ body text rest, cs = '"' :: (body ++ '"' :: rest) ∧
        (Item.quotedValue name body text).WellFormed schema := by
  obtain ⟨text, rest, rfl, htext, hrest⟩ := ordinary_shape cs
  rw [run_append, run_ordinary hm htext] at h
  rcases hrest with hrest | ⟨c, tail, rfl, hc⟩
  · -- the value ends here, so finishing it is no error
    rw [close_run_finish (s := s.gather text) hm hrest] at h
    obtain ⟨hne, v, hv⟩ := accepted_of_error (error_eq_none_of_close h)
    have hdecoded : (s.gather text).decoded = String.ofList text := by simp [gather, hd]
    rw [hdecoded] at hne hv
    exact .inl ⟨text, rest, rfl, ⟨by simpa using hne, htext, spec, v, hget, hv⟩, hrest⟩
  · by_cases hopen : c = '"' ∧ text = []
    · -- a quotation mark right after the colon opens a quoted value
      obtain ⟨rfl, rfl⟩ := hopen
      have hgather : s.gather [] = s := by simp [gather]
      rw [hgather] at h
      have hquote : ((s.openQuote (some spec)).run schema tail).close.error = none := by
        rwa [run_cons, step_openQuote hm hr nofun] at h
      obtain ⟨body, text, rest, rfl, hbody⟩ := quotation_shape _ (s.openQuote_mode _) hquote
      obtain ⟨t, hdecoded, -, -, hrun⟩ := run_quotation schema hm hr hd hbody
      have hsplit : '"' :: (body ++ '"' :: rest) = '"' :: (body ++ ['"']) ++ rest := by simp
      rw [hsplit, run_append, hrun] at h
      obtain ⟨hne, v, hv⟩ := accepted_of_error (error_eq_none_of_close h)
      rw [hdecoded] at hne hv
      exact .inr ⟨body, text, rest, rfl, hbody, by simpa using hne, spec, v, hget, hv⟩
    · -- any other character with a meaning is stray
      have hraw : c = '"' → (s.gather text).raw ≠ "" := by
        intro hq
        simpa [gather, hr] using fun ht => hopen ⟨hq, ht⟩
      rw [run_cons, step_value_reserved (s := s.gather text) hm hc hraw] at h
      exact (not_stray h).elim

/-- **The first item** of a text that a fresh scan reads without errors. -/
theorem first_item (fresh : s.Fresh) {cs : List Char} (hcs : cs ≠ [])
    (h : (s.run schema cs).close.error = none) :
    ∃ (item : Item) (rest : List Char), cs = item.typed ++ rest ∧ item.WellFormed schema ∧
      (item.isOpen = true → BlankOrEnd rest) ∧ item.Admissible schema s.result := by
  obtain ⟨word, rest, rfl, hword, hrest⟩ := ordinary_shape cs
  by_cases hne : word = []
  · -- no ordinary character comes first: a blank or a quoted text
    subst hne
    rw [List.nil_append] at h
    rcases hrest with hblank | ⟨c, tail, rfl, hc⟩
    · obtain ⟨c, tail, rfl⟩ := List.exists_cons_of_ne_nil hcs
      exact ⟨.blank [c], tail, rfl, ⟨by simp, by simpa using hblank c rfl⟩, by simp [Item.isOpen],
        Item.admissible_of_name rfl⟩
    · rcases isReserved_iff.mp hc with rfl | rfl | rfl
      · rw [run_cons, step_bare_colon fresh.mode fresh.decoded] at h
        exact (not_stray h).elim
      · rw [run_cons, step_openQuote fresh.outside fresh.raw fun _ => fresh.decoded] at h
        obtain ⟨body, text, rest, rfl, hbody⟩ := quotation_shape _ (s.openQuote_mode none) h
        exact ⟨.quoted body text, rest, by simp [Item.typed], hbody, by simp [Item.isOpen],
          Item.admissible_of_name rfl⟩
      · rw [run_cons, step_bare_backslash fresh.mode] at h
        exact (not_stray h).elim
  -- a word, or the name of an option, by what stops it
  have hdecoded : (s.gather word).decoded = String.ofList word := by simp [gather, fresh.decoded]
  rw [run_append, run_ordinary fresh.outside hword] at h
  rcases hrest with hrest | ⟨c, tail, rfl, hc⟩
  · exact ⟨.word word, rest, rfl, ⟨hne, hword⟩, fun _ => hrest, Item.admissible_of_name rfl⟩
  · rcases isReserved_iff.mp hc with rfl | rfl | rfl
    · rw [run_cons, step_name (s := s.gather word) fresh.mode (by simpa [hdecoded] using hne)] at h
      obtain ⟨spec, takes, hname⟩ | ⟨fault, hname⟩ := (s.gather word).finishName_cases schema
      · rw [hname] at h
        rw [Takes, hdecoded] at takes
        have adm : ∀ spec', schema.get? (String.ofList word) = some spec' →
            spec'.multiple = true ∨ s.result.contains (String.ofList word) = false := by
          intro spec' hget'
          obtain rfl : spec = spec' := Option.some.inj (takes.1.symm.trans hget')
          exact takes.2
        rcases value_shape (s := (s.gather word).openValue spec) takes.1 rfl rfl rfl h with
          ⟨text, rest, rfl, wf, hrest⟩ | ⟨body, text, rest, rfl, wf⟩
        · refine ⟨.value (String.ofList word) text, rest, by simp [Item.typed], wf,
            fun _ => hrest, ?_⟩
          rintro name ⟨⟩
          exact adm
        · refine ⟨.quotedValue (String.ofList word) body text, rest, by simp [Item.typed], wf,
            by simp [Item.isOpen], ?_⟩
          rintro name ⟨⟩
          exact adm
      · rw [hname] at h
        have := error_eq_none_of_close h
        simp [refuseName, report] at this
    · have hraw : ¬((s.gather word).raw = "" ∧ (s.gather word).decoded = "") := by
        simpa [hdecoded] using fun _ => hne
      rw [run_cons, step_bare_quote (s := s.gather word) fresh.mode hraw] at h
      exact (not_stray h).elim
    · rw [run_cons, step_bare_backslash (s := s.gather word) fresh.mode] at h
      exact (not_stray h).elim

/-- **All items** of a text that a fresh scan reads without errors. -/
theorem items_shape {cs : List Char} (fresh : s.Fresh)
    (h : (s.run schema cs).close.error = none) :
    ∃ items, Split schema cs items ∧ Admits schema s.result items := by
  -- every item has a character, so what is left after it is shorter
  induction hn : cs.length using Nat.strongRecOn generalizing cs s with
  | _ n ih =>
    by_cases hcs : cs = []
    · subst hcs
      exact ⟨[], .nil, fun spec _ _ => by simp; split <;> omega⟩
    · obtain ⟨item, rest, rfl, wf, ends, adm⟩ := first_item fresh hcs h
      obtain ⟨t, fresh', -, hresult, hclose⟩ := run_item fresh wf ends adm
      rw [hclose] at h
      have shorter : rest.length < n := by
        have := List.length_pos_iff.mpr wf.typed_ne_nil
        rw [← hn, List.length_append]
        omega
      obtain ⟨items, hsplit, admits⟩ := ih rest.length shorter fresh' h rfl
      rw [hresult] at admits
      exact ⟨item :: items, .cons wf ends hsplit, (admits_cons wf).mpr ⟨adm, admits⟩⟩

end Shape

end Scan

/-! ### Whole queries -/

section Queries

variable {schema : Schema} {query : String} {items : List Item}

theorem fresh_empty : Scan.Fresh {} := ⟨rfl, rfl, rfl⟩

theorem parse_error_of_itemized (h : Itemized schema query items) :
    (parse schema query).error = none :=
  (Scan.close_run_items h.split fresh_empty (admits_empty_iff.mpr h.once)).1

theorem means_parse (h : Itemized schema query items) :
    Means schema items (parse schema query).result := by
  have := (Scan.close_run_items h.split fresh_empty (admits_empty_iff.mpr h.once)).2
  rw [show (parse schema query).result = _ from this]
  exact means_foldl_apply h

theorem itemized_of_parse (h : (parse schema query).error = none) :
    ∃ items, Itemized schema query items := by
  obtain ⟨items, hsplit, admits⟩ := Scan.items_shape fresh_empty h
  exact ⟨items, hsplit, admits_empty_iff.mp admits⟩

end Queries

/-- **The language of queries.** A query is read without an error exactly if it can be itemized,
and then its result is what the items mean, however it was itemized. -/
theorem parse_error_eq_none_iff (schema : Schema) (query : String) :
    ((parse schema query).error = none ↔ ∃ items, Itemized schema query items) ∧
      ∀ items, Itemized schema query items → Means schema items (parse schema query).result :=
  ⟨⟨itemized_of_parse, fun ⟨_, h⟩ => parse_error_of_itemized h⟩, fun _ h => means_parse h⟩

namespace Example

/-- A quoted text with a tag right behind it, without a blank between them. -/
def glued : List Item :=
  [.quoted ['a', '\\', 'n', 'b'] ['a', '\n', 'b'], .value "tag" ['x']]

theorem itemized_glued : Itemized media "\"a\\nb\"tag:x" glued where
  split := by
    have typed : "\"a\\nb\"tag:x".toList = glued.flatMap Item.typed := by decide
    have quoted : Quoted ['a', '\\', 'n', 'b'] ['a', '\n', 'b'] :=
      .plain (by decide) (by decide) (.newline (.plain (by decide) (by decide) .nil))
    have ordinary : isOrdinary 'x' = true := by decide
    have tag : (Item.value "tag" ['x']).WellFormed media :=
      ⟨by simp, by simpa using ordinary, _, _, rfl, rfl⟩
    rw [typed]
    exact .cons quoted (by simp [Item.isOpen]) (.cons tag (fun _ => blankOrEnd_nil) .nil)
  once := by decide

/-- The glued query is read without an error, and it means its two items. -/
theorem means_parse_glued : Itemized media "\"a\\nb\"tag:x" glued ∧
    (parse media "\"a\\nb\"tag:x").error = none ∧
    Means media glued (parse media "\"a\\nb\"tag:x").result := by
  obtain ⟨language, means⟩ := parse_error_eq_none_iff media "\"a\\nb\"tag:x"
  exact ⟨itemized_glued, language.mpr ⟨glued, itemized_glued⟩, means glued itemized_glued⟩

end Example

end Searchbar
