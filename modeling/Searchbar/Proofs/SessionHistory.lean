import Mathlib.Data.List.Infix
import Searchbar.Example.Media
import Searchbar.Session

/-!
# A session and its history

At a desk queries are typed, requests are made and requests are resolved, in any order. What the desk
then holds, says and asks is a function of the history alone, that is, of the steps so far:

* the held parse belongs to the last query, and the revision counts the queries (`Desk.Shows`);
* a listener hears of each query once, and of nothing else;
* a request that is resolved gets the answer of the moment at which it was made, however much was
  typed since, and asks at most one source for it.

The request that a label stands for is found in the history as well: it is the last one under the
label that found a token (`Taken`). `Desk.request?_run_eq_some_iff` says that a desk keeps just
these, and `Desk.opening_followsHistory` puts the parts together.
-/

namespace Searchbar

/-! ### Histories -/

/-- The query that a step types. -/
def Step.input? : Step → Option String
  | update input => some input
  | request _ _ | resolve _ => none

/-- The queries of a history, in the order in which they were typed. -/
def inputs (history : List Step) : List String := history.filterMap Step.input?

/-- **What is held after a history**: the reading of the last query, with the defaults filled in if
that is wanted, and nothing before the first query. -/
def heldAfter (schema : Schema) (defaults : Bool) (history : List Step) : Parse :=
  match (inputs history).getLast? with
  | none => {}
  | some input =>
    let p := parse schema input
    { p with result := if defaults then p.result.fillDefaults schema else p.result }

/-- **The request that a label stands for** after a history: it was made after the steps `before`
and found the token `t`, and none that was made under the label later found a token. -/
structure Taken (schema : Schema) (defaults : Bool) (label : String) (history before : List Step)
    (selection : Selection) (t : Token) : Prop where
  made : before ++ [.request label selection] <+: history
  found : tokenAt (heldAfter schema defaults before).tokens selection = some t
  last : ∀ later other, before.length < later.length →
    later ++ [.request label other] <+: history →
      tokenAt (heldAfter schema defaults later).tokens other = none

/-- A notice that reports a parse: its error if it has one, and its result otherwise. -/
inductive Notice.Reports : Notice → Parse → Prop
  | failed {p : Parse} {e : ParseError} : p.error = some e → Reports (.failed e) p
  | changed {p : Parse} : p.error = none → Reports (.changed p.result) p

/-- Whether the candidates for a token come from a source: the token stands in the value of a number
or string option that has it. -/
def Token.Consults (t : Token) (source : Source) : Prop :=
  ∃ spec, t.hint = .value spec ∧
    (spec.kind = .number (some source) ∨ spec.kind = .string (some source))

/-- **What a source offers** for a typed text: its answer, and nothing if it fails. -/
def Source.Offers (source : Source) (typed : String) (offered : List Candidate) : Prop :=
  (∀ answer, source.lookup typed = .ok answer → offered = answer) ∧
    ∀ e, source.lookup typed = .error e → offered = []

@[simp] theorem inputs_append (history more : List Step) :
    inputs (history ++ more) = inputs history ++ inputs more := List.filterMap_append

@[simp] theorem inputs_update (input : String) : inputs [.update input] = [input] := rfl

theorem heldAfter_congr (schema : Schema) (defaults : Bool) {history other : List Step}
    (h : inputs history = inputs other) :
    heldAfter schema defaults history = heldAfter schema defaults other := by
  unfold heldAfter
  rw [h]

namespace Taken

variable {schema : Schema} {defaults : Bool} {label : String} {history before : List Step}
  {selection : Selection} {t : Token}

/-- A request leaves at least one step more than there were before it. -/
theorem length_lt (h : Taken schema defaults label history before selection t) :
    before.length < history.length := by
  have := h.made.length_le
  rwa [List.length_append, List.length_singleton] at this

/-- One more step is the request itself, or it leaves the label to an earlier one. -/
theorem concat_iff {step : Step} :
    Taken schema defaults label (history ++ [step]) before selection t ↔
      (before = history ∧ step = .request label selection ∧
        tokenAt (heldAfter schema defaults history).tokens selection = some t) ∨
      (Taken schema defaults label history before selection t ∧
        ∀ other, step = .request label other →
          tokenAt (heldAfter schema defaults history).tokens other = none) := by
  constructor
  · intro h
    rcases List.prefix_concat_iff.mp h.made with whole | shorter
    · obtain ⟨rfl, hstep⟩ := List.append_inj' whole rfl
      exact .inl ⟨rfl, (List.singleton_inj.mp hstep).symm, h.found⟩
    · -- the request is an earlier one, and the step is one of those that came later
      have earlier : Taken schema defaults label history before selection t :=
        ⟨shorter, h.found, fun later other hlater hpart =>
          h.last later other hlater (hpart.trans (List.prefix_append _ _))⟩
      refine .inr ⟨earlier, ?_⟩
      rintro other rfl
      exact h.last history other earlier.length_lt (List.prefix_refl _)
  · rintro (⟨rfl, rfl, found⟩ | ⟨earlier, quiet⟩)
    · -- nothing comes after the last step
      refine ⟨List.prefix_refl _, found, fun later other hlater hpart => ?_⟩
      have := hpart.length_le
      simp only [List.length_append, List.length_singleton] at this
      omega
    · refine ⟨earlier.made.trans (List.prefix_append _ _), earlier.found, ?_⟩
      intro later other hlater hpart
      rcases List.prefix_concat_iff.mp hpart with whole | shorter
      · obtain ⟨rfl, hstep⟩ := List.append_inj' whole rfl
        exact quiet other (List.singleton_inj.mp hstep).symm
      · exact earlier.last later other hlater shorter

end Taken

/-! ### The question to a source -/

theorem Source.offers_offer (source : Source) (typed : String) :
    source.Offers typed (source.offer typed) := by
  constructor
  · intro answer h
    rw [offer, h]
  · intro e h
    rw [offer, h]

namespace Token

variable {t : Token}

/-- A source that is consulted is asked, and it decides alone. -/
theorem Consults.complete_eq {source : Source} (h : t.Consults source) (schema : Schema) :
    t.complete schema = source.ask t.text := by
  obtain ⟨spec, hint, kind⟩ := h
  unfold complete
  rw [hint]
  rcases kind with kind | kind <;> simp [kind, OptionKind.completeValue]

/-- Where no source is consulted, none is asked. -/
theorem lookups_eq_nil (idle : ∀ source, ¬ t.Consults source) (schema : Schema) :
    (t.complete schema).lookups = [] := by
  unfold complete
  cases hint : t.hint with
  | none => rfl
  | options => rfl
  | value spec =>
    show (spec.kind.completeValue t.text).lookups = []
    cases kind : spec.kind with
    | boolean => rfl
    | enum choices => rfl
    | number source =>
      cases source with
      | none => rfl
      | some source => exact absurd ⟨spec, hint, .inl kind⟩ (idle source)
    | string source =>
      cases source with
      | none => rfl
      | some source => exact absurd ⟨spec, hint, .inr kind⟩ (idle source)

end Token

theorem candidatesAt_eq {tokens : List Token} {selection : Selection} {t : Token}
    (h : tokenAt tokens selection = some t) (schema : Schema) :
    candidatesAt tokens selection schema = (t.complete schema).candidates := by
  unfold candidatesAt completeAt
  rw [h]

theorem Session.reports_notice (s : Session) : s.notice.Reports s.parse := by
  unfold Session.notice
  split
  · next e he => exact .failed he
  · next he => exact .changed he

namespace Desk

/-- A desk at which nothing was done yet. -/
def opening (schema : Schema) (defaults listening : Bool) : Desk :=
  { session := { schema := schema, defaults := defaults }, listening := listening }

theorem run_concat (d : Desk) (history : List Step) (step : Step) :
    d.run (history ++ [step]) = ((d.run history).step step).1 := by
  unfold run
  rw [List.foldl_append]
  rfl

/-! ### What a desk holds -/

/-- **A desk holds what its history gives it.** -/
structure Shows (d : Desk) (schema : Schema) (defaults listening : Bool) (history : List Step) :
    Prop where
  sameSchema : d.session.schema = schema
  sameDefaults : d.session.defaults = defaults
  sameListening : d.listening = listening
  held : d.session.parse = heldAfter schema defaults history
  revision : d.session.revision = (inputs history).length

variable {d : Desk} {schema : Schema} {defaults listening : Bool} {history : List Step}

namespace Shows

theorem held_update (h : d.Shows schema defaults listening history) (input : String) :
    (d.session.update input).parse = heldAfter schema defaults (history ++ [.update input]) := by
  obtain ⟨rfl, rfl, -, -, -⟩ := h
  simp only [Session.update, Session.read, heldAfter, inputs_append, inputs_update,
    List.getLast?_concat]
  split <;> rfl

theorem request?_eq (h : d.Shows schema defaults listening history) (selection : Selection) :
    d.session.request? selection =
      (tokenAt (heldAfter schema defaults history).tokens selection).map
        fun t => ⟨(inputs history).length, t, schema⟩ := by
  unfold Session.request?
  rw [h.held, h.revision, h.sameSchema]

/-- A step that types nothing and leaves the session alone. -/
theorem of_session_eq (h : d.Shows schema defaults listening history) {d' : Desk} {step : Step}
    (hsession : d'.session = d.session) (hlistening : d'.listening = d.listening)
    (hstep : inputs [step] = []) : d'.Shows schema defaults listening (history ++ [step]) := by
  have same : inputs (history ++ [step]) = inputs history := by
    rw [inputs_append, hstep, List.append_nil]
  refine ⟨?_, ?_, ?_, ?_, ?_⟩
  · rw [hsession, h.sameSchema]
  · rw [hsession, h.sameDefaults]
  · rw [hlistening, h.sameListening]
  · rw [hsession, h.held, heldAfter_congr schema defaults same]
  · rw [hsession, h.revision, same]

theorem step (h : d.Shows schema defaults listening history) (step : Step) :
    (d.step step).1.Shows schema defaults listening (history ++ [step]) := by
  cases step with
  | update input =>
    refine ⟨h.sameSchema, h.sameDefaults, h.sameListening, h.held_update input, ?_⟩
    show d.session.revision + 1 = _
    rw [h.revision, inputs_append, inputs_update, List.length_append, List.length_singleton]
  | request label selection =>
    simp only [Desk.step]
    split <;> exact h.of_session_eq rfl rfl rfl
  | resolve label =>
    simp only [Desk.step]
    split <;> exact h.of_session_eq rfl rfl rfl

end Shows

theorem shows_run (schema : Schema) (defaults listening : Bool) (history : List Step) :
    ((opening schema defaults listening).run history).Shows schema defaults listening history := by
  induction history using List.reverseRecOn with
  | nil => exact ⟨rfl, rfl, rfl, rfl, rfl⟩
  | append_singleton history step ih =>
    rw [run_concat]
    exact ih.step step

/-! ### The requests that are kept -/

/-- What a step leaves under a label: a request that finds a token takes the place of what was
there. -/
theorem request?_step (d : Desk) (step : Step) (label : String) (r : Request) :
    (d.step step).1.request? label = some r ↔
      (∃ selection, step = .request label selection ∧ d.session.request? selection = some r) ∨
      (d.request? label = some r ∧
        ∀ other, step = .request label other → d.session.request? other = none) := by
  cases step with
  | update input => simp [Desk.step, request?]
  | resolve other =>
    have same : (d.step (.resolve other)).1.requests = d.requests := by
      simp only [Desk.step]
      split <;> rfl
    simp [request?, same]
  | request other selection =>
    simp only [Desk.step, Step.request.injEq]
    split
    · next new hnew =>
      -- the new request stands in front, and is found under its own label only
      by_cases hlabel : other = label
      · simp [request?, hlabel, hnew]
      · simp [request?, hlabel]
    · next hnone =>
      constructor
      · intro kept
        refine .inr ⟨kept, ?_⟩
        rintro _ ⟨-, rfl⟩
        exact hnone
      · rintro (⟨_, ⟨-, rfl⟩, made⟩ | ⟨kept, -⟩)
        · rw [hnone] at made
          exact absurd made (by simp)
        · exact kept

/-- **A desk keeps under a label the request that the label stands for.** -/
theorem request?_run_eq_some_iff (schema : Schema) (defaults listening : Bool)
    (history : List Step) (label : String) (r : Request) :
    ((opening schema defaults listening).run history).request? label = some r ↔
      ∃ before selection t, Taken schema defaults label history before selection t ∧
        r = ⟨(inputs before).length, t, schema⟩ := by
  induction history using List.reverseRecOn with
  | nil =>
    constructor
    · intro h
      exact absurd h (by simp [opening, run, request?])
    · rintro ⟨before, selection, t, taken, -⟩
      exact absurd taken.length_lt (Nat.not_lt_zero _)
  | append_singleton history step ih =>
    -- what the session hands out now is what the history says of its last moment
    have now := (shows_run schema defaults listening history).request?_eq
    rw [run_concat, request?_step]
    simp only [Taken.concat_iff, ih, now, Option.map_eq_some_iff, Option.map_eq_none_iff]
    constructor
    · rintro (⟨selection, hstep, t, found, rfl⟩ | ⟨⟨before, selection, t, taken, rfl⟩, quiet⟩)
      · exact ⟨history, selection, t, .inl ⟨rfl, hstep, found⟩, rfl⟩
      · exact ⟨before, selection, t, .inr ⟨taken, quiet⟩, rfl⟩
    · rintro ⟨before, selection, t, ⟨rfl, hstep, found⟩ | ⟨taken, quiet⟩, rfl⟩
      · exact .inl ⟨selection, hstep, t, found, rfl⟩
      · exact .inr ⟨⟨before, selection, t, taken, rfl⟩, quiet⟩

theorem request?_run_eq_none_iff (schema : Schema) (defaults listening : Bool)
    (history : List Step) (label : String) :
    ((opening schema defaults listening).run history).request? label = none ↔
      ∀ before selection t, ¬ Taken schema defaults label history before selection t := by
  simp only [Option.eq_none_iff_forall_ne_some, Ne, request?_run_eq_some_iff]
  constructor
  · intro absent before selection t taken
    exact absent _ ⟨before, selection, t, taken, rfl⟩
  · rintro untaken r ⟨before, selection, t, taken, -⟩
    exact untaken before selection t taken

/-! ### What a step makes heard and asked -/

theorem notices_update (hlistening : d.listening = true) (input : String) :
    (d.step (.update input)).1.notices = d.notices ++ [(d.session.update input).notice] := by
  simp only [Desk.step, hlistening, if_true]

/-- Nothing is heard of a step that types nothing, or where nobody listens. -/
theorem notices_of_silent {step : Step} (h : d.listening = false ∨ step.input? = none) :
    (d.step step).1.notices = d.notices := by
  cases step with
  | update input =>
    rcases h with deaf | untyped
    · simp [Desk.step, deaf]
    · exact absurd untyped (Option.some_ne_none input)
  | request label selection =>
    simp only [Desk.step]
    split <;> rfl
  | resolve label =>
    simp only [Desk.step]
    split <;> rfl

/-- A request that is kept is answered without a look at the session, which only says whether the
answer is still wanted. -/
theorem step_resolve_of_some {label : String} {r : Request} (h : d.request? label = some r) :
    d.step (.resolve label) =
      ({ d with lookups := d.lookups ++ (r.token.complete r.schema).lookups },
        .resolved ⟨r.revision, (r.token.complete r.schema).candidates⟩
          (d.session.revision == r.revision)) := by
  simp only [Desk.step, h]
  rfl

theorem step_resolve_of_none {label : String} (h : d.request? label = none) :
    d.step (.resolve label) = (d, .noRequest) := by
  simp only [Desk.step, h]

/-- Sources are asked only for requests that are kept. -/
theorem lookups_of_idle {step : Step}
    (h : ∀ label r, step = .resolve label → d.request? label = some r →
      (r.token.complete r.schema).lookups = []) :
    (d.step step).1.lookups = d.lookups := by
  cases step with
  | update input => rfl
  | request label selection =>
    simp only [Desk.step]
    split <;> rfl
  | resolve label =>
    cases kept : d.request? label with
    | none => rw [step_resolve_of_none kept]
    | some r =>
      rw [step_resolve_of_some kept, h label r rfl kept]
      exact List.append_nil _

/-- **A desk that follows its history**, in what it holds and in what its next step does. -/
structure FollowsHistory (schema : Schema) (defaults listening : Bool) (history : List Step)
    (d : Desk) : Prop where
  /-- The revision counts the queries. -/
  revision : d.session.revision = (inputs history).length
  /-- The parse of the last query is held. -/
  held : d.session.parse = heldAfter schema defaults history
  /-- A listener hears of a query once. -/
  heard : listening = true → ∀ input, ∃ notice : Notice,
    notice.Reports (heldAfter schema defaults (history ++ [.update input])) ∧
      (d.step (.update input)).1.notices = d.notices ++ [notice]
  /-- Nobody hears of anything else. -/
  silent : ∀ step : Step, listening = false ∨ step.input? = none →
    (d.step step).1.notices = d.notices
  /-- A request is answered as of the moment at which it was made. -/
  resolved : ∀ label before selection t,
    Taken schema defaults label history before selection t →
      (d.step (.resolve label)).2 =
        .resolved ⟨(inputs before).length,
            candidatesAt (heldAfter schema defaults before).tokens selection schema⟩
          ((inputs history).length == (inputs before).length)
  /-- The source that its token consults is asked once, with the text of the token. If it answers,
  its answer is given, and if it fails, nothing is. -/
  asked : ∀ label before selection t source,
    Taken schema defaults label history before selection t → t.Consults source →
      (d.step (.resolve label)).1.lookups = d.lookups ++ [⟨source, t.text⟩] ∧
        source.Offers t.text
          (candidatesAt (heldAfter schema defaults before).tokens selection schema)
  /-- No source is asked for anything else. -/
  unasked : ∀ step : Step,
    (∀ label before selection t source, step = .resolve label →
      Taken schema defaults label history before selection t → ¬ t.Consults source) →
    (d.step step).1.lookups = d.lookups
  /-- A label that stands for no request has no answer. -/
  noRequest : ∀ label,
    (∀ before selection t, ¬ Taken schema defaults label history before selection t) →
      (d.step (.resolve label)).2 = .noRequest

variable (schema defaults listening history)

/-- **Every desk follows its history**, whatever was done at it and in whatever order. -/
theorem opening_followsHistory :
    FollowsHistory schema defaults listening history
      ((opening schema defaults listening).run history) := by
  have now := shows_run schema defaults listening history
  have kept := request?_run_eq_some_iff schema defaults listening history
  constructor
  case revision => exact now.revision
  case held => exact now.held
  case heard =>
    intro hlistening input
    refine ⟨_, ?_, notices_update (now.sameListening.trans hlistening) input⟩
    rw [← now.held_update]
    exact Session.reports_notice _
  case silent =>
    intro step quiet
    rw [← now.sameListening] at quiet
    exact notices_of_silent quiet
  case resolved =>
    intro label before selection t taken
    have standing := (kept label _).mpr ⟨before, selection, t, taken, rfl⟩
    rw [step_resolve_of_some standing, candidatesAt_eq taken.found, now.revision]
  case asked =>
    intro label before selection t source taken consults
    have standing := (kept label _).mpr ⟨before, selection, t, taken, rfl⟩
    rw [step_resolve_of_some standing, candidatesAt_eq taken.found, consults.complete_eq]
    exact ⟨rfl, source.offers_offer t.text⟩
  case unasked =>
    intro step idle
    refine lookups_of_idle fun label r hstep hr => ?_
    obtain ⟨before, selection, t, taken, rfl⟩ := (kept label r).mp hr
    refine Token.lookups_eq_nil (fun source => ?_) schema
    exact idle label before selection t source hstep taken
  case noRequest =>
    intro label untaken
    rw [step_resolve_of_none ((request?_run_eq_none_iff ..).mpr untaken)]

-- A request for a tag that is resolved after the query has moved on is answered for the query it was
-- made at, and the answer is not current any more.
open Example in
example :
    (((opening (mediaWithTags 1) false true).run
      [.update "tag:r", .request "first" (.caret 5), .update "sort:"]).step (.resolve "first")).2 =
      .resolved ⟨1, [⟨"rust", some "Rust language"⟩, ⟨"ruby", none⟩]⟩ false := by
  cbv

end Desk

end Searchbar
