import Mathlib.Data.List.Forall2
import Mathlib.Data.List.Induction
import Searchbar.Schema.Basic

/-!
# Attaching sources

Sources are attached to the options of a schema one call after the other, and some calls fail. No
sequence of calls breaks a schema (`attachAll_sourcesAttached`): a call that fails changes nothing,
the options stay where they are and what they are but for their sources, and a source is replaced by
the last call for its option that does not fail.

A call changes the option where it stands, and only its answer depends on what the option is. So
`Schema.attached` is the schema that a call leaves behind whatever it answers, and three facts say
the rest:

* `Schema.attach_eq` gives the answer. It depends on which options there are and which of them take
  a source, and no call changes that (`Schema.supports?_attachAll`).
* `Schema.attached_of_error` says that a call that fails leaves the schema it found.
* `OptionSpec.foldl_attached` says what a sequence of calls makes of one option.
-/

namespace Searchbar

/-- **A call that attaches** a source to the option `name`. -/
structure Attachment where
  name : String
  source : Source

/-- The source of the last call for the option `name`. -/
def lastSource? (name : String) (calls : List Attachment) : Option Source :=
  (calls.filter fun call => call.name = name).getLast?.map Attachment.source

theorem lastSource?_concat (name : String) (calls : List Attachment) (call : Attachment) :
    lastSource? name (calls ++ [call]) =
      if call.name = name then some call.source else lastSource? name calls := by
  by_cases h : call.name = name <;> simp [lastSource?, h]

namespace OptionKind

/-- The kinds whose candidates are **fixed**. -/
def IsFixed (kind : OptionKind) : Prop := kind = .boolean ∨ ∃ choices, kind = .enum choices

theorem isFixed_iff {kind : OptionKind} : kind.IsFixed ↔ kind.takesSource = false := by
  cases kind <;> simp [IsFixed, takesSource]

@[simp] theorem takesSource_withSource (source : Source) (kind : OptionKind) :
    (kind.withSource source).takesSource = kind.takesSource := by
  cases kind <;> rfl

theorem withSource_of_not_takesSource {kind : OptionKind} (h : kind.takesSource = false)
    (source : Source) : kind.withSource source = kind := by
  cases kind with
  | number _ => cases h
  | string _ => cases h
  | enum _ => rfl
  | boolean => rfl

theorem source?_withSource {kind : OptionKind} (h : kind.takesSource = true) (source : Source) :
    (kind.withSource source).source? = some source := by
  cases kind with
  | number _ => rfl
  | string _ => rfl
  | enum _ => cases h
  | boolean => cases h

end OptionKind

/-! ### One option -/

/-- **An option with another source**: everything else about it is the same. -/
structure OptionSpec.Resourced (spec spec' : OptionSpec) : Prop where
  name : spec'.name = spec.name
  title : spec'.title = spec.title
  multiple : spec'.multiple = spec.multiple
  default : spec'.default = spec.default
  type : spec'.kind.name = spec.kind.name
  choices : spec'.kind.choices = spec.kind.choices
  takesSource : spec'.kind.takesSource = spec.kind.takesSource

namespace OptionSpec

/-- What a call makes of an option: it leaves all but the one it names. -/
def attached (spec : OptionSpec) (call : Attachment) : OptionSpec :=
  if spec.name = call.name then spec.withSource call.source else spec

theorem Resourced.refl (spec : OptionSpec) : spec.Resourced spec :=
  ⟨rfl, rfl, rfl, rfl, rfl, rfl, rfl⟩

theorem Resourced.attached {spec spec' : OptionSpec} (h : spec.Resourced spec')
    (call : Attachment) : spec.Resourced (spec'.attached call) := by
  unfold OptionSpec.attached
  split
  · refine ⟨h.name, h.title, h.multiple, h.default, ?_, ?_, ?_⟩
    · simpa [withSource] using h.type
    · simpa [withSource] using h.choices
    · simpa [withSource] using h.takesSource
  · exact h

theorem source?_attached {spec : OptionSpec} (h : spec.kind.takesSource = true)
    (call : Attachment) :
    (spec.attached call).kind.source? =
      if call.name = spec.name then some call.source else spec.kind.source? := by
  unfold attached
  by_cases hname : spec.name = call.name
  · rw [if_pos hname, if_pos hname.symm]
    exact OptionKind.source?_withSource h call.source
  · rw [if_neg hname, if_neg (Ne.symm hname)]

/-- **What a sequence of calls makes of an option.** -/
theorem foldl_attached (spec : OptionSpec) (calls : List Attachment) :
    spec.Resourced (calls.foldl attached spec) ∧
      (spec.kind.takesSource = true → (calls.foldl attached spec).kind.source? =
        (lastSource? spec.name calls).or spec.kind.source?) := by
  -- from the end: the last call decides if it is for this option, else the calls before it do
  induction calls using List.reverseRecOn with
  | nil => exact ⟨.refl spec, fun _ => rfl⟩
  | append_singleton calls call ih =>
    obtain ⟨resourced, source⟩ := ih
    rw [List.foldl_append, List.foldl_cons, List.foldl_nil]
    refine ⟨resourced.attached call, fun h => ?_⟩
    rw [source?_attached (resourced.takesSource.trans h), resourced.name, lastSource?_concat]
    split
    · rfl
    · exact source h

/-- Calls for different options commute on every option. -/
theorem attached_comm (spec : OptionSpec) {a b : Attachment} (h : a.name ≠ b.name) :
    (spec.attached a).attached b = (spec.attached b).attached a := by
  by_cases ha : spec.name = a.name
  · simp [attached, ha, h]
  · by_cases hb : spec.name = b.name
    · simp [attached, hb, Ne.symm h]
    · simp [attached, ha, hb]

end OptionSpec

namespace Schema

/-- A schema is what it declares. -/
theorem eq_of_options {s s' : Schema} (h : s.options = s'.options) : s = s' := by
  cases s
  cases s'
  simpa using h

/-- **The schema that a call leaves behind**, whatever it answers. -/
def attached (s : Schema) (call : Attachment) : Schema := s.setSource call.name call.source

/-- **The schema that a sequence of calls leaves behind.** -/
def attachAll (s : Schema) (calls : List Attachment) : Schema := calls.foldl attached s

theorem options_attachAll (s : Schema) (calls : List Attachment) :
    (s.attachAll calls).options =
      s.options.map fun spec => calls.foldl OptionSpec.attached spec := by
  induction calls generalizing s with
  | nil => simp [attachAll]
  | cons call calls ih =>
    have first : (s.attached call).options = s.options.map (·.attached call) := rfl
    have rest := ih (s.attached call)
    rw [first, List.map_map] at rest
    exact rest

/-! ### Answers -/

/-- Whether the option `name` takes a source, if there is such an option. -/
def supports? (s : Schema) (name : String) : Option Bool :=
  (s.get? name).map fun spec => spec.kind.takesSource

theorem supports?_eq_none_iff {s : Schema} {name : String} :
    s.supports? name = none ↔ ∀ spec ∈ s.options, spec.name ≠ name := by
  simp [supports?, get?]

theorem supports?_eq_some_iff {s : Schema} {name : String} {takes : Bool} :
    s.supports? name = some takes ↔
      ∃ spec ∈ s.options, spec.name = name ∧ spec.kind.takesSource = takes := by
  simp [supports?, get?_eq_some_iff, and_assoc]

/-- **The answer of a call.** -/
theorem attach_eq (s : Schema) (call : Attachment) :
    s.attach call.name call.source =
      match s.supports? call.name with
      | none => .error (.unknownOption call.name)
      | some true => .ok (s.attached call)
      | some false => .error (.sourceNotSupported call.name) := by
  unfold attach supports?
  cases s.get? call.name with
  | none => rfl
  | some spec => cases h : spec.kind.takesSource <;> simp [h, attached]

theorem get?_attached (s : Schema) (call : Attachment) (name : String) :
    (s.attached call).get? name = (s.get? name).map fun spec => spec.attached call := by
  have names : (fun spec : OptionSpec => (spec.attached call).name == name) =
      fun spec => spec.name == name := by
    funext spec
    rw [((OptionSpec.Resourced.refl spec).attached call).name]
  change (s.options.map fun spec => spec.attached call).find? _ = _
  rw [List.find?_map, Function.comp_def, names, get?]

/-- No call changes which options there are and which of them take a source. -/
theorem supports?_attached (s : Schema) (call : Attachment) (name : String) :
    (s.attached call).supports? name = s.supports? name := by
  have takes (spec : OptionSpec) : (spec.attached call).kind.takesSource = spec.kind.takesSource :=
    ((OptionSpec.Resourced.refl spec).attached call).takesSource
  rw [supports?, get?_attached, Option.map_map, Function.comp_def]
  simp only [takes, supports?]

theorem supports?_attachAll (s : Schema) (calls : List Attachment) (name : String) :
    (s.attachAll calls).supports? name = s.supports? name := by
  induction calls generalizing s with
  | nil => rfl
  | cons call calls ih => exact (ih (s.attached call)).trans (s.supports?_attached call name)

/-- **A call that fails changes nothing**: there is no option of its name, or the option keeps its
fixed candidates. -/
theorem attached_of_error {s : Schema} {call : Attachment} {e : SchemaError}
    (h : s.attach call.name call.source = .error e) : s.attached call = s := by
  have unsupported : s.supports? call.name ≠ some true := by
    intro hs
    rw [attach_eq, hs] at h
    cases h
  -- an option of this name is fixed, and to set the source of such an option does nothing
  have kept : ∀ spec ∈ s.options, spec.attached call = spec := by
    intro spec hspec
    unfold OptionSpec.attached
    split
    · next hname =>
      have fixed : spec.kind.takesSource = false := by
        rw [← Bool.not_eq_true]
        exact fun htakes => unsupported (supports?_eq_some_iff.mpr ⟨spec, hspec, hname, htakes⟩)
      rw [OptionSpec.withSource, OptionKind.withSource_of_not_takesSource fixed]
    · rfl
  exact eq_of_options ((List.map_congr_left kept).trans (List.map_id _))

/-- **What a call answers** to the schema `now`, which calls have made of `s`. -/
structure Answered (s now : Schema) (call : Attachment) : Prop where
  unknown_iff : now.attach call.name call.source = .error (.unknownOption call.name) ↔
    ∀ spec ∈ s.options, spec.name ≠ call.name
  unsupported_iff : now.attach call.name call.source = .error (.sourceNotSupported call.name) ↔
    ∃ spec ∈ s.options, spec.name = call.name ∧ spec.kind.IsFixed
  /-- There is no other way to fail, and to fail is to change nothing. -/
  error : ∀ e, now.attach call.name call.source = .error e →
    (e = .unknownOption call.name ∨ e = .sourceNotSupported call.name) ∧ now.attached call = now
  ok : ∀ now', now.attach call.name call.source = .ok now' → now.attached call = now'

theorem answered_attachAll (s : Schema) (before : List Attachment) (call : Attachment) :
    Answered s (s.attachAll before) call := by
  -- the answer is read off the schema that the calls before started from
  have answer := attach_eq (s.attachAll before) call
  rw [supports?_attachAll] at answer
  constructor
  case unknown_iff =>
    rw [answer, ← supports?_eq_none_iff]
    split <;> simp_all
  case unsupported_iff =>
    simp only [OptionKind.isFixed_iff]
    rw [answer, ← supports?_eq_some_iff]
    split <;> simp_all
  case error =>
    intro e he
    refine ⟨?_, attached_of_error he⟩
    rw [answer] at he
    split at he <;> simp_all
  case ok =>
    intro now' hok
    rw [answer] at hok
    split at hok <;> simp_all

/-- **The calls that do not fail**, each made to the schema that the calls before it have left. -/
def accepted (s : Schema) : List Attachment → List Attachment
  | [] => []
  | call :: calls =>
    match s.attach call.name call.source with
    | .ok s' => call :: accepted s' calls
    | .error _ => accepted s calls

/-- Whether a call fails does not depend on the calls before it. -/
theorem accepted_eq_filter (s : Schema) (calls : List Attachment) :
    s.accepted calls = calls.filter fun call => s.supports? call.name = some true := by
  induction calls generalizing s with
  | nil => rfl
  | cons call calls ih =>
    rw [accepted, attach_eq]
    cases hs : s.supports? call.name with
    | none => simp [hs, ih]
    | some takes =>
      cases takes with
      | false => simp [hs, ih]
      -- the call changes the schema, but not what it supports
      | true => simp [hs, ih, supports?_attached]

/-- No call for an option that takes a source fails. -/
theorem lastSource?_accepted {s : Schema} {spec : OptionSpec} (hspec : spec ∈ s.options)
    (htakes : spec.kind.takesSource = true) (calls : List Attachment) :
    lastSource? spec.name (s.accepted calls) = lastSource? spec.name calls := by
  have supported : s.supports? spec.name = some true :=
    supports?_eq_some_iff.mpr ⟨spec, hspec, rfl, htakes⟩
  rw [lastSource?, accepted_eq_filter, List.filter_filter, lastSource?]
  congr 2
  refine List.filter_congr fun call _ => ?_
  by_cases hname : call.name = spec.name <;> simp [hname, supported]

/-! ### Soundness and order -/

theorem fault?_eq_none {before options : List OptionSpec}
    (sound : ∀ spec ∈ options, spec.fault? = none) (distinct : (options.map OptionSpec.name).Nodup)
    (apart : ∀ spec ∈ options, ∀ other ∈ before, other.name ≠ spec.name) :
    fault? before options = none := by
  -- `before` grows by the option at hand, so the options to come must be apart from it as well
  induction options generalizing before with
  | nil => rfl
  | cons spec rest ih =>
    obtain ⟨hnew, hrest⟩ := List.nodup_cons.mp distinct
    have free : ¬(before.any fun other => other.name == spec.name) = true := by
      simpa using apart spec List.mem_cons_self
    rw [fault?, sound spec List.mem_cons_self]
    simp only [free]
    refine ih (fun other ho => sound other (List.mem_cons_of_mem spec ho)) hrest ?_
    intro later hlater other hother
    rcases List.mem_append.mp hother with hother | hother
    · exact apart later (List.mem_cons_of_mem spec hlater) other hother
    · rw [List.mem_singleton.mp hother]
      exact fun hname => hnew (hname ▸ List.mem_map_of_mem hlater)

/-- **The options of a schema make that schema again.** -/
theorem ofOptions_options (s : Schema) : ofOptions s.options = .ok s := by
  have clear : fault? [] s.options = none := fault?_eq_none s.sound s.distinct (by simp)
  unfold ofOptions
  split
  · rfl
  · next e he =>
    rw [clear] at he
    cases he

/-- Calls for different options commute. -/
theorem attached_comm (s : Schema) {a b : Attachment} (h : a.name ≠ b.name) :
    (s.attached a).attached b = (s.attached b).attached a := by
  apply eq_of_options
  change (s.options.map (·.attached a)).map (·.attached b) =
    (s.options.map (·.attached b)).map (·.attached a)
  rw [List.map_map, List.map_map]
  exact List.map_congr_left fun spec _ => spec.attached_comm h

/-- **What became of an option** of `s` under a sequence of calls. -/
structure Updated (s : Schema) (calls : List Attachment) (spec spec' : OptionSpec) : Prop where
  kept : spec.Resourced spec'
  /-- The last call for the option that did not fail gives its source. -/
  source : spec.kind.takesSource = true →
    spec'.kind.source? = (lastSource? spec.name (s.accepted calls)).or spec.kind.source?

/-- **What a sequence of calls does** to a schema. -/
structure SourcesAttached (s : Schema) (calls : List Attachment) : Prop where
  answers : ∀ before call after, calls = before ++ call :: after →
    Answered s (s.attachAll before) call
  /-- The options are in the same order and the same but for their sources. -/
  options : List.Forall₂ (Updated s calls) s.options (s.attachAll calls).options
  /-- The options can be declared as they are now. -/
  declarable : ofOptions (s.attachAll calls).options = .ok (s.attachAll calls)
  /-- Neighbouring calls for different options may change places. -/
  commute : ∀ before a b after, calls = before ++ a :: b :: after → a.name ≠ b.name →
    s.attachAll (before ++ b :: a :: after) = s.attachAll calls

/-- **Attaching sources never breaks a schema.** -/
theorem attachAll_sourcesAttached (s : Schema) (calls : List Attachment) :
    SourcesAttached s calls := by
  constructor
  case answers => exact fun before call _ _ => s.answered_attachAll before call
  case options =>
    rw [options_attachAll, List.forall₂_map_right_iff, List.forall₂_same]
    intro spec hspec
    obtain ⟨kept, source⟩ := spec.foldl_attached calls
    refine ⟨kept, fun htakes => ?_⟩
    rw [lastSource?_accepted hspec htakes]
    exact source htakes
  case declarable => exact ofOptions_options (s.attachAll calls)
  case commute =>
    rintro before a b after rfl hname
    simp only [attachAll, List.foldl_append, List.foldl_cons]
    rw [attached_comm _ hname]

end Schema

end Searchbar
