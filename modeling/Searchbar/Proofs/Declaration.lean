import Mathlib.Data.List.Forall2
import Searchbar.Config.Basic

/-!
# What a declaration declares

A declaration is gone through twice. First every option is looked at on its own: its type, its
choices, its suggestions and its default, in this order. Then the options are put together to a
schema, which asks for names that can be typed and are not repeated, and for choices where they are
needed. Each time the first failure ends it, so a document with several faults is refused for one
of them, and a fault of the second kind is seen only if there is none of the first.

* `OptionConfig.build_cases` says all that can become of a declared option: it is refused for one
  reason (`OptionConfig.RefusedFor`), or it is in order (`OptionConfig.InOrder`) and made into an
  option that it describes (`OptionConfig.Describes`).
* `OptionConfig.fault?_cons` says the same of one step of the second pass.
* `SchemaConfig.build_loads` says which declarations are accepted, what they are made into, and why
  the others are refused.
-/

namespace Searchbar

/-! ### Up to the first failure -/

section FirstFailure

variable {α β ε : Type} {f : α → Except ε β} {l : List α}

theorem mapM_cons_of_ok {x : α} {y : β} (hx : f x = .ok y) :
    (x :: l).mapM f = (l.mapM f).map (y :: ·) := by
  rw [List.mapM_cons, hx]
  cases l.mapM f <;> rfl

theorem mapM_cons_of_error {x : α} {e : ε} (hx : f x = .error e) :
    (x :: l).mapM f = .error e := by
  rw [List.mapM_cons, hx]
  rfl

/-- If nothing fails, every member of a list is made into its own. -/
theorem mapM_eq_ok_iff {made : List β} :
    l.mapM f = .ok made ↔ List.Forall₂ (fun x y => f x = .ok y) l made := by
  induction l generalizing made with
  | nil =>
    rw [List.forall₂_nil_left_iff]
    exact ⟨fun h => (Except.ok.inj h).symm, fun h => h ▸ rfl⟩
  | cons x l ih =>
    rw [List.forall₂_cons_left_iff]
    cases hx : f x with
    | error e => simp [mapM_cons_of_error hx]
    | ok y =>
      rw [mapM_cons_of_ok hx]
      constructor
      · intro h
        cases hl : l.mapM f with
        | error e =>
          rw [hl] at h
          cases h
        | ok rest =>
          rw [hl] at h
          exact ⟨y, rest, rfl, ih.mp hl, (Except.ok.inj h).symm⟩
      · rintro ⟨z, rest, hz, hrest, rfl⟩
        obtain rfl : y = z := Except.ok.inj hz
        rw [ih.mpr hrest]
        rfl

/-- **The first failure decides.** -/
theorem mapM_eq_error_iff {e : ε} :
    l.mapM f = .error e ↔ ∃ before x after, l = before ++ x :: after ∧
      (∀ y ∈ before, ∃ made, f y = .ok made) ∧ f x = .error e := by
  induction l with
  | nil =>
    refine iff_of_false (fun h => by cases h) ?_
    rintro ⟨before, x, after, h, -⟩
    simp at h
  | cons x l ih =>
    cases hx : f x with
    | error e' =>
      rw [mapM_cons_of_error hx]
      constructor
      · intro h
        obtain rfl : e' = e := Except.error.inj h
        exact ⟨[], x, l, rfl, by simp, hx⟩
      · rintro ⟨before, y, after, h, passed, hy⟩
        cases before with
        | nil =>
          obtain ⟨rfl, -⟩ := List.cons.inj h
          rw [Except.error.inj (hx.symm.trans hy)]
        | cons z before =>
          -- the member that fails would have been passed
          obtain ⟨rfl, -⟩ := List.cons.inj h
          obtain ⟨made, hmade⟩ := passed x List.mem_cons_self
          rw [hx] at hmade
          cases hmade
    | ok y =>
      have step : (l.mapM f).map (y :: ·) = .error e ↔ l.mapM f = .error e := by
        cases l.mapM f <;> simp [Except.map]
      rw [mapM_cons_of_ok hx, step, ih]
      constructor
      · rintro ⟨before, z, after, rfl, passed, hz⟩
        refine ⟨x :: before, z, after, rfl, ?_, hz⟩
        intro w hw
        rcases List.mem_cons.mp hw with rfl | hw
        · exact ⟨y, hx⟩
        · exact passed w hw
      · rintro ⟨before, z, after, h, passed, hz⟩
        cases before with
        | nil =>
          obtain ⟨rfl, -⟩ := List.cons.inj h
          rw [hx] at hz
          cases hz
        | cons w before =>
          obtain ⟨rfl, rfl⟩ := List.cons.inj h
          exact ⟨before, z, after, rfl, fun v hv => passed v (List.mem_cons_of_mem _ hv), hz⟩

end FirstFailure

namespace OptionConfig

variable {c : OptionConfig}

/-! ### An option on its own -/

/-- The names of the types. -/
def typeNames : List String := ["number", "string", "enum", "boolean"]

/-- **The kind that the declared type stands for**, with the declared choices. -/
inductive Names (c : OptionConfig) : OptionKind → Prop
  | number (h : c.typeName = "number") : Names c (.number none)
  | string (h : c.typeName = "string") : Names c (.string none)
  | enum (h : c.typeName = "enum") : Names c (.enum c.choices)
  | boolean (h : c.typeName = "boolean") : Names c .boolean

/-- The declared type, with the declared choices, takes a text for a value. -/
def Takes (c : OptionConfig) (text : String) : Prop :=
  ∃ kind, c.Names kind ∧ (kind.read? text).isSome = true

/-- **A declared option that is in order on its own.** -/
structure InOrder (c : OptionConfig) : Prop where
  type : c.typeName ∈ typeNames
  choices : c.choices ≠ [] → c.typeName = "enum"
  suggestions : c.suggestions ≠ [] → c.typeName = "number" ∨ c.typeName = "string"
  default : ∀ text, c.default = some text → c.Takes text

/-- **Why a declared option is refused on its own.** A check counts only if the checks before it are
passed. -/
inductive RefusedFor (c : OptionConfig) : ConfigError → Prop
  | type (unknown : c.typeName ∉ typeNames) : RefusedFor c (.unknownType c.name c.typeName)
  | choices (type : c.typeName ∈ typeNames) (given : c.choices ≠ []) (other : c.typeName ≠ "enum") :
      RefusedFor c (.choicesNotAllowed c.name)
  | suggestions (type : c.typeName ∈ typeNames) (choices : c.choices ≠ [] → c.typeName = "enum")
      (given : c.suggestions ≠ []) (other : ¬(c.typeName = "number" ∨ c.typeName = "string")) :
      RefusedFor c (.suggestionsNotAllowed c.name)
  | default (type : c.typeName ∈ typeNames) (choices : c.choices ≠ [] → c.typeName = "enum")
      (suggestions : c.suggestions ≠ [] → c.typeName = "number" ∨ c.typeName = "string")
      (text : String) (given : c.default = some text) (wrong : ¬c.Takes text) :
      RefusedFor c (.invalidDefault c.name c.typeName text)

/-- **The option that a declaration describes.** Its source is there for its suggestions, and offers
those that begin with what was typed. -/
structure Describes (c : OptionConfig) (spec : OptionSpec) : Prop where
  name : spec.name = c.name
  title : spec.title = c.title
  multiple : spec.multiple = c.multiple
  default : spec.default = c.default
  type : spec.kind.name = c.typeName
  choices : spec.kind.choices = c.choices
  source : spec.kind.source?.isSome = true ↔ c.suggestions ≠ []
  offers : ∀ source, spec.kind.source? = some source → ∀ typed,
    source.lookup typed =
      .ok ((c.suggestions.filter fun s => typed.toList <+: s.name.toList).map fun s =>
        ⟨s.name, s.description⟩)

/-- A declaration in order is not refused. -/
theorem InOrder.not_refused (h : c.InOrder) {e : ConfigError} : ¬c.RefusedFor e := by
  intro refused
  cases refused with
  | type unknown => exact unknown h.type
  | choices _ given other => exact other (h.choices given)
  | suggestions _ _ given other => exact other (h.suggestions given)
  | default _ _ _ text given wrong => exact wrong (h.default text given)

/-- A declaration is refused for one reason. -/
theorem RefusedFor.unique {e e' : ConfigError} (h : c.RefusedFor e) (h' : c.RefusedFor e') :
    e = e' := by
  cases h with
  | type unknown =>
    cases h' with
    | type => rfl
    | choices type | suggestions type | default type => exact absurd type unknown
  | choices type given other =>
    cases h' with
    | type unknown => exact absurd type unknown
    | choices => rfl
    | suggestions _ choices | default _ choices => exact absurd (choices given) other
  | suggestions type choices given other =>
    cases h' with
    | type unknown => exact absurd type unknown
    | choices _ given other => exact absurd (choices given) other
    | suggestions => rfl
    | default _ _ suggestions => exact absurd (suggestions given) other
  | default type choices suggestions text given =>
    cases h' with
    | type unknown => exact absurd type unknown
    | choices _ given other => exact absurd (choices given) other
    | suggestions _ _ given other => exact absurd (suggestions given) other
    | default _ _ _ text' given' => rw [Option.some.inj (given.symm.trans given')]

/-! ### The kind that a type names -/

theorem kind?_eq_none_iff : c.kind? = none ↔ c.typeName ∉ typeNames := by
  unfold kind? typeNames
  split_ifs <;> simp_all

theorem kind?_eq_some_iff {kind : OptionKind} : c.kind? = some kind ↔ c.Names kind := by
  constructor
  · intro h
    unfold kind? at h
    split_ifs at h with hn hs hb he <;> obtain rfl := Option.some.inj h
    · exact .number hn
    · exact .string hs
    · exact .boolean hb
    · exact .enum he
  · intro h
    cases h with
    | number h | string h | enum h | boolean h => simp [kind?, h]

namespace Names

variable {kind : OptionKind}

theorem name_eq (h : c.Names kind) : kind.name = c.typeName := by
  cases h with
  | number h | string h | enum h | boolean h => exact h.symm

/-- Only a number or a string can have suggestions. -/
theorem takesSource_iff (h : c.Names kind) :
    kind.takesSource = true ↔ c.typeName = "number" ∨ c.typeName = "string" := by
  cases h with
  | number h | string h | enum h | boolean h => simp [h, OptionKind.takesSource]

theorem source?_eq (h : c.Names kind) : kind.source? = none := by
  cases h with
  | number h | string h | enum h | boolean h => rfl

/-- Choices that are declared for an enum only are those of the kind. -/
theorem choices_eq (h : c.Names kind) (choices : c.choices ≠ [] → c.typeName = "enum") :
    kind.choices = c.choices := by
  have none : c.typeName ≠ "enum" → [] = c.choices := fun other =>
    (Classical.not_not.mp fun given => other (choices fun hnil => given hnil.symm))
  cases h with
  | enum h => rfl
  | number h | string h | boolean h => exact none (by rw [h]; decide)

end Names

/-! ### What becomes of a declared option -/

/-- The kind with the source of the suggestions, if there are any. -/
def sourced (c : OptionConfig) (id : Nat) (kind : OptionKind) : OptionKind :=
  ((c.source? id).map fun source => kind.withSource source).getD kind

theorem source?_eq_none_iff {id : Nat} : c.source? id = none ↔ c.suggestions = [] := by
  simp [source?]

section Sourced

variable (id : Nat) (kind : OptionKind)

@[simp] theorem name_sourced : (c.sourced id kind).name = kind.name := by
  unfold sourced
  cases c.source? id <;> simp

@[simp] theorem choices_sourced : (c.sourced id kind).choices = kind.choices := by
  unfold sourced
  cases c.source? id <;> simp

@[simp] theorem read?_sourced (text : String) :
    (c.sourced id kind).read? text = kind.read? text := by
  unfold sourced
  cases c.source? id <;> simp

/-- A kind without a source gets the one of the suggestions. -/
theorem source?_sourced (none : kind.source? = none)
    (takes : c.suggestions ≠ [] → kind.takesSource = true) :
    (c.sourced id kind).source? = c.source? id := by
  unfold sourced
  cases hs : c.source? id with
  | none => simpa using none
  | some source =>
    have given : c.suggestions ≠ [] := fun hnil => by
      rw [source?_eq_none_iff.mpr hnil] at hs
      cases hs
    have takes := takes given
    cases kind with
    | number | string => rfl
    | boolean | enum => cases takes

end Sourced

/-- A declaration describes the option that is made of its parts. -/
theorem describes_sourced {kind : OptionKind} (h : c.InOrder) (names : c.Names kind) (id : Nat) :
    c.Describes ⟨c.name, c.title, c.multiple, c.default, c.sourced id kind⟩ := by
  have source : (c.sourced id kind).source? = c.source? id :=
    source?_sourced id kind names.source?_eq fun given =>
      names.takesSource_iff.mpr (h.suggestions given)
  refine ⟨rfl, rfl, rfl, rfl, ?_, ?_, ?_, ?_⟩
  · rw [name_sourced, names.name_eq]
  · rw [choices_sourced, names.choices_eq h.choices]
  · rw [source, Option.isSome_iff_ne_none, ne_eq, source?_eq_none_iff]
  · intro offering hoffering typed
    rw [source] at hoffering
    unfold source? at hoffering
    split at hoffering
    · cases hoffering
    · obtain rfl := Option.some.inj hoffering
      simp only [Source.listed, List.filter_map, Function.comp_def, Text.startsWith_eq_decide]
      rfl

/-- The checks of a declared option whose type has a name. -/
theorem build_of_kind? {kind : OptionKind} (h : c.kind? = some kind) (id : Nat) :
    c.build id =
      if c.choices ≠ [] ∧ c.typeName ≠ "enum" then .error (.choicesNotAllowed c.name)
      else if c.suggestions ≠ [] ∧ ¬kind.takesSource = true then
        .error (.suggestionsNotAllowed c.name)
      else
        match c.default.filter fun text => (kind.read? text).isNone with
        | some text => .error (.invalidDefault c.name kind.name text)
        | none => .ok ⟨c.name, c.title, c.multiple, c.default, c.sourced id kind⟩ := by
  unfold build
  rw [h]
  refine if_congr (by simp) rfl (if_congr (by simp) rfl ?_)
  change (match c.default.filter fun text => ((c.sourced id kind).read? text).isNone with
    | some text => .error (.invalidDefault c.name (c.sourced id kind).name text)
    | none => .ok ⟨c.name, c.title, c.multiple, c.default, c.sourced id kind⟩ :
      Except ConfigError OptionSpec) = _
  simp only [read?_sourced, name_sourced]

/-- **What becomes of a declared option.** -/
theorem build_cases (c : OptionConfig) (id : Nat) :
    (∃ e, c.RefusedFor e ∧ c.build id = .error e) ∨
      c.InOrder ∧ ∃ spec, c.Describes spec ∧ c.build id = .ok spec := by
  -- the checks one after the other, each under the condition that those before are passed
  cases hkind : c.kind? with
  | none => exact .inl ⟨_, .type (kind?_eq_none_iff.mp hkind), by simp [build, hkind]⟩
  | some kind =>
    have names := kind?_eq_some_iff.mp hkind
    have type : c.typeName ∈ typeNames := by
      by_contra unknown
      rw [kind?_eq_none_iff.mpr unknown] at hkind
      cases hkind
    rw [build_of_kind? hkind]
    by_cases hchoices : c.choices ≠ [] ∧ c.typeName ≠ "enum"
    · rw [if_pos hchoices]
      exact .inl ⟨_, .choices type hchoices.1 hchoices.2, rfl⟩
    rw [if_neg hchoices]
    have choices : c.choices ≠ [] → c.typeName = "enum" := by
      simpa only [not_and, ne_eq, not_not] using hchoices
    by_cases hsuggestions : c.suggestions ≠ [] ∧ ¬kind.takesSource = true
    · rw [if_pos hsuggestions]
      rw [names.takesSource_iff] at hsuggestions
      exact .inl ⟨_, .suggestions type choices hsuggestions.1 hsuggestions.2, rfl⟩
    rw [if_neg hsuggestions]
    rw [names.takesSource_iff] at hsuggestions
    have suggestions : c.suggestions ≠ [] → c.typeName = "number" ∨ c.typeName = "string" := by
      simpa only [not_and, not_not] using hsuggestions
    cases hdefault : c.default.filter fun text => (kind.read? text).isNone with
    | some text =>
      obtain ⟨given, wrong⟩ := Option.filter_eq_some_iff.mp hdefault
      refine .inl ⟨_, .default type choices suggestions text given ?_, ?_⟩
      · rintro ⟨kind', names', taken⟩
        obtain rfl : kind = kind' :=
          Option.some.inj (hkind.symm.trans (kind?_eq_some_iff.mpr names'))
        rw [Option.isNone_iff_eq_none.mp wrong] at taken
        cases taken
      · rw [names.name_eq]
    | none =>
      have inOrder : c.InOrder := by
        refine ⟨type, choices, suggestions, fun text given => ⟨kind, names, ?_⟩⟩
        have := Option.filter_eq_none_iff.mp hdefault text given
        simpa [Option.isSome_iff_ne_none] using this
      exact .inr ⟨inOrder, _, describes_sourced inOrder names id, rfl⟩

theorem build_eq_error_iff {id : Nat} {e : ConfigError} :
    c.build id = .error e ↔ c.RefusedFor e := by
  rcases c.build_cases id with ⟨e', refused, hbuild⟩ | ⟨inOrder, spec, -, hbuild⟩
  · rw [hbuild]
    constructor
    · intro h
      rwa [← Except.error.inj h]
    · intro h
      rw [refused.unique h]
  · rw [hbuild]
    exact iff_of_false nofun inOrder.not_refused

theorem exists_build_eq_ok_iff {id : Nat} : (∃ spec, c.build id = .ok spec) ↔ c.InOrder := by
  rcases c.build_cases id with ⟨e, refused, hbuild⟩ | ⟨inOrder, spec, -, hbuild⟩
  · rw [hbuild]
    exact iff_of_false nofun fun inOrder => inOrder.not_refused refused
  · exact iff_of_true ⟨spec, hbuild⟩ inOrder

theorem describes_of_build {id : Nat} {spec : OptionSpec} (h : c.build id = .ok spec) :
    c.Describes spec := by
  rcases c.build_cases id with ⟨e, refused, hbuild⟩ | ⟨inOrder, spec', describes, hbuild⟩
  · rw [hbuild] at h
    cases h
  · rw [hbuild] at h
    rwa [← Except.ok.inj h]

/-- The default of a declaration in order is a value of the option that it describes. -/
theorem InOrder.isSome_read?_default (h : c.InOrder) {spec : OptionSpec}
    (describes : c.Describes spec) {text : String} (given : spec.default = some text) :
    (spec.read? text).isSome = true := by
  obtain ⟨kind, names, taken⟩ := h.default text (describes.default ▸ given)
  -- the option may have a source by now, but its type and its choices are those declared
  have same : spec.kind.read? text = kind.read? text :=
    OptionKind.read?_congr (describes.type.trans names.name_eq.symm)
      (describes.choices.trans (names.choices_eq h.choices).symm) text
  rw [OptionSpec.read?, same]
  exact taken

end OptionConfig

/-! ### The options together -/

/-- **What is wrong with a name.** A blank counts before a character with a meaning in queries. -/
inductive NameFault.Of (name : String) : NameFault → Prop
  | empty (h : name = "") : Of name .empty
  | blank (h : ∃ c ∈ name.toList, Text.isBlank c = true) : Of name .blank
  | reserved (free : ∀ c ∈ name.toList, Text.isBlank c = false)
      (h : ∃ c ∈ name.toList, c = ':' ∨ c = '"' ∨ c = '\\') : Of name .reserved

theorem nameFault?_eq_some_iff {name : String} {fault : NameFault} :
    nameFault? name = some fault ↔ NameFault.Of name fault := by
  unfold nameFault?
  constructor
  · intro h
    split_ifs at h with he hb hr <;> obtain rfl := Option.some.inj h
    · exact .empty (String.isEmpty_iff.mp he)
    · exact .blank (List.any_eq_true.mp hb)
    · exact .reserved (by simpa using hb) (by simpa [isReserved, or_assoc] using hr)
  · -- a character with a fault is there only if the name is not empty
    have given : ∀ c ∈ name.toList, name.isEmpty = false := by
      intro c hc
      rw [← Bool.not_eq_true, String.isEmpty_iff]
      rintro rfl
      cases hc
    rintro (rfl | ⟨c, hc, hblank⟩ | ⟨free, c, hc, hreserved⟩)
    · rfl
    · have blank : name.toList.any Text.isBlank = true := List.any_eq_true.mpr ⟨c, hc, hblank⟩
      simp [given c hc, blank]
    · have unblank : name.toList.any Text.isBlank = false := by simpa using free
      have reserved : name.toList.any isReserved = true :=
        List.any_eq_true.mpr ⟨c, hc, by simpa [isReserved, or_assoc] using hreserved⟩
      simp [given c hc, unblank, reserved]

/-- A name with a fault cannot be typed. -/
theorem NameFault.Of.not_typeable {name : String} {fault : NameFault} (h : Of name fault) :
    ¬Typeable name := by
  rw [← nameFault?_eq_none_iff_typeable, nameFault?_eq_some_iff.mpr h]
  exact Option.some_ne_none fault

/-- **Declared options that go together**: their names can be typed and are not repeated, and there
are choices where they are needed. -/
structure Compatible (options : List OptionConfig) : Prop where
  names : ∀ o ∈ options, Typeable o.name
  choices : ∀ o ∈ options, o.typeName = "enum" → o.choices ≠ []
  distinct : (options.map OptionConfig.name).Nodup

/-- **Why a declared option does not go with those before it.** The name is looked at before the
choices, and both before it is compared with other names. -/
inductive OptionConfig.ClashesFor (before : List OptionConfig) (o : OptionConfig) :
    SchemaError → Prop
  | name (fault : NameFault) (h : NameFault.Of o.name fault) :
      ClashesFor before o (.invalidName o.name fault)
  | choices (name : Typeable o.name) (type : o.typeName = "enum") (none : o.choices = []) :
      ClashesFor before o (.emptyChoices o.name)
  | duplicate (name : Typeable o.name) (choices : o.typeName = "enum" → o.choices ≠ [])
      (taken : o.name ∈ before.map OptionConfig.name) : ClashesFor before o (.duplicateName o.name)

section Compatible

variable {before options : List OptionConfig} {o : OptionConfig} {spec : OptionSpec}
  {specs rest : List OptionSpec}

theorem compatible_nil : Compatible [] := ⟨by simp, by simp, by simp⟩

theorem Compatible.left (h : Compatible (before ++ options)) : Compatible before where
  names p hp := h.names p (List.mem_append_left options hp)
  choices p hp := h.choices p (List.mem_append_left options hp)
  distinct := by
    have := h.distinct
    rw [List.map_append] at this
    exact (List.nodup_append.mp this).1

/-- One more option goes with those before it unless there is a reason against it. -/
theorem compatible_snoc_iff :
    Compatible (before ++ [o]) ↔ Compatible before ∧ ∀ e, ¬o.ClashesFor before e := by
  constructor
  · intro h
    have last : o ∈ before ++ [o] := by simp
    refine ⟨h.left, fun e clash => ?_⟩
    cases clash with
    | name fault hfault => exact hfault.not_typeable (h.names o last)
    | choices _ type none => exact h.choices o last type none
    | duplicate _ _ taken =>
      have := h.distinct
      rw [List.map_append, List.nodup_append] at this
      exact this.2.2 o.name taken o.name (by simp) rfl
  · rintro ⟨h, clear⟩
    have name : Typeable o.name := by
      rw [← nameFault?_eq_none_iff_typeable]
      by_contra faulty
      obtain ⟨fault, hfault⟩ := Option.ne_none_iff_exists'.mp faulty
      exact clear _ (.name fault (nameFault?_eq_some_iff.mp hfault))
    have choices : o.typeName = "enum" → o.choices ≠ [] :=
      fun type none => clear _ (.choices name type none)
    have free : o.name ∉ before.map OptionConfig.name :=
      fun taken => clear _ (.duplicate name choices taken)
    refine ⟨?_, ?_, ?_⟩
    · simpa [or_imp, forall_and] using ⟨h.names, name⟩
    · simpa [or_imp, forall_and] using ⟨h.choices, choices⟩
    · rw [List.map_append, List.nodup_append]
      refine ⟨h.distinct, by simp, ?_⟩
      intro taken htaken last hlast heq
      obtain rfl : last = o.name := by simpa using hlast
      exact free (heq ▸ htaken)

/-- An option clashes for one reason. -/
theorem OptionConfig.ClashesFor.unique {e e' : SchemaError} (h : o.ClashesFor before e)
    (h' : o.ClashesFor before e') : e = e' := by
  cases h with
  | name fault hfault =>
    cases h' with
    | name fault' hfault' =>
      rw [← nameFault?_eq_some_iff] at hfault hfault'
      rw [Option.some.inj (hfault.symm.trans hfault')]
    | choices name | duplicate name => exact absurd name hfault.not_typeable
  | choices name type none =>
    cases h' with
    | name fault hfault => exact absurd name hfault.not_typeable
    | choices => rfl
    | duplicate _ choices => exact absurd none (choices type)
  | duplicate name choices =>
    cases h' with
    | name fault hfault => exact absurd name hfault.not_typeable
    | choices _ type none => exact absurd none (choices type)
    | duplicate => rfl

/-- The choices that an option lacks are those that its declaration lacks. -/
theorem OptionConfig.Describes.lacksChoices_iff (h : o.Describes spec) :
    spec.lacksChoices = true ↔ o.typeName = "enum" ∧ o.choices = [] := by
  rw [← h.type, ← h.choices]
  unfold OptionSpec.lacksChoices
  cases hkind : spec.kind with
  | number | string | boolean => simp [OptionKind.name]
  | enum choices => cases choices <;> simp [OptionKind.name, OptionKind.choices]

/-- The names of options are those of their declarations. -/
theorem map_name_of_describes (h : List.Forall₂ OptionConfig.Describes before specs) :
    specs.map OptionSpec.name = before.map OptionConfig.name := by
  induction h with
  | nil => rfl
  | cons describes _ ih => rw [List.map_cons, List.map_cons, describes.name, ih]

/-- **One step of putting a schema together**: the next option clashes with those before it, or it
joins them. -/
theorem OptionConfig.fault?_cons (rest : List OptionSpec)
    (hbefore : List.Forall₂ OptionConfig.Describes before specs) (h : o.Describes spec) :
    (∃ e, o.ClashesFor before e ∧ Schema.fault? specs (spec :: rest) = some e) ∨
      (∀ e, ¬o.ClashesFor before e) ∧
        Schema.fault? specs (spec :: rest) = Schema.fault? (specs ++ [spec]) rest := by
  rw [Schema.fault?, OptionSpec.fault?, h.name]
  cases hname : nameFault? o.name with
  | some fault => exact .inl ⟨_, .name fault (nameFault?_eq_some_iff.mp hname), rfl⟩
  | none =>
    have name : Typeable o.name := nameFault?_eq_none_iff_typeable.mp hname
    by_cases hlacks : spec.lacksChoices = true
    · obtain ⟨type, none⟩ := h.lacksChoices_iff.mp hlacks
      exact .inl ⟨_, .choices name type none, by simp [hlacks]⟩
    · have choices : o.typeName = "enum" → o.choices ≠ [] :=
        fun type none => hlacks (h.lacksChoices_iff.mpr ⟨type, none⟩)
      have taken : (specs.any fun other => other.name == o.name) = true ↔
          o.name ∈ before.map OptionConfig.name := by
        rw [← map_name_of_describes hbefore]
        simp
      by_cases htaken : o.name ∈ before.map OptionConfig.name
      · exact .inl ⟨_, .duplicate name choices htaken, by simp [hlacks, taken.mpr htaken]⟩
      · refine .inr ⟨fun e clash => ?_, ?_⟩
        · cases clash with
          | name fault hfault => exact hfault.not_typeable name
          | choices _ type none => exact choices type none
          | duplicate _ _ htaken' => exact htaken htaken'
        · rw [← taken] at htaken
          simp [hlacks, htaken]

/-- A schema is put together of options that go together. -/
theorem fault?_eq_none_iff (hbefore : List.Forall₂ OptionConfig.Describes before specs)
    (h : List.Forall₂ OptionConfig.Describes options rest) (clear : Compatible before) :
    Schema.fault? specs rest = none ↔ Compatible (before ++ options) := by
  induction h generalizing before specs with
  | nil => simpa [Schema.fault?] using clear
  | @cons o spec options rest describes _ ih =>
    have split : before ++ o :: options = before ++ [o] ++ options := by simp
    rcases OptionConfig.fault?_cons rest hbefore describes with ⟨e, clash, heq⟩ | ⟨free, heq⟩
    · rw [heq, split]
      exact iff_of_false (Option.some_ne_none e) fun all =>
        (compatible_snoc_iff.mp all.left).2 e clash
    · rw [heq, split]
      exact ih (List.rel_append hbefore (.cons describes .nil))
        (compatible_snoc_iff.mpr ⟨clear, free⟩)

/-- **The first option that clashes with those before it decides.** -/
theorem fault?_eq_some_iff {e : SchemaError}
    (hbefore : List.Forall₂ OptionConfig.Describes before specs)
    (h : List.Forall₂ OptionConfig.Describes options rest) (clear : Compatible before) :
    Schema.fault? specs rest = some e ↔ ∃ first o later, options = first ++ o :: later ∧
      Compatible (before ++ first) ∧ o.ClashesFor (before ++ first) e := by
  induction h generalizing before specs with
  | nil => simp [Schema.fault?]
  | @cons o spec options rest describes _ ih =>
    rcases OptionConfig.fault?_cons rest hbefore describes with ⟨e', clash, heq⟩ | ⟨free, heq⟩
    · rw [heq]
      constructor
      · intro h
        obtain rfl := Option.some.inj h
        exact ⟨[], o, options, rfl, by simpa using clear, by simpa using clash⟩
      · rintro ⟨first, p, later, hsplit, all, clash'⟩
        cases first with
        | nil =>
          obtain ⟨rfl, -⟩ := List.cons.inj hsplit
          rw [List.append_nil] at clash'
          rw [clash.unique clash']
        | cons q first =>
          -- this option would have joined those before it
          obtain ⟨rfl, -⟩ := List.cons.inj hsplit
          rw [← List.singleton_append, ← List.append_assoc] at all
          exact absurd clash ((compatible_snoc_iff.mp all.left).2 e')
    · rw [heq, ih (List.rel_append hbefore (.cons describes .nil))
        (compatible_snoc_iff.mpr ⟨clear, free⟩)]
      constructor
      · rintro ⟨first, p, later, rfl, all, clash⟩
        exact ⟨o :: first, p, later, rfl, by simpa using all, by simpa using clash⟩
      · rintro ⟨first, p, later, hsplit, all, clash⟩
        cases first with
        | nil =>
          obtain ⟨rfl, -⟩ := List.cons.inj hsplit
          rw [List.append_nil] at clash
          exact absurd clash (free e)
        | cons q first =>
          obtain ⟨rfl, rfl⟩ := List.cons.inj hsplit
          exact ⟨first, p, later, rfl, by simpa using all, by simpa using clash⟩

end Compatible

/-! ### Whole declarations -/

namespace SchemaConfig

variable {c : SchemaConfig}

/-- **A sound declaration.** -/
structure Sound (c : SchemaConfig) : Prop where
  options : ∀ o ∈ c.options, o.InOrder
  together : Compatible c.options

/-- **Why a declaration is refused**: for the first option that is not in order, and if there is
none, for the first that does not go with those before it. -/
inductive RefusedFor (c : SchemaConfig) : ConfigError → Prop
  | option (before : List OptionConfig) (o : OptionConfig) (after : List OptionConfig)
      (e : ConfigError) (h : c.options = before ++ o :: after) (passed : ∀ p ∈ before, p.InOrder)
      (refused : o.RefusedFor e) : RefusedFor c e
  | together (before : List OptionConfig) (o : OptionConfig) (after : List OptionConfig)
      (e : SchemaError) (h : c.options = before ++ o :: after) (passed : ∀ p ∈ c.options, p.InOrder)
      (joined : Compatible before) (clash : o.ClashesFor before e) : RefusedFor c (.schema e)

/-- **How a declaration is loaded.** -/
structure LoadsAs (c : SchemaConfig) (outcome : Except ConfigError Schema) : Prop where
  /-- Exactly the sound declarations are accepted. -/
  accepted : (∃ schema, outcome = .ok schema) ↔ c.Sound
  /-- The options are those that are described, in their order. -/
  faithful : ∀ schema, outcome = .ok schema →
    List.Forall₂ OptionConfig.Describes c.options schema.options
  /-- Any other declaration is refused for the first reason against it. -/
  refused : ∀ e, outcome = .error e ↔ c.RefusedFor e

/-- The options that a declaration is made into, before they are put together. -/
def specs (c : SchemaConfig) (firstId : Nat) : Except ConfigError (List OptionSpec) :=
  (c.options.zipIdx firstId).mapM fun p => p.1.build p.2

theorem specs_eq_error_iff {firstId : Nat} {e : ConfigError} :
    c.specs firstId = .error e ↔ ∃ before o after, c.options = before ++ o :: after ∧
      (∀ p ∈ before, p.InOrder) ∧ o.RefusedFor e := by
  rw [specs, mapM_eq_error_iff]
  constructor
  · rintro ⟨before, p, after, hsplit, passed, refused⟩
    refine ⟨before.map Prod.fst, p.1, after.map Prod.fst, ?_, ?_, ?_⟩
    · rw [← List.map_cons, ← List.map_append, ← hsplit, List.zipIdx_map_fst]
    · intro o ho
      obtain ⟨q, hq, rfl⟩ := List.mem_map.mp ho
      exact OptionConfig.exists_build_eq_ok_iff.mp (passed q hq)
    · exact OptionConfig.build_eq_error_iff.mp refused
  · rintro ⟨before, o, after, hsplit, passed, refused⟩
    refine ⟨before.zipIdx firstId, (o, firstId + before.length),
      after.zipIdx (firstId + before.length + 1), ?_, ?_, ?_⟩
    · rw [hsplit, List.zipIdx_append, List.zipIdx_cons]
    · intro q hq
      exact OptionConfig.exists_build_eq_ok_iff.mpr (passed q.1 (List.fst_mem_of_mem_zipIdx hq))
    · exact OptionConfig.build_eq_error_iff.mpr refused

/-- If no option is refused, all are in order, and each is made into what it describes. -/
theorem of_specs_eq_ok {firstId : Nat} {made : List OptionSpec} (h : c.specs firstId = .ok made) :
    (∀ o ∈ c.options, o.InOrder) ∧ List.Forall₂ OptionConfig.Describes c.options made := by
  rw [← List.forall₂_and_left, ← List.zipIdx_map_fst firstId c.options, List.forall₂_map_left_iff]
  refine (mapM_eq_ok_iff.mp h).imp fun p spec hbuild => ?_
  exact ⟨OptionConfig.exists_build_eq_ok_iff.mp ⟨spec, hbuild⟩,
    OptionConfig.describes_of_build hbuild⟩

/-- **What becomes of a declaration**: an option is refused, or all are made and then put together
or not. -/
theorem build_cases (c : SchemaConfig) (firstId : Nat) :
    (∃ e, c.specs firstId = .error e ∧ c.build firstId = .error e) ∨
      ∃ made, c.specs firstId = .ok made ∧
        ((∃ e, Schema.fault? [] made = some e ∧ c.build firstId = .error (.schema e)) ∨
          ∃ schema, Schema.fault? [] made = none ∧ schema.options = made ∧
            c.build firstId = .ok schema) := by
  have hbuild : c.build firstId =
      (c.specs firstId).bind fun made => (Schema.ofOptions made).mapError .schema := rfl
  rw [hbuild]
  cases c.specs firstId with
  | error e => exact .inl ⟨e, rfl, rfl⟩
  | ok made =>
    refine .inr ⟨made, rfl, ?_⟩
    simp only [Except.bind, Schema.ofOptions]
    split
    · next hnone => exact .inr ⟨_, hnone, rfl, rfl⟩
    · next e hsome => exact .inl ⟨e, hsome, rfl⟩

/-- The options of a declaration that is accepted are in order, and they describe those of the
schema. -/
theorem of_build_eq_ok {firstId : Nat} {schema : Schema} (h : c.build firstId = .ok schema) :
    (∀ o ∈ c.options, o.InOrder) ∧
      List.Forall₂ OptionConfig.Describes c.options schema.options := by
  rcases c.build_cases firstId with
    ⟨e, -, hbuild⟩ | ⟨made, hspecs, ⟨e, -, hbuild⟩ | ⟨schema', -, rfl, hbuild⟩⟩
  · rw [hbuild] at h
    cases h
  · rw [hbuild] at h
    cases h
  · rw [hbuild] at h
    rw [← Except.ok.inj h]
    exact of_specs_eq_ok hspecs

/-- The options of a declaration go together exactly if the schema of them has no fault. -/
theorem compatible_iff_of_specs {made : List OptionSpec}
    (h : List.Forall₂ OptionConfig.Describes c.options made) :
    Schema.fault? [] made = none ↔ Compatible c.options := by
  simpa using fault?_eq_none_iff .nil h compatible_nil

theorem exists_build_eq_ok_iff {firstId : Nat} :
    (∃ schema, c.build firstId = .ok schema) ↔ c.Sound := by
  rcases c.build_cases firstId with ⟨e, hspecs, hbuild⟩ | ⟨made, hspecs, hrest⟩
  · rw [hbuild]
    refine iff_of_false nofun fun sound => ?_
    obtain ⟨before, o, after, hsplit, -, refused⟩ := specs_eq_error_iff.mp hspecs
    exact (sound.options o (by simp [hsplit])).not_refused refused
  · obtain ⟨passed, describes⟩ := of_specs_eq_ok hspecs
    rcases hrest with ⟨e, hsome, hbuild⟩ | ⟨schema, hnone, -, hbuild⟩
    · rw [hbuild]
      refine iff_of_false nofun fun sound => ?_
      rw [(compatible_iff_of_specs describes).mpr sound.together] at hsome
      cases hsome
    · exact iff_of_true ⟨schema, hbuild⟩ ⟨passed, (compatible_iff_of_specs describes).mp hnone⟩

theorem build_eq_error_iff {firstId : Nat} {e : ConfigError} :
    c.build firstId = .error e ↔ c.RefusedFor e := by
  rcases c.build_cases firstId with ⟨e', hspecs, hbuild⟩ | ⟨made, hspecs, hrest⟩
  · -- an option is refused on its own, and this comes before anything else
    rw [hbuild]
    obtain ⟨before, o, after, hsplit, passed, refused⟩ := specs_eq_error_iff.mp hspecs
    constructor
    · intro h
      rw [← Except.error.inj h]
      exact .option before o after e' hsplit passed refused
    · intro h
      cases h with
      | option before' o' after' _ hsplit' passed' refused' =>
        have same : c.specs firstId = .error e :=
          specs_eq_error_iff.mpr ⟨before', o', after', hsplit', passed', refused'⟩
        rw [Except.error.inj (hspecs.symm.trans same)]
      | together _ _ _ _ _ all => exact absurd refused (all o (by simp [hsplit])).not_refused
  · obtain ⟨passed, describes⟩ := of_specs_eq_ok hspecs
    have first {e : SchemaError} : Schema.fault? [] made = some e ↔ ∃ first o later,
        c.options = first ++ o :: later ∧ Compatible first ∧ o.ClashesFor first e := by
      simpa using fault?_eq_some_iff .nil describes compatible_nil
    have alone : c.RefusedFor e ↔ ∃ e', e = .schema e' ∧ Schema.fault? [] made = some e' := by
      constructor
      · intro h
        cases h with
        | option before o after _ hsplit _ refused =>
          exact absurd refused (passed o (by simp [hsplit])).not_refused
        | together before o after e' hsplit _ joined clash =>
          exact ⟨e', rfl, first.mpr ⟨before, o, after, hsplit, joined, clash⟩⟩
      · rintro ⟨e', rfl, hsome⟩
        obtain ⟨before, o, after, hsplit, joined, clash⟩ := first.mp hsome
        exact .together before o after e' hsplit passed joined clash
    rw [alone]
    rcases hrest with ⟨e', hsome, hbuild⟩ | ⟨schema, hnone, -, hbuild⟩
    · rw [hbuild, hsome]
      simp [eq_comm]
    · rw [hbuild, hnone]
      simp

/-- **A declaration is accepted exactly if it is sound, is made into what it describes, and is
refused for the first reason against it.** -/
theorem build_loads (c : SchemaConfig) (firstId : Nat) : c.LoadsAs (c.build firstId) := by
  constructor
  case accepted => exact exists_build_eq_ok_iff
  case faithful => exact fun schema h => (of_build_eq_ok h).2
  case refused => exact fun e => build_eq_error_iff

/-- A repeated name is passed over as long as some option is not in order on its own, wherever that
option stands. -/
example :
    build ⟨[{ name := "tag", typeName := "string" }, { name := "tag", typeName := "number" },
      { name := "year", typeName := "date" }]⟩ 0 = .error (.unknownType "year" "date") := by
  rfl

end SchemaConfig

end Searchbar
