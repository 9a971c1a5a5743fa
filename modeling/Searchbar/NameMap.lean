/-!
# Maps from names

A **name map** holds one value per name, its entries in the order of their names. The order is by
code point, so it is also the order of the names' UTF-8 bytes. Because the entries are ascending,
a map is determined by what it holds: two maps that answer every `get?` alike are equal
(`NameMap.ext_get?`).

* `get?_insert_self` and `get?_insert_of_ne` say what `insert` does through `get?`.
-/

namespace Searchbar

/-- **A map from names**, by its entries in ascending order of their names. -/
structure NameMap (α : Type) where
  entries : List (String × α)
  ascending : entries.Pairwise (fun a b => a.1 < b.1)
  deriving DecidableEq

namespace NameMap

variable {α : Type}

/-- The map without entries. -/
def empty : NameMap α := ⟨[], .nil⟩

instance : Inhabited (NameMap α) := ⟨empty⟩

/-- Whether there is no entry. -/
def isEmpty (m : NameMap α) : Bool := m.entries.isEmpty

/-- The names that have a value. -/
def keys (m : NameMap α) : List String := m.entries.map Prod.fst

/-! ### Entry lists -/

/-- The value of `name` in a list of entries. -/
def lookup (name : String) : List (String × α) → Option α
  | [] => none
  | (k, v) :: rest => if k = name then some v else lookup name rest

/-- A list of entries with `name` set to `v`, in its place or at the place where it belongs. -/
def insertEntry (name : String) (v : α) : List (String × α) → List (String × α)
  | [] => [(name, v)]
  | (k, w) :: rest =>
    if name < k then (name, v) :: (k, w) :: rest
    else if name = k then (name, v) :: rest
    else (k, w) :: insertEntry name v rest

theorem mem_insertEntry {name : String} {v : α} {e : String × α} {l : List (String × α)} :
    e ∈ insertEntry name v l → e = (name, v) ∨ e ∈ l := by
  induction l with
  | nil => simp [insertEntry]
  | cons hd tl ih =>
    obtain ⟨k, w⟩ := hd
    rw [insertEntry]
    split
    · simp only [List.mem_cons]; exact id
    · split
      · simp only [List.mem_cons]; exact fun h => h.imp_right .inr
      · simp only [List.mem_cons]
        rintro (h | h)
        · exact .inr (.inl h)
        · exact (ih h).elim .inl fun h => .inr (.inr h)

theorem lt_of_not_lt_of_ne {a b : String} (h : ¬a < b) (hne : a ≠ b) : b < a := by
  by_cases hba : b < a
  · exact hba
  · exact absurd (String.le_antisymm (String.not_lt.mp hba) (String.not_lt.mp h)) hne

theorem insertEntry_ascending (name : String) (v : α) {l : List (String × α)}
    (h : l.Pairwise fun a b => a.1 < b.1) :
    (insertEntry name v l).Pairwise fun a b => a.1 < b.1 := by
  induction l with
  | nil => simp [insertEntry]
  | cons hd tl ih =>
    obtain ⟨k, w⟩ := hd
    rw [List.pairwise_cons] at h
    rw [insertEntry]
    split
    · next hlt =>
      refine List.pairwise_cons.mpr ⟨fun e he => ?_, List.pairwise_cons.mpr h⟩
      rcases List.mem_cons.mp he with rfl | he
      · exact hlt
      · exact String.lt_trans hlt (h.1 e he)
    · next hlt =>
      split
      · next heq => subst heq; exact List.pairwise_cons.mpr h
      · next hne =>
        refine List.pairwise_cons.mpr ⟨fun e he => ?_, ih h.2⟩
        rcases mem_insertEntry he with rfl | he
        · exact lt_of_not_lt_of_ne hlt hne
        · exact h.1 e he

theorem lookup_insertEntry_self (name : String) (v : α) (l : List (String × α)) :
    lookup name (insertEntry name v l) = some v := by
  induction l with
  | nil => simp [insertEntry, lookup]
  | cons hd tl ih =>
    obtain ⟨k, w⟩ := hd
    rw [insertEntry]
    split
    · simp [lookup]
    · split
      · simp [lookup]
      · next hne => simp [lookup, Ne.symm hne, ih]

theorem lookup_insertEntry_of_ne {name other : String} (hne : other ≠ name) (v : α)
    (l : List (String × α)) : lookup other (insertEntry name v l) = lookup other l := by
  induction l with
  | nil => simp [insertEntry, lookup, Ne.symm hne]
  | cons hd tl ih =>
    obtain ⟨k, w⟩ := hd
    rw [insertEntry]
    split
    · simp [lookup, Ne.symm hne]
    · split
      · next heq => subst heq; simp [lookup, Ne.symm hne]
      · by_cases hk : k = other <;> simp [lookup, hk, ih]

theorem mem_of_lookup {name : String} {v : α} {l : List (String × α)}
    (h : lookup name l = some v) : (name, v) ∈ l := by
  induction l with
  | nil => cases h
  | cons hd tl ih =>
    obtain ⟨k, w⟩ := hd
    rw [lookup] at h
    split at h
    · next hk => cases h; subst hk; exact List.mem_cons_self
    · exact List.mem_cons_of_mem _ (ih h)

/-! ### Operations -/

/-- The value of `name`. -/
def get? (m : NameMap α) (name : String) : Option α := lookup name m.entries

/-- Whether `name` has a value. -/
def contains (m : NameMap α) (name : String) : Bool := (m.get? name).isSome

/-- The map with `name` set to `v`. -/
def insert (m : NameMap α) (name : String) (v : α) : NameMap α :=
  ⟨insertEntry name v m.entries, insertEntry_ascending name v m.ascending⟩

/-- The map of a list of entries, the last one winning where a name is repeated. -/
def ofList (l : List (String × α)) : NameMap α :=
  l.foldl (fun m e => m.insert e.1 e.2) empty

@[simp] theorem get?_empty (name : String) : (empty : NameMap α).get? name = none := rfl

@[simp] theorem get?_insert_self (m : NameMap α) (name : String) (v : α) :
    (m.insert name v).get? name = some v :=
  lookup_insertEntry_self name v m.entries

theorem get?_insert_of_ne (m : NameMap α) {name other : String} (h : other ≠ name) (v : α) :
    (m.insert name v).get? other = m.get? other :=
  lookup_insertEntry_of_ne h v m.entries

theorem get?_insert (m : NameMap α) (name other : String) (v : α) :
    (m.insert name v).get? other = if other = name then some v else m.get? other := by
  split
  · next h => subst h; exact get?_insert_self m other v
  · next h => exact get?_insert_of_ne m h v

theorem lookup_eq_none_of_lt {name : String} {l : List (String × α)}
    (h : ∀ e ∈ l, name < e.1) : lookup name l = none := by
  induction l with
  | nil => rfl
  | cons hd tl ih =>
    obtain ⟨k, w⟩ := hd
    have hk : k ≠ name := fun heq => String.lt_irrefl name (heq ▸ h (k, w) (by simp))
    simp only [lookup, hk, if_false]
    exact ih fun e he => h e (List.mem_cons_of_mem _ he)

theorem entries_eq_of_lookup {l₁ l₂ : List (String × α)}
    (h₁ : l₁.Pairwise fun a b => a.1 < b.1) (h₂ : l₂.Pairwise fun a b => a.1 < b.1)
    (h : ∀ name, lookup name l₁ = lookup name l₂) : l₁ = l₂ := by
  induction l₁ generalizing l₂ with
  | nil =>
    cases l₂ with
    | nil => rfl
    | cons hd tl => have := h hd.1; simp [lookup] at this
  | cons a t₁ ih =>
    cases l₂ with
    | nil => have := h a.1; simp [lookup] at this
    | cons b t₂ =>
      obtain ⟨k₁, v₁⟩ := a
      obtain ⟨k₂, v₂⟩ := b
      rw [List.pairwise_cons] at h₁ h₂
      -- The first names agree: a smaller one would have a value in one list only.
      have hk : k₁ = k₂ := by
        by_cases hlt : k₁ < k₂
        · have hn : lookup k₁ ((k₂, v₂) :: t₂) = none :=
            lookup_eq_none_of_lt fun e he => by
              rcases List.mem_cons.mp he with rfl | he
              · exact hlt
              · exact String.lt_trans hlt (h₂.1 e he)
          have := h k₁
          rw [hn] at this
          simp [lookup] at this
        · by_cases hgt : k₂ < k₁
          · have hn : lookup k₂ ((k₁, v₁) :: t₁) = none :=
              lookup_eq_none_of_lt fun e he => by
                rcases List.mem_cons.mp he with rfl | he
                · exact hgt
                · exact String.lt_trans hgt (h₁.1 e he)
            have := h k₂
            rw [hn] at this
            simp [lookup] at this
          · exact String.le_antisymm (String.not_lt.mp hgt) (String.not_lt.mp hlt)
      subst hk
      have hv : v₁ = v₂ := by have := h k₁; simpa [lookup] using this
      subst hv
      congr 1
      refine ih h₁.2 h₂.2 fun name => ?_
      by_cases hn : k₁ = name
      · subst hn
        rw [lookup_eq_none_of_lt h₁.1, lookup_eq_none_of_lt h₂.1]
      · have := h name
        simpa [lookup, hn] using this

/-- **A map is what it holds.** -/
theorem ext_get? {m₁ m₂ : NameMap α} (h : ∀ name, m₁.get? name = m₂.get? name) : m₁ = m₂ := by
  cases m₁ with
  | mk l₁ h₁ =>
    cases m₂ with
    | mk l₂ h₂ =>
      have : l₁ = l₂ := entries_eq_of_lookup h₁ h₂ h
      subst this
      rfl

end NameMap

end Searchbar
