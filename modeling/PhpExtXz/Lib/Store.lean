/-
# PhpExtXz.Lib.Store — memory cells under identifiers that are never given out twice, and who owns them.

A `Store` holds cells. A new cell gets an identifier that no cell has had before, so that an identifier
whose cell has been freed stands for nothing ever after: a use after the release of a cell, and a second
release of it, find no cell.

`Owns` relates two stores, the cells of one of which may point to a cell of the other: no pointer leads
to a freed cell, no two cells point to the same one, and no cell is left without an owner. There is one
rule for each thing a program does with an owner and what it owns.

Nothing here mentions a particular program.
-/
import Mathlib.Data.Nat.Basic

namespace PhpExtXz

universe u v

/-! ## Stores -/

/-- Cells under identifiers; those from `next` on have not been given out. -/
structure Store (α : Type u) where
  cells : Nat → Option α
  next : Nat
  unused : ∀ i, next ≤ i → cells i = none

namespace Store

variable {α : Type u} {β : Type v}

def empty : Store α where
  cells _ := none
  next := 0
  unused _ _ := rfl

/-- The cell under an identifier, unless it was never given out or its cell has been freed. -/
def get (s : Store α) (i : Nat) : Option α := s.cells i

/-- A new cell, under the identifier `s.next`. -/
def alloc (s : Store α) (a : α) : Store α where
  cells i := if i = s.next then some a else s.cells i
  next := s.next + 1
  unused i hi := by
    rw [if_neg (by omega)]
    exact s.unused i (by omega)

/-- A cell gets new content; where there is no cell nothing happens. -/
def set (s : Store α) (i : Nat) (a : α) : Store α where
  cells j := if j = i then (s.cells i).map fun _ => a else s.cells j
  next := s.next
  unused j hj := by
    by_cases hji : j = i
    · rw [if_pos hji, ← hji, s.unused j hj]
      rfl
    · rw [if_neg hji]
      exact s.unused j hj

def free (s : Store α) (i : Nat) : Store α where
  cells j := if j = i then none else s.cells j
  next := s.next
  unused j hj := by
    by_cases hji : j = i
    · rw [if_pos hji]
    · rw [if_neg hji]
      exact s.unused j hj

variable {s : Store α} {i j : Nat} {a b : α}

@[simp]
theorem get_empty : (empty : Store α).get i = none := rfl

@[simp]
theorem get_next : s.get s.next = none := s.unused _ (le_refl _)

/-- Every cell has been given out. -/
theorem lt_next (h : s.get i = some a) : i < s.next := by
  by_contra hge
  cases (s.unused i (Nat.le_of_not_lt hge)).symm.trans h

@[simp]
theorem get_alloc_next : (s.alloc a).get s.next = some a := if_pos rfl

theorem get_alloc_of_ne (h : i ≠ s.next) : (s.alloc a).get i = s.get i := if_neg h

/-- A cell that is there keeps its content when another one is made. -/
theorem get_alloc (h : s.get i = some b) : (s.alloc a).get i = some b := by
  rw [get_alloc_of_ne, h]
  rintro rfl
  rw [get_next] at h
  cases h

/-- A cell that is there after another one was made is the new one or was there before. -/
theorem eq_or_get_of_alloc (h : (s.alloc a).get i = some b) :
    (i = s.next ∧ b = a) ∨ (i ≠ s.next ∧ s.get i = some b) := by
  by_cases hi : i = s.next
  · subst hi
    rw [get_alloc_next] at h
    exact Or.inl ⟨rfl, (Option.some.inj h).symm⟩
  · rw [get_alloc_of_ne hi] at h
    exact Or.inr ⟨hi, h⟩

theorem get_set_self (h : s.get i = some b) : (s.set i a).get i = some a := by
  show (if i = i then (s.get i).map fun _ => a else s.get i) = some a
  rw [if_pos rfl, h]
  rfl

theorem get_set_of_ne (h : j ≠ i) : (s.set i a).get j = s.get j := if_neg h

theorem eq_or_get_of_set (h : (s.set i a).get j = some b) :
    (j = i ∧ b = a ∧ ∃ old, s.get i = some old) ∨ (j ≠ i ∧ s.get j = some b) := by
  by_cases hji : j = i
  · subst hji
    have hmap : (s.get j).map (fun _ => a) = some b := by
      rw [← h]
      exact (if_pos rfl).symm
    obtain ⟨old, hold, hab⟩ := Option.map_eq_some_iff.mp hmap
    exact Or.inl ⟨rfl, hab.symm, old, hold⟩
  · rw [get_set_of_ne hji] at h
    exact Or.inr ⟨hji, h⟩

@[simp]
theorem get_free_self : (s.free i).get i = none := if_pos rfl

theorem get_free_of_ne (h : j ≠ i) : (s.free i).get j = s.get j := if_neg h

/-- A cell that is freed as soon as it is made leaves nothing. -/
@[simp]
theorem get_free_alloc : ((s.alloc a).free s.next).get i = s.get i := by
  by_cases hi : i = s.next
  · rw [hi, get_free_self, get_next]
  · rw [get_free_of_ne hi, get_alloc_of_ne hi]

theorem get_of_free (h : (s.free i).get j = some b) : j ≠ i ∧ s.get j = some b := by
  by_cases hji : j = i
  · rw [hji, get_free_self] at h
    cases h
  · rw [get_free_of_ne hji] at h
    exact ⟨hji, h⟩

end Store

/-! ## Ownership -/

/-- **Every pointer leads to a cell, and every cell has exactly one owner.** The owners are the cells of
`owners`, of which `points` tells where they point to. -/
structure Owns {α : Type u} {β : Type v} (points : α → Option Nat) (owners : Store α)
    (owned : Store β) : Prop where
  alive : ∀ {i a p}, owners.get i = some a → points a = some p → ∃ b, owned.get p = some b
  sole : ∀ {i j a b p}, owners.get i = some a → owners.get j = some b → points a = some p →
    points b = some p → i = j
  kept : ∀ {p b}, owned.get p = some b → ∃ i a, owners.get i = some a ∧ points a = some p

namespace Owns

variable {α : Type u} {β : Type v} {points : α → Option Nat} {owners : Store α} {owned : Store β}
  {i p : Nat} {a a' : α} {b b' : β}

theorem empty : Owns points (Store.empty : Store α) (Store.empty : Store β) where
  alive h := by cases h
  sole h := by cases h
  kept h := by cases h

/-- Where nothing owns anything any more, nothing is left. -/
theorem none_left (h : Owns points owners owned) (hnone : ∀ i, owners.get i = none) (p : Nat) :
    owned.get p = none := by
  match hp : owned.get p with
  | none => rfl
  | some b =>
    obtain ⟨i, a, hi, -⟩ := h.kept hp
    rw [hnone i] at hi
    cases hi

/-- An owner of nothing is made. -/
theorem alloc (h : Owns points owners owned) (ha : points a = none) :
    Owns points (owners.alloc a) owned where
  alive hi hp := by
    rcases Store.eq_or_get_of_alloc hi with ⟨-, rfl⟩ | ⟨-, hi⟩
    · rw [ha] at hp
      cases hp
    · exact h.alive hi hp
  sole hi hj hpi hpj := by
    rcases Store.eq_or_get_of_alloc hi with ⟨-, rfl⟩ | ⟨-, hi⟩
    · rw [ha] at hpi
      cases hpi
    · rcases Store.eq_or_get_of_alloc hj with ⟨-, rfl⟩ | ⟨-, hj⟩
      · rw [ha] at hpj
        cases hpj
      · exact h.sole hi hj hpi hpj
  kept hp := by
    obtain ⟨i, a', hi, hpoints⟩ := h.kept hp
    exact ⟨i, a', Store.get_alloc hi, hpoints⟩

/-- An owner is made together with what it owns. -/
theorem alloc_both (h : Owns points owners owned) (ha : points a = some owned.next) :
    Owns points (owners.alloc a) (owned.alloc b) where
  alive hi hp := by
    rcases Store.eq_or_get_of_alloc hi with ⟨-, rfl⟩ | ⟨-, hi⟩
    · rw [ha] at hp
      obtain rfl := Option.some.inj hp
      exact ⟨b, Store.get_alloc_next⟩
    · obtain ⟨b', hb'⟩ := h.alive hi hp
      exact ⟨b', Store.get_alloc hb'⟩
  sole {i j a₁ a₂ p} hi hj hpi hpj := by
    -- what is older does not point to the new cell
    have hold : ∀ {k a'}, owners.get k = some a' → points a' = some owned.next → False := by
      intro k a' hk hpoints
      obtain ⟨b', hb'⟩ := h.alive hk hpoints
      rw [Store.get_next] at hb'
      cases hb'
    rcases Store.eq_or_get_of_alloc hi with ⟨rfl, rfl⟩ | ⟨-, hi'⟩
    · rcases Store.eq_or_get_of_alloc hj with ⟨rfl, rfl⟩ | ⟨-, hj'⟩
      · rfl
      · rw [ha] at hpi
        obtain rfl := Option.some.inj hpi
        exact (hold hj' hpj).elim
    · rcases Store.eq_or_get_of_alloc hj with ⟨rfl, rfl⟩ | ⟨-, hj'⟩
      · rw [ha] at hpj
        obtain rfl := Option.some.inj hpj
        exact (hold hi' hpi).elim
      · exact h.sole hi' hj' hpi hpj
  kept hp := by
    rcases Store.eq_or_get_of_alloc hp with ⟨rfl, rfl⟩ | ⟨-, hp⟩
    · exact ⟨owners.next, a, Store.get_alloc_next, ha⟩
    · obtain ⟨i, a', hi, hpoints⟩ := h.kept hp
      exact ⟨i, a', Store.get_alloc hi, hpoints⟩

/-- An owner changes, but not in what it points to. -/
theorem set (h : Owns points owners owned) (hi : owners.get i = some a)
    (hsame : points a' = points a) : Owns points (owners.set i a') owned where
  alive hj hp := by
    rcases Store.eq_or_get_of_set hj with ⟨-, rfl, -⟩ | ⟨-, hj⟩
    · exact h.alive hi (hsame ▸ hp)
    · exact h.alive hj hp
  sole hj hk hpj hpk := by
    rcases Store.eq_or_get_of_set hj with ⟨rfl, rfl, -⟩ | ⟨-, hj'⟩
    · rcases Store.eq_or_get_of_set hk with ⟨rfl, rfl, -⟩ | ⟨-, hk'⟩
      · rfl
      · exact h.sole hi hk' (hsame ▸ hpj) hpk
    · rcases Store.eq_or_get_of_set hk with ⟨rfl, rfl, -⟩ | ⟨-, hk'⟩
      · exact h.sole hj' hi hpj (hsame ▸ hpk)
      · exact h.sole hj' hk' hpj hpk
  kept hp := by
    obtain ⟨j, a'', hj, hpoints⟩ := h.kept hp
    by_cases hji : j = i
    · subst hji
      obtain rfl := Option.some.inj (hi.symm.trans hj)
      exact ⟨j, a', Store.get_set_self hi, hsame.trans hpoints⟩
    · exact ⟨j, a'', (Store.get_set_of_ne hji).trans hj, hpoints⟩

/-- What is owned changes. -/
theorem set_owned (h : Owns points owners owned) (p : Nat) (b' : β) :
    Owns points owners (owned.set p b') where
  alive {i a q} hi hq := by
    obtain ⟨b, hb⟩ := h.alive hi hq
    by_cases hqp : q = p
    · subst hqp
      exact ⟨b', Store.get_set_self hb⟩
    · exact ⟨b, (Store.get_set_of_ne hqp).trans hb⟩
  sole := h.sole
  kept hq := by
    rcases Store.eq_or_get_of_set hq with ⟨rfl, -, old, hold⟩ | ⟨-, hq⟩
    · exact h.kept hold
    · exact h.kept hq

/-- An owner of nothing goes. -/
theorem free (h : Owns points owners owned) (hi : owners.get i = some a) (ha : points a = none) :
    Owns points (owners.free i) owned where
  alive hj hp := h.alive (Store.get_of_free hj).2 hp
  sole hj hk := h.sole (Store.get_of_free hj).2 (Store.get_of_free hk).2
  kept hp := by
    obtain ⟨j, a', hj, hpoints⟩ := h.kept hp
    refine ⟨j, a', ?_, hpoints⟩
    rw [Store.get_free_of_ne, hj]
    rintro rfl
    obtain rfl := Option.some.inj (hi.symm.trans hj)
    rw [ha] at hpoints
    cases hpoints

/-- What is owned is the same, however it came to be. -/
theorem congr {owned' : Store β} (h : Owns points owners owned) (hsame : ∀ p, owned'.get p = owned.get p) :
    Owns points owners owned' where
  alive hi hp := by
    rw [hsame]
    exact h.alive hi hp
  sole := h.sole
  kept hp := by
    rw [hsame] at hp
    exact h.kept hp

/-- An owner goes together with what it owns. -/
theorem free_both (h : Owns points owners owned) (hi : owners.get i = some a) (ha : points a = some p) :
    Owns points (owners.free i) (owned.free p) where
  alive {j a' q} hj hq := by
    obtain ⟨hji, hj⟩ := Store.get_of_free hj
    obtain ⟨b, hb⟩ := h.alive hj hq
    refine ⟨b, ?_⟩
    rw [Store.get_free_of_ne, hb]
    rintro rfl
    exact hji (h.sole hj hi hq ha)
  sole hj hk := h.sole (Store.get_of_free hj).2 (Store.get_of_free hk).2
  kept {q b} hq := by
    obtain ⟨hqp, hq⟩ := Store.get_of_free hq
    obtain ⟨j, a', hj, hpoints⟩ := h.kept hq
    refine ⟨j, a', ?_, hpoints⟩
    rw [Store.get_free_of_ne, hj]
    rintro rfl
    obtain rfl := Option.some.inj (hi.symm.trans hj)
    rw [ha] at hpoints
    exact hqp (Option.some.inj hpoints).symm

end Owns

end PhpExtXz
