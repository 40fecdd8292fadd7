/-
# PhpExtXz.Lib.Steps — a relation between states, followed along a list of labels.

`Steps R a xs b` says that `R` leads from `a` to `b` along the labels `xs`. It is made for comparing two
ways of cutting the same labels into pieces: a run along a concatenation is a run along the first part
and then one along the second (`steps_append_iff`), so that how a list was cut does not matter.

Nothing here mentions a particular program.
-/
import Mathlib.Data.List.Basic

namespace PhpExtXz

universe u v

variable {α : Type u} {ι : Type v} {R R' : α → ι → α → Prop} {a b c : α} {x : ι} {xs ys : List ι}

/-- `R` leads from one state to another along the labels. -/
inductive Steps (R : α → ι → α → Prop) : α → List ι → α → Prop
  | nil {a : α} : Steps R a [] a
  | cons {a b c : α} {x : ι} {xs : List ι} : R a x b → Steps R b xs c → Steps R a (x :: xs) c

@[simp]
theorem steps_nil_iff : Steps R a [] b ↔ b = a := by
  constructor
  · intro h
    cases h
    rfl
  · rintro rfl
    exact .nil

theorem steps_cons_iff : Steps R a (x :: xs) c ↔ ∃ b, R a x b ∧ Steps R b xs c := by
  constructor
  · intro h
    cases h with
    | cons hstep hrest => exact ⟨_, hstep, hrest⟩
  · rintro ⟨b, hstep, hrest⟩
    exact .cons hstep hrest

/-- **Along a concatenation.** -/
theorem steps_append_iff : Steps R a (xs ++ ys) c ↔ ∃ b, Steps R a xs b ∧ Steps R b ys c := by
  induction xs generalizing a with
  | nil =>
    constructor
    · exact fun h => ⟨a, .nil, h⟩
    · rintro ⟨b, hnil, h⟩
      obtain rfl := steps_nil_iff.mp hnil
      exact h
  | cons x xs ih =>
    rw [List.cons_append, steps_cons_iff]
    constructor
    · rintro ⟨b, hstep, hrest⟩
      obtain ⟨d, hxs, hys⟩ := ih.mp hrest
      exact ⟨d, .cons hstep hxs, hys⟩
    · rintro ⟨d, hxs, hys⟩
      obtain ⟨b, hstep, hrest⟩ := steps_cons_iff.mp hxs
      exact ⟨b, hstep, ih.mpr ⟨d, hrest, hys⟩⟩

/-- Steps along labels that are sent to labels of another relation. -/
theorem steps_map_iff {κ : Type v} {S : α → κ → α → Prop} {f : ι → κ} (hf : ∀ {a x b}, S a (f x) b ↔ R a x b) :
    Steps S a (xs.map f) b ↔ Steps R a xs b := by
  induction xs generalizing a with
  | nil => rw [List.map_nil, steps_nil_iff, steps_nil_iff]
  | cons x xs ih =>
    rw [List.map_cons, steps_cons_iff, steps_cons_iff]
    constructor
    · rintro ⟨b, hstep, hrest⟩
      exact ⟨b, hf.mp hstep, ih.mp hrest⟩
    · rintro ⟨b, hstep, hrest⟩
      exact ⟨b, hf.mpr hstep, ih.mpr hrest⟩

end PhpExtXz
