/-
# PhpExtXz.Lib.Splits — cutting a list into members.

A list may begin with members of a class one after the other, and end with a rest that does not begin with
one. If the class is prefix free, then there is only one way to cut it (`Splits.unique`).

Nothing here mentions a particular program.
-/
import Mathlib.Data.List.Basic

namespace PhpExtXz

universe u

variable {α : Type u} {C : List α → Prop} {xs e rest rest' : List α} {es es' : List (List α)}

/-- No member is the beginning of another one. -/
def PrefixFree (C : List α → Prop) : Prop := ∀ x y, C x → C y → x <+: y → x = y

/-- The list is these members, and a rest that does not begin with one. -/
structure Splits (C : List α → Prop) (xs : List α) (es : List (List α)) (rest : List α) : Prop where
  whole : xs = es.flatten ++ rest
  members : ∀ e ∈ es, C e
  maximal : ∀ e, C e → ¬ e <+: rest

theorem Splits.nil (h : ∀ e, C e → ¬ e <+: xs) : Splits C xs [] xs :=
  ⟨rfl, nofun, h⟩

theorem Splits.cons (he : C e) (h : Splits C xs es rest) : Splits C (e ++ xs) (e :: es) rest where
  whole := by rw [h.whole, List.flatten_cons, List.append_assoc]
  members := List.forall_mem_cons.mpr ⟨he, h.members⟩
  maximal := h.maximal

/-- What is left after the first member is cut in the same way. -/
theorem Splits.tail (h : Splits C xs (e :: es) rest) : C e ∧ ∃ ys, xs = e ++ ys ∧ Splits C ys es rest := by
  obtain ⟨he, hes⟩ := List.forall_mem_cons.mp h.members
  refine ⟨he, es.flatten ++ rest, ?_, rfl, hes, h.maximal⟩
  rw [h.whole, List.flatten_cons, List.append_assoc]

/-- **There is one way to cut a list.** -/
theorem Splits.unique (hfree : PrefixFree C) (h : Splits C xs es rest) (h' : Splits C xs es' rest') :
    es = es' ∧ rest = rest' := by
  induction es generalizing xs es' with
  | nil =>
    cases es' with
    | nil => exact ⟨rfl, h.whole.symm.trans h'.whole⟩
    | cons e es' =>
      obtain ⟨he, ys, rfl, -⟩ := h'.tail
      have hrest : e ++ ys = rest := h.whole
      exact absurd (hrest ▸ List.prefix_append e ys) (h.maximal e he)
  | cons e es ih =>
    obtain ⟨he, ys, rfl, hys⟩ := h.tail
    cases es' with
    | nil =>
      have hrest : e ++ ys = rest' := h'.whole
      exact absurd (hrest ▸ List.prefix_append e ys) (h'.maximal e he)
    | cons e' es' =>
      obtain ⟨he', ys', heq, hys'⟩ := h'.tail
      have hsame : e = e' := by
        have hpre' : e' <+: e ++ ys := heq ▸ List.prefix_append e' ys'
        rcases List.prefix_or_prefix_of_prefix (List.prefix_append e ys) hpre' with hpre | hpre
        · exact hfree e e' he he' hpre
        · exact (hfree e' e he' he hpre).symm
      subst hsame
      obtain rfl := List.append_cancel_left heq
      obtain ⟨rfl, rfl⟩ := ih hys hys'
      exact ⟨rfl, rfl⟩

end PhpExtXz
