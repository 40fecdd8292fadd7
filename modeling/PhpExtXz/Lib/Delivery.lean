/-
# PhpExtXz.Lib.Delivery — what exactly-once delivery means for a log of transfers.

A party produces elements and offers them to a receiver, which accepts a prefix of each offer. The log
of these two kinds of transfer is *in order* when every offer begins exactly where the receiver has
stopped accepting: nothing that was accepted is offered again, and nothing is passed over.

A log is read relative to the elements that are pending at its start; `InOrder.append` composes two
logs whose pending elements fit together.
-/
import Mathlib.Data.List.Basic

namespace PhpExtXz.Delivery

universe u

variable {α : Type u}

/-- A transfer: elements produced, or elements offered with the number of them that were accepted. -/
inductive Transfer (α : Type u) where
  | produce (xs : List α)
  | offer (xs : List α) (accepted : Nat)

/-- Everything produced in a log. -/
def produced (log : List (Transfer α)) : List α :=
  log.flatMap fun
    | .produce xs => xs
    | .offer _ _ => []

/-- Everything accepted in a log. -/
def accepted (log : List (Transfer α)) : List α :=
  log.flatMap fun
    | .produce _ => []
    | .offer xs k => xs.take k

/-- Every offer begins where acceptance has stopped, counted from the elements pending at the start. -/
def InOrder (pending : List α) (log : List (Transfer α)) : Prop :=
  ∀ pre xs k post, log = pre ++ .offer xs k :: post →
    accepted pre ++ xs <+: pending ++ produced pre

@[simp]
theorem produced_nil : produced ([] : List (Transfer α)) = [] := rfl

@[simp]
theorem accepted_nil : accepted ([] : List (Transfer α)) = [] := rfl

@[simp]
theorem produced_append (log log' : List (Transfer α)) :
    produced (log ++ log') = produced log ++ produced log' := List.flatMap_append

@[simp]
theorem accepted_append (log log' : List (Transfer α)) :
    accepted (log ++ log') = accepted log ++ accepted log' := List.flatMap_append

@[simp]
theorem produced_cons_produce (xs : List α) (log : List (Transfer α)) :
    produced (.produce xs :: log) = xs ++ produced log := rfl

@[simp]
theorem produced_cons_offer (xs : List α) (k : Nat) (log : List (Transfer α)) :
    produced (.offer xs k :: log) = produced log := rfl

@[simp]
theorem accepted_cons_produce (xs : List α) (log : List (Transfer α)) :
    accepted (.produce xs :: log) = accepted log := rfl

@[simp]
theorem accepted_cons_offer (xs : List α) (k : Nat) (log : List (Transfer α)) :
    accepted (.offer xs k :: log) = xs.take k ++ accepted log := rfl

variable {pending pending' : List α} {log log' : List (Transfer α)}

theorem InOrder.nil : InOrder pending ([] : List (Transfer α)) := by
  intro pre xs k post h
  simp at h

/-- A log without offers is in order. -/
theorem InOrder.produce (xs : List α) : InOrder pending [.produce xs] := by
  intro pre ys k post h
  rcases List.append_eq_cons_iff.mp h.symm with ⟨rfl, hcons⟩ | ⟨pre', rfl, hcons⟩
  · cases hcons
  · simp at hcons

/-- An offer of pending elements from the first one on is in order. -/
theorem InOrder.offer {xs : List α} (h : xs <+: pending) (k : Nat) :
    InOrder pending [.offer xs k] := by
  intro pre ys j post heq
  rcases List.append_eq_cons_iff.mp heq.symm with ⟨rfl, hcons⟩ | ⟨pre', rfl, hcons⟩
  · cases hcons
    simpa using h
  · simp at hcons

/-- **Composition.** What one log leaves pending is what the next one starts with. -/
theorem InOrder.append (h : InOrder pending log)
    (hpending : accepted log ++ pending' = pending ++ produced log) (h' : InOrder pending' log') :
    InOrder pending (log ++ log') := by
  intro pre xs k post heq
  rcases List.append_eq_append_iff.mp heq with ⟨mid, rfl, hlog'⟩ | ⟨mid, rfl, hmid⟩
  · -- the offer is in the second log
    have hpre := h' mid xs k post hlog'
    rw [accepted_append, produced_append, List.append_assoc, ← List.append_assoc pending, ← hpending,
      List.append_assoc]
    exact (List.prefix_append_right_inj _).mpr hpre
  · -- the offer is in the first log, or it begins the second
    cases mid with
    | nil =>
      simp only [List.append_nil] at hpending h ⊢
      rw [List.nil_append] at hmid
      have hpre := h' [] xs k post hmid.symm
      simp only [accepted_nil, produced_nil, List.nil_append, List.append_nil] at hpre
      rw [← hpending]
      exact (List.prefix_append_right_inj _).mpr hpre
    | cons t mid =>
      rw [List.cons_append, List.cons.injEq] at hmid
      obtain ⟨rfl, -⟩ := hmid
      exact h pre xs k mid rfl

/-- Producing more at the end keeps a log in order. -/
theorem InOrder.append_produce (h : InOrder pending log) (xs : List α) :
    InOrder pending (log ++ [.produce xs]) := by
  intro pre ys k post heq
  rcases List.append_eq_append_iff.mp heq with ⟨mid, rfl, hmid⟩ | ⟨mid, rfl, hmid⟩
  · rcases List.append_eq_cons_iff.mp hmid.symm with ⟨rfl, hcons⟩ | ⟨mid', rfl, hcons⟩
    · cases hcons
    · simp at hcons
  · cases mid with
    | nil => simp at hmid
    | cons t mid =>
      rw [List.cons_append, List.cons.injEq] at hmid
      obtain ⟨rfl, -⟩ := hmid
      exact h pre ys k mid rfl

end PhpExtXz.Delivery
