/-
# PhpExtXz.Lib.Runs — runs of a fallible machine, step by step.

A machine has states and operations; an operation returns a result and the next state, or it fails. A
run performs a list of operations one after the other, up to the first that fails and up to the first
that is the `last` one of its kind. `trace` records it as a list of steps, each with the state before
it and its outcome.

Two rules carry the proofs about runs: `trace_invariant`, in which the invariant may speak about the
steps made so far, and `trace_todo`, in which it may speak about the operations still to be done.

Nothing here mentions a particular program.
-/
import Mathlib.Data.List.Basic

namespace PhpExtXz.Runs

universe u v w x

variable {S : Type u} {Op : Type v} {R : Type w} {E : Type x}

/-- One step of a run: the state before it, the operation, and what came of it. -/
structure Step (S : Type u) (Op : Type v) (R : Type w) (E : Type x) where
  before : S
  op : Op
  outcome : Except E (R × S)

/-- What the step returned, if it did. -/
def Step.result (step : Step S Op R E) : Option R :=
  match step.outcome with
  | .ok (r, _) => some r
  | .error _ => none

/-- The steps of a run. No step follows one that failed, or one whose operation is a `last` one. -/
def trace (run : S → Op → Except E (R × S)) (last : Op → Bool) : S → List Op → List (Step S Op R E)
  | _, [] => []
  | s, op :: ops =>
    ⟨s, op, run s op⟩ ::
      match run s op with
      | .ok (_, s') => if last op then [] else trace run last s' ops
      | .error _ => []

variable {run : S → Op → Except E (R × S)} {last : Op → Bool} {s s' : S} {op : Op} {ops : List Op}
  {r : R} {step : Step S Op R E} {pre post : List (Step S Op R E)}

theorem trace_cons_ok (h : run s op = .ok (r, s')) (hlast : last op = false) :
    trace run last s (op :: ops) = ⟨s, op, .ok (r, s')⟩ :: trace run last s' ops := by
  rw [trace, h, hlast]
  rfl

theorem trace_cons_last (hlast : last op = true) :
    trace run last s (op :: ops) = [⟨s, op, run s op⟩] := by
  rw [trace]
  match hrun : run s op with
  | .ok (r, s') => simp [hlast]
  | .error e => rfl

theorem trace_cons_error {e : E} (h : run s op = .error e) :
    trace run last s (op :: ops) = [⟨s, op, .error e⟩] := by
  rw [trace, h]

/-- The first step of a run, and what follows it. -/
theorem trace_cons (run : S → Op → Except E (R × S)) (last : Op → Bool) (s : S) (op : Op)
    (ops : List Op) :
    (∃ r s', run s op = .ok (r, s') ∧ last op = false ∧
      trace run last s (op :: ops) = ⟨s, op, .ok (r, s')⟩ :: trace run last s' ops) ∨
    trace run last s (op :: ops) = [⟨s, op, run s op⟩] := by
  cases hlast : last op with
  | true => exact Or.inr (trace_cons_last hlast)
  | false =>
    match hrun : run s op with
    | .ok (r, s') => exact Or.inl ⟨r, s', rfl, rfl, trace_cons_ok hrun hlast⟩
    | .error e => exact Or.inr (trace_cons_error hrun)

/-- A step records what the machine does in its state. -/
theorem mem_trace (h : step ∈ trace run last s ops) :
    step.op ∈ ops ∧ step.outcome = run step.before step.op := by
  induction ops generalizing s with
  | nil => cases h
  | cons op ops ih =>
    rcases trace_cons run last s op ops with ⟨r, s', hrun, -, htrace⟩ | htrace
    · rw [htrace] at h
      rcases List.mem_cons.mp h with rfl | h
      · exact ⟨List.mem_cons_self, hrun.symm⟩
      · obtain ⟨hop, houtcome⟩ := ih h
        exact ⟨List.mem_cons_of_mem _ hop, houtcome⟩
    · rw [htrace] at h
      obtain rfl := List.mem_singleton.mp h
      exact ⟨List.mem_cons_self, rfl⟩

/-- **The invariant rule.** `Inv` speaks about the steps made so far and the state they led to. If every
step of the run keeps it, it holds before every step. -/
theorem trace_invariant (Inv : List (Step S Op R E) → S → Prop) (hist : List (Step S Op R E))
    (hstart : Inv hist s)
    (hkeep : ∀ done step r s', step ∈ trace run last s ops → Inv done step.before →
      step.outcome = .ok (r, s') → last step.op = false → Inv (done ++ [step]) s')
    (hsplit : trace run last s ops = pre ++ step :: post) : Inv (hist ++ pre) step.before := by
  induction ops generalizing s hist pre with
  | nil => simp [trace] at hsplit
  | cons op ops ih =>
    rcases trace_cons run last s op ops with ⟨r, s', hrun, hlast, htrace⟩ | htrace
    · rw [htrace] at hsplit hkeep
      cases pre with
      | nil =>
        obtain ⟨rfl, -⟩ := List.cons.inj hsplit
        rw [List.append_nil]
        exact hstart
      | cons first pre =>
        rw [List.cons_append] at hsplit
        obtain ⟨rfl, htail⟩ := List.cons.inj hsplit
        have hnext := hkeep hist _ r s' List.mem_cons_self hstart rfl hlast
        rw [List.append_cons]
        exact ih _ hnext (fun done step r s' hmem => hkeep done step r s' (List.mem_cons_of_mem _ hmem))
          htail
    · rw [htrace] at hsplit
      cases pre with
      | nil =>
        obtain ⟨rfl, -⟩ := List.cons.inj hsplit
        rw [List.append_nil]
        exact hstart
      | cons first pre => simp at hsplit

/-- The rule for an invariant of states alone. -/
theorem trace_before (Inv : S → Prop) (hstart : Inv s)
    (hkeep : ∀ s op r s', Inv s → op ∈ ops → run s op = .ok (r, s') → last op = false → Inv s')
    (hmem : step ∈ trace run last s ops) : Inv step.before := by
  obtain ⟨pre, post, hsplit⟩ := List.append_of_mem hmem
  refine trace_invariant (fun _ => Inv) [] hstart ?_ hsplit
  intro _ step r s' hmem hinv hok hlast
  obtain ⟨hop, houtcome⟩ := mem_trace hmem
  exact hkeep _ _ r s' hinv hop (houtcome.symm.trans hok) hlast

/-- A run in which every step returned made all of its operations. -/
theorem trace_ops (hlast : ∀ op ∈ ops, last op = false)
    (hok : ∀ step ∈ trace run last s ops, ∃ r s', step.outcome = .ok (r, s')) :
    (trace run last s ops).map (·.op) = ops := by
  induction ops generalizing s with
  | nil => rfl
  | cons op ops ih =>
    obtain ⟨r, s', hrun⟩ := hok ⟨s, op, run s op⟩ List.mem_cons_self
    have hcons : trace run last s (op :: ops) = ⟨s, op, .ok (r, s')⟩ :: trace run last s' ops :=
      trace_cons_ok hrun (hlast op List.mem_cons_self)
    rw [hcons] at hok ⊢
    rw [List.map_cons, ih (fun op hop => hlast op (List.mem_cons_of_mem _ hop))
      (fun step hstep => hok step (List.mem_cons_of_mem _ hstep))]

/-- Every step but the last one returned, and its operation was not a `last` one. -/
theorem trace_prefix_ok (hsplit : trace run last s ops = pre ++ step :: post) :
    ∀ e ∈ pre, last e.op = false ∧ ∃ r s', e.outcome = .ok (r, s') := by
  refine trace_invariant
    (fun done _ => ∀ e ∈ done, last e.op = false ∧ ∃ r s', e.outcome = .ok (r, s')) []
    (fun e he => absurd he List.not_mem_nil) ?_ hsplit
  intro done step r s' _ hdone hok hlast e he
  rcases List.mem_append.mp he with he | he
  · exact hdone e he
  · obtain rfl := List.mem_singleton.mp he
    exact ⟨hlast, r, s', hok⟩

/-- The rule for an invariant that speaks about what is still to be done. -/
theorem trace_todo (Inv : List Op → S → Prop) (hstart : Inv ops s)
    (hkeep : ∀ op ops s r s', Inv (op :: ops) s → run s op = .ok (r, s') → Inv ops s')
    (hmem : step ∈ trace run last s ops) : ∃ later, Inv (step.op :: later) step.before := by
  induction ops generalizing s with
  | nil => cases hmem
  | cons op ops ih =>
    rcases trace_cons run last s op ops with ⟨r, s', hrun, -, htrace⟩ | htrace
    · rw [htrace] at hmem
      rcases List.mem_cons.mp hmem with rfl | hmem
      · exact ⟨ops, hstart⟩
      · exact ih (hkeep op ops s r s' hstart hrun) hmem
    · rw [htrace] at hmem
      obtain rfl := List.mem_singleton.mp hmem
      exact ⟨ops, hstart⟩

end PhpExtXz.Runs
