/-
# PhpExtXz.WriteReports — which failures of a write stream its operations report.

`php_xziop_write` passes the result of `php_xz_compress` on, and `php_xziop_close` returns `EOF` on
every path; but `php_xziop_flush` drops that result and returns 0. And a write that fails with more
left than `in_buf` has room for does not return at all.

`xziopTrace_noSilentLoss_iff`: in a run a failure goes unreported exactly when the first ones happen in
such operations.
-/
import PhpExtXz.WriteRuns

namespace PhpExtXz

open FuelLoop XzStreamCtx

variable {σ ι : Type}

/-! ## Failures and reports -/

/-- The failure values: the error value of read and write, a flush that is not 0, and `EOF`. -/
def XziopResult.isFailure : XziopResult → Bool
  | .read bytes => bytes.isNone
  | .write ret => decide (ret < 0)
  | .flush ret => decide (ret ≠ 0)
  | .close ret => decide (ret = EOF)

/-- The operation returned a failure value. -/
def Reports (step : XziopStep σ ι) : Prop :=
  ∃ r, step.result = some r ∧ r.isFailure = true

/-- In the operation the coder failed, or the stream below did not accept all it was offered. -/
def Fails (c : Coder σ) (io : Inner ι) (fuel : Nat) (step : XziopStep σ ι) : Prop :=
  ∃ e ∈ xziopEvents c io fuel step.before step.op, e.Failed

/-- Whenever something has failed, an operation up to that one has reported a failure; and a write or
flush reports one only if something has failed in it or before. -/
structure NoSilentLoss (c : Coder σ) (io : Inner ι) (fuel : Nat) (trace : List (XziopStep σ ι)) :
    Prop where
  reported : ∀ done step rest, trace = done ++ step :: rest → Fails c io fuel step →
    ∃ e ∈ done ++ [step], Reports e
  justified : ∀ done step rest, trace = done ++ step :: rest → step.op ≠ .close → Reports step →
    ∃ e ∈ done ++ [step], Fails c io fuel e

/-- The operations that report nothing: a flush, and a write whose buffer does not fit. -/
def Silent (c : Coder σ) (io : Inner ι) (fuel : Nat) (step : XziopStep σ ι) : Prop :=
  step.op = .flush ∨ ¬ BufferFits c io fuel step

/-- A failure in an operation that reports nothing comes after one in another write. -/
def FirstFailureSpeaks (c : Coder σ) (io : Inner ι) (fuel : Nat) (trace : List (XziopStep σ ι)) :
    Prop :=
  ∀ done step rest, trace = done ++ step :: rest → Fails c io fuel step → Silent c io fuel step →
    ∃ e ∈ done, Fails c io fuel e ∧ ¬ Silent c io fuel e

/-! ## What one operation reports -/

variable {c : Coder σ} {io : Inner ι} {fuel : Nat} {ctx : XzStreamCtx σ ι} {op : XziopOp}
  {outcome : Exec MemoryFault (XziopResult × XzStreamCtx σ ι)}

/-- A write that fits reports its failures and nothing else; the silent operations report nothing. -/
theorem WriteStep.reports_iff (h : WriteStep ctx (xziopEvents c io fuel ctx op) op outcome)
    (hop : op.isClose = false) :
    Reports ⟨ctx, op, outcome⟩ ↔
      Fails c io fuel ⟨ctx, op, outcome⟩ ∧ ¬ Silent c io fuel ⟨ctx, op, outcome⟩ := by
  unfold Reports Fails Silent BufferFits Runs.Step.result
  generalize xziopEvents c io fuel ctx op = ev at h
  cases h with
  | halted silent => simp [silent]
  | @wrote buf ret ctx' segment fits ret_eq reports =>
    simp only [Option.some.injEq, ← reports, XziopOp.write.injEq, reduceCtorEq, false_or, not_not]
    constructor
    · rintro ⟨r, rfl, hfailure⟩
      refine ⟨of_decide_eq_true hfailure, ?_⟩
      rintro other rfl
      exact fits
    · rintro ⟨hneg, -⟩
      exact ⟨_, rfl, decide_eq_true hneg⟩
  | @overflowed buf failed overflow =>
    simp only [reduceCtorEq, false_and, exists_false, XziopOp.write.injEq, false_or, not_not, false_iff,
      not_and]
    intro _ hfits
    exact overflow (hfits buf rfl)
  | flushed segment =>
    simp [XziopResult.isFailure]
  | closed loop => cases hop

/-- A close that returns reports. -/
theorem WriteStep.reports_close (h : WriteStep ctx (xziopEvents c io fuel ctx op) op outcome)
    (hop : op.isClose = true) (hfails : Fails c io fuel ⟨ctx, op, outcome⟩) :
    Reports ⟨ctx, op, outcome⟩ := by
  unfold Fails at hfails
  generalize xziopEvents c io fuel ctx op = ev at h hfails
  cases h with
  | halted silent =>
    obtain ⟨e, he, -⟩ := hfails
    rw [silent] at he
    cases he
  | closed loop => exact ⟨_, rfl, rfl⟩
  | wrote => cases hop
  | overflowed => cases hop
  | flushed => cases hop

/-- A close is not silent. -/
theorem Silent.notClose {step : XziopStep σ ι} (h : Silent c io fuel step) :
    step.op.isClose = false := by
  rcases h with hflush | hover
  · rw [hflush]
    rfl
  · unfold BufferFits at hover
    push Not at hover
    obtain ⟨buf, hop, -⟩ := hover
    rw [hop]
    rfl

/-! ## Runs -/

/-- **No silent loss.** For any coder and any stream below: in a run every failure is reported, and no
failure is reported that did not happen, if and only if no failure in a flush, or in a write whose
buffer does not fit, comes before a failure in a write whose buffer fits. -/
theorem xziopTrace_noSilentLoss_iff {L : Liblzma σ} {level : UInt32} {stream : ι} (io : Inner ι)
    (hopen : phpXzInitEncoder L level stream = some ctx) (ops : List XziopOp)
    (hops : ∀ op ∈ ops, op.isRead = false) (fuel : Nat) :
    NoSilentLoss L.coder io fuel (xziopTrace L.coder io fuel ctx ops) ↔
      FirstFailureSpeaks L.coder io fuel (xziopTrace L.coder io fuel ctx ops) := by
  have hready := (phpXzInitEncoder_fresh hopen).toWriteReady
  have hsteps : ∀ done step rest, xziopTrace L.coder io fuel ctx ops = done ++ step :: rest →
      ∀ e ∈ done ++ [step],
        WriteStep e.before (xziopEvents L.coder io fuel e.before e.op) e.op e.outcome := by
    intro done step rest hsplit e he
    refine (xziopTrace_writeStep hready hops ?_).2
    rw [hsplit]
    rcases List.mem_append.mp he with he | he
    · exact List.mem_append_left _ he
    · exact List.mem_append_right _ (List.mem_singleton.mp he ▸ List.mem_cons_self)
  constructor
  · intro h done step rest hsplit hfails hsilent
    obtain ⟨e, he, hreports⟩ := h.reported done step rest hsplit hfails
    have hstep := hsteps done step rest hsplit e he
    rcases List.mem_append.mp he with hdone | hlast
    · have hnotClose := (Runs.trace_prefix_ok hsplit e hdone).1
      exact ⟨e, hdone, (hstep.reports_iff hnotClose).mp hreports⟩
    · obtain rfl := List.mem_singleton.mp hlast
      have hspeaks := (hstep.reports_iff hsilent.notClose).mp hreports
      exact absurd hsilent hspeaks.2
  · intro h
    constructor
    · intro done step rest hsplit hfails
      have hself : step ∈ done ++ [step] := List.mem_append_right _ List.mem_cons_self
      have hstep := hsteps done step rest hsplit step hself
      cases hclose : step.op.isClose with
      | true => exact ⟨step, hself, hstep.reports_close hclose hfails⟩
      | false =>
        by_cases hsilent : Silent L.coder io fuel step
        · -- an earlier write has spoken
          obtain ⟨e, he, hspeaks⟩ := h done step rest hsplit hfails hsilent
          have hmem := List.mem_append_left [step] he
          have hnotClose := (Runs.trace_prefix_ok hsplit e he).1
          exact ⟨e, hmem, ((hsteps done step rest hsplit e hmem).reports_iff hnotClose).mpr hspeaks⟩
        · exact ⟨step, hself, (hstep.reports_iff hclose).mpr ⟨hfails, hsilent⟩⟩
    · intro done step rest hsplit hop hreports
      have hself : step ∈ done ++ [step] := List.mem_append_right _ List.mem_cons_self
      have hnotClose : step.op.isClose = false := by
        cases hstepOp : step.op with
        | close => exact absurd hstepOp hop
        | read _ => rfl
        | write _ => rfl
        | flush => rfl
      have hstep := hsteps done step rest hsplit step hself
      exact ⟨step, hself, ((hstep.reports_iff hnotClose).mp hreports).1⟩

/-- The equivalence at a flush that fails. -/
theorem xziopTrace_noSilentLoss_iff_broken :
    NoSilentLoss brokenLiblzma.coder pipe 1
        (xziopTrace brokenLiblzma.coder pipe 1 (freshCtx () [] true) [.write [1], .flush]) ↔
      FirstFailureSpeaks brokenLiblzma.coder pipe 1
        (xziopTrace brokenLiblzma.coder pipe 1 (freshCtx () [] true) [.write [1], .flush]) := by
  have hopen : phpXzInitEncoder brokenLiblzma 6 ([] : List UInt8) = some (freshCtx () [] true) := rfl
  exact xziopTrace_noSilentLoss_iff pipe hopen [.write [1], .flush] (by decide) 1

/-- A flush in which the coder fails returns 0, and nothing before it has reported a failure. -/
theorem flush_fails_silently :
    ∃ ctx, phpXzInitEncoder brokenLiblzma 6 ([] : List UInt8) = some ctx ∧
      ¬ NoSilentLoss brokenLiblzma.coder pipe 1
        (xziopTrace brokenLiblzma.coder pipe 1 ctx [.write [1], .flush]) := by
  refine ⟨freshCtx () [] true, rfl, ?_⟩
  intro h
  obtain ⟨first, second, htrace⟩ := List.length_eq_two.mp
    (show (xziopTrace brokenLiblzma.coder pipe 1 (freshCtx () [] true) [.write [1], .flush]).length = 2
      by decide +kernel)
  have hresults : (xziopTrace brokenLiblzma.coder pipe 1 (freshCtx () [] true)
      [.write [1], .flush]).map (·.result) = [some (.write 1), some (.flush 0)] := by
    decide +kernel
  have hevents : (xziopTrace brokenLiblzma.coder pipe 1 (freshCtx () [] true) [.write [1], .flush]).map
      (fun s => xziopEvents brokenLiblzma.coder pipe 1 s.before s.op) =
      [[], [.coded ⟨0, .run, [1], 4096, .memError, 0, []⟩]] := by
    decide +kernel
  rw [htrace] at h hresults hevents
  simp only [List.map_cons, List.map_nil, List.cons.injEq, and_true] at hresults hevents
  obtain ⟨e, he, r, hr, hfailure⟩ := h.reported [first] second [] rfl
    ⟨_, by rw [hevents.2]; exact List.mem_cons_self, by simp [Event.Failed]⟩
  simp only [List.cons_append, List.nil_append, List.mem_cons, List.not_mem_nil, or_false] at he
  rcases he with rfl | rfl
  · rw [hresults.1] at hr
    cases hr
    exact absurd hfailure (by decide)
  · rw [hresults.2] at hr
    cases hr
    exact absurd hfailure (by decide)

end PhpExtXz
