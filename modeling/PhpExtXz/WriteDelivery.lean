/-
# PhpExtXz.WriteDelivery — exactly-once delivery through a write stream.

What is written to a stream goes through two hand-overs: the coder consumes it, and what the coder
produces is offered to the stream below, which accepts a prefix of each offer. `Delivers` says that
neither hand-over repeats, skips or reorders a byte, at any point of a run.

It fails where an operation breaks off in the middle of a buffer. `php_xz_compress` rewinds `next_in`
to the start of `in_buf` also where the coder has taken part of it; a short write of the stream below
leaves the accepted bytes in `out_buf`, to be offered again; and `php_xziop_close` resets `next_out`
whatever is waiting in `out_buf`, and goes on after a short write. `xziopTrace_delivers`: in a run
without these, everything is delivered exactly once, failures included.
-/
import PhpExtXz.WriteRuns

namespace PhpExtXz

open FuelLoop Delivery XzStreamCtx

variable {σ ι : Type}

/-! ## What delivery means -/

/-- Nothing went wrong in memory, and after every operation the coder has consumed a prefix of what has
been written so far, and all offers to the stream below were in order. -/
def Delivers (trace : List (XziopStep σ ι)) : Prop :=
  ∀ done step rest, trace = done ++ step :: rest →
    (∀ e, step.outcome ≠ .error (.fault e)) ∧
    ∀ r ctx', step.outcome = .ok (r, ctx') →
      consumed ctx'.log <+: (done ++ [step]).flatMap (·.op.bytes) ∧
        InOrder [] (ctx'.log.map Event.transfer)

/-- `php_xziop_close` finds nothing waiting in `out_buf` or has nothing to write, and it writes nothing
after a write that was not accepted in full. -/
structure CleanClose (ctx : XzStreamCtx σ ι) (ev : List Event) : Prop where
  waiting : ctx.strm.nextOut = 0 ∨ ∀ bytes acc, .wrote bytes acc ∉ ev
  shortLast : ShortLast ev

/-- The buffer of a write fits, breaks are clean, and so is the close. -/
def StepClean (c : Coder σ) (io : Inner ι) (fuel : Nat) (step : XziopStep σ ι) : Prop :=
  let ev := xziopEvents c io fuel step.before step.op
  match step.op with
  | .write buf => WriteFits step.before buf ev ∧ CleanBreaks ev
  | .flush => CleanBreaks ev
  | .close => CleanClose step.before ev
  | .read _ => True

/-! ## The invariant of a run -/

/-- After `written` was passed to the stream: what was consumed and what is in `in_buf` make it up; what
was accepted and what is in `out_buf` make up what was produced; and the offers were in order. -/
structure Delivered (written : List UInt8) (ctx : XzStreamCtx σ ι) : Prop where
  consumed : consumed ctx.log ++ ctx.inPending = written
  accepted : accepted (ctx.log.map Event.transfer) ++ ctx.outPending =
    produced (ctx.log.map Event.transfer)
  inOrder : InOrder [] (ctx.log.map Event.transfer)

variable {c : Coder σ} {io : Inner ι} {fuel : Nat} {ctx ctx' : XzStreamCtx σ ι} {ev : List Event}
  {written fed : List UInt8}

theorem WriteFresh.delivered (h : WriteFresh ctx) : Delivered [] ctx where
  consumed := by
    rw [h.log, consumed_nil, List.nil_append, inPending, h.availIn, Buffer.window_zero_len]
  accepted := by
    rw [h.log, outPending, h.nextOut, Buffer.written_zero]
    rfl
  inOrder := by
    rw [h.log]
    exact .nil

/-- An operation with clean breaks keeps the invariant. -/
theorem Delivered.segment (h : Delivered written ctx) (hseg : Segment ctx ctx' ev fed)
    (hclean : CleanBreaks ev) : Delivered (written ++ fed) ctx' where
  consumed := by
    rw [hseg.log, consumed_append, List.append_assoc, hseg.consumed hclean, ← List.append_assoc,
      h.consumed]
  accepted := by
    rw [hseg.log, List.map_append, accepted_append, produced_append, List.append_assoc,
      hseg.accepted hclean, ← List.append_assoc, h.accepted]
  inOrder := by
    rw [hseg.log, List.map_append]
    refine h.inOrder.append ?_ (hseg.inOrder hclean)
    rw [h.accepted, List.nil_append]

/-- A log in which nothing is offered is in order, whatever is pending. -/
theorem inOrder_of_not_wrote {pending : List UInt8} (h : ∀ bytes acc, .wrote bytes acc ∉ ev) :
    InOrder pending (ev.map Event.transfer) := by
  intro pre xs k post heq
  have hmem : Transfer.offer xs k ∈ ev.map Event.transfer := by
    rw [heq]
    exact List.mem_append_right _ List.mem_cons_self
  obtain ⟨e, he, htransfer⟩ := List.mem_map.mp hmem
  cases e with
  | coded call => cases htransfer
  | wrote bytes acc => exact absurd he (h bytes acc)

/-- A clean close delivers what is left, in order. -/
theorem Delivered.close (h : Delivered written ctx) (hloop : CloseLoop ctx ctx' ev)
    (hclean : CleanClose ctx ev) :
    PhpExtXz.consumed ctx'.log <+: written ∧ InOrder [] (ctx'.log.map Event.transfer) := by
  constructor
  · refine ⟨ctx'.inPending, ?_⟩
    rw [hloop.log, consumed_append, List.append_assoc, hloop.consumed, h.consumed]
  · rw [hloop.log, List.map_append]
    refine h.inOrder.append (by rw [h.accepted, List.nil_append]) ?_
    rcases hclean.waiting with hempty | hnone
    · have hpending : ctx.outPending = [] := by
        rw [outPending, hempty, Buffer.written_zero]
      rw [hpending]
      exact hloop.inOrder hclean.shortLast
    · exact inOrder_of_not_wrote hnone

/-! ## Runs -/

/-- What a clean step does to the invariant. -/
theorem WriteStep.delivers {op : XziopOp} {outcome : Exec MemoryFault (XziopResult × XzStreamCtx σ ι)}
    (hstep : WriteStep ctx (xziopEvents c io fuel ctx op) op outcome)
    (hclean : StepClean c io fuel ⟨ctx, op, outcome⟩) (h : Delivered written ctx) :
    (∀ e, outcome ≠ .error (.fault e)) ∧
    ∀ r ctx', outcome = .ok (r, ctx') →
      (op.isClose = false → Delivered (written ++ op.bytes) ctx') ∧
      consumed ctx'.log <+: written ++ op.bytes ∧ InOrder [] (ctx'.log.map Event.transfer) := by
  have hdone : ∀ {fed : List UInt8} {ctx' : XzStreamCtx σ ι}, Delivered (written ++ fed) ctx' →
      consumed ctx'.log <+: written ++ fed ∧ InOrder [] (ctx'.log.map Event.transfer) :=
    fun h => ⟨⟨_, h.consumed⟩, h.inOrder⟩
  unfold StepClean at hclean
  generalize xziopEvents c io fuel ctx op = ev at hstep hclean
  cases hstep with
  | halted _ => exact ⟨nofun, nofun⟩
  | wrote segment =>
    refine ⟨nofun, ?_⟩
    rintro r next hok
    cases hok
    have hnext := h.segment segment hclean.2
    exact ⟨fun _ => hnext, hdone hnext⟩
  | overflowed failed overflow => exact absurd hclean.1 overflow
  | flushed segment =>
    refine ⟨nofun, ?_⟩
    rintro r next hok
    cases hok
    have hnext := h.segment segment hclean
    exact ⟨fun _ => hnext, hdone hnext⟩
  | @closed next loop =>
    refine ⟨nofun, ?_⟩
    rintro r _ hok
    cases hok
    refine ⟨nofun, ?_⟩
    show consumed next.log <+: written ++ [] ∧ _
    rw [List.append_nil]
    exact h.close loop hclean

/-- **Exactly-once delivery.** For any coder and any stream below, whatever they fail at: a run whose
steps are clean delivers. -/
theorem xziopTrace_delivers {L : Liblzma σ} {level : UInt32} {stream : ι} (io : Inner ι)
    (hopen : phpXzInitEncoder L level stream = some ctx) (ops : List XziopOp)
    (hops : ∀ op ∈ ops, op.isRead = false) (fuel : Nat)
    (hclean : ∀ step ∈ xziopTrace L.coder io fuel ctx ops, StepClean L.coder io fuel step) :
    Delivers (xziopTrace L.coder io fuel ctx ops) := by
  have hfresh := phpXzInitEncoder_fresh hopen
  intro done step rest hsplit
  have hmem : step ∈ xziopTrace L.coder io fuel ctx ops := by
    rw [hsplit]
    exact List.mem_append_right _ List.mem_cons_self
  -- a run that goes on has not been closed, and `Delivered` holds until then
  have hinv : Delivered (done.flatMap (·.op.bytes)) step.before := by
    refine Runs.trace_invariant
      (fun done ctx => Delivered (done.flatMap (·.op.bytes)) ctx) [] hfresh.delivered ?_ hsplit
    intro done step r ctx' hmem hdone hok hlast
    obtain ⟨-, hstep⟩ := xziopTrace_writeStep hfresh.toWriteReady hops hmem
    rw [List.flatMap_append, List.flatMap_singleton]
    exact ((hstep.delivers (hclean step hmem) hdone).2 r ctx' hok).1 hlast
  obtain ⟨-, hstep⟩ := xziopTrace_writeStep hfresh.toWriteReady hops hmem
  obtain ⟨hnofault, hdelivers⟩ := hstep.delivers (hclean step hmem) hinv
  refine ⟨hnofault, ?_⟩
  intro r ctx' hok
  rw [List.flatMap_append, List.flatMap_singleton]
  exact (hdelivers r ctx' hok).2

/-! ### Runs with failures -/

/-- The coder fails in the flush and in the close, both times without having taken anything: clean. -/
theorem xziopTrace_delivers_broken :
    Delivers (xziopTrace brokenLiblzma.coder pipe 1 (freshCtx () [] true)
      [.write [1, 2], .flush, .close]) := by
  have hopen : phpXzInitEncoder brokenLiblzma 6 ([] : List UInt8) = some (freshCtx () [] true) := rfl
  apply xziopTrace_delivers pipe hopen _ (by decide) 1
  have htable : (xziopTrace brokenLiblzma.coder pipe 1 (freshCtx () [] true)
        [.write [1, 2], .flush, .close]).map
      (fun s => (s.op, xziopEvents brokenLiblzma.coder pipe 1 s.before s.op, s.before.strm.nextOut)) =
      [(.write [1, 2], [], 0),
        (.flush, [.coded ⟨0, .run, [1, 2], 4096, .memError, 0, []⟩], 0),
        (.close, [.coded ⟨0, .finish, [1, 2], 4096, .memError, 0, []⟩], 0)] := by
    decide +kernel
  intro step hmem
  have hrow := List.mem_map_of_mem (f := fun s =>
    (s.op, xziopEvents brokenLiblzma.coder pipe 1 s.before s.op, s.before.strm.nextOut)) hmem
  rw [htable] at hrow
  simp only [List.mem_cons, List.not_mem_nil, or_false, Prod.mk.injEq] at hrow
  unfold StepClean
  rcases hrow with ⟨hop, hev, -⟩ | ⟨hop, hev, -⟩ | ⟨hop, hev, hout⟩
  · rw [hop] at hev
    simp only [hop, hev]
    exact ⟨fun ⟨_, he, _⟩ => absurd he List.not_mem_nil, .nil⟩
  · rw [hop] at hev
    simp only [hop, hev]
    constructor
    · intro call hmem _
      cases List.mem_singleton.mp hmem
      exact Or.inr rfl
    · intro pre call bytes acc post heq
      have hlen := congrArg List.length heq
      simp only [List.length_append, List.length_cons, List.length_nil] at hlen
      omega
  · rw [hop] at hev
    simp only [hop, hev]
    refine ⟨Or.inl hout, ?_⟩
    intro pre bytes acc post heq
    have hwrote : Event.wrote bytes acc ∈ pre ++ .wrote bytes acc :: post := by simp
    rw [← heq] at hwrote
    cases List.mem_singleton.mp hwrote

/-- A stream below that accepts one byte at a time. -/
def narrowPipe : Inner (List UInt8) where
  read content n := (some ⟨content.take n, List.length_take_le _ _⟩, content.drop n)
  write content bytes :=
    (some ⟨min 1 bytes.length, Nat.min_le_right _ _⟩, content ++ bytes.take 1)
  flush content := content
  eof content := content.isEmpty

/-- The log after a step. -/
def logAfter (step : XziopStep σ ι) : Option (List Event) :=
  match step.outcome with
  | .ok (_, ctx') => some ctx'.log
  | .error _ => none

theorem Delivers.inOrder {trace : List (XziopStep σ ι)} (h : Delivers trace) {log : List Event}
    (hlog : some log ∈ trace.map logAfter) : InOrder [] (log.map Event.transfer) := by
  obtain ⟨step, hmem, hafter⟩ := List.mem_map.mp hlog
  obtain ⟨done, rest, hsplit⟩ := List.append_of_mem hmem
  unfold logAfter at hafter
  match hok : step.outcome with
  | .ok (r, ctx') =>
    rw [hok] at hafter
    cases hafter
    exact ((h done step rest hsplit).2 r ctx' hok).2
  | .error e =>
    rw [hok] at hafter
    cases hafter

/-- After a short write in a flush, the byte that was accepted is offered once more. -/
theorem short_write_offers_again :
    ∃ ctx, phpXzInitEncoder copyLiblzma 6 ([] : List UInt8) = some ctx ∧
      ¬ Delivers (xziopTrace copyLiblzma.coder narrowPipe 2 ctx
        [.write [1, 2], .flush, .write [3], .flush]) := by
  refine ⟨freshCtx false [] true, rfl, ?_⟩
  intro hdelivers
  have hlast : some
      [.coded ⟨0, .run, [1, 2], 4096, .ok, 2, [1, 2]⟩, .wrote [1, 2] (some 1),
        .coded ⟨0, .run, [3], 4094, .ok, 1, [3]⟩, .wrote [1, 2, 3] (some 1)] ∈
      (xziopTrace copyLiblzma.coder narrowPipe 2 (freshCtx false [] true)
        [.write [1, 2], .flush, .write [3], .flush]).map logAfter := by
    decide +kernel
  have horder := hdelivers.inOrder hlast
  have hoffer := horder [.produce [1, 2], .offer [1, 2] 1, .produce [3]] [1, 2, 3] 1 [] rfl
  exact absurd hoffer (by decide)

end PhpExtXz
