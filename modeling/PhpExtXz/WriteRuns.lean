/-
# PhpExtXz.WriteRuns — runs of `write`, `flush` and `close` on a stream opened for writing.

`WriteStep` says once what an operation can do on such a stream; it holds for any coder and any stream
below, and every result about runs is derived from it.

The first of them is about the bound of `in_buf`. `php_xziop_write` leaves its loop through a `break`
when the coder or the stream below fails, and then runs the same copy as after the normal exit, with
as much of the buffer as is left. `xziopTrace_inBufSafe_iff`: the copies of a run stay inside `in_buf`
if and only if every such copy finds room.
-/
import PhpExtXz.ConcreteCoders
import PhpExtXz.WriteStream

namespace PhpExtXz

open FuelLoop Delivery XzStreamCtx

variable {σ ι : Type}

/-! ## What an operation can do -/

/-- A stream opened for writing, between two operations. -/
structure WriteReady (ctx : XzStreamCtx σ ι) : Prop where
  rewound : ctx.strm.nextIn = 0
  bounded : ctx.Bounded
  isWrite : ctx.isWrite = true

/-- The calls that an operation makes of the coder and of the stream below, with what they answer.
`php_xziop_write` makes none after its loop. -/
def xziopEvents (c : Coder σ) (io : Inner ι) (fuel : Nat) (ctx : XzStreamCtx σ ι) :
    XziopOp → List Event
  | .write buf =>
    match writeLoop c io fuel ctx buf with
    | .ok w => w.self.log.drop ctx.log.length
    | .error _ => []
  | op =>
    match xziop c io fuel ctx op with
    | .ok (_, ctx') => ctx'.log.drop ctx.log.length
    | .error _ => []

/-- Writing `buf` meets no failure, or the coder had taken enough before it to leave room for `buf`. -/
def WriteFits (ctx : XzStreamCtx σ ι) (buf : List UInt8) (ev : List Event) : Prop :=
  (∃ e ∈ ev, e.Failed) → ctx.strm.availIn + buf.length ≤ XZ_BUFFER_SIZE + (consumed ev).length

/-- **What an operation can do** on a write stream, with the events `ev`. -/
inductive WriteStep (ctx : XzStreamCtx σ ι) (ev : List Event) :
    XziopOp → Exec MemoryFault (XziopResult × XzStreamCtx σ ι) → Prop
  | halted {op : XziopOp} (silent : ev = []) : WriteStep ctx ev op (.error .outOfFuel)
  | wrote {buf : List UInt8} {ret : Int} {ctx' : XzStreamCtx σ ι} (segment : Segment ctx ctx' ev buf)
      (fits : WriteFits ctx buf ev) (ret_eq : ret = -1 ∨ ret = buf.length)
      (reports : ret < 0 ↔ ∃ e ∈ ev, e.Failed) :
      WriteStep ctx ev (.write buf) (.ok (.write ret, ctx'))
  | overflowed {buf : List UInt8} (failed : ∃ e ∈ ev, e.Failed) (overflow : ¬ WriteFits ctx buf ev) :
      WriteStep ctx ev (.write buf) (.error (.fault .copyPastInBuf))
  | flushed {ctx' : XzStreamCtx σ ι} (segment : Segment ctx ctx' ev []) :
      WriteStep ctx ev .flush (.ok (.flush 0, ctx'))
  | closed {ctx' : XzStreamCtx σ ι} (loop : CloseLoop ctx ctx' ev) :
      WriteStep ctx ev .close (.ok (.close EOF, ctx'))

variable {c : Coder σ} {io : Inner ι} {fuel : Nat} {ctx ctx' : XzStreamCtx σ ι} {ev : List Event}
  {fed buf : List UInt8} {op : XziopOp}

theorem drop_log {log log' : List Event} (h : log' = log ++ ev) : log'.drop log.length = ev := by
  rw [h, List.drop_left]

theorem XzStreamCtx.Segment.ready (h : Segment ctx ctx' ev fed) (hctx : WriteReady ctx) : WriteReady ctx' :=
  ⟨h.rewound, h.bounded, h.isWrite.trans hctx.isWrite⟩

/-- The copy after the loop finds room exactly when `WriteFits` says so. -/
theorem XzStreamCtx.WriteLoop.fits_iff {w : Writing σ ι} (h : WriteLoop ctx buf w ev fed) :
    w.self.strm.availIn + w.rest.length ≤ XZ_BUFFER_SIZE ↔ WriteFits ctx buf ev := by
  have hcount := h.segment.count
  have hlen : buf.length = fed.length + w.rest.length := by
    rw [h.split, List.length_append]
  constructor
  · intro hfit _
    omega
  · intro hfits
    by_cases hneg : w.bytesConsumed < 0
    · have := hfits (h.failed.mp hneg)
      omega
    · exact h.fits (by omega)

theorem writeStep_write (h : WriteReady ctx) (buf : List UInt8) :
    WriteStep ctx (xziopEvents c io fuel ctx (.write buf)) (.write buf)
      (xziop c io fuel ctx (.write buf)) := by
  have hloop := writeLoop_sat c io fuel h.rewound h.bounded buf
  match hw : writeLoop c io fuel ctx buf with
  | .error .outOfFuel =>
    simp only [xziopEvents, xziop, phpXziopWrite, hw, error_bind]
    exact .halted rfl
  | .error (.fault e) =>
    rw [hw] at hloop
    exact hloop.elim
  | .ok w =>
    obtain ⟨ev, fed, hseg⟩ := hloop.of_ok hw
    have hevents : xziopEvents c io fuel ctx (.write buf) = ev := by
      simp only [xziopEvents, hw, drop_log hseg.segment.log]
    rw [hevents]
    obtain ⟨hfit, hover⟩ := phpXziopWrite_of_loop hw hseg
    by_cases hroom : w.self.strm.availIn + w.rest.length ≤ XZ_BUFFER_SIZE
    · obtain ⟨ctx', hres, hsegment⟩ := hfit hroom
      simp only [xziop, hres, ok_bind, pure_eq_ok]
      refine .wrote hsegment (hseg.fits_iff.mp hroom) ?_ ?_
      · by_cases hneg : w.bytesConsumed < 0 <;> simp [hneg]
      · rw [← hseg.failed]
        by_cases hneg : w.bytesConsumed < 0 <;> simp [hneg]
    · simp only [xziop, hover hroom, error_bind]
      refine .overflowed ?_ (fun h => hroom (hseg.fits_iff.mpr h))
      rw [← hseg.failed]
      by_contra hneg
      exact hroom (hseg.fits (by omega))

theorem writeStep_flush (h : WriteReady ctx) :
    WriteStep ctx (xziopEvents c io fuel ctx .flush) .flush (xziop c io fuel ctx .flush) := by
  have hflush := phpXziopFlush_sat c io fuel h.rewound h.bounded
  unfold xziopEvents
  match hres : phpXziopFlush c io fuel ctx with
  | .error .outOfFuel =>
    simp only [xziop, hres, error_bind]
    exact .halted rfl
  | .error (.fault e) =>
    rw [hres] at hflush
    exact hflush.elim
  | .ok (ret, ctx') =>
    obtain ⟨hret, ev, hseg⟩ := hflush.of_ok hres
    simp only [xziop, hres, ok_bind, pure_eq_ok]
    obtain rfl : ret = 0 := hret
    rw [drop_log hseg.log]
    exact .flushed hseg

theorem writeStep_close (h : WriteReady ctx) :
    WriteStep ctx (xziopEvents c io fuel ctx .close) .close (xziop c io fuel ctx .close) := by
  have hclose := phpXziopClose_sat c io fuel h.bounded h.isWrite
  unfold xziopEvents
  match hres : phpXziopClose c io fuel ctx with
  | .error .outOfFuel =>
    simp only [xziop, hres, error_bind]
    exact .halted rfl
  | .error (.fault e) =>
    rw [hres] at hclose
    exact hclose.elim
  | .ok (ret, ctx') =>
    obtain ⟨hret, ev, hloop⟩ := hclose.of_ok hres
    simp only [xziop, hres, ok_bind, pure_eq_ok]
    obtain rfl : ret = EOF := hret
    rw [drop_log hloop.log]
    exact .closed hloop

/-- **What an operation does on a write stream.** -/
theorem xziop_writeStep (c : Coder σ) (io : Inner ι) (fuel : Nat) (h : WriteReady ctx)
    (hop : op.isRead = false) :
    WriteStep ctx (xziopEvents c io fuel ctx op) op (xziop c io fuel ctx op) := by
  cases op with
  | read count => cases hop
  | write buf => exact writeStep_write h buf
  | flush => exact writeStep_flush h
  | close => exact writeStep_close h

/-- An operation that is not the last one leaves the stream ready. -/
theorem WriteStep.ready {r : XziopResult} (h : WriteStep ctx ev op (.ok (r, ctx')))
    (hctx : WriteReady ctx) (hlast : op.isClose = false) : WriteReady ctx' := by
  cases h with
  | wrote segment => exact segment.ready hctx
  | flushed segment => exact segment.ready hctx
  | closed _ => cases hlast

/-! ## Runs -/

/-- A fresh write stream. -/
structure WriteFresh (ctx : XzStreamCtx σ ι) : Prop extends WriteReady ctx where
  availIn : ctx.strm.availIn = 0
  nextOut : ctx.strm.nextOut = 0
  log : ctx.log = []

theorem phpXzInitEncoder_fresh {L : Liblzma σ} {level : UInt32} {stream : ι}
    (hopen : phpXzInitEncoder L level stream = some ctx) : WriteFresh ctx := by
  obtain ⟨s, -, rfl⟩ := Option.map_eq_some_iff.mp hopen
  exact ⟨⟨rfl, ⟨Nat.zero_le _, rfl⟩, rfl⟩, rfl, rfl, rfl⟩

/-- Every operation of a run starts from a stream that is ready, and does what `WriteStep` says. -/
theorem xziopTrace_writeStep {ops : List XziopOp} (hctx : WriteReady ctx)
    (hops : ∀ op ∈ ops, op.isRead = false) {step : XziopStep σ ι}
    (hmem : step ∈ xziopTrace c io fuel ctx ops) :
    WriteReady step.before ∧
      WriteStep step.before (xziopEvents c io fuel step.before step.op) step.op step.outcome := by
  obtain ⟨hop, houtcome⟩ := Runs.mem_trace hmem
  have hready : WriteReady step.before := by
    -- `close` ends the run, so that no operation starts after it
    refine Runs.trace_before WriteReady hctx ?_ hmem
    intro mid op r next hmid hop hrun hlast
    have hstep := xziop_writeStep c io fuel hmid (hops op hop)
    rw [hrun] at hstep
    exact hstep.ready hmid hlast
  refine ⟨hready, ?_⟩
  rw [houtcome]
  exact xziop_writeStep c io fuel hready (hops _ hop)

/-! ## The bound of `in_buf` -/

/-- No copy left `in_buf`, and `avail_in` is within it afterwards, so that `XZ_BUFFER_SIZE - avail_in`
does not wrap. -/
def InBufSafe (step : XziopStep σ ι) : Prop :=
  step.outcome ≠ .error (.fault .copyPastInBuf) ∧
    ∀ r ctx', step.outcome = .ok (r, ctx') → ctx'.strm.availIn ≤ XZ_BUFFER_SIZE

/-- If the step is a write, the coder and the stream below let its buffer fit. -/
def BufferFits (c : Coder σ) (io : Inner ι) (fuel : Nat) (step : XziopStep σ ι) : Prop :=
  ∀ buf, step.op = .write buf →
    WriteFits step.before buf (xziopEvents c io fuel step.before step.op)

theorem WriteStep.inBufSafe_iff {outcome : Exec MemoryFault (XziopResult × XzStreamCtx σ ι)}
    (h : WriteStep ctx (xziopEvents c io fuel ctx op) op outcome) :
    InBufSafe ⟨ctx, op, outcome⟩ ↔ BufferFits c io fuel ⟨ctx, op, outcome⟩ := by
  unfold InBufSafe BufferFits
  generalize xziopEvents c io fuel ctx op = ev at h
  cases h with
  | halted silent =>
    refine ⟨fun _ buf _ => ?_, fun _ => ⟨nofun, nofun⟩⟩
    rintro ⟨e, he, -⟩
    rw [silent] at he
    cases he
  | wrote segment fits =>
    refine ⟨fun _ buf hbuf => ?_, fun _ => ⟨nofun, ?_⟩⟩
    · cases hbuf
      exact fits
    · rintro r ctx' hok
      cases hok
      exact segment.availIn_le
  | @overflowed buf failed overflow =>
    exact ⟨fun hsafe => absurd rfl hsafe.1, fun hfits => absurd (hfits buf rfl) overflow⟩
  | flushed segment =>
    refine ⟨fun _ => nofun, fun _ => ⟨nofun, ?_⟩⟩
    rintro r ctx' hok
    cases hok
    exact segment.availIn_le
  | closed loop =>
    refine ⟨fun _ => nofun, fun _ => ⟨nofun, ?_⟩⟩
    rintro r ctx' hok
    cases hok
    have hinside := loop.bounded.inside
    show _ ≤ _
    omega

/-- **The bound of `in_buf` over a run.** For any coder and any stream below, every copy of the run
stays inside `in_buf` if and only if every write of the run fits: either nothing fails in it, or before
the failure the coder has taken enough to leave room for the whole buffer. -/
theorem xziopTrace_inBufSafe_iff {L : Liblzma σ} {level : UInt32} {stream : ι} (io : Inner ι)
    (hopen : phpXzInitEncoder L level stream = some ctx) (ops : List XziopOp)
    (hops : ∀ op ∈ ops, op.isRead = false) (fuel : Nat) :
    (∀ step ∈ xziopTrace L.coder io fuel ctx ops, InBufSafe step) ↔
      ∀ step ∈ xziopTrace L.coder io fuel ctx ops, BufferFits L.coder io fuel step := by
  have hready := (phpXzInitEncoder_fresh hopen).toWriteReady
  refine forall₂_congr fun step hmem => ?_
  obtain ⟨-, hstep⟩ := xziopTrace_writeStep hready hops hmem
  exact hstep.inBufSafe_iff

/-! ### A long write to a coder that fails -/

/-- A coder that fails on every call. -/
def brokenCoder : Coder Unit where
  code _ _ _ _ := ⟨.memError, 0, [], ()⟩
  taken_le _ _ _ _ := Nat.zero_le _
  emitted_le _ _ _ _ := Nat.zero_le _

def brokenLiblzma : Liblzma Unit := coderLiblzma brokenCoder ()

/-- A stream below that keeps all that is written to it, and from which it can be read again. -/
def pipe : Inner (List UInt8) where
  read content n := (some ⟨content.take n, List.length_take_le _ _⟩, content.drop n)
  write content bytes := (some ⟨bytes.length, le_refl _⟩, content ++ bytes)
  flush content := content
  eof content := content.isEmpty

/-- A short write and a flush meet the equivalence. -/
theorem xziopTrace_inBufSafe_iff_broken :
    (∀ step ∈ xziopTrace brokenLiblzma.coder pipe 1 (freshCtx () [] true) [.write [1], .flush],
        InBufSafe step) ↔
      ∀ step ∈ xziopTrace brokenLiblzma.coder pipe 1 (freshCtx () [] true) [.write [1], .flush],
        BufferFits brokenLiblzma.coder pipe 1 step := by
  have hopen : phpXzInitEncoder brokenLiblzma 6 ([] : List UInt8) = some (freshCtx () [] true) := rfl
  exact xziopTrace_inBufSafe_iff pipe hopen [.write [1], .flush] (by decide) 1

/-- A first call that fails breaks the loop of `php_xz_compress` off. -/
theorem phpXzCompress_breaks (c : Coder σ) (io : Inner ι) (fuel : Nat) (hb : ctx.Bounded)
    (hin : 0 < ctx.strm.availIn) {r : CodeResult σ}
    (hcall : c.code ctx.strm.internal .run ctx.inPending ctx.strm.availOut = r)
    (hret : r.ret ≠ .ok) :
    ∃ mid, CodedTo c .run ctx r mid ∧ phpXzCompress c io (fuel + 1) ctx = .ok (-1, mid.rewindIn) := by
  obtain ⟨mid, hcode, hcoded⟩ := code_eq_ok hb hcall
  refine ⟨mid, hcoded, ?_⟩
  have hturn : compressTurn c io ctx = .ok (.leave (false, mid)) := by
    simp only [compressTurn, if_pos hin, hcode, ok_bind, if_pos hret, pure_eq_ok]
  simp [phpXzCompress, loop, hturn]

/-- **Where the copy leaves `in_buf`.** The buffer does not fit into what is left of `in_buf`, and the
first call of the coder on the filled `in_buf` fails without having taken the excess. -/
theorem phpXziopWrite_overflows (c : Coder σ) (io : Inner ι) (fuel : Nat) (h : WriteReady ctx)
    (buf : List UInt8) {r : CodeResult σ}
    (hcall : c.code ctx.strm.internal .run
      (ctx.inPending ++ buf.take (XZ_BUFFER_SIZE - ctx.strm.availIn)) ctx.strm.availOut = r)
    (hret : r.ret ≠ .ok) (hover : XZ_BUFFER_SIZE + r.taken < ctx.strm.availIn + buf.length) :
    phpXziopWrite c io (fuel + 1) ctx buf = .error (.fault .copyPastInBuf) := by
  have hle : ctx.strm.availIn ≤ XZ_BUFFER_SIZE := by
    have := h.bounded.inside
    omega
  have hroom : sizeSub XZ_BUFFER_SIZE ctx.strm.availIn = XZ_BUFFER_SIZE - ctx.strm.availIn :=
    sizeSub_eq hle (by decide)
  have hlen : (buf.take (XZ_BUFFER_SIZE - ctx.strm.availIn)).length =
      XZ_BUFFER_SIZE - ctx.strm.availIn := List.length_take_of_le (by omega)
  obtain ⟨full, hcopy, hstrm, hcopied⟩ :=
    copyIn_segment h.rewound h.bounded (by rw [hlen]; omega)
  rw [hlen, Nat.add_sub_cancel' hle] at hcopied
  -- the coder is offered all of `in_buf`
  have hpending : (full.setAvailIn XZ_BUFFER_SIZE).inPending =
      ctx.inPending ++ buf.take (XZ_BUFFER_SIZE - ctx.strm.availIn) :=
    hcopied.consumed .nil
  have hfirst : c.code (full.setAvailIn XZ_BUFFER_SIZE).strm.internal .run
      (full.setAvailIn XZ_BUFFER_SIZE).inPending (full.setAvailIn XZ_BUFFER_SIZE).strm.availOut =
      r := by
    rw [hpending]
    simp only [setAvailIn, hstrm, hcall]
  obtain ⟨mid, hcoded, hcompress⟩ :=
    phpXzCompress_breaks c io fuel hcopied.bounded (by simp [setAvailIn, XZ_BUFFER_SIZE]) hfirst hret
  have htaken := hcoded.taken_le
  have hmid : mid.rewindIn.strm.availIn = XZ_BUFFER_SIZE - r.taken := by
    show mid.strm.availIn = _
    rw [hcoded.strm]
    rfl
  have hturn : writeTurn c io (fuel + 1) ⟨ctx, buf, 0⟩ =
      .ok (.leave ⟨mid.rewindIn, buf.drop (XZ_BUFFER_SIZE - ctx.strm.availIn), -1⟩) := by
    simp only [writeTurn, hroom, hcopy, hcompress, ok_bind]
    rw [if_pos (by omega), if_pos (by decide)]
    rfl
  -- the rest is longer than the room that the coder has made
  have hrest : (buf.drop (XZ_BUFFER_SIZE - ctx.strm.availIn)).length =
      ctx.strm.availIn + buf.length - XZ_BUFFER_SIZE := by
    rw [List.length_drop]
    omega
  change r.taken ≤ XZ_BUFFER_SIZE at htaken
  simp only [phpXziopWrite, writeLoop, loop, hturn, ok_bind, hrest, copyIn, hmid]
  rw [if_pos (by omega), dif_neg (by omega)]
  rfl

/-- One byte more than `in_buf` holds, written to a coder that fails, is copied past `in_buf`. -/
theorem long_write_leaves_inBuf :
    ∃ ctx, phpXzInitEncoder brokenLiblzma 6 ([] : List UInt8) = some ctx ∧
      ∃ step ∈ xziopTrace brokenLiblzma.coder pipe 1 ctx [.write (List.replicate 4097 0)],
        ¬ InBufSafe step := by
  have hopen : phpXzInitEncoder brokenLiblzma 6 ([] : List UInt8) = some (freshCtx () [] true) := rfl
  refine ⟨_, hopen, _, List.mem_cons_self, ?_⟩
  intro hsafe
  apply hsafe.1
  show xziop brokenCoder pipe 1 _ (.write (List.replicate 4097 0)) = _
  have hfault := phpXziopWrite_overflows brokenCoder pipe 0
    (phpXzInitEncoder_fresh hopen).toWriteReady (List.replicate 4097 0) rfl (by decide)
    (by rw [List.length_replicate]; decide)
  simp only [xziop, hfault, error_bind]

end PhpExtXz
