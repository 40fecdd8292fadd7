/-
# PhpExtXz.Direction — reading and writing through one context.

`read`, `write` and `flush` reach a stream whatever it was opened for. Only `flush` and `close` look at
`is_write`: a write on a stream opened for reading goes into `in_buf`, behind what was read from the
stream below, and on through the decoder; and a stream opened for writing never gets an `out_buf_idx`,
so that a read computes its window from `NULL`.

`xziop_directionIsolated`: the two directions do not disturb each other on a stream opened for reading
that is never written to, and hardly ever else.
-/
import PhpExtXz.ReadStream
import PhpExtXz.WriteRuns

namespace PhpExtXz

open FuelLoop XzStreamCtx

variable {σ ι : Type}

/-! ## Isolation -/

/-- A stream as `php_stream_xzopen` returns it: opened for reading, or for writing. -/
inductive XzOpened (L : Liblzma σ) : XzStreamCtx σ ι → Prop
  | decoder {memoryLimit : UInt64} {stream : ι} {ctx : XzStreamCtx σ ι}
      (opened : phpXzInitDecoder L memoryLimit stream = some ctx) : XzOpened L ctx
  | encoder {level : UInt32} {stream : ι} {ctx : XzStreamCtx σ ι}
      (opened : phpXzInitEncoder L level stream = some ctx) : XzOpened L ctx

/-- `out_buf ≤ out_buf_idx ≤ next_out`. -/
def TrueWindow (ctx : XzStreamCtx σ ι) : Prop :=
  ∃ idx, ctx.outBufIdx = some idx ∧ idx ≤ ctx.strm.nextOut

/-- What a sequence of reads would return. -/
def readResults (c : Coder σ) (io : Inner ι) (fuel : Nat) (ctx : XzStreamCtx σ ι)
    (counts : List Nat) : List (Option XziopResult) :=
  (xziopTrace c io fuel ctx (counts.map .read)).map (·.result)

/-- **Direction isolation** over a run: no fault; a write on a stream opened for reading returns the
error value, sends nothing, and changes no later read; a read on a stream opened for writing returns
the error value or no bytes, and changes nothing of the file; and the window is one in every state. -/
structure DirectionIsolated (c : Coder σ) (io : Inner ι) (fuel : Nat) (ctx : XzStreamCtx σ ι)
    (ops : List XziopOp) : Prop where
  noFault : ∀ step ∈ xziopTrace c io fuel ctx ops, ∀ e, step.outcome ≠ .error (.fault e)
  write : ctx.isWrite = false → ∀ step ∈ xziopTrace c io fuel ctx ops,
    ∀ buf, step.op = .write buf → ∀ r ctx', step.outcome = .ok (r, ctx') →
      r = .write (-1) ∧ (∀ bytes acc, .wrote bytes acc ∉ ctx'.log.drop step.before.log.length) ∧
        ∀ counts, readResults c io fuel ctx' counts = readResults c io fuel step.before counts
  read : ctx.isWrite = true → ∀ step ∈ xziopTrace c io fuel ctx ops,
    ∀ count, step.op = .read count → ∀ r ctx', step.outcome = .ok (r, ctx') →
      (r = .read none ∨ r = .read (some [])) ∧
        ∀ later, streamAfter c io fuel ctx' later = streamAfter c io fuel step.before later
  window_start : TrueWindow ctx
  window : ∀ step ∈ xziopTrace c io fuel ctx ops, ∀ r ctx', step.outcome = .ok (r, ctx') →
    TrueWindow ctx'

def XziopOp.isWrite : XziopOp → Bool
  | .write _ => true
  | _ => false

/-! ## Streams opened for reading -/

variable {c : Coder σ} {io : Inner ι} {fuel : Nat} {ctx : XzStreamCtx σ ι}

/-- Reading and flushing a read stream leave it one, with its window. -/
theorem xziop_windowed (hw : ctx.Windowed) (hread : ctx.isWrite = false) {op : XziopOp}
    (hclose : op.isClose = false) (hwrite : op.isWrite = false) :
    Sat (xziop c io fuel ctx op) (fun p => p.2.Windowed ∧ p.2.isWrite = false) (fun _ => False) := by
  cases op with
  | close => cases hclose
  | write buf => cases hwrite
  | read count =>
    apply (phpXziopRead_windowed c io fuel hw count).bind
    rintro ⟨bytes, ctx'⟩ ⟨hw', hsame⟩
    exact ⟨hw', hsame.trans hread⟩
  | flush =>
    simp only [xziop, phpXziopFlush, hread, Bool.false_eq_true, if_false, pure_eq_ok, ok_bind]
    exact ⟨⟨⟨hw.bounded.inside, hw.bounded.room⟩, hw.idx, hw.room⟩, rfl⟩

/-- So does a run of them. -/
theorem xziopTrace_windowed (hw : ctx.Windowed) (hread : ctx.isWrite = false) {ops : List XziopOp}
    (hwrite : ∀ op ∈ ops, op.isWrite = false) :
    ∀ step ∈ xziopTrace c io fuel ctx ops, step.before.Windowed ∧ step.before.isWrite = false := by
  intro step hmem
  refine Runs.trace_before (fun ctx => ctx.Windowed ∧ ctx.isWrite = false) ⟨hw, hread⟩ ?_ hmem
  intro mid op r next hmid hop hrun hlast
  exact (xziop_windowed hmid.1 hmid.2 hlast (hwrite op hop)).of_ok hrun

/-- A read stream that is not written to is isolated. -/
theorem directionIsolated_of_reads (hw : ctx.Windowed) (hread : ctx.isWrite = false)
    {ops : List XziopOp} (hclose : ∀ op ∈ ops, op.isClose = false)
    (hwrite : ∀ op ∈ ops, op.isWrite = false) : DirectionIsolated c io fuel ctx ops := by
  have hsteps : ∀ step ∈ xziopTrace c io fuel ctx ops,
      Sat step.outcome (fun p => p.2.Windowed ∧ p.2.isWrite = false) (fun _ => False) := by
    intro step hmem
    obtain ⟨hop, houtcome⟩ := Runs.mem_trace hmem
    have hbefore := xziopTrace_windowed hw hread hwrite step hmem
    rw [houtcome]
    exact xziop_windowed hbefore.1 hbefore.2 (hclose _ hop) (hwrite _ hop)
  constructor
  · intro step hmem e hfault
    have hsat := hsteps step hmem
    rw [hfault] at hsat
    exact hsat
  · intro _ step hmem buf hop
    have hnot := hwrite _ (Runs.mem_trace hmem).1
    rw [hop] at hnot
    cases hnot
  · intro hopenedForWriting
    rw [hread] at hopenedForWriting
    cases hopenedForWriting
  · exact hw.idx
  · intro step hmem r ctx' hok
    exact ((hsteps step hmem).of_ok hok).1.idx

/-! ## What disturbs isolation -/

/-- A write that fits into what is left of `in_buf` returns its count, whatever the stream was opened
for. -/
theorem phpXziopWrite_fitting (c : Coder σ) (io : Inner ι) (fuel : Nat) (ctx : XzStreamCtx σ ι)
    (buf : List UInt8) (hfit : ctx.strm.availIn + buf.length ≤ XZ_BUFFER_SIZE) :
    ∃ ctx', phpXziopWrite c io (fuel + 1) ctx buf = .ok (buf.length, ctx') := by
  have hroom : sizeSub XZ_BUFFER_SIZE ctx.strm.availIn = XZ_BUFFER_SIZE - ctx.strm.availIn :=
    sizeSub_eq (by omega) (by decide)
  have hleave : writeLoop c io (fuel + 1) ctx buf = .ok ⟨ctx, buf, 0⟩ := by
    have hturn : writeTurn c io (fuel + 1) ⟨ctx, buf, 0⟩ = .ok (.leave ⟨ctx, buf, 0⟩) := by
      rw [writeTurn, hroom, if_neg (by simp only; omega)]
      rfl
    rw [writeLoop, loop, hturn]
  simp only [phpXziopWrite, hleave, ok_bind]
  by_cases hnone : 0 < buf.length
  · simp only [if_pos hnone, copyIn, dif_pos hfit, ok_bind, pure_eq_ok]
    exact ⟨_, rfl⟩
  · simp only [if_neg hnone, ok_bind, pure_eq_ok]
    exact ⟨_, rfl⟩

/-- A stream opened for writing has no window to begin with. -/
theorem phpXzInitEncoder_noWindow {L : Liblzma σ} {level : UInt32} {stream : ι}
    (hopen : phpXzInitEncoder L level stream = some ctx) : ¬ TrueWindow ctx := by
  obtain ⟨s, -, rfl⟩ := Option.map_eq_some_iff.mp hopen
  rintro ⟨idx, hidx, -⟩
  cases hidx

/-- **Direction isolation.** A stream opened for reading that is not written to is isolated; and a
stream that is isolated was opened for reading, and every write to it was too long for what was left of
`in_buf`. -/
theorem xziop_directionIsolated {L : Liblzma σ} (io : Inner ι) (hopen : XzOpened L ctx)
    (ops : List XziopOp) (hops : ∀ op ∈ ops, op.isClose = false) (fuel : Nat) :
    ((ctx.isWrite = false ∧ ∀ op ∈ ops, op.isWrite = false) →
      DirectionIsolated L.coder io (fuel + 1) ctx ops) ∧
    (DirectionIsolated L.coder io (fuel + 1) ctx ops →
      ctx.isWrite = false ∧ ∀ step ∈ xziopTrace L.coder io (fuel + 1) ctx ops, ∀ buf,
        step.op = .write buf → XZ_BUFFER_SIZE < step.before.strm.availIn + buf.length) := by
  constructor
  · rintro ⟨hread, hwrite⟩
    cases hopen with
    | decoder hinit =>
      exact directionIsolated_of_reads (phpXzInitDecoder_windowed hinit).1 hread hops hwrite
    | encoder hinit =>
      rw [(phpXzInitEncoder_fresh hinit).isWrite] at hread
      cases hread
  · intro h
    have hread : ctx.isWrite = false := by
      cases hopen with
      | decoder hinit => exact (phpXzInitDecoder_windowed hinit).2
      | encoder hinit => exact absurd h.window_start (phpXzInitEncoder_noWindow hinit)
    refine ⟨hread, ?_⟩
    intro step hmem buf hop
    by_contra hfit
    obtain ⟨ctx', hreturn⟩ := phpXziopWrite_fitting L.coder io fuel step.before buf (by omega)
    have houtcome : step.outcome = .ok (.write buf.length, ctx') := by
      rw [(Runs.mem_trace hmem).2, hop]
      simp only [xziop, hreturn, ok_bind, pure_eq_ok]
    -- isolation asks for -1 here
    have herror := (h.write hread step hmem buf hop _ _ houtcome).1
    simp only [XziopResult.write.injEq] at herror
    omega

/-- A stream opened for reading `content` through the copying coder. -/
def copyReader (content : List UInt8) : XzStreamCtx Bool (List UInt8) :=
  { freshCtx false content false with outBufIdx := some 0 }

theorem copyReader_opened (content : List UInt8) :
    phpXzInitDecoder copyLiblzma 0 content = some (copyReader content) := rfl

/-- A read and a flush of a stream opened for reading. -/
theorem xziop_directionIsolated_copy :
    (((copyReader [7, 8]).isWrite = false ∧ ∀ op ∈ [XziopOp.read 2, .flush], op.isWrite = false) →
      DirectionIsolated copyLiblzma.coder pipe 3 (copyReader [7, 8]) [.read 2, .flush]) ∧
    (DirectionIsolated copyLiblzma.coder pipe 3 (copyReader [7, 8]) [.read 2, .flush] →
      (copyReader [7, 8]).isWrite = false ∧
        ∀ step ∈ xziopTrace copyLiblzma.coder pipe 3 (copyReader [7, 8]) [.read 2, .flush], ∀ buf,
          step.op = .write buf → XZ_BUFFER_SIZE < step.before.strm.availIn + buf.length) :=
  xziop_directionIsolated pipe (.decoder (copyReader_opened [7, 8])) [.read 2, .flush] (by decide) 2

/-- A write of one byte to a stream opened for reading is accepted. -/
theorem write_to_reader_accepted :
    XzOpened copyLiblzma (copyReader [7, 8]) ∧
      ¬ DirectionIsolated copyLiblzma.coder pipe 3 (copyReader [7, 8]) [.write [1]] := by
  refine ⟨.decoder (copyReader_opened [7, 8]), ?_⟩
  intro h
  obtain ⟨ctx', hreturn⟩ :=
    phpXziopWrite_fitting copyLiblzma.coder pipe 2 (copyReader [7, 8]) [1] (by decide)
  have herror := (h.write rfl _ List.mem_cons_self [1] rfl (.write 1) ctx'
    (by simp only [xziop, hreturn, ok_bind, pure_eq_ok]; rfl)).1
  cases herror

end PhpExtXz
