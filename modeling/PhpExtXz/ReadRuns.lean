/-
# PhpExtXz.ReadRuns — runs of reads, on any content.

Nothing is assumed of the coder or of the stream below: the content may be corrupt, cut off or not xz
at all, and a read of the stream below may be short, empty or fail. What a run of reads hands out is
still what the coder emitted, in order and each byte once (`InOrder`), because the window that is not
handed out is never written over: the coder is called only when it is empty, and then there is room
(`CallsOnEmptyWindow`).
-/
import PhpExtXz.Direction

namespace PhpExtXz

open FuelLoop Delivery XzStreamCtx

variable {σ ι : Type}

/-! ## What a run hands out -/

/-- The bytes a step returned. -/
def XziopResult.bytes : XziopResult → List UInt8
  | .read (some bytes) => bytes
  | _ => []

/-- All bytes that reads have returned. -/
def handedOut (steps : List (XziopStep σ ι)) : List UInt8 :=
  steps.flatMap fun step => (step.result.map XziopResult.bytes).getD []

/-- All bytes that `lzma_code` has emitted. -/
def emitted (log : List Event) : List UInt8 := produced (log.map Event.transfer)

@[simp]
theorem handedOut_nil : handedOut ([] : List (XziopStep σ ι)) = [] := rfl

@[simp]
theorem handedOut_append (steps steps' : List (XziopStep σ ι)) :
    handedOut (steps ++ steps') = handedOut steps ++ handedOut steps' := List.flatMap_append

theorem handedOut_singleton {step : XziopStep σ ι} {ret : XziopResult} {ctx' : XzStreamCtx σ ι}
    (h : step.outcome = .ok (ret, ctx')) : handedOut [step] = ret.bytes := by
  simp [handedOut, Runs.Step.result, h]

theorem XzStreamCtx.CodedTo.emitted_log {c : Coder σ} {action : LzmaAction} {ctx ctx' : XzStreamCtx σ ι}
    {res : CodeResult σ} (h : CodedTo c action ctx res ctx') :
    emitted ctx'.log = emitted ctx.log ++ res.emitted := by
  unfold emitted
  rw [h.log, List.map_append, produced_append]
  show _ ++ (res.emitted ++ []) = _
  rw [List.append_nil]

/-- `out_buf ≤ out_buf_idx ≤ next_out`, and `next_out + avail_out` is where `out_buf` ends. -/
def WholeWindow (ctx : XzStreamCtx σ ι) : Prop :=
  TrueWindow ctx ∧ ctx.strm.nextOut + ctx.strm.availOut = XZ_BUFFER_SIZE

theorem XzStreamCtx.Windowed.wholeWindow {ctx : XzStreamCtx σ ι} (h : ctx.Windowed) :
    WholeWindow ctx := ⟨h.idx, h.bounded.room⟩

/-! ## What a pass leaves -/

/-- The context after a pass. -/
def afterPass : Turn (Reading σ ι) (Option (List UInt8) × XzStreamCtx σ ι) → XzStreamCtx σ ι
  | .again r => r.self
  | .leave p => p.2

/-- The coder was not called, or in a context `e` with an empty window and room to decode into. -/
def CallsOnEmptyWindow (c : Coder σ) (ctx ctx' : XzStreamCtx σ ι) : Prop :=
  ctx'.log = ctx.log ∨
    ∃ e res, e.outBufIdx = some e.strm.nextOut ∧ 0 < e.strm.availOut ∧ e.log = ctx.log ∧
      c.code e.strm.internal .run e.inPending e.strm.availOut = res ∧ CodedTo c .run e res ctx'

/-- In the middle of a read of `count` bytes, before which `given` was handed out. -/
structure HandingOut (given : List UInt8) (count : Nat) (r : Reading σ ι) : Prop where
  windowed : r.self.Windowed
  exact : given ++ r.buf ++ r.self.waiting = emitted r.self.log
  count_eq : r.buf.length + r.toRead = count

/-- A read of `count` bytes returned. -/
structure HandedOut (given : List UInt8) (count : Nat)
    (p : Option (List UInt8) × XzStreamCtx σ ι) : Prop where
  windowed : p.2.Windowed
  exact : given ++ p.1.getD [] ++ p.2.waiting = emitted p.2.log
  length_le : (p.1.getD []).length ≤ count

variable {c : Coder σ} {io : Inner ι} {r : Reading σ ι} {given : List UInt8} {count : Nat}
  {t : Turn (Reading σ ι) (Option (List UInt8) × XzStreamCtx σ ι)} {ctx : XzStreamCtx σ ι}

@[simp]
theorem readFailure_getD (buf : List UInt8) : (readFailure buf).getD [] = buf := by
  unfold readFailure
  split
  · rename_i hnil
    exact (List.eq_nil_of_length_eq_zero hnil).symm
  · rfl

theorem HandingOut.emptied {e : XzStreamCtx σ ι} (h : HandingOut given count r)
    (he : Emptied r.self e) :
    given ++ (r.buf ++ r.self.waiting) = emitted e.log ∧ e.waiting = [] := by
  refine ⟨?_, waiting_of_atNextOut he.bounded he.atNextOut⟩
  rw [he.log, ← h.exact, List.append_assoc]

/-- A call after a refill: what it emits is what waits. -/
theorem XzStreamCtx.CodedTo.handedOut {e e₁ ctx' : XzStreamCtx σ ι} {res : CodeResult σ}
    (hcoded : CodedTo c .run e₁ res ctx') (hr : Refilled io e e₁) {buf : List UInt8}
    (hexact : given ++ buf = emitted e.log) : given ++ buf ++ ctx'.waiting = emitted ctx'.log := by
  rw [hcoded.emitted_log, hcoded.waiting hr.bounded hr.atNextOut, hr.log, hexact]

/-- **The step lemma.** A pass hands out what waits, and nothing else. -/
theorem XzStreamCtx.ReadStep.handingOut (hstep : ReadStep c io r t) (h : HandingOut given count r) :
    TurnSat (HandingOut given count) (HandedOut given count) t := by
  have hw := hstep.windowed h.windowed
  have hcount := h.count_eq
  have hexact := h.exact
  cases hstep with
  | full enough =>
    refine ⟨h.windowed, h.exact, ?_⟩
    show r.buf.length ≤ count
    omega
  | @fromWindow idx more short at_idx =>
    refine ⟨hw.1, ?_, ?_⟩
    · -- what is left of the window begins where the read stopped
      have hrest : ({ r.self with outBufIdx := some (idx + r.toRead) } : XzStreamCtx σ ι).waiting =
          r.self.waiting.drop r.toRead := by
        rw [waiting_of_idx at_idx, List.drop_drop]
        rfl
      show given ++ (r.buf ++ r.self.waiting.take r.toRead) ++ _ = emitted r.self.log
      rw [hrest, ← List.append_assoc, List.append_assoc, List.take_append_drop]
      exact hexact
    · show (r.buf ++ r.self.waiting.take r.toRead).length ≤ count
      rw [List.length_append, List.length_take]
      omega
  | @atEnd e more all emptied noInput noMore =>
    obtain ⟨hall, hnone⟩ := h.emptied emptied
    refine ⟨hw.1, ?_, ?_⟩
    · show given ++ (r.buf ++ r.self.waiting) ++ e.waiting = emitted e.log
      rw [hnone, List.append_nil]
      exact hall
    · show (r.buf ++ r.self.waiting).length ≤ count
      rw [List.length_append]
      omega
  | @readFailed e st more all emptied noInput unended read =>
    obtain ⟨hall, hnone⟩ := h.emptied emptied
    refine ⟨hw.1, ?_, ?_⟩
    · show given ++ (readFailure (r.buf ++ r.self.waiting)).getD [] ++ e.waiting = emitted e.log
      rw [readFailure_getD, hnone, List.append_nil]
      exact hall
    · show ((readFailure (r.buf ++ r.self.waiting)).getD []).length ≤ count
      rw [readFailure_getD, List.length_append]
      omega
  | decoded more all emptied refilled code coded fine =>
    obtain ⟨hall, -⟩ := h.emptied emptied
    refine ⟨hw.1, coded.handedOut refilled hall, ?_⟩
    show (r.buf ++ r.self.waiting).length + (r.toRead - r.self.waiting.length) = count
    rw [List.length_append]
    omega
  | decodeFailed more all emptied refilled code coded bad =>
    obtain ⟨hall, -⟩ := h.emptied emptied
    refine ⟨hw.1, ?_, ?_⟩
    · rw [readFailure_getD]
      exact coded.handedOut refilled hall
    · rw [readFailure_getD, List.length_append]
      omega

/-- The coder is called on an empty window only, and with room. -/
theorem XzStreamCtx.ReadStep.callsOnEmptyWindow (hstep : ReadStep c io r t) :
    CallsOnEmptyWindow c r.self (afterPass t) := by
  -- the two ways to call the coder differ in its answer only
  have hcall : ∀ {e e₁ ctx' : XzStreamCtx σ ι} {res : CodeResult σ}, Emptied r.self e →
      Refilled io e e₁ → c.code e₁.strm.internal .run e₁.inPending e₁.strm.availOut = res →
      CodedTo c .run e₁ res ctx' → CallsOnEmptyWindow c r.self ctx' := by
    intro e e₁ ctx' res emptied refilled code coded
    refine Or.inr ⟨e₁, res, refilled.atNextOut, ?_, ?_, code, coded⟩
    · rw [refilled.availOut]
      exact emptied.room
    · rw [refilled.log]
      exact emptied.log
  cases hstep with
  | full => exact Or.inl rfl
  | fromWindow => exact Or.inl rfl
  | atEnd _ _ emptied => exact Or.inl emptied.log
  | readFailed _ _ emptied => exact Or.inl emptied.log
  | decoded _ _ emptied refilled code coded => exact hcall emptied refilled code coded
  | decodeFailed _ _ emptied refilled code coded => exact hcall emptied refilled code coded

/-! ## A read -/

/-- Where a read stands when it starts. -/
theorem HandingOut.start (hw : ctx.Windowed) (hexact : given ++ ctx.waiting = emitted ctx.log)
    (count : Nat) : HandingOut given count ⟨ctx, [], count⟩ where
  windowed := hw
  exact := by
    rw [List.append_nil]
    exact hexact
  count_eq := Nat.zero_add _

/-- It holds whenever a pass begins. -/
theorem HandingOut.pass (hw : ctx.Windowed) (hexact : given ++ ctx.waiting = emitted ctx.log)
    (hpass : Passes (readTurn c io) ⟨ctx, [], count⟩ r) : HandingOut given count r := by
  apply hpass.invariant (HandingOut given count) (HandingOut.start hw hexact count)
  intro a a' ha hturn
  obtain ⟨t, ht, hstep⟩ := readTurn_step c io ha.windowed
  obtain rfl : t = .again a' := Except.ok.inj (ht.symm.trans hturn)
  exact hstep.handingOut ha

/-- **A read on any content.** -/
theorem phpXziopRead_handedOut (c : Coder σ) (io : Inner ι) (fuel : Nat) (hw : ctx.Windowed)
    (hexact : given ++ ctx.waiting = emitted ctx.log) (count : Nat) :
    Sat (phpXziopRead c io fuel ctx count) (HandedOut given count) (fun _ => False) := by
  apply loop_sat (HandingOut given count) _ fuel _ (HandingOut.start hw hexact count)
  intro a ha
  obtain ⟨t, ht, hstep⟩ := readTurn_step c io ha.windowed
  rw [ht]
  exact hstep.handingOut ha

/-! ## Runs of reads -/

/-- A stream opened for reading, between two reads: what was handed out and what waits make up what was
emitted. -/
structure BetweenReads (done : List (XziopStep σ ι)) (ctx : XzStreamCtx σ ι) : Prop where
  windowed : ctx.Windowed
  exact : handedOut done ++ ctx.waiting = emitted ctx.log

/-- What a step of a run of reads keeps to, after the steps `done`. -/
structure ReadKeeps (c : Coder σ) (io : Inner ι) (done : List (XziopStep σ ι))
    (step : XziopStep σ ι) : Prop where
  noFault : ∀ e, step.outcome ≠ .error (.fault e)
  before : WholeWindow step.before ∧ handedOut done <+: emitted step.before.log
  after : ∀ ret ctx', step.outcome = .ok (ret, ctx') →
    WholeWindow ctx' ∧ handedOut (done ++ [step]) <+: emitted ctx'.log
  copies : ∀ count, step.op = .read count →
    ∀ ret ctx', step.outcome = .ok (ret, ctx') → ret.bytes.length ≤ count
  passes : ∀ count, step.op = .read count → ∀ r, Passes (readTurn c io) ⟨step.before, [], count⟩ r →
    r.buf.length ≤ count ∧
      ∀ t, readTurn c io r = .ok t → CallsOnEmptyWindow c r.self (afterPass t)

/-- A run hands out what the coder emits, in order and each byte once. -/
def ReadsInOrder (c : Coder σ) (io : Inner ι) (trace : List (XziopStep σ ι)) : Prop :=
  ∀ done step rest, trace = done ++ step :: rest → ReadKeeps c io done step

variable {fuel : Nat} {done : List (XziopStep σ ι)} {counts : List Nat}

/-- A read between two others. -/
theorem BetweenReads.read (h : BetweenReads done ctx) (c : Coder σ) (io : Inner ι) (fuel count : Nat) :
    Sat (xziop c io fuel ctx (.read count))
      (fun p => p.2.Windowed ∧ handedOut done ++ p.1.bytes ++ p.2.waiting = emitted p.2.log ∧
        p.1.bytes.length ≤ count) (fun _ => False) := by
  apply (phpXziopRead_handedOut c io fuel h.windowed h.exact count).bind
  rintro ⟨bytes, ctx'⟩ hread
  -- the error value hands out nothing
  have hbytes : (XziopResult.read bytes).bytes = bytes.getD [] := by cases bytes <;> rfl
  refine ⟨hread.windowed, ?_, ?_⟩
  · rw [hbytes]
    exact hread.exact
  · rw [hbytes]
    exact hread.length_le

/-- It leads to where the next one starts. -/
theorem BetweenReads.step {count : Nat} {ret : XziopResult} {ctx' : XzStreamCtx σ ι}
    (h : BetweenReads done ctx) (hread : xziop c io fuel ctx (.read count) = .ok (ret, ctx')) :
    BetweenReads (done ++ [⟨ctx, .read count, .ok (ret, ctx')⟩]) ctx' := by
  obtain ⟨hwindowed, hexact, -⟩ := (h.read c io fuel count).of_ok hread
  refine ⟨hwindowed, ?_⟩
  rw [handedOut_append, handedOut_singleton rfl]
  exact hexact

/-- All operations of a run of reads are reads. -/
theorem exists_read_of_mem {op : XziopOp} (h : op ∈ counts.map XziopOp.read) :
    ∃ count ∈ counts, op = .read count := by
  obtain ⟨count, hmem, rfl⟩ := List.mem_map.mp h
  exact ⟨count, hmem, rfl⟩

/-- Where a run of reads stands before each of its steps. -/
theorem xziopTrace_between (hctx : BetweenReads [] ctx) {step : XziopStep σ ι} {rest : List (XziopStep σ ι)}
    (hsplit : xziopTrace c io fuel ctx (counts.map .read) = done ++ step :: rest) :
    BetweenReads done step.before := by
  apply Runs.trace_invariant BetweenReads [] hctx _ hsplit
  rintro done ⟨before, op, outcome⟩ ret ctx' hmem hbetween rfl -
  obtain ⟨hop, hrun⟩ := Runs.mem_trace hmem
  obtain ⟨count, -, rfl⟩ := exists_read_of_mem hop
  exact hbetween.step hrun.symm

theorem phpXzInitDecoder_between {L : Liblzma σ} {memoryLimit : UInt64} {stream : ι}
    (hopen : phpXzInitDecoder L memoryLimit stream = some ctx) : BetweenReads [] ctx := by
  refine ⟨(phpXzInitDecoder_windowed hopen).1, ?_⟩
  obtain ⟨s, -, rfl⟩ := phpXzInitDecoder_eq hopen
  rfl

/-- **No read invents, repeats or reorders data.** -/
theorem xziopTrace_readsInOrder {L : Liblzma σ} {memoryLimit : UInt64} {stream : ι} (io : Inner ι)
    (fuel : Nat) (counts : List Nat) (hopen : phpXzInitDecoder L memoryLimit stream = some ctx) :
    ReadsInOrder L.coder io (xziopTrace L.coder io fuel ctx (counts.map .read)) := by
  intro done step rest hsplit
  have hbetween := xziopTrace_between (phpXzInitDecoder_between hopen) hsplit
  obtain ⟨hop, houtcome⟩ := Runs.mem_trace (hsplit ▸ List.mem_append_right _ List.mem_cons_self)
  obtain ⟨count, -, hcount⟩ := exists_read_of_mem hop
  have hread := hbetween.read L.coder io fuel count
  rw [← hcount, ← houtcome] at hread
  refine ⟨?_, ⟨hbetween.windowed.wholeWindow, ⟨_, hbetween.exact⟩⟩, ?_, ?_, ?_⟩
  · intro e hfault
    rw [hfault] at hread
    exact hread
  · intro ret ctx' hret
    obtain ⟨hwindowed, hexact, -⟩ := hread.of_ok hret
    refine ⟨hwindowed.wholeWindow, ctx'.waiting, ?_⟩
    rw [handedOut_append, handedOut_singleton hret]
    exact hexact
  · intro count' hcount' ret ctx' hret
    obtain rfl : count = count' := XziopOp.read.inj (hcount.symm.trans hcount')
    exact (hread.of_ok hret).2.2
  · intro count' _ r hpass
    have hinside := HandingOut.pass hbetween.windowed hbetween.exact hpass
    have htotal := hinside.count_eq
    refine ⟨by omega, ?_⟩
    intro t hturn
    obtain ⟨t', ht', hstep⟩ := readTurn_step L.coder io hinside.windowed
    obtain rfl : t' = t := Except.ok.inj (ht'.symm.trans hturn)
    exact hstep.callsOnEmptyWindow

theorem xziopTrace_readsInOrder_copy :
    ReadsInOrder copyLiblzma.coder pipe
      (xziopTrace copyLiblzma.coder pipe 4 (copyReader [1, 2, 3]) ([2, 5].map .read)) :=
  xziopTrace_readsInOrder pipe 4 [2, 5] (copyReader_opened [1, 2, 3])

end PhpExtXz
