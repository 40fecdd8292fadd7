/-
# PhpExtXz.ReadErrors — what reads return after a read that failed.

A read that returns the error value because `lzma_code` failed leaves no mark in the stream: the next
one starts from the window, `in_buf` and the stream below as they are. Bytes that the failing call
emitted are in the window, and it hands them out; with `in_buf` empty at the end of the file it finds
a clean end. Only where it gets as far as calling `lzma_code` again does a coder that refuses
everything after a fatal code make it fail (`Refusing`). After `LZMA_MEMLIMIT_ERROR`, which is not fatal,
the coder may even find that a read with nothing to do succeeds.

`xziopTrace_finalWhereRefused`: this is what decides whether errors are final in a run.
-/
import PhpExtXz.ReadRuns

namespace PhpExtXz

open FuelLoop XzStreamCtx

variable {σ ι : Type}

/-! ## Errors that are final -/

/-- A read that returned the error value because its last `lzma_code` call failed. -/
def FailedRead (step : XziopStep σ ι) : Prop :=
  ∃ ctx' ev call, step.outcome = .ok (.read none, ctx') ∧
    ctx'.log = step.before.log ++ ev ++ [.coded call] ∧ call.ret ≠ .ok ∧ call.ret ≠ .streamEnd

/-- After a failed read every read returns the error value. -/
def ErrorsFinal (trace : List (XziopStep σ ι)) : Prop :=
  ∀ done step rest, trace = done ++ step :: rest → (∃ e ∈ done, FailedRead e) →
    ∃ ctx', step.outcome = .ok (.read none, ctx')

/-- Nothing is left in the window, the coder has returned a fatal code, and it will be called: `in_buf`
is not empty or the stream below has not shown its end. -/
structure Refusing (io : Inner ι) (ctx : XzStreamCtx (σ × Feed) ι) : Prop where
  handedOut : ctx.outBufIdx = some ctx.strm.nextOut
  fatal : ctx.strm.internal.2.fatal = true
  notAtEnd : ¬ (io.eof ctx.stream = true ∧ ctx.strm.availIn = 0)

/-- Every read after a failed one starts where it is refused. -/
def RefusesAfterFailure (io : Inner ι) (trace : List (XziopStep (σ × Feed) ι)) : Prop :=
  ∀ done step rest, trace = done ++ step :: rest → (∃ e ∈ done, FailedRead e) →
    Refusing io step.before

/-- Every call of the run succeeded or returned a fatal code: none returned `LZMA_BUF_ERROR`, and none
met the memory limit. -/
def NeverStuck (trace : List (XziopStep σ ι)) : Prop :=
  ∀ step ∈ trace, ∀ ret ctx', step.outcome = .ok (ret, ctx') → ∀ call, .coded call ∈ ctx'.log →
    call.ret = .ok ∨ call.ret = .streamEnd ∨ call.ret.isFatal = true

/-! ## The ledger beside the stream -/

/-- A read stream whose coder keeps its ledger: the ledger knows of every fatal code in the log. -/
structure Driven (c : Coder σ) (s₀ : σ) (ctx : XzStreamCtx (σ × Feed) ι) : Prop where
  windowed : ctx.Windowed
  reaches : ∃ f, Reaches c.logged (s₀, {}) f ctx.strm.internal
  running : ctx.strm.internal.2.finishing = none
  recorded : ∀ call, .coded call ∈ ctx.log → call.ret.isFatal = true →
    ctx.strm.internal.2.fatal = true

variable {c : Coder σ} {s₀ : σ} {io : Inner ι} {ctx ctx' e e₁ : XzStreamCtx (σ × Feed) ι}
  {r : Reading (σ × Feed) ι} {res : CodeResult (σ × Feed)} {count fuel : Nat}
  {t : Turn (Reading (σ × Feed) ι) (Option (List UInt8) × XzStreamCtx (σ × Feed) ι)}

theorem Driven.reaches_ledger (h : Driven c s₀ ctx) :
    Reaches c s₀ ctx.strm.internal.2 ctx.strm.internal.1 := by
  obtain ⟨f, hreach⟩ := h.reaches
  obtain ⟨rfl, hcoder⟩ := hreach.of_logged
  exact hcoder

/-- Handing out, refilling and setting `stream->eof` leave the coder and the log alone. -/
theorem Driven.of_same (h : Driven c s₀ ctx) (hw : ctx'.Windowed)
    (hinternal : ctx'.strm.internal = ctx.strm.internal) (hlog : ctx'.log = ctx.log) :
    Driven c s₀ ctx' := by
  refine ⟨hw, ?_, ?_, ?_⟩
  · rw [hinternal]
    exact h.reaches
  · rw [hinternal]
    exact h.running
  · rw [hinternal, hlog]
    exact h.recorded

/-- A call of the coder adds to both. -/
theorem Driven.coded (h : Driven c s₀ ctx) (hw : ctx'.Windowed) (hroom : 0 < e₁.strm.availOut)
    (hinternal : e₁.strm.internal = ctx.strm.internal) (hlog : e₁.log = ctx.log)
    (hcode : c.logged.code e₁.strm.internal .run e₁.inPending e₁.strm.availOut = res)
    (hcoded : CodedTo c.logged .run e₁ res ctx') : Driven c s₀ ctx' := by
  have hstate : ctx'.strm.internal = res.state := by
    rw [hcoded.strm]
    rfl
  have hledger : ctx'.strm.internal.2 = ctx.strm.internal.2.step .run e₁.inPending res := by
    rw [hstate, ← hcode, hinternal]
    rfl
  obtain ⟨f, hreach⟩ := h.reaches
  rw [← hinternal] at hreach
  refine ⟨hw, ⟨_, hstate ▸ hreach.run hroom hcode⟩, ?_, ?_⟩
  · rw [hledger]
    exact h.running
  · -- the code of this call is recorded by this step of the ledger, an earlier one stays recorded
    intro call hmem hfatal
    rw [hledger]
    rw [hcoded.log, hlog, List.mem_append, List.mem_singleton] at hmem
    rcases hmem with hmem | heq
    · simp [Feed.step, h.recorded call hmem hfatal]
    · have hret : res.ret.isFatal = true := by
        rw [Event.coded.inj heq] at hfatal
        exact hfatal
      simp [Feed.step, hret, Feed.refuses, h.running]

/-- A pass keeps the ledger, and the log grows. -/
theorem Driven.pass (h : Driven c s₀ r.self) (hstep : ReadStep c.logged io r t) :
    TurnSat (fun r' => Driven c s₀ r'.self ∧ r.self.log <+: r'.self.log)
      (fun p => Driven c s₀ p.2 ∧ r.self.log <+: p.2.log) t := by
  have hw := hstep.windowed h.windowed
  have hcall : ∀ {e e₁ ctx' : XzStreamCtx (σ × Feed) ι} {res : CodeResult (σ × Feed)},
      Emptied r.self e → Refilled io e e₁ →
      c.logged.code e₁.strm.internal .run e₁.inPending e₁.strm.availOut = res →
      CodedTo c.logged .run e₁ res ctx' → ctx'.Windowed →
      Driven c s₀ ctx' ∧ r.self.log <+: ctx'.log := by
    intro e e₁ ctx' res emptied refilled code coded hw
    have hlog : e₁.log = r.self.log := refilled.log.trans emptied.log
    refine ⟨h.coded hw ?_ (refilled.internal.trans emptied.internal) hlog code coded, ?_⟩
    · rw [refilled.availOut]
      exact emptied.room
    · rw [coded.log, hlog]
      exact List.prefix_append _ _
  cases hstep with
  | full => exact ⟨h, List.prefix_rfl⟩
  | fromWindow => exact ⟨h.of_same hw.1 rfl rfl, List.prefix_rfl⟩
  | @atEnd e _ _ emptied =>
    refine ⟨h.of_same hw.1 emptied.internal emptied.log, ?_⟩
    show r.self.log <+: e.log
    exact emptied.log ▸ List.prefix_rfl
  | @readFailed e _ _ _ emptied =>
    refine ⟨h.of_same hw.1 emptied.internal emptied.log, ?_⟩
    show r.self.log <+: e.log
    exact emptied.log ▸ List.prefix_rfl
  | decoded _ _ emptied refilled code coded => exact hcall emptied refilled code coded hw.1
  | decodeFailed _ _ emptied refilled code coded => exact hcall emptied refilled code coded hw.1

/-- A read keeps the ledger, and the log grows. -/
theorem Driven.read (h : Driven c s₀ ctx) (io : Inner ι) (fuel count : Nat) :
    Sat (phpXziopRead c.logged io fuel ctx count) (fun p => Driven c s₀ p.2 ∧ ctx.log <+: p.2.log)
      (fun _ => False) := by
  apply loop_sat (fun r : Reading (σ × Feed) ι => Driven c s₀ r.self ∧ ctx.log <+: r.self.log) _ fuel
    ⟨ctx, [], count⟩ ⟨h, List.prefix_rfl⟩
  rintro r ⟨hr, hlog⟩
  obtain ⟨t, ht, hstep⟩ := readTurn_step c.logged io hr.windowed
  have hnext := hr.pass hstep
  rw [ht]
  cases t with
  | again r' => exact ⟨hnext.1, hlog.trans hnext.2⟩
  | leave p => exact ⟨hnext.1, hlog.trans hnext.2⟩

/-! ## A read from a coder that refuses -/

theorem readFailure_eq_none (buf : List UInt8) : readFailure buf = none ↔ buf = [] := by
  cases buf with
  | nil => exact ⟨fun _ => rfl, fun _ => rfl⟩
  | cons b bs => exact ⟨nofun, nofun⟩

/-- The first pass of a read from such a coder is the last one. -/
theorem Driven.pass_refused (h : Driven c s₀ r.self) (hrefuses : RefusesAfterFatal c s₀)
    (hfatal : r.self.strm.internal.2.fatal = true) (hnil : r.buf = []) (hpos : 0 < r.toRead)
    (hstep : ReadStep c.logged io r t) : ∃ p, t = .leave p ∧ (p.1 = none ↔ Refusing io r.self) := by
  -- a window with something in it is handed out, and then the read has not failed
  have hwindow : r.self.waiting = [] ↔ r.self.outBufIdx = some r.self.strm.nextOut := by
    constructor
    · intro hnone
      exact (h.windowed.emptied_of_nil (by rw [hnone, List.length_nil])).atNextOut
    · exact waiting_of_atNextOut h.windowed.bounded
  have hret : ¬ (io.eof r.self.stream = true ∧ r.self.strm.availIn = 0) →
      (readFailure (r.buf ++ r.self.waiting) = none ↔ Refusing io r.self) := by
    intro hnot
    rw [readFailure_eq_none, hnil, List.nil_append, hwindow]
    exact ⟨fun hat => ⟨hat, hfatal, hnot⟩, fun hrefusing => hrefusing.handedOut⟩
  have hcalled : ∀ {e e₁ : XzStreamCtx (σ × Feed) ι}, Emptied r.self e → Refilled io e e₁ →
      ¬ (io.eof r.self.stream = true ∧ r.self.strm.availIn = 0) := by
    rintro e e₁ emptied refilled ⟨hend, hin⟩
    rw [← emptied.stream] at hend
    rw [← emptied.availIn] at hin
    rcases refilled.source with ⟨hsome, -, -⟩ | ⟨-, hunended, -⟩
    · exact hsome hin
    · rw [hend] at hunended
      cases hunended
  cases hstep with
  | full enough => omega
  | fromWindow more short =>
    refine ⟨_, rfl, nofun, fun hrefusing => ?_⟩
    rw [hwindow.mpr hrefusing.handedOut] at short
    exact absurd short (Nat.not_lt_zero _)
  | atEnd more all emptied noInput noMore =>
    refine ⟨_, rfl, nofun, fun hrefusing => absurd ⟨?_, ?_⟩ hrefusing.notAtEnd⟩
    · rw [← emptied.stream]
      exact noMore
    · rw [← emptied.availIn]
      exact noInput
  | readFailed more all emptied noInput unended read =>
    refine ⟨_, rfl, hret ?_⟩
    rintro ⟨hend, -⟩
    rw [emptied.stream, hend] at unended
    cases unended
  | @decoded e e₁ ctx' res more all emptied refilled code coded fine =>
    -- the call is refused
    have hroom : 0 < e₁.strm.availOut := by
      rw [refilled.availOut]
      exact emptied.room
    have hsame : e₁.strm.internal = r.self.strm.internal := refilled.internal.trans emptied.internal
    have hreach := h.reaches_ledger
    rw [← hsame] at hreach hfatal
    obtain ⟨hprog, -⟩ := hrefuses hreach hfatal hroom rfl
    have hcode : res.ret = .progError := by
      rw [← code]
      exact hprog
    rw [hcode] at fine
    rcases fine with hok | hend <;> contradiction
  | decodeFailed more all emptied refilled => exact ⟨_, rfl, hret (hcalled emptied refilled)⟩

/-- **A read from a coder that refuses** returns the error value where it is `Refusing`, and only
there. -/
theorem Driven.read_refused (io : Inner ι) (h : Driven c s₀ ctx) (hrefuses : RefusesAfterFatal c s₀)
    (hfatal : ctx.strm.internal.2.fatal = true) (hcount : 0 < count) (hfuel : 0 < fuel) :
    ∃ ret ctx', phpXziopRead c.logged io fuel ctx count = .ok (ret, ctx') ∧
      (ret = none ↔ Refusing io ctx) := by
  obtain ⟨n, rfl⟩ : ∃ n, fuel = n + 1 := ⟨fuel - 1, by omega⟩
  obtain ⟨t, ht, hstep⟩ := readTurn_step (r := ⟨ctx, [], count⟩) c.logged io h.windowed
  obtain ⟨⟨ret, ctx'⟩, rfl, hret⟩ := Driven.pass_refused h hrefuses hfatal rfl hcount hstep
  refine ⟨ret, ctx', ?_, hret⟩
  rw [phpXziopRead, loop, ht]

/-! ## Runs of reads -/

/-- Before a step of a run: the ledger stands beside the stream, and the log has kept what the steps
made so far have written to it. -/
structure DrivenBy (c : Coder σ) (s₀ : σ) (done : List (XziopStep (σ × Feed) ι))
    (ctx : XzStreamCtx (σ × Feed) ι) : Prop where
  driven : Driven c s₀ ctx
  kept : ∀ e ∈ done, ∀ ret ctx', e.outcome = .ok (ret, ctx') → ctx'.log <+: ctx.log

variable {counts : List Nat} {done rest : List (XziopStep (σ × Feed) ι)}
  {step : XziopStep (σ × Feed) ι}

theorem xziopTrace_driven (hctx : Driven c s₀ ctx)
    (hsplit : xziopTrace c.logged io fuel ctx (counts.map .read) = done ++ step :: rest) :
    DrivenBy c s₀ done step.before := by
  apply Runs.trace_invariant (DrivenBy c s₀) [] ⟨hctx, by simp⟩ _ hsplit
  rintro done ⟨before, op, outcome⟩ ret ctx' hmem hby rfl -
  obtain ⟨hop, hrun⟩ := Runs.mem_trace hmem
  obtain ⟨count, -, rfl⟩ := exists_read_of_mem hop
  -- the log of this step is the log of the stream it leaves
  obtain ⟨⟨bytes, ctx''⟩, hread, hpair⟩ := bind_eq_ok.mp hrun.symm
  obtain ⟨hdriven, hlog⟩ := (hby.driven.read io fuel count).of_ok hread
  obtain ⟨rfl, rfl⟩ := Prod.mk.inj (Except.ok.inj hpair)
  refine ⟨hdriven, ?_⟩
  intro e he ret' ctx₁ hout
  rcases List.mem_append.mp he with he | he
  · exact (hby.kept e he ret' ctx₁ hout).trans hlog
  · obtain rfl := List.mem_singleton.mp he
    obtain ⟨-, rfl⟩ := Prod.mk.inj (Except.ok.inj hout)
    exact List.prefix_rfl

theorem phpXzInitDecoder_driven {L : Liblzma σ} {memoryLimit : UInt64} {stream : ι}
    (hinit : L.lzmaAutoDecoder (memoryLimitOrMax memoryLimit) LZMA_CONCATENATED = .ok s₀)
    (hopen : phpXzInitDecoder L.logged memoryLimit stream = some ctx) : Driven L.coder s₀ ctx := by
  have hwindowed := (phpXzInitDecoder_windowed hopen).1
  obtain ⟨s, hs, rfl⟩ := phpXzInitDecoder_eq hopen
  obtain rfl : s = (s₀, {}) := by
    simp only [Liblzma.logged, hinit] at hs
    exact (Except.ok.inj hs).symm
  exact ⟨hwindowed, ⟨_, .start⟩, rfl, by simp [freshCtx]⟩

/-- What decides whether errors are final: where every later read is refused they are, and where every
failure was fatal they are nowhere else. -/
structure FinalWhereRefused (io : Inner ι) (trace : List (XziopStep (σ × Feed) ι)) : Prop where
  enough : RefusesAfterFailure io trace → ErrorsFinal trace
  needed : NeverStuck trace → ErrorsFinal trace → RefusesAfterFailure io trace

/-- The fatal code behind a failed read is in the log, and in the ledger of every later state. -/
theorem DrivenBy.fatal_of_read (h : DrivenBy c s₀ done ctx) (he : step ∈ done)
    (hread : FailedRead step)
    (hstuck : ∀ ret ctx', step.outcome = .ok (ret, ctx') → ∀ call, .coded call ∈ ctx'.log →
      call.ret = .ok ∨ call.ret = .streamEnd ∨ call.ret.isFatal = true) :
    ctx.strm.internal.2.fatal = true := by
  obtain ⟨ctx', ev, call, hout, hlog, hnotOk, hnotEnd⟩ := hread
  have hmem : .coded call ∈ ctx'.log := by
    rw [hlog]
    exact List.mem_append_right _ List.mem_cons_self
  apply h.driven.recorded call ((h.kept step he _ _ hout).subset hmem)
  rcases hstuck _ _ hout call hmem with hok | hend | hfatal
  · exact absurd hok hnotOk
  · exact absurd hend hnotEnd
  · exact hfatal

/-- A read that failed had fuel. -/
theorem fuel_pos_of_failedRead (hmem : step ∈ xziopTrace c.logged io fuel ctx (counts.map .read))
    (hread : FailedRead step) : 0 < fuel := by
  obtain ⟨hop, hrun⟩ := Runs.mem_trace hmem
  obtain ⟨count, -, hcount⟩ := exists_read_of_mem hop
  obtain ⟨ctx', -, -, hout, -⟩ := hread
  apply Nat.pos_of_ne_zero
  rintro rfl
  rw [hcount, hout] at hrun
  cases hrun

/-- **Errors are final where every later read is refused.** -/
theorem xziopTrace_finalWhereRefused {L : Liblzma σ} {memoryLimit : UInt64} {stream : ι}
    (io : Inner ι) (fuel : Nat) {counts : List Nat}
    (hinit : L.lzmaAutoDecoder (memoryLimitOrMax memoryLimit) LZMA_CONCATENATED = .ok s₀)
    (hrefuses : RefusesAfterFatal L.coder s₀)
    (hopen : phpXzInitDecoder L.logged memoryLimit stream = some ctx)
    (hpos : ∀ count ∈ counts, 0 < count) :
    FinalWhereRefused io (xziopTrace L.logged.coder io fuel ctx (counts.map .read)) := by
  -- a step after a failed read whose coder has met a fatal code
  have hstep : ∀ done step rest,
      xziopTrace L.logged.coder io fuel ctx (counts.map .read) = done ++ step :: rest →
      (∃ e ∈ done, FailedRead e) → step.before.strm.internal.2.fatal = true →
      ((∃ ctx', step.outcome = .ok (.read none, ctx')) ↔ Refusing io step.before) := by
    rintro done step rest hsplit ⟨e, he, hread⟩ hfatal
    have hby := xziopTrace_driven (phpXzInitDecoder_driven hinit hopen) hsplit
    have hfuel := fuel_pos_of_failedRead (hsplit ▸ List.mem_append_left _ he) hread
    obtain ⟨hop, hrun⟩ := Runs.mem_trace (hsplit ▸ List.mem_append_right _ List.mem_cons_self)
    obtain ⟨count, hcount, heq⟩ := exists_read_of_mem hop
    obtain ⟨ret, ctx', hret, hiff⟩ :=
      hby.driven.read_refused io hrefuses hfatal (hpos count hcount) hfuel
    have hout : step.outcome = .ok (.read ret, ctx') := by
      rw [hrun, heq]
      show xziop L.coder.logged io fuel step.before (.read count) = _
      simp only [xziop, hret, ok_bind, pure_eq_ok]
    rw [← hiff, hout]
    constructor
    · rintro ⟨ctx'', heq⟩
      cases heq
      rfl
    · rintro rfl
      exact ⟨_, rfl⟩
  constructor
  · intro hall done step rest hsplit hread
    have hrefusing := hall done step rest hsplit hread
    exact (hstep done step rest hsplit hread hrefusing.fatal).mpr hrefusing
  · rintro hstuck hfinal done step rest hsplit ⟨e, he, hread⟩
    have hby := xziopTrace_driven (phpXzInitDecoder_driven hinit hopen) hsplit
    have hfatal := hby.fatal_of_read he hread
      (hstuck e (hsplit ▸ List.mem_append_left _ he))
    exact (hstep done step rest hsplit ⟨e, he, hread⟩ hfatal).mp
      (hfinal done step rest hsplit ⟨e, he, hread⟩)

/-! ### A wrong check at the end of the data -/

/-- A decoder that puts out what it was given and finds at once that its check is wrong. -/
def lateCheckCoder : Coder Bool where
  code failed _ input room :=
    if failed then ⟨.progError, 0, [], true⟩
    else ⟨.dataError, min input.length room, input.take room, true⟩
  taken_le failed _ input room := by
    split
    · exact Nat.zero_le _
    · exact Nat.min_le_left _ _
  emitted_le failed _ input room := by
    split
    · exact Nat.zero_le _
    · exact List.length_take_le _ _

def lateCheckLiblzma : Liblzma Bool := coderLiblzma lateCheckCoder false

theorem lateCheckCoder_reaches {f : Feed} {s : Bool} (h : Reaches lateCheckCoder false f s) :
    f.fatal = true → s = true := by
  induction h with
  | start => exact fun h => h
  | @call f s action input room _ _ _ ih =>
    intro _
    show (if s then _ else _ : CodeResult Bool).state = true
    split <;> rfl

theorem lateCheckCoder_refuses : RefusesAfterFatal lateCheckCoder false := by
  intro f s action input room r hreach hfatal _ hr
  obtain rfl := lateCheckCoder_reaches hreach hfatal
  subst hr
  exact ⟨rfl, by simp [lateCheckCoder, CodeResult.Progress]⟩

/-- A stream that reads two bytes with it. -/
def lateCheckReader : XzStreamCtx (Bool × Feed) (List UInt8) :=
  { freshCtx (false, {}) [1, 2] false with outBufIdx := some 0 }

theorem xziopTrace_finalWhereRefused_lateCheck :
    FinalWhereRefused pipe
      (xziopTrace lateCheckLiblzma.logged.coder pipe 2 lateCheckReader ([5, 5].map .read)) := by
  have hopen : phpXzInitDecoder lateCheckLiblzma.logged 0 ([1, 2] : List UInt8) =
      some lateCheckReader := rfl
  exact xziopTrace_finalWhereRefused pipe 2 rfl lateCheckCoder_refuses hopen (by decide)

set_option maxRecDepth 20000 in
/-- The first read fails with the bytes still in the window, and the second one returns them. -/
theorem lateCheckReader_reads :
    ∃ ctx, xziop lateCheckLiblzma.logged.coder pipe 2 lateCheckReader (.read 5) =
        .ok (.read none, ctx) ∧
      ctx.log = [.coded ⟨0, .run, [1, 2], XZ_BUFFER_SIZE, .dataError, 2, [1, 2]⟩] ∧
      ∃ ctx', xziop lateCheckLiblzma.logged.coder pipe 2 ctx (.read 5) =
        .ok (.read (some [1, 2]), ctx') :=
  ⟨_, rfl, rfl, _, rfl⟩

/-- The read after the failed one returns data. -/
theorem error_then_data :
    RefusesAfterFatal lateCheckCoder false ∧
      phpXzInitDecoder lateCheckLiblzma.logged 0 [1, 2] = some lateCheckReader ∧
      ¬ ErrorsFinal
        (xziopTrace lateCheckLiblzma.logged.coder pipe 2 lateCheckReader ([5, 5].map .read)) := by
  refine ⟨lateCheckCoder_refuses, rfl, ?_⟩
  intro hfinal
  obtain ⟨ctx, hfirst, hlog, ctx', hsecond⟩ := lateCheckReader_reads
  have htrace : xziopTrace lateCheckLiblzma.logged.coder pipe 2 lateCheckReader
      ([5, 5].map .read) = [⟨lateCheckReader, .read 5, .ok (.read none, ctx)⟩] ++
        [⟨ctx, .read 5, .ok (.read (some [1, 2]), ctx')⟩] := by
    rw [xziopTrace, List.map_cons, Runs.trace_cons_ok hfirst rfl, List.map_cons,
      Runs.trace_cons_ok hsecond rfl]
    rfl
  obtain ⟨ctx'', hret⟩ := hfinal _ _ [] htrace
    ⟨_, List.mem_singleton_self _, ctx, [], _, rfl, hlog, by decide, by decide⟩
  cases hret

end PhpExtXz
