/-
# PhpExtXz.DecodeStatus — what the status of a decode context says about its decoder.

The status a context stores is the last `lzma_code` result; what the context can still do depends on
the decoder's ledger, which the context does not see. The scripts here run over a library whose coder
keeps that ledger beside its state, so that the two can be compared after every operation.

`DecodePhase` lists the states in which the status says what it should. Four kinds of operation lead out
of them: an empty chunk that leaves the status 10 on a live decoder; bytes of which the decoder only tells
something; finishing an incomplete stream, which leaves the status 0 on a decoder that takes nothing but
`LZMA_FINISH` any more; and a call without input that leaves the status 0 on a decoder that has met the
memory limit. `decodeTrace_status_iff`: these are all that can go wrong.
-/
import PhpExtXz.Lib.Components
import PhpExtXz.XzDecodeContext
import PhpExtXz.ConcreteCoders

namespace PhpExtXz

open FuelLoop Runs

variable {σ : Type}

/-! ## Scripts over a context -/

/-- The operations on a decode context. -/
inductive DecodeOp where
  | add (chunk : List UInt8)
  | finish

/-- One operation of a script, between two states of the context. -/
structure DecodeMove (σ : Type) where
  before : XzDecodeContext σ
  op : DecodeOp
  ret : PhpReturn (List UInt8)
  after : XzDecodeContext σ

def decodeOp (L : Liblzma σ) (fuel : Nat) (obj : XzDecodeContext σ) :
    DecodeOp → Exec MemoryFault (PhpReturn (List UInt8) × XzDecodeContext σ)
  | .add chunk => xzDecodeAdd L fuel obj chunk
  | .finish => xzDecodeFinish L fuel obj

/-- A script: the operations in any order, each recorded with the states around it. -/
def decodeTrace (L : Liblzma σ) (fuel : Nat) :
    XzDecodeContext σ → List DecodeOp → Exec MemoryFault (List (DecodeMove σ))
  | _, [] => pure []
  | obj, op :: ops => do
    let (ret, obj') ← decodeOp L fuel obj op
    let moves ← decodeTrace L fuel obj' ops
    pure (⟨obj, op, ret, obj'⟩ :: moves)

/-- The bytes an operation adds. -/
def DecodeOp.bytes : DecodeOp → List UInt8
  | .add chunk => chunk
  | .finish => []

/-- The action it passes to the coder. -/
def DecodeOp.action : DecodeOp → LzmaAction
  | .add _ => .run
  | .finish => .finish

/-! ## What the status should say -/

/-- The ledger of the decoder behind a context. -/
def XzDecodeContext.ledger (obj : XzDecodeContext (σ × Feed)) : Feed := obj.strm.internal.2

/-- The decoder has neither ended nor failed and still takes input. One that has only told something goes
on. -/
def Feed.TakesInput (f : Feed) : Prop :=
  f.ended = false ∧ f.fatal = false ∧ f.limited = false ∧ f.finishing = none

/-- Status 1 says that the decoder has ended; status 0 says that it still takes input. -/
def StatusMeans (f : Feed) (status : LzmaRet) : Prop :=
  (status.toInt = 1 ↔ f.ended = true) ∧ (status.toInt = 0 ↔ f.TakesInput)

/-- In a state with status 0, adding the rest of a valid stream decodes it: the rest may leave the
decoder waiting for more, or end the stream with its last byte. -/
def AddsDecode (out : List UInt8 → List UInt8) (verdict : List UInt8 → Verdict) (L : Liblzma σ)
    (f : Feed) (obj : XzDecodeContext σ) : Prop :=
  xzDecodeGetStatus obj = 0 → ∀ rest fuel, (out (f.taken ++ rest)).length < fuel →
    (∀ z, z <+: f.taken ++ rest → z ≠ f.taken ++ rest → verdict z = .more) →
    verdict (f.taken ++ rest) ≠ .failed →
    ∃ o obj', xzDecodeAdd L fuel obj rest = .ok (.value o, obj') ∧
      f.emitted ++ o = out (f.taken ++ rest) ∧
      (verdict (f.taken ++ rest) = .ended → xzDecodeGetStatus obj' = 1)

/-- The decoder has met the memory limit, but will not look at it when it is called without input. -/
def Feed.HidesLimit (quiet : List UInt8 → Bool) (f : Feed) : Prop :=
  f.limited = true ∧ quiet f.taken = true ∧ f.allowBufError = false

/-- The operations that leave a status that says what it should: not an empty chunk while the status
is 0 and the decoder's last call found nothing to do, nor bytes of which the decoder only tells something;
not finishing while the status is 0, the decoder's last call found something to do and the bytes taken are an
incomplete stream; and neither of them without input where the decoder then hides that it has met the memory
limit. -/
def StepFits (verdict atEnd : List UInt8 → Verdict) (code : List UInt8 → LzmaRet) (quiet : List UInt8 → Bool)
    (f : Feed) (status : LzmaRet) : DecodeOp → Prop
  | .add chunk =>
    ¬ (status = .ok ∧ chunk = [] ∧ f.allowBufError = true) ∧
    ¬ (status = .ok ∧ ∃ x, DecidedAt verdict (f.taken ++ chunk) x .failed ∧ (code x).announces = true) ∧
    ¬ (f.finishing = none ∧ chunk = [] ∧ f.HidesLimit quiet)
  | .finish =>
    ¬ (status = .ok ∧ f.allowBufError = false ∧ atEnd f.taken = .more) ∧
    ¬ f.HidesLimit quiet

variable {L : Liblzma σ} {c : Coder σ} {s₀ s : σ} {out : List UInt8 → List UInt8}
  {verdict atEnd : List UInt8 → Verdict} {code : List UInt8 → LzmaRet} {quiet : List UInt8 → Bool}
  {f f' : Feed} {status status' : LzmaRet} {obj : XzDecodeContext σ} {fuel fuel' : Nat}
  {r : CodeResult σ}

theorem LzmaRet.toInt_eq_zero {ret : LzmaRet} : ret.toInt = 0 ↔ ret = .ok :=
  LzmaRet.toInt_injective.eq_iff' rfl

theorem LzmaRet.toInt_eq_one {ret : LzmaRet} : ret.toInt = 1 ↔ ret = .streamEnd :=
  LzmaRet.toInt_injective.eq_iff' rfl

/-! ## One operation -/

/-- Both operations leave a finished context alone. -/
theorem decodeOp_finished (L : Liblzma σ) (fuel : Nat) (hfinished : obj.status = .streamEnd)
    (op : DecodeOp) : ∃ ret, decodeOp L fuel obj op = .ok (ret, obj) := by
  cases op with
  | add chunk => exact ⟨_, if_pos hfinished⟩
  | finish => exact ⟨_, if_pos hfinished⟩

/-- On any other one they process their bytes. -/
theorem decodeOp_unfinished (L : Liblzma σ) (fuel : Nat) (hunfinished : obj.status ≠ .streamEnd)
    (op : DecodeOp) :
    decodeOp L fuel obj op =
      (phpXzDecodeContextProcess L fuel obj op.bytes op.action >>= fun p =>
        .ok (returnStr p.1, p.2)) := by
  cases op with
  | add chunk => exact if_neg hunfinished
  | finish => exact if_neg hunfinished

theorem decodeOp_mono {obj : XzDecodeContext σ} {op : DecodeOp}
    {p : PhpReturn (List UInt8) × XzDecodeContext σ} (h : decodeOp L fuel obj op = .ok p) (hle : fuel ≤ fuel') :
    decodeOp L fuel' obj op = .ok p := by
  by_cases hfinished : obj.status = .streamEnd
  · cases op <;> simpa only [decodeOp, xzDecodeAdd, xzDecodeFinish, if_pos hfinished] using h
  · cases op <;>
    · simp only [decodeOp, xzDecodeAdd, xzDecodeFinish, if_neg hfinished, phpXzDecodeContextProcess,
        bind_eq_ok] at h ⊢
      obtain ⟨q, ⟨processed, hloop, hq⟩, hp⟩ := h
      exact ⟨q, ⟨processed, loop_mono hloop hle, hq⟩, hp⟩

/-- One call that neither takes nor emits anything leaves the loop. -/
theorem decodeStill_callKeeps {action : LzmaAction} {data : List UInt8} {f₀ : Feed} {P : LzmaRet → Prop}
    (hallow : f₀.Allows action data)
    (hstill : ∀ {s room r}, Reaches c s₀ f₀ s → 0 < room → c.code s action data room = r →
      ¬ r.Progress ∧ P r.ret) :
    CallKeeps c s₀ (decodeSwitch action) action (f₀.taken ++ data) f₀.emitted.length (· = f₀)
      (fun f ret => ∃ r : CodeResult σ, f = f₀.step action data r ∧ r.ret = ret ∧ ¬ r.Progress ∧ P r.ret)
      (fun f ret => ∃ r : CodeResult σ, f = f₀.step action data r ∧ r.ret = ret ∧ ¬ r.Progress ∧ P r.ret) := by
  rintro f s input room r rfl hreach hgiven hroom hr
  obtain rfl : input = data := List.append_cancel_left hgiven
  obtain ⟨hidle, hP⟩ := hstill hreach hroom hr
  have hleft : room - r.emitted.length ≠ 0 := by
    rw [CodeResult.emitted_of_not_progress hidle, List.length_nil]
    omega
  refine ⟨hallow, ?_⟩
  split
  · rename_i hgrow
    exact absurd (decodeSwitch_grow action _ _ hgrow) hleft
  · exact ⟨r, rfl, rfl, hidle, hP⟩
  · exact ⟨r, rfl, rfl, hidle, hP⟩

/-- An operation whose call neither takes nor emits anything: the context keeps its code, and returns no
bytes. -/
theorem decodeOp_still (hreach : Reaches L.coder s₀ f obj.strm.internal)
    (htotal : obj.strm.totalIn = f.taken.length) (hunfinished : obj.status ≠ .streamEnd) (op : DecodeOp)
    {P : LzmaRet → Prop} (hallow : f.Allows op.action op.bytes)
    (hstill : ∀ {s room r}, Reaches L.coder s₀ f s → 0 < room →
      L.coder.code s op.action op.bytes room = r → ¬ r.Progress ∧ P r.ret) (hfuel : 0 < fuel) :
    ∃ ret obj', ∃ r : CodeResult σ, decodeOp L fuel obj op = .ok (ret, obj') ∧
      Reaches L.coder s₀ (f.step op.action op.bytes r) obj'.strm.internal ∧
      obj'.strm.totalIn = (f.step op.action op.bytes r).taken.length ∧
      r.ret = obj'.status ∧ ¬ r.Progress ∧ P r.ret ∧ ret.bytes = [] := by
  obtain ⟨p, hp, f', hreach', -, htotal', hres⟩ := contextProcess_returns (decodeSwitch_grow op.action)
    (decodeStill_callKeeps hallow hstill) rfl hreach fuel (by omega)
  have hop : decodeOp L fuel obj op =
      .ok (returnStr p.out, { obj with strm := p.strm, status := p.status }) := by
    rw [decodeOp_unfinished L fuel hunfinished op]
    simp only [phpXzDecodeContextProcess, hp, ok_bind, pure_eq_ok]
  have htotal'' : p.strm.totalIn = f'.taken.length := by omega
  rcases hres with ⟨o, hout, hgrown, r, rfl, hret, hidle, hP⟩ | ⟨hout, r, rfl, hret, hidle, hP⟩
  · refine ⟨_, _, r, hop, hreach', htotal'', hret, hidle, hP, ?_⟩
    have hsame : (f.step op.action op.bytes r).emitted = f.emitted := by
      simp [Feed.step, CodeResult.emitted_of_not_progress hidle]
    rw [hout]
    exact List.append_right_eq_self.mp (hgrown.symm.trans hsame)
  · refine ⟨_, _, r, hop, hreach', htotal'', hret, hidle, hP, ?_⟩
    rw [hout]
    rfl

/-! ## The states whose status says what it should -/

/-- The ledger of a decoder that was told that no more bytes come, while those it has are not complete. -/
structure Feed.Stuck (f : Feed) (out : List UInt8 → List UInt8) (verdict atEnd : List UInt8 → Verdict) :
    Prop where
  finishing : f.finishing = some []
  notEnded : f.ended = false
  notFailed : f.failed = false
  notLimited : f.limited = false
  emitted_eq : f.emitted = out f.taken
  more : verdict f.taken = .more
  incomplete : atEnd f.taken = .more
  stalls : f.allowBufError = true

/-- The kinds of state: the ledger of the decoder, and the status stored in the context. -/
inductive DecodePhase (out : List UInt8 → List UInt8) (verdict atEnd : List UInt8 → Verdict)
    (f : Feed) (status : LzmaRet) : Prop
  | live (waits : f.Waits out verdict) (takes : f.TakesInput) (status_eq : status = .ok)
  | ended (isEnded : f.ended = true) (notLimited : f.limited = false) (status_eq : status = .streamEnd)
  | refusing (fatal : f.fatal = true) (notEnded : f.ended = false) (notLimited : f.limited = false)
      (awaits : f.Awaits []) (fails : status.fails = true)
  | limited (isLimited : f.limited = true) (notFatal : f.fatal = false) (notEnded : f.ended = false)
      (awaits : f.Awaits []) (notOk : status ≠ .ok) (notEnd : status ≠ .streamEnd)
  | stuck (h : f.Stuck out verdict atEnd) (notOk : status ≠ .ok) (notEnd : status ≠ .streamEnd)

/-- A status other than 0 and 1 says that the decoder has not ended but takes no more input. -/
theorem statusMeans_of_ne (hok : status ≠ .ok) (hend : status ≠ .streamEnd) :
    StatusMeans f status ↔ f.ended = false ∧ ¬ f.TakesInput := by
  rw [StatusMeans, LzmaRet.toInt_eq_one, LzmaRet.toInt_eq_zero]
  simp [hok, hend]

theorem DecodePhase.statusMeans (h : DecodePhase out verdict atEnd f status) : StatusMeans f status := by
  cases h with
  | live waits takes hstatus =>
    rw [StatusMeans, LzmaRet.toInt_eq_one, LzmaRet.toInt_eq_zero, hstatus]
    simp [waits.notEnded, takes]
  | ended isEnded _ hstatus =>
    rw [StatusMeans, LzmaRet.toInt_eq_one, LzmaRet.toInt_eq_zero, hstatus]
    simp [isEnded, Feed.TakesInput]
  | refusing fatal notEnded _ _ fails =>
    obtain ⟨hok, hend, -⟩ := LzmaRet.ne_of_fails fails
    exact (statusMeans_of_ne hok hend).mpr ⟨notEnded, fun htakes => by simp [htakes.2.1] at fatal⟩
  | limited isLimited _ notEnded _ notOk notEnd =>
    exact (statusMeans_of_ne notOk notEnd).mpr
      ⟨notEnded, fun htakes => by simp [htakes.2.2.1] at isLimited⟩
  | stuck hstuck notOk notEnd =>
    exact (statusMeans_of_ne notOk notEnd).mpr
      ⟨hstuck.notEnded, fun htakes => by cases hstuck.finishing.symm.trans htakes.2.2.2⟩

/-- A decoder that waits takes input. -/
theorem Feed.Waits.takesInput (h : f.Waits out verdict) (hreach : Reaches c s₀ f s) : f.TakesInput :=
  ⟨h.notEnded, hreach.not_fatal h.notFailed, hreach.not_limited h.running h.notFailed, h.running⟩

/-- What it has taken is undecided. -/
theorem Feed.Waits.decidedAt (h : f.Waits out verdict) (hdec : ByteDecoder c s₀ out verdict)
    (hreach : Reaches c s₀ f s) : DecidedAt verdict f.taken f.taken .more :=
  ⟨List.prefix_rfl, h.more, fun _ => hdec.never_past hreach h.running h.notFailed, fun _ => rfl⟩

/-! ## What one operation does to them -/

/-- What an operation does in a state whose status says what it should: if it fits, it leads to another one
of these, and else to a status that is misleading. -/
structure PhaseStep (out : List UInt8 → List UInt8) (verdict atEnd : List UInt8 → Verdict)
    (code : List UInt8 → LzmaRet) (quiet : List UInt8 → Bool) (f : Feed) (status : LzmaRet) (op : DecodeOp)
    (f' : Feed) (status' : LzmaRet) : Prop where
  fits : StepFits verdict atEnd code quiet f status op → DecodePhase out verdict atEnd f' status'
  misfits : ¬ StepFits verdict atEnd code quiet f status op → ¬ StatusMeans f' status'

theorem PhaseStep.of_fits {op : DecodeOp} (hfits : StepFits verdict atEnd code quiet f status op)
    (h : DecodePhase out verdict atEnd f' status') :
    PhaseStep out verdict atEnd code quiet f status op f' status' :=
  ⟨fun _ => h, fun hno => absurd hfits hno⟩

theorem PhaseStep.of_misfits {op : DecodeOp} (hno : ¬ StepFits verdict atEnd code quiet f status op)
    (h : ¬ StatusMeans f' status') : PhaseStep out verdict atEnd code quiet f status op f' status' :=
  ⟨fun hfits => absurd hfits hno, fun _ => h⟩

/-- On a decoder that has not met the memory limit and whose status is not 0, every operation fits. -/
theorem stepFits_of_ne (hok : status ≠ .ok) (hlimited : f.limited = false) (op : DecodeOp) :
    StepFits verdict atEnd code quiet f status op := by
  cases op <;> simp [StepFits, hok, Feed.HidesLimit, hlimited]

/-- Where the bytes are decided in another way than by telling something, only a chunk that is empty can be
one that does not fit. -/
theorem stepFits_add_of_decidedAt {chunk x : List UInt8} {v : Verdict} (hlimited : f.limited = false)
    (hat : DecidedAt verdict (f.taken ++ chunk) x v) (htells : v = .failed → (code x).announces = false)
    (hstall : chunk = [] → f.allowBufError = false) :
    StepFits verdict atEnd code quiet f status (.add chunk) := by
  refine ⟨?_, ?_, ?_⟩
  · rintro ⟨-, hchunk, hbuf⟩
    rw [hstall hchunk] at hbuf
    cases hbuf
  · rintro ⟨-, y, hat', hannounces⟩
    obtain ⟨rfl, rfl⟩ := hat.unique hat'
    rw [htells rfl] at hannounces
    cases hannounces
  · rintro ⟨-, -, h, -⟩
    rw [hlimited] at h
    cases h

/-- Finishing fits where the bytes are not an incomplete stream, or where the last call found nothing to do. -/
theorem stepFits_finish (hlimited : f.limited = false) (h : atEnd f.taken = .more → f.allowBufError = true) :
    StepFits verdict atEnd code quiet f status .finish := by
  refine ⟨?_, ?_⟩
  · rintro ⟨-, hbuf, hmore⟩
    rw [h hmore] at hbuf
    cases hbuf
  · rintro ⟨hlimit, -⟩
    rw [hlimited] at hlimit
    cases hlimit

/-- A decoder fails with the code that belongs to the wrong bytes. -/
theorem FailedCall.code_eq {given x : List UInt8} {ret : LzmaRet} (h : FailedCall c s₀ given f' ret)
    (hdec : StatusDecoder c s₀ out verdict atEnd code quiet) (hat : DecidedAt verdict given x .failed) :
    ret = code x := by
  obtain ⟨hreach, hf, hend, hx, rfl, hroom, hr, hfails⟩ := h
  exact hdec.run_code hreach hf hend hx hroom hr hfails hat

/-- After a failure the status says that no more input is taken, and what goes on is a decoder that has only
told something. -/
theorem FailedCall.phase {given : List UInt8} {ret : LzmaRet} (h : FailedCall c s₀ given f' ret) :
    (ret.announces = false → DecodePhase out verdict atEnd f' ret) ∧
    (ret.announces = true → ¬ StatusMeans f' ret) := by
  obtain ⟨hreach, hf, hend, hx, -, -, -, hfails⟩ := h
  rename_i f s input room r
  obtain ⟨hok, hnotEnd, -⟩ := LzmaRet.ne_of_fails hfails
  have hended : (f.step .run input r).ended = false := by simp [Feed.step, hend, hnotEnd]
  have hnotFatal : f.fatal = false := hreach.not_fatal hx
  have hnotLimited : f.limited = false := hreach.not_limited hf hx
  rcases LzmaRet.fails_cases hfails with ⟨hfatal, htells, hlimit⟩ | ⟨htells, hfatal, hlimit⟩ | hlimit
  · refine ⟨fun _ => .refusing ?_ hended ?_ (Or.inl hf) hfails, fun h => absurd h (by simp [htells])⟩
    · simp [Feed.step, hfatal, Feed.refuses, hf]
    · simp [Feed.step, hnotLimited, hlimit]
  · refine ⟨fun h => absurd h (by simp [htells]), fun _ hmeans => ?_⟩
    refine ((statusMeans_of_ne hok hnotEnd).mp hmeans).2 ⟨hended, ?_, ?_, hf⟩
    · simp [Feed.step, hnotFatal, hfatal]
    · simp [Feed.step, hnotLimited, hlimit]
  · refine ⟨fun _ => .limited ?_ ?_ hended (Or.inl hf) hok hnotEnd, fun h => by rw [hlimit] at h; cases h⟩
    · simp [Feed.step, hlimit]
    · simp [Feed.step, hnotFatal, hlimit, LzmaRet.isFatal]

/-- Adding a chunk to a live context. -/
theorem phaseStep_add_live (hdec : StatusDecoder c s₀ out verdict atEnd code quiet) {s' : σ}
    (hreach : Reaches c s₀ f s) (hwaits : f.Waits out verdict) (hreach' : Reaches c s₀ f' s')
    {chunk : List UInt8} (htaken : f'.taken <+: f.taken ++ chunk)
    (hout : DecodeOutcome c s₀ out verdict f chunk f' status') :
    PhaseStep out verdict atEnd code quiet f .ok (.add chunk) f' status' := by
  have hlimited : f.limited = false := hreach.not_limited hwaits.running hwaits.notFailed
  -- where the bytes are decided, the chunk is not empty
  have hstall : ∀ {x v}, DecidedAt verdict (f.taken ++ chunk) x v → v ≠ .more → chunk = [] →
      f.allowBufError = false := by
    rintro x v hat hv rfl
    rw [List.append_nil] at hat
    exact absurd (hat.unique (hwaits.decidedAt hdec.toByteDecoder hreach)).2 hv
  cases hout with
  | live hwaits' htaken' hstatus' =>
    have hat := hwaits'.decidedAt hdec.toByteDecoder hreach'
    rw [htaken'] at hat
    have htakes := hwaits'.takesInput hreach'
    by_cases hstalled : f.allowBufError = true ∧ chunk = []
    · rw [if_pos hstalled] at hstatus'
      refine .of_misfits (fun h => h.1 ⟨rfl, hstalled.2, hstalled.1⟩) fun hmeans => ?_
      rw [hstatus', statusMeans_of_ne (by decide) (by decide)] at hmeans
      exact hmeans.2 htakes
    · rw [if_neg hstalled] at hstatus'
      refine .of_fits (stepFits_add_of_decidedAt hlimited hat (fun h => by cases h) fun hchunk => ?_)
        (.live hwaits' htakes hstatus')
      simpa [hchunk] using hstalled
  | ended hf' hend hfail' _ hverdict hstatus' =>
    have hat : DecidedAt verdict (f.taken ++ chunk) f'.taken .ended :=
      ⟨htaken, hverdict, fun z => hdec.never_past hreach' hf' hfail', fun h => by cases h⟩
    exact .of_fits (stepFits_add_of_decidedAt hlimited hat (fun h => by cases h) (hstall hat (by decide)))
      (.ended hend (hreach'.not_limited hf' hfail') hstatus')
  | failed hcall =>
    obtain ⟨x, hat⟩ := hcall.bad hdec.toByteDecoder
    have hcode := hcall.code_eq hdec hat
    obtain ⟨hphase, hmisleads⟩ : (_ → DecodePhase out verdict atEnd f' status') ∧ _ := hcall.phase
    cases htells : status'.announces with
    | true => exact .of_misfits (fun h => h.2.1 ⟨rfl, x, hat, hcode ▸ htells⟩) (hmisleads htells)
    | false =>
      exact .of_fits (stepFits_add_of_decidedAt hlimited hat (fun _ => hcode ▸ htells) (hstall hat (by decide)))
        (hphase htells)

/-- Finishing a decoder that waits, or that has been told before that no more bytes come. -/
theorem phaseStep_finish (hfail : f.failed = false) (hend : f.ended = false) (hlimited : f.limited = false)
    (hout : f.emitted = out f.taken) (hmore : verdict f.taken = .more)
    (hstatus : f.allowBufError = false → status = .ok) (hidle : ¬ r.Progress)
    (hret : f.FinishCode r.ret (atEnd f.taken)) :
    PhaseStep out verdict atEnd code quiet f status .finish (f.step .finish [] r) r.ret := by
  have hnil := CodeResult.emitted_of_not_progress hidle
  have hfin : (f.step .finish [] r).finishing = some [] := by simp [Feed.step]
  have htaken : (f.step .finish [] r).taken = f.taken := by simp [Feed.step]
  cases hatEnd : atEnd f.taken with
  | ended =>
    rw [hatEnd, Feed.FinishCode] at hret
    refine .of_fits (stepFits_finish hlimited fun h => by cases hatEnd.symm.trans h) (.ended ?_ ?_ hret)
    · simp [Feed.step, hret]
    · simp [Feed.step, hlimited, hret]
  | failed =>
    rw [hatEnd, Feed.FinishCode] at hret
    have hfails := LzmaRet.fails_of_isFatal hret
    refine .of_fits (stepFits_finish hlimited fun h => by cases hatEnd.symm.trans h)
      (.refusing ?_ ?_ ?_ (Or.inr hfin) hfails)
    · simp [Feed.step, Feed.refuses, hret]
    · simp [Feed.step, hend, (LzmaRet.ne_of_fails hfails).2.1]
    · have hne : r.ret ≠ .memlimitError := by
        intro h
        rw [h] at hret
        cases hret
      simp [Feed.step, hlimited, hne]
  | more =>
    rw [hatEnd, Feed.FinishCode] at hret
    have hstuck : (f.step .finish [] r).Stuck out verdict atEnd := by
      refine ⟨hfin, ?_, ?_, ?_, ?_, by rw [htaken, hmore], by rw [htaken, hatEnd], ?_⟩ <;>
        rcases f.stallCode_cases with hcode | hcode <;>
        simp [Feed.step, hend, hfail, hlimited, hnil, hout, hidle, hret, hcode, LzmaRet.fails]
    cases hbuf : f.allowBufError with
    | true =>
      have hret' : r.ret = .bufError := by simp [hret, Feed.stallCode, hbuf]
      exact .of_fits (stepFits_finish hlimited fun _ => hbuf)
        (.stuck hstuck (by simp [hret']) (by simp [hret']))
    | false =>
      have hret' : r.ret = .ok := by simp [hret, Feed.stallCode, hbuf]
      refine .of_misfits (fun h => h.1 ⟨hstatus hbuf, hbuf, hatEnd⟩) fun hmeans => ?_
      rw [hret'] at hmeans
      cases hfin.symm.trans (hmeans.2.mp rfl).2.2.2

/-- Adding to a decoder that was told that no more bytes come: the call is refused. -/
theorem phaseStep_refused (hstuck : f.Stuck out verdict atEnd) (hok : status ≠ .ok) {chunk : List UInt8}
    (hidle : ¬ r.Progress) (hret : r.ret = .progError) :
    PhaseStep out verdict atEnd code quiet f status (.add chunk) (f.step .run chunk r) r.ret := by
  have hnil := CodeResult.emitted_of_not_progress hidle
  have h0 : r.taken = 0 := by
    by_contra hpos
    exact hidle (Or.inl (Nat.pos_of_ne_zero hpos))
  refine .of_fits (stepFits_of_ne hok hstuck.notLimited _)
    (.stuck ⟨hstuck.finishing, ?_, ?_, ?_, ?_, ?_, ?_, ?_⟩ (by simp [hret]) (by simp [hret]))
  · simp [Feed.step, hstuck.notEnded, hret]
  · simp [Feed.step, hstuck.notFailed, Feed.refuses, hstuck.finishing]
  · simp [Feed.step, hstuck.notLimited, hret]
  · simp [Feed.step, h0, hnil, hstuck.emitted_eq]
  · simp [Feed.step, h0, hstuck.more]
  · simp [Feed.step, h0, hstuck.incomplete]
  · simp [Feed.step, hret, hstuck.stalls]

/-- The calls that an operation makes are allowed, and the next one's are again. -/
theorem Feed.Awaits.allows (h : f.Awaits []) (op : DecodeOp) : f.Allows op.action op.bytes := by
  cases op with
  | add chunk => trivial
  | finish => exact h

theorem Feed.Awaits.step (h : f.Awaits []) (op : DecodeOp) : (f.step op.action op.bytes r).Awaits [] := by
  cases op with
  | add chunk => exact h
  | finish => exact Or.inr (by simp [Feed.step, DecodeOp.action, DecodeOp.bytes])

/-- Any operation on a decoder that refuses all calls. -/
theorem phaseStep_refusing (hfatal : f.fatal = true) (hend : f.ended = false) (hlimited : f.limited = false)
    (hawaits : f.Awaits []) (hfails : status.fails = true) (op : DecodeOp) (hret : r.ret = .progError) :
    PhaseStep out verdict atEnd code quiet f status op (f.step op.action op.bytes r) r.ret := by
  refine .of_fits (stepFits_of_ne (LzmaRet.ne_of_fails hfails).1 hlimited op)
    (.refusing ?_ ?_ ?_ (hawaits.step op) (by rw [hret]; rfl))
  · simp [Feed.step, hfatal]
  · simp [Feed.step, hend, hret]
  · simp [Feed.step, hlimited, hret]

/-- Any operation on a decoder that has met the memory limit. -/
theorem phaseStep_limited (hlimited : f.limited = true) (hfatal : f.fatal = false) (hend : f.ended = false)
    (hawaits : f.Awaits []) (hok : status ≠ .ok) (op : DecodeOp)
    (hret : r.ret = f.limitCode quiet op.action op.bytes) :
    PhaseStep out verdict atEnd code quiet f status op (f.step op.action op.bytes r) r.ret := by
  have hlimited' : (f.step op.action op.bytes r).limited = true := by simp [Feed.step, hlimited]
  have hhides : r.ret = .ok ↔ f.refuses op.action = false ∧ op.bytes = [] ∧ f.HidesLimit quiet := by
    rw [hret, Feed.limitCode, Feed.HidesLimit, Feed.stallCode]
    cases f.refuses op.action <;> cases quiet f.taken <;> cases f.allowBufError <;>
      by_cases h : op.bytes = [] <;> simp [h, hlimited]
  have hfits : StepFits verdict atEnd code quiet f status op ↔ r.ret ≠ .ok := by
    rw [ne_eq, hhides]
    cases op with
    | add chunk => simp [StepFits, hok, DecodeOp.action, DecodeOp.bytes, Feed.refuses]
    | finish => simp [StepFits, hok, DecodeOp.action, DecodeOp.bytes, Feed.refuses]
  by_cases hzero : r.ret = .ok
  · refine .of_misfits (fun h => hfits.mp h hzero) fun hmeans => ?_
    rw [hzero] at hmeans
    cases hlimited'.symm.trans (hmeans.2.mp rfl).2.2.1
  · have hnotEnd : r.ret ≠ .streamEnd ∧ (r.ret.isFatal = true → f.refuses op.action = true) := by
      rw [hret, Feed.limitCode]
      split
      · simp_all
      split
      · rcases f.stallCode_cases with h | h <;> simp [h, LzmaRet.isFatal]
      · simp [LzmaRet.isFatal]
    refine .of_fits (hfits.mpr hzero) (.limited hlimited' ?_ ?_ (hawaits.step op) hzero hnotEnd.1)
    · cases hisFatal : r.ret.isFatal with
      | true => simp [Feed.step, hfatal, hnotEnd.2 hisFatal]
      | false => simp [Feed.step, hfatal, hisFatal]
    · simp [Feed.step, hend, hnotEnd.1]

/-- A call that says that no more bytes come neither takes nor emits anything. -/
theorem FinishingDecoder.finish_still (hdec : FinishingDecoder c s₀ out verdict atEnd)
    (hawaits : f.Awaits []) (hend : f.ended = false) (hfail : f.failed = false)
    (hout : f.emitted = out f.taken) (hmore : verdict f.taken = .more) {room : Nat}
    (hreach : Reaches c s₀ f s) (hroom : 0 < room) (hr : c.code s .finish [] room = r) :
    ¬ r.Progress ∧ f.FinishCode r.ret (atEnd f.taken) := by
  obtain ⟨hnil, hret⟩ := hdec.finish_call hreach hawaits hend hfail hout hmore hroom hr
  have h0 : r.taken = 0 := Nat.le_zero.mp (hr ▸ c.taken_le s .finish [] room)
  exact ⟨by simp [CodeResult.Progress, h0, hnil], hret⟩

/-- **One operation** in a state whose status says what it should. -/
theorem decodeOp_phase (hdec : StatusDecoder L.coder s₀ out verdict atEnd code quiet)
    (hreach : Reaches L.coder s₀ f obj.strm.internal) (htotal : obj.strm.totalIn = f.taken.length)
    (hphase : DecodePhase out verdict atEnd f obj.status) (op : DecodeOp)
    (hfuel : (out (f.taken ++ op.bytes)).length < fuel) :
    ∃ ret obj' f', decodeOp L fuel obj op = .ok (ret, obj') ∧ Reaches L.coder s₀ f' obj'.strm.internal ∧
      PhaseStep out verdict atEnd code quiet f obj.status op f' obj'.status := by
  -- all but one case come down to a single call that does nothing
  have still : ∀ {P : LzmaRet → Prop}, obj.status ≠ .streamEnd → f.Awaits [] →
      (∀ {s room r}, Reaches L.coder s₀ f s → 0 < room → L.coder.code s op.action op.bytes room = r →
        ¬ r.Progress ∧ P r.ret) →
      (∀ {r : CodeResult σ}, ¬ r.Progress → P r.ret →
        PhaseStep out verdict atEnd code quiet f obj.status op (f.step op.action op.bytes r) r.ret) →
      ∃ ret obj' f', decodeOp L fuel obj op = .ok (ret, obj') ∧ Reaches L.coder s₀ f' obj'.strm.internal ∧
        PhaseStep out verdict atEnd code quiet f obj.status op f' obj'.status := by
    intro P hunfinished hawaits hstill hstep
    obtain ⟨ret, obj', r, hop, hreach', -, hret, hidle, hP, -⟩ :=
      decodeOp_still hreach htotal hunfinished op (hawaits.allows op) hstill
        (Nat.lt_of_le_of_lt (Nat.zero_le _) hfuel)
    exact ⟨ret, obj', _, hop, hreach', hret ▸ hstep hidle hP⟩
  cases hphase with
  | live hwaits htakes hstatus =>
    have hunfinished : obj.status ≠ .streamEnd := by simp [hstatus]
    cases op with
    | add chunk =>
      obtain ⟨ret, obj', f', hadd, hreach', -, htaken, hout, -⟩ :=
        xzDecodeAdd_spec hdec.toByteDecoder ⟨hreach, hwaits, htotal, hunfinished⟩ chunk fuel hfuel
      exact ⟨ret, obj', f', hadd, hreach', hstatus ▸ phaseStep_add_live hdec hreach hwaits hreach' htaken hout⟩
    | finish =>
      have hawaits : f.Awaits [] := Or.inl hwaits.running
      exact still (P := (f.FinishCode · (atEnd f.taken))) hunfinished hawaits
        (hdec.finish_still hawaits hwaits.notEnded hwaits.notFailed hwaits.emitted_eq hwaits.more)
        (phaseStep_finish hwaits.notFailed hwaits.notEnded htakes.2.2.1 hwaits.emitted_eq hwaits.more
          fun _ => hstatus)
  | ended hend hlimited hstatus =>
    obtain ⟨ret, hop⟩ := decodeOp_finished L fuel hstatus op
    exact ⟨ret, obj, f, hop, hreach, .of_fits (stepFits_of_ne (by simp [hstatus]) hlimited op)
      (.ended hend hlimited hstatus)⟩
  | refusing hfatal hend hlimited hawaits hfails =>
    exact still (P := (· = .progError)) (LzmaRet.ne_of_fails hfails).2.1 hawaits
      (fun hreach hroom hr => (hdec.refuses hreach hfatal hroom hr).symm)
      fun _ hret => phaseStep_refusing hfatal hend hlimited hawaits hfails op hret
  | limited hlimited hfatal hend hawaits hok hnotEnd =>
    exact still (P := (· = f.limitCode quiet op.action op.bytes)) hnotEnd hawaits
      (hdec.repeats · hlimited hfatal (hawaits.allows op))
      fun _ => phaseStep_limited hlimited hfatal hend hawaits hok op
  | stuck hstuck hok hnotEnd =>
    cases op with
    | add chunk =>
      exact still (P := (· = .progError)) hnotEnd (Or.inr hstuck.finishing)
        (fun hreach hroom hr =>
          (hdec.run_refused hreach (by simp [hstuck.finishing]) hstuck.notEnded hroom hr).symm)
        fun hidle hret => phaseStep_refused hstuck hok hidle hret
    | finish =>
      have hawaits : f.Awaits [] := Or.inr hstuck.finishing
      exact still (P := (f.FinishCode · (atEnd f.taken))) hnotEnd hawaits
        (hdec.finish_still hawaits hstuck.notEnded hstuck.notFailed hstuck.emitted_eq hstuck.more)
        (phaseStep_finish hstuck.notFailed hstuck.notEnded hstuck.notLimited hstuck.emitted_eq hstuck.more
          fun h => by cases h.symm.trans hstuck.stalls)

/-! ## One operation in any state -/

/-- The loop ends in every state: what it goes round for is output that is still to come. -/
theorem decodeAny_callKeeps (hdec : FinishingDecoder c s₀ out verdict atEnd) (op : DecodeOp) (f₀ : Feed) :
    CallKeeps c s₀ (decodeSwitch op.action) op.action (f₀.taken ++ op.bytes)
      (out (f₀.taken ++ op.bytes)).length
      (fun f => f.Awaits [] ∧ (op = .finish → f.taken = f₀.taken))
      (fun f _ => f.Awaits []) (fun f _ => f.Awaits []) := by
  rintro f s input room r ⟨hawaits, hsame⟩ hreach hgiven hroom hr
  have hinput : op = .finish → input = [] := by
    intro hop
    rw [hsame hop, hop] at hgiven
    exact List.append_cancel_left hgiven
  have hallow : f.Allows op.action input := by
    cases op with
    | add chunk => trivial
    | finish => exact hinput rfl ▸ hawaits
  have hawaits' : (f.step op.action input r).Awaits [] := by
    cases op with
    | add chunk => exact hawaits
    | finish => exact Or.inr (by simp [Feed.step, DecodeOp.action, hinput rfl])
  refine ⟨hallow, ?_⟩
  split
  · rename_i hgrow
    refine ⟨⟨hawaits', fun hop => ?_⟩, ?_⟩
    · simp [Feed.step, hinput hop, hsame hop]
    · -- a call after which the loop goes on has not failed
      have hfine : r.ret.fails = false := by
        by_contra hfails
        rw [decodeSwitch_fails (by simpa using hfails)] at hgrow
        cases hgrow
      have hnotFatal : f.fatal = false := by
        by_contra hfatal
        rw [(hdec.refuses hreach (by simpa using hfatal) hroom hr).1] at hfine
        cases hfine
      have hstill : (f.step op.action input r).fatal = false := by
        have hlight : r.ret.isFatal = false := by
          by_contra hfatal
          rw [LzmaRet.fails_of_isFatal (by simpa using hfatal)] at hfine
          cases hfine
        simp [Feed.step, hnotFatal, hlight]
      have hreach' : Reaches c s₀ (f.step op.action input r) r.state :=
        hr ▸ .call op.action input room hreach hallow hroom
      have hpre := hdec.out_prefix hreach' hstill
      have htaken : (f.step op.action input r).taken <+: f₀.taken ++ op.bytes :=
        hgiven ▸ Feed.taken_step_prefix op.action
      exact (hpre.trans (hdec.out_mono htaken)).length_le
  · exact hawaits'
  · exact hawaits'

/-- A state that a script can reach: the ledger beside the coder is the one that led there, `total_in` counts
what it has taken, and a finished one has nothing left to take. -/
structure DecodeReached (c : Coder σ) (s₀ : σ) (obj : XzDecodeContext (σ × Feed)) : Prop where
  reaches : Reaches c.logged (s₀, {}) obj.ledger obj.strm.internal
  totalIn : obj.strm.totalIn = obj.ledger.taken.length
  awaits : obj.ledger.Awaits []

/-- **One operation** in any state a script can reach. -/
theorem decodeOp_reached {obj : XzDecodeContext (σ × Feed)}
    (hdec : StatusDecoder L.coder s₀ out verdict atEnd code quiet) (hobj : DecodeReached L.coder s₀ obj)
    (op : DecodeOp) :
    Returns (fun fuel => decodeOp L.logged fuel obj op) fun p => DecodeReached L.coder s₀ p.2 ∧
      (DecodePhase out verdict atEnd obj.ledger obj.status →
        PhaseStep out verdict atEnd code quiet obj.ledger obj.status op p.2.ledger p.2.status) := by
  obtain ⟨n, hn⟩ : ∃ n, n = (out (obj.ledger.taken ++ op.bytes)).length + 1 := ⟨_, rfl⟩
  obtain ⟨ret, obj', hop, hobj'⟩ : ∃ ret obj', decodeOp L.logged n obj op = .ok (ret, obj') ∧
      DecodeReached L.coder s₀ obj' := by
    by_cases hunfinished : obj.status = .streamEnd
    · obtain ⟨ret, hop⟩ := decodeOp_finished L.logged n hunfinished op
      exact ⟨ret, obj, hop, hobj⟩
    · obtain ⟨p, hp, f', hreach', -, htotal', hres⟩ := contextProcess_returns (decodeSwitch_grow op.action)
        (decodeAny_callKeeps hdec.logged.toFinishingDecoder op obj.ledger) ⟨hobj.awaits, fun _ => rfl⟩
        hobj.reaches n (by omega)
      have hawaits : f'.Awaits [] := by
        rcases hres with ⟨-, -, -, h⟩ | ⟨-, h⟩
        · exact h
        · exact h
      refine ⟨returnStr p.out, { obj with strm := p.strm, status := p.status }, ?_, ?_⟩
      · rw [decodeOp_unfinished L.logged n hunfinished op, phpXzDecodeContextProcess]
        rw [show L.logged.coder = L.coder.logged from rfl, hp]
        rfl
      · obtain rfl : p.strm.internal.2 = f' := hreach'.of_logged.1
        have htotal := hobj.totalIn
        have htotal'' : p.strm.totalIn = p.strm.internal.2.taken.length := by omega
        exact ⟨hreach', htotal'', hawaits⟩
  have hroom : (out (obj.ledger.taken ++ op.bytes)).length < n := by omega
  refine .of_ok hop ⟨hobj', fun hphase => ?_⟩ decodeOp_mono
  obtain ⟨ret₁, obj₁, f₁, hop₁, hreach₁, hstep⟩ := decodeOp_phase (L := L.logged) hdec.logged hobj.reaches
    hobj.totalIn hphase op hroom
  obtain ⟨rfl, rfl⟩ : ret = ret₁ ∧ obj' = obj₁ := Prod.mk.inj (Except.ok.inj (hop.symm.trans hop₁))
  obtain rfl : obj'.ledger = f₁ := hreach₁.of_logged.1
  exact hstep

/-! ## Whole scripts -/

/-- In a state whose status says what it should, status 0 means that the rest can be added. -/
theorem DecodeReached.addsDecode {obj : XzDecodeContext (σ × Feed)}
    (hdec : StatusDecoder L.coder s₀ out verdict atEnd code quiet) (h : DecodeReached L.coder s₀ obj)
    (hphase : DecodePhase out verdict atEnd obj.ledger obj.status) :
    AddsDecode out verdict L.logged obj.ledger obj := by
  intro hzero rest fuel hfuel hfirst hgood
  have hok : obj.status = .ok := LzmaRet.toInt_eq_zero.mp hzero
  have hwaits : obj.ledger.Waits out verdict := by
    cases hphase with
    | live waits _ _ => exact waits
    | ended _ _ hstatus => cases hok.symm.trans hstatus
    | refusing _ _ _ _ hfails => exact absurd hok (LzmaRet.ne_of_fails hfails).1
    | limited _ _ _ _ hne _ => exact absurd hok hne
    | stuck _ hne _ => exact absurd hok hne
  have hall : DecidedAt verdict (obj.ledger.taken ++ rest) (obj.ledger.taken ++ rest)
      (verdict (obj.ledger.taken ++ rest)) := ⟨List.prefix_rfl, rfl, hfirst, fun _ => rfl⟩
  obtain ⟨ret, obj', f', hadd, hreach', -, htaken, hout, hret⟩ :=
    xzDecodeAdd_spec (L := L.logged) hdec.logged.toByteDecoder
      ⟨h.reaches, hwaits, h.totalIn, by rw [hok]; decide⟩ rest fuel hfuel
  cases hout with
  | live hwaits' htaken' hstatus' =>
    have hnot : obj'.status.fails = false := by rw [hstatus']; split <;> rfl
    rw [hnot] at hret
    obtain ⟨o, rfl, hemitted⟩ := hret
    refine ⟨o, obj', hadd, by rw [← hemitted, hwaits'.emitted_eq, htaken'], fun hend => ?_⟩
    rw [← htaken', hwaits'.more] at hend
    cases hend
  | ended hf' hend hfail' hemitted' hverdict hstatus' =>
    -- the place where the decoder stopped is the only one where the bytes are decided
    have hat : DecidedAt verdict (obj.ledger.taken ++ rest) f'.taken .ended :=
      ⟨htaken, hverdict, fun z => hdec.logged.never_past hreach' hf' hfail', fun h => by cases h⟩
    rw [hstatus'] at hret
    obtain ⟨o, rfl, hemitted⟩ := hret
    refine ⟨o, obj', hadd, by rw [← hemitted, hemitted', (hat.unique hall).1], fun _ => ?_⟩
    rw [xzDecodeGetStatus, hstatus']
    rfl
  | failed hcall =>
    obtain ⟨x, hat⟩ := hcall.bad hdec.logged.toByteDecoder
    exact absurd (hat.unique hall).2.symm hgood

/-- **A whole script** returns, through states that it can reach. From a state whose status says what it
should, it says so in all of them if and only if all operations fit, and then status 0 means that the rest can
be added. -/
theorem decodeTrace_reached (hdec : StatusDecoder L.coder s₀ out verdict atEnd code quiet)
    (ops : List DecodeOp) :
    ∀ {obj : XzDecodeContext (σ × Feed)}, DecodeReached L.coder s₀ obj →
      Returns (fun fuel => decodeTrace L.logged fuel obj ops) fun moves =>
        DecodePhase out verdict atEnd obj.ledger obj.status →
          ((∀ m ∈ moves, StepFits verdict atEnd code quiet m.before.ledger m.before.status m.op) →
            ∀ m ∈ moves, StatusMeans m.after.ledger m.after.status ∧
              AddsDecode out verdict L.logged m.after.ledger m.after) ∧
          ((∀ m ∈ moves, StatusMeans m.after.ledger m.after.status) →
            ∀ m ∈ moves, StepFits verdict atEnd code quiet m.before.ledger m.before.status m.op) := by
  induction ops with
  | nil => exact fun _ => .ok fun _ => ⟨by simp, by simp⟩
  | cons op ops ih =>
    intro obj hobj
    refine (decodeOp_reached hdec hobj op).bind ?_
    rintro ⟨ret, obj'⟩ ⟨hobj', hstep⟩
    refine (ih hobj').bind fun moves hmoves => .ok fun hphase => ?_
    have hstep := hstep hphase
    simp only [List.forall_mem_cons]
    constructor
    · rintro ⟨hfits, hrest⟩
      have hphase' := hstep.fits hfits
      exact ⟨⟨hphase'.statusMeans, hobj'.addsDecode hdec hphase'⟩, (hmoves hphase').1 hrest⟩
    · rintro ⟨hmeans, hrest⟩
      have hfits : StepFits verdict atEnd code quiet obj.ledger obj.status op := by
        by_contra hno
        exact hstep.misfits hno hmeans
      exact ⟨hfits, (hmoves (hstep.fits hfits)).2 hrest⟩

/-- A context made over a library with ledgers starts with an empty one. -/
theorem xzDecodeInit_ledger {ini : Ini} {format : Option ZendLong} {options : Option Options}
    {obj : XzDecodeContext (σ × Feed)}
    (hinit : xzDecodeInit L.logged ini format options = .value obj) : obj.ledger = {} := by
  have hmap : ∀ x : Except LzmaRet σ, ∀ p,
      (x.map fun s => (s, ({} : Feed))).toOption = some p → p.2 = {} := by
    rintro (e | s) p h
    · cases h
    · cases h
      rfl
  have hcreate : ∀ format flags memoryLimit filterId dictSize lc lp pb p,
      createDecoder L.logged format flags memoryLimit filterId dictSize lc lp pb = some p →
        p.2 = {} := by
    intro format flags memoryLimit filterId dictSize lc lp pb p h
    unfold createDecoder at h
    split at h
    · split at h
      · cases h
      · exact hmap _ _ h
    · exact hmap _ _ h
  simp only [xzDecodeInit] at hinit
  split at hinit
  · cases hinit
  split at hinit
  · cases hinit
  split at hinit
  · cases hinit
  split at hinit
  · cases hinit
  · rename_i s hs
    cases hinit
    exact hcreate _ _ _ _ _ _ _ _ _ hs

/-- A fresh context is a reachable state, and its status says what it should. -/
theorem xzDecodeInit_reached {ini : Ini} {format : Option ZendLong} {options : Option Options}
    {obj : XzDecodeContext (σ × Feed)}
    (hinit : xzDecodeInit L.logged ini format options = .value obj)
    (hdec : StatusDecoder L.coder obj.strm.internal.1 out verdict atEnd code quiet) :
    DecodeReached L.coder obj.strm.internal.1 obj ∧ DecodePhase out verdict atEnd obj.ledger obj.status := by
  have hledger := xzDecodeInit_ledger hinit
  obtain ⟨hstrm, hstatus⟩ := xzDecodeInit_fresh hinit
  have hpair : obj.strm.internal = (obj.strm.internal.1, {}) := Prod.ext rfl hledger
  refine ⟨⟨?_, ?_, ?_⟩, ?_⟩
  · rw [hledger, hpair]
    exact .start
  · rw [hledger, hstrm]
    rfl
  · rw [hledger]
    exact Or.inl rfl
  · rw [hledger]
    exact .live ⟨rfl, rfl, rfl, hdec.out_nil.symm, hdec.verdict_nil⟩ ⟨rfl, rfl, rfl, rfl⟩ hstatus

/-- The decoder of single streams, with next to no memory: what it does not know needs too much of it. -/
def lowMemoryTable : Table := { sealTable with tooLarge := fun _ => true, quiet := fun _ => true }

/-- There the empty chunk hides that the limit was met. -/
example : (decodeTrace (tableLiblzma markEncoder lowMemoryTable) 9 ⟨.init lowMemoryTable.start, .ok, 0⟩
    [.add [1, 5, 2], .add []]).map (·.map (xzDecodeGetStatus ·.after)) = .ok [6, 0] := rfl

end PhpExtXz
