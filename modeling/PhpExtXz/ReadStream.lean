/-
# PhpExtXz.ReadStream — what the read operation does, for any coder and any stream below.

Between operations a stream opened for reading holds a window of decoded bytes, from `out_buf_idx` to
`next_out`, that have not been handed out; `Windowed` is the invariant that makes it one. A pass of the
loop in `php_xziop_read` hands out from the window; once the window is empty it looks for the end of
the file, refills `in_buf` if that is empty too, and calls the coder.

`ReadStep` says once what a pass can do. Nothing is assumed here of the coder or of the stream below.
-/
import PhpExtXz.WriteStream

namespace PhpExtXz

open FuelLoop

variable {σ ι : Type}

namespace XzStreamCtx

/-! ## The window -/

/-- The decoded bytes that have not been handed out. -/
def waiting (self : XzStreamCtx σ ι) : List UInt8 :=
  match self.outBufIdx with
  | some idx => self.outPending.drop idx
  | none => []

/-- `out_buf_idx` points into what has been decoded, and an empty window leaves room to decode into. -/
structure Windowed (ctx : XzStreamCtx σ ι) : Prop where
  bounded : ctx.Bounded
  idx : ∃ idx, ctx.outBufIdx = some idx ∧ idx ≤ ctx.strm.nextOut
  room : ctx.outBufIdx = some ctx.strm.nextOut → 0 < ctx.strm.availOut

/-- `e` is `ctx` with its window handed out. -/
structure Emptied (ctx e : XzStreamCtx σ ι) : Prop where
  bounded : e.Bounded
  atNextOut : e.outBufIdx = some e.strm.nextOut
  room : 0 < e.strm.availOut
  aligned : e.strm.nextOut % XZ_BUFFER_SIZE = ctx.strm.nextOut % XZ_BUFFER_SIZE
  internal : e.strm.internal = ctx.strm.internal
  availIn : e.strm.availIn = ctx.strm.availIn
  totalIn : e.strm.totalIn = ctx.strm.totalIn
  inPending : e.inPending = ctx.inPending
  stream : e.stream = ctx.stream
  isWrite : e.isWrite = ctx.isWrite
  eof : e.eof = ctx.eof
  log : e.log = ctx.log

/-- `e₁` is `e` with `in_buf` refilled from the stream below where it was empty. -/
structure Refilled (io : Inner ι) (e e₁ : XzStreamCtx σ ι) : Prop where
  bounded : e₁.Bounded
  atNextOut : e₁.outBufIdx = some e₁.strm.nextOut
  nextOut : e₁.strm.nextOut = e.strm.nextOut
  availOut : e₁.strm.availOut = e.strm.availOut
  internal : e₁.strm.internal = e.strm.internal
  totalIn : e₁.strm.totalIn = e.strm.totalIn
  isWrite : e₁.isWrite = e.isWrite
  eof : e₁.eof = e.eof
  log : e₁.log = e.log
  source : (e.strm.availIn ≠ 0 ∧ e₁.stream = e.stream ∧ e₁.inPending = e.inPending) ∨
    (e.strm.availIn = 0 ∧ io.eof e.stream = false ∧
      ∃ bytes, io.read e.stream XZ_BUFFER_SIZE = (some bytes, e₁.stream) ∧ e₁.inPending = bytes.1)

/-- What a read returns when it stops because of a failure. -/
def readFailure (buf : List UInt8) : Option (List UInt8) := if buf.length = 0 then none else some buf

/-- **What a pass can do.** -/
inductive ReadStep (c : Coder σ) (io : Inner ι) (r : Reading σ ι) :
    Turn (Reading σ ι) (Option (List UInt8) × XzStreamCtx σ ι) → Prop
  /-- all that was asked for has been handed out -/
  | full (enough : r.toRead = 0) : ReadStep c io r (.leave (some r.buf, r.self))
  /-- the window has more than what is asked for -/
  | fromWindow {idx : Nat} (more : 0 < r.toRead) (short : r.toRead < r.self.waiting.length)
      (at_idx : r.self.outBufIdx = some idx) :
      ReadStep c io r (.leave (some (r.buf ++ r.self.waiting.take r.toRead),
        { r.self with outBufIdx := some (idx + r.toRead) }))
  | atEnd {e : XzStreamCtx σ ι} (more : 0 < r.toRead) (all : r.self.waiting.length ≤ r.toRead)
      (emptied : Emptied r.self e) (noInput : e.strm.availIn = 0) (noMore : io.eof e.stream = true) :
      ReadStep c io r (.leave (some (r.buf ++ r.self.waiting), { e with eof := true }))
  | readFailed {e : XzStreamCtx σ ι} {st : ι} (more : 0 < r.toRead)
      (all : r.self.waiting.length ≤ r.toRead) (emptied : Emptied r.self e)
      (noInput : e.strm.availIn = 0) (unended : io.eof e.stream = false) (read : io.read e.stream XZ_BUFFER_SIZE = (none, st)) :
      ReadStep c io r (.leave (readFailure (r.buf ++ r.self.waiting), { e with stream := st }))
  | decoded {e e₁ ctx' : XzStreamCtx σ ι} {res : CodeResult σ} (more : 0 < r.toRead)
      (all : r.self.waiting.length ≤ r.toRead) (emptied : Emptied r.self e) (refilled : Refilled io e e₁)
      (code : c.code e₁.strm.internal .run e₁.inPending e₁.strm.availOut = res)
      (coded : CodedTo c .run e₁ res ctx') (fine : res.ret = .ok ∨ res.ret = .streamEnd) :
      ReadStep c io r (.again
        ⟨ctx', r.buf ++ r.self.waiting, r.toRead - r.self.waiting.length⟩)
  | decodeFailed {e e₁ ctx' : XzStreamCtx σ ι} {res : CodeResult σ} (more : 0 < r.toRead)
      (all : r.self.waiting.length ≤ r.toRead) (emptied : Emptied r.self e) (refilled : Refilled io e e₁)
      (code : c.code e₁.strm.internal .run e₁.inPending e₁.strm.availOut = res)
      (coded : CodedTo c .run e₁ res ctx') (bad : ¬ (res.ret = .ok ∨ res.ret = .streamEnd)) :
      ReadStep c io r (.leave (readFailure (r.buf ++ r.self.waiting), ctx'))

variable {c : Coder σ} {io : Inner ι} {ctx ctx' e e₁ : XzStreamCtx σ ι} {r : Reading σ ι}
  {res : CodeResult σ}

theorem waiting_of_idx {idx : Nat} (h : ctx.outBufIdx = some idx) :
    ctx.waiting = ctx.outPending.drop idx := by
  rw [waiting, h]

theorem Windowed.length_waiting (h : ctx.Windowed) {idx : Nat} (hidx : ctx.outBufIdx = some idx) :
    ctx.waiting.length = ctx.strm.nextOut - idx := by
  rw [waiting_of_idx hidx, List.length_drop, h.bounded.length_outPending]

/-- A window that begins at `next_out` is empty. -/
theorem waiting_of_atNextOut (hb : ctx.Bounded) (h : ctx.outBufIdx = some ctx.strm.nextOut) :
    ctx.waiting = [] := by
  rw [waiting_of_idx h]
  apply List.drop_of_length_le
  rw [hb.length_outPending]

theorem Emptied.windowed (h : Emptied ctx e) : e.Windowed :=
  ⟨h.bounded, ⟨_, h.atNextOut, le_refl _⟩, fun _ => h.room⟩

/-- After a call on an empty window, what waits is what the call emitted. -/
theorem CodedTo.waiting (h : CodedTo c .run ctx res ctx') (hb : ctx.Bounded)
    (hidx : ctx.outBufIdx = some ctx.strm.nextOut) : ctx'.waiting = res.emitted := by
  rw [waiting_of_idx (h.outBufIdx.trans hidx), h.outPending, ← hb.length_outPending, List.drop_left]

theorem CodedTo.windowed (h : CodedTo c .run ctx res ctx') (hb : ctx.Bounded)
    (hidx : ctx.outBufIdx = some ctx.strm.nextOut) (hroom : 0 < ctx.strm.availOut) :
    ctx'.Windowed := by
  have hidx' : ctx'.outBufIdx = some ctx.strm.nextOut := h.outBufIdx.trans hidx
  refine ⟨h.bounded hb, ⟨_, hidx', ?_⟩, ?_⟩
  · rw [h.strm, LzmaStream.advance_nextOut]
    omega
  · intro hat
    rw [hidx', h.strm, LzmaStream.advance_nextOut, Option.some.injEq] at hat
    rw [h.strm, LzmaStream.advance_availOut]
    omega

/-! ## One pass -/

/-- Handing out the whole window. -/
theorem emptyWindow_emptied (h : ctx.Windowed) : Emptied ctx ctx.emptyWindow := by
  have hroom := h.bounded.room
  unfold emptyWindow
  by_cases hout : ctx.strm.availOut ≠ 0
  · rw [if_pos hout]
    exact ⟨⟨h.bounded.inside, hroom⟩, rfl, Nat.pos_of_ne_zero hout, rfl, rfl, rfl, rfl, rfl, rfl, rfl,
      rfl, rfl⟩
  · rw [if_neg hout]
    refine ⟨⟨h.bounded.inside, Nat.zero_add _⟩, rfl, Nat.succ_pos _, ?_, rfl, rfl, rfl, rfl, rfl, rfl,
      rfl, rfl⟩
    show 0 % XZ_BUFFER_SIZE = ctx.strm.nextOut % XZ_BUFFER_SIZE
    have hfull : ctx.strm.nextOut = XZ_BUFFER_SIZE := by omega
    rw [hfull, Nat.zero_mod, Nat.mod_self]

theorem Windowed.emptied_of_nil (h : ctx.Windowed) (hnone : ctx.waiting.length = 0) :
    Emptied ctx ctx := by
  obtain ⟨idx, hidx, hle⟩ := h.idx
  have hlen := h.length_waiting hidx
  obtain rfl : idx = ctx.strm.nextOut := by omega
  exact ⟨h.bounded, hidx, h.room hidx, rfl, rfl, rfl, rfl, rfl, rfl, rfl, rfl, rfl⟩

/-- The refill at the head of `php_xz_decompress`, on an empty window. -/
theorem refill_cases (io : Inner ι) (h : Emptied ctx e)
    (hnotEnd : ¬ (io.eof e.stream = true ∧ e.strm.availIn = 0)) :
    (∃ st, e.strm.availIn = 0 ∧ io.eof e.stream = false ∧ io.read e.stream XZ_BUFFER_SIZE = (none, st) ∧
      (if e.strm.availIn = 0 ∧ io.eof e.stream = false then e.readInto io else (true, e)) =
        (false, { e with stream := st })) ∨
    ∃ e₁, Refilled io e e₁ ∧
      (if e.strm.availIn = 0 ∧ io.eof e.stream = false then e.readInto io else (true, e)) =
        (true, e₁) := by
  by_cases hin : e.strm.availIn = 0
  · have heof : io.eof e.stream = false := by
      cases hval : io.eof e.stream with
      | true => exact absurd ⟨hval, hin⟩ hnotEnd
      | false => rfl
    rw [if_pos ⟨hin, heof⟩]
    match hread : io.read e.stream XZ_BUFFER_SIZE with
    | (none, st) => exact Or.inl ⟨st, hin, heof, rfl, by rw [readInto, hread]⟩
    | (some bytes, st) =>
      refine Or.inr ⟨_, ?_, by rw [readInto, hread]⟩
      have hlen := bytes.2
      refine ⟨⟨?_, h.bounded.room⟩, h.atNextOut, rfl, rfl, rfl, rfl, rfl, rfl, rfl,
        Or.inr ⟨hin, heof, bytes, hread, ?_⟩⟩
      · show 0 + bytes.1.length ≤ XZ_BUFFER_SIZE
        omega
      · exact Buffer.window_blit_zero (by omega)
  · rw [if_neg (by tauto)]
    exact Or.inr ⟨e, ⟨h.bounded, h.atNextOut, rfl, rfl, rfl, rfl, rfl, rfl, rfl,
      Or.inl ⟨hin, rfl, rfl⟩⟩, rfl⟩

/-- The second half of a pass. -/
theorem readMore_step (c : Coder σ) (io : Inner ι) (hmore : 0 < r.toRead)
    (hall : r.self.waiting.length ≤ r.toRead) (h : Emptied r.self e) :
    ∃ t, readMore c io ⟨e, r.buf ++ r.self.waiting, r.toRead - r.self.waiting.length⟩ = .ok t ∧
      ReadStep c io r t := by
  by_cases hend : io.eof e.stream = true ∧ e.strm.availIn = 0
  · refine ⟨_, ?_, .atEnd hmore hall h hend.2 hend.1⟩
    simp only [readMore, h.atNextOut, hend, and_self, if_true, pure_eq_ok]
  · have hnot : ¬ (e.outBufIdx = some e.strm.nextOut ∧ io.eof e.stream = true ∧
        e.strm.availIn = 0) := fun hand => hend hand.2
    simp only [readMore, if_neg hnot, phpXzDecompress]
    rcases refill_cases io h hend with ⟨st, hin, heof, hread, hrefill⟩ | ⟨e₁, hrefilled, hrefill⟩
    · refine ⟨_, ?_, .readFailed hmore hall h hin heof hread⟩
      simp only [hrefill, readFailure, Bool.false_eq_true, if_false, pure_eq_ok, ok_bind]
      split <;> rfl
    · obtain ⟨res, hres⟩ : ∃ res, c.code e₁.strm.internal .run e₁.inPending e₁.strm.availOut = res :=
        ⟨_, rfl⟩
      obtain ⟨ctx', hcode, hcoded⟩ := code_eq_ok hrefilled.bounded hres
      simp only [hrefill, hcode, if_true, ok_bind, pure_eq_ok]
      by_cases hfine : res.ret = .ok ∨ res.ret = .streamEnd
      · refine ⟨_, ?_, .decoded hmore hall h hrefilled hres hcoded hfine⟩
        simp only [hfine, decide_true, if_true]
      · refine ⟨_, ?_, .decodeFailed hmore hall h hrefilled hres hcoded hfine⟩
        simp only [hfine, decide_false, readFailure, Bool.false_eq_true, if_false]
        split <;> rfl

/-- **One pass.** On a window it never faults. -/
theorem readTurn_step (c : Coder σ) (io : Inner ι) (h : r.self.Windowed) :
    ∃ t, readTurn c io r = .ok t ∧ ReadStep c io r t := by
  by_cases hmore : 0 < r.toRead
  · obtain ⟨idx, hidx, hle⟩ := h.idx
    have hlen := h.length_waiting hidx
    have hnext : r.self.strm.nextOut ≤ XZ_BUFFER_SIZE := by
      have := h.bounded.room
      omega
    -- inside the window the pointer difference, taken as a `size_t`, is its length
    have hsize : ((((r.self.strm.nextOut : Int) - idx) % 2 ^ 64).toNat) = r.self.waiting.length := by
      simp only [XZ_BUFFER_SIZE] at hnext
      omega
    have hwindow : ∀ n, n ≤ r.self.waiting.length →
        r.self.outBuf.window idx n = r.self.waiting.take n := by
      intro n hn
      rw [waiting_of_idx hidx, outPending, Buffer.take_drop_written _ (by omega)]
    simp only [readTurn, if_pos hmore, hidx, hsize]
    by_cases hshort : r.toRead < r.self.waiting.length
    · rw [if_pos hshort]
      refine ⟨_, ?_, .fromWindow hmore hshort hidx⟩
      rw [Reading.copyOut, if_pos (by omega), hwindow _ (by omega)]
      rfl
    · rw [if_neg hshort]
      by_cases hsome : 0 < r.self.waiting.length
      · have hint : 0 < (r.self.strm.nextOut : Int) - idx := by omega
        have hnat : ((r.self.strm.nextOut : Int) - idx).toNat = r.self.waiting.length := by omega
        rw [if_pos hint, hnat, Reading.copyOut, if_pos (by omega), hwindow _ (le_refl _),
          List.take_length]
        exact readMore_step c io hmore (by omega) (emptyWindow_emptied h)
      · -- an empty window: nothing is copied, and `out_buf_idx` is at `next_out` already
        have hint : ¬ 0 < (r.self.strm.nextOut : Int) - idx := by omega
        have hnil : r.self.waiting = [] := List.eq_nil_of_length_eq_zero (by omega)
        have hself := readMore_step c io hmore (by omega) (h.emptied_of_nil (by omega))
        rw [hnil, List.append_nil] at hself
        rw [if_neg hint]
        exact hself
  · exact ⟨_, by rw [readTurn, if_neg hmore]; rfl, .full (by omega)⟩

/-! ## Between operations -/

/-- A pass leaves a window, in a stream of the same direction. -/
theorem ReadStep.windowed {t : Turn (Reading σ ι) (Option (List UInt8) × XzStreamCtx σ ι)}
    (h : ReadStep c io r t) (hw : r.self.Windowed) :
    TurnSat (fun r' => r'.self.Windowed ∧ r'.self.isWrite = r.self.isWrite)
      (fun p => p.2.Windowed ∧ p.2.isWrite = r.self.isWrite) t := by
  cases h with
  | full => exact ⟨hw, rfl⟩
  | @fromWindow idx more short at_idx =>
    have hlen := hw.length_waiting at_idx
    refine ⟨⟨⟨hw.bounded.inside, hw.bounded.room⟩, ⟨_, rfl, ?_⟩, ?_⟩, rfl⟩
    · show idx + r.toRead ≤ r.self.strm.nextOut
      omega
    · intro hat
      have heq : idx + r.toRead = r.self.strm.nextOut := Option.some.inj hat
      omega
  | atEnd _ _ emptied =>
    exact ⟨⟨⟨emptied.bounded.inside, emptied.bounded.room⟩, emptied.windowed.idx,
      emptied.windowed.room⟩, emptied.isWrite⟩
  | readFailed _ _ emptied =>
    exact ⟨⟨⟨emptied.bounded.inside, emptied.bounded.room⟩, emptied.windowed.idx,
      emptied.windowed.room⟩, emptied.isWrite⟩
  | decoded _ _ emptied refilled _ coded =>
    refine ⟨coded.windowed refilled.bounded refilled.atNextOut ?_,
      coded.isWrite.trans (refilled.isWrite.trans emptied.isWrite)⟩
    rw [refilled.availOut]
    exact emptied.room
  | decodeFailed _ _ emptied refilled _ coded =>
    refine ⟨coded.windowed refilled.bounded refilled.atNextOut ?_,
      coded.isWrite.trans (refilled.isWrite.trans emptied.isWrite)⟩
    rw [refilled.availOut]
    exact emptied.room

/-- **`php_xziop_read` on a window.** It never faults, and leaves a window. -/
theorem phpXziopRead_windowed (c : Coder σ) (io : Inner ι) (fuel : Nat) (hw : ctx.Windowed)
    (count : Nat) :
    Sat (phpXziopRead c io fuel ctx count)
      (fun p => p.2.Windowed ∧ p.2.isWrite = ctx.isWrite) (fun _ => False) := by
  refine loop_sat (fun r : Reading σ ι => r.self.Windowed ∧ r.self.isWrite = ctx.isWrite) ?_ fuel
    ⟨ctx, [], count⟩ ⟨hw, rfl⟩
  rintro r ⟨hwindow, hwrite⟩
  obtain ⟨t, hturn, hstep⟩ := readTurn_step c io hwindow
  have hnext := hstep.windowed hwindow
  rw [hwrite] at hnext
  rw [hturn]
  exact hnext

end XzStreamCtx

/-- The state a read stream is opened in. -/
theorem phpXzInitDecoder_eq {L : Liblzma σ} {memoryLimit : UInt64} {stream : ι}
    {ctx : XzStreamCtx σ ι} (hopen : phpXzInitDecoder L memoryLimit stream = some ctx) :
    ∃ s, L.lzmaAutoDecoder (memoryLimitOrMax memoryLimit) LZMA_CONCATENATED = .ok s ∧
      ctx = { freshCtx s stream false with outBufIdx := some 0 } := by
  obtain ⟨s, hs, rfl⟩ := Option.map_eq_some_iff.mp hopen
  refine ⟨s, ?_, rfl⟩
  unfold phpXzDecoderInitStream at hs
  match hinit : L.lzmaAutoDecoder (memoryLimitOrMax memoryLimit) LZMA_CONCATENATED with
  | .ok s' =>
    rw [hinit] at hs
    cases hs
    rfl
  | .error e =>
    rw [hinit] at hs
    cases hs

/-- It has an empty window. -/
theorem phpXzInitDecoder_windowed {L : Liblzma σ} {memoryLimit : UInt64} {stream : ι}
    {ctx : XzStreamCtx σ ι} (hopen : phpXzInitDecoder L memoryLimit stream = some ctx) :
    ctx.Windowed ∧ ctx.isWrite = false := by
  obtain ⟨s, -, rfl⟩ := phpXzInitDecoder_eq hopen
  exact ⟨⟨⟨Nat.zero_le _, rfl⟩, ⟨0, rfl, Nat.zero_le _⟩, fun _ => Nat.succ_pos _⟩, rfl⟩

end PhpExtXz
