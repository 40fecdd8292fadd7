/-
# PhpExtXz.WriteHealthy — a write stream over a healthy encoder and a stream that accepts everything.

`WriteStream` says what the operations do whatever happens; this module says what they do when nothing
fails. Then they all return, and the bytes are where they should be after every operation: `StreamEncoding`
says that what the encoder took and what is in `in_buf` are the bytes written so far, and that the
stream below has everything the encoder has emitted.
-/
import PhpExtXz.WriteRuns

namespace PhpExtXz

open FuelLoop XzStreamCtx

variable {σ ι : Type}

/-! ## The stream below -/

/-- The stream below accepts every write; `content` is what it has received. -/
structure Accepts (io : Inner ι) (content : ι → List UInt8) : Prop where
  write : ∀ st bytes, ∃ k st', io.write st bytes = (some k, st') ∧ k.1 = bytes.length ∧
    content st' = content st ++ bytes
  flush : ∀ st, content (io.flush st) = content st

/-- `pipe` is one. -/
theorem pipe_accepts : Accepts pipe id where
  write st bytes := ⟨⟨bytes.length, le_refl _⟩, st ++ bytes, rfl, rfl, rfl⟩
  flush _ := rfl

/-! ## The invariant -/

/-- The stream has been passed `given`, the encoder's ledger is `f`, and the stream below had received
`base` before. -/
structure StreamEncoding (c : Coder σ) (s₀ : σ) (content : ι → List UInt8) (base given : List UInt8)
    (f : Feed) (ctx : XzStreamCtx σ ι) : Prop where
  bounded : ctx.Bounded
  isWrite : ctx.isWrite = true
  reaches : Reaches c s₀ f ctx.strm.internal
  input : f.taken ++ ctx.inPending = given
  nextOut : ctx.strm.nextOut = 0
  received : content ctx.stream = base ++ f.emitted

variable {c : Coder σ} {io : Inner ι} {s₀ : σ} {Enc : List UInt8 → List UInt8}
  {content : ι → List UInt8} {base given later buf : List UInt8} {f : Feed}
  {ctx ctx' : XzStreamCtx σ ι} {fuel : Nat}

theorem StreamEncoding.availOut (h : StreamEncoding c s₀ content base given f ctx) :
    ctx.strm.availOut = XZ_BUFFER_SIZE := by
  have hroom := h.bounded.room
  rw [h.nextOut, Nat.zero_add] at hroom
  exact hroom

theorem StreamEncoding.outPending (h : StreamEncoding c s₀ content base given f ctx) : ctx.outPending = [] := by
  rw [XzStreamCtx.outPending, h.nextOut, Buffer.written_zero]

/-- After a call `out_buf` holds what the call has emitted. -/
theorem StreamEncoding.outPending_coded {action : LzmaAction} {r : CodeResult σ} {mid : XzStreamCtx σ ι}
    (h : StreamEncoding c s₀ content base given f ctx) (hcoded : CodedTo c action ctx r mid) :
    mid.outPending = r.emitted := by
  rw [hcoded.outPending, h.outPending, List.nil_append]

/-- A write of what waits in `out_buf` reaches the stream below. -/
theorem Accepts.write_all (hio : Accepts io content) (hb : ctx.Bounded) :
    ∃ ctx', ctx.write io ctx.strm.nextOut = (some ctx.strm.nextOut, ctx') ∧ ctx'.strm = ctx.strm ∧
      ctx'.inBuf = ctx.inBuf ∧ ctx'.isWrite = ctx.isWrite ∧
      content ctx'.stream = content ctx.stream ++ ctx.outPending := by
  have hwindow : ctx.outBuf.window 0 ctx.strm.nextOut = ctx.outPending := Buffer.window_zero _ _
  obtain ⟨k, st', hwrite, hk, hcontent⟩ :=
    hio.write ctx.stream (ctx.outBuf.window 0 ctx.strm.nextOut)
  have hlen : k.1 = ctx.strm.nextOut := by
    rw [hk, hwindow]
    exact hb.length_outPending
  rw [hwindow] at hcontent
  simp only [XzStreamCtx.write, hwrite, Option.map_some, hlen]
  exact ⟨_, rfl, rfl, rfl, rfl, hcontent⟩

/-- After a call whose output has reached the stream below, with `out_buf` empty again. -/
theorem StreamEncoding.called {action : LzmaAction} {r : CodeResult σ} {mid out : XzStreamCtx σ ι}
    (h : StreamEncoding c s₀ content base given f ctx) (hcoded : CodedTo c action ctx r mid)
    (hreach : Reaches c s₀ (f.step action ctx.inPending r) r.state)
    (hstrm : out.strm = mid.strm) (hbuf : out.inBuf = mid.inBuf) (hwrite : out.isWrite = mid.isWrite)
    (hcontent : content out.stream = content ctx.stream ++ r.emitted) :
    StreamEncoding c s₀ content base given (f.step action ctx.inPending r) out.resetOut where
  bounded := by
    have hinside := (hcoded.bounded h.bounded).inside
    rw [← hstrm] at hinside
    exact ⟨hinside, Nat.zero_add _⟩
  isWrite := hwrite.trans (hcoded.isWrite.trans h.isWrite)
  reaches := by
    show Reaches c s₀ _ out.strm.internal
    rw [hstrm, hcoded.strm]
    exact hreach
  input := by
    have hpending : out.resetOut.inPending = mid.inPending := by
      simp only [inPending, resetOut, hstrm, hbuf]
    rw [hpending, hcoded.inPending, Feed.taken_step_append, h.input]
  nextOut := rfl
  received := by
    show content out.stream = _
    rw [hcontent, h.received, List.append_assoc]
    rfl

/-! ## Compressing -/

/-- The work left for the loops: what is in `in_buf`, and what `total`, all that the stream below will
ever have, is ahead of what it has. -/
def workLeft (content : ι → List UInt8) (total : List UInt8) (ctx : XzStreamCtx σ ι) : Nat :=
  ctx.strm.availIn + (total.length - (content ctx.stream).length)

/-- One pass with input left goes round again, closer to the end. -/
theorem compressTurn_again (henc : HealthyEncoder c s₀ Enc) (hio : Accepts io content)
    (h : StreamEncoding c s₀ content base given f ctx) (hrun : f.finishing = none)
    (hin : 0 < ctx.strm.availIn) (later : List UInt8) :
    ∃ ctx' f', compressTurn c io ctx = .ok (.again ctx') ∧
      StreamEncoding c s₀ content base given f' ctx' ∧ f'.finishing = none ∧
      workLeft content (base ++ Enc (given ++ later)) ctx' <
        workLeft content (base ++ Enc (given ++ later)) ctx := by
  obtain ⟨r, hr⟩ : ∃ r, c.code ctx.strm.internal .run ctx.inPending ctx.strm.availOut = r := ⟨_, rfl⟩
  obtain ⟨mid, hcode, hcoded⟩ := code_eq_ok h.bounded hr
  have hbmid := hcoded.bounded h.bounded
  have hroom : 0 < ctx.strm.availOut := by rw [h.availOut]; exact Nat.succ_pos _
  have hne : ctx.inPending ≠ [] := by
    apply List.ne_nil_of_length_pos
    rw [h.bounded.length_inPending]
    exact hin
  obtain ⟨hok, hprog⟩ := henc.run_ok h.reaches hrun hroom hne hr
  have hreach := h.reaches.run hroom hr
  have hrun' : (f.step .run ctx.inPending r).finishing = none := hrun
  have hpending : mid.outPending = r.emitted := h.outPending_coded hcoded
  have hlen : sizeSub XZ_BUFFER_SIZE mid.strm.availOut = mid.strm.nextOut := by
    have := hbmid.room
    rw [sizeSub_eq (by omega) (by decide)]
    omega
  -- the call has taken or emitted something, and all it will ever emit is the encoding
  have hless : ∀ out : XzStreamCtx σ ι, out.strm = mid.strm →
      content out.stream = content ctx.stream ++ r.emitted →
      workLeft content (base ++ Enc (given ++ later)) out.resetOut <
        workLeft content (base ++ Enc (given ++ later)) ctx := by
    intro out hstrm hcontent
    have hawaits : (f.step .run ctx.inPending r).Awaits (ctx.inPending.drop r.taken ++ later) :=
      Or.inl hrun'
    have hpre := henc.step_prefix hreach hawaits
    rw [h.input] at hpre
    have hle : f.emitted.length + r.emitted.length ≤ (Enc (given ++ later)).length := by
      rw [← List.length_append]
      exact hpre.length_le
    have htaken := hcoded.taken_le
    have hcount : 0 < r.taken + r.emitted.length := by
      rcases hprog with htook | hemitted
      · omega
      · have := List.length_pos_iff.mpr hemitted
        omega
    show out.strm.availIn + (_ - (content out.stream).length) < _
    rw [workLeft, hcontent, h.received, hstrm, hcoded.strm, LzmaStream.advance_availIn]
    simp only [List.length_append]
    omega
  simp only [compressTurn, if_pos hin, hcode, ok_bind, hlen, hok, ne_eq, not_true_eq_false, if_false]
  by_cases hnone : mid.strm.nextOut = 0
  · have hnil : r.emitted = [] := by
      rw [← hpending, XzStreamCtx.outPending, hnone, Buffer.written_zero]
    have hcontent : content mid.stream = content ctx.stream ++ r.emitted := by
      rw [hcoded.stream, hnil, List.append_nil]
    exact ⟨mid.resetOut, _, by rw [if_pos hnone]; rfl, h.called hcoded hreach rfl rfl rfl hcontent,
      hrun', hless mid rfl hcontent⟩
  · obtain ⟨ctx', hwrite, hstrm, hbuf, hdir, hcontent⟩ := hio.write_all hbmid
    rw [hcoded.stream, hpending] at hcontent
    simp only [if_neg hnone, hwrite, not_true_eq_false, if_false]
    exact ⟨ctx'.resetOut, _, rfl, h.called hcoded hreach hstrm hbuf hdir hcontent, hrun',
      hless ctx' hstrm hcontent⟩

/-- **`php_xz_compress` with nothing failing** feeds the encoder all of `in_buf`. -/
theorem phpXzCompress_healthy (henc : HealthyEncoder c s₀ Enc) (hio : Accepts io content)
    (h : StreamEncoding c s₀ content base given f ctx) (hrun : f.finishing = none)
    (later : List UInt8) (fuel : Nat)
    (hfuel : workLeft content (base ++ Enc (given ++ later)) ctx < fuel) :
    ∃ n ctx' f', phpXzCompress c io fuel ctx = .ok (n, ctx') ∧ 0 ≤ n ∧
      StreamEncoding c s₀ content base given f' ctx' ∧ f'.finishing = none ∧
      ctx'.strm.nextIn = 0 ∧ ctx'.strm.availIn = 0 := by
  obtain ⟨b, hloop, mid, rfl, hempty, f', hmid, hrun'⟩ := loop_returns
    (fun ctx' => ∃ f', StreamEncoding c s₀ content base given f' ctx' ∧ f'.finishing = none)
    (workLeft content (base ++ Enc (given ++ later)))
    (R := fun b => ∃ mid, b = (true, mid) ∧ mid.strm.availIn = 0 ∧
      ∃ f', StreamEncoding c s₀ content base given f' mid ∧ f'.finishing = none)
    (fun ctx' hinv => by
      obtain ⟨f', hctx', hrun'⟩ := hinv
      by_cases hin : 0 < ctx'.strm.availIn
      · obtain ⟨next, f'', hturn, hnext, hrun'', hlt⟩ :=
          compressTurn_again henc hio hctx' hrun' hin later
        exact Or.inl ⟨next, hturn, ⟨f'', hnext, hrun''⟩, hlt⟩
      · exact Or.inr ⟨(true, ctx'), by rw [compressTurn, if_neg hin]; rfl, ctx', rfl, by omega, f',
          hctx', hrun'⟩)
    fuel ctx ⟨f, h, hrun⟩ hfuel
  refine ⟨castInt ctx.strm.availIn, mid.rewindIn, f', ?_, ?_, ?_, hrun', rfl, hempty⟩
  · simp only [phpXzCompress, hloop, ok_bind, if_true, pure_eq_ok]
  · apply castInt_nonneg
    have hinside := h.bounded.inside
    simp only [XZ_BUFFER_SIZE] at hinside
    omega
  · have hnothing : ∀ off, mid.inBuf.window off mid.strm.availIn = [] := by
      intro off
      rw [hempty, Buffer.window_zero_len]
    refine ⟨⟨?_, hmid.bounded.room⟩, hmid.isWrite, hmid.reaches, ?_, hmid.nextOut, hmid.received⟩
    · show 0 + mid.strm.availIn ≤ XZ_BUFFER_SIZE
      omega
    · rw [← hmid.input]
      show f'.taken ++ mid.inBuf.window 0 mid.strm.availIn =
        f'.taken ++ mid.inBuf.window mid.strm.nextIn mid.strm.availIn
      rw [hnothing, hnothing]

/-- The work left is bounded by the lengths of what was and will be written and of its encoding. -/
theorem StreamEncoding.workLeft_le (h : StreamEncoding c s₀ content base given f ctx)
    (total : List UInt8) : workLeft content (base ++ total) ctx ≤ given.length + total.length := by
  have hin : ctx.strm.availIn ≤ given.length := by
    rw [← h.input, List.length_append, h.bounded.length_inPending]
    omega
  rw [workLeft, h.received]
  simp only [List.length_append]
  omega

/-! ## Writing -/

/-- Copying into `in_buf` passes the bytes to the stream. -/
theorem StreamEncoding.copyIn (h : StreamEncoding c s₀ content base given f ctx)
    (h0 : ctx.strm.nextIn = 0) {bytes : List UInt8}
    (hfit : ctx.strm.availIn + bytes.length ≤ XZ_BUFFER_SIZE) :
    ∃ full, ctx.copyIn bytes = .ok full ∧ full.strm = ctx.strm ∧
      StreamEncoding c s₀ content base (given ++ bytes) f
        (full.setAvailIn (ctx.strm.availIn + bytes.length)) := by
  obtain ⟨full, hcopy, hstrm, hcopied⟩ := copyIn_segment h0 h.bounded hfit
  have hfull : full.stream = ctx.stream := by
    rw [XzStreamCtx.copyIn, dif_pos hfit] at hcopy
    cases hcopy
    rfl
  have hpending := hcopied.consumed .nil
  rw [consumed_nil, List.nil_append] at hpending
  refine ⟨full, hcopy, hstrm, hcopied.bounded, hcopied.isWrite.trans h.isWrite, ?_, ?_, ?_, ?_⟩
  · show Reaches c s₀ f full.strm.internal
    rw [hstrm]
    exact h.reaches
  · rw [hpending, ← List.append_assoc, h.input]
  · show full.strm.nextOut = 0
    rw [hstrm]
    exact h.nextOut
  · show content full.stream = _
    rw [hfull]
    exact h.received

/-- The invariant of the loop of `php_xziop_write`, on the way to having passed `target`. -/
structure StreamWriting (c : Coder σ) (s₀ : σ) (content : ι → List UInt8) (base target : List UInt8)
    (w : Writing σ ι) : Prop where
  encoding : ∃ f given, StreamEncoding c s₀ content base given f w.self ∧ f.finishing = none ∧
    given ++ w.rest = target
  rewound : w.self.strm.nextIn = 0
  fine : 0 ≤ w.bytesConsumed

/-- The passes left for the loop; one that starts with a full `in_buf` copies nothing. -/
def writeMeasure (w : Writing σ ι) : Nat :=
  w.rest.length + if w.self.strm.availIn = XZ_BUFFER_SIZE then 1 else 0

theorem writeTurn_again (henc : HealthyEncoder c s₀ Enc) (hio : Accepts io content)
    {target : List UInt8} {w : Writing σ ι} (h : StreamWriting c s₀ content base target w)
    (hmore : w.rest.length > XZ_BUFFER_SIZE - w.self.strm.availIn) (later : List UInt8)
    (fuel : Nat) (hfuel : target.length + (Enc (target ++ later)).length < fuel) :
    ∃ w', writeTurn c io fuel w = .ok (.again w') ∧ StreamWriting c s₀ content base target w' ∧
      writeMeasure w' < writeMeasure w := by
  obtain ⟨⟨f, given, hctx, hrun, htarget⟩, h0, hfine⟩ := h
  have hle : w.self.strm.availIn ≤ XZ_BUFFER_SIZE := by
    have := hctx.bounded.inside
    omega
  obtain ⟨room, hroom⟩ : ∃ room, XZ_BUFFER_SIZE - w.self.strm.availIn = room := ⟨_, rfl⟩
  have hsub : sizeSub XZ_BUFFER_SIZE w.self.strm.availIn = room := by
    rw [sizeSub_eq hle (by decide), hroom]
  have hlen : (w.rest.take room).length = room := List.length_take_of_le (by omega)
  obtain ⟨full, hcopy, -, hfilled⟩ := hctx.copyIn h0
    (show w.self.strm.availIn + (w.rest.take room).length ≤ XZ_BUFFER_SIZE by omega)
  rw [hlen, show w.self.strm.availIn + room = XZ_BUFFER_SIZE by omega] at hfilled
  have hsplit : given ++ w.rest.take room ++ w.rest.drop room = target := by
    rw [List.append_assoc, List.take_append_drop, htarget]
  have hall : given ++ w.rest.take room ++ (w.rest.drop room ++ later) = target ++ later := by
    rw [← List.append_assoc, hsplit]
  have hwork := hfilled.workLeft_le (Enc (target ++ later))
  have hshort : (given ++ w.rest.take room).length ≤ target.length := by
    rw [← hsplit]
    exact (List.prefix_append _ _).length_le
  -- what is still to be written counts as later input of the encoding
  obtain ⟨n, ctx', f', hcompress, hn, hctx', hrun', h0', hempty⟩ :=
    phpXzCompress_healthy henc hio hfilled hrun (w.rest.drop room ++ later) fuel
      (by rw [hall]; omega)
  refine ⟨⟨ctx', w.rest.drop room, n⟩, ?_, ⟨⟨f', _, hctx', hrun', hsplit⟩, h0', hn⟩, ?_⟩
  · simp only [writeTurn, hsub, hcopy, ok_bind, hcompress]
    rw [if_pos (by omega), if_neg (by omega)]
    rfl
  · -- compressing emptied `in_buf`, so the next pass does not start with a full one
    have hnotFull : ¬ ctx'.strm.availIn = XZ_BUFFER_SIZE := by
      rw [hempty]
      decide
    simp only [writeMeasure, List.length_drop, if_neg hnotFull]
    split <;> omega

/-- **`php_xziop_write` with nothing failing** returns its count. -/
theorem phpXziopWrite_healthy (henc : HealthyEncoder c s₀ Enc) (hio : Accepts io content)
    (h : StreamEncoding c s₀ content base given f ctx) (hrun : f.finishing = none)
    (h0 : ctx.strm.nextIn = 0) (buf later : List UInt8) (fuel : Nat)
    (hfuel : (given ++ buf).length + (Enc (given ++ buf ++ later)).length + 1 < fuel) :
    ∃ ctx' f', phpXziopWrite c io fuel ctx buf = .ok (buf.length, ctx') ∧
      StreamEncoding c s₀ content base (given ++ buf) f' ctx' ∧ f'.finishing = none ∧
      ctx'.strm.nextIn = 0 := by
  have hstart : writeMeasure ⟨ctx, buf, 0⟩ < fuel := by
    simp only [List.length_append] at hfuel
    simp only [writeMeasure]
    split <;> omega
  obtain ⟨w, hloop, hw, hfit⟩ := loop_returns
    (StreamWriting c s₀ content base (given ++ buf)) writeMeasure
    (R := fun w => StreamWriting c s₀ content base (given ++ buf) w ∧
      w.self.strm.availIn + w.rest.length ≤ XZ_BUFFER_SIZE)
    (fun w hw => by
      obtain ⟨f', given', hctx', -, -⟩ := hw.encoding
      have hle : w.self.strm.availIn ≤ XZ_BUFFER_SIZE := by
        have := hctx'.bounded.inside
        omega
      by_cases hmore : w.rest.length > XZ_BUFFER_SIZE - w.self.strm.availIn
      · exact Or.inl (writeTurn_again henc hio hw hmore later fuel (by omega))
      · refine Or.inr ⟨w, ?_, hw, by omega⟩
        rw [writeTurn, sizeSub_eq hle (by decide), if_neg hmore]
        rfl)
    fuel ⟨ctx, buf, 0⟩ ⟨⟨f, given, h, hrun, rfl⟩, h0, Int.le_refl 0⟩ hstart
  obtain ⟨⟨f', given', hctx', hrun', htarget⟩, h0', hfine⟩ := hw
  simp only [phpXziopWrite, writeLoop, hloop, ok_bind, if_neg (Int.not_lt.mpr hfine)]
  by_cases hrest : 0 < w.rest.length
  · obtain ⟨full, hcopy, hstrm, hfilled⟩ := hctx'.copyIn h0' hfit
    rw [htarget] at hfilled
    simp only [if_pos hrest, hcopy, hstrm, ok_bind, pure_eq_ok]
    refine ⟨_, f', rfl, hfilled, hrun', ?_⟩
    show full.strm.nextIn = 0
    rw [hstrm]
    exact h0'
  · have hnil : w.rest = [] := List.eq_nil_of_length_eq_zero (by omega)
    rw [hnil, List.append_nil] at htarget
    subst htarget
    simp only [if_neg hrest, ok_bind, pure_eq_ok]
    exact ⟨_, f', rfl, hctx', hrun', h0'⟩

/-! ## Flushing and closing -/

/-- **`php_xziop_flush` with nothing failing.** -/
theorem phpXziopFlush_healthy (henc : HealthyEncoder c s₀ Enc) (hio : Accepts io content)
    (h : StreamEncoding c s₀ content base given f ctx) (hrun : f.finishing = none)
    (later : List UInt8) (fuel : Nat)
    (hfuel : given.length + (Enc (given ++ later)).length < fuel) :
    ∃ ctx' f', phpXziopFlush c io fuel ctx = .ok (0, ctx') ∧
      StreamEncoding c s₀ content base given f' ctx' ∧ f'.finishing = none ∧
      ctx'.strm.nextIn = 0 := by
  have hwork := h.workLeft_le (Enc (given ++ later))
  obtain ⟨n, ctx', f', hcompress, -, hctx', hrun', h0, -⟩ :=
    phpXzCompress_healthy henc hio h hrun later fuel (by omega)
  refine ⟨{ ctx' with stream := io.flush ctx'.stream }, f', ?_, ?_, hrun', h0⟩
  · simp only [phpXziopFlush, h.isWrite, if_true, hcompress, ok_bind, pure_eq_ok]
  · refine ⟨⟨hctx'.bounded.inside, hctx'.bounded.room⟩, hctx'.isWrite, hctx'.reaches, hctx'.input,
      hctx'.nextOut, ?_⟩
    rw [← hctx'.received]
    exact hio.flush ctx'.stream

/-- One pass of the loop in `php_xziop_close`: it sends a full `out_buf` and goes round again, or the
stream below has the complete encoding. -/
theorem closeTurn_healthy (henc : HealthyEncoder c s₀ Enc) (hio : Accepts io content)
    (h : StreamEncoding c s₀ content base given f ctx) (hawaits : f.Awaits ctx.inPending) :
    (∃ ctx' f', closeTurn c io ctx = .ok (.again ctx') ∧
      (StreamEncoding c s₀ content base given f' ctx' ∧ f'.Awaits ctx'.inPending) ∧
      (base ++ Enc given).length - (content ctx'.stream).length <
        (base ++ Enc given).length - (content ctx.stream).length) ∨
    ∃ ctx', closeTurn c io ctx = .ok (.leave ctx') ∧ content ctx'.stream = base ++ Enc given := by
  have hreset : StreamEncoding c s₀ content base given f ctx.resetOut :=
    ⟨⟨h.bounded.inside, Nat.zero_add _⟩, h.isWrite, h.reaches, h.input, rfl, h.received⟩
  have hsame : content ctx.resetOut.stream = content ctx.stream := rfl
  have hroom : 0 < ctx.resetOut.strm.availOut := Nat.succ_pos _
  have hfullRoom : ctx.resetOut.strm.availOut = XZ_BUFFER_SIZE := rfl
  replace hawaits : f.Awaits ctx.resetOut.inPending := hawaits
  simp only [closeTurn]
  -- from here on the pass starts with an empty `out_buf`
  generalize ctx.resetOut = start at hreset hsame hroom hfullRoom hawaits ⊢
  obtain ⟨r, hr⟩ : ∃ r, c.code start.strm.internal .finish start.inPending start.strm.availOut = r :=
    ⟨_, rfl⟩
  obtain ⟨mid, hcode, hcoded⟩ := code_eq_ok hreset.bounded hr
  have hbmid := hcoded.bounded hreset.bounded
  have hmidRoom := hbmid.room
  have hreach := hreset.reaches.finish hawaits hroom hr
  have hpending : mid.outPending = r.emitted := hreset.outPending_coded hcoded
  have hnext : mid.strm.nextOut = r.emitted.length := by
    rw [← hpending, hbmid.length_outPending]
  have hreceived : content start.stream = base ++ f.emitted := hreset.received
  simp only [hcode, ok_bind]
  rcases henc.finish_ok hreset.reaches hawaits hroom hr with ⟨hok, hfull⟩ | ⟨hend, -, hall⟩
  · -- the room was used up
    left
    rw [hfullRoom] at hfull
    have hsome : mid.strm.availOut < XZ_BUFFER_SIZE := by
      simp only [XZ_BUFFER_SIZE] at hmidRoom hfull ⊢
      omega
    have hsub : XZ_BUFFER_SIZE - mid.strm.availOut = mid.strm.nextOut := by omega
    obtain ⟨ctx', hwrite, hstrm, hbuf, hdir, hcontent⟩ := hio.write_all hbmid
    rw [hcoded.stream, hpending] at hcontent
    have hctx' := hreset.called hcoded hreach hstrm hbuf hdir hcontent
    have hawaits' : (f.step .finish start.inPending r).Awaits ctx'.resetOut.inPending := by
      have hpend : ctx'.resetOut.inPending = mid.inPending := by
        simp only [inPending, resetOut, hstrm, hbuf]
      right
      rw [hpend, hcoded.inPending]
      rfl
    refine ⟨ctx'.resetOut, _, ?_, ⟨hctx', hawaits'⟩, ?_⟩
    · simp only [if_pos hsome, hsub, hwrite, hok, if_true, pure_eq_ok]
    · have hpre := henc.output_prefix hreach hawaits'
      rw [hctx'.input] at hpre
      have hle : f.emitted.length + r.emitted.length ≤ (Enc given).length := by
        rw [← List.length_append]
        exact hpre.length_le
      show _ - (content ctx'.stream).length < _
      rw [hcontent, ← hsame, hreceived]
      simp only [List.length_append, XZ_BUFFER_SIZE] at hle hfull ⊢
      omega
  · right
    have htotal : base ++ f.emitted ++ r.emitted = base ++ Enc given := by
      rw [List.append_assoc, hall, hreset.input]
    have hnot : ¬ LzmaRet.streamEnd = .ok := by decide
    by_cases hsome : mid.strm.availOut < XZ_BUFFER_SIZE
    · obtain ⟨ctx', hwrite, -, -, -, hcontent⟩ := hio.write_all hbmid
      rw [hcoded.stream, hpending, hreceived, htotal] at hcontent
      have hsub : XZ_BUFFER_SIZE - mid.strm.availOut = mid.strm.nextOut := by omega
      refine ⟨ctx'.resetOut, ?_, hcontent⟩
      simp only [if_pos hsome, hsub, hwrite, hend, if_neg hnot, pure_eq_ok]
    · have hnil : r.emitted = [] := List.eq_nil_of_length_eq_zero (by omega)
      refine ⟨mid, ?_, ?_⟩
      · simp only [if_neg hsome, hend, if_neg hnot, pure_eq_ok]
      · rw [hcoded.stream, hreceived, ← htotal, hnil, List.append_nil]

/-- **`php_xziop_close` with nothing failing**: the stream below has the complete encoding. -/
theorem phpXziopClose_healthy (henc : HealthyEncoder c s₀ Enc) (hio : Accepts io content)
    (h : StreamEncoding c s₀ content base given f ctx) (hrun : f.finishing = none) (fuel : Nat)
    (hfuel : (Enc given).length < fuel) :
    ∃ ctx', phpXziopClose c io fuel ctx = .ok (EOF, ctx') ∧
      content ctx'.stream = base ++ Enc given := by
  have hstart : (base ++ Enc given).length - (content ctx.stream).length < fuel := by
    rw [h.received]
    simp only [List.length_append]
    omega
  obtain ⟨ctx', hloop, hcontent⟩ := loop_returns
    (fun ctx' => ∃ f', StreamEncoding c s₀ content base given f' ctx' ∧ f'.Awaits ctx'.inPending)
    (fun ctx' : XzStreamCtx σ ι => (base ++ Enc given).length - (content ctx'.stream).length)
    (R := fun ctx' : XzStreamCtx σ ι => content ctx'.stream = base ++ Enc given)
    (fun ctx' hinv => by
      obtain ⟨f', hctx', hawaits⟩ := hinv
      rcases closeTurn_healthy henc hio hctx' hawaits with
        ⟨next, f'', hturn, hnext, hlt⟩ | ⟨last, hturn, hcontent⟩
      · exact Or.inl ⟨next, hturn, ⟨f'', hnext⟩, hlt⟩
      · exact Or.inr ⟨last, hturn, hcontent⟩)
    fuel ctx ⟨f, h, Or.inl hrun⟩ hstart
  refine ⟨ctx', ?_, hcontent⟩
  simp only [phpXziopClose, h.isWrite, if_true, hloop, ok_bind, pure_eq_ok]

end PhpExtXz
