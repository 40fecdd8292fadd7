/-
# PhpExtXz.StreamsEnd — the loops of streams end.

Reads, writes, flushes and the close, in any order, on streams of both directions: on any stream below
whose content is finite, also one that returns zero bytes without raising its end, and with any outcome
of its writes. One number pays for all of it: the input that may still reach the coder, in `in_buf`, in
the stream below and in the writes to come, and the output to come of it. A pass of any of the loops that
goes round again lowers it, and nothing raises it.
-/
import PhpExtXz.StringsEnd
import PhpExtXz.ConcreteCoders
import PhpExtXz.XzFopenWrapper

namespace PhpExtXz

open FuelLoop XzStreamCtx

variable {σ ι : Type}

/-- A stream below with finite content: a read takes its bytes off what remains, and nothing adds to
it. -/
structure FiniteFile (io : Inner ι) (remaining : ι → Nat) : Prop where
  read : ∀ i n bytes, (io.read i n).1 = some bytes →
    bytes.1.length + remaining (io.read i n).2 ≤ remaining i
  readFails : ∀ i n, (io.read i n).1 = none → remaining (io.read i n).2 ≤ remaining i
  write : ∀ i bytes, remaining (io.write i bytes).2 ≤ remaining i
  flush : ∀ i, remaining (io.flush i) ≤ remaining i

/-- On a stream that is not written to only `LZMA_RUN` is passed. -/
def RunOnly (isWrite : Bool) (f : Feed) : Prop := isWrite = false → f.finishing = none

/-- What a read may still take off the stream below. -/
def unread (remaining : ι → Nat) (isWrite : Bool) (i : ι) : Nat :=
  if isWrite then 0 else remaining i

/-- The direction of a stream; one that is written to has no window. -/
structure OneWay (d : Bool) (ctx : XzStreamCtx σ ι) : Prop where
  direction : ctx.isWrite = d
  noWindow : d = true → ctx.outBufIdx = none

section Streams

variable {c : Coder σ} {s₀ : σ} {io : Inner ι} {remaining : ι → Nat} {d : Bool}
  {k m n later fuel : Nat} {ctx ctx' : XzStreamCtx σ ι} {action : LzmaAction}

theorem OneWay.of_same (h : OneWay d ctx) (hwrite : ctx'.isWrite = ctx.isWrite)
    (hidx : ctx'.outBufIdx = ctx.outBufIdx) : OneWay d ctx' :=
  ⟨hwrite.trans h.direction, fun hd => hidx.trans (h.noWindow hd)⟩

theorem unread_write (hfile : d = false → FiniteFile io remaining) (i : ι) (bytes : List UInt8) :
    unread remaining d (io.write i bytes).2 ≤ unread remaining d i := by
  unfold unread
  cases d with
  | true => exact le_refl _
  | false => exact (hfile rfl).write i bytes

theorem unread_flush (hfile : d = false → FiniteFile io remaining) (i : ι) :
    unread remaining d (io.flush i) ≤ unread remaining d i := by
  unfold unread
  cases d with
  | true => exact le_refl _
  | false => exact (hfile rfl).flush i

theorem XzStreamCtx.code_ends (c : Coder σ) (action : LzmaAction) (ctx : XzStreamCtx σ ι) :
    Ends (ctx.code c action) fun p => Answers c action ctx.strm p.1 p.2.strm ∧
      p.2.stream = ctx.stream ∧ p.2.isWrite = ctx.isWrite ∧ p.2.outBufIdx = ctx.outBufIdx := by
  apply (lzmaCode_ends c ctx.strm action ctx.inBuf.cells ctx.outBuf).bind
  intro e he
  exact ⟨he, rfl, rfl, rfl⟩

theorem Answers.availIn_le {strm strm' : LzmaStream σ} {ret : LzmaRet}
    (h : Answers c action strm ret strm') : strm'.availIn ≤ strm.availIn := by
  obtain ⟨input, r, -, -, -, rfl⟩ := h
  exact Nat.sub_le _ _

/-! ## `php_xz_compress` -/

variable {b : Budget c s₀}

/-- One pass of the loop in `php_xz_compress`. -/
theorem compressTurn_ends (hc : Ending c s₀) (hfile : d = false → FiniteFile io remaining)
    (hdir : OneWay d ctx)
    (h : b.Rank (RunOnly d) k m (unread remaining d ctx.stream + later) ctx.strm) :
    Ends (compressTurn c io ctx)
      (TurnSat
        (fun ctx' => ∃ m', m' < m ∧ OneWay d ctx' ∧ ctx'.strm.availIn ≤ ctx.strm.availIn ∧
          b.Rank (RunOnly d) k m' (unread remaining d ctx'.stream + later) ctx'.strm)
        fun p => OneWay d p.2 ∧ p.2.strm.availIn ≤ ctx.strm.availIn ∧
          b.Left (RunOnly d) k (unread remaining d p.2.stream + later) p.2.strm ∧
          (p.1 = true → p.2.strm.availIn = 0)) := by
  unfold compressTurn
  split
  · apply (code_ends c .run ctx).bind
    rintro ⟨ret, mid⟩ ⟨hcall, hstream, hwrite, hidx⟩
    dsimp only at hcall hstream hwrite hidx ⊢
    have hdir' := hdir.of_same hwrite hidx
    have hin := hcall.availIn_le
    obtain ⟨hleft, hlower⟩ := h.answer hc hcall fun _ _ _ hf => hf
    rw [← hstream] at hleft hlower
    split
    · exact ⟨hdir', hin, hleft, nofun⟩
    · rename_i hok
      obtain ⟨m', hm', hrank⟩ := hlower (Or.inl (not_ne_iff.mp hok))
      split
      · exact ⟨m', hm', hdir'.of_same rfl rfl, hin, hrank⟩
      · -- the write moves the stream below, and what is left to read of it does not grow
        have hbelow := Nat.add_le_add_right (unread_write hfile mid.stream
          (mid.outBuf.window 0 (sizeSub XZ_BUFFER_SIZE mid.strm.availOut))) later
        split
        · exact ⟨hdir'.of_same rfl rfl, hin, hleft.less rfl rfl hbelow, nofun⟩
        · exact ⟨m', hm', hdir'.of_same rfl rfl, hin, hrank.less rfl rfl hbelow⟩
  · rename_i hin
    exact ⟨hdir, le_refl _, h.left, fun _ => Nat.eq_zero_of_not_pos hin⟩

/-- `php_xz_compress`: where it does not report an error it has used `in_buf` up. -/
theorem phpXzCompress_ends (hc : Ending c s₀) (hfile : d = false → FiniteFile io remaining)
    (hdir : OneWay d ctx) (h : b.Left (RunOnly d) k (unread remaining d ctx.stream + later) ctx.strm)
    (hfuel : 2 * (ctx.strm.availIn + k) + 1 < fuel) :
    Ends (phpXzCompress c io fuel ctx) fun p => OneWay d p.2 ∧ p.2.strm.availIn ≤ ctx.strm.availIn ∧
      b.Left (RunOnly d) k (unread remaining d p.2.stream + later) p.2.strm ∧
      (¬ p.1 < 0 → p.2.strm.availIn = 0) := by
  unfold phpXzCompress
  refine (loop_ends (fun m ctx' => OneWay d ctx' ∧ ctx'.strm.availIn ≤ ctx.strm.availIn ∧
    b.Rank (RunOnly d) k m (unread remaining d ctx'.stream + later) ctx'.strm)
    ?_ fuel _ ctx ⟨hdir, le_refl _, h.rank⟩ hfuel).bind
    (Q := fun p => OneWay d p.2 ∧ p.2.strm.availIn ≤ ctx.strm.availIn ∧
      b.Left (RunOnly d) k (unread remaining d p.2.stream + later) p.2.strm ∧
      (p.1 = true → p.2.strm.availIn = 0)) ?_
  · rintro m ctx' ⟨hdir', hin, hrank⟩
    apply (compressTurn_ends hc hfile hdir' hrank).mono
    rintro (ctx'' | ⟨fine, ctx''⟩) ht
    · obtain ⟨m', hm', hdir'', hin', hrank'⟩ := ht
      exact ⟨m', hm', hdir'', hin'.trans hin, hrank'⟩
    · obtain ⟨hdir'', hin', hleft, hfine⟩ := ht
      exact ⟨hdir'', hin'.trans hin, hleft, hfine⟩
  · rintro ⟨fine, ctx'⟩ ⟨hdir', hin, hleft, hfine⟩
    refine ⟨hdir'.of_same rfl rfl, hin, hleft.less rfl rfl (le_refl _), ?_⟩
    intro hret
    cases fine with
    | true => exact hfine rfl
    | false => exact absurd (by decide : (-1 : Int) < 0) hret

/-! ## What an operation starts with and leaves -/

/-- The input that may still reach the coder, `later` bytes of writes to come among it, and the output to
come of it, are at most `n`. -/
def Stocked (b : Budget c s₀) (remaining : ι → Nat) (d : Bool) (n later : Nat)
    (ctx : XzStreamCtx σ ι) : Prop :=
  OneWay d ctx ∧ ∃ k, b.Left (RunOnly d) k (unread remaining d ctx.stream + later) ctx.strm ∧
    ctx.strm.availIn + k ≤ n

/-- The same within a loop. -/
def StockedRank (b : Budget c s₀) (remaining : ι → Nat) (d : Bool) (n later m : Nat)
    (ctx : XzStreamCtx σ ι) : Prop :=
  OneWay d ctx ∧ ∃ k, b.Rank (RunOnly d) k m (unread remaining d ctx.stream + later) ctx.strm ∧
    ctx.strm.availIn + k ≤ n

theorem StockedRank.stocked (h : StockedRank b remaining d n later m ctx) :
    Stocked b remaining d n later ctx := by
  obtain ⟨hdir, k, hrank, hk⟩ := h
  exact ⟨hdir, k, hrank.left, hk⟩

theorem Stocked.rank (h : Stocked b remaining d n later ctx) :
    StockedRank b remaining d n later (2 * n + 1) ctx := by
  obtain ⟨hdir, k, hleft, hk⟩ := h
  exact ⟨hdir, k, hleft.rank.mono (by omega), hk⟩

/-- Only the output side changes, or the stream below. -/
theorem StockedRank.of_same (h : StockedRank b remaining d n later m ctx) (hdir : OneWay d ctx')
    (hinternal : ctx'.strm.internal = ctx.strm.internal)
    (hin : ctx'.strm.availIn = ctx.strm.availIn)
    (hbelow : unread remaining d ctx'.stream ≤ unread remaining d ctx.stream) :
    StockedRank b remaining d n later m ctx' := by
  obtain ⟨-, k, hrank, hk⟩ := h
  exact ⟨hdir, k, hrank.less hinternal hin (by omega), by omega⟩

theorem Stocked.of_same (h : Stocked b remaining d n later ctx) (hdir : OneWay d ctx')
    (hinternal : ctx'.strm.internal = ctx.strm.internal)
    (hin : ctx'.strm.availIn = ctx.strm.availIn)
    (hbelow : unread remaining d ctx'.stream ≤ unread remaining d ctx.stream) :
    Stocked b remaining d n later ctx' :=
  (h.rank.of_same hdir hinternal hin hbelow).stocked

/-- A call of the coder lowers the rank where it returns `LZMA_OK`. -/
theorem StockedRank.answer (hc : Ending c s₀) (h : StockedRank b remaining d n later m ctx)
    {ret : LzmaRet} (hcall : Answers c action ctx.strm ret ctx'.strm) (hdir : OneWay d ctx')
    (hstream : ctx'.stream = ctx.stream)
    (hrun : ∀ f input (r : CodeResult σ), RunOnly d f → RunOnly d (f.step action input r)) :
    Stocked b remaining d n later ctx' ∧
      (ret = .ok → ∃ m', m' < m ∧ StockedRank b remaining d n later m' ctx') := by
  obtain ⟨-, k, hrank, hk⟩ := h
  obtain ⟨hleft, hlower⟩ := hrank.answer hc hcall hrun
  have hin := hcall.availIn_le
  rw [← hstream] at hleft hlower
  refine ⟨⟨hdir, k, hleft, by omega⟩, fun hok => ?_⟩
  obtain ⟨m', hm', hrank'⟩ := hlower (Or.inl hok)
  exact ⟨m', hm', hdir, k, hrank', by omega⟩

/-! ## `php_xziop_write` -/

/-- Bytes of the write go into `in_buf`, and count as input from there on. -/
theorem Stocked.copyIn_ends {bytes : List UInt8}
    (h : Stocked b remaining d n (bytes.length + later) ctx) :
    Ends (ctx.copyIn bytes) fun self => self.strm = ctx.strm ∧
      ctx.strm.availIn + bytes.length ≤ XZ_BUFFER_SIZE ∧
      ∀ len, len = ctx.strm.availIn + bytes.length → Stocked b remaining d n later (self.setAvailIn len) := by
  unfold XzStreamCtx.copyIn
  split
  · rename_i hfits
    refine ⟨rfl, hfits, fun len hlen => ?_⟩
    obtain ⟨hdir, k, hleft, hk⟩ := h
    have hbytes : bytes.length ≤ k := by
      obtain ⟨f, -, -, -, hout⟩ := hleft
      omega
    refine ⟨hdir.of_same rfl rfl, k - bytes.length, hleft.move rfl ?_ ?_, ?_⟩
    · show len + (unread remaining d ctx.stream + later) ≤ _
      omega
    · show unread remaining d ctx.stream + later + k ≤ _
      omega
    · show len + (k - bytes.length) ≤ n
      omega
  · trivial

/-- One pass of the loop in `php_xziop_write`: it fills `in_buf`, and goes round again where all of that
has been taken. -/
theorem writeTurn_ends (hc : Ending c s₀) (hfile : d = false → FiniteFile io remaining)
    {w : Writing σ ι} (h : Stocked b remaining d n (w.rest.length + later) w.self)
    (hfuel : 2 * n + 1 < fuel) :
    Ends (writeTurn c io fuel w)
      (TurnSat (fun w' => ∃ n', n' < n ∧ Stocked b remaining d n' (w'.rest.length + later) w'.self)
        fun w' => Stocked b remaining d n (w'.rest.length + later) w'.self) := by
  unfold writeTurn
  dsimp only
  split
  · rename_i hroom
    have hlen := congrArg List.length (List.take_append_drop
      (sizeSub XZ_BUFFER_SIZE w.self.strm.availIn) w.rest)
    rw [List.length_append] at hlen
    rw [← hlen, Nat.add_assoc] at h
    apply h.copyIn_ends.bind
    rintro self ⟨-, hfits, hcopied⟩
    -- the copy fits, so that it is as long as there was room
    have hfull : XZ_BUFFER_SIZE = w.self.strm.availIn +
        (w.rest.take (sizeSub XZ_BUFFER_SIZE w.self.strm.availIn)).length := by
      rw [List.length_take] at hfits ⊢
      have : XZ_BUFFER_SIZE = 4096 := rfl
      unfold sizeSub at *
      omega
    obtain ⟨hdir, k, hleft, hk⟩ := hcopied XZ_BUFFER_SIZE hfull
    have hsize : (self.setAvailIn XZ_BUFFER_SIZE).strm.availIn = XZ_BUFFER_SIZE := rfl
    apply (phpXzCompress_ends hc hfile hdir hleft (by omega)).bind
    rintro ⟨consumed, self'⟩ ⟨hdir', hin, hleft', hempty⟩
    dsimp only at hdir' hin hleft' hempty ⊢
    split
    · exact ⟨hdir', k, hleft', by show self'.strm.availIn + k ≤ n; omega⟩
    · rename_i hfine
      refine ⟨n - XZ_BUFFER_SIZE, ?_, hdir', k, hleft', ?_⟩
      · have : XZ_BUFFER_SIZE = 4096 := rfl
        omega
      · show self'.strm.availIn + k ≤ n - XZ_BUFFER_SIZE
        rw [hempty hfine]
        omega
  · exact h

theorem phpXziopWrite_ends (hc : Ending c s₀) (hfile : d = false → FiniteFile io remaining)
    {buf : List UInt8} (h : Stocked b remaining d n (buf.length + later) ctx)
    (hfuel : 2 * n + 1 < fuel) :
    Ends (phpXziopWrite c io fuel ctx buf) fun p => Stocked b remaining d n later p.2 := by
  have hloop : Ends (writeLoop c io fuel ctx buf) fun w =>
      Stocked b remaining d n (w.rest.length + later) w.self := by
    refine loop_ends (fun m (w : Writing σ ι) =>
        m ≤ n ∧ Stocked b remaining d m (w.rest.length + later) w.self)
      ?_ fuel n ⟨ctx, buf, 0⟩ ⟨le_refl _, h⟩ (by omega)
    rintro m w ⟨hm, hw⟩
    apply (writeTurn_ends hc hfile hw (by omega)).mono
    rintro (w' | w') ht
    · obtain ⟨m', hm', hw'⟩ := ht
      exact ⟨m', hm', by omega, hw'⟩
    · obtain ⟨hdir, k, hleft, hk⟩ := ht
      exact ⟨hdir, k, hleft, by omega⟩
  unfold phpXziopWrite
  apply hloop.bind
  intro w hw
  by_cases hpos : 0 < w.rest.length
  · -- the rest waits in `in_buf`
    rw [if_pos hpos]
    apply hw.copyIn_ends.bind
    rintro self ⟨hstrm, -, hcopied⟩
    exact hcopied _ (by rw [hstrm])
  · have hzero : w.rest.length + later = later := by omega
    rw [hzero] at hw
    rw [if_neg hpos]
    exact hw

/-! ## `php_xziop_read` -/

/-- A refill moves bytes from the stream below into `in_buf`. -/
theorem StockedRank.readInto (hfile : FiniteFile io remaining)
    (h : StockedRank b remaining false n later m ctx) (hempty : ctx.strm.availIn = 0) :
    StockedRank b remaining false n later m (ctx.readInto io).2 := by
  unfold XzStreamCtx.readInto
  dsimp only
  split
  · rename_i hnone
    exact h.of_same (h.1.of_same rfl rfl) rfl rfl (hfile.readFails ctx.stream XZ_BUFFER_SIZE hnone)
  · rename_i bytes hsome
    have hread : bytes.1.length + remaining (io.read ctx.stream XZ_BUFFER_SIZE).2 ≤
        remaining ctx.stream := hfile.read ctx.stream XZ_BUFFER_SIZE bytes hsome
    obtain ⟨hdir, k, hrank, hk⟩ := h
    have hspare : remaining ctx.stream + later ≤ k := by
      obtain ⟨f, -, -, -, hout, -⟩ := hrank
      exact (Nat.le_add_right _ _).trans hout
    refine ⟨hdir.of_same rfl rfl, k - bytes.1.length, hrank.move rfl ?_ ?_, ?_⟩
    · show bytes.1.length + (remaining (io.read ctx.stream XZ_BUFFER_SIZE).2 + later) ≤
        ctx.strm.availIn + (remaining ctx.stream + later)
      omega
    · show remaining (io.read ctx.stream XZ_BUFFER_SIZE).2 + later + k ≤
        remaining ctx.stream + later + (k - bytes.1.length)
      omega
    · show bytes.1.length + (k - bytes.1.length) ≤ n
      omega

/-- `php_xz_decompress` succeeds on `LZMA_OK` only, since `LZMA_STREAM_END` does not come. -/
theorem phpXzDecompress_ends (hc : EndingConcatenated c s₀) (hfile : FiniteFile io remaining)
    (h : StockedRank b remaining false n later m ctx) :
    Ends (phpXzDecompress c io ctx) fun p => Stocked b remaining false n later p.2 ∧
      (p.1 = true → ∃ m', m' < m ∧ StockedRank b remaining false n later m' p.2) := by
  have hcode : ∀ {ctx : XzStreamCtx σ ι}, StockedRank b remaining false n later m ctx →
      Ends (ctx.code c .run >>= fun p => pure (decide (p.1 = .ok ∨ p.1 = .streamEnd), p.2)) fun p =>
        Stocked b remaining false n later p.2 ∧
          (p.1 = true → ∃ m', m' < m ∧ StockedRank b remaining false n later m' p.2) := by
    intro ctx h
    apply (code_ends c .run ctx).bind
    rintro ⟨ret, ctx'⟩ ⟨hcall, hstream, hwrite, hidx⟩
    dsimp only at hcall hstream hwrite hidx
    obtain ⟨hstocked, hlower⟩ := h.answer hc.toEnding hcall (h.1.of_same hwrite hidx) hstream
      fun _ _ _ hf => hf
    refine ⟨hstocked, fun hfine => hlower ?_⟩
    have hnoend : ret ≠ .streamEnd := by
      obtain ⟨-, k, hrank, -⟩ := h
      obtain ⟨f, hcalled, hrunning⟩ := hrank.called
      obtain ⟨input, r, -, hr, rfl, -⟩ := hcall
      rw [← hr]
      exact hc.runsOn f _ _ _ hcalled (hrunning rfl)
    exact (of_decide_eq_true hfine).resolve_right hnoend
  have hrefill : StockedRank b remaining false n later m
      (if ctx.strm.availIn = 0 ∧ io.eof ctx.stream = false then ctx.readInto io else (true, ctx)).2 := by
    split
    · rename_i hempty
      exact h.readInto hfile hempty.1
    · exact h
  unfold phpXzDecompress
  generalize (if ctx.strm.availIn = 0 ∧ io.eof ctx.stream = false then ctx.readInto io
    else (true, ctx)) = refilled at hrefill ⊢
  obtain ⟨got, mid⟩ := refilled
  dsimp only at hrefill ⊢
  split
  · exact hcode hrefill
  · exact ⟨hrefill.stocked, nofun⟩

theorem readMore_ends (hc : EndingConcatenated c s₀) (hfile : FiniteFile io remaining)
    {r : Reading σ ι} (h : StockedRank b remaining false n later m r.self) :
    Ends (readMore c io r)
      (TurnSat (fun r' => ∃ m', m' < m ∧ StockedRank b remaining false n later m' r'.self)
        fun p => Stocked b remaining false n later p.2) := by
  unfold readMore
  dsimp only
  split
  · show Stocked b remaining false n later { r.self with eof := true }
    exact h.stocked.of_same (h.1.of_same rfl rfl) rfl rfl (le_refl _)
  · apply (phpXzDecompress_ends hc hfile h).bind
    rintro ⟨fine, ctx'⟩ ⟨hstocked, hlower⟩
    dsimp only at hstocked hlower ⊢
    split
    · rename_i hfine
      exact hlower hfine
    · split
      · exact hstocked
      · exact hstocked

theorem copyOut_ends (r : Reading σ ι) (idx len : Nat) :
    Ends (r.copyOut idx len) fun r' => r'.self = r.self := by
  unfold Reading.copyOut
  split
  · rfl
  · trivial

/-- One pass of the loop in `php_xziop_read`, on a stream that is not written to. -/
theorem readTurn_ends (hc : EndingConcatenated c s₀) (hfile : FiniteFile io remaining)
    {r : Reading σ ι} (h : StockedRank b remaining false n later m r.self) :
    Ends (readTurn c io r)
      (TurnSat (fun r' => ∃ m', m' < m ∧ StockedRank b remaining false n later m' r'.self)
        fun p => Stocked b remaining false n later p.2) := by
  have hsame : ∀ {ctx' : XzStreamCtx σ ι}, ctx'.strm.internal = r.self.strm.internal →
      ctx'.strm.availIn = r.self.strm.availIn → ctx'.stream = r.self.stream →
      ctx'.isWrite = r.self.isWrite → StockedRank b remaining false n later m ctx' := by
    intro ctx' hinternal hin hstream hwrite
    exact h.of_same ⟨hwrite.trans h.1.direction, nofun⟩ hinternal hin (by rw [hstream])
  unfold readTurn
  split
  · split
    · trivial
    · rename_i idx _
      dsimp only
      split
      · apply (copyOut_ends r idx r.toRead).bind
        intro r' hself
        rw [hself]
        show Stocked b remaining false n later { r.self with outBufIdx := some (idx + r.toRead) }
        exact StockedRank.stocked (hsame rfl rfl rfl rfl)
      · split
        · apply (copyOut_ends r idx _).bind
          intro r' hself
          rw [hself]
          apply readMore_ends hc hfile
          unfold XzStreamCtx.emptyWindow
          split
          · exact hsame rfl rfl rfl rfl
          · exact hsame rfl rfl rfl rfl
        · exact readMore_ends hc hfile h
  · exact h.stocked

/-- A stream that is written to has no window to read from. -/
theorem phpXziopRead_noWindow (hidx : ctx.outBufIdx = none) (hfuel : 0 < fuel) (count : Nat) :
    Ends (phpXziopRead c io fuel ctx count) fun p => p.2 = ctx := by
  refine loop_ends (fun _ (r : Reading σ ι) => r.self = ctx) ?_ fuel 0 ⟨ctx, [], count⟩ rfl hfuel
  intro m r hr
  unfold readTurn
  split
  · rw [hr, hidx]
    trivial
  · exact hr

theorem phpXziopRead_ends (hc : d = false → EndingConcatenated c s₀)
    (hfile : d = false → FiniteFile io remaining) (h : Stocked b remaining d n later ctx)
    (hfuel : 2 * n + 1 < fuel) (count : Nat) :
    Ends (phpXziopRead c io fuel ctx count) fun p => Stocked b remaining d n later p.2 := by
  cases d with
  | true =>
    apply (phpXziopRead_noWindow (h.1.noWindow rfl) (by omega) count).mono
    intro p hp
    rw [hp]
    exact h
  | false =>
    exact loop_ends (fun m (r : Reading σ ι) => StockedRank b remaining false n later m r.self)
      (fun m r hr => readTurn_ends (hc rfl) (hfile rfl) hr) fuel _ _ h.rank hfuel

/-! ## `php_xziop_close` and `php_xziop_flush` -/

/-- One pass of the loop in `php_xziop_close`, on a stream that is written to. -/
theorem closeTurn_ends (hc : Ending c s₀) (h : StockedRank b remaining true n later m ctx) :
    Ends (closeTurn c io ctx)
      (TurnSat (fun ctx' => ∃ m', m' < m ∧ StockedRank b remaining true n later m' ctx')
        fun ctx' => Stocked b remaining true n later ctx') := by
  unfold closeTurn
  have hreset : StockedRank b remaining true n later m ctx.resetOut :=
    h.of_same (h.1.of_same rfl rfl) rfl rfl (le_refl _)
  apply (code_ends c .finish ctx.resetOut).bind
  rintro ⟨ret, mid⟩ ⟨hcall, hstream, hwrite, hidx⟩
  dsimp only at hcall hstream hwrite hidx ⊢
  obtain ⟨hstocked, hlower⟩ := hreset.answer hc hcall (hreset.1.of_same hwrite hidx) hstream
    fun _ _ _ _ => nofun
  have hdir := hstocked.1
  generalize hnext : (if mid.strm.availOut < XZ_BUFFER_SIZE then
    (mid.write io (XZ_BUFFER_SIZE - mid.strm.availOut)).2.resetOut else mid) = next
  -- the write only moves the stream below, of which a written stream reads nothing
  have hsame : OneWay true next ∧ next.strm.internal = mid.strm.internal ∧
      next.strm.availIn = mid.strm.availIn := by
    rw [← hnext]
    split
    · exact ⟨hdir.of_same rfl rfl, rfl, rfl⟩
    · exact ⟨hdir, rfl, rfl⟩
  obtain ⟨hdir', hinternal, hin⟩ := hsame
  split
  · rename_i hok
    obtain ⟨m', hm', hrank⟩ := hlower hok
    exact ⟨m', hm', hrank.of_same hdir' hinternal hin (le_refl _)⟩
  · exact hstocked.of_same hdir' hinternal hin (le_refl _)

theorem phpXziopClose_ends (hc : Ending c s₀) (h : Stocked b remaining d n later ctx)
    (hfuel : 2 * n + 1 < fuel) :
    Ends (phpXziopClose c io fuel ctx) fun p => Stocked b remaining d n later p.2 := by
  unfold phpXziopClose
  cases d with
  | false =>
    rw [if_neg (by rw [h.1.direction]; exact Bool.false_ne_true)]
    exact h
  | true =>
    rw [if_pos h.1.direction]
    have hloop : Ends (loop (closeTurn c io) fuel ctx) fun ctx' =>
        Stocked b remaining true n later ctx' :=
      loop_ends (fun m (ctx' : XzStreamCtx σ ι) => StockedRank b remaining true n later m ctx')
        (fun m ctx' hrank => closeTurn_ends hc hrank) fuel _ _ h.rank hfuel
    exact hloop.bind fun ctx' hctx' => hctx'

theorem phpXziopFlush_ends (hc : Ending c s₀) (hfile : d = false → FiniteFile io remaining)
    (h : Stocked b remaining d n later ctx) (hfuel : 2 * n + 1 < fuel) :
    Ends (phpXziopFlush c io fuel ctx) fun p => Stocked b remaining d n later p.2 := by
  have hflush : ∀ {ctx : XzStreamCtx σ ι}, Stocked b remaining d n later ctx →
      Stocked b remaining d n later { ctx with stream := io.flush ctx.stream } := by
    intro ctx h
    exact h.of_same (h.1.of_same rfl rfl) rfl rfl (unread_flush hfile ctx.stream)
  unfold phpXziopFlush
  by_cases hwrite : ctx.isWrite = true
  · rw [if_pos hwrite]
    obtain ⟨hdir, k, hleft, hk⟩ := h
    apply (phpXzCompress_ends hc hfile hdir hleft (by omega)).bind
    rintro ⟨consumed, ctx'⟩ ⟨hdir', hin, hleft', -⟩
    exact hflush ⟨hdir', k, hleft', by dsimp only at hin ⊢; omega⟩
  · rw [if_neg hwrite]
    exact hflush h

/-! ## Runs -/

/-- An operation that passes no bytes. -/
theorem Stocked.skip {len : Nat} (h : Stocked b remaining d n (len + later) ctx) :
    Stocked b remaining d n later ctx := by
  obtain ⟨hdir, k, hleft, hk⟩ := h
  exact ⟨hdir, k, hleft.less rfl rfl (by omega), hk⟩

/-- One operation, with any outcome of the calls below. -/
theorem xziop_ends (hc : Ending c s₀) (hcat : d = false → EndingConcatenated c s₀)
    (hfile : d = false → FiniteFile io remaining) (op : XziopOp)
    (h : Stocked b remaining d n (op.bytes.length + later) ctx) (hfuel : 2 * n + 1 < fuel) :
    Ends (xziop c io fuel ctx op) fun p => Stocked b remaining d n later p.2 := by
  cases op with
  | read count => exact (phpXziopRead_ends hcat hfile h.skip hfuel count).bind fun p hp => hp
  | write buf => exact (phpXziopWrite_ends hc hfile h hfuel).bind fun p hp => hp
  | flush => exact (phpXziopFlush_ends hc hfile h.skip hfuel).bind fun p hp => hp
  | close => exact (phpXziopClose_ends hc h.skip hfuel).bind fun p hp => hp

/-- A stream that has just been opened has all of its budget. -/
theorem Budget.stocked (b : Budget c s₀) (hdir : OneWay d ctx) (hnew : ctx.strm.internal = s₀)
    (hin : ctx.strm.availIn = 0) (hinput : b.input = unread remaining d ctx.stream + later) :
    Stocked b remaining d (b.input + b.most) later ctx := by
  refine ⟨hdir, b.input + b.most, ⟨{}, hnew ▸ .start, fun _ => rfl, ?_, ?_⟩, ?_⟩
  · show ([] : List UInt8).length + (ctx.strm.availIn + (unread remaining d ctx.stream + later)) ≤ b.input
    rw [List.length_nil]
    omega
  · omega
  · omega

/-- **Runs on a stream end**, in whichever direction it was opened. -/
theorem xziopTrace_ends (hc : Ending c s₀) (hcat : d = false → EndingConcatenated c s₀)
    (hfile : d = false → FiniteFile io remaining) (hdir : OneWay d ctx)
    (hnew : ctx.strm.internal = s₀) (hin : ctx.strm.availIn = 0) (ops : List XziopOp) :
    ∃ n, ∀ fuel, n < fuel → ∀ step ∈ xziopTrace c io fuel ctx ops,
      step.outcome ≠ .error .outOfFuel := by
  obtain ⟨b, hb⟩ := hc.exists_budget
    (unread remaining d ctx.stream + (ops.flatMap XziopOp.bytes).length)
  refine ⟨2 * (b.input + b.most) + 1, fun fuel hfuel => ?_⟩
  apply trace_ends (fun later ctx => Stocked b remaining d (b.input + b.most) later ctx)
  · exact fun later ctx op h => xziop_ends hc hcat hfile op h hfuel
  · exact b.stocked hdir hnew hin hb

end Streams

end PhpExtXz
