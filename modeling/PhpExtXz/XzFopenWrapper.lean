/-
# PhpExtXz.XzFopenWrapper — `xz_fopen_wrapper.c`: the stream operations.

One context serves both directions. A read stream refills `in_buf` from the stream below, decodes into
`out_buf` and hands out the window from `out_buf_idx` to `next_out`; a write stream collects bytes in
`in_buf`, encodes them into `out_buf` and passes that on to the stream below.

Pointers are offsets into the buffer they point into; `out_buf_idx` is `none` while it is `NULL`. The
stream below is a parameter, `Inner`. The context carries one thing more than the source's: `log`, the
record of all calls across its two interfaces, which no operation looks at.
-/
import Mathlib.Algebra.GroupWithZero.Nat
import Mathlib.Algebra.Ring.Int.Defs
import PhpExtXz.Lib.Runs
import PhpExtXz.XzEncode
import PhpExtXz.XzDecode

namespace PhpExtXz

open FuelLoop

/-! ## The stream below -/

/-- The operations of the `php_stream` below that the wrapper uses. A result `none` is `-1`; a read
returns at most the bytes asked for, and a write accepts at most the bytes offered. -/
structure Inner (ι : Type) where
  read : ι → (n : Nat) → Option { bytes : List UInt8 // bytes.length ≤ n } × ι
  write : ι → (bytes : List UInt8) → Option { k : Nat // k ≤ bytes.length } × ι
  flush : ι → ι
  eof : ι → Bool

/-- A call across one of the two interfaces of a stream. -/
inductive Event where
  | coded (call : LzmaCall)
  /-- the bytes offered to the stream below, and what its write returned -/
  | wrote (bytes : List UInt8) (accepted : Option Nat)
  deriving DecidableEq, Repr

/-! ## The context -/

/-- `struct php_xz_stream_ctx`, with `stream->eof` of the stream it belongs to. -/
structure XzStreamCtx (σ ι : Type) where
  strm : LzmaStream σ
  inBuf : Buffer UInt8 XZ_BUFFER_SIZE
  outBuf : Buffer UInt8 XZ_BUFFER_SIZE
  outBufIdx : Option Nat
  stream : ι
  isWrite : Bool
  eof : Bool
  log : List Event

/-- `a - b` in `size_t`. -/
def sizeSub (a b : Nat) : Nat := (a + 2 ^ 64 - b) % 2 ^ 64

theorem sizeSub_eq {a b : Nat} (hba : b ≤ a) (ha : a < 2 ^ 64) : sizeSub a b = a - b := by
  unfold sizeSub
  omega

/-- `(int)n`. -/
def castInt (n : Nat) : Int := (BitVec.ofNat 32 n).toInt

theorem castInt_nonneg {n : Nat} (h : n < 2 ^ 31) : 0 ≤ castInt n := by
  rw [castInt, BitVec.toInt_eq_toNat_of_lt]
  · omega
  · rw [BitVec.toNat_ofNat]
    omega

variable {σ ι : Type}

namespace XzStreamCtx

/-- `lzma_code(strm, action)` between the two buffers. -/
def code (c : Coder σ) (action : LzmaAction) (self : XzStreamCtx σ ι) :
    Exec MemoryFault (LzmaRet × XzStreamCtx σ ι) := do
  let d ← lzmaCode c self.strm action self.inBuf.cells self.outBuf
  pure (d.ret, { self with strm := d.strm, outBuf := d.dst, log := self.log ++ [.coded d.call] })

/-- `php_stream_write(self->stream, self->out_buf, len)`. -/
def write (io : Inner ι) (len : Nat) (self : XzStreamCtx σ ι) : Option Nat × XzStreamCtx σ ι :=
  let bytes := self.outBuf.window 0 len
  let res := io.write self.stream bytes
  (res.1.map (·.1),
    { self with stream := res.2, log := self.log ++ [.wrote bytes (res.1.map (·.1))] })

/-- `strm->next_out = self->out_buf; strm->avail_out = XZ_BUFFER_SIZE`. -/
def resetOut (self : XzStreamCtx σ ι) : XzStreamCtx σ ι :=
  { self with strm := { self.strm with nextOut := 0, availOut := XZ_BUFFER_SIZE } }

/-- `memcpy(self->in_buf + strm->avail_in, bytes, |bytes|)`. -/
def copyIn (bytes : List UInt8) (self : XzStreamCtx σ ι) : Exec MemoryFault (XzStreamCtx σ ι) :=
  if h : self.strm.availIn + bytes.length ≤ XZ_BUFFER_SIZE then
    .ok { self with inBuf := self.inBuf.blit self.strm.availIn bytes h }
  else .error (.fault .copyPastInBuf)

/-- `strm->avail_in = n`. -/
def setAvailIn (n : Nat) (self : XzStreamCtx σ ι) : XzStreamCtx σ ι :=
  { self with strm := { self.strm with availIn := n } }

/-- `strm->next_in = self->in_buf`. -/
def rewindIn (self : XzStreamCtx σ ι) : XzStreamCtx σ ι :=
  { self with strm := { self.strm with nextIn := 0 } }

/-- `XZ_STREAM_READ_INTO(strm, self->stream, self->in_buf)`; `false` where the macro returns -1. -/
def readInto (io : Inner ι) (self : XzStreamCtx σ ι) : Bool × XzStreamCtx σ ι :=
  let res := io.read self.stream XZ_BUFFER_SIZE
  match res.1 with
  | none => (false, { self with stream := res.2 })
  | some bytes =>
    (true, { self with
      stream := res.2
      inBuf := self.inBuf.blit 0 bytes.1 (by rw [Nat.zero_add]; exact bytes.2)
      strm := { self.strm with nextIn := 0, availIn := bytes.1.length } })

end XzStreamCtx

/-! ## Compressing and decompressing -/

/-- `php_xz_decompress(self)`; `false` is the result -1. -/
def phpXzDecompress (c : Coder σ) (io : Inner ι) (self : XzStreamCtx σ ι) :
    Exec MemoryFault (Bool × XzStreamCtx σ ι) :=
  let (got, self) :=
    if self.strm.availIn = 0 ∧ io.eof self.stream = false then self.readInto io else (true, self)
  if got then do
    let (ret, self) ← self.code c .run
    pure (decide (ret = .ok ∨ ret = .streamEnd), self)
  else pure (false, self)

/-- One pass of `while (strm->avail_in > 0)` in `php_xz_compress`; it leaves with `false` through one
of the two `break`s. -/
def compressTurn (c : Coder σ) (io : Inner ι) (self : XzStreamCtx σ ι) :
    Exec MemoryFault (Turn (XzStreamCtx σ ι) (Bool × XzStreamCtx σ ι)) :=
  if 0 < self.strm.availIn then do
    let (ret, self) ← self.code c .run
    let len := sizeSub XZ_BUFFER_SIZE self.strm.availOut
    if ret ≠ .ok then pure (.leave (false, self))
    else if len = 0 then pure (.again self.resetOut)
    else
      let (accepted, self) := self.write io len
      if accepted ≠ some len then pure (.leave (false, self))
      else pure (.again self.resetOut)
  else pure (.leave (true, self))

/-- `php_xz_compress(self)`: `to_write`, or -1. -/
def phpXzCompress (c : Coder σ) (io : Inner ι) (fuel : Nat) (self : XzStreamCtx σ ι) :
    Exec MemoryFault (Int × XzStreamCtx σ ι) := do
  let toWrite := castInt self.strm.availIn
  let (fine, self) ← loop (compressTurn c io) fuel self
  pure (if fine then toWrite else -1, self.rewindIn)

/-! ## Opening -/

/-- The context as `ecalloc` leaves it, around the inner stream, once a coder is installed. -/
def freshCtx (s : σ) (stream : ι) (isWrite : Bool) : XzStreamCtx σ ι where
  strm := { LzmaStream.init s with availOut := XZ_BUFFER_SIZE }
  inBuf := .fresh 0 XZ_BUFFER_SIZE
  outBuf := .fresh 0 XZ_BUFFER_SIZE
  outBufIdx := none
  stream := stream
  isWrite := isWrite
  eof := false
  log := []

/-- `php_xz_init_decoder(self, memory_limit)` on a stream opened for reading; `none` is 0. -/
def phpXzInitDecoder (L : Liblzma σ) (memoryLimit : UInt64) (stream : ι) :
    Option (XzStreamCtx σ ι) :=
  (phpXzDecoderInitStream L memoryLimit).map fun s =>
    { freshCtx s stream false with outBufIdx := some 0 }

/-- `php_xz_init_encoder(self, level)` on a stream opened for writing; `none` is 0. -/
def phpXzInitEncoder (L : Liblzma σ) (level : UInt32) (stream : ι) : Option (XzStreamCtx σ ι) :=
  (phpXzEncoderInitStream L level).map fun s => freshCtx s stream true

/-! ## The operations -/

/-- The variables of the loop in `php_xziop_read`: what has been copied into `buf`, of length
`have_read`, and `to_read`. -/
structure Reading (σ ι : Type) where
  self : XzStreamCtx σ ι
  buf : List UInt8
  toRead : Nat

/-- `memcpy(buf + have_read, self->out_buf_idx, n)`. -/
def Reading.copyOut (r : Reading σ ι) (idx n : Nat) : Exec MemoryFault (Reading σ ι) :=
  if idx + n ≤ XZ_BUFFER_SIZE then
    .ok { r with buf := r.buf ++ r.self.outBuf.window idx n, toRead := r.toRead - n }
  else .error (.fault .copyPastOutBuf)

/-- What the loop does once the window has been copied out: everything is handed out. -/
def XzStreamCtx.emptyWindow (self : XzStreamCtx σ ι) : XzStreamCtx σ ι :=
  if self.strm.availOut ≠ 0 then { self with outBufIdx := some self.strm.nextOut }
  else { self.resetOut with outBufIdx := some 0 }

/-- The second half of a pass: end of file, or decompress some more. -/
def readMore (c : Coder σ) (io : Inner ι) (r : Reading σ ι) :
    Exec MemoryFault (Turn (Reading σ ι) (Option (List UInt8) × XzStreamCtx σ ι)) :=
  let self := r.self
  if self.outBufIdx = some self.strm.nextOut ∧ io.eof self.stream = true ∧ self.strm.availIn = 0 then
    pure (.leave (some r.buf, { self with eof := true }))
  else do
    let (fine, self) ← phpXzDecompress c io self
    if fine then pure (.again { r with self })
    else if r.buf.length = 0 then pure (.leave (none, self))
    else pure (.leave (some r.buf, self))

/-- One pass of `while (to_read > 0)` in `php_xziop_read`; the window is `next_out - out_buf_idx`. -/
def readTurn (c : Coder σ) (io : Inner ι) (r : Reading σ ι) :
    Exec MemoryFault (Turn (Reading σ ι) (Option (List UInt8) × XzStreamCtx σ ι)) :=
  if 0 < r.toRead then
    match r.self.outBufIdx with
    | none => .error (.fault .nullOutBufIdx)
    | some idx =>
      let window : Int := (r.self.strm.nextOut : Int) - idx
      if r.toRead < (window % 2 ^ 64).toNat then do
        let r' ← r.copyOut idx r.toRead
        pure (.leave (some r'.buf, { r'.self with outBufIdx := some (idx + r.toRead) }))
      else if 0 < window then do
        let r' ← r.copyOut idx window.toNat
        readMore c io { r' with self := r'.self.emptyWindow }
      else readMore c io r
  else pure (.leave (some r.buf, r.self))

/-- `php_xziop_read(stream, buf, count)`: the bytes, or `none` for the error value. -/
def phpXziopRead (c : Coder σ) (io : Inner ι) (fuel : Nat) (self : XzStreamCtx σ ι) (count : Nat) :
    Exec MemoryFault (Option (List UInt8) × XzStreamCtx σ ι) :=
  loop (readTurn c io) fuel ⟨self, [], count⟩

/-- The variables of the loop in `php_xziop_write`: `rest` is `buf + wrote`, of length
`count - wrote`. -/
structure Writing (σ ι : Type) where
  self : XzStreamCtx σ ι
  rest : List UInt8
  bytesConsumed : Int

/-- One pass of `while (count - wrote > XZ_BUFFER_SIZE - strm->avail_in)` in `php_xziop_write`. -/
def writeTurn (c : Coder σ) (io : Inner ι) (fuel : Nat) (w : Writing σ ι) :
    Exec MemoryFault (Turn (Writing σ ι) (Writing σ ι)) :=
  let room := sizeSub XZ_BUFFER_SIZE w.self.strm.availIn
  if w.rest.length > room then do
    let self ← w.self.copyIn (w.rest.take room)
    let (bytesConsumed, self) ← phpXzCompress c io fuel (self.setAvailIn XZ_BUFFER_SIZE)
    if bytesConsumed < 0 then pure (.leave ⟨self, w.rest.drop room, bytesConsumed⟩)
    else pure (.again ⟨self, w.rest.drop room, bytesConsumed⟩)
  else pure (.leave w)

/-- The loop of `php_xziop_write`. -/
def writeLoop (c : Coder σ) (io : Inner ι) (fuel : Nat) (self : XzStreamCtx σ ι)
    (buf : List UInt8) : Exec MemoryFault (Writing σ ι) :=
  loop (writeTurn c io fuel) fuel ⟨self, buf, 0⟩

/-- `php_xziop_write(stream, buf, count)`: `count`, or the error value -1. -/
def phpXziopWrite (c : Coder σ) (io : Inner ι) (fuel : Nat) (self : XzStreamCtx σ ι)
    (buf : List UInt8) : Exec MemoryFault (Int × XzStreamCtx σ ι) := do
  let w ← writeLoop c io fuel self buf
  let self ←
    if 0 < w.rest.length then do
      let self ← w.self.copyIn w.rest
      pure (self.setAvailIn (self.strm.availIn + w.rest.length))
    else pure w.self
  pure (if w.bytesConsumed < 0 then -1 else buf.length, self)

/-- One pass of `do … while (lz_ret == LZMA_OK)` in `php_xziop_close`. -/
def closeTurn (c : Coder σ) (io : Inner ι) (self : XzStreamCtx σ ι) :
    Exec MemoryFault (Turn (XzStreamCtx σ ι) (XzStreamCtx σ ι)) := do
  let (lzRet, self) ← self.resetOut.code c .finish
  let self :=
    if self.strm.availOut < XZ_BUFFER_SIZE then
      (self.write io (XZ_BUFFER_SIZE - self.strm.availOut)).2.resetOut
    else self
  if lzRet = .ok then pure (.again self) else pure (.leave self)

/-- `EOF`. -/
def EOF : Int := -1

/-- `php_xziop_close(stream, close_handle)`: its result, and the context as it was when it was
released. -/
def phpXziopClose (c : Coder σ) (io : Inner ι) (fuel : Nat) (self : XzStreamCtx σ ι) :
    Exec MemoryFault (Int × XzStreamCtx σ ι) := do
  let self ← if self.isWrite then loop (closeTurn c io) fuel self else pure self
  pure (EOF, self)

/-- `php_xziop_flush(stream)`. -/
def phpXziopFlush (c : Coder σ) (io : Inner ι) (fuel : Nat) (self : XzStreamCtx σ ι) :
    Exec MemoryFault (Int × XzStreamCtx σ ι) := do
  let self ←
    if self.isWrite then do
      let (_, self) ← phpXzCompress c io fuel self
      pure self
    else pure self
  pure (0, { self with stream := io.flush self.stream })

/-! ## Runs of operations -/

/-- An operation of `php_stream_xzio_ops`. -/
inductive XziopOp where
  | read (count : Nat)
  | write (buf : List UInt8)
  | flush
  | close
  deriving DecidableEq, Repr

/-- What an operation returned. -/
inductive XziopResult where
  /-- the bytes read, or `none` for the error value -/
  | read (bytes : Option (List UInt8))
  | write (ret : Int)
  | flush (ret : Int)
  | close (ret : Int)
  deriving DecidableEq, Repr

def xziop (c : Coder σ) (io : Inner ι) (fuel : Nat) (self : XzStreamCtx σ ι) :
    XziopOp → Exec MemoryFault (XziopResult × XzStreamCtx σ ι)
  | .read count => do
    let (bytes, self) ← phpXziopRead c io fuel self count
    pure (.read bytes, self)
  | .write buf => do
    let (ret, self) ← phpXziopWrite c io fuel self buf
    pure (.write ret, self)
  | .flush => do
    let (ret, self) ← phpXziopFlush c io fuel self
    pure (.flush ret, self)
  | .close => do
    let (ret, self) ← phpXziopClose c io fuel self
    pure (.close ret, self)

/-- One operation of a run: the context before it, and its outcome. -/
abbrev XziopStep (σ ι : Type) : Type :=
  Runs.Step (XzStreamCtx σ ι) XziopOp XziopResult (Halt MemoryFault)

def XziopOp.isClose : XziopOp → Bool
  | .close => true
  | _ => false

def XziopOp.isRead : XziopOp → Bool
  | .read _ => true
  | _ => false

/-- The bytes an operation passes to the stream. -/
def XziopOp.bytes : XziopOp → List UInt8
  | .write buf => buf
  | _ => []

/-- A run of operations. It ends with a `close`, and with an operation that has no result. -/
def xziopTrace (c : Coder σ) (io : Inner ι) (fuel : Nat) (self : XzStreamCtx σ ι)
    (ops : List XziopOp) : List (XziopStep σ ι) :=
  Runs.trace (xziop c io fuel) XziopOp.isClose self ops

/-- The stream below after a run whose last operation returned. -/
def streamAfter (c : Coder σ) (io : Inner ι) (fuel : Nat) (self : XzStreamCtx σ ι)
    (ops : List XziopOp) : Option ι :=
  match (xziopTrace c io fuel self ops).getLast? with
  | some ⟨_, _, .ok (_, self')⟩ => some self'.stream
  | _ => none

/-! ## More fuel -/

section More

variable {c : Coder σ} {io : Inner ι} {n m : Nat} {self self' : XzStreamCtx σ ι} {ret : Int}

theorem phpXzCompress_mono (h : phpXzCompress c io n self = .ok (ret, self')) (hnm : n ≤ m) :
    phpXzCompress c io m self = .ok (ret, self') := by
  obtain ⟨p, hloop, hp⟩ := bind_eq_ok.mp h
  exact bind_eq_ok.mpr ⟨p, loop_mono hloop hnm, hp⟩

theorem writeTurn_mono {w : Writing σ ι} {t : Turn (Writing σ ι) (Writing σ ι)}
    (h : writeTurn c io n w = .ok t) (hnm : n ≤ m) : writeTurn c io m w = .ok t := by
  unfold writeTurn at h ⊢
  dsimp only at h ⊢
  by_cases hmore : w.rest.length > sizeSub XZ_BUFFER_SIZE w.self.strm.availIn
  · rw [if_pos hmore] at h ⊢
    obtain ⟨mid, hcopy, h⟩ := bind_eq_ok.mp h
    obtain ⟨p, hcompress, h⟩ := bind_eq_ok.mp h
    exact bind_eq_ok.mpr ⟨mid, hcopy, bind_eq_ok.mpr ⟨p, phpXzCompress_mono hcompress hnm, h⟩⟩
  · rw [if_neg hmore] at h ⊢
    exact h

theorem phpXziopFlush_mono (h : phpXziopFlush c io n self = .ok (ret, self')) (hnm : n ≤ m) :
    phpXziopFlush c io m self = .ok (ret, self') := by
  by_cases hwrite : self.isWrite = true
  · simp only [phpXziopFlush, hwrite, if_true, pure_eq_ok] at h ⊢
    obtain ⟨p, hcompress, hp⟩ := bind_eq_ok.mp h
    exact bind_eq_ok.mpr ⟨p, phpXzCompress_mono hcompress hnm, hp⟩
  · simp only [phpXziopFlush, hwrite] at h ⊢
    exact h

theorem phpXziopClose_mono (h : phpXziopClose c io n self = .ok (ret, self')) (hnm : n ≤ m) :
    phpXziopClose c io m self = .ok (ret, self') := by
  by_cases hwrite : self.isWrite = true
  · simp only [phpXziopClose, hwrite, if_true, pure_eq_ok] at h ⊢
    obtain ⟨last, hloop, hp⟩ := bind_eq_ok.mp h
    exact bind_eq_ok.mpr ⟨last, loop_mono hloop hnm, hp⟩
  · simp only [phpXziopClose, hwrite] at h ⊢
    exact h

/-- **An operation** has one result, whatever the fuel that was enough for it. -/
theorem xziop_mono {op : XziopOp} {p : XziopResult × XzStreamCtx σ ι} (h : xziop c io n self op = .ok p)
    (hnm : n ≤ m) : xziop c io m self op = .ok p := by
  cases op with
  | read count =>
    obtain ⟨q, hread, hp⟩ := bind_eq_ok.mp h
    exact bind_eq_ok.mpr ⟨q, loop_mono hread hnm, hp⟩
  | write buf =>
    obtain ⟨q, hwrite, hp⟩ := bind_eq_ok.mp h
    obtain ⟨w, hloop, hq⟩ := bind_eq_ok.mp hwrite
    have hloop' : writeLoop c io m self buf = .ok w := loop_more (fun _ _ ht => writeTurn_mono ht hnm) hloop hnm
    exact bind_eq_ok.mpr ⟨q, bind_eq_ok.mpr ⟨w, hloop', hq⟩, hp⟩
  | flush =>
    obtain ⟨q, hflush, hp⟩ := bind_eq_ok.mp h
    exact bind_eq_ok.mpr ⟨q, phpXziopFlush_mono hflush hnm, hp⟩
  | close =>
    obtain ⟨q, hclose, hp⟩ := bind_eq_ok.mp h
    exact bind_eq_ok.mpr ⟨q, phpXziopClose_mono hclose hnm, hp⟩

end More

end PhpExtXz
