/-
# PhpExtXz.Liblzma — the part of liblzma the extension calls.

liblzma is not part of the repository. It enters as a parameter: a `Coder` is any state machine
behind `lzma_code` that takes bytes off its input and puts bytes into its output room, and a
`Liblzma` adds the functions that create one. What the results assume about a coder beyond that is
always a named hypothesis of the result (`PhpExtXz.CoderSpec`), never part of these definitions.

`lzmaCode` is the call as the extension makes it: through an `lzma_stream`, whose pointers are
offsets into the memory objects they point into. A call whose windows leave their objects is a
`MemoryFault`.
-/
import PhpExtXz.Lib.FuelLoop
import PhpExtXz.Lib.Buffer

namespace PhpExtXz

open FuelLoop

/-! ## Return codes and actions -/

/-- `lzma_ret`. -/
inductive LzmaRet where
  | ok | streamEnd | noCheck | unsupportedCheck | getCheck | memError | memlimitError
  | formatError | optionsError | dataError | bufError | progError | seekNeeded
  deriving DecidableEq, Repr

/-- The numeric value of an `lzma_ret`, as `xz_decode_get_status` returns it. -/
def LzmaRet.toInt : LzmaRet → Int
  | .ok => 0
  | .streamEnd => 1
  | .noCheck => 2
  | .unsupportedCheck => 3
  | .getCheck => 4
  | .memError => 5
  | .memlimitError => 6
  | .formatError => 7
  | .optionsError => 8
  | .dataError => 9
  | .bufError => 10
  | .progError => 11
  | .seekNeeded => 12

theorem LzmaRet.toInt_injective : Function.Injective LzmaRet.toInt := by
  intro a b h
  cases a <;> cases b <;> first | rfl | exact absurd h (by decide)

/-- `lzma_action`: the two actions the extension passes. -/
inductive LzmaAction where
  | run | finish
  deriving DecidableEq, Repr

/-! ## A coder -/

/-- What one call did: its return code, how many bytes it took off the input, the bytes it put into
the output room, and the coder afterwards. -/
structure CodeResult (σ : Type) where
  ret : LzmaRet
  taken : Nat
  emitted : List UInt8
  state : σ

/-- The coder behind `lzma_stream.internal`. It takes bytes from `next_in` on and appends bytes at
`next_out`, never more than there are or than there is room for. -/
structure Coder (σ : Type) where
  code : σ → LzmaAction → List UInt8 → Nat → CodeResult σ
  taken_le : ∀ s a input room, (code s a input room).taken ≤ input.length
  emitted_le : ∀ s a input room, (code s a input room).emitted.length ≤ room

/-- `lzma_stream`: `nextIn` and `nextOut` are offsets into the objects pointed into. -/
structure LzmaStream (σ : Type) where
  nextIn : Nat
  availIn : Nat
  totalIn : Nat
  nextOut : Nat
  availOut : Nat
  internal : σ

/-- `LZMA_STREAM_INIT`, with the coder that the init function installs. -/
def LzmaStream.init {σ : Type} (s : σ) : LzmaStream σ := ⟨0, 0, 0, 0, 0, s⟩

/-- Undefined behaviour of the C program. -/
inductive MemoryFault where
  /-- `lzma_code` would read past the object `next_in` points into. -/
  | readPastIn
  /-- `lzma_code` would write past the object `next_out` points into. -/
  | writePastOut
  /-- a `memcpy` into `in_buf` leaves its `XZ_BUFFER_SIZE` bytes. -/
  | copyPastInBuf
  /-- a `memcpy` out of `out_buf` leaves its `XZ_BUFFER_SIZE` bytes. -/
  | copyPastOutBuf
  /-- `out_buf_idx` is used while it is `NULL`. -/
  | nullOutBufIdx
  /-- filter properties leave the array `props`. -/
  | propsOverflow
  deriving DecidableEq, Repr

/-- The record of one `lzma_code` call: where `next_in` stood, what the call was given, and what it
did. -/
structure LzmaCall where
  nextIn : Nat
  action : LzmaAction
  input : List UInt8
  room : Nat
  ret : LzmaRet
  taken : Nat
  emitted : List UInt8
  deriving DecidableEq, Repr

/-- The bytes the call consumed. -/
def LzmaCall.consumed (call : LzmaCall) : List UInt8 := call.input.take call.taken

/-- What `lzmaCode` hands back: the code, the updated stream and output object, and the record. -/
structure Coded (σ : Type) (n : Nat) where
  ret : LzmaRet
  strm : LzmaStream σ
  dst : Buffer UInt8 n
  call : LzmaCall

variable {σ : Type} {n : Nat}

/-- The bytes `strm` offers as input out of `src`. -/
def LzmaStream.input (strm : LzmaStream σ) (src : List UInt8) : List UInt8 :=
  (src.drop strm.nextIn).take strm.availIn

/-- What the coder does at the next call of `strm` on `src`. -/
def LzmaStream.next (c : Coder σ) (strm : LzmaStream σ) (action : LzmaAction)
    (src : List UInt8) : CodeResult σ :=
  c.code strm.internal action (strm.input src) strm.availOut

/-- The stream after a call: both windows moved by what the coder took and emitted. -/
def LzmaStream.advance (strm : LzmaStream σ) (r : CodeResult σ) : LzmaStream σ where
  nextIn := strm.nextIn + r.taken
  availIn := strm.availIn - r.taken
  totalIn := strm.totalIn + r.taken
  nextOut := strm.nextOut + r.emitted.length
  availOut := strm.availOut - r.emitted.length
  internal := r.state

/-- `lzma_code(strm, action)` with `next_in` pointing into `src` and `next_out` into `dst`. -/
def lzmaCode (c : Coder σ) (strm : LzmaStream σ) (action : LzmaAction) (src : List UInt8)
    (dst : Buffer UInt8 n) : Exec MemoryFault (Coded σ n) :=
  if strm.nextIn + strm.availIn ≤ src.length then
    if hout : strm.nextOut + strm.availOut ≤ n then
      let r := strm.next c action src
      have hlen : r.emitted.length ≤ strm.availOut := c.emitted_le _ _ _ _
      .ok
        { ret := r.ret
          strm := strm.advance r
          dst := dst.blit strm.nextOut r.emitted (by omega)
          call := ⟨strm.nextIn, action, strm.input src, strm.availOut, r.ret, r.taken, r.emitted⟩ }
    else .error (.fault .writePastOut)
  else .error (.fault .readPastIn)

section Advance

variable {strm : LzmaStream σ} {r : CodeResult σ}

@[simp]
theorem LzmaStream.advance_nextIn : (strm.advance r).nextIn = strm.nextIn + r.taken := rfl

@[simp]
theorem LzmaStream.advance_availIn : (strm.advance r).availIn = strm.availIn - r.taken := rfl

@[simp]
theorem LzmaStream.advance_totalIn : (strm.advance r).totalIn = strm.totalIn + r.taken := rfl

@[simp]
theorem LzmaStream.advance_nextOut :
    (strm.advance r).nextOut = strm.nextOut + r.emitted.length := rfl

@[simp]
theorem LzmaStream.advance_availOut :
    (strm.advance r).availOut = strm.availOut - r.emitted.length := rfl

end Advance

theorem LzmaStream.length_input {strm : LzmaStream σ} {src : List UInt8}
    (hin : strm.nextIn + strm.availIn ≤ src.length) : (strm.input src).length = strm.availIn := by
  simp only [LzmaStream.input, List.length_take, List.length_drop]
  omega

theorem LzmaStream.taken_le {c : Coder σ} {strm : LzmaStream σ} {action : LzmaAction}
    {src : List UInt8} (hin : strm.nextIn + strm.availIn ≤ src.length) :
    (strm.next c action src).taken ≤ strm.availIn := by
  have h := c.taken_le strm.internal action (strm.input src) strm.availOut
  rwa [length_input hin] at h

theorem LzmaStream.emitted_le {c : Coder σ} {strm : LzmaStream σ} {action : LzmaAction}
    {src : List UInt8} : (strm.next c action src).emitted.length ≤ strm.availOut :=
  c.emitted_le _ _ _ _

/-- **The spec of `lzmaCode`.** Inside its objects a call does not fault; the stream advances by
what the coder did, and the emitted bytes follow what had been written. -/
theorem lzmaCode_eq_ok {c : Coder σ} {strm : LzmaStream σ} {action : LzmaAction}
    {src : List UInt8} (dst : Buffer UInt8 n) {r : CodeResult σ}
    (hr : strm.next c action src = r)
    (hin : strm.nextIn + strm.availIn ≤ src.length) (hout : strm.nextOut + strm.availOut ≤ n) :
    ∃ dst' : Buffer UInt8 n,
      lzmaCode c strm action src dst = .ok ⟨r.ret, strm.advance r, dst',
        ⟨strm.nextIn, action, strm.input src, strm.availOut, r.ret, r.taken, r.emitted⟩⟩ ∧
      dst'.written (strm.nextOut + r.emitted.length) = dst.written strm.nextOut ++ r.emitted := by
  subst hr
  simp only [lzmaCode, if_pos hin, dif_pos hout]
  exact ⟨_, rfl, Buffer.written_blit⟩

/-! ## Creating a coder -/

/-- `lzma_options_lzma`, without the preset dictionary. -/
structure LzmaOptionsLzma where
  dictSize : UInt32
  lc : UInt32
  lp : UInt32
  pb : UInt32
  mode : UInt32
  niceLen : UInt32
  mf : UInt32
  depth : UInt32
  deriving DecidableEq, Repr

/-- `lzma_filter`: the id is an `lzma_vli`. -/
structure LzmaFilter where
  id : UInt64
  options : LzmaOptionsLzma
  deriving DecidableEq, Repr

def LZMA_FILTER_LZMA1 : UInt64 := 0x4000000000000001
def LZMA_FILTER_LZMA2 : UInt64 := 0x21

/-- One of the two filters the extension knows. -/
def LzmaFilter.Known (filter : LzmaFilter) : Prop :=
  filter.id = LZMA_FILTER_LZMA1 ∨ filter.id = LZMA_FILTER_LZMA2

instance (filter : LzmaFilter) : Decidable filter.Known := inferInstanceAs (Decidable (_ ∨ _))

def LZMA_CHECK_NONE : UInt32 := 0
def LZMA_CHECK_CRC32 : UInt32 := 1
def LZMA_CHECK_CRC64 : UInt32 := 4
def LZMA_CHECK_SHA256 : UInt32 := 10

def LZMA_CONCATENATED : UInt32 := 0x08

def UINT64_MAX : UInt64 := 0xffffffffffffffff

/-- The functions of liblzma that the extension calls: the coder behind `lzma_code`, the presets
(`none`: `lzma_lzma_preset` returned true, it failed), the functions that create a coder, and those
that encode filter properties (the bytes they write). The filter array of the source ends with
`LZMA_VLI_UNKNOWN`; here it is a list. -/
structure Liblzma (σ : Type) where
  coder : Coder σ
  lzmaLzmaPreset : UInt32 → Option LzmaOptionsLzma
  lzmaStreamEncoder : List LzmaFilter → UInt32 → Except LzmaRet σ
  lzmaRawEncoder : List LzmaFilter → Except LzmaRet σ
  lzmaAutoDecoder : UInt64 → UInt32 → Except LzmaRet σ
  lzmaRawDecoder : List LzmaFilter → Except LzmaRet σ
  lzmaPropertiesSize : LzmaFilter → Except LzmaRet UInt32
  lzmaPropertiesEncode : LzmaFilter → Except LzmaRet (List UInt8)

end PhpExtXz
