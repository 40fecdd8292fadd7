/-
# PhpExtXz.StreamXzopen — `php_stream_xzopen` and `xzopen`, with a ledger of what an open owns.

An open reads the level off the mode string, opens the stream below and builds the context around it.
The `ledger` records what happens to the two things it owns: the context struct, allocated, accessed
and released, and the stream below, opened and closed.

The three last exits release the context and then close the xz stream, whose close operation still
finds the context behind `stream->abstract`. `xzopen_leavesNothing_iff`: these exits, and no others,
break what a failed open owes.
-/
import PhpExtXz.Lib.CString
import PhpExtXz.WriteStream
import PhpExtXz.ConcreteCoders

namespace PhpExtXz

open FuelLoop CString

variable {σ ι : Type}

/-! ## What an open asks for -/

/-- The stream layer of PHP, as far as an open uses it. -/
structure StreamLayer (ι : Type) where
  /-- `php_stream_open_wrapper_ex(path, mode, …)`; `none` is `NULL` -/
  openWrapper : (path mode : List UInt8) → Option ι
  /-- `php_stream_cast(innerstream, PHP_STREAM_AS_FD, …) == SUCCESS` -/
  castFd : ι → Bool
  /-- `php_stream_alloc_rel(…, mode)` returned a stream -/
  alloc : (mode : List UInt8) → Bool

/-- The options for `xz` of a `php_stream_context`, with the values `zval_get_long` gives. -/
structure XzContext where
  compressionLevel : Option ZendLong := none
  maxMemory : Option ZendLong := none

/-- The errors an open reports. -/
inductive XzopenError where
  | bothDirections | invalidLevel | encoderFailed | decoderFailed | unsupportedMode | allocFailed
  deriving DecidableEq, Repr

/-- Their texts. The first two are of level `E_ERROR`, the others of level `E_WARNING`. -/
def XzopenError.message : XzopenError → String
  | .bothDirections => "cannot open xz stream for reading and writing at the same time."
  | .invalidLevel => "Invalid compression level"
  | .encoderFailed => "Could not initialize xz encoder."
  | .decoderFailed => "Could not initialize xz decoder"
  | .unsupportedMode => "Can only open in read (r) or write (w) mode."
  | .allocFailed => "failed opening xz stream"

/-- An entry of the ledger. -/
inductive OpenEvent where
  | report (e : XzopenError)
  /-- an attempt to open the stream below -/
  | openInner (opened : Bool)
  | closeInner
  /-- `ecalloc` of the context struct, a read or write of it, and its `efree` -/
  | allocCtx
  | accessCtx
  | releaseCtx
  /-- `lzma_lzma_preset(…, level)` -/
  | preset (level : UInt32) (found : Bool)
  deriving DecidableEq, Repr

/-! ## The mode string -/

def COLON : UInt8 := 58

/-- The array `mode`: 63 bytes of `mode_pass` at most. -/
def modeArray (modePass : List UInt8) : List UInt8 := (cString modePass).take 63

/-- `mode` once the colon is overwritten. -/
def openMode (modePass : List UInt8) : List UInt8 := before COLON (modeArray modePass)

/-- `level` after the mode string has been looked at. -/
def modeLevel (ini : Ini) (modePass : List UInt8) : ZendLong :=
  match after COLON (modeArray modePass) with
  | some digits => (strtoul digits).toInt64
  | none => ini.compressionLevel

/-- `strchr(mode, '+')`, or both `strchr(mode, 'r')` and `strchr(mode, 'w')`. -/
def bothDirections (mode : List UInt8) : Bool :=
  43 ∈ mode ∨ (114 ∈ mode ∧ 119 ∈ mode)

def isWriteMode (mode : List UInt8) : Bool := mode = bytes ['w'] ∨ mode = bytes ['w', 'b']

def isReadMode (mode : List UInt8) : Bool := mode = bytes ['r'] ∨ mode = bytes ['r', 'b']

/-- No mode is both. -/
theorem isWriteMode_of_isReadMode {mode : List UInt8} (h : isReadMode mode = true) : isWriteMode mode = false := by
  rcases of_decide_eq_true h with rfl | rfl <;> decide

/-- `tolower` in the C locale. -/
def toLower (b : UInt8) : UInt8 := if 65 ≤ b ∧ b ≤ 90 then b + 32 else b

def SCHEME : List UInt8 :=
  bytes ['c', 'o', 'm', 'p', 'r', 'e', 's', 's', '.', 'l', 'z', 'm', 'a', ':', '/', '/']

/-- `path`, past the scheme if `strncasecmp` finds it there. -/
def openPath (path : List UInt8) : List UInt8 :=
  if ((cString path).take 16).map toLower = SCHEME then (cString path).drop 16 else cString path

/-! ## The open -/

/-- `php_stream_close` on an xz stream whose context has no coder: the accesses of `php_xziop_close`,
of which the one in the loop is made where `is_write` is set. -/
def closeEvents (isWrite : Bool) : List OpenEvent :=
  [.accessCtx] ++ (if isWrite then [.accessCtx] else []) ++ [.accessCtx, .closeInner, .releaseCtx]

/-- The last exits: an error, `efree(self)`, `php_stream_close(stream)`. -/
def abandon (e : XzopenError) (isWrite : Bool) : List OpenEvent :=
  [.report e, .releaseCtx] ++ closeEvents isWrite

/-- `self->is_write`: the first letter of the mode is `w`. -/
def startsWithW (mode : List UInt8) : Bool := mode.head? = some 119

/-- The coder of a stream in `mode`; `none` is one of the last exits. The accesses are those of the
init functions, which stop at a preset that is not found. -/
def initCoder (L : Liblzma σ) (mode : List UInt8) (level mem : ZendLong) (inner : ι) :
    Option (XzStreamCtx σ ι) × List OpenEvent :=
  if isWriteMode mode then
    let found := (L.lzmaLzmaPreset (castUInt32 level)).isSome
    let events := .preset (castUInt32 level) found :: if found then [.accessCtx] else []
    match phpXzInitEncoder L (castUInt32 level) inner with
    | none => (none, events ++ abandon .encoderFailed (startsWithW mode))
    | some self => (some self, events)
  else if isReadMode mode then
    match phpXzInitDecoder L (castUInt64 mem) inner with
    | none => (none, .accessCtx :: abandon .decoderFailed (startsWithW mode))
    | some self => (some self, [.accessCtx])
  else (none, abandon .unsupportedMode (startsWithW mode))

/-- `php_stream_xzopen(wrapper, path, mode_pass, …, context)`: the stream's context, `none` for `NULL`,
and the ledger. -/
def phpStreamXzopen (L : Liblzma σ) (layer : StreamLayer ι) (ini : Ini) (path modePass : List UInt8)
    (context : Option XzContext) : Option (XzStreamCtx σ ι) × List OpenEvent :=
  let mode := openMode modePass
  let level := modeLevel ini modePass
  if bothDirections mode then (none, [.report .bothDirections])
  else if level < 0 ∨ level > 9 then (none, [.report .invalidLevel])
  else
    -- a context option takes the place of the level that has been checked
    let level := (context.bind (·.compressionLevel)).getD level
    let mem := (context.bind (·.maxMemory)).getD ini.maxMemory
    match layer.openWrapper (openPath path) mode with
    | none => (none, [.openInner false])
    | some inner =>
      if layer.castFd inner then
        if layer.alloc mode then
          let (self, events) := initCoder L mode level mem inner
          (self, [.openInner true, .allocCtx, .accessCtx] ++ events)
        else
          (none, [.openInner true, .allocCtx, .accessCtx, .releaseCtx, .report .allocFailed, .closeInner])
      else (none, [.openInner true, .closeInner])

/-- `xzopen(filename, mode, compression_level)`; `none` is an argument left out. The level is printed
behind the mode. -/
def xzopen (L : Liblzma σ) (layer : StreamLayer ι) (ini : Ini) (filename mode : List UInt8)
    (compressionLevel : Option ZendLong) : Option (XzStreamCtx σ ι) × List OpenEvent :=
  let compressionLevel := compressionLevel.getD ini.compressionLevel
  let modeToPass := cString mode ++ COLON :: decimal compressionLevel.toInt
  phpStreamXzopen L layer ini filename modeToPass none

/-! ## The close operation without a coder -/

/-- `lzma_code` on an `lzma_stream` that may have no coder: without one it is `LZMA_PROG_ERROR`. -/
def Coder.orNull (c : Coder σ) : Coder (Option σ) where
  code s action input room :=
    match s with
    | none => ⟨.progError, 0, [], none⟩
    | some s =>
      let r := c.code s action input room
      ⟨r.ret, r.taken, r.emitted, some r.state⟩
  taken_le s action input room := by
    cases s with
    | none => exact Nat.zero_le _
    | some s => exact c.taken_le s action input room
  emitted_le s action input room := by
    cases s with
    | none => exact Nat.zero_le _
    | some s => exact c.emitted_le s action input room

/-- On a context as `ecalloc` leaves it the close operation ends after one call at most, which emits
nothing, and the stream below is left as it was: its accesses are those of `closeEvents`. -/
theorem phpXziopClose_withoutCoder (c : Coder σ) (io : Inner ι) (n : Nat) (inner : ι)
    (isWrite : Bool) :
    ∃ self, phpXziopClose c.orNull io (n + 1) (freshCtx none inner isWrite) = .ok (EOF, self) ∧
      self.stream = inner ∧
      closeEvents isWrite =
        [.accessCtx] ++ self.log.map (fun _ => .accessCtx) ++ [.accessCtx, .closeInner, .releaseCtx] := by
  cases isWrite with
  | false => exact ⟨_, rfl, rfl, rfl⟩
  | true =>
    let ctx : XzStreamCtx (Option σ) ι := freshCtx none inner true
    have hb : ctx.resetOut.Bounded := ⟨Nat.zero_le _, Nat.zero_add _⟩
    have hcall : c.orNull.code ctx.resetOut.strm.internal .finish ctx.resetOut.inPending
        ctx.resetOut.strm.availOut = ⟨.progError, 0, [], none⟩ := rfl
    obtain ⟨self, hcode, hcoded⟩ := XzStreamCtx.code_eq_ok hb hcall
    have hroom : ¬ self.strm.availOut < XZ_BUFFER_SIZE := by
      rw [hcoded.strm]
      exact Nat.lt_irrefl _
    refine ⟨self, ?_, hcoded.stream, ?_⟩
    · have hturn : closeTurn c.orNull io ctx = .ok (.leave self) := by
        simp only [closeTurn, hcode, ok_bind, if_neg hroom]
        rfl
      have hloop : loop (closeTurn c.orNull io) (n + 1) ctx = .ok self := by
        rw [loop, hturn]
      show (loop (closeTurn c.orNull io) (n + 1) ctx >>= fun self => pure (EOF, self)) = .ok (EOF, self)
      rw [hloop, ok_bind, pure_eq_ok]
    · rw [hcoded.log]
      rfl

/-! ## What a failed open leaves -/

/-- The open was refused for its mode or its level. -/
def Refused (ledger : List OpenEvent) : Prop :=
  .report .bothDirections ∈ ledger ∨ .report .invalidLevel ∈ ledger ∨
    .report .unsupportedMode ∈ ledger ∨ ∃ level, .preset level false ∈ ledger

/-- **Nothing is left behind**: the context is released once and not accessed afterwards, the stream
below is closed once, and it is not even opened for a mode or a level that is refused. -/
structure LeavesNothing (ledger : List OpenEvent) : Prop where
  released : .allocCtx ∈ ledger → ledger.count .releaseCtx = 1
  untouched : .accessCtx ∉ ledger.dropWhile (· ≠ .releaseCtx)
  closed : .openInner true ∈ ledger → ledger.count .closeInner = 1
  unopened : Refused ledger → ∀ opened, .openInner opened ∉ ledger

/-- The checks that come before the stream below is opened. -/
def RefusedEarly (ini : Ini) (modePass : List UInt8) : Prop :=
  bothDirections (openMode modePass) = true ∨ modeLevel ini modePass < 0 ∨ modeLevel ini modePass > 9

/-- The stream below is opened, it has a descriptor, and the xz stream is allocated. -/
def Prepared (layer : StreamLayer ι) (path modePass : List UInt8) : Prop :=
  ∃ inner, layer.openWrapper (openPath path) (openMode modePass) = some inner ∧
    layer.castFd inner = true ∧ layer.alloc (openMode modePass) = true

/-- The level the encoder is created with: the option of the context, or that of the mode string. -/
def levelUsed (ini : Ini) (modePass : List UInt8) (context : Option XzContext) : ZendLong :=
  (context.bind (·.compressionLevel)).getD (modeLevel ini modePass)

/-- The memory limit of the decoder. -/
def memUsed (ini : Ini) (context : Option XzContext) : ZendLong :=
  (context.bind (·.maxMemory)).getD ini.maxMemory

/-- **What an open can do.** -/
inductive Xzopen (L : Liblzma σ) (layer : StreamLayer ι) (ini : Ini) (path modePass : List UInt8)
    (context : Option XzContext) : Option (XzStreamCtx σ ι) × List OpenEvent → Prop
  | refused {e : XzopenError} (early : RefusedEarly ini modePass) :
      Xzopen L layer ini path modePass context (none, [.report e])
  | notOpened (checked : ¬ RefusedEarly ini modePass) (unprepared : ¬ Prepared layer path modePass) :
      Xzopen L layer ini path modePass context (none, [.openInner false])
  | notCast (checked : ¬ RefusedEarly ini modePass) (unprepared : ¬ Prepared layer path modePass) :
      Xzopen L layer ini path modePass context (none, [.openInner true, .closeInner])
  | notAllocated (checked : ¬ RefusedEarly ini modePass) (unprepared : ¬ Prepared layer path modePass) :
      Xzopen L layer ini path modePass context (none,
        [.openInner true, .allocCtx, .accessCtx, .releaseCtx, .report .allocFailed, .closeInner])
  | initialised {inner : ι} (checked : ¬ RefusedEarly ini modePass)
      (prepared : Prepared layer path modePass) :
      Xzopen L layer ini path modePass context
        ((initCoder L (openMode modePass) (levelUsed ini modePass context) (memUsed ini context) inner).1,
          [.openInner true, .allocCtx, .accessCtx] ++ (initCoder L (openMode modePass)
            (levelUsed ini modePass context) (memUsed ini context) inner).2)

theorem phpStreamXzopen_cases (L : Liblzma σ) (layer : StreamLayer ι) (ini : Ini)
    (path modePass : List UInt8) (context : Option XzContext) :
    Xzopen L layer ini path modePass context
      (phpStreamXzopen L layer ini path modePass context) := by
  dsimp only [phpStreamXzopen]
  split
  · rename_i hboth
    exact .refused (Or.inl hboth)
  · rename_i hboth
    split
    · exact .refused (Or.inr ‹_›)
    · rename_i hlevel
      have hchecked : ¬ RefusedEarly ini modePass := fun h => h.elim hboth hlevel
      split
      · rename_i hopen
        apply Xzopen.notOpened hchecked
        rintro ⟨inner, hinner, -⟩
        rw [hopen] at hinner
        cases hinner
      · rename_i inner hopen
        split
        · rename_i hcast
          split
          · exact .initialised hchecked ⟨inner, hopen, hcast, ‹_›⟩
          · rename_i halloc
            apply Xzopen.notAllocated hchecked
            rintro ⟨-, -, -, h⟩
            exact halloc h
        · rename_i hcast
          apply Xzopen.notCast hchecked
          rintro ⟨inner', hinner, h, -⟩
          rw [hopen] at hinner
          obtain rfl := Option.some.inj hinner
          exact hcast h

variable {L : Liblzma σ} {layer : StreamLayer ι} {ini : Ini} {path modePass : List UInt8}
  {context : Option XzContext}

/-- Where no coder can be made the context is released and then closed. -/
theorem initCoder_none {mode : List UInt8} {level mem : ZendLong} {inner : ι}
    (h : (initCoder L mode level mem inner).1 = none) :
    ∃ events e, (initCoder L mode level mem inner).2 = events ++ abandon e (startsWithW mode) := by
  unfold initCoder at h ⊢
  split
  · rename_i hwrite
    rw [if_pos hwrite] at h
    split
    · exact ⟨_, _, rfl⟩
    · rename_i hself
      rw [hself] at h
      cases h
  · rename_i hwrite
    rw [if_neg hwrite] at h
    split
    · rename_i hread
      rw [if_pos hread] at h
      split
      · exact ⟨[.accessCtx], _, rfl⟩
      · rename_i hself
        rw [hself] at h
        cases h
    · exact ⟨[], _, rfl⟩

/-- The context that is abandoned is released twice. -/
theorem not_leavesNothing_abandon (events : List OpenEvent) (e : XzopenError) (isWrite : Bool) :
    ¬ LeavesNothing ([.openInner true, .allocCtx, .accessCtx] ++ (events ++ abandon e isWrite)) := by
  intro h
  have htwice : (abandon e isWrite).count .releaseCtx = 2 := by
    cases isWrite <;> rfl
  have honce := h.released (List.mem_cons_of_mem _ List.mem_cons_self)
  rw [List.count_append, List.count_append, htwice] at honce
  omega

theorem leavesNothing_report (e : XzopenError) : LeavesNothing [.report e] where
  released h := absurd (List.mem_singleton.mp h) nofun
  untouched := List.not_mem_nil
  closed h := absurd (List.mem_singleton.mp h) nofun
  unopened _ _ h := absurd (List.mem_singleton.mp h) nofun

/-- The exits between the early checks and the last ones. -/
theorem leavesNothing_unprepared :
    LeavesNothing [.openInner false] ∧ LeavesNothing [.openInner true, .closeInner] ∧
      LeavesNothing
        [.openInner true, .allocCtx, .accessCtx, .releaseCtx, .report .allocFailed, .closeInner] := by
  refine ⟨⟨by decide, by decide, by decide, ?_⟩, ⟨by decide, by decide, by decide, ?_⟩,
    ⟨by decide, by decide, by decide, ?_⟩⟩ <;> simp [Refused]

/-- **A failed open leaves nothing behind** exactly where it fails before the last exits: for an early
check, or because the stream below is not opened, has no descriptor, or no xz stream is allocated. -/
theorem xzopen_leavesNothing_iff
    (hnull : (phpStreamXzopen L layer ini path modePass context).1 = none) :
    LeavesNothing (phpStreamXzopen L layer ini path modePass context).2 ↔
      RefusedEarly ini modePass ∨ ¬ Prepared layer path modePass := by
  have hcases := phpStreamXzopen_cases L layer ini path modePass context
  generalize phpStreamXzopen L layer ini path modePass context = res at hnull hcases
  cases hcases with
  | refused early => exact ⟨fun _ => Or.inl early, fun _ => leavesNothing_report _⟩
  | notOpened checked unprepared =>
    exact ⟨fun _ => Or.inr unprepared, fun _ => leavesNothing_unprepared.1⟩
  | notCast checked unprepared =>
    exact ⟨fun _ => Or.inr unprepared, fun _ => leavesNothing_unprepared.2.1⟩
  | notAllocated checked unprepared =>
    exact ⟨fun _ => Or.inr unprepared, fun _ => leavesNothing_unprepared.2.2⟩
  | initialised checked prepared =>
    obtain ⟨events, e, hevents⟩ := initCoder_none hnull
    rw [hevents]
    constructor
    · intro h
      exact absurd h (not_leavesNothing_abandon _ _ _)
    · rintro (early | unprepared)
      · exact absurd early checked
      · exact absurd prepared unprepared

/-! ### An unsupported mode -/

/-- Every path opens a stream with a descriptor. -/
def plainLayer : StreamLayer Unit where
  openWrapper _ _ := some ()
  castFd _ := true
  alloc _ := true

/-- The mode string `xzopen` makes of `a`. -/
def appendMode : List UInt8 := bytes ['a', ':', '5']

theorem appendMode_null :
    (phpStreamXzopen copyLiblzma plainLayer {} (bytes ['f']) appendMode none).1 = none := by
  rfl

theorem xzopen_leavesNothing_iff_appendMode :
    LeavesNothing (phpStreamXzopen copyLiblzma plainLayer {} (bytes ['f']) appendMode none).2 ↔
      RefusedEarly {} appendMode ∨ ¬ Prepared plainLayer (bytes ['f']) appendMode :=
  xzopen_leavesNothing_iff appendMode_null

/-- `xzopen('f', 'a')`: the stream below is opened for a mode that is then refused, and the context is
accessed after its release and released again. -/
theorem appendMode_leaves :
    xzopen copyLiblzma plainLayer {} (bytes ['f']) (bytes ['a']) none =
        (none, [.openInner true, .allocCtx, .accessCtx, .report .unsupportedMode, .releaseCtx, .accessCtx,
          .accessCtx, .closeInner, .releaseCtx]) ∧
      ¬ LeavesNothing (xzopen copyLiblzma plainLayer {} (bytes ['f']) (bytes ['a']) none).2 := by
  have hledger : xzopen copyLiblzma plainLayer {} (bytes ['f']) (bytes ['a']) none =
      (none, [.openInner true, .allocCtx, .accessCtx, .report .unsupportedMode, .releaseCtx, .accessCtx,
        .accessCtx, .closeInner, .releaseCtx]) := by
    rfl
  refine ⟨hledger, ?_⟩
  rw [hledger]
  exact not_leavesNothing_abandon [] .unsupportedMode false

end PhpExtXz
