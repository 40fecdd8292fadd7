/-
# PhpExtXz.Streams — a PHP process with its xz streams.

A script opens any number of xz streams, through `xzopen` or through the `compress.lzma://` wrapper, and
calls their operations in any order. `StreamTable` is what such a script runs against: the streams, the
memory of liblzma behind their `strm.internal`, the streams below them, and the state that all streams
below share, which are the files. `streamOp` is one step.

Pointers to a coder and to a stream below are identifiers of the stores `coders` and `inners`. To use or to
release what has been released before is undefined behaviour; here it is a fault of its own kind. What a
failed open does is done by its ledger, entry by entry (`replay`).

An error of level `E_ERROR` ends a script in PHP. Here it goes on, so that scripts do more than they can.
-/
import PhpExtXz.Lib.Components
import PhpExtXz.Lib.Store
import PhpExtXz.StreamXzopen

namespace PhpExtXz

open FuelLoop CString

variable {σ τ ι κ φ : Type}

/-! ## The streams below -/

/-- The streams below, each under an identifier. `get` is the state of one of them in the state of all, and
`put` is the state of all once this one has gone on. -/
structure FileSystem (φ ι : Type) where
  io : Inner ι
  get : φ → Nat → ι
  put : φ → Nat → ι → φ
  openWrapper : φ → Nat → (path mode : List UInt8) → Option φ
  castFd : φ → Nat → Bool
  alloc : (mode : List UInt8) → Bool
  close : φ → Nat → φ

/-- The stream layer for an open whose stream below gets the identifier `id`. -/
def FileSystem.layer (fs : FileSystem φ ι) (world : φ) (id : Nat) : StreamLayer φ where
  openWrapper := fs.openWrapper world id
  castFd world := fs.castFd world id
  alloc := fs.alloc

/-! ## The table -/

/-- Undefined behaviour of a process with streams. -/
inductive StreamFault where
  | memory (fault : MemoryFault)
  /-- `lzma_code` or `lzma_end` on a coder that has been ended -/
  | coderEnded
  /-- the stream below is used or closed after it has been closed -/
  | innerClosed
  /-- the context struct is accessed or released after its release -/
  | contextReleased
  deriving DecidableEq, Repr

/-- A context with another coder and another stream below. -/
def XzStreamCtx.withParts (self : XzStreamCtx σ ι) (internal : τ) (stream : κ) : XzStreamCtx τ κ where
  strm := ⟨self.strm.nextIn, self.strm.availIn, self.strm.totalIn, self.strm.nextOut, self.strm.availOut,
    internal⟩
  inBuf := self.inBuf
  outBuf := self.outBuf
  outBufIdx := self.outBufIdx
  stream := stream
  isWrite := self.isWrite
  eof := self.eof
  log := self.log

/-- The streams of a script, what they point to, and the INI values. -/
structure StreamTable (σ φ : Type) where
  ini : Ini
  world : φ
  streams : Store (XzStreamCtx Nat Nat)
  coders : Store σ
  inners : Store Unit

/-- What a step of a script gives back. -/
inductive StreamReturn where
  | stream (handle : Nat)
  /-- `false`, after errors with these texts -/
  | returnFalse (messages : List String)
  | did (ret : XziopResult)
  | typeError (message : String)
  | null
  deriving DecidableEq, Repr

/-- The text that an entry of a ledger reports. -/
def OpenEvent.message? : OpenEvent → Option String
  | .report e => some e.message
  | _ => none

/-- A computation that looks at one stream, as part of the process. -/
def liftMemory {α : Type} : Exec MemoryFault α → Exec StreamFault α
  | .ok a => .ok a
  | .error .outOfFuel => .error .outOfFuel
  | .error (.fault e) => .error (.fault (.memory e))

namespace StreamTable

/-- A script begins without streams. -/
def start (ini : Ini) (world : φ) : StreamTable σ φ := ⟨ini, world, .empty, .empty, .empty⟩

/-- What a stream points to. -/
def load (fs : FileSystem φ ι) (self : StreamTable σ φ) (ctx : XzStreamCtx Nat Nat) :
    Exec StreamFault (XzStreamCtx σ ι) :=
  match self.coders.get ctx.strm.internal, self.inners.get ctx.stream with
  | some s, some _ => pure (ctx.withParts s (fs.get self.world ctx.stream))
  | none, _ => .error (.fault .coderEnded)
  | _, none => .error (.fault .innerClosed)

/-- The stream `handle`, which was `ctx`, as an operation has left it. -/
def save (fs : FileSystem φ ι) (self : StreamTable σ φ) (handle : Nat) (ctx : XzStreamCtx Nat Nat)
    (ctx' : XzStreamCtx σ ι) : StreamTable σ φ :=
  { self with
    world := fs.put self.world ctx.stream ctx'.stream
    streams := self.streams.set handle (ctx'.withParts ctx.strm.internal ctx.stream)
    coders := self.coders.set ctx.strm.internal ctx'.strm.internal }

/-- `lzma_end(&self->strm)`. -/
def lzmaEnd (self : StreamTable σ φ) (p : Nat) : Exec StreamFault (StreamTable σ φ) :=
  match self.coders.get p with
  | none => .error (.fault .coderEnded)
  | some _ => pure { self with coders := self.coders.free p }

/-- `php_stream_free` or `php_stream_close` on the stream below. -/
def closeInner (fs : FileSystem φ ι) (self : StreamTable σ φ) (id : Nat) :
    Exec StreamFault (StreamTable σ φ) :=
  match self.inners.get id with
  | none => .error (.fault .innerClosed)
  | some _ => pure { self with world := fs.close self.world id, inners := self.inners.free id }

/-- The end of `php_xziop_close`: the coder, the stream below, and the context with its buffers. -/
def release (fs : FileSystem φ ι) (self : StreamTable σ φ) (handle : Nat) (ctx : XzStreamCtx Nat Nat) :
    Exec StreamFault (StreamTable σ φ) := do
  let self ← self.lzmaEnd ctx.strm.internal
  let self ← self.closeInner fs ctx.stream
  pure { self with streams := self.streams.free handle }

/-- An operation on the stream `handle`. -/
def call (L : Liblzma σ) (fs : FileSystem φ ι) (fuel : Nat) (self : StreamTable σ φ) (handle : Nat)
    (op : XziopOp) : Exec StreamFault (StreamReturn × StreamTable σ φ) :=
  match self.streams.get handle with
  | none => pure (.typeError "supplied resource is not a valid stream resource", self)
  | some ctx => do
    let loaded ← self.load fs ctx
    let (ret, ctx') ← liftMemory (xziop L.coder fs.io fuel loaded op)
    let self := self.save fs handle ctx ctx'
    let self ← if op.isClose then self.release fs handle ctx else pure self
    pure (.did ret, self)

/-- One entry of the ledger of an open that fails; `live` is whether its context struct is there. -/
def replayEvent (fs : FileSystem φ ι) (id : Nat) (path mode : List UInt8) :
    Bool × StreamTable σ φ → OpenEvent → Exec StreamFault (Bool × StreamTable σ φ)
  | p, .report _ => pure p
  | p, .preset _ _ => pure p
  | p, .openInner false => pure p
  | (live, self), .openInner true =>
    pure (live, { self with
      world := (fs.openWrapper self.world id path mode).getD self.world
      inners := self.inners.alloc () })
  | (live, self), .closeInner => do
    let self ← self.closeInner fs id
    pure (live, self)
  | (_, self), .allocCtx => pure (true, self)
  | (live, self), .accessCtx => if live then pure (live, self) else .error (.fault .contextReleased)
  | (live, self), .releaseCtx => if live then pure (false, self) else .error (.fault .contextReleased)

def replay (fs : FileSystem φ ι) (id : Nat) (path mode : List UInt8) (self : StreamTable σ φ)
    (ledger : List OpenEvent) : Exec StreamFault (StreamTable σ φ) := do
  let (_, self) ← ledger.foldlM (replayEvent fs id path mode) (false, self)
  pure self

/-- A stream together with its coder and the stream below it. -/
def add (self : StreamTable σ φ) (ctx : XzStreamCtx σ φ) : StreamTable σ φ :=
  { self with
    world := ctx.stream
    streams := self.streams.alloc (ctx.withParts self.coders.next self.inners.next)
    coders := self.coders.alloc ctx.strm.internal
    inners := self.inners.alloc () }

/-- What an open that has come to its end has made of the process. -/
def opened (fs : FileSystem φ ι) (self : StreamTable σ φ) (path modePass : List UInt8) :
    Option (XzStreamCtx σ φ) × List OpenEvent → Exec StreamFault (StreamReturn × StreamTable σ φ)
  | (some ctx, _) => pure (.stream self.streams.next, self.add ctx)
  | (none, ledger) => do
    let self ← self.replay fs self.inners.next (openPath path) (openMode modePass) ledger
    pure (.returnFalse (ledger.filterMap OpenEvent.message?), self)

/-- `php_stream_xzopen(wrapper, path, mode_pass, …, context)`. -/
def xzopenStream (L : Liblzma σ) (fs : FileSystem φ ι) (self : StreamTable σ φ) (path modePass : List UInt8)
    (context : Option XzContext) : Exec StreamFault (StreamReturn × StreamTable σ φ) :=
  self.opened fs path modePass
    (phpStreamXzopen L (fs.layer self.world self.inners.next) self.ini path modePass context)

end StreamTable

/-! ## Scripts -/

/-- What a script can do. -/
inductive StreamOp where
  /-- `xzopen(filename, mode, compression_level)` -/
  | xzopen (filename mode : List UInt8) (level : Option ZendLong)
  /-- `fopen('compress.lzma://…', mode, …, context)` -/
  | fopen (path mode : List UInt8) (context : Option XzContext)
  /-- an operation of a stream -/
  | call (handle : Nat) (op : XziopOp)
  /-- `ini_set('xz.compression_level', …)` -/
  | setCompressionLevel (level : ZendLong)

/-- The mode string that `xzopen` passes on: the level is printed behind the mode. -/
def modeToPass (ini : Ini) (mode : List UInt8) (level : Option ZendLong) : List UInt8 :=
  cString mode ++ COLON :: decimal (level.getD ini.compressionLevel).toInt

theorem xzopen_eq (L : Liblzma σ) (layer : StreamLayer ι) (ini : Ini) (filename mode : List UInt8)
    (level : Option ZendLong) :
    xzopen L layer ini filename mode level =
      phpStreamXzopen L layer ini filename (modeToPass ini mode level) none := rfl

/-- What is handed to `php_stream_xzopen`. -/
structure OpenRequest where
  path : List UInt8
  modePass : List UInt8
  context : Option XzContext

/-- What a step asks to be opened, where it opens something. -/
def StreamOp.request (ini : Ini) : StreamOp → Option OpenRequest
  | .xzopen filename mode level => some ⟨filename, modeToPass ini mode level, none⟩
  | .fopen path mode context => some ⟨path, mode, context⟩
  | .call _ _ => none
  | .setCompressionLevel _ => none

/-- One step of a script. -/
def streamOp (L : Liblzma σ) (fs : FileSystem φ ι) (fuel : Nat) (self : StreamTable σ φ) :
    StreamOp → Exec StreamFault (StreamReturn × StreamTable σ φ)
  | .xzopen filename mode level => self.xzopenStream L fs filename (modeToPass self.ini mode level) none
  | .fopen path mode context => self.xzopenStream L fs path mode context
  | .call handle op => self.call L fs fuel handle op
  | .setCompressionLevel level =>
    pure (.null, { self with ini := { self.ini with compressionLevel := level } })

/-- A script: what its steps returned, and the process after it. -/
def streamRun (L : Liblzma σ) (fs : FileSystem φ ι) (fuel : Nat) (self : StreamTable σ φ)
    (ops : List StreamOp) : Exec StreamFault (List StreamReturn × StreamTable σ φ) :=
  Runs.perform (streamOp L fs fuel) self ops

end PhpExtXz
