/-
# PhpExtXz.Objects — a PHP process with its context objects.

A script holds any number of `XZEncodeContext` and `XZDecodeContext` objects and calls the functions of
the extension on them in any order. `Process` is what such a script runs against: the objects, the
memory of liblzma that their `strm.internal` point to, and the INI values. `api` is one call.

A pointer to a coder is an identifier of the store `coders`. `lzma_code` and `lzma_end` on a coder that
has been ended are undefined behaviour; here they are the fault `coderEnded`, so that a run without this
fault neither uses a coder after its release nor releases it twice. Only coders of objects are kept in the
store: the one that `xzencode` or `xzdecode` makes for a single call lives in a local `lzma_stream` of
`php_xz_encode_string` or `php_xz_decode_string`, never leaves it, and what is said about releases does not
cover it.

An object is more than `xz_encode_init` and `xz_decode_init` make: `new XZEncodeContext` gives one that
`php_xz_encode_context_create_obj` has filled with zeros, whose coder is `NULL`.
-/
import PhpExtXz.Lib.Components
import PhpExtXz.Lib.Store
import PhpExtXz.StreamXzopen
import PhpExtXz.Xz
import PhpExtXz.XzEncodeContext
import PhpExtXz.XzDecodeContext

namespace PhpExtXz

open FuelLoop

variable {σ τ υ : Type}

/-! ## Objects -/

/-- The classes a script makes objects of: the two of the extension, and any other one. -/
inductive ObjectClass where
  | encodeContext | decodeContext | other
  deriving DecidableEq, Repr

/-- The names of the two classes. -/
def ObjectClass.name : ObjectClass → String
  | .encodeContext => "XZEncodeContext"
  | .decodeContext => "XZDecodeContext"
  | .other => "stdClass"

/-- A `zend_object` with what is embedded around it; `τ` is the type of `strm.internal`. -/
inductive ZendObject (τ : Type) where
  | encodeContext (obj : XzEncodeContext τ)
  | decodeContext (obj : XzDecodeContext τ)
  | other

def LzmaStream.withInternal (strm : LzmaStream τ) (internal : υ) : LzmaStream υ :=
  ⟨strm.nextIn, strm.availIn, strm.totalIn, strm.nextOut, strm.availOut, internal⟩

def XzEncodeContext.withInternal (obj : XzEncodeContext τ) (internal : υ) : XzEncodeContext υ :=
  ⟨obj.strm.withInternal internal, obj.status, obj.filterId, obj.opt, obj.format, obj.check⟩

def XzDecodeContext.withInternal (obj : XzDecodeContext τ) (internal : υ) : XzDecodeContext υ :=
  ⟨obj.strm.withInternal internal, obj.status, obj.format⟩

namespace ZendObject

/-- The same object with another `strm.internal`. -/
def withInternal (obj : ZendObject τ) (internal : υ) : ZendObject υ :=
  match obj with
  | .encodeContext obj => .encodeContext (obj.withInternal internal)
  | .decodeContext obj => .decodeContext (obj.withInternal internal)
  | .other => .other

/-- `strm.internal`, where there is one. -/
def internal : ZendObject (Option τ) → Option τ
  | .encodeContext obj => obj.strm.internal
  | .decodeContext obj => obj.strm.internal
  | .other => none

def cls : ZendObject τ → ObjectClass
  | .encodeContext _ => .encodeContext
  | .decodeContext _ => .decodeContext
  | .other => .other

end ZendObject

/-- `php_xz_encode_context_create_obj`: all of the struct is zero. -/
def phpXzEncodeContextCreateObj : XzEncodeContext (Option τ) where
  strm := .init none
  status := .ok
  filterId := 0
  opt := ⟨0, 0, 0, 0, 0, 0, 0, 0⟩
  format := 0
  check := 0

/-- `php_xz_decode_context_create_obj`. -/
def phpXzDecodeContextCreateObj : XzDecodeContext (Option τ) where
  strm := .init none
  status := .ok
  format := 0

/-- What `create_object` of a class makes. -/
def createObject : ObjectClass → ZendObject (Option τ)
  | .encodeContext => .encodeContext phpXzEncodeContextCreateObj
  | .decodeContext => .decodeContext phpXzDecodeContextCreateObj
  | .other => .other

/-! ## What a call gives back -/

/-- The value or the exception a call ends with. -/
inductive ApiReturn where
  | null
  | string (bytes : List UInt8)
  | long (n : Int)
  /-- an object, by its handle -/
  | object (handle : Nat)
  /-- `false`, after the warning if there is one -/
  | returnFalse (warning : Option String)
  | valueError (arg : Nat) (message : String)
  | typeError (arg : Nat) (message : String)
  | error (message : String)
  deriving DecidableEq, Repr

/-- The string a call contributes to a concatenation of results: anything but a string is nothing. -/
def ApiReturn.bytes : ApiReturn → List UInt8
  | .string out => out
  | _ => []

/-- What a function that returns strings gives back. -/
def PhpReturn.toApi : PhpReturn (List UInt8) → ApiReturn
  | .value out => .string out
  | .returnFalse warning => .returnFalse warning
  | .valueError arg message => .valueError arg message

@[simp]
theorem PhpReturn.bytes_toApi (ret : PhpReturn (List UInt8)) : ret.toApi.bytes = ret.bytes := by
  cases ret <;> rfl

/-- `XZ_EXPECTED_OBJECT(context_zv, ce, "…")` on an object of another class. -/
def expectedObject (className : String) : ApiReturn :=
  .typeError 1 ("must be of type " ++ className ++ ", object given")

/-! ## The functions on one object -/

/-- A function of the extension that takes an object, with its other arguments. -/
inductive ObjectOp where
  | encodeAdd (data : List UInt8)
  | encodeFinish
  | encodeGetProperties
  | decodeAdd (data : List UInt8)
  | decodeFinish
  | decodeGetStatus
  | decodeGetReadLen
  deriving DecidableEq, Repr

/-- The body of a function that expects an `XZEncodeContext`. -/
def ZendObject.asEncodeContext
    (body : XzEncodeContext τ → Exec MemoryFault (ApiReturn × XzEncodeContext τ)) :
    ZendObject τ → Exec MemoryFault (ApiReturn × ZendObject τ)
  | .encodeContext obj => do
    let (ret, obj) ← body obj
    pure (ret, .encodeContext obj)
  | obj => pure (expectedObject "XZEncodeContext", obj)

/-- The body of a function that expects an `XZDecodeContext`. -/
def ZendObject.asDecodeContext
    (body : XzDecodeContext τ → Exec MemoryFault (ApiReturn × XzDecodeContext τ)) :
    ZendObject τ → Exec MemoryFault (ApiReturn × ZendObject τ)
  | .decodeContext obj => do
    let (ret, obj) ← body obj
    pure (ret, .decodeContext obj)
  | obj => pure (expectedObject "XZDecodeContext", obj)

/-- The functions on a context, the coder being at hand. -/
def objectOp (L : Liblzma τ) (fuel : Nat) (obj : ZendObject τ) :
    ObjectOp → Exec MemoryFault (ApiReturn × ZendObject τ)
  | .encodeAdd data => obj.asEncodeContext fun obj => do
    let (ret, obj) ← xzEncodeAdd L fuel obj data
    pure (ret.toApi, obj)
  | .encodeFinish => obj.asEncodeContext fun obj => do
    let (ret, obj) ← xzEncodeFinish L fuel obj
    pure (ret.toApi, obj)
  | .encodeGetProperties => obj.asEncodeContext fun obj => do
    let ret ← xzEncodeGetProperties L obj
    pure (ret.toApi, obj)
  | .decodeAdd data => obj.asDecodeContext fun obj => do
    let (ret, obj) ← xzDecodeAdd L fuel obj data
    pure (ret.toApi, obj)
  | .decodeFinish => obj.asDecodeContext fun obj => do
    let (ret, obj) ← xzDecodeFinish L fuel obj
    pure (ret.toApi, obj)
  | .decodeGetStatus => obj.asDecodeContext fun obj => pure (.long (xzDecodeGetStatus obj), obj)
  | .decodeGetReadLen => obj.asDecodeContext fun obj => pure (.long (xzDecodeGetReadLen obj), obj)

/-- The library for streams that may have no coder: on `NULL`, `lzma_code` is `LZMA_PROG_ERROR`. -/
def Liblzma.orNull (L : Liblzma σ) : Liblzma (Option σ) where
  coder := L.coder.orNull
  lzmaLzmaPreset := L.lzmaLzmaPreset
  lzmaStreamEncoder filters check := (L.lzmaStreamEncoder filters check).map some
  lzmaRawEncoder filters := (L.lzmaRawEncoder filters).map some
  lzmaAutoDecoder memlimit flags := (L.lzmaAutoDecoder memlimit flags).map some
  lzmaRawDecoder filters := (L.lzmaRawDecoder filters).map some
  lzmaPropertiesSize := L.lzmaPropertiesSize
  lzmaPropertiesEncode := L.lzmaPropertiesEncode

/-! ## The process -/

/-- Undefined behaviour of a process. -/
inductive ApiFault where
  | memory (fault : MemoryFault)
  /-- `lzma_code` or `lzma_end` on a coder that has been ended -/
  | coderEnded
  deriving DecidableEq, Repr

/-- The objects of a script, the memory behind their `strm.internal` (not that of the one-shot calls), and
the INI values. -/
structure Process (σ : Type) where
  ini : Ini
  objects : Store (ZendObject (Option Nat))
  coders : Store σ

/-- A computation that looks at one object, as part of the process. -/
def liftFault {α : Type} : Exec MemoryFault α → Exec ApiFault α
  | .ok a => .ok a
  | .error .outOfFuel => .error .outOfFuel
  | .error (.fault e) => .error (.fault (.memory e))

namespace Process

/-- A script begins without objects. -/
def start (ini : Ini) : Process σ := ⟨ini, .empty, .empty⟩

/-- A new object, under the handle `self.objects.next`. -/
def create (self : Process σ) (obj : ZendObject (Option Nat)) : Process σ :=
  { self with objects := self.objects.alloc obj }

/-- A new object together with its coder. -/
def createWith (self : Process σ) (obj : ZendObject (Option Nat)) (s : σ) : Process σ :=
  { self with objects := self.objects.alloc obj, coders := self.coders.alloc s }

/-- The last reference to an object goes: `free_obj` of its class, which calls `lzma_end` if there is a
coder. -/
def destroy (self : Process σ) (handle : Nat) : Exec ApiFault (Process σ) :=
  match self.objects.get handle with
  | none => pure self
  | some obj =>
    let objects := self.objects.free handle
    match obj.internal with
    | none => pure { self with objects }
    | some p =>
      match self.coders.get p with
      | none => .error (.fault .coderEnded)
      | some _ => pure { self with objects, coders := self.coders.free p }

/-- The coder behind `strm.internal`. -/
def load (self : Process σ) : Option Nat → Exec ApiFault (Option σ)
  | none => pure none
  | some p =>
    match self.coders.get p with
    | none => .error (.fault .coderEnded)
    | some s => pure (some s)

/-- The coder as a call has left it. -/
def saveCoder (self : Process σ) : Option Nat → Option σ → Store σ
  | some p, some s => self.coders.set p s
  | _, _ => self.coders

/-- A call of a function on the object under `handle`. -/
def call (L : Liblzma σ) (fuel : Nat) (self : Process σ) (handle : Nat) (op : ObjectOp) :
    Exec ApiFault (ApiReturn × Process σ) :=
  match self.objects.get handle with
  | none => pure (.typeError 1 "must be of type object, null given", self)
  | some obj => do
    let internal ← self.load obj.internal
    let (ret, obj') ← liftFault (objectOp L.orNull fuel (obj.withInternal internal) op)
    pure (ret, { self with
      objects := self.objects.set handle (obj'.withInternal obj.internal)
      coders := self.saveCoder obj.internal obj'.internal })

/-- `clone`: the handlers of both classes have `NULL` as their `clone_obj`. -/
def clone (self : Process σ) (handle : Nat) : ApiReturn × Process σ :=
  match self.objects.get handle with
  | none => (.error "__clone method called on non-object", self)
  | some .other => (.object self.objects.next, self.create .other)
  | some obj => (.error ("Trying to clone an uncloneable object of class " ++ obj.cls.name), self)

/-- What is common to the two init functions, `ret` being what they make of their arguments: the object
is made once these are accepted, and destroyed where no coder can be created. -/
def initObject (self : Process σ) (cls : ObjectClass) (ret : PhpReturn (ZendObject (Option Nat) × σ)) :
    Exec ApiFault (ApiReturn × Process σ) :=
  match ret with
  | .valueError arg message => pure (.valueError arg message, self)
  | .returnFalse warning => do
    let self ← (self.create (createObject cls)).destroy self.objects.next
    pure (.returnFalse warning, self)
  | .value (obj, s) => pure (.object self.objects.next, self.createWith obj s)

end Process

/-- The value of a call, seen in another way. -/
def PhpReturn.map {α β : Type} (f : α → β) : PhpReturn α → PhpReturn β
  | .value a => .value (f a)
  | .returnFalse warning => .returnFalse warning
  | .valueError arg message => .valueError arg message

/-- What a script can do. -/
inductive ApiOp where
  /-- `new` with the name of a class -/
  | new (cls : ObjectClass)
  | encodeInit (format : Option ZendLong) (options : Option Options)
  | decodeInit (format : Option ZendLong) (options : Option Options)
  | call (handle : Nat) (op : ObjectOp)
  /-- `clone` -/
  | clone (handle : Nat)
  /-- the last reference to the object goes -/
  | release (handle : Nat)
  | encode (data : List UInt8) (level format : Option ZendLong)
  | decode (data : List UInt8) (memoryLimit : Option ZendLong)
  /-- `ini_set('xz.compression_level', …)`; the other entry cannot be set by a script -/
  | setCompressionLevel (level : ZendLong)

/-- One step of a script. The coder of a one-shot call is none of `self.coders`. -/
def api (L : Liblzma σ) (fuel : Nat) (self : Process σ) :
    ApiOp → Exec ApiFault (ApiReturn × Process σ)
  | .new cls => pure (.object self.objects.next, self.create (createObject cls))
  | .encodeInit format options =>
    self.initObject .encodeContext ((xzEncodeInit L self.ini format options).map fun obj =>
      (.encodeContext (obj.withInternal (some self.coders.next)), obj.strm.internal))
  | .decodeInit format options =>
    self.initObject .decodeContext ((xzDecodeInit L self.ini format options).map fun obj =>
      (.decodeContext (obj.withInternal (some self.coders.next)), obj.strm.internal))
  | .call handle op => self.call L fuel handle op
  | .clone handle => pure (self.clone handle)
  | .release handle => do
    let self ← self.destroy handle
    pure (.null, self)
  | .encode data level format => do
    let ret ← liftFault (xzencode L self.ini fuel data level format)
    pure (ret.toApi, self)
  | .decode data memoryLimit => do
    let ret ← liftFault (xzdecode L self.ini fuel data memoryLimit)
    pure (ret.toApi, self)
  | .setCompressionLevel level =>
    pure (.null, { self with ini := { self.ini with compressionLevel := level } })

/-- A script: what its steps returned, and the process after it. -/
def apiRun (L : Liblzma σ) (fuel : Nat) (self : Process σ) (ops : List ApiOp) :
    Exec ApiFault (List ApiReturn × Process σ) :=
  Runs.perform (api L fuel) self ops

end PhpExtXz
