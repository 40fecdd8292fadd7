/-
# PhpExtXz.Xz — `xz.c`: the functions `xzencode` and `xzdecode`.

Both check their arguments, fall back to an INI entry where an argument is `-1`, and hand the data to
the one-shot encoder or decoder.
-/
import PhpExtXz.Php
import PhpExtXz.XzEncode
import PhpExtXz.XzDecode

namespace PhpExtXz

open FuelLoop

variable {σ : Type}

/-- `xzencode(data, level, format)`; `none` is an argument left out. -/
def xzencode (L : Liblzma σ) (ini : Ini) (fuel : Nat) (data : List UInt8)
    (level format : Option ZendLong) : Exec MemoryFault (PhpReturn (List UInt8)) :=
  let level := level.getD (-1)
  let format := format.getD XZ_FORMAT_XZ
  let level := if level = -1 then ini.compressionLevel else level
  if level < 0 ∨ level > 9 then pure (.valueError 2 "must be between -1 and 9")
  else if format ≠ XZ_FORMAT_XZ ∧ format ≠ XZ_FORMAT_RAW then
    pure (.valueError 3 "must be XZ_FORMAT_XZ or XZ_FORMAT_RAW")
  else do
    let out ← phpXzEncodeString L fuel data (castUInt32 level) (castUInt32 format)
    pure (returnStr out)

/-- `xzdecode(data, memory_limit)`; `none` is an argument left out. -/
def xzdecode (L : Liblzma σ) (ini : Ini) (fuel : Nat) (data : List UInt8)
    (memoryLimit : Option ZendLong) : Exec MemoryFault (PhpReturn (List UInt8)) :=
  let memoryLimit := memoryLimit.getD (-1)
  if data.length = 0 then pure (.returnFalse none)
  else if memoryLimit < -1 then pure (.valueError 2 "must be greater than or equal to -1")
  else do
    let memoryLimit := if memoryLimit = -1 then ini.maxMemory else memoryLimit
    let out ← phpXzDecodeString L fuel data (castUInt64 memoryLimit)
    pure (returnStr out)

end PhpExtXz
