/-
# PhpExtXz.Php — what the extension uses of PHP: integers, INI entries, return values.

A `zend_long` is an `Int64`. The version-dependent macros of `xz_compat.h` are taken as PHP 8 has
them: a rejected argument throws a `ValueError`, which names the argument by its number.
-/

namespace PhpExtXz

/-- `zend_long` on a 64-bit platform. -/
abbrev ZendLong := Int64

/-- `(uint64_t)x`. -/
def castUInt64 (x : ZendLong) : UInt64 := x.toUInt64

/-- `(uint32_t)x`, and also `(lzma_check)x`, whose enumeration is stored in an `unsigned int`. -/
def castUInt32 (x : ZendLong) : UInt32 := x.toUInt64.toUInt32

/-- `XZ_FORMAT_XZ`. -/
def XZ_FORMAT_XZ : ZendLong := 0

/-- `XZ_FORMAT_RAW`. -/
def XZ_FORMAT_RAW : ZendLong := 1

/-- The INI entries of the extension, with their defaults. -/
structure Ini where
  compressionLevel : ZendLong := 5
  maxMemory : ZendLong := 0

/-- What a call of a PHP function gives back. -/
inductive PhpReturn (α : Type) where
  | value (a : α)
  /-- `false`, after the warning if there is one -/
  | returnFalse (warning : Option String)
  /-- a `ValueError` about the argument with this number -/
  | valueError (arg : Nat) (message : String)

/-- The string a call contributes to a concatenation of results: anything but a string is nothing. -/
def PhpReturn.bytes : PhpReturn (List UInt8) → List UInt8
  | .value out => out
  | _ => []

/-- The call returned `false`. -/
def PhpReturn.isFalse {α : Type} : PhpReturn α → Bool
  | .returnFalse _ => true
  | _ => false

/-- `RETURN_STR(out)`, or `RETURN_FALSE` for `NULL`. -/
def returnStr : Option (List UInt8) → PhpReturn (List UInt8)
  | none => .returnFalse none
  | some out => .value out

@[simp]
theorem PhpReturn.bytes_value (out : List UInt8) : (PhpReturn.value out).bytes = out := rfl

@[simp]
theorem PhpReturn.bytes_returnFalse (warning : Option String) :
    (PhpReturn.returnFalse warning).bytes = [] := rfl

end PhpExtXz
