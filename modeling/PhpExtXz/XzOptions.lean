/-
# PhpExtXz.XzOptions — options arrays and the checks both contexts make on them.
-/
import PhpExtXz.Php
import PhpExtXz.Liblzma

namespace PhpExtXz

/-- An options array: the keys that are present, with the values `zval_get_long` gives. -/
abbrev Options := String → Option ZendLong

/-- `php_xz_opt_get_long(options, key, &value)`, as the new content of `value`. The array itself is
optional. -/
def phpXzOptGetLong (options : Option Options) (key : String) (value : ZendLong) : ZendLong :=
  match options with
  | none => value
  | some opts => (opts key).getD value

/-- The filter ids both contexts accept. -/
def isValidFilter (filterId : ZendLong) : Bool :=
  castUInt64 filterId = LZMA_FILTER_LZMA1 ∨ castUInt64 filterId = LZMA_FILTER_LZMA2

/-- The body that `xz_encode_validate_lzma_params` and `xz_decode_validate_lzma_params` share. -/
def validateLzmaParams (lc lp pb dictSize : ZendLong) : Bool :=
  if lc < -1 ∨ lc > 4 ∨ lp < -1 ∨ lp > 4 ∨ pb < -1 ∨ pb > 4 then false
  else if lc ≥ 0 ∧ lp ≥ 0 ∧ lc + lp > 4 then false
  else if dictSize < 0 then false
  else true

/-- The preset with the given parameters laid over it; `0` and `-1` stand for "not given". -/
def overlayLzmaParams (opt : LzmaOptionsLzma) (dictSize lc lp pb : ZendLong) : LzmaOptionsLzma :=
  { opt with
    dictSize := if dictSize ≠ 0 then castUInt32 dictSize else opt.dictSize
    lc := if lc ≥ 0 then castUInt32 lc else opt.lc
    lp := if lp ≥ 0 then castUInt32 lp else opt.lp
    pb := if pb ≥ 0 then castUInt32 pb else opt.pb }

/-- Without parameters the preset stays as it is. -/
theorem overlayLzmaParams_default (opt : LzmaOptionsLzma) :
    overlayLzmaParams opt 0 (-1) (-1) (-1) = opt := by
  have h : ¬ (-1 : ZendLong) ≥ 0 := by decide
  simp only [overlayLzmaParams, ne_eq, not_true_eq_false, if_false, if_neg h]

end PhpExtXz
