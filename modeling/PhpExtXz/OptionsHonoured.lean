/-
# PhpExtXz.OptionsHonoured — which integers a coder is created with.

An option is honoured when the coder was created with exactly the integer that was asked for. The init
functions narrow after they have checked: `is_valid_check` sees the check only after its cast, the
dictionary size is checked for its sign alone, and the flags and the memory limit not at all. A value
out of range is then neither honoured nor refused, but reduced; a memory limit of -1 becomes the value
that means "no limit".

`options_honoured_iff`: in all other cases every option is honoured.
-/
import PhpExtXz.InitOptions
import PhpExtXz.Narrowing
import PhpExtXz.ConcreteCoders

namespace PhpExtXz

variable {σ : Type}

/-! ## What is asked for, and what is in range -/

/-- The filter parameters that are given are in the filter's options. -/
structure ParamsHonoured (dictSize lc lp pb : ZendLong) (opt : LzmaOptionsLzma) : Prop where
  dictSize : dictSize ≠ 0 → Holds32 opt.dictSize dictSize
  lc : 0 ≤ lc → Holds32 opt.lc lc
  lp : 0 ≤ lp → Holds32 opt.lp lp
  pb : 0 ≤ pb → Holds32 opt.pb pb

/-- The encoder was created with the options `o`, of which a raw one has no use for the check; the
context keeps the check all the same. -/
def EncodeHonoured (o : EncodeOptions) (obj : XzEncodeContext (σ × InitCall)) : Prop :=
  Holds32 obj.check o.check ∧
    match obj.createdBy with
    | .streamEncoder [filter] check =>
      Holds32 check o.check ∧ ParamsHonoured o.dictSize o.lc o.lp o.pb filter.options
    | .rawEncoder [filter] => ParamsHonoured o.dictSize o.lc o.lp o.pb filter.options
    | _ => False

/-- The decoder was created with the options `o` that its format uses; a memory limit of 0, and no
other, stands for no limit. -/
def DecodeHonoured (o : DecodeOptions) (obj : XzDecodeContext (σ × InitCall)) : Prop :=
  match obj.createdBy with
  | .autoDecoder memlimit flags =>
    Holds32 flags o.flags ∧ (o.memoryLimit = 0 → memlimit = UINT64_MAX) ∧
      (o.memoryLimit ≠ 0 → Holds64 memlimit o.memoryLimit ∧ memlimit ≠ UINT64_MAX)
  | .rawDecoder [filter] => ParamsHonoured o.dictSize o.lc o.lp o.pb filter.options
  | _ => False

/-- The options of an encode context are in the range of the fields they go to. -/
def EncodeOptions.InRange (o : EncodeOptions) : Prop :=
  (0 ≤ o.check.toInt ∧ o.check.toInt < 2 ^ 32) ∧ o.dictSize.toInt < 2 ^ 32

/-- The options of a decode context that its format uses are in the range of their fields. -/
def DecodeOptions.InRange (format : ZendLong) (o : DecodeOptions) : Prop :=
  if format = XZ_FORMAT_RAW then o.dictSize.toInt < 2 ^ 32
  else (0 ≤ o.flags.toInt ∧ o.flags.toInt < 2 ^ 32) ∧ 0 ≤ o.memoryLimit.toInt

/-! ## Where they agree -/

/-- Of the checked parameters only the dictionary size can be out of range. -/
theorem overlayLzmaParams_honoured {dictSize lc lp pb : ZendLong} (preset : LzmaOptionsLzma)
    (hchecked : ParamsChecked lc lp pb dictSize) :
    ParamsHonoured dictSize lc lp pb (overlayLzmaParams preset dictSize lc lp pb) ↔
      dictSize.toInt < 2 ^ 32 := by
  obtain ⟨hlc, hlp, hpb, -, hnonneg⟩ := hchecked
  constructor
  · intro h
    by_cases hzero : dictSize = 0
    · rw [hzero]
      decide
    · have hdict := h.dictSize hzero
      rw [overlayLzmaParams, if_pos hzero, holds32_castUInt32] at hdict
      exact hdict.2
  · intro hlt
    -- a given parameter is laid over the preset through its cast
    refine ⟨fun h => ?_, fun h => ?_, fun h => ?_, fun h => ?_⟩
    · rw [overlayLzmaParams, if_pos h, holds32_castUInt32]
      exact ⟨hnonneg, hlt⟩
    · rw [overlayLzmaParams, if_pos (show lc ≥ 0 from h), holds32_castUInt32]
      rw [nonneg_iff] at h
      omega
    · rw [overlayLzmaParams, if_pos (show lp ≥ 0 from h), holds32_castUInt32]
      rw [nonneg_iff] at h
      omega
    · rw [overlayLzmaParams, if_pos (show pb ≥ 0 from h), holds32_castUInt32]
      rw [nonneg_iff] at h
      omega

/-- The memory limit that is passed on is the one asked for unless it is negative. -/
theorem memoryLimitOrMax_honoured (limit : ZendLong) :
    ((limit = 0 → memoryLimitOrMax (castUInt64 limit) = UINT64_MAX) ∧
      (limit ≠ 0 → Holds64 (memoryLimitOrMax (castUInt64 limit)) limit ∧
        memoryLimitOrMax (castUInt64 limit) ≠ UINT64_MAX)) ↔ 0 ≤ limit.toInt := by
  by_cases hzero : limit = 0
  · subst hzero
    decide
  · have hcast : castUInt64 limit ≠ 0 := by
      intro h
      have hnat := toNat_castUInt64 limit
      have hle := limit.le_toInt
      have hlt := limit.toInt_lt
      have hne := ne_zero_iff.mp hzero
      rw [h, show (0 : UInt64).toNat = 0 from rfl] at hnat
      omega
    have hlimit : memoryLimitOrMax (castUInt64 limit) = castUInt64 limit := by
      rw [memoryLimitOrMax, if_pos hcast]
    rw [hlimit, holds64_castUInt64]
    constructor
    · intro h
      exact (h.2 hzero).1
    · intro hnonneg
      refine ⟨fun h => absurd h hzero, fun _ => ⟨hnonneg, ?_⟩⟩
      intro hmax
      have hnat := toNat_castUInt64 limit
      have hlt := limit.toInt_lt
      rw [hmax] at hnat
      have hvalue : (UINT64_MAX.toNat : Int) = 2 ^ 64 - 1 := by decide
      omega

/-- **Options are honoured** exactly where they are in range. -/
theorem options_honoured_iff (L : Liblzma σ) (ini : Ini) (format : Option ZendLong)
    (options : Option Options) :
    (∀ obj, xzEncodeInit L.recorded ini format options = .value obj →
      (EncodeHonoured (readEncodeOptions ini options) obj ↔
        (readEncodeOptions ini options).InRange)) ∧
    ∀ obj, xzDecodeInit L.recorded ini format options = .value obj →
      (DecodeHonoured (readDecodeOptions ini options) obj ↔
        (readDecodeOptions ini options).InRange (format.getD XZ_FORMAT_XZ)) := by
  constructor
  · intro obj hobj
    obtain ⟨haccepted, hcheck, preset, -, hcreated⟩ := xzEncodeInit_createdBy hobj
    have hparams := overlayLzmaParams_honoured preset (validateLzmaParams_iff.mp haccepted.params)
    unfold encoderCall at hcreated
    split at hcreated
    · rw [EncodeHonoured, hcheck, hcreated, EncodeOptions.InRange, holds32_castUInt32]
      exact and_congr_right fun _ => hparams
    · -- the check is stored in the context and passed to the encoder through the same cast
      rw [EncodeHonoured, hcheck, hcreated, EncodeOptions.InRange, holds32_castUInt32]
      simp only [holds32_castUInt32]
      exact and_congr_right fun hrange => (and_iff_right hrange).trans hparams
  · intro obj hobj
    obtain ⟨haccepted, hcreated⟩ := xzDecodeInit_createdBy hobj
    rw [DecodeOptions.InRange]
    split at hcreated
    · obtain ⟨preset, -, hcreated⟩ := hcreated
      rw [if_pos ‹_›, DecodeHonoured, hcreated]
      exact overlayLzmaParams_honoured preset (validateLzmaParams_iff.mp haccepted.params)
    · rw [if_neg ‹_›, DecodeHonoured, hcreated]
      simp only [holds32_castUInt32]
      exact and_congr_right fun _ => memoryLimitOrMax_honoured _

/-! ### A check and a memory limit out of range -/

/-- One option. -/
def oneOption (key : String) (value : ZendLong) : Options :=
  fun k => if k = key then some value else none

/-- An encode context that was created with the check 4, and a decode context with no memory limit. -/
def crc64Encoder : XzEncodeContext (Bool × InitCall) where
  strm := .init (false, .streamEncoder [⟨LZMA_FILTER_LZMA2, ⟨0x800000, 3, 0, 2, 2, 64, 0x14, 0⟩⟩] 4)
  status := .ok
  filterId := LZMA_FILTER_LZMA2
  opt := ⟨0x800000, 3, 0, 2, 2, 64, 0x14, 0⟩
  format := castUInt32 XZ_FORMAT_XZ
  check := 4

def unlimitedDecoder : XzDecodeContext (Bool × InitCall) where
  strm := .init (false, .autoDecoder UINT64_MAX 0)
  status := .ok
  format := castUInt32 XZ_FORMAT_XZ

theorem crc64Encoder_init :
    xzEncodeInit copyLiblzma.recorded {} none (some (oneOption "check" 0x100000004)) =
      .value crc64Encoder := by
  rfl

theorem unlimitedDecoder_init :
    xzDecodeInit copyLiblzma.recorded {} none (some (oneOption "memory_limit" (-1))) =
      .value unlimitedDecoder := by
  rfl

theorem options_honoured_iff_copy :
    (EncodeHonoured (readEncodeOptions {} (some (oneOption "check" 0x100000004))) crc64Encoder ↔
      (readEncodeOptions {} (some (oneOption "check" 0x100000004))).InRange) ∧
    (DecodeHonoured (readDecodeOptions {} (some (oneOption "memory_limit" (-1)))) unlimitedDecoder ↔
      (readDecodeOptions {} (some (oneOption "memory_limit" (-1)))).InRange XZ_FORMAT_XZ) :=
  ⟨(options_honoured_iff copyLiblzma {} none _).1 _ crc64Encoder_init,
    (options_honoured_iff copyLiblzma {} none _).2 _ unlimitedDecoder_init⟩

/-- The check `2 ^ 32 + 4` is taken for 4, and the memory limit -1 for no limit. -/
theorem options_reduced :
    (xzEncodeInit copyLiblzma.recorded {} none (some (oneOption "check" 0x100000004)) =
        .value crc64Encoder ∧
      ¬ EncodeHonoured (readEncodeOptions {} (some (oneOption "check" 0x100000004))) crc64Encoder) ∧
    (xzDecodeInit copyLiblzma.recorded {} none (some (oneOption "memory_limit" (-1))) =
        .value unlimitedDecoder ∧
      ¬ DecodeHonoured (readDecodeOptions {} (some (oneOption "memory_limit" (-1))))
        unlimitedDecoder) := by
  refine ⟨⟨crc64Encoder_init, ?_⟩, unlimitedDecoder_init, ?_⟩
  · rintro ⟨hcheck, -⟩
    exact absurd hcheck (by decide)
  · rintro ⟨-, -, hlimit⟩
    exact absurd rfl (hlimit (by decide)).2

end PhpExtXz
