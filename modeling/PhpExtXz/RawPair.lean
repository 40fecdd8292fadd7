/-
# PhpExtXz.RawPair — a raw encoder and a raw decoder from the same options.

Raw data carries no parameters, so that the two sides have to agree on them. Both init functions lay
the same options over a preset, but not over the same one: `xz_encode_init` takes the preset of its
level, `xz_decode_init` always that of level 6. The presets differ in the dictionary size.

`rawPair_fits_iff`: the decoder fits the encoder unless the dictionary size is left to the preset and
the level is above 6.
-/
import PhpExtXz.OptionsValid

namespace PhpExtXz

variable {σ : Type}

/-- A raw decoder that decodes all that a raw encoder emits: the same filter, for LZMA1 with the same
parameters (LZMA2 carries them in its data), and a dictionary that reaches back as far. -/
def Fits : InitCall → InitCall → Prop
  | .rawEncoder [enc], .rawDecoder [dec] =>
    dec.id = enc.id ∧
      (enc.id = LZMA_FILTER_LZMA1 → dec.options.lc = enc.options.lc ∧
        dec.options.lp = enc.options.lp ∧ dec.options.pb = enc.options.pb) ∧
      enc.options.dictSize.toNat ≤ dec.options.dictSize.toNat
  | _, _ => False

/-- The presets of liblzma: they share `lc`, `lp` and `pb`, and each level has its dictionary size. -/
def StandardPresets (preset : UInt32 → Option LzmaOptionsLzma) : Prop :=
  ∀ level opt, level.toNat ≤ 9 → preset level = some opt →
    opt.lc = 3 ∧ opt.lp = 0 ∧ opt.pb = 2 ∧ opt.dictSize.toNat = presetDictSize level.toNat

/-- Up to level 6 the dictionary is not larger than that of level 6, and above it is. -/
theorem presetDictSize_le_six {level : Nat} (h : level ≤ 9) :
    presetDictSize level ≤ presetDictSize 6 ↔ level ≤ 6 := by
  have hall : ∀ n ≤ 9, (presetDictSize n ≤ presetDictSize 6 ↔ n ≤ 6) := by decide
  exact hall level h

/-- With the same size laid over both, the dictionary of level 6 reaches back as far as that of `level`
exactly where a size is given or the level is at most 6. -/
theorem overlaid_dictSize_le {preset preset₆ : LzmaOptionsLzma} {level : Nat} (hlevel : level ≤ 9)
    (hdict : preset.dictSize.toNat = presetDictSize level)
    (hdict₆ : preset₆.dictSize.toNat = presetDictSize 6) (dictSize lc lp pb : ZendLong) :
    (overlayLzmaParams preset dictSize lc lp pb).dictSize.toNat ≤
        (overlayLzmaParams preset₆ dictSize lc lp pb).dictSize.toNat ↔ dictSize ≠ 0 ∨ level ≤ 6 := by
  unfold overlayLzmaParams
  by_cases hgiven : dictSize ≠ 0
  · simp only [if_pos hgiven]
    exact ⟨fun _ => Or.inl hgiven, fun _ => le_refl _⟩
  · simp only [if_neg hgiven]
    rw [hdict, hdict₆, presetDictSize_le_six hlevel, or_iff_right hgiven]

variable {L : Liblzma σ} {ini : Ini} {options : Option Options}
  {enc : XzEncodeContext (σ × InitCall)} {dec : XzDecodeContext (σ × InitCall)}

/-- **A raw pair fits** exactly where the dictionary size is given or the level is at most 6. -/
theorem rawPair_fits_iff (hpresets : StandardPresets L.lzmaLzmaPreset)
    (henc : xzEncodeInit L.recorded ini (some XZ_FORMAT_RAW) options = .value enc)
    (hdec : xzDecodeInit L.recorded ini (some XZ_FORMAT_RAW) options = .value dec) :
    Fits enc.createdBy dec.createdBy ↔
      (readEncodeOptions ini options).dictSize ≠ 0 ∨ (readEncodeOptions ini options).level ≤ 6 := by
  obtain ⟨haccepted, -, preset, hpreset, henc'⟩ := xzEncodeInit_createdBy henc
  obtain ⟨-, hdec'⟩ := xzDecodeInit_createdBy hdec
  rw [Option.getD_some, if_pos rfl] at hdec'
  obtain ⟨preset₆, hpreset₆, hdec'⟩ := hdec'
  rw [Option.getD_some, encoderCall, if_pos rfl] at henc'
  -- the level is in range, so that its cast is the level itself
  have hlevel : 0 ≤ (readEncodeOptions ini options).level.toInt ∧
      (readEncodeOptions ini options).level.toInt ≤ 9 := by
    have h := haccepted.level
    rw [gt_iff_lt, Int64.lt_iff_toInt_lt, Int64.lt_iff_toInt_lt] at h
    have hzero : (0 : ZendLong).toInt = 0 := rfl
    have hnine : (9 : ZendLong).toInt = 9 := rfl
    omega
  have hcast := toNat_castUInt32 (readEncodeOptions ini options).level
  obtain ⟨hlc, hlp, hpb, hdict⟩ := hpresets _ _ (by omega) hpreset
  obtain ⟨hlc₆, hlp₆, hpb₆, hdict₆⟩ := hpresets _ _ (by decide) hpreset₆
  rw [henc', hdec']
  have hnat : (castUInt32 (readEncodeOptions ini options).level).toNat ≤ 9 := by omega
  have hle := overlaid_dictSize_le hnat hdict hdict₆ (readEncodeOptions ini options).dictSize
    (readEncodeOptions ini options).lc (readEncodeOptions ini options).lp
    (readEncodeOptions ini options).pb
  have hsix : (readEncodeOptions ini options).level ≤ 6 ↔
      (castUInt32 (readEncodeOptions ini options).level).toNat ≤ 6 := by
    rw [Int64.le_iff_toInt_le, show (6 : ZendLong).toInt = 6 from rfl]
    omega
  rw [hsix, ← hle]
  constructor
  · rintro ⟨-, -, hdictSize⟩
    exact hdictSize
  · intro hdictSize
    refine ⟨rfl, fun _ => ?_, hdictSize⟩
    -- the two presets agree on the parameters, and so do the options laid over them
    simp only [EncodeOptions.filter, DecodeOptions.filter, overlayLzmaParams, hlc, hlp, hpb, hlc₆, hlp₆,
      hpb₆]
    exact ⟨rfl, rfl, rfl⟩

/-! ### Level 9 -/

theorem standardPreset_standard : StandardPresets standardPreset := by
  intro level opt hlevel hpreset
  rw [standardPreset, if_pos hlevel] at hpreset
  obtain rfl := Option.some.inj hpreset
  exact ⟨rfl, rfl, rfl, (presetDictSize_toNat hlevel).1⟩

/-- A raw encode context of level 9, and the decode context from the same options. -/
def levelNineEncoder : XzEncodeContext (Bool × InitCall) where
  strm := .init (false, .rawEncoder [⟨LZMA_FILTER_LZMA2, ⟨0x4000000, 3, 0, 2, 2, 64, 0x14, 0⟩⟩])
  status := .ok
  filterId := LZMA_FILTER_LZMA2
  opt := ⟨0x4000000, 3, 0, 2, 2, 64, 0x14, 0⟩
  format := castUInt32 XZ_FORMAT_RAW
  check := LZMA_CHECK_CRC64

def levelSixDecoder : XzDecodeContext (Bool × InitCall) where
  strm := .init (false, .rawDecoder [⟨LZMA_FILTER_LZMA2, ⟨0x800000, 3, 0, 2, 2, 64, 0x14, 0⟩⟩])
  status := .ok
  format := castUInt32 XZ_FORMAT_RAW

theorem levelNineEncoder_init :
    xzEncodeInit checkingLiblzma.recorded {} (some XZ_FORMAT_RAW) (some (oneOption "level" 9)) =
      .value levelNineEncoder := by
  rfl

theorem levelSixDecoder_init :
    xzDecodeInit checkingLiblzma.recorded {} (some XZ_FORMAT_RAW) (some (oneOption "level" 9)) =
      .value levelSixDecoder := by
  rfl

theorem rawPair_fits_iff_levelNine :
    Fits levelNineEncoder.createdBy levelSixDecoder.createdBy ↔
      (readEncodeOptions {} (some (oneOption "level" 9))).dictSize ≠ 0 ∨
        (readEncodeOptions {} (some (oneOption "level" 9))).level ≤ 6 :=
  rawPair_fits_iff standardPreset_standard levelNineEncoder_init levelSixDecoder_init

/-- At level 9 the decoder has a dictionary of 8 MiB for an encoder with 64 MiB. -/
theorem levelNine_misfits :
    StandardPresets checkingLiblzma.lzmaLzmaPreset ∧
      xzEncodeInit checkingLiblzma.recorded {} (some XZ_FORMAT_RAW) (some (oneOption "level" 9)) =
        .value levelNineEncoder ∧
      xzDecodeInit checkingLiblzma.recorded {} (some XZ_FORMAT_RAW) (some (oneOption "level" 9)) =
        .value levelSixDecoder ∧
      ¬ Fits levelNineEncoder.createdBy levelSixDecoder.createdBy := by
  refine ⟨standardPreset_standard, levelNineEncoder_init, levelSixDecoder_init, ?_⟩
  rintro ⟨-, -, hdictSize⟩
  exact absurd hdictSize (by decide)

end PhpExtXz
