/-
# PhpExtXz.OptionsValid — validation against what liblzma takes.

The extension checks `lc`, `lp`, `pb` and `dict_size` as they are given, liblzma checks the record they
are laid over. The two differ in two places: an omitted `lc` is 3 in every preset, so that `lp` alone
can bring the sum over 4, which only a decoder of LZMA2 does not mind; and a dictionary size is only checked
for its sign, where the encoder wants it between 4096 bytes and 1.5 GiB, and sees it after its cast.

`validation_agrees_iff`: elsewhere what passes the checks is taken by liblzma, and in these two places
the init functions return `false` without saying why.
-/
import PhpExtXz.OptionsHonoured

namespace PhpExtXz

variable {σ : Type}

/-! ## What liblzma takes -/

/-- The conditions of liblzma on `lc`, `lp` and `pb`. -/
structure ParamsTaken (opt : LzmaOptionsLzma) : Prop where
  lc : opt.lc.toNat ≤ 4
  lp : opt.lp.toNat ≤ 4
  pb : opt.pb.toNat ≤ 4
  sum : opt.lc.toNat + opt.lp.toNat ≤ 4

/-- What liblzma asks of the filter of a raw decoder. LZMA2 carries the parameters in its data, so that only
those of LZMA1 count. -/
def DecoderTakes (filter : LzmaFilter) : Prop :=
  filter.id = LZMA_FILTER_LZMA1 → ParamsTaken filter.options

/-- The conditions on the options of an encoder, which come from a preset. -/
structure EncoderTakes (opt : LzmaOptionsLzma) : Prop extends ParamsTaken opt where
  dictMin : 4096 ≤ opt.dictSize.toNat
  dictMax : opt.dictSize.toNat ≤ 2 ^ 30 + 2 ^ 29

/-- What all presets have in common. -/
structure TypicalPreset (opt : LzmaOptionsLzma) : Prop where
  lc : opt.lc = 3
  lp : opt.lp = 0
  pb : opt.pb = 2
  dictMin : 2 ^ 18 ≤ opt.dictSize.toNat
  dictMax : opt.dictSize.toNat ≤ 2 ^ 26

/-- The options that the init functions come to: the preset of a level, with parameters laid over it. -/
def OverPreset (L : Liblzma σ) (opt : LzmaOptionsLzma) : Prop :=
  ∃ (level : UInt32) (preset : LzmaOptionsLzma) (dictSize lc lp pb : ZendLong), level.toNat ≤ 9 ∧
    L.lzmaLzmaPreset level = some preset ∧ opt = overlayLzmaParams preset dictSize lc lp pb

/-- A library with typical presets that, of the filters and options the extension can come to, creates a coder
exactly from those it takes (given the memory). A stream is always one of LZMA2. -/
structure ChecksOptions (L : Liblzma σ) : Prop where
  preset : ∀ level : UInt32, level.toNat ≤ 9 →
    ∃ opt, L.lzmaLzmaPreset level = some opt ∧ TypicalPreset opt
  streamEncoder : ∀ opt check, OverPreset L opt → isValidCheck check = true →
    ((∃ s, L.lzmaStreamEncoder [⟨LZMA_FILTER_LZMA2, opt⟩] check = .ok s) ↔ EncoderTakes opt)
  rawEncoder : ∀ filter : LzmaFilter, filter.Known → OverPreset L filter.options →
    ((∃ s, L.lzmaRawEncoder [filter] = .ok s) ↔ EncoderTakes filter.options)
  rawDecoder : ∀ filter : LzmaFilter, filter.Known → OverPreset L filter.options →
    ((∃ s, L.lzmaRawDecoder [filter] = .ok s) ↔ DecoderTakes filter)

/-- `lp` is not at odds with an omitted `lc`. -/
def SumFits (lc lp : ZendLong) : Prop := ¬ (lc.toInt = -1 ∧ 2 ≤ lp.toInt)

/-- The dictionary size is omitted, or after its cast it is one of an encoder. -/
def DictFits (dictSize : ZendLong) : Prop :=
  dictSize.toInt = 0 ∨ (4096 ≤ dictSize.toInt % 2 ^ 32 ∧ dictSize.toInt % 2 ^ 32 ≤ 2 ^ 30 + 2 ^ 29)

/-! ## The merged record -/

variable {preset : LzmaOptionsLzma} {lc lp pb dictSize : ZendLong}

/-- A checked parameter in the merged record: the one given, or the preset's where it is omitted. -/
theorem toNat_overlaid {given : ZendLong} (field : UInt32)
    (hrange : -1 ≤ given.toInt ∧ given.toInt ≤ 4) :
    ((if given ≥ 0 then castUInt32 given else field).toNat : Int) =
      if given.toInt = -1 then (field.toNat : Int) else given.toInt := by
  by_cases hgiven : given ≥ 0
  · have hnonneg : 0 ≤ given.toInt := nonneg_iff.mp hgiven
    rw [if_pos hgiven, if_neg (by omega), toNat_castUInt32]
    omega
  · have hneg : ¬ 0 ≤ given.toInt := fun h => hgiven (nonneg_iff.mpr h)
    rw [if_neg hgiven, if_pos (by omega)]

theorem paramsTaken_iff (hpreset : TypicalPreset preset)
    (hchecked : ParamsChecked lc lp pb dictSize) :
    ParamsTaken (overlayLzmaParams preset dictSize lc lp pb) ↔ SumFits lc lp := by
  obtain ⟨hlc, hlp, hpb, hsum, -⟩ := hchecked
  -- the merged record, with what the presets have in common
  obtain ⟨merged, hmerged⟩ : ∃ merged, overlayLzmaParams preset dictSize lc lp pb = merged := ⟨_, rfl⟩
  have hl : (merged.lc.toNat : Int) = if lc.toInt = -1 then 3 else lc.toInt := by
    rw [← hmerged]
    have h := toNat_overlaid preset.lc hlc
    rwa [show (preset.lc.toNat : Int) = 3 by rw [hpreset.lc]; rfl] at h
  have hp : (merged.lp.toNat : Int) = if lp.toInt = -1 then 0 else lp.toInt := by
    rw [← hmerged]
    have h := toNat_overlaid preset.lp hlp
    rwa [show (preset.lp.toNat : Int) = 0 by rw [hpreset.lp]; rfl] at h
  have hb : (merged.pb.toNat : Int) = if pb.toInt = -1 then 2 else pb.toInt := by
    rw [← hmerged]
    have h := toNat_overlaid preset.pb hpb
    rwa [show (preset.pb.toNat : Int) = 2 by rw [hpreset.pb]; rfl] at h
  rw [hmerged]
  unfold SumFits
  constructor
  · rintro ⟨-, -, -, hfour⟩ ⟨hnone, htwo⟩
    rw [if_pos hnone] at hl
    rw [if_neg (by omega)] at hp
    omega
  · intro hfits
    refine ⟨?_, ?_, ?_, ?_⟩
    · split at hl <;> omega
    · split at hp <;> omega
    · split at hb <;> omega
    · split at hl <;> split at hp <;> omega

theorem dictSize_overlaid (hpreset : TypicalPreset preset) (lc lp pb : ZendLong) :
    (4096 ≤ (overlayLzmaParams preset dictSize lc lp pb).dictSize.toNat ∧
      (overlayLzmaParams preset dictSize lc lp pb).dictSize.toNat ≤ 2 ^ 30 + 2 ^ 29) ↔
      DictFits dictSize := by
  have hmin := hpreset.dictMin
  have hmax := hpreset.dictMax
  unfold DictFits overlayLzmaParams
  by_cases hgiven : dictSize ≠ 0
  · have hne := ne_zero_iff.mp hgiven
    have hnat := toNat_castUInt32 dictSize
    simp only [if_pos hgiven]
    omega
  · have hzero : dictSize.toInt = 0 := by
      by_contra hne
      exact hgiven (ne_zero_iff.mpr hne)
    simp only [if_neg hgiven, hzero]
    exact ⟨fun _ => Or.inl trivial, fun _ => ⟨by omega, by omega⟩⟩

theorem encoderTakes_iff (hpreset : TypicalPreset preset)
    (hchecked : ParamsChecked lc lp pb dictSize) :
    EncoderTakes (overlayLzmaParams preset dictSize lc lp pb) ↔
      SumFits lc lp ∧ DictFits dictSize := by
  rw [← paramsTaken_iff hpreset hchecked, ← dictSize_overlaid hpreset lc lp pb]
  exact ⟨fun h => ⟨h.toParamsTaken, h.dictMin, h.dictMax⟩, fun h => ⟨h.1, h.2.1, h.2.2⟩⟩

/-! ## What the init functions report -/

/-- What passes the validation of an encode context is taken by the encoder, for the preset of every
level; and where the format and the other options are right, `xz_encode_init` does not return `false`. -/
structure EncodeValidationAgrees (L : Liblzma σ) (ini : Ini) (format : ZendLong)
    (options : Option Options) : Prop where
  taken : ∀ preset, L.lzmaLzmaPreset (castUInt32 (readEncodeOptions ini options).level) = some preset →
    EncoderTakes ((readEncodeOptions ini options).filter format preset).options
  reported : ∀ warning, xzEncodeInit L ini (some format) options ≠ .returnFalse warning

/-- The same for a raw decode context, whose preset is that of level 6. -/
structure DecodeValidationAgrees (L : Liblzma σ) (ini : Ini) (options : Option Options) : Prop where
  taken : ∀ preset, L.lzmaLzmaPreset 6 = some preset →
    DecoderTakes ((readDecodeOptions ini options).filter preset)
  reported : ∀ warning, xzDecodeInit L ini (some XZ_FORMAT_RAW) options ≠ .returnFalse warning

variable {L : Liblzma σ} {ini : Ini} {options : Option Options}

/-- An accepted level is one of the presets. -/
theorem toNat_level_le {level : ZendLong} (hlevel : ¬ (level < 0 ∨ level > 9)) :
    (castUInt32 level).toNat ≤ 9 := by
  have hnat := toNat_castUInt32 level
  rw [gt_iff_lt, Int64.lt_iff_toInt_lt, Int64.lt_iff_toInt_lt] at hlevel
  have hzero : (0 : ZendLong).toInt = 0 := rfl
  have hnine : (9 : ZendLong).toInt = 9 := rfl
  omega

/-- An accepted level has a typical preset. -/
theorem ChecksOptions.level_preset (hL : ChecksOptions L) {level : ZendLong}
    (hlevel : ¬ (level < 0 ∨ level > 9)) :
    ∃ preset, L.lzmaLzmaPreset (castUInt32 level) = some preset ∧ TypicalPreset preset ∧
      ∀ dictSize lc lp pb, OverPreset L (overlayLzmaParams preset dictSize lc lp pb) := by
  have hcast := toNat_level_le hlevel
  obtain ⟨preset, hpreset, htypical⟩ := hL.preset _ hcast
  exact ⟨preset, hpreset, htypical, fun _ _ _ _ => ⟨_, preset, _, _, _, _, hcast, hpreset, rfl⟩⟩

/-- The encoder of a filter over a preset is created exactly from options it takes. -/
theorem ChecksOptions.createEncoder_ok (hL : ChecksOptions L) {format : ZendLong} {filter : LzmaFilter}
    (hknown : filter.Known) (hstream : format ≠ XZ_FORMAT_RAW → filter.id = LZMA_FILTER_LZMA2)
    (hover : OverPreset L filter.options) {check : UInt32} (hcheck : isValidCheck check = true) :
    (∃ s, createEncoder L format filter check = .ok s) ↔ EncoderTakes filter.options := by
  unfold createEncoder
  split
  · exact hL.rawEncoder filter hknown hover
  · rename_i hformat
    obtain ⟨id, opt⟩ := filter
    obtain rfl : id = LZMA_FILTER_LZMA2 := hstream hformat
    exact hL.streamEncoder opt check hover hcheck

theorem encodeValidation_iff (hL : ChecksOptions L) (format : ZendLong)
    (haccepted : (readEncodeOptions ini options).Accepted) :
    EncodeValidationAgrees L ini format options ↔
      SumFits (readEncodeOptions ini options).lc (readEncodeOptions ini options).lp ∧
        DictFits (readEncodeOptions ini options).dictSize := by
  obtain ⟨preset, hpreset, htypical, hover⟩ := hL.level_preset haccepted.level
  have htakes := encoderTakes_iff htypical (validateLzmaParams_iff.mp haccepted.params)
  constructor
  · intro h
    exact htakes.mp (h.taken preset hpreset)
  · intro hfits
    refine ⟨?_, ?_⟩
    · intro preset' hpreset'
      obtain rfl : preset = preset' := Option.some.inj (hpreset.symm.trans hpreset')
      exact htakes.mpr hfits
    · -- the encoder is created, so that the context is made
      intro warning hfalse
      have hgood : ¬ (format ≠ XZ_FORMAT_XZ ∧ format ≠ XZ_FORMAT_RAW) := by
        intro hbad
        simp only [xzEncodeInit, Option.getD_some, if_pos hbad] at hfalse
        cases hfalse
      have hcases := xzEncodeInit_cases L ini (some format) options
      rw [hfalse] at hcases
      cases hcases with
      | noPreset accepted missing =>
        rw [hpreset] at missing
        cases missing
      | @notCreated preset' e accepted preset_eq error =>
        obtain rfl : preset = preset' := Option.some.inj (hpreset.symm.trans preset_eq)
        have hstream : format ≠ XZ_FORMAT_RAW →
            ((readEncodeOptions ini options).filter format preset).id = LZMA_FILTER_LZMA2 := by
          intro hraw
          exact if_pos (not_ne_iff.mp fun hxz => hgood ⟨hxz, hraw⟩)
        obtain ⟨s, hs⟩ := (hL.createEncoder_ok (haccepted.known format preset) hstream (hover _ _ _ _)
          haccepted.check).mpr (htakes.mpr hfits)
        have hboth := hs.symm.trans error
        cases hboth

theorem decodeValidation_iff (hL : ChecksOptions L)
    (haccepted : (readDecodeOptions ini options).Accepted) :
    DecodeValidationAgrees L ini options ↔
      (castUInt64 (readDecodeOptions ini options).filterId = LZMA_FILTER_LZMA1 →
        SumFits (readDecodeOptions ini options).lc (readDecodeOptions ini options).lp) := by
  obtain ⟨preset, hpreset, htypical⟩ := hL.preset 6 (by decide)
  have hparams := paramsTaken_iff htypical (validateLzmaParams_iff.mp haccepted.params)
  have htakes : DecoderTakes ((readDecodeOptions ini options).filter preset) ↔
      (castUInt64 (readDecodeOptions ini options).filterId = LZMA_FILTER_LZMA1 →
        SumFits (readDecodeOptions ini options).lc (readDecodeOptions ini options).lp) := by
    rw [← hparams]
    rfl
  constructor
  · intro h
    exact htakes.mp (h.taken preset hpreset)
  · intro hfits
    refine ⟨?_, ?_⟩
    · intro preset' hpreset'
      obtain rfl : preset = preset' := Option.some.inj (hpreset.symm.trans hpreset')
      exact htakes.mpr hfits
    · intro warning hfalse
      have hcases := xzDecodeInit_cases L ini (some XZ_FORMAT_RAW) options
      rw [hfalse] at hcases
      cases hcases with
      | notCreated accepted missing =>
        have hover : OverPreset L ((readDecodeOptions ini options).filter preset).options :=
          ⟨6, preset, _, _, _, _, by decide, hpreset, rfl⟩
        obtain ⟨s, hs⟩ := (hL.rawDecoder _ (haccepted.known preset) hover).mpr (htakes.mpr hfits)
        rw [Option.getD_some, createDecoder, if_pos rfl, hpreset] at missing
        rw [DecodeOptions.filter] at hs
        simp only [hs] at missing
        cases missing

/-- **Validation agrees with liblzma** except on an `lp` of 2 or more with `lc` omitted, which only a decoder
of LZMA2 takes, and, for an encoder, on dictionary sizes that are out of its range after their cast. -/
theorem validation_agrees_iff (hL : ChecksOptions L) (ini : Ini) (format : ZendLong)
    (options : Option Options) :
    ((readEncodeOptions ini options).Accepted →
      (EncodeValidationAgrees L ini format options ↔
        SumFits (readEncodeOptions ini options).lc (readEncodeOptions ini options).lp ∧
          DictFits (readEncodeOptions ini options).dictSize)) ∧
    ((readDecodeOptions ini options).Accepted →
      (DecodeValidationAgrees L ini options ↔
        (castUInt64 (readDecodeOptions ini options).filterId = LZMA_FILTER_LZMA1 →
          SumFits (readDecodeOptions ini options).lc (readDecodeOptions ini options).lp))) :=
  ⟨encodeValidation_iff hL format, decodeValidation_iff hL⟩

/-! ### A library with the presets of liblzma -/

instance (opt : LzmaOptionsLzma) : Decidable (ParamsTaken opt) :=
  decidable_of_iff (opt.lc.toNat ≤ 4 ∧ opt.lp.toNat ≤ 4 ∧ opt.pb.toNat ≤ 4 ∧
    opt.lc.toNat + opt.lp.toNat ≤ 4)
    ⟨fun ⟨hlc, hlp, hpb, hsum⟩ => ⟨hlc, hlp, hpb, hsum⟩, fun ⟨hlc, hlp, hpb, hsum⟩ => ⟨hlc, hlp, hpb, hsum⟩⟩

instance (opt : LzmaOptionsLzma) : Decidable (EncoderTakes opt) :=
  decidable_of_iff (ParamsTaken opt ∧ 4096 ≤ opt.dictSize.toNat ∧
    opt.dictSize.toNat ≤ 2 ^ 30 + 2 ^ 29)
    ⟨fun ⟨h, hmin, hmax⟩ => ⟨h, hmin, hmax⟩, fun ⟨h, hmin, hmax⟩ => ⟨h, hmin, hmax⟩⟩

instance (filter : LzmaFilter) : Decidable (DecoderTakes filter) := inferInstanceAs (Decidable (_ → _))

/-- The dictionary sizes of the levels. -/
def presetDictSize (level : Nat) : Nat :=
  [2 ^ 18, 2 ^ 20, 2 ^ 21, 2 ^ 22, 2 ^ 22, 2 ^ 23, 2 ^ 23, 2 ^ 24, 2 ^ 25, 2 ^ 26].getD level 0

def standardPreset (level : UInt32) : Option LzmaOptionsLzma :=
  if level.toNat ≤ 9 then
    some { dictSize := .ofNat (presetDictSize level.toNat), lc := 3, lp := 0, pb := 2, mode := 2,
           niceLen := 64, mf := 0x14, depth := 0 }
  else none

/-- The copying coder, created from the filters that liblzma takes. -/
def checkingLiblzma : Liblzma Bool where
  coder := copyCoder
  lzmaLzmaPreset := standardPreset
  lzmaStreamEncoder filters _ :=
    if ∀ filter ∈ filters, filter.id = LZMA_FILTER_LZMA2 ∧ EncoderTakes filter.options then .ok false
    else .error .optionsError
  lzmaRawEncoder filters :=
    if ∀ filter ∈ filters, filter.Known ∧ EncoderTakes filter.options then .ok false
    else .error .optionsError
  lzmaAutoDecoder _ _ := .ok false
  lzmaRawDecoder filters :=
    if ∀ filter ∈ filters, filter.Known ∧ DecoderTakes filter then .ok false else .error .optionsError
  lzmaPropertiesSize := copyLiblzma.lzmaPropertiesSize
  lzmaPropertiesEncode := copyLiblzma.lzmaPropertiesEncode

theorem presetDictSize_toNat {level : Nat} (h : level ≤ 9) :
    (UInt32.ofNat (presetDictSize level)).toNat = presetDictSize level ∧
      2 ^ 18 ≤ presetDictSize level ∧ presetDictSize level ≤ 2 ^ 26 := by
  have hall : ∀ n ≤ 9, (UInt32.ofNat (presetDictSize n)).toNat = presetDictSize n ∧
      2 ^ 18 ≤ presetDictSize n ∧ presetDictSize n ≤ 2 ^ 26 := by decide
  exact hall level h

theorem exists_ok_ite {p : Prop} [Decidable p] :
    (∃ s, (if p then .ok false else .error .optionsError : Except LzmaRet Bool) = .ok s) ↔ p := by
  split
  · rename_i hp
    exact ⟨fun _ => hp, fun _ => ⟨false, rfl⟩⟩
  · rename_i hp
    refine ⟨?_, fun h => absurd h hp⟩
    rintro ⟨s, hs⟩
    cases hs

theorem checkingLiblzma_checks : ChecksOptions checkingLiblzma where
  preset := by
    intro level hlevel
    obtain ⟨hnat, hmin, hmax⟩ := presetDictSize_toNat hlevel
    refine ⟨_, if_pos hlevel, rfl, rfl, rfl, ?_, ?_⟩
    · rw [hnat]
      exact hmin
    · rw [hnat]
      exact hmax
  streamEncoder opt check _ _ := exists_ok_ite.trans (by simp)
  rawEncoder filter hknown _ := exists_ok_ite.trans (by simp [hknown])
  rawDecoder filter hknown _ := exists_ok_ite.trans (by simp [hknown])

/-- LZMA1, and an `lp` of 2. -/
def lzma1LpTwo : Options := fun key =>
  if key = "filter" then some LZMA_FILTER_LZMA1.toInt64 else oneOption "lp" 2 key

/-- An `lp` of 2 and no other parameter passes all checks. -/
theorem lpTwo_accepted :
    (readEncodeOptions {} (some (oneOption "lp" 2))).Accepted ∧
      (readDecodeOptions {} (some lzma1LpTwo)).Accepted :=
  ⟨⟨by decide, by decide, by decide, by decide⟩, by decide, by decide⟩

theorem validation_agrees_iff_lpTwo :
    (EncodeValidationAgrees checkingLiblzma {} XZ_FORMAT_RAW (some (oneOption "lp" 2)) ↔
      SumFits (-1) 2 ∧ DictFits 0) ∧
    (DecodeValidationAgrees checkingLiblzma {} (some lzma1LpTwo) ↔
      (castUInt64 LZMA_FILTER_LZMA1.toInt64 = LZMA_FILTER_LZMA1 → SumFits (-1) 2)) :=
  ⟨(validation_agrees_iff checkingLiblzma_checks {} XZ_FORMAT_RAW _).1 lpTwo_accepted.1,
    (validation_agrees_iff checkingLiblzma_checks {} XZ_FORMAT_RAW _).2 lpTwo_accepted.2⟩

/-- With an `lp` of 2 both init functions return `false`; that of a decoder for LZMA1. -/
theorem lpTwo_not_reported :
    ChecksOptions checkingLiblzma ∧
      ((readEncodeOptions {} (some (oneOption "lp" 2))).Accepted ∧
        ¬ EncodeValidationAgrees checkingLiblzma {} XZ_FORMAT_RAW (some (oneOption "lp" 2))) ∧
      (readDecodeOptions {} (some lzma1LpTwo)).Accepted ∧
        ¬ DecodeValidationAgrees checkingLiblzma {} (some lzma1LpTwo) := by
  refine ⟨checkingLiblzma_checks, ⟨lpTwo_accepted.1, ?_⟩, lpTwo_accepted.2, ?_⟩
  · intro h
    exact h.reported none rfl
  · intro h
    exact h.reported none rfl

end PhpExtXz
