/-
# PhpExtXz.RawProperties — the properties of a raw stream are enough to decode it.

Raw data carries no parameters. `xz_encode_get_properties` returns them as a string, which according to
`USAGE.md` can be stored alongside a raw stream so that it can be decoded later. `optionsOf` is what a
program makes of such a string: the options for `xz_decode_init`, read in the format documented there.

`rawProperties_fit`: the context that these options give is always created, and its decoder fits the
encoder. From that, for scripts: every string that `xz_encode_get_properties` returns for one object is the
same one and gives a decoder that fits (`properties_describe`), and what the object encodes is what a
context with these options decodes (`raw_round_trip`).
-/
import PhpExtXz.ObjectsRoundTrip
import PhpExtXz.RawPair

namespace PhpExtXz

open FuelLoop Runs

variable {σ τ : Type}

/-! ## The format -/

/-- The dictionary size that the byte of LZMA2 stands for. -/
def lzma2DictSize (b : UInt8) : Nat :=
  if b.toNat = 40 then 2 ^ 32 - 1 else (2 + b.toNat % 2) * 2 ^ (b.toNat / 2 + 11)

/-- `(pb*5+lp)*9+lc`, then the dictionary size as a little-endian 32-bit value. -/
def lzma1Properties (opt : LzmaOptionsLzma) : List UInt8 :=
  [.ofNat ((opt.pb.toNat * 5 + opt.lp.toNat) * 9 + opt.lc.toNat), .ofNat opt.dictSize.toNat,
    .ofNat (opt.dictSize.toNat / 2 ^ 8), .ofNat (opt.dictSize.toNat / 2 ^ 16),
    .ofNat (opt.dictSize.toNat / 2 ^ 24)]

/-- **What `lzma_properties_encode` writes.** The byte of LZMA2 stands for the dictionary size, rounded
up. -/
structure DocumentedProperties (L : Liblzma σ) : Prop extends FilterProperties L where
  lzma1Bytes : ∀ opt bytes, L.lzmaPropertiesEncode ⟨LZMA_FILTER_LZMA1, opt⟩ = .ok bytes →
    bytes = lzma1Properties opt
  lzma2Byte : ∀ opt bytes, L.lzmaPropertiesEncode ⟨LZMA_FILTER_LZMA2, opt⟩ = .ok bytes →
    ∃ b : UInt8, bytes = [b] ∧ b.toNat ≤ 40 ∧ opt.dictSize.toNat ≤ lzma2DictSize b

/-- An options array with these entries. -/
def optionsArray (entries : List (String × ZendLong)) : Options := fun key => entries.lookup key

def lzma2Options (b : UInt8) : Options :=
  optionsArray [("filter", LZMA_FILTER_LZMA2.toInt64), ("dict_size", .ofNat (lzma2DictSize b))]

def lzma1Options (b d₀ d₁ d₂ d₃ : UInt8) : Options :=
  optionsArray [("filter", LZMA_FILTER_LZMA1.toInt64),
    ("lc", .ofNat (b.toNat % 9)), ("lp", .ofNat (b.toNat / 9 % 5)), ("pb", .ofNat (b.toNat / 45)),
    ("dict_size", .ofNat (d₀.toNat + d₁.toNat * 2 ^ 8 + d₂.toNat * 2 ^ 16 + d₃.toNat * 2 ^ 24))]

/-- The options for `xz_decode_init` that a properties string describes. -/
def optionsOf : List UInt8 → Options
  | [b] => lzma2Options b
  | [b, d₀, d₁, d₂, d₃] => lzma1Options b d₀ d₁ d₂ d₃
  | _ => optionsArray []

/-! ## What the options are read as -/

theorem castUInt32_ofNat {n : Nat} {field : UInt32} (h : n = field.toNat) :
    castUInt32 (.ofNat n) = field := by
  have hlt := field.toNat_lt
  have hcast := toNat_castUInt32 (.ofNat n)
  rw [Int64.toInt_ofNat_of_lt (by omega)] at hcast
  apply UInt32.toNat_inj.mp
  omega

theorem lzma2DictSize_range {b : UInt8} (h : b.toNat ≤ 40) :
    4096 ≤ lzma2DictSize b ∧ lzma2DictSize b < 2 ^ 32 := by
  have hall : ∀ n ≤ 40, 4096 ≤ lzma2DictSize (.ofNat n) ∧ lzma2DictSize (.ofNat n) < 2 ^ 32 := by decide
  have hb := hall b.toNat h
  rwa [UInt8.ofNat_toNat] at hb

theorem toNat_lzma2DictSize {b : UInt8} (h : b.toNat ≤ 40) :
    (UInt32.ofNat (lzma2DictSize b)).toNat = lzma2DictSize b :=
  UInt32.toNat_ofNat_of_lt' (lzma2DictSize_range h).2

/-- What is read from the options of LZMA2. -/
theorem readDecodeOptions_lzma2 (ini : Ini) (b : UInt8) :
    readDecodeOptions ini (some (lzma2Options b)) =
      ⟨0, ini.maxMemory, LZMA_FILTER_LZMA2.toInt64, .ofNat (lzma2DictSize b), -1, -1, -1⟩ := rfl

/-- What is read from the options of LZMA1. -/
theorem readDecodeOptions_lzma1 (ini : Ini) {opt : LzmaOptionsLzma} (h : ParamsTaken opt) :
    readDecodeOptions ini (some (optionsOf (lzma1Properties opt))) =
      ⟨0, ini.maxMemory, LZMA_FILTER_LZMA1.toInt64, .ofNat opt.dictSize.toNat, .ofNat opt.lc.toNat,
        .ofNat opt.lp.toNat, .ofNat opt.pb.toNat⟩ := by
  obtain ⟨hlc, hlp, hpb, -⟩ := h
  have hdict := opt.dictSize.toNat_lt
  have hfirst : (UInt8.ofNat ((opt.pb.toNat * 5 + opt.lp.toNat) * 9 + opt.lc.toNat)).toNat =
      (opt.pb.toNat * 5 + opt.lp.toNat) * 9 + opt.lc.toNat := by
    rw [UInt8.toNat_ofNat']
    omega
  have hlc' : ((opt.pb.toNat * 5 + opt.lp.toNat) * 9 + opt.lc.toNat) % 9 = opt.lc.toNat := by omega
  have hlp' : ((opt.pb.toNat * 5 + opt.lp.toNat) * 9 + opt.lc.toNat) / 9 % 5 = opt.lp.toNat := by omega
  have hpb' : ((opt.pb.toNat * 5 + opt.lp.toNat) * 9 + opt.lc.toNat) / 45 = opt.pb.toNat := by omega
  have hbytes : (UInt8.ofNat opt.dictSize.toNat).toNat +
      (UInt8.ofNat (opt.dictSize.toNat / 2 ^ 8)).toNat * 2 ^ 8 +
      (UInt8.ofNat (opt.dictSize.toNat / 2 ^ 16)).toNat * 2 ^ 16 +
      (UInt8.ofNat (opt.dictSize.toNat / 2 ^ 24)).toNat * 2 ^ 24 = opt.dictSize.toNat := by
    simp only [UInt8.toNat_ofNat']
    omega
  show DecodeOptions.mk 0 ini.maxMemory LZMA_FILTER_LZMA1.toInt64 (.ofNat _) (.ofNat _) (.ofNat _) (.ofNat _) = _
  rw [hfirst, hlc', hlp', hpb', hbytes]

/-! ## The context that they give -/

variable {L : Liblzma σ} {ini ini' : Ini} {format : Option ZendLong} {options : Option Options}
  {enc : XzEncodeContext σ} {preset : LzmaOptionsLzma}

/-- Options that are accepted and laid over the preset to something that liblzma takes give a context. -/
theorem xzDecodeInit_raw (hchecks : ChecksOptions L) {opts : Options}
    (haccepted : (readDecodeOptions ini (some opts)).Accepted) (hpreset : L.lzmaLzmaPreset 6 = some preset)
    (htakes : DecoderTakes ((readDecodeOptions ini (some opts)).filter preset)) :
    ∃ d, L.lzmaRawDecoder [(readDecodeOptions ini (some opts)).filter preset] = .ok d ∧
      xzDecodeInit L ini (some XZ_FORMAT_RAW) (some opts) =
        .value ⟨.init d, .ok, castUInt32 XZ_FORMAT_RAW⟩ := by
  have hcases := xzDecodeInit_cases L ini (some XZ_FORMAT_RAW) (some opts)
  generalize readDecodeOptions ini (some opts) = o at haccepted htakes hcases ⊢
  have hover : OverPreset L (o.filter preset).options := ⟨6, preset, _, _, _, _, by decide, hpreset, rfl⟩
  obtain ⟨d, hd⟩ := (hchecks.rawDecoder (o.filter preset) (haccepted.known preset) hover).mpr htakes
  have hcreated : createDecoder L XZ_FORMAT_RAW o.flags o.memoryLimit o.filterId o.dictSize o.lc o.lp o.pb =
      some d := by
    have hd' : L.lzmaRawDecoder [⟨castUInt64 o.filterId, overlayLzmaParams preset o.dictSize o.lc o.lp o.pb⟩] =
        .ok d := hd
    rw [createDecoder, if_pos rfl, hpreset]
    show Except.toOption _ = _
    rw [hd']
    rfl
  refine ⟨d, hd, ?_⟩
  generalize xzDecodeInit L ini (some XZ_FORMAT_RAW) (some opts) = ret at hcases
  cases hcases with
  | badFormat bad => exact absurd rfl bad.2
  | refused refused => exact absurd haccepted refused
  | notCreated _ missing =>
    have hnone : none = some d := missing.symm.trans hcreated
    cases hnone
  | made _ _ created =>
    obtain rfl : _ = d := Option.some.inj (created.symm.trans hcreated)
    rfl

/-- Both pass the checks of `xz_decode_init`. -/
theorem paramsChecked_lzma1 {opt : LzmaOptionsLzma} (h : ParamsTaken opt) :
    ParamsChecked (.ofNat opt.lc.toNat) (.ofNat opt.lp.toNat) (.ofNat opt.pb.toNat)
      (.ofNat opt.dictSize.toNat) := by
  obtain ⟨hlc, hlp, hpb, hsum⟩ := h
  have hlt := opt.dictSize.toNat_lt
  have hlc' : (Int64.ofNat opt.lc.toNat).toInt = opt.lc.toNat := Int64.toInt_ofNat_of_lt (by omega)
  have hlp' : (Int64.ofNat opt.lp.toNat).toInt = opt.lp.toNat := Int64.toInt_ofNat_of_lt (by omega)
  have hpb' : (Int64.ofNat opt.pb.toNat).toInt = opt.pb.toNat := Int64.toInt_ofNat_of_lt (by omega)
  have hdict' : (Int64.ofNat opt.dictSize.toNat).toInt = opt.dictSize.toNat :=
    Int64.toInt_ofNat_of_lt (by omega)
  constructor <;> omega

theorem paramsChecked_lzma2 {b : UInt8} (hb : b.toNat ≤ 40) :
    ParamsChecked (-1) (-1) (-1) (.ofNat (lzma2DictSize b)) := by
  obtain ⟨hmin, hlt⟩ := lzma2DictSize_range hb
  refine ⟨by decide, by decide, by decide, by decide, ?_⟩
  rw [Int64.toInt_ofNat_of_lt (by omega)]
  omega

/-- The parameters of an encoder laid over a preset. -/
theorem overlayLzmaParams_ofNat (preset : LzmaOptionsLzma) {opt : LzmaOptionsLzma} (h : EncoderTakes opt) :
    overlayLzmaParams preset (.ofNat opt.dictSize.toNat) (.ofNat opt.lc.toNat) (.ofNat opt.lp.toNat)
        (.ofNat opt.pb.toNat) =
      { preset with dictSize := opt.dictSize, lc := opt.lc, lp := opt.lp, pb := opt.pb } := by
  have hnonneg : ∀ field : UInt32, (Int64.ofNat field.toNat : ZendLong) ≥ 0 := by
    intro field
    have hlt := field.toNat_lt
    apply nonneg_iff.mpr
    rw [Int64.toInt_ofNat_of_lt (by omega)]
    omega
  have hdict : (Int64.ofNat opt.dictSize.toNat : ZendLong) ≠ 0 := by
    have hlt := opt.dictSize.toNat_lt
    have hmin := h.dictMin
    apply ne_zero_iff.mpr
    rw [Int64.toInt_ofNat_of_lt (by omega)]
    omega
  simp only [overlayLzmaParams, if_pos hdict, if_pos (hnonneg _), castUInt32_ofNat rfl]

/-- The dictionary size of LZMA2 laid over a preset. -/
theorem overlayLzmaParams_lzma2 (preset : LzmaOptionsLzma) {b : UInt8} (hb : b.toNat ≤ 40) :
    overlayLzmaParams preset (.ofNat (lzma2DictSize b)) (-1) (-1) (-1) =
      { preset with dictSize := .ofNat (lzma2DictSize b) } := by
  obtain ⟨hmin, hlt⟩ := lzma2DictSize_range hb
  have hneg : ¬ (-1 : ZendLong) ≥ 0 := by decide
  have hdict : (Int64.ofNat (lzma2DictSize b) : ZendLong) ≠ 0 := by
    apply ne_zero_iff.mpr
    rw [Int64.toInt_ofNat_of_lt (by omega)]
    omega
  have hcast : castUInt32 (.ofNat (lzma2DictSize b)) = .ofNat (lzma2DictSize b) :=
    castUInt32_ofNat (toNat_lzma2DictSize hb).symm
  simp only [overlayLzmaParams, if_pos hdict, if_neg hneg, hcast]

/-- **The properties are enough.** Whatever the encoder that they describe was made with, the context that
the options read from them give is created, and its decoder fits the encoder. -/
theorem rawProperties_fit (hprops : DocumentedProperties L) (hchecks : ChecksOptions L) {filter : LzmaFilter}
    (hknown : filter.Known) (htakes : EncoderTakes filter.options) {props : List UInt8}
    (hencode : L.lzmaPropertiesEncode filter = .ok props) (ini : Ini) :
    ∃ dec d, Fits (.rawEncoder [filter]) (.rawDecoder [dec]) ∧ L.lzmaRawDecoder [dec] = .ok d ∧
      xzDecodeInit L ini (some XZ_FORMAT_RAW) (some (optionsOf props)) =
        .value ⟨.init d, .ok, castUInt32 XZ_FORMAT_RAW⟩ := by
  obtain ⟨preset, hpreset, -⟩ := hchecks.preset 6 (by decide)
  obtain ⟨id, opt⟩ := filter
  rcases hknown with hid | hid
  · obtain rfl : id = LZMA_FILTER_LZMA1 := hid
    obtain rfl := hprops.lzma1Bytes opt props hencode
    have htakes' : EncoderTakes opt := htakes
    have hread := readDecodeOptions_lzma1 ini htakes'.toParamsTaken
    have hoverlay := overlayLzmaParams_ofNat preset htakes'
    have haccepted : (readDecodeOptions ini (some (optionsOf (lzma1Properties opt)))).Accepted := by
      rw [hread]
      refine ⟨show isValidFilter LZMA_FILTER_LZMA1.toInt64 = true by decide, ?_⟩
      exact validateLzmaParams_iff.mpr (paramsChecked_lzma1 htakes'.toParamsTaken)
    have hdecoder : DecoderTakes
        ((readDecodeOptions ini (some (optionsOf (lzma1Properties opt)))).filter preset) := by
      rw [hread, DecodeOptions.filter, hoverlay]
      exact fun _ => ⟨htakes'.lc, htakes'.lp, htakes'.pb, htakes'.sum⟩
    obtain ⟨d, hd, hinit⟩ := xzDecodeInit_raw hchecks haccepted hpreset hdecoder
    rw [hread, DecodeOptions.filter, hoverlay] at hd
    have hid : castUInt64 LZMA_FILTER_LZMA1.toInt64 = LZMA_FILTER_LZMA1 := by decide
    refine ⟨_, d, ?_, hd, hinit⟩
    exact ⟨hid, fun _ => ⟨rfl, rfl, rfl⟩, le_refl opt.dictSize.toNat⟩
  · obtain rfl : id = LZMA_FILTER_LZMA2 := hid
    obtain ⟨b, rfl, hb, hdict⟩ := hprops.lzma2Byte opt props hencode
    have hread : readDecodeOptions ini (some (optionsOf [b])) = _ := readDecodeOptions_lzma2 ini b
    have hoverlay := overlayLzmaParams_lzma2 preset hb
    have haccepted : (readDecodeOptions ini (some (optionsOf [b]))).Accepted := by
      rw [hread]
      refine ⟨show isValidFilter LZMA_FILTER_LZMA2.toInt64 = true by decide, ?_⟩
      exact validateLzmaParams_iff.mpr (paramsChecked_lzma2 hb)
    have hids : LZMA_FILTER_LZMA2 ≠ LZMA_FILTER_LZMA1 := by decide
    have hid : castUInt64 LZMA_FILTER_LZMA2.toInt64 = LZMA_FILTER_LZMA2 := by decide
    have hdecoder : DecoderTakes ((readDecodeOptions ini (some (optionsOf [b]))).filter preset) := by
      rw [hread]
      exact fun h => absurd (hid.symm.trans h) hids
    obtain ⟨d, hd, hinit⟩ := xzDecodeInit_raw hchecks haccepted hpreset hdecoder
    rw [hread, DecodeOptions.filter, hoverlay] at hd
    have hsize : opt.dictSize.toNat ≤ (UInt32.ofNat (lzma2DictSize b)).toNat := by
      rw [toNat_lzma2DictSize hb]
      exact hdict
    exact ⟨_, d, ⟨hid, fun h => absurd h hids, hsize⟩, hd, hinit⟩

/-! ## What one object returns -/

/-- The calls that ask an object for its properties. -/
def ObjectOp.asking : ObjectOp → Option Unit
  | .encodeGetProperties => some ()
  | _ => none

/-- A string that an encode context has returned for its properties, whatever was called on it before. -/
theorem askedProperties {L : Liblzma τ} (hprops : FilterProperties L) {fuel : Nat} {obj obj' : ZendObject τ}
    (frozen : UInt32 × LzmaFilter) (hfrozen : obj.frozen = some frozen) (hknown : frozen.2.Known)
    {calls : List ObjectOp} {results : List ApiReturn} {props : List UInt8}
    (hperform : perform (objectOp L fuel) obj calls = .ok (results, obj'))
    (hmem : .string props ∈ resultsOf ObjectOp.asking calls results) :
    frozen.1 = castUInt32 XZ_FORMAT_RAW ∧ L.lzmaPropertiesEncode frozen.2 = .ok props := by
  induction calls generalizing obj results with
  | nil =>
    cases hperform
    cases hmem
  | cons op calls ih =>
    obtain ⟨r, obj₁, rs, hop, hrest, rfl⟩ := perform_cons_eq_ok.mp hperform
    have hcoder : obj.CoderSat fun _ => True := by cases obj <;> trivial
    have hraw : obj.RawKnown := by
      rintro format filter heq -
      obtain rfl : frozen = (format, filter) := Option.some.inj (hfrozen.symm.trans heq)
      exact hknown
    have hleft := (objectOp_sat hprops (fun _ _ _ _ _ => trivial) fuel hcoder hraw op).of_ok hop
    have hlater := ih (hleft.frozen.trans hfrozen) hrest
    cases op with
    | encodeGetProperties =>
      rcases List.mem_cons.mp hmem with hhead | hmem
      · cases obj with
        | encodeContext ctx =>
          obtain ⟨⟨r', ctx'⟩, hcall, hpure⟩ := bind_eq_ok.mp hop
          obtain ⟨ret, hask, hpure'⟩ := bind_eq_ok.mp hcall
          cases hpure'
          cases hpure
          cases ret with
          | value bytes =>
            obtain rfl : props = bytes := ApiReturn.string.inj hhead
            obtain rfl : (ctx.format, ctx.filter) = frozen := Option.some.inj hfrozen
            exact (xzEncodeGetProperties_sat hprops (hraw _ _ rfl)).of_ok hask props rfl
          | returnFalse warning => cases hhead
          | valueError arg message => cases hhead
        | decodeContext ctx => cases hfrozen
        | other => cases hfrozen
      · exact hlater hmem
    | _ => exact hlater hmem

/-- The encoder of a raw context. -/
theorem xzEncodeInit_rawEncoder (h : xzEncodeInit L ini format options = .value enc)
    (hraw : enc.format = castUInt32 XZ_FORMAT_RAW) :
    L.lzmaRawEncoder [enc.filter] = .ok enc.strm.internal := by
  have hcases := xzEncodeInit_cases L ini format options
  rw [h] at hcases
  cases hcases with
  | made good _ _ created =>
    have hformats : castUInt32 XZ_FORMAT_XZ ≠ castUInt32 XZ_FORMAT_RAW := by decide
    have hformat : format.getD XZ_FORMAT_XZ = XZ_FORMAT_RAW := by
      by_contra hne
      have hxz : format.getD XZ_FORMAT_XZ = XZ_FORMAT_XZ := by
        by_contra hne'
        exact good ⟨hne', hne⟩
      exact hformats (hxz ▸ hraw)
    rw [createEncoder, if_pos hformat] at created
    exact created

/-- Its options are those that such an encoder takes. -/
theorem xzEncodeInit_takes (hchecks : ChecksOptions L) (h : xzEncodeInit L ini format options = .value enc)
    (hknown : enc.filter.Known) (hraw : L.lzmaRawEncoder [enc.filter] = .ok enc.strm.internal) :
    EncoderTakes enc.filter.options := by
  have hover : OverPreset L enc.filter.options := by
    have hcases := xzEncodeInit_cases L ini format options
    rw [h] at hcases
    cases hcases with
    | made good accepted preset_eq created =>
      exact ⟨_, _, _, _, _, _, toNat_level_le accepted.level, preset_eq, rfl⟩
  exact (hchecks.rawEncoder enc.filter hknown hover).mp ⟨_, hraw⟩

/-! ## A library with documented properties -/

/-- The properties of a filter, as they are documented. -/
def filterProperties (filter : LzmaFilter) : List UInt8 :=
  if filter.id = LZMA_FILTER_LZMA1 then lzma1Properties filter.options
  else [.ofNat (((List.range 41).find? fun n =>
    filter.options.dictSize.toNat ≤ lzma2DictSize (.ofNat n)).getD 40)]

/-- The coders of the format with marks, created from the filters that liblzma takes. -/
def rawLiblzma : Liblzma StoredState where
  coder := storedCoder
  lzmaLzmaPreset := checkingLiblzma.lzmaLzmaPreset
  lzmaStreamEncoder filters check :=
    (checkingLiblzma.lzmaStreamEncoder filters check).map fun _ => markEncoder.start
  lzmaRawEncoder filters := (checkingLiblzma.lzmaRawEncoder filters).map fun _ => markEncoder.start
  lzmaAutoDecoder memlimit flags :=
    (checkingLiblzma.lzmaAutoDecoder memlimit flags).map fun _ => markTable.start
  lzmaRawDecoder filters := (checkingLiblzma.lzmaRawDecoder filters).map fun _ => markTable.start
  lzmaPropertiesSize := checkingLiblzma.lzmaPropertiesSize
  lzmaPropertiesEncode filter := .ok (filterProperties filter)

theorem exists_map_eq_ok {x : Except LzmaRet σ} {a : τ} :
    (∃ s, x.map (fun _ => a) = .ok s) ↔ ∃ s, x = .ok s := by
  cases x with
  | error e =>
    constructor <;> rintro ⟨s, hs⟩ <;> cases hs
  | ok s => exact ⟨fun _ => ⟨s, rfl⟩, fun _ => ⟨a, rfl⟩⟩

theorem map_const_eq_ok {x : Except LzmaRet σ} {a b : τ} (h : x.map (fun _ => a) = .ok b) : b = a := by
  cases x with
  | error e => cases h
  | ok s =>
    cases h
    rfl

theorem rawLiblzma_checks : ChecksOptions rawLiblzma where
  preset := checkingLiblzma_checks.preset
  streamEncoder opt check hover hcheck :=
    exists_map_eq_ok.trans (checkingLiblzma_checks.streamEncoder opt check hover hcheck)
  rawEncoder filter hknown hover :=
    exists_map_eq_ok.trans (checkingLiblzma_checks.rawEncoder filter hknown hover)
  rawDecoder filter hknown hover :=
    exists_map_eq_ok.trans (checkingLiblzma_checks.rawDecoder filter hknown hover)

theorem rawLiblzma_properties : DocumentedProperties rawLiblzma where
  lzma1 opt n h := (pairLiblzma_filterProperties copyCoder false false).lzma1 opt n h
  lzma2 opt n h := (pairLiblzma_filterProperties copyCoder false false).lzma2 opt n h
  written := by
    intro filter n bytes hn hbytes
    obtain rfl := Except.ok.inj hn
    obtain rfl := Except.ok.inj hbytes
    unfold filterProperties
    split <;> rfl
  lzma1Bytes := by
    intro opt bytes hbytes
    exact (Except.ok.inj hbytes).symm
  lzma2Byte := by
    intro opt bytes hbytes
    have hids : LZMA_FILTER_LZMA2 ≠ LZMA_FILTER_LZMA1 := by decide
    obtain rfl := Except.ok.inj hbytes
    refine ⟨_, if_neg hids, ?_⟩
    have hlt := opt.dictSize.toNat_lt
    match hfind : (List.range 41).find? fun n => opt.dictSize.toNat ≤ lzma2DictSize (.ofNat n) with
    | some n =>
      have hn : n < 41 := List.mem_range.mp (List.mem_of_find?_eq_some hfind)
      have hle := List.find?_some hfind
      show (UInt8.ofNat n).toNat ≤ 40 ∧ opt.dictSize.toNat ≤ lzma2DictSize (.ofNat n)
      rw [UInt8.toNat_ofNat']
      exact ⟨by omega, of_decide_eq_true hle⟩
    | none =>
      have hmax : lzma2DictSize 40 = 2 ^ 32 - 1 := rfl
      show (40 : UInt8).toNat ≤ 40 ∧ opt.dictSize.toNat ≤ lzma2DictSize 40
      rw [hmax]
      exact ⟨by decide, by omega⟩

/-! ## In a script -/

section Scripts

variable {fuel : Nat} {script : List ApiOp} {rets : List ApiReturn} {process : Process σ} {handle : Nat}
  {calls : List ObjectOp} {results : List ApiReturn} {props : List UInt8}

/-- The properties that a new context returns describe its encoder. -/
theorem askedNew (hprops : FilterProperties L) (hinit : xzEncodeInit L ini format options = .value enc)
    {obj' : ZendObject (Option σ)}
    (hperform : perform (objectOp L.orNull fuel)
      (.encodeContext (enc.withInternal (some enc.strm.internal))) calls = .ok (results, obj'))
    (hmem : .string props ∈ resultsOf ObjectOp.asking calls results) :
    L.lzmaRawEncoder [enc.filter] = .ok enc.strm.internal ∧ enc.filter.Known ∧
      L.lzmaPropertiesEncode enc.filter = .ok props := by
  have hprops' : FilterProperties L.orNull := ⟨hprops.lzma1, hprops.lzma2, hprops.written⟩
  have hknown := xzEncodeInit_known hinit
  obtain ⟨hraw, hencode⟩ := askedProperties hprops' (enc.format, enc.filter) rfl hknown hperform hmem
  exact ⟨xzEncodeInit_rawEncoder hinit hraw, hknown, hencode⟩

/-- **The properties describe the encoder**, in every script. All strings that `xz_encode_get_properties`
returns for one object are the same, whatever is called on it or on other objects in between; and at any time,
under whatever INI values, `xz_decode_init` with the options read from them gives a context whose decoder
fits the encoder. -/
theorem properties_describe (hprops : DocumentedProperties L) (hchecks : ChecksOptions L)
    (hrun : apiRun L fuel (.start ini) script = .ok (rets, process))
    (hsession : Session script rets (.encodeInit format options) handle calls results)
    (hmem : .string props ∈ resultsOf ObjectOp.asking calls results) :
    (∀ props', .string props' ∈ resultsOf ObjectOp.asking calls results → props' = props) ∧
    ∃ level enc, xzEncodeInit L ⟨level, ini.maxMemory⟩ format options = .value enc ∧
      L.lzmaRawEncoder [enc.filter] = .ok enc.strm.internal ∧
      ∀ ini', ∃ dec d, Fits (.rawEncoder [enc.filter]) (.rawDecoder [dec]) ∧ L.lzmaRawDecoder [dec] = .ok d ∧
        xzDecodeInit L ini' (some XZ_FORMAT_RAW) (some (optionsOf props)) =
          .value ⟨.init d, .ok, castUInt32 XZ_FORMAT_RAW⟩ := by
  obtain ⟨level, obj, obj', hmade, hperform, -⟩ := session_perform hprops.toFilterProperties hrun hsession
  cases hmade with
  | @encodeInit _ _ enc hinit =>
    obtain ⟨hraw, hknown, hencode⟩ := askedNew hprops.toFilterProperties hinit hperform hmem
    refine ⟨fun props' hmem' => ?_, level, enc, hinit, hraw, fun ini' => ?_⟩
    · obtain ⟨-, -, hencode'⟩ := askedNew hprops.toFilterProperties hinit hperform hmem'
      exact Except.ok.inj (hencode'.symm.trans hencode)
    · have htakes := xzEncodeInit_takes hchecks hinit hknown hraw
      exact rawProperties_fit hprops hchecks hknown htakes hencode ini'

/-- An encoder of level 9, whose dictionary is larger than the one `xz_decode_init` takes by itself. The
properties are asked for while data is encoded, and handed on with it. -/
def storeProperties : List ApiOp :=
  [.encodeInit (some XZ_FORMAT_RAW)
      (some (optionsArray [("filter", LZMA_FILTER_LZMA1.toInt64), ("level", 9)])),
    .call 0 (.encodeAdd [7, 8]), .call 0 .encodeGetProperties,
    .decodeInit (some XZ_FORMAT_RAW) (some (optionsOf [0x5d, 0, 0, 0, 4])), .call 1 (.decodeAdd [1, 7, 1]),
    .call 0 .encodeFinish, .call 1 (.decodeAdd [8])]

def storedReturns : List ApiReturn :=
  [.object 0, .string [1, 7, 1, 8], .string [0x5d, 0, 0, 0, 4], .object 1, .string [7], .string [], .string [8]]

theorem storeProperties_encoder : Session storeProperties storedReturns
    (.encodeInit (some XZ_FORMAT_RAW)
      (some (optionsArray [("filter", LZMA_FILTER_LZMA1.toInt64), ("level", 9)]))) 0
    [.encodeAdd [7, 8], .encodeGetProperties, .encodeFinish]
    [.string [1, 7, 1, 8], .string [0x5d, 0, 0, 0, 4], .string []] :=
  ⟨[], _, [], _, rfl, rfl, rfl, by simp, rfl, rfl⟩

theorem storeProperties_asked : ApiReturn.string [0x5d, 0, 0, 0, 4] ∈
    resultsOf ObjectOp.asking [.encodeAdd [7, 8], .encodeGetProperties, .encodeFinish]
      [ApiReturn.string [1, 7, 1, 8], .string [0x5d, 0, 0, 0, 4], .string []] :=
  List.mem_singleton_self _

theorem properties_describe_stored :
    ∃ process, apiRun rawLiblzma 9 (.start {}) storeProperties = .ok (storedReturns, process) ∧
      ∃ level enc, xzEncodeInit rawLiblzma ⟨level, 0⟩ (some XZ_FORMAT_RAW)
          (some (optionsArray [("filter", LZMA_FILTER_LZMA1.toInt64), ("level", 9)])) = .value enc ∧
        ∀ ini', ∃ dec d, Fits (.rawEncoder [enc.filter]) (.rawDecoder [dec]) ∧
          xzDecodeInit rawLiblzma ini' (some XZ_FORMAT_RAW) (some (optionsOf [0x5d, 0, 0, 0, 4])) =
            .value ⟨.init d, .ok, castUInt32 XZ_FORMAT_RAW⟩ := by
  obtain ⟨process, hrun⟩ : ∃ process, apiRun rawLiblzma 9 (.start {}) storeProperties =
      .ok (storedReturns, process) := ⟨_, rfl⟩
  obtain ⟨-, level, enc, hinit, -, hdecoders⟩ := properties_describe rawLiblzma_properties rawLiblzma_checks
    hrun storeProperties_encoder storeProperties_asked
  refine ⟨process, hrun, level, enc, hinit, fun ini' => ?_⟩
  obtain ⟨dec, d, hfits, -, hdec⟩ := hdecoders ini'
  exact ⟨dec, d, hfits, hdec⟩

/-- **A raw stream with its properties can be decoded later**, in every script. The encoder may have been
made with any options; the decoder is made with those that are read from the properties string, and the data is
handed on to it in whatever pieces. Raw coders that fit each other are assumed to match. -/
theorem raw_round_trip (hprops : DocumentedProperties L) (hchecks : ChecksOptions L)
    (hcoders : ∀ enc dec e d, enc.Known → Fits (.rawEncoder [enc]) (.rawDecoder [dec]) →
      L.lzmaRawEncoder [enc] = .ok e → L.lzmaRawDecoder [dec] = .ok d → MatchingCoders L.coder e d)
    (hrun : apiRun L fuel (.start ini) script = .ok (rets, process)) {encoder decoder : Nat}
    {encodeCalls decodeCalls : List ObjectOp} {encodeResults decodeResults : List ApiReturn}
    (hencoder : Session script rets (.encodeInit format options) encoder encodeCalls encodeResults)
    (hmem : .string props ∈ resultsOf ObjectOp.asking encodeCalls encodeResults)
    (hdecoder : Session script rets (.decodeInit (some XZ_FORMAT_RAW) (some (optionsOf props))) decoder
      decodeCalls decodeResults)
    (hpassed : decodeInput decodeCalls <+: encodeOutput encodeCalls encodeResults) :
    decodeOutput decodeCalls decodeResults <+: encodeInput encodeCalls ∧
    (.encodeFinish ∈ encodeCalls → decodeInput decodeCalls = encodeOutput encodeCalls encodeResults →
      decodeOutput decodeCalls decodeResults = encodeInput encodeCalls) := by
  obtain ⟨level, obj, obj', hmade, hperform, -⟩ := session_perform hprops.toFilterProperties hrun hencoder
  obtain ⟨level', dec, hdec, hdecodes⟩ := decodeSession hprops.toFilterProperties hrun hdecoder
  cases hmade with
  | @encodeInit _ _ enc hinit =>
    obtain ⟨hraw, hknown, hencode⟩ := askedNew hprops.toFilterProperties hinit hperform hmem
    have htakes := xzEncodeInit_takes hchecks hinit hknown hraw
    obtain ⟨decFilter, d, hfits, hd, hinit'⟩ := rawProperties_fit hprops hchecks hknown htakes hencode
      ⟨level', ini.maxMemory⟩
    obtain rfl := PhpReturn.value.inj (hdec.symm.trans hinit')
    have hmatch : MatchingCoders L.coder enc.strm.internal d := hcoders _ _ _ _ hknown hfits hraw hd
    exact hmatch.hand_over (encodesAll hinit hperform) hdecodes hpassed

theorem raw_round_trip_stored :
    ∃ process, apiRun rawLiblzma 9 (.start {}) storeProperties = .ok (storedReturns, process) ∧
      decodeOutput [.decodeAdd [1, 7, 1], .decodeAdd [8]] [.string [7], .string [8]] =
        encodeInput [.encodeAdd [7, 8], .encodeGetProperties, .encodeFinish] := by
  obtain ⟨process, hrun⟩ : ∃ process, apiRun rawLiblzma 9 (.start {}) storeProperties =
      .ok (storedReturns, process) := ⟨_, rfl⟩
  have hdecoder : Session storeProperties storedReturns
      (.decodeInit (some XZ_FORMAT_RAW) (some (optionsOf [0x5d, 0, 0, 0, 4]))) 1
      [.decodeAdd [1, 7, 1], .decodeAdd [8]] [.string [7], .string [8]] :=
    ⟨storeProperties.take 3, _, storedReturns.take 3, _, rfl, rfl, rfl, by simp, rfl, rfl⟩
  have hcoders : ∀ enc dec e d, enc.Known → Fits (.rawEncoder [enc]) (.rawDecoder [dec]) →
      rawLiblzma.lzmaRawEncoder [enc] = .ok e → rawLiblzma.lzmaRawDecoder [dec] = .ok d →
      MatchingCoders rawLiblzma.coder e d := by
    rintro enc dec e d - - he hd
    obtain rfl := map_const_eq_ok he
    obtain rfl := map_const_eq_ok hd
    exact markLiblzma_matching
  refine ⟨process, hrun, ?_⟩
  exact (raw_round_trip rawLiblzma_properties rawLiblzma_checks hcoders hrun storeProperties_encoder
    storeProperties_asked hdecoder List.prefix_rfl).2 (by decide) rfl

end Scripts

end PhpExtXz
