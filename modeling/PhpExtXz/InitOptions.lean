/-
# PhpExtXz.InitOptions — what the init functions make of their options.

`xzEncodeInit` and `xzDecodeInit` read their options into 64-bit integers, check them, narrow them to
the fields of liblzma and create a coder. `EncodeInit` and `DecodeInit` say once what can come of it.

What a coder was created with shows in no result. A library that keeps the call beside the coder
(`Liblzma.recorded`) makes it visible in the context: the program cannot tell the difference.
-/
import PhpExtXz.XzEncodeContext
import PhpExtXz.XzDecodeContext

namespace PhpExtXz

variable {σ : Type}

/-! ## The options as they are read -/

/-- The variables `xz_encode_init` reads its options into. -/
structure EncodeOptions where
  check : ZendLong
  level : ZendLong
  filterId : ZendLong
  dictSize : ZendLong
  lc : ZendLong
  lp : ZendLong
  pb : ZendLong

/-- The variables `xz_decode_init` reads its options into. -/
structure DecodeOptions where
  flags : ZendLong
  memoryLimit : ZendLong
  filterId : ZendLong
  dictSize : ZendLong
  lc : ZendLong
  lp : ZendLong
  pb : ZendLong

/-- What `xz_encode_init` works with: an option where it is given, else the INI value or the default. -/
def readEncodeOptions (ini : Ini) (options : Option Options) : EncodeOptions where
  check := phpXzOptGetLong options "check" LZMA_CHECK_CRC64.toUInt64.toInt64
  level := phpXzOptGetLong options "level" ini.compressionLevel
  filterId := phpXzOptGetLong options "filter" LZMA_FILTER_LZMA2.toInt64
  dictSize := phpXzOptGetLong options "dict_size" 0
  lc := phpXzOptGetLong options "lc" (-1)
  lp := phpXzOptGetLong options "lp" (-1)
  pb := phpXzOptGetLong options "pb" (-1)

/-- What `xz_decode_init` works with. -/
def readDecodeOptions (ini : Ini) (options : Option Options) : DecodeOptions where
  flags := phpXzOptGetLong options "flags" 0
  memoryLimit := phpXzOptGetLong options "memory_limit" ini.maxMemory
  filterId := phpXzOptGetLong options "filter" LZMA_FILTER_LZMA2.toInt64
  dictSize := phpXzOptGetLong options "dict_size" 0
  lc := phpXzOptGetLong options "lc" (-1)
  lp := phpXzOptGetLong options "lp" (-1)
  pb := phpXzOptGetLong options "pb" (-1)

/-- The options pass the checks of `xz_encode_init`. -/
structure EncodeOptions.Accepted (o : EncodeOptions) : Prop where
  level : ¬ (o.level < 0 ∨ o.level > 9)
  check : isValidCheck (castUInt32 o.check) = true
  filter : isValidFilter o.filterId = true
  params : xzEncodeValidateLzmaParams o.lc o.lp o.pb o.dictSize = true

/-- The options pass the checks of `xz_decode_init`. -/
structure DecodeOptions.Accepted (o : DecodeOptions) : Prop where
  filter : isValidFilter o.filterId = true
  params : xzDecodeValidateLzmaParams o.lc o.lp o.pb o.dictSize = true

/-- The filter an encode context is made with. -/
def EncodeOptions.filter (o : EncodeOptions) (format : ZendLong) (preset : LzmaOptionsLzma) :
    LzmaFilter where
  id := if format = XZ_FORMAT_XZ then LZMA_FILTER_LZMA2 else castUInt64 o.filterId
  options := overlayLzmaParams preset o.dictSize o.lc o.lp o.pb

/-- The filter a raw decode context is made with. -/
def DecodeOptions.filter (o : DecodeOptions) (preset : LzmaOptionsLzma) : LzmaFilter where
  id := castUInt64 o.filterId
  options := overlayLzmaParams preset o.dictSize o.lc o.lp o.pb

/-- Options that are accepted name a filter the extension knows. -/
theorem EncodeOptions.Accepted.known {o : EncodeOptions} (h : o.Accepted) (format : ZendLong)
    (preset : LzmaOptionsLzma) : (o.filter format preset).Known := by
  have hvalid := h.filter
  simp only [isValidFilter, decide_eq_true_eq] at hvalid
  by_cases hxz : format = XZ_FORMAT_XZ
  · exact Or.inr (if_pos hxz)
  · exact hvalid.imp (if_neg hxz).trans (if_neg hxz).trans

theorem DecodeOptions.Accepted.known {o : DecodeOptions} (h : o.Accepted) (preset : LzmaOptionsLzma) :
    (o.filter preset).Known := by
  have hvalid := h.filter
  simp only [isValidFilter, decide_eq_true_eq] at hvalid
  exact hvalid

/-- The encoder `xz_encode_init` creates. -/
def createEncoder (L : Liblzma σ) (format : ZendLong) (filter : LzmaFilter) (check : UInt32) :
    Except LzmaRet σ :=
  if format = XZ_FORMAT_RAW then L.lzmaRawEncoder [filter] else L.lzmaStreamEncoder [filter] check

/-- A coder that was created with something kept beside it. -/
theorem map_pair_eq_ok {α : Type} {x : Except LzmaRet σ} {a : α} {p : σ × α}
    (h : x.map (·, a) = .ok p) : x = .ok p.1 ∧ p.2 = a := by
  cases x with
  | error e => cases h
  | ok s =>
    cases h
    exact ⟨rfl, rfl⟩

theorem toOption_eq_some {x : Except LzmaRet σ} {s : σ} (h : x.toOption = some s) : x = .ok s := by
  cases x with
  | error e => cases h
  | ok s' =>
    cases h
    rfl

/-! ## What the init functions do -/

/-- **What `xz_encode_init` can do** with the format and the options as they are read. -/
inductive EncodeInit (L : Liblzma σ) (format : ZendLong) (o : EncodeOptions) :
    PhpReturn (XzEncodeContext σ) → Prop
  | badFormat {message : String} (bad : format ≠ XZ_FORMAT_XZ ∧ format ≠ XZ_FORMAT_RAW) :
      EncodeInit L format o (.valueError 1 message)
  | refused {message : String} (refused : ¬ o.Accepted) :
      EncodeInit L format o (.valueError 2 message)
  | noPreset (accepted : o.Accepted) (missing : L.lzmaLzmaPreset (castUInt32 o.level) = none) :
      EncodeInit L format o (.returnFalse none)
  | notCreated {preset : LzmaOptionsLzma} {e : LzmaRet} (accepted : o.Accepted)
      (preset_eq : L.lzmaLzmaPreset (castUInt32 o.level) = some preset)
      (error : createEncoder L format (o.filter format preset) (castUInt32 o.check) = .error e) :
      EncodeInit L format o (.returnFalse none)
  | made {preset : LzmaOptionsLzma} {s : σ} (good : ¬ (format ≠ XZ_FORMAT_XZ ∧ format ≠ XZ_FORMAT_RAW))
      (accepted : o.Accepted)
      (preset_eq : L.lzmaLzmaPreset (castUInt32 o.level) = some preset)
      (created : createEncoder L format (o.filter format preset) (castUInt32 o.check) = .ok s) :
      EncodeInit L format o (.value
        { strm := .init s, status := .ok, filterId := (o.filter format preset).id,
          opt := (o.filter format preset).options, format := castUInt32 format,
          check := castUInt32 o.check })

theorem passed {b : Bool} (h : ¬ (!b) = true) : b = true := by
  simpa using h

theorem not_passed {b : Bool} (h : (!b) = true) : b ≠ true := by
  simpa using h

theorem xzEncodeInit_cases (L : Liblzma σ) (ini : Ini) (format : Option ZendLong)
    (options : Option Options) :
    EncodeInit L (format.getD XZ_FORMAT_XZ) (readEncodeOptions ini options)
      (xzEncodeInit L ini format options) := by
  dsimp only [xzEncodeInit]
  split
  · exact .badFormat ‹_›
  · rename_i hgood
    split
    · exact .refused fun h => h.level ‹_›
    · rename_i hlevel
      split
      · exact .refused fun h => not_passed ‹_› h.check
      · rename_i hcheck
        split
        · exact .refused fun h => not_passed ‹_› h.filter
        · rename_i hfilter
          split
          · exact .refused fun h => not_passed ‹_› h.params
          · rename_i hparams
            -- every check has passed
            have haccepted : (readEncodeOptions ini options).Accepted :=
              ⟨hlevel, passed hcheck, passed hfilter, passed hparams⟩
            split
            · exact .noPreset haccepted ‹_›
            · rename_i preset hpreset
              split
              · exact .notCreated haccepted hpreset ‹_›
              · exact .made hgood haccepted hpreset ‹_›

/-- **What `xz_decode_init` can do** with the format and the options as they are read. -/
inductive DecodeInit (L : Liblzma σ) (format : ZendLong) (o : DecodeOptions) :
    PhpReturn (XzDecodeContext σ) → Prop
  | badFormat {message : String} (bad : format ≠ XZ_FORMAT_XZ ∧ format ≠ XZ_FORMAT_RAW) :
      DecodeInit L format o (.valueError 1 message)
  | refused {message : String} (refused : ¬ o.Accepted) :
      DecodeInit L format o (.valueError 2 message)
  | notCreated (accepted : o.Accepted)
      (missing : createDecoder L format o.flags o.memoryLimit o.filterId o.dictSize o.lc o.lp o.pb =
        none) : DecodeInit L format o (.returnFalse none)
  | made {s : σ} (good : ¬ (format ≠ XZ_FORMAT_XZ ∧ format ≠ XZ_FORMAT_RAW)) (accepted : o.Accepted)
      (created : createDecoder L format o.flags o.memoryLimit o.filterId o.dictSize o.lc o.lp o.pb =
        some s) :
      DecodeInit L format o
        (.value { strm := .init s, status := .ok, format := castUInt32 format })

theorem xzDecodeInit_cases (L : Liblzma σ) (ini : Ini) (format : Option ZendLong)
    (options : Option Options) :
    DecodeInit L (format.getD XZ_FORMAT_XZ) (readDecodeOptions ini options)
      (xzDecodeInit L ini format options) := by
  dsimp only [xzDecodeInit]
  split
  · exact .badFormat ‹_›
  · rename_i hgood
    split
    · exact .refused fun h => not_passed ‹_› h.filter
    · rename_i hfilter
      split
      · exact .refused fun h => not_passed ‹_› h.params
      · rename_i hparams
        have haccepted : (readDecodeOptions ini options).Accepted :=
          ⟨passed hfilter, passed hparams⟩
        split
        · exact .notCreated haccepted ‹_›
        · exact .made hgood haccepted ‹_›

variable {L : Liblzma σ} {ini : Ini} {format : Option ZendLong} {options : Option Options}

/-- A context is new: its coder has just been created. -/
theorem xzEncodeInit_value {obj : XzEncodeContext σ}
    (h : xzEncodeInit L ini format options = .value obj) :
    (readEncodeOptions ini options).Accepted ∧ ∃ preset s,
      L.lzmaLzmaPreset (castUInt32 (readEncodeOptions ini options).level) = some preset ∧
      createEncoder L (format.getD XZ_FORMAT_XZ)
        ((readEncodeOptions ini options).filter (format.getD XZ_FORMAT_XZ) preset)
        (castUInt32 (readEncodeOptions ini options).check) = .ok s ∧
      obj.strm = .init s ∧ obj.status = .ok ∧
      obj.check = castUInt32 (readEncodeOptions ini options).check := by
  have hcases := xzEncodeInit_cases L ini format options
  rw [h] at hcases
  cases hcases with
  | made good accepted preset_eq created => exact ⟨accepted, _, _, preset_eq, created, rfl, rfl, rfl⟩

theorem xzDecodeInit_value {obj : XzDecodeContext σ}
    (h : xzDecodeInit L ini format options = .value obj) :
    (readDecodeOptions ini options).Accepted ∧ ∃ s,
      createDecoder L (format.getD XZ_FORMAT_XZ) (readDecodeOptions ini options).flags
        (readDecodeOptions ini options).memoryLimit (readDecodeOptions ini options).filterId
        (readDecodeOptions ini options).dictSize (readDecodeOptions ini options).lc
        (readDecodeOptions ini options).lp (readDecodeOptions ini options).pb = some s ∧
      obj.strm = .init s := by
  have hcases := xzDecodeInit_cases L ini format options
  rw [h] at hcases
  cases hcases with
  | made good accepted created => exact ⟨accepted, _, created, rfl⟩

/-! ## The call that created a coder -/

/-- A call of liblzma that creates a coder, with its arguments. -/
inductive InitCall where
  | streamEncoder (filters : List LzmaFilter) (check : UInt32)
  | rawEncoder (filters : List LzmaFilter)
  | autoDecoder (memlimit : UInt64) (flags : UInt32)
  | rawDecoder (filters : List LzmaFilter)
  deriving DecidableEq

/-- A library whose coders keep the call that created them beside their state. -/
def Liblzma.recorded (L : Liblzma σ) : Liblzma (σ × InitCall) where
  coder :=
    { code s action input room :=
        let r := L.coder.code s.1 action input room
        ⟨r.ret, r.taken, r.emitted, (r.state, s.2)⟩
      taken_le s action input room := L.coder.taken_le s.1 action input room
      emitted_le s action input room := L.coder.emitted_le s.1 action input room }
  lzmaLzmaPreset := L.lzmaLzmaPreset
  lzmaStreamEncoder filters check :=
    (L.lzmaStreamEncoder filters check).map (·, .streamEncoder filters check)
  lzmaRawEncoder filters := (L.lzmaRawEncoder filters).map (·, .rawEncoder filters)
  lzmaAutoDecoder memlimit flags := (L.lzmaAutoDecoder memlimit flags).map (·, .autoDecoder memlimit flags)
  lzmaRawDecoder filters := (L.lzmaRawDecoder filters).map (·, .rawDecoder filters)
  lzmaPropertiesSize := L.lzmaPropertiesSize
  lzmaPropertiesEncode := L.lzmaPropertiesEncode

/-- The call that created the coder of an encode context. -/
def XzEncodeContext.createdBy (obj : XzEncodeContext (σ × InitCall)) : InitCall := obj.strm.internal.2

/-- The call that created the coder of a decode context. -/
def XzDecodeContext.createdBy (obj : XzDecodeContext (σ × InitCall)) : InitCall := obj.strm.internal.2

/-- The call of `createEncoder`. -/
def encoderCall (format : ZendLong) (filter : LzmaFilter) (check : UInt32) : InitCall :=
  if format = XZ_FORMAT_RAW then .rawEncoder [filter] else .streamEncoder [filter] check

theorem xzEncodeInit_createdBy {obj : XzEncodeContext (σ × InitCall)}
    (h : xzEncodeInit L.recorded ini format options = .value obj) :
    (readEncodeOptions ini options).Accepted ∧
      obj.check = castUInt32 (readEncodeOptions ini options).check ∧ ∃ preset,
      L.lzmaLzmaPreset (castUInt32 (readEncodeOptions ini options).level) = some preset ∧
      obj.createdBy = encoderCall (format.getD XZ_FORMAT_XZ)
        ((readEncodeOptions ini options).filter (format.getD XZ_FORMAT_XZ) preset)
        (castUInt32 (readEncodeOptions ini options).check) := by
  obtain ⟨haccepted, preset, s, hpreset, hcreate, hstrm, -, hcheck⟩ := xzEncodeInit_value h
  refine ⟨haccepted, hcheck, preset, hpreset, ?_⟩
  rw [XzEncodeContext.createdBy, hstrm]
  unfold createEncoder at hcreate
  unfold encoderCall
  split at hcreate
  · rw [if_pos ‹_›]
    exact (map_pair_eq_ok hcreate).2
  · rw [if_neg ‹_›]
    exact (map_pair_eq_ok hcreate).2

theorem xzDecodeInit_createdBy {obj : XzDecodeContext (σ × InitCall)}
    (h : xzDecodeInit L.recorded ini format options = .value obj) :
    (readDecodeOptions ini options).Accepted ∧
      if format.getD XZ_FORMAT_XZ = XZ_FORMAT_RAW then
        ∃ preset, L.lzmaLzmaPreset 6 = some preset ∧
          obj.createdBy = .rawDecoder [(readDecodeOptions ini options).filter preset]
      else
        obj.createdBy =
          .autoDecoder (memoryLimitOrMax (castUInt64 (readDecodeOptions ini options).memoryLimit))
            (castUInt32 (readDecodeOptions ini options).flags) := by
  obtain ⟨haccepted, s, hcreate, hstrm⟩ := xzDecodeInit_value h
  refine ⟨haccepted, ?_⟩
  rw [XzDecodeContext.createdBy, hstrm]
  unfold createDecoder at hcreate
  split at hcreate
  · rw [if_pos ‹_›]
    split at hcreate
    · cases hcreate
    · rename_i preset hpreset
      exact ⟨preset, hpreset, (map_pair_eq_ok (toOption_eq_some hcreate)).2⟩
  · rw [if_neg ‹_›]
    exact (map_pair_eq_ok (toOption_eq_some hcreate)).2

end PhpExtXz
