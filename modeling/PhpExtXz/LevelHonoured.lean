/-
# PhpExtXz.LevelHonoured — the level that is asked for, and the preset that is taken.

A level is given to `xzencode` and to `xz_encode_init` as an integer, to an open through the mode
string, a context option or an argument. The level of a context option is not checked at all, and the
one in a mode string passes through `strtoul` and an array of 64 bytes.

Which presets a call takes shows in no result; but a library that has only one of them
(`Liblzma.presetOnly`) gives the same result exactly where the others are not taken.
-/
import PhpExtXz.InitOptions
import PhpExtXz.Narrowing
import PhpExtXz.StreamXzopen
import PhpExtXz.Xz

namespace PhpExtXz

open FuelLoop CString

variable {σ ι ρ : Type}

/-! ## Taking a preset -/

/-- The library with no preset but that of one level. -/
def Liblzma.presetOnly (L : Liblzma σ) (asked : Int) : Liblzma σ :=
  { L with lzmaLzmaPreset := fun level =>
      if (level.toNat : Int) = asked then L.lzmaLzmaPreset level else none }

/-- The level asked for is between 0 and 9, and a call takes no preset but that of this level. -/
structure TakesLevel (L : Liblzma σ) (call : Liblzma σ → ρ) (asked : Int) : Prop where
  range : 0 ≤ asked ∧ asked ≤ 9
  only : call (L.presetOnly asked) = call L

theorem presetOnly_self {L : Liblzma σ} {asked : Int} {level : UInt32}
    (h : (level.toNat : Int) = asked) :
    (L.presetOnly asked).lzmaLzmaPreset level = L.lzmaLzmaPreset level := if_pos h

theorem presetOnly_other {L : Liblzma σ} {asked : Int} {level : UInt32}
    (h : (level.toNat : Int) ≠ asked) : (L.presetOnly asked).lzmaLzmaPreset level = none := if_neg h

/-- The cast of a level in range is the level. -/
theorem toNat_castLevel {level : ZendLong} (h : ¬ (level < 0 ∨ level > 9)) :
    (0 ≤ level.toInt ∧ level.toInt ≤ 9) ∧ ((castUInt32 level).toNat : Int) = level.toInt := by
  have hzero : (0 : ZendLong).toInt = 0 := rfl
  have hnine : (9 : ZendLong).toInt = 9 := rfl
  rw [gt_iff_lt, Int64.lt_iff_toInt_lt, Int64.lt_iff_toInt_lt, hzero, hnine] at h
  have hcast := toNat_castUInt32 level
  omega

/-! ## `xzencode` and `xz_encode_init` -/

/-- The level `xzencode` is asked for: its argument, or the INI value where it is -1 or left out. -/
def xzencodeLevel (ini : Ini) (level : Option ZendLong) : ZendLong :=
  if level.getD (-1) = -1 then ini.compressionLevel else level.getD (-1)

theorem phpXzEncodeString_presetOnly (L : Liblzma σ) (fuel : Nat) (data : List UInt8)
    {level : UInt32} (format : UInt32) {asked : Int} (h : (level.toNat : Int) = asked) :
    phpXzEncodeString (L.presetOnly asked) fuel data level format =
      phpXzEncodeString L fuel data level format := by
  unfold phpXzEncodeString
  rw [presetOnly_self h]
  rfl

/-- `xzencode` with a level in range. -/
theorem xzencode_eq (L : Liblzma σ) {ini : Ini} {fuel : Nat} {data : List UInt8}
    {level format : Option ZendLong}
    (hlevel : ¬ (xzencodeLevel ini level < 0 ∨ xzencodeLevel ini level > 9)) :
    xzencode L ini fuel data level format =
      if format.getD XZ_FORMAT_XZ ≠ XZ_FORMAT_XZ ∧ format.getD XZ_FORMAT_XZ ≠ XZ_FORMAT_RAW then
        pure (.valueError 3 "must be XZ_FORMAT_XZ or XZ_FORMAT_RAW")
      else phpXzEncodeString L fuel data (castUInt32 (xzencodeLevel ini level))
        (castUInt32 (format.getD XZ_FORMAT_XZ)) >>= fun out => pure (returnStr out) :=
  if_neg hlevel

theorem xzencode_takesLevel (L : Liblzma σ) (ini : Ini) (fuel : Nat) (data : List UInt8)
    (level format : Option ZendLong) :
    (∃ arg message, xzencode L ini fuel data level format = .ok (.valueError arg message)) ∨
      TakesLevel L (fun L => xzencode L ini fuel data level format)
        (xzencodeLevel ini level).toInt := by
  by_cases hlevel : xzencodeLevel ini level < 0 ∨ xzencodeLevel ini level > 9
  · refine Or.inl ⟨2, "must be between -1 and 9", ?_⟩
    unfold xzencode
    exact if_pos hlevel
  · obtain ⟨hrange, hcast⟩ := toNat_castLevel hlevel
    refine Or.inr ⟨hrange, ?_⟩
    have hstring := phpXzEncodeString_presetOnly L fuel data (castUInt32 (format.getD XZ_FORMAT_XZ)) hcast
    show xzencode (L.presetOnly _) ini fuel data level format = xzencode L ini fuel data level format
    rw [xzencode_eq _ hlevel, xzencode_eq L hlevel, hstring]

theorem xzEncodeInit_takesLevel (L : Liblzma σ) (ini : Ini) (format : Option ZendLong)
    (options : Option Options) :
    (∃ arg message, xzEncodeInit L ini format options = .valueError arg message) ∨
      TakesLevel L (fun L => xzEncodeInit L ini format options)
        (readEncodeOptions ini options).level.toInt := by
  by_cases haccepted : (readEncodeOptions ini options).Accepted
  · obtain ⟨hrange, hcast⟩ := toNat_castLevel haccepted.level
    refine Or.inr ⟨hrange, ?_⟩
    have hpreset : (L.presetOnly (readEncodeOptions ini options).level.toInt).lzmaLzmaPreset
        (castUInt32 (phpXzOptGetLong options "level" ini.compressionLevel)) =
        L.lzmaLzmaPreset (castUInt32 (phpXzOptGetLong options "level" ini.compressionLevel)) :=
      presetOnly_self hcast
    unfold xzEncodeInit
    dsimp only
    rw [hpreset]
    rfl
  · left
    have hcases := xzEncodeInit_cases L ini format options
    generalize xzEncodeInit L ini format options = res at hcases
    cases hcases with
    | badFormat bad => exact ⟨_, _, rfl⟩
    | refused refused => exact ⟨_, _, rfl⟩
    | noPreset accepted missing => exact absurd accepted haccepted
    | notCreated accepted preset_eq error => exact absurd accepted haccepted
    | made good accepted preset_eq created => exact absurd accepted haccepted

/-! ## An open -/

variable {L : Liblzma σ} {layer : StreamLayer ι} {ini : Ini} {path modePass : List UInt8}
  {context : Option XzContext} {self : XzStreamCtx σ ι} {ledger : List OpenEvent}

/-- An open that makes an encoder: its mode is one for writing, the preset is there, and the checks
have passed. -/
theorem phpStreamXzopen_write (hopen : phpStreamXzopen L layer ini path modePass context = (some self, ledger))
    (hwrite : self.isWrite = true) :
    ¬ RefusedEarly ini modePass ∧ isWriteMode (openMode modePass) = true ∧
      ∃ opt, L.lzmaLzmaPreset (castUInt32 (levelUsed ini modePass context)) = some opt := by
  have hcases := phpStreamXzopen_cases L layer ini path modePass context
  have hsome : (phpStreamXzopen L layer ini path modePass context).1 = some self := by rw [hopen]
  generalize phpStreamXzopen L layer ini path modePass context = res at hsome hcases
  cases hcases with
  | refused early => cases hsome
  | notOpened checked unprepared => cases hsome
  | notCast checked unprepared => cases hsome
  | notAllocated checked unprepared => cases hsome
  | initialised checked prepared =>
    refine ⟨checked, ?_⟩
    unfold initCoder at hsome
    split at hsome
    · refine ⟨‹_›, ?_⟩
      match hpreset : L.lzmaLzmaPreset (castUInt32 (levelUsed ini modePass context)) with
      | some opt => exact ⟨opt, rfl⟩
      | none =>
        simp only [phpXzInitEncoder, phpXzEncoderInitStream, hpreset, Option.map_none] at hsome
        cases hsome
    · split at hsome
      · -- a read stream is not a write stream
        split at hsome
        · cases hsome
        · rename_i hdec
          obtain ⟨s, -, hs⟩ := Option.map_eq_some_iff.mp hdec
          obtain rfl := Option.some.inj hsome
          rw [← hs] at hwrite
          cases hwrite
      · cases hsome

/-- What an open takes from the presets is the one at the level it uses. -/
theorem phpStreamXzopen_presetOnly (L : Liblzma σ) {asked : Int}
    (h : ((castUInt32 (levelUsed ini modePass context)).toNat : Int) = asked) :
    phpStreamXzopen (L.presetOnly asked) layer ini path modePass context =
      phpStreamXzopen L layer ini path modePass context := by
  have hinit : ∀ inner : ι,
      initCoder (L.presetOnly asked) (openMode modePass) (levelUsed ini modePass context)
        (memUsed ini context) inner =
      initCoder L (openMode modePass) (levelUsed ini modePass context) (memUsed ini context) inner := by
    intro inner
    unfold initCoder phpXzInitEncoder phpXzEncoderInitStream
    rw [presetOnly_self h]
    rfl
  unfold levelUsed memUsed at hinit
  unfold phpStreamXzopen
  simp only [hinit]

theorem phpStreamXzopen_takesLevel
    (hopen : phpStreamXzopen L layer ini path modePass context = (some self, ledger))
    (hwrite : self.isWrite = true) (asked : Int) :
    TakesLevel L (fun L => phpStreamXzopen L layer ini path modePass context) asked ↔
      (0 ≤ asked ∧ asked ≤ 9) ∧
        ((castUInt32 (levelUsed ini modePass context)).toNat : Int) = asked := by
  constructor
  · rintro ⟨hrange, honly⟩
    refine ⟨hrange, ?_⟩
    by_contra hne
    -- without the preset no encoder is made
    obtain ⟨-, -, opt, hpreset⟩ := phpStreamXzopen_write (honly.trans hopen) hwrite
    rw [presetOnly_other hne] at hpreset
    cases hpreset
  · rintro ⟨hrange, heq⟩
    exact ⟨hrange, phpStreamXzopen_presetOnly L heq⟩

/-! ## The level asked for in an open -/

/-- The level an open is asked for: the context option, else the integer behind the colon of the mode
string, else `fallback`. -/
def askedLevel (fallback : ZendLong) (mode : List UInt8) (context : Option XzContext) : Int :=
  match context.bind (·.compressionLevel) with
  | some level => level.toInt
  | none => ((after COLON (cString mode)).bind leadingInt).getD fallback.toInt

/-- A context option is in range. The integer behind the colon is not negative, and it is not changed
by the cut to 63 bytes; where there is a colon and no integer behind it, what counts is a 0. -/
def LevelExact (fallback : ZendLong) (mode : List UInt8) (context : Option XzContext) : Prop :=
  match context.bind (·.compressionLevel) with
  | some level => 0 ≤ level.toInt ∧ level.toInt ≤ 9
  | none => ∀ suffix, after COLON (cString mode) = some suffix →
    match leadingInt suffix with
    | none => fallback.toInt = 0
    | some n => 0 ≤ n ∧ ((after COLON (modeArray mode)).bind leadingInt).getD 0 = n

/-! ### The mode string and its array -/

theorem length_writeMode {mode : List UInt8} (h : isWriteMode mode = true) : mode.length ≤ 2 := by
  unfold isWriteMode at h
  rcases of_decide_eq_true h with rfl | rfl
  · decide
  · decide

variable {mode pre suffix : List UInt8}

/-- The array of a mode string that has its colon among the first 63 bytes. -/
theorem modeArray_split (h : cString mode = pre ++ COLON :: suffix) (hpre : COLON ∉ pre)
    (hlen : pre.length ≤ 62) :
    openMode mode = pre ∧
      after COLON (modeArray mode) = some (suffix.take (62 - pre.length)) := by
  have harray : modeArray mode = pre ++ COLON :: suffix.take (62 - pre.length) := by
    obtain ⟨k, hk⟩ : ∃ k, 63 - pre.length = k + 1 := ⟨62 - pre.length, by omega⟩
    have hk' : k = 62 - pre.length := by omega
    rw [modeArray, h, List.take_append, List.take_of_length_le (by omega), hk, List.take_succ_cons, hk']
  unfold openMode
  rw [harray]
  exact ⟨before_append hpre, after_append hpre⟩

/-- The mode before the colon is short where the open is one for writing. -/
theorem length_pre (h : cString mode = pre ++ COLON :: suffix) (hpre : COLON ∉ pre)
    (hwrite : isWriteMode (openMode mode) = true) : pre.length ≤ 2 := by
  have hshort := length_writeMode hwrite
  by_cases hlen : pre.length ≤ 62
  · rwa [(modeArray_split h hpre hlen).1] at hshort
  · -- the array ends before the colon, and all of it is the mode
    have harray : modeArray mode = pre.take 63 := by
      rw [modeArray, h, List.take_append_of_le_length (by omega)]
    have hmode : openMode mode = pre.take 63 := by
      rw [openMode, harray, before_of_not_mem fun hmem => hpre (List.mem_of_mem_take hmem)]
    rw [hmode, List.length_take] at hshort
    omega

theorem modeLevel_split (h : cString mode = pre ++ COLON :: suffix) (hpre : COLON ∉ pre)
    (hlen : pre.length ≤ 62) :
    modeLevel ini mode = (strtoul (suffix.take (62 - pre.length))).toInt64 := by
  unfold modeLevel
  rw [(modeArray_split h hpre hlen).2]

theorem modeLevel_plain (h : COLON ∉ cString mode) : modeLevel ini mode = ini.compressionLevel := by
  have harray : COLON ∉ modeArray mode := fun hmem => h (List.mem_of_mem_take hmem)
  unfold modeLevel
  rw [after_of_not_mem harray]

/-! ### Both ways to open -/

/-- The level of a mode string with a colon is the one asked for exactly where it is `LevelExact`. -/
theorem modeLevel_iff {fallback : ZendLong} (hcontext : context.bind (·.compressionLevel) = none)
    (h : cString mode = pre ++ COLON :: suffix) (hpre : COLON ∉ pre) (hlen : pre.length ≤ 62)
    (hlong : 0 ≤ (strtoul (suffix.take (62 - pre.length))).toInt64.toInt) :
    (strtoul (suffix.take (62 - pre.length))).toInt64.toInt = askedLevel fallback mode context ↔
      LevelExact fallback mode context := by
  have hcut := strtoul_cut_iff (suffix.drop (62 - pre.length)) fallback.toInt hlong
  rw [List.take_append_drop] at hcut
  have hafter : after COLON (cString mode) = some suffix := by rw [h, after_append hpre]
  have hasked : askedLevel fallback mode context = (leadingInt suffix).getD fallback.toInt := by
    rw [askedLevel, hcontext, hafter]
    rfl
  rw [hasked, hcut, LevelExact, hcontext, hafter, (modeArray_split h hpre hlen).2]
  constructor
  · intro hexact suffix' heq
    obtain rfl := Option.some.inj heq
    exact hexact
  · intro hexact
    exact hexact suffix rfl

/-- Without a colon there is nothing to change. -/
theorem levelExact_plain {fallback : ZendLong} (hcontext : context.bind (·.compressionLevel) = none)
    (h : COLON ∉ cString mode) :
    askedLevel fallback mode context = fallback.toInt ∧ LevelExact fallback mode context := by
  rw [askedLevel, LevelExact, hcontext, after_of_not_mem h]
  exact ⟨rfl, fun suffix hsuffix => by cases hsuffix⟩

/-- **The wrapper's open** takes the level asked for exactly where it is `LevelExact`. -/
theorem phpStreamXzopen_level_iff
    (hopen : phpStreamXzopen L layer ini path modePass context = (some self, ledger))
    (hwrite : self.isWrite = true) :
    TakesLevel L (fun L => phpStreamXzopen L layer ini path modePass context)
        (askedLevel ini.compressionLevel modePass context) ↔
      LevelExact ini.compressionLevel modePass context := by
  obtain ⟨hchecked, hmode, -⟩ := phpStreamXzopen_write hopen hwrite
  rw [phpStreamXzopen_takesLevel hopen hwrite]
  obtain ⟨hrange, hcast⟩ := toNat_castLevel fun h => hchecked (Or.inr h)
  cases hcontext : context.bind (·.compressionLevel) with
  | some level =>
    -- the option of the context: only its range matters
    have hlevel := toNat_castUInt32 level
    have hasked : askedLevel ini.compressionLevel modePass context = level.toInt := by
      rw [askedLevel, hcontext]
    have hused : levelUsed ini modePass context = level := by rw [levelUsed, hcontext, Option.getD_some]
    rw [hasked, hused, LevelExact, hcontext]
    show _ ↔ 0 ≤ level.toInt ∧ level.toInt ≤ 9
    omega
  | none =>
    have hused : levelUsed ini modePass context = modeLevel ini modePass := by
      rw [levelUsed, hcontext, Option.getD_none]
    rw [hused, hcast]
    by_cases hcolon : COLON ∈ cString modePass
    · obtain ⟨pre, suffix, hsplit, hpre⟩ := List.eq_append_cons_of_mem hcolon
      have hlen : pre.length ≤ 62 := (length_pre hsplit hpre hmode).trans (by decide)
      rw [modeLevel_split hsplit hpre hlen] at hrange ⊢
      rw [← modeLevel_iff hcontext hsplit hpre hlen hrange.1]
      omega
    · obtain ⟨hasked, hexact⟩ := levelExact_plain hcontext hcolon
      rw [modeLevel_plain hcolon] at hrange ⊢
      rw [hasked]
      exact ⟨fun _ => hexact, fun _ => ⟨hrange, rfl⟩⟩

/-- What is printed behind another colon does not change the integer before it, cut or not. -/
theorem leadingInt_take (suffix printed : List UInt8) (n : Nat) :
    leadingInt ((suffix ++ COLON :: printed).take n) = leadingInt (suffix.take n) := by
  by_cases hn : n ≤ suffix.length
  · rw [List.take_append_of_le_length hn]
  · obtain ⟨k, hk⟩ : ∃ k, n - suffix.length = k + 1 := ⟨n - suffix.length - 1, by omega⟩
    rw [List.take_append, hk, List.take_succ_cons]
    exact leadingInt_append (by decide) (by decide) (by decide) (by decide) _ _

/-- **`xzopen`** takes the level asked for exactly where it is `LevelExact`, with its argument in the
place of the INI value. -/
theorem xzopen_level_iff {level : Option ZendLong}
    (hopen : xzopen L layer ini path mode level = (some self, ledger)) (hwrite : self.isWrite = true) :
    TakesLevel L (fun L => xzopen L layer ini path mode level)
        (askedLevel (level.getD ini.compressionLevel) mode none) ↔
      LevelExact (level.getD ini.compressionLevel) mode none := by
  obtain ⟨hchecked, hmode, -⟩ := phpStreamXzopen_write hopen hwrite
  show TakesLevel L (fun L => phpStreamXzopen L layer ini path _ none) _ ↔ _
  rw [phpStreamXzopen_takesLevel hopen hwrite]
  obtain ⟨hrange, hcast⟩ := toNat_castLevel fun h => hchecked (Or.inr h)
  obtain ⟨lvl, hlvl⟩ : ∃ lvl, level.getD ini.compressionLevel = lvl := ⟨_, rfl⟩
  rw [hlvl] at hmode hrange hcast ⊢
  show (_ ∧ ((castUInt32 (modeLevel ini _)).toNat : Int) = _) ↔ _
  rw [hcast]
  have hprinted : cString (cString mode ++ COLON :: decimal lvl.toInt) =
      cString mode ++ COLON :: decimal lvl.toInt := by
    apply before_of_not_mem
    rw [List.mem_append, List.mem_cons]
    rintro (h | h | h)
    · exact not_mem_before h
    · exact absurd h (by decide)
    · exact zero_not_mem_decimal _ h
  by_cases hcolon : COLON ∈ cString mode
  · -- the mode brings a colon of its own
    obtain ⟨pre, suffix, hsplit, hpre⟩ := List.eq_append_cons_of_mem hcolon
    have hpassed : cString (cString mode ++ COLON :: decimal lvl.toInt) =
        pre ++ COLON :: (suffix ++ COLON :: decimal lvl.toInt) := by
      rw [hprinted, hsplit, List.append_assoc, List.cons_append]
    have hlen : pre.length ≤ 62 := (length_pre hpassed hpre hmode).trans (by decide)
    rw [modeLevel_split hpassed hpre hlen, strtoul_congr (leadingInt_take _ _ _)] at hrange ⊢
    rw [← modeLevel_iff rfl hsplit hpre hlen hrange.1]
    omega
  · -- the level is printed behind the only colon, and is not cut
    have hlen : (cString mode).length ≤ 2 := length_pre hprinted hcolon hmode
    have hbelow := lvl.toInt_lt
    have habove := lvl.le_toInt
    have hwhole : (decimal lvl.toInt).length ≤ 62 - (cString mode).length := by
      have := length_decimal (n := lvl.toInt) (by omega)
      omega
    obtain ⟨hasked, hexact⟩ : askedLevel lvl mode none = lvl.toInt ∧ LevelExact lvl mode none :=
      levelExact_plain rfl hcolon
    rw [modeLevel_split hprinted hcolon (by omega), List.take_of_length_le hwhole,
      toInt_strtoul (leadingInt_decimal _) (by omega) (Or.inl (by omega))] at hrange ⊢
    rw [hasked]
    exact ⟨fun _ => hexact, fun _ => ⟨hrange, rfl⟩⟩

/-! ## All the ways to give a level -/

/-- **The level that reaches an encoder** is the one asked for in `xzencode` and `xz_encode_init`, and
in an open for writing exactly where it is `LevelExact`. -/
theorem level_reaches_iff (L : Liblzma σ) (layer : StreamLayer ι) (ini : Ini) :
    (∀ fuel data level format,
      (∃ arg message, xzencode L ini fuel data level format = .ok (.valueError arg message)) ∨
        TakesLevel L (fun L => xzencode L ini fuel data level format)
          (xzencodeLevel ini level).toInt) ∧
    (∀ format options,
      (∃ arg message, xzEncodeInit L ini format options = .valueError arg message) ∨
        TakesLevel L (fun L => xzEncodeInit L ini format options)
          (readEncodeOptions ini options).level.toInt) ∧
    (∀ path modePass context self ledger,
      phpStreamXzopen L layer ini path modePass context = (some self, ledger) → self.isWrite = true →
        (TakesLevel L (fun L => phpStreamXzopen L layer ini path modePass context)
          (askedLevel ini.compressionLevel modePass context) ↔
            LevelExact ini.compressionLevel modePass context)) ∧
    ∀ filename mode level self ledger,
      xzopen L layer ini filename mode level = (some self, ledger) → self.isWrite = true →
        (TakesLevel L (fun L => xzopen L layer ini filename mode level)
          (askedLevel (level.getD ini.compressionLevel) mode none) ↔
            LevelExact (level.getD ini.compressionLevel) mode none) :=
  ⟨xzencode_takesLevel L ini, xzEncodeInit_takesLevel L ini,
    fun _ _ _ _ _ hopen hwrite => phpStreamXzopen_level_iff hopen hwrite,
    fun _ _ _ _ _ hopen hwrite => xzopen_level_iff hopen hwrite⟩

/-! ### A context option out of range -/

/-- A context with the level `2 ^ 32 + 5`. -/
def farLevel : Option XzContext := some { compressionLevel := some 0x100000005 }

/-- The stream and the ledger of an open for writing. -/
theorem farLevel_opens :
    ∃ self ledger, phpStreamXzopen copyLiblzma plainLayer {} (bytes ['f']) (bytes ['w']) farLevel =
      (some self, ledger) ∧ self.isWrite = true ∧ .preset 5 true ∈ ledger :=
  ⟨_, _, rfl, rfl, by decide⟩

theorem farArgument_opens :
    ∃ self ledger, xzopen copyLiblzma plainLayer {} (bytes ['f']) (bytes ['w', ':']) (some 7) =
      (some self, ledger) ∧ self.isWrite = true ∧ .preset 0 true ∈ ledger :=
  ⟨_, _, rfl, rfl, by decide⟩

theorem level_reaches_iff_far :
    (TakesLevel copyLiblzma
      (fun L => phpStreamXzopen L plainLayer {} (bytes ['f']) (bytes ['w']) farLevel)
      (askedLevel 5 (bytes ['w']) farLevel) ↔ LevelExact 5 (bytes ['w']) farLevel) ∧
    (TakesLevel copyLiblzma (fun L => xzopen L plainLayer {} (bytes ['f']) (bytes ['w', ':']) (some 7))
      (askedLevel 7 (bytes ['w', ':']) none) ↔ LevelExact 7 (bytes ['w', ':']) none) := by
  obtain ⟨-, -, hopen, hxzopen⟩ := level_reaches_iff copyLiblzma plainLayer {}
  obtain ⟨self, ledger, hfar, hwrite, -⟩ := farLevel_opens
  obtain ⟨self', ledger', hfar', hwrite', -⟩ := farArgument_opens
  exact ⟨hopen _ _ _ self ledger hfar hwrite, hxzopen _ _ _ self' ledger' hfar' hwrite'⟩

/-- The level `2 ^ 32 + 5` of a context option becomes the preset of level 5, and the argument 7 behind
the mode `w:` that of level 0. -/
theorem level_lost :
    (∃ self ledger, phpStreamXzopen copyLiblzma plainLayer {} (bytes ['f']) (bytes ['w']) farLevel =
        (some self, ledger) ∧ self.isWrite = true ∧ .preset 5 true ∈ ledger) ∧
      ¬ TakesLevel copyLiblzma
        (fun L => phpStreamXzopen L plainLayer {} (bytes ['f']) (bytes ['w']) farLevel)
        (askedLevel 5 (bytes ['w']) farLevel) ∧
    (∃ self ledger, xzopen copyLiblzma plainLayer {} (bytes ['f']) (bytes ['w', ':']) (some 7) =
        (some self, ledger) ∧ self.isWrite = true ∧ .preset 0 true ∈ ledger) ∧
      ¬ TakesLevel copyLiblzma
        (fun L => xzopen L plainLayer {} (bytes ['f']) (bytes ['w', ':']) (some 7))
        (askedLevel 7 (bytes ['w', ':']) none) := by
  refine ⟨farLevel_opens, ?_, farArgument_opens, ?_⟩
  · intro h
    exact absurd h.range (by decide)
  · intro h
    obtain ⟨self, ledger, hopen, hwrite, -⟩ := farArgument_opens
    have hexact : LevelExact 7 (bytes ['w', ':']) none := (xzopen_level_iff hopen hwrite).mp h
    have hzero : (7 : ZendLong).toInt = 0 := hexact [] rfl
    exact absurd hzero (by decide)

end PhpExtXz
