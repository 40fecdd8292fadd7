/-
# PhpExtXz.XzEncodeContext — `xz_encode_context.c`: incremental encoding.

`xzEncodeInit`, `xzEncodeAdd`, `xzEncodeFinish` and `xzEncodeGetProperties` are the four PHP
functions on an `XZEncodeContext`.

`xzEncodeAdd_spec` and `xzEncodeFinish_spec` say what they do on a healthy encoder: an added chunk is
taken whole, and finishing completes the encoding of all that was added.
-/
import PhpExtXz.ContextProcess
import PhpExtXz.XzOptions

namespace PhpExtXz

open FuelLoop

variable {σ : Type}

/-! ## The context object -/

/-- `php_xz_encode_context_obj`; its `filter` is `filterId` together with `opt`. -/
structure XzEncodeContext (σ : Type) where
  strm : LzmaStream σ
  status : LzmaRet
  filterId : UInt64
  opt : LzmaOptionsLzma
  format : UInt32
  check : UInt32

/-- `obj->filter`. -/
def XzEncodeContext.filter (obj : XzEncodeContext σ) : LzmaFilter := ⟨obj.filterId, obj.opt⟩

/-- `valid_checks`. -/
def validChecks : List UInt32 :=
  [LZMA_CHECK_NONE, LZMA_CHECK_CRC32, LZMA_CHECK_CRC64, LZMA_CHECK_SHA256]

/-- `is_valid_check(check)`. -/
def isValidCheck (check : UInt32) : Bool := validChecks.any (check == ·)

/-- `xz_encode_validate_lzma_params(lc, lp, pb, dict_size)`. -/
def xzEncodeValidateLzmaParams (lc lp pb dictSize : ZendLong) : Bool :=
  validateLzmaParams lc lp pb dictSize

/-- `xz_encode_init(format, options)`; `none` is an argument left out. -/
def xzEncodeInit (L : Liblzma σ) (ini : Ini) (format : Option ZendLong)
    (options : Option Options) : PhpReturn (XzEncodeContext σ) :=
  let format := format.getD XZ_FORMAT_XZ
  if format ≠ XZ_FORMAT_XZ ∧ format ≠ XZ_FORMAT_RAW then
    .valueError 1 "must be XZ_FORMAT_XZ or XZ_FORMAT_RAW"
  else
    let check := phpXzOptGetLong options "check" LZMA_CHECK_CRC64.toUInt64.toInt64
    let level := phpXzOptGetLong options "level" ini.compressionLevel
    let filterId := phpXzOptGetLong options "filter" LZMA_FILTER_LZMA2.toInt64
    let dictSize := phpXzOptGetLong options "dict_size" 0
    let lc := phpXzOptGetLong options "lc" (-1)
    let lp := phpXzOptGetLong options "lp" (-1)
    let pb := phpXzOptGetLong options "pb" (-1)
    if level < 0 ∨ level > 9 then .valueError 2 "options['level'] must be between 0 and 9"
    else if !isValidCheck (castUInt32 check) then
      .valueError 2 "options['check'] must be a valid XZ_CHECK_* constant"
    else if !isValidFilter filterId then
      .valueError 2 "options['filter'] must be XZ_FILTER_LZMA1 or XZ_FILTER_LZMA2"
    else if !xzEncodeValidateLzmaParams lc lp pb dictSize then
      .valueError 2 "options['lc'], options['lp'], options['pb'] must be between 0 and 4 with lc + lp <= 4, and options['dict_size'] must be non-negative"
    else
      match L.lzmaLzmaPreset (castUInt32 level) with
      | none => .returnFalse none
      | some preset =>
        let opt := overlayLzmaParams preset dictSize lc lp pb
        -- the xz container format only supports LZMA2
        let filterId := if format = XZ_FORMAT_XZ then LZMA_FILTER_LZMA2 else castUInt64 filterId
        match if format = XZ_FORMAT_RAW then L.lzmaRawEncoder [⟨filterId, opt⟩]
          else L.lzmaStreamEncoder [⟨filterId, opt⟩] (castUInt32 check) with
        | .error _ => .returnFalse none
        | .ok s => .value
          { strm := .init s, status := .ok, filterId, opt, format := castUInt32 format,
            check := castUInt32 check }

/-- `xz_encode_get_properties(context)`; the properties are written into `uint8_t props[5]`. -/
def xzEncodeGetProperties (L : Liblzma σ) (obj : XzEncodeContext σ) :
    Exec MemoryFault (PhpReturn (List UInt8)) :=
  if obj.format ≠ castUInt32 XZ_FORMAT_RAW then
    pure (.returnFalse
      (some "properties are only available for raw (XZ_FORMAT_RAW) encoding contexts"))
  else
    match L.lzmaPropertiesSize obj.filter with
    | .error _ => pure (.returnFalse none)
    | .ok propsSize =>
      match L.lzmaPropertiesEncode obj.filter with
      | .error _ => pure (.returnFalse none)
      | .ok bytes =>
        if h : 0 + bytes.length ≤ 5 ∧ propsSize.toNat ≤ 5 then
          let props := (Buffer.fresh 0 5).blit 0 bytes h.1
          pure (.value (props.window 0 propsSize.toNat))
        else .error (.fault .propsOverflow)

/-! ## Adding and finishing -/

/-- The `switch` of `php_xz_encode_context_process`. -/
def encodeSwitch : LzmaRet → Nat → Switch
  | .ok, availOut => if availOut = 0 then .grow else .finished
  | .streamEnd, _ => .finished
  | _, _ => .fail

/-- `php_xz_encode_context_process(obj, data, data_len, action)`. -/
def phpXzEncodeContextProcess (L : Liblzma σ) (fuel : Nat) (obj : XzEncodeContext σ)
    (data : List UInt8) (action : LzmaAction) :
    Exec MemoryFault (Option (List UInt8) × XzEncodeContext σ) := do
  let p ← contextProcess encodeSwitch L.coder fuel obj.strm data action
  pure (p.out, { obj with strm := p.strm, status := p.status })

/-- `xz_encode_add(context, data)`. -/
def xzEncodeAdd (L : Liblzma σ) (fuel : Nat) (obj : XzEncodeContext σ) (data : List UInt8) :
    Exec MemoryFault (PhpReturn (List UInt8) × XzEncodeContext σ) :=
  if obj.status = .streamEnd then
    pure (.returnFalse (some "encoding context has already finished"), obj)
  else do
    let (out, obj) ← phpXzEncodeContextProcess L fuel obj data .run
    pure (returnStr out, obj)

/-- `xz_encode_finish(context)`. -/
def xzEncodeFinish (L : Liblzma σ) (fuel : Nat) (obj : XzEncodeContext σ) :
    Exec MemoryFault (PhpReturn (List UInt8) × XzEncodeContext σ) :=
  if obj.status = .streamEnd then
    pure (.returnFalse (some "encoding context has already finished"), obj)
  else do
    let (out, obj) ← phpXzEncodeContextProcess L fuel obj [] .finish
    pure (returnStr out, obj)

/-! ### As operations -/

/-- The operations on an encode context. -/
inductive EncodeOp where
  | add (chunk : List UInt8)
  | finish

/-- The bytes an operation adds. -/
def EncodeOp.bytes : EncodeOp → List UInt8
  | .add chunk => chunk
  | .finish => []

/-- The action it passes to the coder. -/
def EncodeOp.action : EncodeOp → LzmaAction
  | .add _ => .run
  | .finish => .finish

def encodeOp (L : Liblzma σ) (fuel : Nat) (obj : XzEncodeContext σ) :
    EncodeOp → Exec MemoryFault (PhpReturn (List UInt8) × XzEncodeContext σ)
  | .add chunk => xzEncodeAdd L fuel obj chunk
  | .finish => xzEncodeFinish L fuel obj

/-- Both kinds of operation leave a finished context alone, and process their bytes on any other one. -/
theorem encodeOp_cases (L : Liblzma σ) (fuel : Nat) (obj : XzEncodeContext σ) (op : EncodeOp) :
    (∃ ret, encodeOp L fuel obj op = .ok (ret, obj)) ∨
    encodeOp L fuel obj op =
      (phpXzEncodeContextProcess L fuel obj op.bytes op.action >>= fun p =>
        .ok (returnStr p.1, p.2)) := by
  by_cases hfinished : obj.status = .streamEnd
  · apply Or.inl
    cases op with
    | add chunk => exact ⟨_, if_pos hfinished⟩
    | finish => exact ⟨_, if_pos hfinished⟩
  · apply Or.inr
    cases op with
    | add chunk => exact if_neg hfinished
    | finish => exact if_neg hfinished

/-! ## On a healthy encoder -/

variable {L : Liblzma σ} {c : Coder σ} {s₀ : σ} {Enc : List UInt8 → List UInt8} {f : Feed}
  {obj : XzEncodeContext σ} {data later : List UInt8} {fuel : Nat}

theorem encodeSwitch_grow : ∀ ret n, encodeSwitch ret n = .grow → n = 0 := by
  intro ret n h
  cases ret <;> simp [encodeSwitch] at h
  exact h

/-- One `LZMA_RUN` call of a healthy encoder in the loop: it fills the string; or it has taken the
whole chunk; or it is the first call, there is nothing to do, and the coder was stalled. -/
theorem encodeRun_callKeeps (henc : HealthyEncoder c s₀ Enc) (given later : List UInt8)
    (f₀ : Feed) :
    CallKeeps c s₀ encodeSwitch .run given (Enc (given ++ later)).length
      (fun f => f.finishing = none ∧ (f.stalled = true →
        f₀.stalled = true ∧ f.taken = f₀.taken ∧ f.emitted = f₀.emitted))
      (fun f ret => f.finishing = none ∧ f.taken = given ∧ ret = .ok)
      (fun f ret => f.finishing = none ∧ f.taken = given ∧ f.emitted = f₀.emitted ∧
        ret = .bufError ∧ f₀.stalled = true ∧ given = f₀.taken) := by
  rintro f s input room r ⟨hf, hstall⟩ hreach hgiven hroom hr
  refine ⟨trivial, ?_⟩
  have hreach' := hreach.run hroom hr
  have hf' : (f.step .run input r).finishing = none := hf
  have htaken : (f.step .run input r).taken ++ input.drop r.taken = f.taken ++ input :=
    Feed.taken_step_append .run
  have hle : r.taken ≤ input.length := hr ▸ c.taken_le _ _ _ _
  have hall : r.taken = input.length → (f.step .run input r).taken = given := by
    intro h
    rw [h, List.drop_length, List.append_nil, hgiven] at htaken
    exact htaken
  -- a call that fills the room was no stall, and has put out no more than there is
  have hgrow : room - r.emitted.length = 0 →
      ((f.step .run input r).stalled = true → f₀.stalled = true ∧
        (f.step .run input r).taken = f₀.taken ∧ (f.step .run input r).emitted = f₀.emitted) ∧
        (f.emitted ++ r.emitted).length ≤ (Enc (given ++ later)).length := by
    intro hfull
    constructor
    · intro hstalled
      have hne : r.emitted ≠ [] := CodeResult.emitted_ne_nil_of_full hroom hfull
      simp [Feed.step, CodeResult.Progress, hne] at hstalled
    · have hawaits : (f.step .run input r).Awaits (input.drop r.taken ++ later) := Or.inl hf'
      have hpre := henc.step_prefix hreach' hawaits
      rw [hgiven] at hpre
      exact hpre.length_le
  have hret : r.ret = .ok ∨ (r.ret = .bufError ∧ input = [] ∧ f.stalled = true ∧ ¬ r.Progress) := by
    by_cases hne : input = []
    · rw [hne] at hr
      rcases henc.run_idle hreach hf hroom hr with hok | ⟨hbuf, hstalled, hno⟩
      · exact Or.inl hok
      · exact Or.inr ⟨hbuf, hne, hstalled, hno⟩
    · exact Or.inl (henc.run_ok hreach hf hroom hne hr).1
  rcases hret with hok | ⟨hbuf, rfl, hstalled, hno⟩
  · by_cases hfull : room - r.emitted.length = 0
    · simp only [hok, encodeSwitch, if_pos hfull]
      exact ⟨⟨hf', (hgrow hfull).1⟩, (hgrow hfull).2⟩
    · simp only [hok, encodeSwitch, if_neg hfull]
      exact ⟨hf', hall (henc.run_takes_all hreach hf hroom hr hok (by omega)), trivial⟩
  · have hnil : r.emitted = [] := r.emitted_of_not_progress hno
    obtain ⟨hstart, htaken₀, hemitted₀⟩ := hstall hstalled
    rw [hbuf]
    refine ⟨hf', hall (Nat.le_zero.mp hle), ?_, rfl, hstart, ?_⟩
    · rw [Feed.step, hnil, List.append_nil]
      exact hemitted₀
    · rw [← hgiven, List.append_nil]
      exact htaken₀

/-- An encode context whose coder, with ledger `f`, still takes input. -/
structure XzEncodeContext.Live (c : Coder σ) (s₀ : σ) (f : Feed) (obj : XzEncodeContext σ) :
    Prop where
  reaches : Reaches c s₀ f obj.strm.internal
  running : f.finishing = none
  unfinished : obj.status ≠ .streamEnd

/-- **Adding a chunk.** The chunk is taken whole, and the result is what the encoder emitted; a call
that returns `false` emitted nothing, and was one without input on a stalled encoder. -/
theorem xzEncodeAdd_cases (henc : HealthyEncoder L.coder s₀ Enc) (hobj : obj.Live L.coder s₀ f)
    (hfuel : (Enc (f.taken ++ data ++ later)).length < fuel) :
    ∃ ret obj' f', xzEncodeAdd L fuel obj data = .ok (ret, obj') ∧ obj'.Live L.coder s₀ f' ∧
      f'.taken = f.taken ++ data ∧ f'.emitted = f.emitted ++ ret.bytes ∧
      ((∃ out, ret = .value out) ∨ (ret = .returnFalse none ∧ data = [] ∧ f.stalled = true)) := by
  obtain ⟨p, hp, f', hreach, -, -, hres⟩ := contextProcess_returns
    encodeSwitch_grow (encodeRun_callKeeps henc (f.taken ++ data) later f)
    ⟨hobj.running, fun hstalled => ⟨hstalled, rfl, rfl⟩⟩ hobj.reaches fuel (by omega)
  simp only [xzEncodeAdd, if_neg hobj.unfinished, phpXzEncodeContextProcess, hp, ok_bind,
    pure_eq_ok]
  rcases hres with ⟨out, hout, hemitted, hf', htaken, hok⟩ |
    ⟨hout, hf', htaken, hemitted, hbuf, hstalled, hgiven⟩
  · refine ⟨_, _, f', rfl, ⟨hreach, hf', ?_⟩, htaken, ?_, Or.inl ⟨out, ?_⟩⟩
    · simp [hok]
    · rw [hemitted, hout]
      rfl
    · rw [hout]
      rfl
  · refine ⟨_, _, f', rfl, ⟨hreach, hf', ?_⟩, htaken, ?_, Or.inr ⟨?_, ?_, hstalled⟩⟩
    · simp [hbuf]
    · rw [hemitted, hout]
      exact (List.append_nil _).symm
    · rw [hout]
      rfl
    · exact List.append_right_eq_self.mp hgiven

theorem xzEncodeAdd_spec (henc : HealthyEncoder L.coder s₀ Enc) (hobj : obj.Live L.coder s₀ f)
    (hfuel : (Enc (f.taken ++ data ++ later)).length < fuel) :
    ∃ ret obj' f', xzEncodeAdd L fuel obj data = .ok (ret, obj') ∧ obj'.Live L.coder s₀ f' ∧
      f'.taken = f.taken ++ data ∧ f'.emitted = f.emitted ++ ret.bytes := by
  obtain ⟨ret, obj', f', hadd, hobj', htaken, hemitted, -⟩ := xzEncodeAdd_cases henc hobj hfuel
  exact ⟨ret, obj', f', hadd, hobj', htaken, hemitted⟩

/-- One `LZMA_FINISH` call of a healthy encoder in the loop: it fills the string, or it ends. -/
theorem encodeFinish_callKeeps (henc : HealthyEncoder c s₀ Enc) (given : List UInt8) :
    CallKeeps c s₀ encodeSwitch .finish given (Enc given).length
      (fun f => f.Awaits [] ∧ f.taken = given)
      (fun f ret => f.emitted = Enc given ∧ ret = .streamEnd) (fun _ _ => False) := by
  rintro f s input room r ⟨hf, htaken⟩ hreach hgiven hroom hr
  obtain rfl : input = [] := by
    rw [htaken] at hgiven
    exact List.append_right_eq_self.mp hgiven
  refine ⟨hf, ?_⟩
  have hreach' := hreach.finish hf hroom hr
  have htaken' : (f.step .finish [] r).taken = given := by simp [Feed.step, htaken]
  have hawaits : (f.step .finish [] r).Awaits [] := Or.inr (by simp [Feed.step])
  rcases henc.finish_ok hreach hf hroom hr with ⟨hok, hfull⟩ | ⟨hend, -, hall⟩
  · rw [hok, hfull, Nat.sub_self]
    simp only [encodeSwitch, if_true]
    refine ⟨⟨hawaits, htaken'⟩, ?_⟩
    have := henc.output_prefix hreach' hawaits
    rw [htaken', List.append_nil] at this
    exact this.length_le
  · rw [hend]
    refine ⟨?_, rfl⟩
    rw [Feed.step, hall, htaken, List.append_nil]

/-- **Finishing.** What was handed out before and what finishing returns are the complete
encoding. -/
theorem xzEncodeFinish_spec (henc : HealthyEncoder L.coder s₀ Enc) (hobj : obj.Live L.coder s₀ f)
    (hfuel : (Enc f.taken).length < fuel) :
    ∃ out obj', xzEncodeFinish L fuel obj = .ok (.value out, obj') ∧ obj'.status = .streamEnd ∧
      f.emitted ++ out = Enc f.taken := by
  obtain ⟨p, hp, f', -, -, -, hres⟩ := contextProcess_returns
    encodeSwitch_grow (encodeFinish_callKeeps henc (f.taken ++ []))
    ⟨Or.inl hobj.running, (List.append_nil _).symm⟩ hobj.reaches fuel
    (by rw [List.append_nil]; omega)
  rcases hres with ⟨out, hout, hemitted, henc', hend⟩ | ⟨-, hfalse⟩
  · simp only [xzEncodeFinish, if_neg hobj.unfinished, phpXzEncodeContextProcess, hp, ok_bind,
      pure_eq_ok, hout]
    refine ⟨out, _, rfl, hend, ?_⟩
    rw [← hemitted, henc', List.append_nil]
  · exact hfalse.elim

/-- A context made for the xz format with a level alone runs the encoder of that level's preset, with
LZMA2 and CRC64. -/
theorem xzEncodeInit_level {ini : Ini} {level : ZendLong} {preset : LzmaOptionsLzma}
    (hlevel : 0 ≤ level ∧ level ≤ 9)
    (hpreset : L.lzmaLzmaPreset (castUInt32 level) = some preset)
    (hinit : L.lzmaStreamEncoder [⟨LZMA_FILTER_LZMA2, preset⟩] LZMA_CHECK_CRC64 = .ok s₀) :
    ∃ obj, xzEncodeInit L ini (some XZ_FORMAT_XZ)
        (some fun key => if key = "level" then some level else none) = .value obj ∧
      obj.Live L.coder s₀ {} := by
  have hlevel' : ¬ (level < 0 ∨ level > 9) := by
    rintro (h | h)
    · exact Int64.not_lt.mpr hlevel.1 h
    · exact Int64.not_lt.mpr hlevel.2 h
  have hcheck : isValidCheck LZMA_CHECK_CRC64 = true := by decide
  have hfilter : isValidFilter LZMA_FILTER_LZMA2.toInt64 = true := by decide
  have hparams : xzEncodeValidateLzmaParams (-1) (-1) (-1) 0 = true := by decide
  have hcrc : castUInt32 LZMA_CHECK_CRC64.toUInt64.toInt64 = LZMA_CHECK_CRC64 := by decide
  have hformat : ¬ XZ_FORMAT_XZ = XZ_FORMAT_RAW := by decide
  refine ⟨⟨.init s₀, .ok, LZMA_FILTER_LZMA2, preset, castUInt32 XZ_FORMAT_XZ, LZMA_CHECK_CRC64⟩, ?_,
    .start, rfl, by simp⟩
  simp [xzEncodeInit, phpXzOptGetLong, hlevel', hcheck, hfilter, hparams, hpreset, hformat,
    overlayLzmaParams_default, hcrc, hinit]

end PhpExtXz
