/-
# PhpExtXz.XzDecodeContext — `xz_decode_context.c`: incremental decoding.

`xzDecodeInit`, `xzDecodeAdd`, `xzDecodeFinish`, `xzDecodeGetStatus` and `xzDecodeGetReadLen` are the
five PHP functions on an `XZDecodeContext`.

`xzDecodeAdd_spec` says what adding a chunk does when the decoder's output and verdict are functions
of the bytes fed: the context stays live, or has ended, or has failed, and which of the three depends
on the bytes alone.
-/
import PhpExtXz.ContextProcess
import PhpExtXz.XzOptions
import PhpExtXz.XzDecode

namespace PhpExtXz

open FuelLoop

variable {σ : Type}

/-! ## The context object -/

/-- `php_xz_decode_context_obj`. -/
structure XzDecodeContext (σ : Type) where
  strm : LzmaStream σ
  status : LzmaRet
  format : UInt32

/-- `xz_decode_validate_lzma_params(lc, lp, pb, dict_size)`. -/
def xzDecodeValidateLzmaParams (lc lp pb dictSize : ZendLong) : Bool :=
  validateLzmaParams lc lp pb dictSize

/-- The coder `xz_decode_init` creates once its arguments are accepted; `none` where it returns
`false`. -/
def createDecoder (L : Liblzma σ) (format flags memoryLimit filterId dictSize lc lp pb : ZendLong) :
    Option σ :=
  if format = XZ_FORMAT_RAW then
    match L.lzmaLzmaPreset 6 with
    | none => none
    | some preset =>
      (L.lzmaRawDecoder
        [⟨castUInt64 filterId, overlayLzmaParams preset dictSize lc lp pb⟩]).toOption
  else
    (L.lzmaAutoDecoder (memoryLimitOrMax (castUInt64 memoryLimit)) (castUInt32 flags)).toOption

/-- `xz_decode_init(format, options)`; `none` is an argument left out. -/
def xzDecodeInit (L : Liblzma σ) (ini : Ini) (format : Option ZendLong)
    (options : Option Options) : PhpReturn (XzDecodeContext σ) :=
  let format := format.getD XZ_FORMAT_XZ
  if format ≠ XZ_FORMAT_XZ ∧ format ≠ XZ_FORMAT_RAW then
    .valueError 1 "must be XZ_FORMAT_XZ or XZ_FORMAT_RAW"
  else
    let flags := phpXzOptGetLong options "flags" 0
    let memoryLimit := phpXzOptGetLong options "memory_limit" ini.maxMemory
    let filterId := phpXzOptGetLong options "filter" LZMA_FILTER_LZMA2.toInt64
    let dictSize := phpXzOptGetLong options "dict_size" 0
    let lc := phpXzOptGetLong options "lc" (-1)
    let lp := phpXzOptGetLong options "lp" (-1)
    let pb := phpXzOptGetLong options "pb" (-1)
    if !isValidFilter filterId then
      .valueError 2 "options['filter'] must be XZ_FILTER_LZMA1 or XZ_FILTER_LZMA2"
    else if !xzDecodeValidateLzmaParams lc lp pb dictSize then
      .valueError 2 "options['lc'], options['lp'], options['pb'] must be between 0 and 4 with lc + lp <= 4, and options['dict_size'] must be non-negative"
    else
      match createDecoder L format flags memoryLimit filterId dictSize lc lp pb with
      | none => .returnFalse none
      | some s => .value { strm := .init s, status := .ok, format := castUInt32 format }

/-! ## Adding and finishing -/

/-- The `switch` of `php_xz_decode_context_process`. -/
def decodeSwitch (action : LzmaAction) : LzmaRet → Nat → Switch
  | .ok, availOut => if availOut = 0 then .grow else .finished
  | .streamEnd, _ => .finished
  | .bufError, availOut => if action = .finish ∧ availOut = 0 then .grow else .finished
  | _, _ => .fail

/-- `php_xz_decode_context_process(obj, data, data_len, action)`. -/
def phpXzDecodeContextProcess (L : Liblzma σ) (fuel : Nat) (obj : XzDecodeContext σ)
    (data : List UInt8) (action : LzmaAction) :
    Exec MemoryFault (Option (List UInt8) × XzDecodeContext σ) := do
  let p ← contextProcess (decodeSwitch action) L.coder fuel obj.strm data action
  pure (p.out, { obj with strm := p.strm, status := p.status })

/-- `xz_decode_add(context, data)`. -/
def xzDecodeAdd (L : Liblzma σ) (fuel : Nat) (obj : XzDecodeContext σ) (data : List UInt8) :
    Exec MemoryFault (PhpReturn (List UInt8) × XzDecodeContext σ) :=
  if obj.status = .streamEnd then
    pure (.returnFalse (some "decoding context has already finished"), obj)
  else do
    let (out, obj) ← phpXzDecodeContextProcess L fuel obj data .run
    pure (returnStr out, obj)

/-- `xz_decode_finish(context)`. -/
def xzDecodeFinish (L : Liblzma σ) (fuel : Nat) (obj : XzDecodeContext σ) :
    Exec MemoryFault (PhpReturn (List UInt8) × XzDecodeContext σ) :=
  if obj.status = .streamEnd then pure (.value [], obj)
  else do
    let (out, obj) ← phpXzDecodeContextProcess L fuel obj [] .finish
    pure (returnStr out, obj)

/-- `xz_decode_get_status(context)`. -/
def xzDecodeGetStatus (obj : XzDecodeContext σ) : Int := obj.status.toInt

/-- `xz_decode_get_read_len(context)`. -/
def xzDecodeGetReadLen (obj : XzDecodeContext σ) : Nat := obj.strm.totalIn

theorem decodeSwitch_grow (action : LzmaAction) :
    ∀ ret n, decodeSwitch action ret n = .grow → n = 0 := by
  intro ret n h
  cases ret <;> simp [decodeSwitch] at h
  · exact h
  · exact h.2

theorem decodeSwitch_fails {action : LzmaAction} {ret : LzmaRet} (h : ret.fails = true) (n : Nat) :
    decodeSwitch action ret n = .fail := by
  cases ret <;> simp_all [LzmaRet.fails, decodeSwitch]

/-! ## A decoder on any bytes -/

variable {L : Liblzma σ} {c : Coder σ} {s₀ : σ} {out : List UInt8 → List UInt8}
  {verdict : List UInt8 → Verdict} {f f' : Feed} {obj : XzDecodeContext σ} {data : List UInt8}
  {fuel : Nat}

/-- The ledger of a decoder that has been fed `f.taken`, waits for more and owes no output. -/
structure Feed.Waits (f : Feed) (out : List UInt8 → List UInt8) (verdict : List UInt8 → Verdict) :
    Prop where
  running : f.finishing = none
  notEnded : f.ended = false
  notFailed : f.failed = false
  emitted_eq : f.emitted = out f.taken
  more : verdict f.taken = .more

/-- The ledger `f` after a call that failed with the code `ret`, on a decoder that had neither ended nor
failed and that was offered the rest of `given`. -/
inductive FailedCall (c : Coder σ) (s₀ : σ) (given : List UInt8) : Feed → LzmaRet → Prop
  | intro {f : Feed} {s : σ} {input : List UInt8} {room : Nat} {r : CodeResult σ}
      (reaches : Reaches c s₀ f s) (running : f.finishing = none) (notEnded : f.ended = false)
      (notFailed : f.failed = false) (all : f.taken ++ input = given) (hasRoom : 0 < room)
      (code_eq : c.code s .run input room = r) (fails : r.ret.fails = true) :
      FailedCall c s₀ given (f.step .run input r) r.ret

/-- What adding `data` to a waiting decoder with ledger `f` leads to: the ledger `f'`, and the status
left in the context. -/
inductive DecodeOutcome (c : Coder σ) (s₀ : σ) (out : List UInt8 → List UInt8)
    (verdict : List UInt8 → Verdict) (f : Feed) (data : List UInt8) (f' : Feed) (status : LzmaRet) : Prop
  | live (h : f'.Waits out verdict) (taken_eq : f'.taken = f.taken ++ data)
      (status_eq : status = if f.allowBufError = true ∧ data = [] then .bufError else .ok)
  | ended (running : f'.finishing = none) (isEnded : f'.ended = true) (notFailed : f'.failed = false)
      (emitted_eq : f'.emitted = out f'.taken) (isEnd : verdict f'.taken = .ended)
      (status_eq : status = .streamEnd)
  | failed (call : FailedCall c s₀ (f.taken ++ data) f' status)

theorem FailedCall.fails {given : List UInt8} {ret : LzmaRet} (h : FailedCall c s₀ given f' ret) :
    ret.fails = true := by
  cases h
  assumption

/-- The decoder fails where the bytes are wrong. -/
theorem FailedCall.bad {given : List UInt8} {ret : LzmaRet} (h : FailedCall c s₀ given f' ret)
    (hdec : ByteDecoder c s₀ out verdict) : ∃ x, DecidedAt verdict given x .failed := by
  obtain ⟨hreach, hf, hend, hx, rfl, hroom, hr, hfails⟩ := h
  exact hdec.run_failed hreach hf hend hx hroom hr hfails

/-- A decoder that waits for input does nothing without it. -/
theorem ByteDecoder.idle (hdec : ByteDecoder c s₀ out verdict) (hf : f.Waits out verdict) {s : σ}
    {room : Nat} {r : CodeResult σ} (hreach : Reaches c s₀ f s) (hroom : 0 < room)
    (hr : c.code s .run [] room = r) (hfine : r.ret.fails = false) : r.taken = 0 ∧ r.emitted = [] := by
  have htaken : r.taken = 0 := Nat.le_zero.mp (hr ▸ c.taken_le s .run [] room)
  have hreach' := hreach.run hroom hr
  have hpre : f.emitted ++ r.emitted <+: out (f.taken ++ List.take r.taken []) :=
    hdec.out_prefix hreach' (hreach'.not_fatal (Feed.notFailed_step hf.notFailed hfine))
  rw [List.take_nil, List.append_nil, hf.emitted_eq] at hpre
  have hle := hpre.length_le
  rw [List.length_append] at hle
  exact ⟨htaken, List.eq_nil_of_length_eq_zero (by omega)⟩

/-- A decoder that has drained its input waits for more. -/
theorem ByteDecoder.waits_of_drained (hdec : ByteDecoder c s₀ out verdict) {s : σ}
    {input : List UInt8} {room : Nat} {r : CodeResult σ} (hreach : Reaches c s₀ f s)
    (hf : f.finishing = none) (hend : f.ended = false) (hfail : f.failed = false)
    (hr : c.code s .run input room = r) (hok : r.ret = .ok) (hleft : r.emitted.length < room) :
    (f.step .run input r).Waits out verdict ∧ (f.step .run input r).taken = f.taken ++ input := by
  obtain ⟨htaken, hmore, hout⟩ := hdec.run_drained hreach hf hend hfail (by omega) hr hok hleft
  have htaken' : (f.step .run input r).taken = f.taken ++ input := by simp [Feed.step, htaken]
  refine ⟨⟨hf, ?_, ?_, ?_, ?_⟩, htaken'⟩
  · simp [Feed.step, hend, hok]
  · exact Feed.notFailed_step hfail (by rw [hok]; rfl)
  · rw [htaken', ← hout]
    rfl
  · rw [htaken', hmore]

/-- A decoder that has done nothing still waits. -/
theorem Feed.Waits.stall {r : CodeResult σ} (h : f.Waits out verdict) (hnil : r.emitted = [])
    (hbuf : r.ret = .bufError) :
    (f.step .run [] r).Waits out verdict ∧ (f.step .run [] r).taken = f.taken := by
  have htaken : (f.step .run [] r).taken = f.taken := by simp [Feed.step]
  have hemitted : (f.step .run [] r).emitted = f.emitted := by simp [Feed.step, hnil]
  refine ⟨⟨h.running, ?_, ?_, ?_, ?_⟩, htaken⟩
  · simp [Feed.step, h.notEnded, hbuf]
  · exact Feed.notFailed_step h.notFailed (by rw [hbuf]; rfl)
  · rw [hemitted, htaken, h.emitted_eq]
  · rw [htaken, h.more]

/-- One `LZMA_RUN` call of the loop, started on a waiting decoder with ledger `f₀`. Only the first
call can be a stall in a row with an earlier one, and only without data. -/
theorem decodeRun_callKeeps (hdec : ByteDecoder c s₀ out verdict) {f₀ : Feed}
    (hf₀ : f₀.Waits out verdict) (data : List UInt8) :
    CallKeeps c s₀ (decodeSwitch .run) .run (f₀.taken ++ data) (out (f₀.taken ++ data)).length
      (fun f => (f.finishing = none ∧ f.ended = false ∧ f.failed = false) ∧
        (f = f₀ ∨ (f.allowBufError = false ∧ ¬ (f₀.allowBufError = true ∧ data = []))))
      (fun f ret => DecodeOutcome c s₀ out verdict f₀ data f ret ∧ ret.fails = false)
      (fun f ret => DecodeOutcome c s₀ out verdict f₀ data f ret ∧ ret.fails = true) := by
  rintro f s input room r ⟨⟨hf, hend, hfail⟩, hstall⟩ hreach hgiven hroom hr
  refine ⟨trivial, ?_⟩
  have hreach' := hreach.run hroom hr
  have hf' : (f.step .run input r).finishing = none := hf
  have hfail' : r.ret.fails = false → (f.step .run input r).failed = false := Feed.notFailed_step hfail
  -- without data on a stalled decoder, the call does nothing
  have hidle : r.ret.fails = false → f = f₀ → data = [] → r.taken = 0 ∧ r.emitted = [] := by
    rintro hfine rfl rfl
    obtain rfl : input = [] := List.append_cancel_left hgiven
    exact hdec.idle hf₀ hreach hroom hr hfine
  -- one case for each kind of code; `LZMA_OK` goes round again only with the room used up
  rcases r.ret.ok_or_end_or_stall_or_fails with hok | hstreamEnd | hbuf | hfails
  · have hfine : r.ret.fails = false := by rw [hok]; rfl
    by_cases hfull : room - r.emitted.length = 0
    · simp only [hok, decodeSwitch, if_pos hfull]
      have hne : r.emitted ≠ [] := CodeResult.emitted_ne_nil_of_full hroom hfull
      refine ⟨⟨⟨hf', ?_, hfail' hfine⟩, Or.inr ⟨?_, ?_⟩⟩, ?_⟩
      · simp [Feed.step, hend, hok]
      · simp [Feed.step, hok, CodeResult.Progress, hne]
      · rintro ⟨hstalled, hdata⟩
        rcases hstall with rfl | ⟨-, hno⟩
        · exact hne (hidle hfine rfl hdata).2
        · exact hno ⟨hstalled, hdata⟩
      · have hpre := hdec.out_prefix hreach' (hreach'.not_fatal (hfail' hfine))
        have htaken : (f.step .run input r).taken <+: f₀.taken ++ data :=
          hgiven ▸ Feed.taken_step_prefix .run
        exact (hpre.trans (hdec.out_mono htaken)).length_le
    · simp only [hok, decodeSwitch, if_neg hfull]
      obtain ⟨hwaits, htaken⟩ := hdec.waits_of_drained hreach hf hend hfail hr hok (by omega)
      refine ⟨.live hwaits (htaken.trans hgiven) (if_neg ?_).symm, rfl⟩
      rintro ⟨hstalled, hdata⟩
      rcases hstall with rfl | ⟨-, hno⟩
      · obtain ⟨h0, hnil⟩ := hidle hfine rfl hdata
        have hno : ¬ r.Progress := by simp [CodeResult.Progress, h0, hnil]
        rw [(hdec.run_stalled hreach hf hend hfail hroom hr).2 hok hno] at hstalled
        exact absurd hstalled (by decide)
      · exact hno ⟨hstalled, hdata⟩
  · simp only [hstreamEnd, decodeSwitch]
    obtain ⟨hverdict, hout⟩ := hdec.run_ended hreach hf hend hfail hroom hr hstreamEnd
    exact ⟨.ended hf' (by simp [Feed.step, hstreamEnd]) (hfail' (by rw [hstreamEnd]; rfl)) hout hverdict rfl,
      rfl⟩
  · -- only the first call can be a second stall in a row, and only without data
    obtain ⟨hno, rfl, hstalled⟩ := (hdec.run_stalled hreach hf hend hfail hroom hr).1 hbuf
    have hf₀' : f = f₀ := by
      rcases hstall with h | ⟨h, -⟩
      · exact h
      · rw [h] at hstalled
        exact absurd hstalled (by decide)
    subst hf₀'
    have hdata : data = [] := (List.append_cancel_left hgiven).symm
    obtain ⟨hwaits, htaken⟩ := hf₀.stall (hidle (by rw [hbuf]; rfl) rfl hdata).2 hbuf
    simp only [hbuf, decodeSwitch]
    refine ⟨.live hwaits ?_ (if_pos ⟨hstalled, hdata⟩).symm, rfl⟩
    rw [htaken, hdata, List.append_nil]
  · rw [decodeSwitch_fails hfails]
    exact ⟨.failed (.intro hreach hf hend hfail hgiven hroom hr hfails), hfails⟩

/-- A decode context whose decoder waits for more input. -/
structure XzDecodeContext.Live (c : Coder σ) (s₀ : σ) (out : List UInt8 → List UInt8)
    (verdict : List UInt8 → Verdict) (f : Feed) (obj : XzDecodeContext σ) : Prop where
  reaches : Reaches c s₀ f obj.strm.internal
  waits : f.Waits out verdict
  totalIn : obj.strm.totalIn = f.taken.length
  unfinished : obj.status ≠ .streamEnd

/-- **Adding a chunk to a live context.** The call returns a string unless the decoder fails, the
string is what the decoder emitted, and `total_in` counts what it has taken. -/
theorem xzDecodeAdd_spec (hdec : ByteDecoder L.coder s₀ out verdict)
    (hobj : obj.Live L.coder s₀ out verdict f) (data : List UInt8) (fuel : Nat)
    (hfuel : (out (f.taken ++ data)).length < fuel) :
    ∃ ret obj' f', xzDecodeAdd L fuel obj data = .ok (ret, obj') ∧
      Reaches L.coder s₀ f' obj'.strm.internal ∧ obj'.strm.totalIn = f'.taken.length ∧
      f'.taken <+: f.taken ++ data ∧ DecodeOutcome L.coder s₀ out verdict f data f' obj'.status ∧
      if obj'.status.fails then ret = .returnFalse none
      else ∃ o, ret = .value o ∧ f'.emitted = f.emitted ++ o := by
  obtain ⟨p, hp, f', hreach, htaken, htotal, hres⟩ := contextProcess_returns
    (decodeSwitch_grow .run) (decodeRun_callKeeps hdec hobj.waits data)
    ⟨⟨hobj.waits.running, hobj.waits.notEnded, hobj.waits.notFailed⟩, Or.inl rfl⟩ hobj.reaches fuel
    (by omega)
  have htotal' : p.strm.totalIn = f'.taken.length := by
    have := hobj.totalIn
    omega
  simp only [xzDecodeAdd, if_neg hobj.unfinished, phpXzDecodeContextProcess, hp, ok_bind,
    pure_eq_ok]
  rcases hres with ⟨o, hout, hemitted, hres, hnot⟩ | ⟨hout, hres, hfatal⟩
  · refine ⟨_, _, f', rfl, hreach, htotal', htaken, hres, ?_⟩
    simp only [hnot, hout]
    exact ⟨o, rfl, hemitted⟩
  · refine ⟨_, _, f', rfl, hreach, htotal', htaken, hres, ?_⟩
    simp only [hfatal, hout]
    rfl

/-- A context is made with a fresh coder and status 0. -/
theorem xzDecodeInit_fresh {ini : Ini} {format : Option ZendLong} {options : Option Options}
    (hinit : xzDecodeInit L ini format options = .value obj) :
    obj.strm = .init obj.strm.internal ∧ obj.status = .ok := by
  simp only [xzDecodeInit] at hinit
  split at hinit
  · cases hinit
  split at hinit
  · cases hinit
  split at hinit
  · cases hinit
  split at hinit
  · cases hinit
  · cases hinit
    exact ⟨rfl, rfl⟩

theorem xzDecodeInit_live {ini : Ini} {format : Option ZendLong} {options : Option Options}
    (hinit : xzDecodeInit L ini format options = .value obj)
    (hdec : ByteDecoder L.coder obj.strm.internal out verdict) :
    obj.Live L.coder obj.strm.internal out verdict {} where
  reaches := .start
  waits := ⟨rfl, rfl, rfl, hdec.out_nil.symm, hdec.verdict_nil⟩
  totalIn := by rw [(xzDecodeInit_fresh hinit).1]; rfl
  unfinished := by rw [(xzDecodeInit_fresh hinit).2]; decide

end PhpExtXz
