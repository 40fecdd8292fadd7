/-
# PhpExtXz.EncodeEmpty — adding empty strings to an encode context.

A call of the coder without input that finds nothing to emit is a stall: the first one in a row returns
`LZMA_OK`, the next one `LZMA_BUF_ERROR`. The decode context takes `LZMA_BUF_ERROR` for a chunk that
was used up; the encode context takes it for a failure, and `xz_encode_add` returns `false` although
nothing is wrong. Two empty strings in a row are enough, and one is where the last chunk ended with a
stall of its own, because its output filled the string exactly.

`emptyAddsHarmless_iff`: this is the only way in which adding data to a live context fails.
-/
import PhpExtXz.InitOptions
import PhpExtXz.EncodePaths

namespace PhpExtXz

open FuelLoop

variable {σ : Type} {L : Liblzma σ} {c : Coder σ} {s₀ : σ} {Enc : List UInt8 → List UInt8} {f : Feed}
  {obj : XzEncodeContext σ} {data later : List UInt8} {fuel : Nat}

/-! ## A stalled encoder -/

/-- Called once more without input, a stalled encoder reports that no progress is possible. -/
def StuckOnceStalled (c : Coder σ) (s₀ : σ) : Prop :=
  ∀ f s room r, Reaches c s₀ f s → f.finishing = none → f.stalled = true → 0 < room →
    c.code s .run [] room = r → r.ret = .bufError ∧ ¬ r.Progress

/-- An encoder with its ledger beside it satisfies the same contract. -/
theorem HealthyEncoder.logged (h : HealthyEncoder c s₀ Enc) :
    HealthyEncoder c.logged (s₀, {}) Enc where
  output_prefix hreach := h.output_prefix hreach.of_logged.2
  run_ok hreach hf hroom hne hr := by
    subst hr
    exact h.run_ok hreach.of_logged.2 hf hroom hne rfl
  run_idle hreach hf hroom hr := by
    subst hr
    exact h.run_idle hreach.of_logged.2 hf hroom rfl
  run_takes_all hreach hf hroom hr := by
    subst hr
    exact h.run_takes_all hreach.of_logged.2 hf hroom rfl
  finish_ok hreach hf hroom hr := by
    subst hr
    exact h.finish_ok hreach.of_logged.2 hf hroom rfl

theorem StuckOnceStalled.logged (h : StuckOnceStalled c s₀) : StuckOnceStalled c.logged (s₀, {}) := by
  intro f s room r hreach hf hstalled hroom hr
  subst hr
  exact h f s.1 room _ hreach.of_logged.2 hf hstalled hroom rfl

/-- On a stalled encoder the first call without input ends the loop, with `NULL`. -/
theorem stuck_callKeeps (hstuck : StuckOnceStalled c s₀) (f : Feed) :
    CallKeeps c s₀ encodeSwitch .run (f.taken ++ []) 0
      (fun f' => f'.finishing = none ∧ f'.stalled = true ∧ f'.taken = f.taken)
      (fun _ _ => False) (fun _ _ => True) := by
  rintro f' s input room r ⟨hf, hstalled, htaken⟩ hreach hgiven hroom hr
  obtain rfl : input = [] := by
    rw [htaken] at hgiven
    exact List.append_cancel_left hgiven
  obtain ⟨hbuf, -⟩ := hstuck f' s room r hreach hf hstalled hroom hr
  refine ⟨trivial, ?_⟩
  simp only [hbuf, encodeSwitch]

/-- Adding the empty string to a stalled encoder returns `false`. -/
theorem xzEncodeAdd_stuck (hstuck : StuckOnceStalled L.coder s₀) (hobj : obj.Live L.coder s₀ f)
    (hstalled : f.stalled = true) (hfuel : 0 < fuel) :
    ∃ obj', xzEncodeAdd L fuel obj [] = .ok (.returnFalse none, obj') := by
  obtain ⟨p, hp, f', -, -, -, hres⟩ := contextProcess_returns encodeSwitch_grow
    (stuck_callKeeps hstuck f) ⟨hobj.running, hstalled, rfl⟩ hobj.reaches fuel (by omega)
  rcases hres with ⟨out, -, -, hfalse⟩ | ⟨hout, -⟩
  · exact hfalse.elim
  · refine ⟨{ obj with strm := p.strm, status := p.status }, ?_⟩
    simp only [xzEncodeAdd, if_neg hobj.unfinished, phpXzEncodeContextProcess, hp, ok_bind, pure_eq_ok,
      hout, returnStr]

/-- **One add.** It returns a string exactly where it does not add the empty string to a stalled
encoder. -/
theorem xzEncodeAdd_string_iff (henc : HealthyEncoder L.coder s₀ Enc)
    (hstuck : StuckOnceStalled L.coder s₀) (hobj : obj.Live L.coder s₀ f)
    (hfuel : (Enc (f.taken ++ data ++ later)).length < fuel) :
    ∃ ret obj' f', xzEncodeAdd L fuel obj data = .ok (ret, obj') ∧ obj'.Live L.coder s₀ f' ∧
      f'.taken = f.taken ++ data ∧
      ((∃ out, ret = .value out) ↔ ¬ (data = [] ∧ f.stalled = true)) := by
  obtain ⟨ret, obj', f', hadd, hobj', htaken, -, hret⟩ := xzEncodeAdd_cases henc hobj hfuel
  refine ⟨ret, obj', f', hadd, hobj', htaken, ?_⟩
  rcases hret with ⟨out, rfl⟩ | ⟨rfl, hnil, hstalled⟩
  · refine ⟨fun _ => ?_, fun _ => ⟨out, rfl⟩⟩
    rintro ⟨rfl, hstalled⟩
    obtain ⟨obj'', hfalse⟩ := xzEncodeAdd_stuck hstuck hobj hstalled (Nat.zero_lt_of_lt hfuel)
    rw [hadd] at hfalse
    cases hfalse
  · exact ⟨nofun, fun hnot => absurd ⟨hnil, hstalled⟩ hnot⟩

/-! ## Sequences of adds -/

/-- One `xz_encode_add` of a sequence: the context before it, the string, and its outcome. -/
abbrev AddStep (σ : Type) : Type :=
  Runs.Step (XzEncodeContext σ) (List UInt8) (PhpReturn (List UInt8)) (Halt MemoryFault)

/-- The strings added one after the other. -/
def addTrace (L : Liblzma σ) (fuel : Nat) (obj : XzEncodeContext σ) (chunks : List (List UInt8)) :
    List (AddStep σ) :=
  Runs.trace (xzEncodeAdd L fuel) (fun _ => false) obj chunks

/-- The call returned a string. -/
def ReturnsString (step : AddStep σ) : Prop := ∃ out obj', step.outcome = .ok (.value out, obj')

/-- The empty string is added where the last call of the coder was a stall. -/
def AddsToStalled (step : AddStep (σ × Feed)) : Prop :=
  step.op = [] ∧ step.before.strm.internal.2.stalled = true

/-- Every add returns a string, and the empty ones can be left out: what all calls return up to
`xz_encode_finish` stays the same. -/
structure EmptyAddsHarmless (L : Liblzma σ) (fuel : Nat) (obj : XzEncodeContext σ)
    (chunks : List (List UInt8)) : Prop where
  strings : ∀ step ∈ addTrace L fuel obj chunks, ReturnsString step
  same : ∃ out, encodeChunks L fuel obj chunks = .ok out ∧
    encodeChunks L fuel obj (chunks.filter (· ≠ [])) = .ok out

/-- Each add of a sequence returns a string exactly where it does not add to a stalled encoder. -/
theorem addTrace_strings_iff (henc : HealthyEncoder L.coder s₀ Enc)
    (hstuck : StuckOnceStalled L.coder s₀) (chunks : List (List UInt8)) :
    ∀ {f} {obj : XzEncodeContext (σ × Feed)}, obj.Live L.logged.coder (s₀, {}) f →
      (Enc (f.taken ++ chunks.flatten)).length < fuel →
      ∀ step ∈ addTrace L.logged fuel obj chunks, (ReturnsString step ↔ ¬ AddsToStalled step) := by
  induction chunks with
  | nil =>
    intro f obj _ _ step hmem
    cases hmem
  | cons chunk chunks ih =>
    intro f obj hobj hfuel step hmem
    rw [List.flatten_cons, ← List.append_assoc] at hfuel
    obtain ⟨ret, obj', f', hadd, hobj', htaken, hiff⟩ :=
      xzEncodeAdd_string_iff henc.logged hstuck.logged hobj hfuel
    rw [addTrace, Runs.trace_cons_ok hadd rfl] at hmem
    rcases List.mem_cons.mp hmem with rfl | hmem
    · -- the ledger is the one beside the coder
      have hledger : obj.strm.internal.2 = f := hobj.reaches.of_logged.1
      rw [AddsToStalled, hledger, ← hiff]
      constructor
      · rintro ⟨out, obj'', hout⟩
        exact ⟨out, (Prod.mk.inj (Except.ok.inj hout)).1⟩
      · rintro ⟨out, rfl⟩
        exact ⟨out, obj', rfl⟩
    · rw [← htaken] at hfuel
      exact ih hobj' hfuel step hmem

/-- A context that was just made is live. -/
theorem xzEncodeInit_live {ini : Ini} {format : Option ZendLong} {options : Option Options}
    {obj : XzEncodeContext (σ × Feed)}
    (hinit : xzEncodeInit L.logged ini format options = .value obj) :
    obj.Live L.logged.coder (obj.strm.internal.1, {}) {} := by
  obtain ⟨-, preset, s, -, hcreate, hstrm, hstatus, -⟩ := xzEncodeInit_value hinit
  -- a coder is created with an empty ledger
  have hnew : s.2 = {} := by
    unfold createEncoder at hcreate
    split at hcreate
    · exact (map_pair_eq_ok hcreate).2
    · exact (map_pair_eq_ok hcreate).2
  refine ⟨?_, rfl, by simp [hstatus]⟩
  obtain ⟨s, ledger⟩ := s
  obtain rfl : ledger = {} := hnew
  rw [hstrm]
  exact .start

/-- **Adding empty strings is harmless** exactly where none is added to a stalled encoder. -/
theorem emptyAddsHarmless_iff {ini : Ini} {format : Option ZendLong} {options : Option Options}
    {obj : XzEncodeContext (σ × Feed)}
    (hinit : xzEncodeInit L.logged ini format options = .value obj)
    (henc : HealthyEncoder L.coder obj.strm.internal.1 Enc)
    (hstuck : StuckOnceStalled L.coder obj.strm.internal.1) (chunks : List (List UInt8))
    (hfuel : (Enc chunks.flatten).length < fuel) :
    EmptyAddsHarmless L.logged fuel obj chunks ↔
      ∀ step ∈ addTrace L.logged fuel obj chunks, ¬ AddsToStalled step := by
  have hlive := xzEncodeInit_live hinit
  have hsteps := addTrace_strings_iff henc hstuck chunks hlive hfuel
  constructor
  · intro h step hmem
    exact (hsteps step hmem).mp (h.strings step hmem)
  · intro h
    refine ⟨fun step hmem => (hsteps step hmem).mpr (h step hmem), ?_⟩
    -- whatever is returned on the way, finishing completes the encoding of all that was added
    obtain ⟨out, hout, hall⟩ := encodeChunks_spec henc.logged fuel chunks hlive hfuel
    have hflat : (chunks.filter (· ≠ [])).flatten = chunks.flatten := List.flatten_filter_ne_nil
    obtain ⟨out', hout', hall'⟩ := encodeChunks_spec henc.logged fuel (chunks.filter (· ≠ [])) hlive
      (by rw [hflat]; exact hfuel)
    rw [hflat, ← hall] at hall'
    have heq : out' = out := List.append_cancel_left hall'
    exact ⟨out, hout, heq ▸ hout'⟩

/-! ### Two empty strings -/

theorem copyCoder_stuck : StuckOnceStalled copyCoder false := by
  intro f s room r hreach _ hstalled _ hr
  obtain ⟨htaken, hemitted, hret⟩ := copyCoder_run hr
  rw [(copyCoder_reaches hreach).2, hstalled] at hret
  exact ⟨by rw [hret]; simp, by simp [CodeResult.Progress, htaken, hemitted]⟩

/-- A raw context over the copying coder. -/
def copyEncoder : XzEncodeContext (Bool × Feed) where
  strm := .init (false, {})
  status := .ok
  filterId := LZMA_FILTER_LZMA2
  opt := ⟨0x800000, 3, 0, 2, 2, 64, 0x14, 0⟩
  format := castUInt32 XZ_FORMAT_RAW
  check := LZMA_CHECK_CRC64

theorem copyEncoder_init :
    xzEncodeInit copyLiblzma.logged {} (some XZ_FORMAT_RAW) none = .value copyEncoder := by
  rfl

theorem emptyAddsHarmless_iff_copy :
    EmptyAddsHarmless copyLiblzma.logged 9 copyEncoder [[1], [], [2]] ↔
      ∀ step ∈ addTrace copyLiblzma.logged 9 copyEncoder [[1], [], [2]], ¬ AddsToStalled step :=
  emptyAddsHarmless_iff copyEncoder_init copyCoder_healthyEncoder copyCoder_stuck [[1], [], [2]]
    (by decide)

/-- The second of two empty strings makes `xz_encode_add` return `false`. -/
theorem second_empty_add_fails :
    xzEncodeInit copyLiblzma.logged {} (some XZ_FORMAT_RAW) none = .value copyEncoder ∧
      HealthyEncoder copyCoder false id ∧ StuckOnceStalled copyCoder false ∧
      ¬ EmptyAddsHarmless copyLiblzma.logged 9 copyEncoder [[], []] := by
  refine ⟨copyEncoder_init, copyCoder_healthyEncoder, copyCoder_stuck, ?_⟩
  intro h
  obtain ⟨first, second, htrace, hfalse⟩ : ∃ first second,
      addTrace copyLiblzma.logged 9 copyEncoder [[], []] = [first, second] ∧
        second.result.map PhpReturn.isFalse = some true := ⟨_, _, rfl, rfl⟩
  obtain ⟨out, obj', hout⟩ := h.strings second (by rw [htrace]; simp)
  rw [Runs.Step.result, hout] at hfalse
  cases hfalse

end PhpExtXz
