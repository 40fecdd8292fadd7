/-
# PhpExtXz.XzEncode — `xz_encode.c`: the one-shot encoder.

`phpXzEncodeString` is `php_xz_encode_string`: a loop of `LZMA_RUN` calls until the input is used up,
then a loop of `LZMA_FINISH` calls until `LZMA_STREAM_END`, both into one growing string.

`phpXzEncodeString_spec`: with a healthy encoder it returns the complete encoding of its input.
-/
import PhpExtXz.Php
import PhpExtXz.ZendString

namespace PhpExtXz

open FuelLoop

variable {σ : Type}

/-! ## The model -/

/-- One pass of `while (strm.avail_in > 0)` in `php_xz_encode_string`. Leaving with `none` is the
exit that releases the string and returns `NULL`. -/
def encodeRunTurn (c : Coder σ) (data : List UInt8) (w : OutString σ) :
    Exec MemoryFault (Turn (OutString σ) (Option (OutString σ))) :=
  if 0 < w.strm.availIn then do
    let (ret, w) ← w.code c .run data
    if ret ≠ .ok then pure (.leave none)
    else if w.strm.availOut = 0 then pure (.again w.noteUsed.grow)
    else pure (.again w)
  else pure (.leave (some w))

/-- One pass of `do … while (ret != LZMA_STREAM_END)` in `php_xz_encode_string`. -/
def encodeFinishTurn (c : Coder σ) (data : List UInt8) (w : OutString σ) :
    Exec MemoryFault (Turn (OutString σ) (Option (OutString σ))) := do
  let (ret, w) ← w.code c .finish data
  if ret ≠ .ok ∧ ret ≠ .streamEnd then pure (.leave none)
  else if ret = .streamEnd then pure (.leave (some w.noteUsed))
  else if w.strm.availOut = 0 then pure (.again w.noteUsed.grow)
  else pure (.again w)

/-- The filter chain of the one-shot encoder and of write streams. -/
def lzma2Filters (opt : LzmaOptionsLzma) : List LzmaFilter := [⟨LZMA_FILTER_LZMA2, opt⟩]

/-- `php_xz_encode_string(data, data_len, level, format)`; `none` is `NULL`. -/
def phpXzEncodeString (L : Liblzma σ) (fuel : Nat) (data : List UInt8) (level format : UInt32) :
    Exec MemoryFault (Option (List UInt8)) :=
  match L.lzmaLzmaPreset level with
  | none => pure none
  | some opt =>
    match if format = castUInt32 XZ_FORMAT_RAW then L.lzmaRawEncoder (lzma2Filters opt)
      else L.lzmaStreamEncoder (lzma2Filters opt) LZMA_CHECK_CRC64 with
    | .error _ => pure none
    | .ok s => do
      match ← loop (encodeRunTurn L.coder data) fuel (.start (.init s) data.length) with
      | none => pure none
      | some w =>
        match ← loop (encodeFinishTurn L.coder data) fuel w with
        | none => pure none
        | some w => pure (some w.noteUsed.result)

/-- `php_xz_encoder_init_stream(strm, level)`: the coder it installs, `none` when it returns 0. -/
def phpXzEncoderInitStream (L : Liblzma σ) (level : UInt32) : Option σ :=
  match L.lzmaLzmaPreset level with
  | none => none
  | some opt => (L.lzmaStreamEncoder (lzma2Filters opt) LZMA_CHECK_CRC64).toOption

/-! ## What the loops compute -/

variable {c : Coder σ} {s₀ : σ} {Enc : List UInt8 → List UInt8} {data : List UInt8}

/-- The invariant of both loops: the ledger of the coder is in phase `P`, and there is room. -/
structure Encoding (c : Coder σ) (s₀ : σ) (data : List UInt8) (P : Feed → Prop)
    (w : OutString σ) : Prop where
  tracks : ∃ f, P f ∧ OutString.Track c s₀ [] data data f w
  room : 0 < w.strm.availOut

/-- The measure of both loops: input left, plus output still to come. -/
def encodeMeasure (Enc : List UInt8 → List UInt8) (data : List UInt8) (w : OutString σ) : Nat :=
  w.strm.availIn + ((Enc data).length - w.produced.length)

/-- One pass of the `LZMA_RUN` loop with input left: it goes round again, closer to the end. -/
theorem encodeRunTurn_again (henc : HealthyEncoder c s₀ Enc) {w : OutString σ}
    (h : Encoding c s₀ data (·.finishing = none) w) (hin : 0 < w.strm.availIn) :
    ∃ w', encodeRunTurn c data w = .ok (.again w') ∧ Encoding c s₀ data (·.finishing = none) w' ∧
      encodeMeasure Enc data w' < encodeMeasure Enc data w := by
  obtain ⟨⟨f, hf, ht⟩, hroom⟩ := h
  obtain ⟨r, hr⟩ : ∃ r, c.code w.strm.internal .run (w.left data) w.strm.availOut = r := ⟨_, rfl⟩
  obtain ⟨hok, hprog⟩ := henc.run_ok ht.reaches hf hroom (ht.left_ne_nil hin) hr
  obtain ⟨w', hcode, ht', hstrm, -⟩ := ht.call hroom hr trivial
  have hf' : (f.step .run (w.left data) r).finishing = none := hf
  have hprod : w'.produced = w.produced ++ r.emitted := ht.produced_step ht'
  have hpre : (w.produced ++ r.emitted).length ≤ (Enc data).length := by
    have hawaits : (f.step .run (w.left data) r).Awaits (w'.left data) := Or.inl hf
    have := henc.output_prefix ht'.reaches hawaits
    rw [ht'.input, ht'.output, List.nil_append, hprod] at this
    exact this.length_le
  have hlt := OutString.measure_advance hstrm (ht.taken_le hr) hprog hpre
  rw [← hprod] at hlt
  simp only [encodeRunTurn, if_pos hin, hcode, ok_bind, hok, ne_eq, not_true_eq_false, if_false]
  by_cases hfull : w'.strm.availOut = 0
  · refine ⟨w'.noteUsed.grow, by rw [if_pos hfull]; rfl, ⟨⟨_, hf', ht'.grow hfull⟩, ?_⟩, ?_⟩
    · exact Nat.succ_pos _
    · rw [encodeMeasure, OutString.grow_produced ht'.fits]
      exact hlt
  · exact ⟨w', by rw [if_neg hfull]; rfl, ⟨⟨_, hf', ht'⟩, Nat.pos_of_ne_zero hfull⟩, hlt⟩

/-- The `LZMA_RUN` loop feeds all of the input. -/
theorem encodeRunLoop (henc : HealthyEncoder c s₀ Enc) {w : OutString σ}
    (h : Encoding c s₀ data (·.finishing = none) w) {fuel : Nat}
    (hfuel : encodeMeasure Enc data w < fuel) :
    ∃ w', loop (encodeRunTurn c data) fuel w = .ok (some w') ∧ w'.strm.availIn = 0 ∧
      Encoding c s₀ data (·.finishing = none) w' := by
  obtain ⟨b, hloop, w', rfl, h0, hw'⟩ := loop_returns
    (fun w => Encoding c s₀ data (·.finishing = none) w) (encodeMeasure Enc data)
    (R := fun b => ∃ w', b = some w' ∧ w'.strm.availIn = 0 ∧
      Encoding c s₀ data (·.finishing = none) w')
    (fun w hw => by
      by_cases hin : 0 < w.strm.availIn
      · exact Or.inl (encodeRunTurn_again henc hw hin)
      · exact Or.inr ⟨some w, by rw [encodeRunTurn, if_neg hin]; rfl, w, rfl, by omega, hw⟩)
    fuel w h hfuel
  exact ⟨w', hloop, h0, hw'⟩

/-- One pass of the `LZMA_FINISH` loop: it fills the string and goes round again, or it ends with the
complete encoding in the string. -/
theorem encodeFinishTurn_step (henc : HealthyEncoder c s₀ Enc) {w : OutString σ}
    (h : Encoding c s₀ data (·.Awaits []) w) (h0 : w.strm.availIn = 0) :
    (∃ w', encodeFinishTurn c data w = .ok (.again w') ∧
      (Encoding c s₀ data (·.Awaits []) w' ∧ w'.strm.availIn = 0) ∧
      encodeMeasure Enc data w' < encodeMeasure Enc data w) ∨
    (∃ w', encodeFinishTurn c data w = .ok (.leave (some w')) ∧ w'.Fits ∧
      w'.produced = Enc data) := by
  obtain ⟨⟨f, hf, ht⟩, hroom⟩ := h
  have hleft : w.left data = [] :=
    List.eq_nil_of_length_eq_zero (by rw [OutString.length_left ht.reads, h0])
  obtain ⟨r, hr⟩ : ∃ r, c.code w.strm.internal .finish (w.left data) w.strm.availOut = r := ⟨_, rfl⟩
  have hr' : c.code w.strm.internal .finish [] w.strm.availOut = r := by rw [← hleft, hr]
  have hallow : f.Allows .finish (w.left data) := by rw [hleft]; exact hf
  obtain ⟨w', hcode, ht', hstrm, -⟩ := ht.call hroom hr hallow
  have hprod : w'.produced = w.produced ++ r.emitted := ht.produced_step ht'
  have hawaits : (f.step .finish (w.left data) r).Awaits [] := by
    right; rw [hleft]; simp [Feed.step]
  have htaken : f.taken = data := ht.taken_of_empty h0
  have h0' : w'.strm.availIn = 0 := by
    have := ht.taken_le hr
    rw [hstrm, LzmaStream.advance_availIn]
    omega
  rcases henc.finish_ok ht.reaches hf hroom hr' with ⟨hok, hfull⟩ | ⟨hend, -, hall⟩
  · -- the room was used up: the string grows, and less of the encoding is to come
    left
    have hfull' : w'.strm.availOut = 0 := by
      rw [hstrm, LzmaStream.advance_availOut]
      omega
    have hpre : w'.produced.length ≤ (Enc data).length := by
      have := henc.output_prefix ht'.reaches hawaits
      rw [List.append_nil, ht'.output, List.nil_append, ht'.taken_of_empty h0'] at this
      exact this.length_le
    refine ⟨w'.noteUsed.grow, ?_, ⟨⟨⟨_, hawaits, ht'.grow hfull'⟩, Nat.succ_pos _⟩, h0'⟩, ?_⟩
    · simp [encodeFinishTurn, hcode, hok, hfull']
    · rw [encodeMeasure, encodeMeasure, OutString.grow_produced ht'.fits]
      simp only [OutString.grow_availIn, OutString.noteUsed_strm, hprod, List.length_append]
        at hpre ⊢
      omega
  · right
    refine ⟨w'.noteUsed, ?_, ht'.fits, ?_⟩
    · simp [encodeFinishTurn, hcode, hend]
    · rw [OutString.noteUsed_produced, hprod, ← List.nil_append w.produced, ← ht.output, hall,
        htaken, List.append_nil]

/-- The `LZMA_FINISH` loop ends with the complete encoding in the string. -/
theorem encodeFinishLoop (henc : HealthyEncoder c s₀ Enc) {w : OutString σ}
    (h : Encoding c s₀ data (·.Awaits []) w) (h0 : w.strm.availIn = 0) {fuel : Nat}
    (hfuel : encodeMeasure Enc data w < fuel) :
    ∃ w', loop (encodeFinishTurn c data) fuel w = .ok (some w') ∧ w'.Fits ∧
      w'.produced = Enc data := by
  obtain ⟨b, hloop, w', rfl, hw'⟩ := loop_returns
    (fun w => Encoding c s₀ data (·.Awaits []) w ∧ w.strm.availIn = 0) (encodeMeasure Enc data)
    (R := fun b => ∃ w' : OutString σ, b = some w' ∧ w'.Fits ∧ w'.produced = Enc data)
    (fun w hw => by
      rcases encodeFinishTurn_step henc hw.1 hw.2 with hagain | ⟨w', hturn, hfits, hprod⟩
      · exact Or.inl hagain
      · exact Or.inr ⟨some w', hturn, w', rfl, hfits, hprod⟩)
    fuel w ⟨h, h0⟩ hfuel
  exact ⟨w', hloop, hw'⟩

/-- **The one-shot encoder returns the complete encoding of its input**, at any fuel above the length
of the input plus that of the encoding. -/
theorem phpXzEncodeString_spec {L : Liblzma σ} {level : UInt32} {opt : LzmaOptionsLzma}
    (hpreset : L.lzmaLzmaPreset level = some opt)
    (hinit : L.lzmaStreamEncoder (lzma2Filters opt) LZMA_CHECK_CRC64 = .ok s₀)
    (henc : HealthyEncoder L.coder s₀ Enc) (data : List UInt8) (fuel : Nat)
    (hfuel : data.length + (Enc data).length < fuel) :
    phpXzEncodeString L fuel data level (castUInt32 XZ_FORMAT_XZ) = .ok (some (Enc data)) := by
  have hstart : Encoding L.coder s₀ data (·.finishing = none)
      (OutString.start (.init s₀) data.length) :=
    ⟨⟨{}, rfl, .init⟩, Nat.succ_pos _⟩
  have hμ : ∀ w : OutString σ, w.strm.availIn ≤ data.length → encodeMeasure Enc data w < fuel := by
    intro w hw
    rw [encodeMeasure]
    omega
  obtain ⟨w, hrun, h0, ⟨f, hf, ht⟩, hroom⟩ := encodeRunLoop henc hstart (hμ _ (le_refl _))
  obtain ⟨w', hfin, hfits, hprod⟩ :=
    encodeFinishLoop henc ⟨⟨f, Or.inl hf, ht⟩, hroom⟩ h0 (hμ w (by omega))
  have hfmt : ¬ castUInt32 XZ_FORMAT_XZ = castUInt32 XZ_FORMAT_RAW := by decide
  simp only [phpXzEncodeString, hpreset, if_neg hfmt, hinit, hrun, hfin, ok_bind, pure_eq_ok,
    OutString.result_noteUsed hfits, hprod]

/-- The result does not depend on the fuel that was enough for it. -/
theorem phpXzEncodeString_mono {L : Liblzma σ} {level format : UInt32} {n m : Nat}
    {res : Option (List UInt8)} (h : phpXzEncodeString L n data level format = .ok res)
    (hnm : n ≤ m) : phpXzEncodeString L m data level format = .ok res := by
  unfold phpXzEncodeString at h ⊢
  split
  · rename_i hpreset
    simpa only [hpreset] using h
  · rename_i opt hpreset
    simp only [hpreset] at h
    split
    · rename_i e hinit
      simpa only [hinit] using h
    · rename_i s hinit
      simp only [hinit] at h
      obtain ⟨w, hrun, h⟩ := bind_eq_ok.mp h
      rw [loop_mono hrun hnm, ok_bind]
      cases w with
      | none => exact h
      | some w =>
        obtain ⟨w', hfin, h⟩ := bind_eq_ok.mp h
        simp only [loop_mono hfin hnm, ok_bind]
        exact h

end PhpExtXz
