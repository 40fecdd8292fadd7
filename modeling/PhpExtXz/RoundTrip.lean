/-
# PhpExtXz.RoundTrip — the one-shot functions, one after the other.

`decode_encode_concatenated`: whatever strings and levels were encoded one by one, decoding the
concatenation of the results gives back the concatenation of the strings.
-/
import PhpExtXz.XzEncode
import PhpExtXz.XzDecode
import PhpExtXz.ConcreteCoders

namespace PhpExtXz

open FuelLoop

variable {σ : Type} {L : Liblzma σ} {d₀ : σ}

/-- A string to be encoded, and the level to encode it at. -/
structure EncodeJob where
  data : List UInt8
  level : UInt32

/-- `e` is what the one-shot encoder returns for `job`. -/
def EncodeJob.Returns (L : Liblzma σ) (job : EncodeJob) (e : List UInt8) : Prop :=
  ∃ fuel, phpXzEncodeString L fuel job.data job.level (castUInt32 XZ_FORMAT_XZ) = .ok (some e)

/-- With healthy encoders, `E level` being the complete encoding at a level, the one-shot encoder can
return nothing but `E`. -/
theorem EncodeJob.Returns.eq {E : UInt32 → List UInt8 → List UInt8}
    (henc : ∀ level opt s₀, level ≤ 9 → L.lzmaLzmaPreset level = some opt →
      L.lzmaStreamEncoder (lzma2Filters opt) LZMA_CHECK_CRC64 = .ok s₀ →
      HealthyEncoder L.coder s₀ (E level))
    {job : EncodeJob} {e : List UInt8} (hlevel : job.level ≤ 9) (h : job.Returns L e) :
    e = E job.level job.data := by
  obtain ⟨fuel, h⟩ := h
  have hfmt : ¬ castUInt32 XZ_FORMAT_XZ = castUInt32 XZ_FORMAT_RAW := by decide
  -- the encoder was created, since a string was returned
  cases hpreset : L.lzmaLzmaPreset job.level with
  | none => simp [phpXzEncodeString, hpreset] at h
  | some opt =>
    cases hinit : L.lzmaStreamEncoder (lzma2Filters opt) LZMA_CHECK_CRC64 with
    | error ret => simp [phpXzEncodeString, hpreset, hfmt, hinit] at h
    | ok s₀ =>
      have hspec := phpXzEncodeString_spec hpreset hinit (henc _ _ _ hlevel hpreset hinit) job.data
        (fuel + (job.data.length + (E job.level job.data).length) + 1) (by omega)
      have h' := phpXzEncodeString_mono h
        (show fuel ≤ fuel + (job.data.length + (E job.level job.data).length) + 1 by omega)
      rw [hspec] at h'
      simpa using h'.symm

/-- **Round trip over concatenation.** What is assumed of the decoder is about the bytes it is given:
it decodes the concatenated encodings, and has put out everything when it has taken the last byte. -/
theorem decode_encode_concatenated {E : UInt32 → List UInt8 → List UInt8}
    (henc : ∀ level opt s₀, level ≤ 9 → L.lzmaLzmaPreset level = some opt →
      L.lzmaStreamEncoder (lzma2Filters opt) LZMA_CHECK_CRC64 = .ok s₀ →
      HealthyEncoder L.coder s₀ (E level))
    (hauto : L.lzmaAutoDecoder UINT64_MAX LZMA_CONCATENATED = .ok d₀) (jobs : List EncodeJob)
    (hlevels : ∀ job ∈ jobs, job.level ≤ 9)
    (hdec : Decodes L.coder d₀ (jobs.flatMap fun job => E job.level job.data)
      (jobs.flatMap (·.data)))
    (hwhole : ∀ {f st}, Reaches L.coder d₀ f st → f.finishing = none → f.failed = false →
      f.taken = (jobs.flatMap fun job => E job.level job.data) →
      f.emitted = jobs.flatMap (·.data))
    (es : List (List UInt8)) (hes : List.Forall₂ (EncodeJob.Returns L) jobs es) (fuel : Nat)
    (hfuel : es.flatten.length + (jobs.flatMap (·.data)).length < fuel) :
    phpXzDecodeString L fuel es.flatten 0 = .ok (some (jobs.flatMap (·.data))) := by
  have hflat : es.flatten = jobs.flatMap fun job => E job.level job.data := by
    clear hdec hwhole hfuel
    induction hes with
    | nil => rfl
    | cons hjob _ ih =>
      rw [List.flatten_cons, List.flatMap_cons, hjob.eq henc (hlevels _ List.mem_cons_self),
        ih fun job h => hlevels job (List.mem_cons_of_mem _ h)]
  rw [hflat] at hfuel ⊢
  have hinit : L.lzmaAutoDecoder (memoryLimitOrMax 0) LZMA_CONCATENATED = .ok d₀ := by
    rw [show memoryLimitOrMax 0 = UINT64_MAX by decide, hauto]
  obtain ⟨f, st, hfed, hresult⟩ := phpXzDecodeString_spec hinit hdec List.prefix_rfl fuel hfuel
  obtain ⟨hreach, hf, htaken⟩ := hfed.reaches .start rfl
  have hfine := hfed.notFailed hdec .start rfl rfl (by simp)
  rw [hresult, hwhole hreach hf hfine (by simpa using htaken)]

/-- Two strings, the second one empty, in the format with marks. -/
theorem decode_encode_concatenated_marked :
    phpXzDecodeString markLiblzma 7 ([[1, 7, 1, 8], []] : List (List UInt8)).flatten 0 =
      .ok (some [7, 8]) := by
  have henc : ∀ level opt s₀, level ≤ 9 → markLiblzma.lzmaLzmaPreset level = some opt →
      markLiblzma.lzmaStreamEncoder (lzma2Filters opt) LZMA_CHECK_CRC64 = .ok s₀ →
      HealthyEncoder markLiblzma.coder s₀ mark := by
    rintro level opt s₀ - - hinit
    cases hinit
    exact markEncoder_healthyEncoder
  have hreturns : ∀ data level, level ≤ 9 →
      EncodeJob.Returns markLiblzma ⟨data, level⟩ (mark data) := by
    intro data level hlevel
    have hpreset : markLiblzma.lzmaLzmaPreset level = some _ := if_pos hlevel
    have hspec := phpXzEncodeString_spec hpreset rfl markEncoder_healthyEncoder data _
      (Nat.lt_succ_self _)
    exact ⟨_, hspec⟩
  have hdec := markTable_decodesWhole [7, 8] (by decide)
  exact decode_encode_concatenated (E := fun _ => mark) henc rfl [⟨[7, 8], 0⟩, ⟨[], 9⟩]
    (by simp) hdec.toDecodes (fun hreach _ _ htaken => by
      rw [markTable_emitted hreach, htaken]
      rfl) [[1, 7, 1, 8], []] (.cons (hreturns _ _ (by decide)) (.cons (hreturns _ _ (by decide)) .nil)) 7
    (by decide)

end PhpExtXz
