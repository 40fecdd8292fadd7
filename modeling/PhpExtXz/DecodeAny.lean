/-
# PhpExtXz.DecodeAny — decoding any bytes, in one call or chunk by chunk.

What `xzdecode` is given need not be a file. `phpXzDecodeString` calls the decoder until all input is
taken, and returns `NULL` at the first code that is neither `LZMA_OK` nor `LZMA_STREAM_END`; a context
returns `false` there, but it calls the decoder for as long as a call fills its room. So the two see the
same failures, up to one: if it is only the last byte that makes the bytes wrong, and a full string still
stands between the decoder and the verdict, the one-shot function has stopped before (`one_shot_decides`).
Where nothing fails it returns the beginning of what the context returns.
-/
import PhpExtXz.DecodeChunks
import PhpExtXz.DecodePaths
import PhpExtXz.Lib.Components

namespace PhpExtXz

open FuelLoop Runs OutString

variable {σ : Type} {c : Coder σ} {s₀ : σ} {out : List UInt8 → List UInt8}
  {verdict : List UInt8 → Verdict} {data : List UInt8} {f : Feed} {w : OutString σ}

/-! ## The loop on any bytes -/

/-- The decoder has been asked for more with all that has been taken, and has neither ended nor failed. -/
structure Deciding (c : Coder σ) (s₀ : σ) (data : List UInt8) (f : Feed) (w : OutString σ) : Prop where
  track : Track c s₀ [] data data f w
  running : f.finishing = none
  notEnded : f.ended = false
  notFailed : f.failed = false
  amid : Amid c s₀ [data] f w.strm.internal (w.left data)
  aligned : XZ_BUFFER_SIZE ∣ w.out.len
  room : 0 < w.strm.availOut ∧ w.strm.availOut ≤ XZ_BUFFER_SIZE

/-- What is still to be taken, and what may still come out. -/
def Deciding.toCome (out : List UInt8 → List UInt8) (data : List UInt8) (w : OutString σ) : Nat :=
  w.strm.availIn + ((out data).length - w.produced.length)

theorem Deciding.start (s₀ : σ) (data : List UInt8) :
    Deciding c s₀ data {} (.start (.init s₀) data.length) :=
  ⟨.init, rfl, rfl, rfl, Amid.start .nil data, Nat.dvd_refl _, Nat.succ_pos _, le_refl _⟩

/-- With input and room, a decoder that never ends under `LZMA_RUN` makes progress or fails. -/
theorem ByteDecoder.run_or_fails (hdec : ByteDecoder c s₀ out verdict) (hrun : ∀ x, verdict x ≠ .ended)
    {s : σ} {input : List UInt8} {room : Nat} {r : CodeResult σ} (hreach : Reaches c s₀ f s)
    (hf : f.finishing = none) (hended : f.ended = false) (hfailed : f.failed = false) (hroom : 0 < room)
    (hne : input ≠ []) (hr : c.code s .run input room = r) :
    (r.ret = .ok ∧ r.Progress) ∨
      (r.ret.fails = true ∧ ∃ y, y <+: f.taken ++ input ∧ verdict y = .failed) := by
  rcases r.ret.ok_or_end_or_stall_or_fails with hok | hend | hstall | hfails
  · exact Or.inl ⟨hok, hdec.run_progress hreach hf hended hfailed hroom hne hr hok⟩
  · exact absurd (hdec.run_ended hreach hf hended hfailed hroom hr hend).1 (hrun _)
  · exact absurd ((hdec.run_stalled hreach hf hended hfailed hroom hr).1 hstall).2.1 hne
  · obtain ⟨y, hat⟩ := hdec.run_failed hreach hf hended hfailed hroom hr hfails
    exact Or.inr ⟨hfails, y, hat.inside, hat.decided⟩

/-- **One pass with input left.** It goes round again with less to come, or it returns `NULL` behind bytes
that cannot be decoded. -/
theorem decodeTurn_deciding (hdec : ByteDecoder c s₀ out verdict) (hrun : ∀ x, verdict x ≠ .ended)
    (h : Deciding c s₀ data f w) (hin : 0 < w.strm.availIn) :
    (∃ w', decodeTurn c data w = .ok (.again w') ∧ (∃ f', Deciding c s₀ data f' w') ∧
      Deciding.toCome out data w' < Deciding.toCome out data w) ∨
    decodeTurn c data w = .ok (.leave none) ∧ ∃ y, y <+: data ∧ verdict y = .failed := by
  obtain ⟨r, hr⟩ : ∃ r, c.code w.strm.internal .run (w.left data) w.strm.availOut = r := ⟨_, rfl⟩
  have hne := h.track.left_ne_nil hin
  obtain ⟨w', hcode, ht', hstrm, hlen⟩ := h.track.call h.room.1 hr trivial
  rcases hdec.run_or_fails hrun h.track.reaches h.running h.notEnded h.notFailed h.room.1 hne hr with
    ⟨hok, hprog⟩ | ⟨hfails, y, hy, hbad⟩
  · refine Or.inl ?_
    have hf' : (f.step .run (w.left data) r).finishing = none := h.running
    have hended' : (f.step .run (w.left data) r).ended = false := by
      simp [Feed.step, h.notEnded, hok]
    have hfailed' : (f.step .run (w.left data) r).failed = false :=
      Feed.notFailed_step h.notFailed (by rw [hok]; rfl)
    have hleft : w'.left data = (w.left data).drop r.taken := by
      rw [OutString.left, OutString.left, hstrm, LzmaStream.advance_nextIn, List.drop_drop]
    have hamid' : Amid c s₀ [data] (f.step .run (w.left data) r) w'.strm.internal (w'.left data) := by
      rw [hleft, hstrm]
      exact h.amid.call hne (availOut_eq_roomAt h.track h.aligned h.room ▸ hr)
    -- what comes out is what the bytes decode to
    have hprod : w'.produced = w.produced ++ r.emitted := h.track.produced_step ht'
    have htotal : (w.produced ++ r.emitted).length ≤ (out data).length := by
      have hpre := (hdec.out_prefix ht'.reaches (ht'.reaches.not_fatal hfailed')).trans
        (hdec.out_mono ht'.taken_prefix)
      rw [ht'.output, List.nil_append, hprod] at hpre
      exact hpre.length_le
    have hlt := measure_advance hstrm (h.track.taken_le hr) hprog htotal
    rw [← hprod] at hlt
    simp only [decodeTurn, if_pos hin, hcode, ok_bind, hok, ne_eq, not_true_eq_false, false_and, if_false]
    by_cases hfull : w'.strm.availOut = 0
    · refine ⟨w'.noteUsed.grow, by rw [if_pos hfull]; rfl, ⟨_, ht'.grow hfull, hf', hended', hfailed',
        hamid', ?_, Nat.succ_pos _, le_refl _⟩, ?_⟩
      · exact Nat.dvd_add (hlen ▸ h.aligned) (Nat.dvd_refl _)
      · show w'.strm.availIn + ((out data).length - w'.noteUsed.grow.produced.length) < _
        rw [grow_produced ht'.fits]
        exact hlt
    · refine ⟨w', by rw [if_neg hfull]; rfl, ⟨_, ht', hf', hended', hfailed', hamid', hlen ▸ h.aligned,
        Nat.pos_of_ne_zero hfull, ?_⟩, hlt⟩
      have hroom := h.room.2
      rw [hstrm, LzmaStream.advance_availOut]
      omega
  · refine Or.inr ⟨?_, y, h.track.input ▸ hy, hbad⟩
    have hne := LzmaRet.ne_of_fails hfails
    have hbadCode : r.ret ≠ .ok ∧ r.ret ≠ .streamEnd := ⟨hne.1, hne.2.1⟩
    simp only [decodeTurn, if_pos hin, hcode, ok_bind, if_pos hbadCode, pure_eq_ok]

/-! ## In one call -/

/-- What the one-shot function returns. -/
def OneShot (c : Coder σ) (s₀ : σ) (out : List UInt8 → List UInt8) (verdict : List UInt8 → Verdict)
    (data : List UInt8) : Option (List UInt8) → Prop
  | none => ∃ y, y <+: data ∧ verdict y = .failed
  | some o => o <+: out data ∧ (∃ f st, ConsumesAll c {} s₀ [data] f st ∧ o = f.emitted) ∧
      ∀ z, z <+: data → z ≠ data → verdict z = .more

/-- **The one-shot decoder on any bytes.** `NULL` says that they cannot be decoded. A string is what the
decoder has emitted when it has taken the last byte, and says that no earlier byte was wrong. -/
theorem phpXzDecodeString_any {L : Liblzma σ} {memoryLimit : UInt64}
    (hinit : L.lzmaAutoDecoder (memoryLimitOrMax memoryLimit) LZMA_CONCATENATED = .ok s₀)
    (hdec : ByteDecoder L.coder s₀ out verdict) (hrun : ∀ x, verdict x ≠ .ended) (data : List UInt8)
    (fuel : Nat) (hfuel : data.length + (out data).length < fuel) :
    ∃ r, phpXzDecodeString L fuel data memoryLimit = .ok r ∧ OneShot L.coder s₀ out verdict data r := by
  obtain ⟨b, hloop, hb⟩ := loop_returns (fun w => ∃ f, Deciding L.coder s₀ data f w)
    (Deciding.toCome out data)
    (R := fun b => (b = none ∧ ∃ y, y <+: data ∧ verdict y = .failed) ∨
      ∃ w f, b = some w ∧ w.strm.availIn = 0 ∧ Deciding L.coder s₀ data f w)
    (fun w ⟨f, hw⟩ => by
      by_cases hin : 0 < w.strm.availIn
      · rcases decodeTurn_deciding hdec hrun hw hin with hagain | ⟨hleave, hbad⟩
        · exact Or.inl hagain
        · exact Or.inr ⟨none, hleave, Or.inl ⟨rfl, hbad⟩⟩
      · exact Or.inr ⟨some w, by rw [decodeTurn, if_neg hin]; rfl, Or.inr ⟨w, f, rfl, by omega, hw⟩⟩)
    fuel (.start (.init s₀) data.length) ⟨{}, Deciding.start s₀ data⟩ (by
      show data.length + ((out data).length - _) < fuel
      omega)
  rcases hb with ⟨rfl, hbad⟩ | ⟨w, f, rfl, h0, hw⟩
  · exact ⟨none, by simp only [phpXzDecodeString, hinit, hloop, ok_bind, pure_eq_ok], hbad⟩
  · have htaken : f.taken = data := hw.track.taken_of_empty h0
    have hleft : w.left data = [] :=
      List.eq_nil_of_length_eq_zero (by rw [length_left hw.track.reads, h0])
    have hamid := hw.amid
    rw [hleft] at hamid
    refine ⟨some f.emitted, ?_, ?_, ⟨f, _, hamid.done, rfl⟩, ?_⟩
    · simp only [phpXzDecodeString, hinit, hloop, ok_bind, pure_eq_ok, result_noteUsed hw.track.fits,
        hw.track.output, List.nil_append]
    · have hpre := hdec.out_prefix hw.track.reaches (hw.track.reaches.not_fatal hw.notFailed)
      rw [htaken] at hpre
      exact hpre
    · intro z hz hne
      apply hdec.never_past hw.track.reaches hw.running hw.notFailed
      · rw [htaken]
        exact hz
      · rw [htaken]
        exact hne

/-! ## Beside a context -/

/-- What the one-shot function and a script that feeds the same bytes to a context say of each other. -/
structure SameVerdict (L : Liblzma σ) (s₀ : σ) (verdict : List UInt8 → Verdict) (data : List UInt8)
    (r : Option (List UInt8)) (steps : List (DecodeStep σ)) : Prop where
  refused : r = none → feedVerdict steps = .failed
  failed : feedVerdict steps = .failed → r = none ∨ ∀ z, z <+: data → z ≠ data → verdict z = .more
  decoded : feedVerdict steps ≠ .failed → ∃ f st, ConsumesAll L.coder {} s₀ [data] f st ∧
    r = some f.emitted ∧ f.emitted <+: feedOutput steps

/-- Where nothing is decided, nothing is wrong. -/
theorem DecidedAt.prefix_more {x y : List UInt8} (h : DecidedAt verdict data x .more) (hy : y <+: data) :
    verdict y = .more := by
  obtain rfl : x = data := h.undecided rfl
  by_cases hyx : y = x
  · rw [hyx]
    exact h.decided
  · exact h.first y hy hyx

end PhpExtXz
