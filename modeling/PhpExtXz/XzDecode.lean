/-
# PhpExtXz.XzDecode — `xz_decode.c`: the one-shot decoder, and feeding a decoder piece by piece.

`phpXzDecodeString` is `php_xz_decode_string`: `LZMA_RUN` calls into a growing string until the input
is used up. Two loops of the extension drive a decoder in this way, this one and the read operation
of streams: each offers a piece of input until all of it is taken, with output room up to the next
multiple of `XZ_BUFFER_SIZE`. `Consumes` and `ConsumesAll` are that way of driving, so that what the
loops have in common is said once.

`phpXzDecodeString_spec`: on the beginning of a file that decodes, the function returns what the
decoder has emitted at the moment it has taken its last byte.
-/
import PhpExtXz.ZendString

namespace PhpExtXz

open FuelLoop

variable {σ : Type}

/-! ## The model -/

/-- One pass of `while (strm.avail_in > 0)` in `php_xz_decode_string`. Leaving with `none` is the
exit that releases the string and returns `NULL`. -/
def decodeTurn (c : Coder σ) (data : List UInt8) (w : OutString σ) :
    Exec MemoryFault (Turn (OutString σ) (Option (OutString σ))) :=
  if 0 < w.strm.availIn then do
    let (ret, w) ← w.code c .run data
    if ret ≠ .ok ∧ ret ≠ .streamEnd then pure (.leave none)
    else if w.strm.availOut = 0 then pure (.again w.noteUsed.grow)
    else pure (.again w)
  else pure (.leave (some w))

/-- `memory_limit ? memory_limit : UINT64_MAX`. -/
def memoryLimitOrMax (memoryLimit : UInt64) : UInt64 :=
  if memoryLimit ≠ 0 then memoryLimit else UINT64_MAX

/-- `php_xz_decode_string(data, data_len, memory_limit)`; `none` is `NULL`. -/
def phpXzDecodeString (L : Liblzma σ) (fuel : Nat) (data : List UInt8) (memoryLimit : UInt64) :
    Exec MemoryFault (Option (List UInt8)) :=
  match L.lzmaAutoDecoder (memoryLimitOrMax memoryLimit) LZMA_CONCATENATED with
  | .error _ => pure none
  | .ok s => do
    match ← loop (decodeTurn L.coder data) fuel (.start (.init s) data.length) with
    | none => pure none
    | some w => pure (some w.noteUsed.result)

/-- `php_xz_decoder_init_stream(strm, memory_limit)`: the coder it installs, `none` when it returns
0. -/
def phpXzDecoderInitStream (L : Liblzma σ) (memoryLimit : UInt64) : Option σ :=
  (L.lzmaAutoDecoder (memoryLimitOrMax memoryLimit) LZMA_CONCATENATED).toOption

/-! ## Feeding piece by piece -/

/-- The output room the decoding loops offer: up to the next multiple of `XZ_BUFFER_SIZE` of the
total output. -/
def roomAt (f : Feed) : Nat := XZ_BUFFER_SIZE - f.emitted.length % XZ_BUFFER_SIZE

theorem roomAt_pos (f : Feed) : 0 < roomAt f := by
  have := Nat.mod_lt f.emitted.length (show 0 < XZ_BUFFER_SIZE by decide)
  unfold roomAt
  omega

/-- One piece is offered under `LZMA_RUN` until all of it is taken. -/
inductive Consumes (c : Coder σ) : Feed → σ → List UInt8 → Feed → σ → Prop
  | done {f : Feed} {s : σ} : Consumes c f s [] f s
  | call {f f' : Feed} {s s' : σ} {input : List UInt8} {r : CodeResult σ} :
      input ≠ [] → c.code s .run input (roomAt f) = r →
      Consumes c (f.step .run input r) r.state (input.drop r.taken) f' s' →
      Consumes c f s input f' s'

/-- Pieces are offered one after the other. -/
inductive ConsumesAll (c : Coder σ) : Feed → σ → List (List UInt8) → Feed → σ → Prop
  | nil {f : Feed} {s : σ} : ConsumesAll c f s [] f s
  | cons {f f₁ f₂ : Feed} {s s₁ s₂ : σ} {p : List UInt8} {ps : List (List UInt8)} :
      Consumes c f s p f₁ s₁ → ConsumesAll c f₁ s₁ ps f₂ s₂ → ConsumesAll c f s (p :: ps) f₂ s₂

/-- Nothing of `D` is still inside the decoder once it has taken the last byte of `s`, whether `s`
comes in one piece or in pieces that fit an `XZ_BUFFER_SIZE` buffer. -/
def NothingWaits (c : Coder σ) (s₀ : σ) (s D : List UInt8) : Prop :=
  ∀ ps : List (List UInt8), ps.flatten = s →
    (ps = [s] ∨ ∀ p ∈ ps, p ≠ [] ∧ p.length ≤ XZ_BUFFER_SIZE) →
    ∀ f st, ConsumesAll c {} s₀ ps f st → f.emitted = D

variable {c : Coder σ} {s₀ s s₁ s₂ : σ} {f f₁ f₂ : Feed} {input data p : List UInt8}
  {ps qs : List (List UInt8)}

/-- A piece leads to one state only. -/
theorem Consumes.unique (h₁ : Consumes c f s input f₁ s₁) :
    ∀ {f₂ s₂}, Consumes c f s input f₂ s₂ → f₁ = f₂ ∧ s₁ = s₂ := by
  induction h₁ with
  | done =>
    intro f₂ s₂ h₂
    cases h₂ with
    | done => exact ⟨rfl, rfl⟩
    | call hne _ _ => exact absurd rfl hne
  | call hne hr _ ih =>
    intro f₂ s₂ h₂
    cases h₂ with
    | done => exact absurd rfl hne
    | call _ hr' h₂ =>
      subst hr hr'
      exact ih h₂

theorem ConsumesAll.unique (h₁ : ConsumesAll c f s ps f₁ s₁) :
    ∀ {f₂ s₂}, ConsumesAll c f s ps f₂ s₂ → f₁ = f₂ ∧ s₁ = s₂ := by
  induction h₁ with
  | nil =>
    intro f₂ s₂ h₂
    cases h₂
    exact ⟨rfl, rfl⟩
  | cons hp _ ih =>
    intro f₂ s₂ h₂
    cases h₂ with
    | cons hp' hps' =>
      obtain ⟨rfl, rfl⟩ := hp.unique hp'
      exact ih hps'

theorem ConsumesAll.snoc (h : ConsumesAll c f s ps f₁ s₁) (hp : Consumes c f₁ s₁ p f₂ s₂) :
    ConsumesAll c f s (ps ++ [p]) f₂ s₂ := by
  induction h with
  | nil => exact .cons hp .nil
  | cons hq _ ih => exact .cons hq (ih hp)

/-- Feeding a piece takes exactly that piece. -/
theorem Consumes.reaches (h : Consumes c f s input f₁ s₁) (hreach : Reaches c s₀ f s)
    (hf : f.finishing = none) :
    Reaches c s₀ f₁ s₁ ∧ f₁.finishing = none ∧ f₁.taken = f.taken ++ input := by
  induction h with
  | done => exact ⟨hreach, hf, (List.append_nil _).symm⟩
  | @call f _ _ _ input r _ hr _ ih =>
    obtain ⟨hreach', hf', htaken⟩ := ih (hreach.run (roomAt_pos f) hr) hf
    exact ⟨hreach', hf', by rw [htaken, Feed.taken_step_append]⟩

theorem ConsumesAll.reaches (h : ConsumesAll c f s ps f₁ s₁) (hreach : Reaches c s₀ f s)
    (hf : f.finishing = none) :
    Reaches c s₀ f₁ s₁ ∧ f₁.finishing = none ∧ f₁.taken = f.taken ++ ps.flatten := by
  induction h with
  | nil => exact ⟨hreach, hf, by simp⟩
  | cons hp _ ih =>
    obtain ⟨hreach', hf', htaken⟩ := hp.reaches hreach hf
    obtain ⟨hreach'', hf'', htaken'⟩ := ih hreach' hf'
    exact ⟨hreach'', hf'', by rw [htaken', htaken, List.flatten_cons, List.append_assoc]⟩

/-- Feeding pieces of a file that decodes does not fail. -/
theorem Consumes.notFailed {file D : List UInt8} (hdec : Decodes c s₀ file D)
    (h : Consumes c f s input f₁ s₁) (hreach : Reaches c s₀ f s) (hf : f.finishing = none)
    (hx : f.failed = false) (hpre : f.taken ++ input <+: file) : f₁.failed = false := by
  induction h with
  | done => exact hx
  | @call f _ _ _ input r hne hr _ ih =>
    obtain ⟨hok, -⟩ := hdec.run_ok hreach hf hx hpre (roomAt_pos f) hne hr
    refine ih (hreach.run (roomAt_pos f) hr) hf (Feed.notFailed_step hx (by rw [hok]; rfl)) ?_
    rw [Feed.taken_step_append]
    exact hpre

theorem ConsumesAll.notFailed {file D : List UInt8} (hdec : Decodes c s₀ file D)
    (h : ConsumesAll c f s ps f₁ s₁) (hreach : Reaches c s₀ f s) (hf : f.finishing = none)
    (hx : f.failed = false) (hpre : f.taken ++ ps.flatten <+: file) : f₁.failed = false := by
  induction h with
  | nil => exact hx
  | @cons f _ _ s _ _ p ps hp _ ih =>
    rw [List.flatten_cons, ← List.append_assoc] at hpre
    obtain ⟨hreach', hf', htaken⟩ := hp.reaches hreach hf
    refine ih hreach' hf' (hp.notFailed hdec hreach hf hx ?_) (by rw [htaken]; exact hpre)
    exact (List.prefix_append _ _).trans hpre

/-- Where feeding stands inside a piece: `ps` have been begun, `input` is what is left of the last
one, and whatever the rest of it leads to is what `ps` lead to. -/
def Amid (c : Coder σ) (s₀ : σ) (ps : List (List UInt8)) (f : Feed) (s : σ)
    (input : List UInt8) : Prop :=
  ∀ f' s', Consumes c f s input f' s' → ConsumesAll c {} s₀ ps f' s'

theorem Amid.start (h : ConsumesAll c {} s₀ ps f s) (p : List UInt8) :
    Amid c s₀ (ps ++ [p]) f s p :=
  fun _ _ hp => h.snoc hp

theorem Amid.call {r : CodeResult σ} (h : Amid c s₀ ps f s input) (hne : input ≠ [])
    (hr : c.code s .run input (roomAt f) = r) :
    Amid c s₀ ps (f.step .run input r) r.state (input.drop r.taken) :=
  fun _ _ hrest => h _ _ (.call hne hr hrest)

theorem Amid.done (h : Amid c s₀ ps f s []) : ConsumesAll c {} s₀ ps f s := h _ _ .done

/-! ## What the loop computes -/

/-- The invariant of the loop: the single piece `data` has been begun, and the room runs to the end
of the string, whose length is a multiple of `XZ_BUFFER_SIZE`. -/
structure Decoding (c : Coder σ) (s₀ : σ) (data : List UInt8) (w : OutString σ) : Prop where
  tracks : ∃ f, f.finishing = none ∧ f.failed = false ∧ OutString.Track c s₀ [] data data f w ∧
    Amid c s₀ [data] f w.strm.internal (w.left data)
  aligned : XZ_BUFFER_SIZE ∣ w.out.len
  room : 0 < w.strm.availOut ∧ w.strm.availOut ≤ XZ_BUFFER_SIZE

/-- In an aligned string the room left is the room up to the next multiple. -/
theorem availOut_eq_roomAt {w : OutString σ} (ht : OutString.Track c s₀ [] data data f w)
    (haligned : XZ_BUFFER_SIZE ∣ w.out.len)
    (hroom : 0 < w.strm.availOut ∧ w.strm.availOut ≤ XZ_BUFFER_SIZE) :
    w.strm.availOut = roomAt f := by
  have hlen : f.emitted.length = w.strm.nextOut := by
    rw [ht.output, List.nil_append, OutString.length_produced ht.fits]
  have hfits : w.strm.nextOut + w.strm.availOut = w.out.len := ht.fits
  simp only [roomAt, hlen, XZ_BUFFER_SIZE] at haligned hroom ⊢
  omega

/-- One pass with input left goes round again, closer to the end. -/
theorem decodeTurn_again {D : List UInt8} {file : List UInt8} (hdec : Decodes c s₀ file D)
    (hpre : data <+: file) {w : OutString σ} (h : Decoding c s₀ data w)
    (hin : 0 < w.strm.availIn) :
    ∃ w', decodeTurn c data w = .ok (.again w') ∧ Decoding c s₀ data w' ∧
      w'.strm.availIn + (D.length - w'.produced.length) <
        w.strm.availIn + (D.length - w.produced.length) := by
  obtain ⟨⟨f, hf, hx, ht, hamid⟩, haligned, hroom⟩ := h
  obtain ⟨r, hr⟩ : ∃ r, c.code w.strm.internal .run (w.left data) w.strm.availOut = r := ⟨_, rfl⟩
  have hne := ht.left_ne_nil hin
  have hfed : f.taken ++ w.left data <+: file := by rw [ht.input]; exact hpre
  obtain ⟨hok, hprog⟩ := hdec.run_ok ht.reaches hf hx hfed hroom.1 hne hr
  obtain ⟨w', hcode, ht', hstrm, hlen⟩ := ht.call hroom.1 hr trivial
  have hf' : (f.step .run (w.left data) r).finishing = none := hf
  have hx' : (f.step .run (w.left data) r).failed = false := Feed.notFailed_step hx (by rw [hok]; rfl)
  have hamid' : Amid c s₀ [data] (f.step .run (w.left data) r) w'.strm.internal
      (w'.left data) := by
    have hleft : w'.left data = (w.left data).drop r.taken := by
      rw [OutString.left, OutString.left, hstrm, LzmaStream.advance_nextIn, List.drop_drop]
    rw [hleft, hstrm]
    exact hamid.call hne (availOut_eq_roomAt ht haligned hroom ▸ hr)
  have hprod : w'.produced = w.produced ++ r.emitted := ht.produced_step ht'
  have htotal : (w.produced ++ r.emitted).length ≤ D.length := by
    have htaken : (f.step .run (w.left data) r).taken <+: file := ht'.taken_prefix.trans hpre
    have := hdec.in_order ht'.reaches hf' hx' htaken
    rw [ht'.output, List.nil_append, hprod] at this
    exact this.length_le
  have hlt := OutString.measure_advance hstrm (ht.taken_le hr) hprog htotal
  rw [← hprod] at hlt
  have hout : w'.strm.availOut ≤ XZ_BUFFER_SIZE := by
    rw [hstrm, LzmaStream.advance_availOut]
    omega
  simp only [decodeTurn, if_pos hin, hcode, ok_bind, hok, ne_eq, not_true_eq_false, false_and,
    if_false]
  by_cases hfull : w'.strm.availOut = 0
  · refine ⟨w'.noteUsed.grow, by rw [if_pos hfull]; rfl,
      ⟨⟨_, hf', hx', ht'.grow hfull, hamid'⟩, ?_, Nat.succ_pos _, le_refl _⟩, ?_⟩
    · exact Nat.dvd_add (hlen ▸ haligned) (Nat.dvd_refl _)
    · rw [OutString.grow_produced ht'.fits]
      exact hlt
  · exact ⟨w', by rw [if_neg hfull]; rfl,
      ⟨⟨_, hf', hx', ht', hamid'⟩, hlen ▸ haligned, Nat.pos_of_ne_zero hfull, hout⟩, hlt⟩

/-- **The one-shot decoder on the beginning of a file that decodes.** It returns a string: what the
decoder has emitted when the last byte has been taken. -/
theorem phpXzDecodeString_spec {L : Liblzma σ} {memoryLimit : UInt64} {D file : List UInt8}
    (hinit : L.lzmaAutoDecoder (memoryLimitOrMax memoryLimit) LZMA_CONCATENATED = .ok s₀)
    (hdec : Decodes L.coder s₀ file D) (hpre : data <+: file) (fuel : Nat)
    (hfuel : data.length + D.length < fuel) :
    ∃ f st, ConsumesAll L.coder {} s₀ [data] f st ∧
      phpXzDecodeString L fuel data memoryLimit = .ok (some f.emitted) := by
  have hstart : Decoding L.coder s₀ data (OutString.start (.init s₀) data.length) :=
    ⟨⟨{}, rfl, rfl, .init, Amid.start .nil data⟩, Nat.dvd_refl _, Nat.succ_pos _, le_refl _⟩
  obtain ⟨b, hloop, w, rfl, h0, ⟨f, hf, -, ht, hamid⟩, -, -⟩ := loop_returns
    (fun w => Decoding L.coder s₀ data w)
    (fun w => w.strm.availIn + (D.length - w.produced.length))
    (R := fun b => ∃ w, b = some w ∧ w.strm.availIn = 0 ∧ Decoding L.coder s₀ data w)
    (fun w hw => by
      by_cases hin : 0 < w.strm.availIn
      · exact Or.inl (decodeTurn_again hdec hpre hw hin)
      · exact Or.inr ⟨some w, by rw [decodeTurn, if_neg hin]; rfl, w, rfl, by omega, hw⟩)
    fuel (OutString.start (.init s₀) data.length) hstart (by
      simp only [OutString.start_availIn, OutString.start_produced, List.length_nil]
      omega)
  have hleft : w.left data = [] :=
    List.eq_nil_of_length_eq_zero (by rw [OutString.length_left ht.reads, h0])
  rw [hleft] at hamid
  refine ⟨f, _, hamid.done, ?_⟩
  simp only [phpXzDecodeString, hinit, hloop, ok_bind, pure_eq_ok,
    OutString.result_noteUsed ht.fits, ht.output, List.nil_append]

end PhpExtXz
