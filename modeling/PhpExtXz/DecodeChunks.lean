/-
# PhpExtXz.DecodeChunks — chunking does not change an incremental decode.

`decodeAdds` is a script that feeds chunks to a decode context one by one. `Fed` describes any such
script by the bytes alone: there is one place `x` in them where the verdict is known, and the steps
of the script show exactly that verdict, the output that belongs to it, and the length of `x`.

`decodeAdds_agree`: so two scripts that feed the same bytes agree.
-/
import PhpExtXz.XzDecodeContext
import PhpExtXz.ConcreteCoders

namespace PhpExtXz

open FuelLoop

variable {σ : Type}

/-! ## Scripts that add chunks -/

/-- One `xz_decode_add` of a script: the number of bytes fed so far with this chunk, what the call
returned, and the context after it. -/
structure DecodeStep (σ : Type) where
  fed : Nat
  ret : PhpReturn (List UInt8)
  after : XzDecodeContext σ

/-- Feed the chunks one by one. The script stops at the first `false` that is not the warning about a
finished context. -/
def decodeAdds (L : Liblzma σ) (fuel : Nat) :
    XzDecodeContext σ → Nat → List (List UInt8) → Exec MemoryFault (List (DecodeStep σ))
  | _, _, [] => pure []
  | obj, fed, chunk :: chunks => do
    let (ret, obj') ← xzDecodeAdd L fuel obj chunk
    let step := ⟨fed + chunk.length, ret, obj'⟩
    if obj.status ≠ .streamEnd ∧ ret.isFalse then pure [step]
    else do
      let steps ← decodeAdds L fuel obj' (fed + chunk.length) chunks
      pure (step :: steps)

/-- How feeding went: status 1 was reached, or some call returned `false` before that, or neither. -/
inductive FeedVerdict where
  | finished | failed | unfinished
  deriving DecidableEq, Repr

def feedVerdict (steps : List (DecodeStep σ)) : FeedVerdict :=
  if steps.any (·.after.status = .streamEnd) then .finished
  else if steps.any (·.ret.isFalse) then .failed
  else .unfinished

/-- The concatenated output; a `false` counts as nothing. -/
def feedOutput (steps : List (DecodeStep σ)) : List UInt8 := steps.flatMap (·.ret.bytes)

/-! ## What the bytes decide -/

variable {L : Liblzma σ} {s₀ : σ} {out : List UInt8 → List UInt8} {verdict : List UInt8 → Verdict}
  {obj : XzDecodeContext σ}

/-- How a script shows a verdict of the bytes. -/
def Verdict.feedVerdict : Verdict → FeedVerdict
  | .more => .unfinished
  | .ended => .finished
  | .failed => .failed

/-- What the steps of a script show, when `given` is all that has been fed at its end, `before` is
what had been put out at its start, and the bytes are decided at `x` as `v`. -/
structure Fed (out : List UInt8 → List UInt8) (verdict : List UInt8 → Verdict)
    (given before : List UInt8) (steps : List (DecodeStep σ)) (x : List UInt8) (v : Verdict) :
    Prop where
  decided : DecidedAt verdict given x v
  shown : feedVerdict steps = v.feedVerdict
  output : v ≠ .failed → before ++ feedOutput steps = out x
  output_prefix : ∃ y, y <+: given ∧ before ++ feedOutput steps = out y
  readLen : ∀ t ∈ steps, (t.after.status ≠ .streamEnd → t.ret.isFalse = false →
      xzDecodeGetReadLen t.after = t.fed) ∧
    (t.after.status = .streamEnd → xzDecodeGetReadLen t.after = x.length)

/-- On a finished context every step returns `false` and changes nothing. -/
theorem decodeAdds_finished (L : Liblzma σ) (fuel : Nat) (hobj : obj.status = .streamEnd)
    (chunks : List (List UInt8)) :
    ∀ fed, ∃ steps, decodeAdds L fuel obj fed chunks = .ok steps ∧ feedOutput steps = [] ∧
      ∀ t ∈ steps, t.after = obj := by
  induction chunks with
  | nil => exact fun _ => ⟨[], rfl, rfl, by simp⟩
  | cons chunk chunks ih =>
    intro fed
    obtain ⟨steps, hsteps, hout, hafter⟩ := ih (fed + chunk.length)
    refine ⟨_ :: steps, by simp [decodeAdds, xzDecodeAdd, hobj, hsteps]; rfl, ?_, ?_⟩
    · simp only [feedOutput, List.flatMap_cons] at hout ⊢
      rw [hout]
      rfl
    · intro t ht
      rcases List.mem_cons.mp ht with rfl | ht
      · rfl
      · exact hafter t ht

/-! ## What a script shows -/

/-- A step that returned a string and did not end the stream leaves the verdict to the later
steps. -/
theorem feedVerdict_cons {step : DecodeStep σ} (steps : List (DecodeStep σ))
    (hstatus : step.after.status ≠ .streamEnd) (hret : step.ret.isFalse = false) :
    feedVerdict (step :: steps) = feedVerdict steps := by
  simp [feedVerdict, hstatus, hret]

theorem feedOutput_cons (step : DecodeStep σ) (steps : List (DecodeStep σ)) :
    feedOutput (step :: steps) = step.ret.bytes ++ feedOutput steps := List.flatMap_cons

section Steps

variable {given before o x y : List UInt8} {v : Verdict} {step : DecodeStep σ}
  {steps : List (DecodeStep σ)}

/-- A step that leaves the context live is followed by what the rest shows. -/
theorem Fed.cons (h : Fed out verdict given (before ++ o) steps x v) (hret : step.ret = .value o)
    (hlive : step.after.status ≠ .streamEnd) (hlen : xzDecodeGetReadLen step.after = step.fed) :
    Fed out verdict given before (step :: steps) x v := by
  have houtput : before ++ feedOutput (step :: steps) = before ++ o ++ feedOutput steps := by
    rw [feedOutput_cons, hret, PhpReturn.bytes_value, List.append_assoc]
  refine ⟨h.decided, ?_, ?_, ?_, ?_⟩
  · rw [feedVerdict_cons steps hlive (by rw [hret]; rfl), h.shown]
  · intro hv
    rw [houtput]
    exact h.output hv
  · rw [houtput]
    exact h.output_prefix
  · intro t ht
    rcases List.mem_cons.mp ht with rfl | ht
    · exact ⟨fun _ _ => hlen, fun hend => absurd hend hlive⟩
    · exact h.readLen t ht

/-- A step that ends the stream, and steps that change nothing after it. -/
theorem Fed.ended (hat : DecidedAt verdict given x .ended) (hret : step.ret = .value o)
    (hend : step.after.status = .streamEnd) (hout : before ++ o = out x)
    (hlen : xzDecodeGetReadLen step.after = x.length) (hnone : feedOutput steps = [])
    (hafter : ∀ t ∈ steps, t.after = step.after) :
    Fed out verdict given before (step :: steps) x .ended := by
  have houtput : before ++ feedOutput (step :: steps) = out x := by
    rw [feedOutput_cons, hret, PhpReturn.bytes_value, hnone, List.append_nil, hout]
  refine ⟨hat, ?_, fun _ => houtput, ⟨x, hat.inside, houtput⟩, ?_⟩
  · simp [feedVerdict, hend, Verdict.feedVerdict]
  · intro t ht
    have hsame : t.after = step.after := by
      rcases List.mem_cons.mp ht with rfl | ht
      · rfl
      · exact hafter t ht
    rw [hsame]
    exact ⟨fun hne => absurd hend hne, fun _ => hlen⟩

/-- A step that fails is the last one. -/
theorem Fed.failed (hat : DecidedAt verdict given x .failed) (hret : step.ret = .returnFalse none)
    (hlive : step.after.status ≠ .streamEnd) (hbefore : before = out y) (hy : y <+: given) :
    Fed out verdict given before [step] x .failed := by
  refine ⟨hat, ?_, fun hv => absurd rfl hv, ⟨y, hy, ?_⟩, ?_⟩
  · simp [feedVerdict, hlive, hret, PhpReturn.isFalse, Verdict.feedVerdict]
  · rw [feedOutput_cons, hret, PhpReturn.bytes_returnFalse]
    simpa [feedOutput] using hbefore
  · intro t ht
    obtain rfl := List.mem_singleton.mp ht
    exact ⟨fun _ hno => absurd hno (by simp [hret, PhpReturn.isFalse]), fun hend => absurd hend hlive⟩

end Steps

/-- **A script shows what its bytes decide**, at any fuel above the output of the bytes. -/
theorem decodeAdds_fed (hdec : ByteDecoder L.coder s₀ out verdict) (fuel : Nat)
    (chunks : List (List UInt8)) :
    ∀ {f obj}, obj.Live L.coder s₀ out verdict f →
      (out (f.taken ++ chunks.flatten)).length < fuel →
      ∃ steps x v, decodeAdds L fuel obj f.taken.length chunks = .ok steps ∧
        Fed out verdict (f.taken ++ chunks.flatten) f.emitted steps x v := by
  induction chunks with
  | nil =>
    intro f obj hobj _
    rw [List.flatten_nil, List.append_nil]
    exact ⟨[], f.taken, .more, rfl,
      ⟨List.prefix_rfl, hobj.waits.more,
        fun z => hdec.never_past hobj.reaches hobj.waits.running hobj.waits.notFailed,
        fun _ => rfl⟩, rfl, fun _ => by simpa [feedOutput] using hobj.waits.emitted_eq,
      ⟨f.taken, List.prefix_rfl, by simpa [feedOutput] using hobj.waits.emitted_eq⟩, by simp⟩
  | cons chunk chunks ih =>
    intro f obj hobj hfuel
    have hgiven : f.taken ++ (chunk :: chunks).flatten = f.taken ++ chunk ++ chunks.flatten := by
      rw [List.flatten_cons, List.append_assoc]
    rw [hgiven] at hfuel ⊢
    have hle := (hdec.out_mono (List.prefix_append (f.taken ++ chunk) chunks.flatten)).length_le
    obtain ⟨ret, obj', f', hadd, hreach, htotal, htaken, hout, hret⟩ :=
      xzDecodeAdd_spec hdec hobj chunk fuel (by omega)
    -- no proper prefix of what it has taken was decided
    have hpast : f'.finishing = none → f'.failed = false →
        ∀ z, z <+: f'.taken → z ≠ f'.taken → verdict z = .more :=
      fun hf' hx' z => hdec.never_past hreach hf' hx'
    have hinside := htaken.trans (List.prefix_append _ chunks.flatten)
    simp only [decodeAdds, hadd, ok_bind]
    cases hout with
    | live hwaits htaken' hstatus =>
      have hlive : obj'.status ≠ .streamEnd := by rw [hstatus]; split <;> decide
      have hnot : obj'.status.fails = false := by rw [hstatus]; split <;> decide
      rw [hnot] at hret
      obtain ⟨o, rfl, hemitted⟩ := hret
      obtain ⟨steps, x, v, hsteps, hfed⟩ :=
        ih ⟨hreach, hwaits, htotal, hlive⟩ (by rw [htaken']; exact hfuel)
      rw [htaken'] at hsteps hfed
      rw [List.length_append] at hsteps
      rw [hemitted] at hfed
      refine ⟨_, x, v, by simp [PhpReturn.isFalse, hsteps]; rfl, hfed.cons rfl hlive ?_⟩
      rw [xzDecodeGetReadLen, htotal, htaken', List.length_append]
    | ended hf' _ hx' hemitted' hend hstatus =>
      rw [hstatus] at hret
      obtain ⟨o, rfl, hemitted⟩ := hret
      obtain ⟨steps, hsteps, hnone, hafter⟩ :=
        decodeAdds_finished L fuel hstatus chunks (f.taken.length + chunk.length)
      refine ⟨_, f'.taken, .ended, by simp [PhpReturn.isFalse, hsteps]; rfl, ?_⟩
      exact .ended ⟨hinside, hend, hpast hf' hx', nofun⟩ rfl hstatus (hemitted.symm.trans hemitted') htotal
        hnone hafter
    | failed call =>
      rw [if_pos call.fails] at hret
      subst hret
      obtain ⟨x, hat⟩ := call.bad hdec
      refine ⟨_, x, .failed, by simp [PhpReturn.isFalse, hobj.unfinished]; rfl, ?_⟩
      refine .failed (hat.extend nofun (List.prefix_append _ _)) rfl (LzmaRet.ne_of_fails call.fails).2.1
        hobj.waits.emitted_eq ?_
      rw [List.append_assoc]
      exact List.prefix_append _ _

end PhpExtXz
