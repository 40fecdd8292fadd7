/-
# PhpExtXz.CoderBudget — how many calls a coder can be made to answer with `LZMA_OK`.

A coder emits finitely much for finite input, and it does not return `LZMA_OK` twice in a row without
having taken or emitted anything (`Ending`). Together with a decoder of concatenated streams that does not
end before `LZMA_FINISH` (`EndingConcatenated`) that is all the loops of the extension need to end.

What is counted is the budget of a coder: the input it may still be given and the output that is still
to come of it, twice, plus one while it may stall. Every call that returns `LZMA_OK` and every call with
progress lowers it (`Budget.Rank.call`), whatever the calls of before were.
-/
import Mathlib.Data.Set.Finite.List
import PhpExtXz.CoderSpec

namespace PhpExtXz

open FuelLoop

variable {σ : Type}

/-! ## Coders that end -/

/-- Some call would return `LZMA_OK` without progress. -/
def MayStall (c : Coder σ) (s : σ) : Prop :=
  ∃ action input room, (c.code s action input room).ret = .ok ∧ ¬ (c.code s action input room).Progress

/-- **A coder that ends**: for finite input it emits finitely many bytes, and after a call that returned
`LZMA_OK` without progress no other one does. -/
structure Ending (c : Coder σ) (s₀ : σ) : Prop where
  finite : ∀ data, ∃ most, ∀ f s, Called c s₀ f s → f.taken = data → f.emitted.length ≤ most
  stallsOnce : ∀ f s action input room r, Called c s₀ f s → c.code s action input room = r →
    r.ret = .ok → ¬ r.Progress → ¬ MayStall c r.state

/-- A decoder opened with `LZMA_CONCATENATED` does not end its stream as long as only `LZMA_RUN` has been
passed to it. -/
structure EndingConcatenated (c : Coder σ) (s₀ : σ) : Prop extends Ending c s₀ where
  runsOn : ∀ f s input room, Called c s₀ f s → f.finishing = none →
    (c.code s .run input room).ret ≠ .streamEnd

/-- **What ending takes of liblzma**: every coder it creates ends, and a decoder created with
`LZMA_CONCATENATED` runs on. -/
structure EndingLiblzma (L : Liblzma σ) : Prop where
  streamEncoder : ∀ filters check s, L.lzmaStreamEncoder filters check = .ok s → Ending L.coder s
  rawEncoder : ∀ filters s, L.lzmaRawEncoder filters = .ok s → Ending L.coder s
  autoDecoder : ∀ memlimit flags s, L.lzmaAutoDecoder memlimit flags = .ok s → Ending L.coder s
  concatenated : ∀ memlimit flags s, L.lzmaAutoDecoder memlimit flags = .ok s →
    flags &&& LZMA_CONCATENATED ≠ 0 → EndingConcatenated L.coder s
  rawDecoder : ∀ filters s, L.lzmaRawDecoder filters = .ok s → Ending L.coder s

/-! ## The budget -/

variable {c : Coder σ} {s₀ : σ}

/-- A bound on the input, and one on the output that belongs to it. -/
structure Budget (c : Coder σ) (s₀ : σ) where
  input : Nat
  most : Nat
  bounded : ∀ f s, Called c s₀ f s → f.taken.length ≤ input → f.emitted.length ≤ most

theorem finite_uInt8 : Finite UInt8 :=
  Finite.of_injective UInt8.toFin fun _ _ h => UInt8.toFin_inj.mp h

/-- There are only finitely many inputs of bounded length, so that their outputs are bounded. -/
theorem Ending.exists_budget (h : Ending c s₀) (n : Nat) : ∃ b : Budget c s₀, b.input = n := by
  choose most hmost using h.finite
  have := finite_uInt8
  obtain ⟨top, htop⟩ : ∃ top, ∀ data ∈ {data : List UInt8 | data.length ≤ n}, most data ≤ top := by
    obtain ⟨top, htop⟩ := ((List.finite_length_le UInt8 n).image most).bddAbove
    exact ⟨top, fun data hdata => htop (Set.mem_image_of_mem most hdata)⟩
  exact ⟨⟨n, top, fun f s hcalled htaken =>
    (hmost _ f s hcalled rfl).trans (htop f.taken htaken)⟩, rfl⟩

/-- One while the coder may stall. -/
noncomputable def stallUnit (c : Coder σ) (s : σ) : Nat :=
  open Classical in if MayStall c s then 1 else 0

theorem stallUnit_le (c : Coder σ) (s : σ) : stallUnit c s ≤ 1 := by
  unfold stallUnit
  split <;> omega

namespace Budget

variable (b : Budget c s₀) {P : Feed → Prop} {k k' m spare spare' : Nat} {strm strm' : LzmaStream σ}

/-- The coder behind `strm` is within the budget: it may be given its input and `spare` bytes more, and
this together with the output to come is at most `k` beyond the input. Its ledger satisfies `P`. -/
def Left (P : Feed → Prop) (k spare : Nat) (strm : LzmaStream σ) : Prop :=
  ∃ f, Called c s₀ f strm.internal ∧ P f ∧ f.taken.length + (strm.availIn + spare) ≤ b.input ∧
    spare + (b.most - f.emitted.length) ≤ k

/-- The same within a loop, of which at most `m` passes are left. -/
def Rank (P : Feed → Prop) (k m spare : Nat) (strm : LzmaStream σ) : Prop :=
  ∃ f, Called c s₀ f strm.internal ∧ P f ∧ f.taken.length + (strm.availIn + spare) ≤ b.input ∧
    spare + (b.most - f.emitted.length) ≤ k ∧
    2 * (strm.availIn + (spare + (b.most - f.emitted.length))) + stallUnit c strm.internal ≤ m

variable {b}

theorem Rank.left (h : b.Rank P k m spare strm) : b.Left P k spare strm := by
  obtain ⟨f, hcalled, hP, hin, hout, -⟩ := h
  exact ⟨f, hcalled, hP, hin, hout⟩

/-- A loop starts with a rank from what is left. -/
theorem Left.rank (h : b.Left P k spare strm) :
    b.Rank P k (2 * (strm.availIn + k) + 1) spare strm := by
  obtain ⟨f, hcalled, hP, hin, hout⟩ := h
  have := stallUnit_le c strm.internal
  exact ⟨f, hcalled, hP, hin, hout, by omega⟩

theorem Rank.mono {m' : Nat} (h : b.Rank P k m spare strm) (hm : m ≤ m') : b.Rank P k m' spare strm := by
  obtain ⟨f, hcalled, hP, hin, hout, hrank⟩ := h
  exact ⟨f, hcalled, hP, hin, hout, hrank.trans hm⟩

/-- Moving input between the stream and what is spare. -/
theorem Left.move (h : b.Left P k spare strm) (hinternal : strm'.internal = strm.internal)
    (hle : strm'.availIn + spare' ≤ strm.availIn + spare)
    (hk : spare' + k ≤ spare + k') : b.Left P k' spare' strm' := by
  obtain ⟨f, hcalled, hP, hin, hout⟩ := h
  exact ⟨f, hinternal ▸ hcalled, hP, by omega, by omega⟩

theorem Rank.move (h : b.Rank P k m spare strm) (hinternal : strm'.internal = strm.internal)
    (hle : strm'.availIn + spare' ≤ strm.availIn + spare)
    (hk : spare' + k ≤ spare + k') : b.Rank P k' m spare' strm' := by
  obtain ⟨f, hcalled, hP, hin, hout, hrank⟩ := h
  exact ⟨f, hinternal ▸ hcalled, hP, by omega, by omega, by rw [hinternal]; omega⟩

/-- The spare input shrinks and the rest stays. -/
theorem Left.less (h : b.Left P k spare strm) (hinternal : strm'.internal = strm.internal)
    (hin : strm'.availIn = strm.availIn) (hspare : spare' ≤ spare) : b.Left P k spare' strm' :=
  h.move hinternal (by omega) (by omega)

theorem Rank.less (h : b.Rank P k m spare strm) (hinternal : strm'.internal = strm.internal)
    (hin : strm'.availIn = strm.availIn) (hspare : spare' ≤ spare) : b.Rank P k m spare' strm' :=
  h.move hinternal (by omega) (by omega)

/-- **One call.** The coder stays within its budget, and a call with `LZMA_OK` or with progress lowers the
rank. -/
theorem Rank.call (hc : Ending c s₀) (h : b.Rank P k m spare strm) {action : LzmaAction}
    {input : List UInt8} {room : Nat} {r : CodeResult σ} (hlen : input.length = strm.availIn)
    (hr : c.code strm.internal action input room = r)
    (hP : ∀ f, P f → P (f.step action input r)) :
    b.Left P k spare (strm.advance r) ∧
      (r.ret = .ok ∨ r.Progress → ∃ m', m' < m ∧ b.Rank P k m' spare (strm.advance r)) := by
  obtain ⟨f, hcalled, hf, hin, hout, hrank⟩ := h
  have htaken : r.taken ≤ input.length := by
    rw [← hr]
    exact c.taken_le _ _ _ _
  have hcalled' : Called c s₀ (f.step action input r) r.state := by
    rw [← hr]
    exact .call action input room hcalled
  have hlen' : (f.step action input r).taken.length = f.taken.length + r.taken := by
    show (f.taken ++ input.take r.taken).length = _
    rw [List.length_append, List.length_take]
    omega
  have hemitted : (f.step action input r).emitted.length = f.emitted.length + r.emitted.length :=
    List.length_append
  have hmost := b.bounded _ _ hcalled' (by omega)
  have hP' := hP f hf
  have hin' : (f.step action input r).taken.length + ((strm.advance r).availIn + spare) ≤ b.input := by
    rw [LzmaStream.advance_availIn]
    omega
  refine ⟨⟨_, hcalled', hP', hin', by omega⟩, ?_⟩
  intro hgood
  refine ⟨2 * ((strm.advance r).availIn + (spare + (b.most - (f.step action input r).emitted.length))) +
    stallUnit c r.state, ?_, _, hcalled', hP', hin', by omega, le_refl _⟩
  rw [LzmaStream.advance_availIn]
  have hunit := stallUnit_le c r.state
  by_cases hprog : r.Progress
  · -- less input, or less output to come
    rcases hprog with hpos | hne
    · omega
    · have := List.length_pos_iff.mpr hne
      omega
  · -- a stall: the coder could stall before it, and cannot afterwards
    have hok : r.ret = .ok := hgood.resolve_right hprog
    have hbefore : stallUnit c strm.internal = 1 :=
      if_pos ⟨action, input, room, by rw [hr]; exact ⟨hok, hprog⟩⟩
    have hafter : stallUnit c r.state = 0 := if_neg (hc.stallsOnce f _ _ _ _ r hcalled hr hok hprog)
    have hnone : r.taken = 0 ∧ r.emitted = [] := by
      unfold CodeResult.Progress at hprog
      push Not at hprog
      exact ⟨by omega, hprog.2⟩
    rw [hemitted, hnone.1, hnone.2]
    simp only [List.length_nil]
    omega

/-- What the ledger says is known of the coder. -/
theorem Rank.called (h : b.Rank P k m spare strm) : ∃ f, Called c s₀ f strm.internal ∧ P f := by
  obtain ⟨f, hcalled, hP, -⟩ := h
  exact ⟨f, hcalled, hP⟩

end Budget

/-! ## A call through a stream -/

variable {n : Nat} {action : LzmaAction} {strm strm' : LzmaStream σ} {ret : LzmaRet}

/-- `lzma_code(strm, action)` returned `ret` and left `strm'`. -/
def Answers (c : Coder σ) (action : LzmaAction) (strm : LzmaStream σ) (ret : LzmaRet)
    (strm' : LzmaStream σ) : Prop :=
  ∃ input r, input.length = strm.availIn ∧ c.code strm.internal action input strm.availOut = r ∧
    ret = r.ret ∧ strm' = strm.advance r

theorem lzmaCode_ends (c : Coder σ) (strm : LzmaStream σ) (action : LzmaAction) (src : List UInt8)
    (dst : Buffer UInt8 n) :
    Ends (lzmaCode c strm action src dst) fun d => Answers c action strm d.ret d.strm := by
  unfold lzmaCode
  split
  · rename_i hin
    split
    · exact ⟨strm.input src, _, LzmaStream.length_input hin, rfl, rfl, rfl⟩
    · trivial
  · trivial

/-- The call lowers the rank where it returns `LZMA_OK`, and where it fills its room. -/
theorem Budget.Rank.answer {b : Budget c s₀} {P : Feed → Prop} {k m spare : Nat} (hc : Ending c s₀)
    (h : b.Rank P k m spare strm) (hcall : Answers c action strm ret strm')
    (hP : ∀ f input (r : CodeResult σ), P f → P (f.step action input r)) :
    b.Left P k spare strm' ∧
      (ret = .ok ∨ (0 < strm.availOut ∧ strm'.availOut = 0) →
        ∃ m', m' < m ∧ b.Rank P k m' spare strm') := by
  obtain ⟨input, r, hlen, hr, rfl, rfl⟩ := hcall
  obtain ⟨hleft, hlower⟩ := h.call hc hlen hr fun f => hP f input r
  refine ⟨hleft, ?_⟩
  rintro (hok | ⟨hroom, hfull⟩)
  · exact hlower (Or.inl hok)
  · -- what filled the room was emitted
    rw [LzmaStream.advance_availOut] at hfull
    exact hlower (Or.inr (Or.inr (CodeResult.emitted_ne_nil_of_full hroom hfull)))

end PhpExtXz
