/-
# PhpExtXz.StringsEnd — the loops that produce strings end.

The one-shot functions and the two incremental contexts, on any data and with any coder that ends. A
pass that goes round again has made a call that returned `LZMA_OK` or that filled its room, so that the
rank of the budget drops; the decoding loop, which also continues on `LZMA_STREAM_END`, never sees it.
-/
import PhpExtXz.Lib.Runs
import PhpExtXz.CoderBudget
import PhpExtXz.Xz
import PhpExtXz.XzEncodeContext
import PhpExtXz.DecodeStatus

namespace PhpExtXz

open FuelLoop

variable {σ : Type} {c : Coder σ} {s₀ : σ} {b : Budget c s₀} {P : Feed → Prop} {k m spare : Nat}
  {w : OutString σ} {data : List UInt8} {action : LzmaAction}

theorem OutString.code_ends (c : Coder σ) (action : LzmaAction) (data : List UInt8)
    (w : OutString σ) :
    Ends (w.code c action data) fun p => Answers c action w.strm p.1 p.2.strm := by
  apply (lzmaCode_ends c w.strm action data w.out.val).bind
  intro d hd
  exact hd

/-! ## No loop leaves its string -/

/-- The window of input lies inside the data, and that of output ends with the string. -/
def OutString.Inside (data : List UInt8) (w : OutString σ) : Prop := w.Fits ∧ w.Reads data

theorem OutString.start_inside (strm : LzmaStream σ) :
    (OutString.start strm data.length).Inside data := ⟨start_fits, start_reads⟩

theorem OutString.Inside.grow (h : w.Inside data) (hfull : w.strm.availOut = 0) :
    w.noteUsed.grow.Inside data := ⟨grow_fits h.1 hfull, h.2⟩

theorem OutString.code_sat (c : Coder σ) (action : LzmaAction) (h : w.Inside data) :
    Sat (w.code c action data) (fun p => p.2.Inside data) (fun _ => False) := by
  obtain ⟨w', hcode, hfit, hreads, -⟩ := code_eq_ok h.1 h.2
    (rfl : c.code w.strm.internal action (w.left data) w.strm.availOut = _)
  rw [hcode]
  exact ⟨hfit, hreads⟩

theorem encodeRunTurn_sat (c : Coder σ) (h : w.Inside data) :
    Sat (encodeRunTurn c data w)
      (TurnSat (OutString.Inside data) fun res => ∀ w', res = some w' → w'.Inside data)
      (fun _ => False) := by
  unfold encodeRunTurn
  split
  · apply (OutString.code_sat c .run h).bind
    rintro ⟨ret, w'⟩ h'
    dsimp only at h' ⊢
    split
    · intro w'' hnone
      cases hnone
    · split
      · exact h'.grow ‹_›
      · exact h'
  · intro w' heq
    obtain rfl := Option.some.inj heq
    exact h

theorem encodeFinishTurn_sat (c : Coder σ) (h : w.Inside data) :
    Sat (encodeFinishTurn c data w) (TurnSat (OutString.Inside data) fun _ => True)
      (fun _ => False) := by
  unfold encodeFinishTurn
  apply (OutString.code_sat c .finish h).bind
  rintro ⟨ret, w'⟩ h'
  dsimp only at h' ⊢
  split
  · trivial
  · split
    · trivial
    · split
      · exact h'.grow ‹_›
      · exact h'

theorem decodeTurn_sat (c : Coder σ) (h : w.Inside data) :
    Sat (decodeTurn c data w) (TurnSat (OutString.Inside data) fun _ => True) (fun _ => False) := by
  unfold decodeTurn
  split
  · apply (OutString.code_sat c .run h).bind
    rintro ⟨ret, w'⟩ h'
    dsimp only at h' ⊢
    split
    · trivial
    · split
      · exact h'.grow ‹_›
      · exact h'
  · trivial

theorem phpXzEncodeString_sat (L : Liblzma σ) (fuel : Nat) (data : List UInt8)
    (level format : UInt32) :
    Sat (phpXzEncodeString L fuel data level format) (fun _ => True) (fun _ => False) := by
  unfold phpXzEncodeString
  split
  · trivial
  · split
    · trivial
    · refine (loop_sat (OutString.Inside data) (fun w h => encodeRunTurn_sat L.coder h) fuel _
        (OutString.start_inside _)).bind ?_
      intro res hres
      match res with
      | none => trivial
      | some w =>
        refine (loop_sat (OutString.Inside data) (fun w h => encodeFinishTurn_sat L.coder h) fuel _
          (hres w rfl)).bind ?_
        intro res _
        match res with
        | none => trivial
        | some w => trivial

theorem phpXzDecodeString_sat (L : Liblzma σ) (fuel : Nat) (data : List UInt8)
    (memoryLimit : UInt64) :
    Sat (phpXzDecodeString L fuel data memoryLimit) (fun _ => True) (fun _ => False) := by
  unfold phpXzDecodeString
  split
  · trivial
  · refine (loop_sat (OutString.Inside data) (fun w h => decodeTurn_sat L.coder h) fuel _
      (OutString.start_inside _)).bind ?_
    intro res _
    match res with
    | none => trivial
    | some w => trivial

theorem processTurn_sat {switch : LzmaRet → Nat → Switch}
    (hswitch : ∀ ret n, switch ret n = .grow → n = 0) (c : Coder σ) (h : w.Inside data) :
    Sat (processTurn switch c action data w) (TurnSat (OutString.Inside data) fun _ => True)
      (fun _ => False) := by
  unfold processTurn
  apply (OutString.code_sat c action h).bind
  rintro ⟨ret, w'⟩ h'
  dsimp only at h' ⊢
  split
  · rename_i hgrow
    exact h'.grow (hswitch _ _ hgrow)
  · trivial
  · trivial

theorem contextProcess_sat {switch : LzmaRet → Nat → Switch}
    (hswitch : ∀ ret n, switch ret n = .grow → n = 0) (c : Coder σ) (fuel : Nat)
    (strm : LzmaStream σ) (data : List UInt8) (action : LzmaAction) :
    Sat (contextProcess switch c fuel strm data action) (fun _ => True) (fun _ => False) :=
  loop_sat (OutString.Inside data) (fun _ h => processTurn_sat hswitch c h) fuel _
    (OutString.start_inside strm)

/-! ## The one-shot functions -/

theorem encodeRunTurn_ends (hc : Ending c s₀) (h : b.Rank (fun _ => True) k m spare w.strm) :
    Ends (encodeRunTurn c data w)
      (TurnSat (fun w' => ∃ m', m' < m ∧ b.Rank (fun _ => True) k m' spare w'.strm)
        fun res => ∀ w', res = some w' → w'.strm.availIn = 0 ∧ b.Left (fun _ => True) k spare w'.strm) := by
  unfold encodeRunTurn
  split
  · apply (OutString.code_ends c .run data w).bind
    rintro ⟨ret, w'⟩ hcall
    dsimp only at hcall ⊢
    obtain ⟨-, hlower⟩ := h.answer hc hcall fun _ _ _ _ => trivial
    split
    · intro w'' hnone
      cases hnone
    · rename_i hok
      have hagain := hlower (Or.inl (not_ne_iff.mp hok))
      split
      · exact hagain
      · exact hagain
  · rename_i hin
    intro w' heq
    obtain rfl := Option.some.inj heq
    exact ⟨by omega, h.left⟩

theorem encodeFinishTurn_ends (hc : Ending c s₀) (h : b.Rank (fun _ => True) k m spare w.strm) :
    Ends (encodeFinishTurn c data w)
      (TurnSat (fun w' => ∃ m', m' < m ∧ b.Rank (fun _ => True) k m' spare w'.strm) fun _ => True) := by
  unfold encodeFinishTurn
  apply (OutString.code_ends c .finish data w).bind
  rintro ⟨ret, w'⟩ hcall
  dsimp only at hcall ⊢
  obtain ⟨-, hlower⟩ := h.answer hc hcall fun _ _ _ _ => trivial
  split
  · trivial
  · rename_i hgood
    split
    · trivial
    · rename_i hend
      have hok : ret = .ok := by
        by_contra hne
        exact hgood ⟨hne, hend⟩
      have hagain := hlower (Or.inl hok)
      split
      · exact hagain
      · exact hagain

/-- In `php_xz_decode_string` only `LZMA_RUN` is passed. -/
theorem decodeTurn_ends (hc : EndingConcatenated c s₀)
    (h : b.Rank (fun f => f.finishing = none) k m spare w.strm) :
    Ends (decodeTurn c data w)
      (TurnSat (fun w' => ∃ m', m' < m ∧ b.Rank (fun f => f.finishing = none) k m' spare w'.strm)
        fun _ => True) := by
  unfold decodeTurn
  split
  · apply (OutString.code_ends c .run data w).bind
    rintro ⟨ret, w'⟩ hcall
    dsimp only at hcall ⊢
    obtain ⟨-, hlower⟩ := h.answer hc.toEnding hcall fun f input r hf => hf
    obtain ⟨f, hcalled, hrunning⟩ := h.called
    have hnoend : ret ≠ .streamEnd := by
      obtain ⟨input, r, -, hr, rfl, -⟩ := hcall
      rw [← hr]
      exact hc.runsOn f _ _ _ hcalled hrunning
    split
    · trivial
    · rename_i hgood
      have hok : ret = .ok := by
        by_contra hne
        exact hgood ⟨hne, hnoend⟩
      have hagain := hlower (Or.inl hok)
      split
      · exact hagain
      · exact hagain
  · trivial

/-- A fresh coder has all of its budget. -/
theorem Budget.left_start (b : Budget c s₀) {len : Nat} (hP : P {}) (h : len = b.input) :
    b.Left P b.most 0 (OutString.start (.init s₀) len).strm := by
  refine ⟨{}, .start, hP, ?_, ?_⟩
  · show ([] : List UInt8).length + (len + 0) ≤ b.input
    rw [h, List.length_nil]
    omega
  · omega

theorem phpXzEncodeString_ends {L : Liblzma σ} (hL : EndingLiblzma L) (data : List UInt8)
    (level format : UInt32) :
    ∃ n, ∀ fuel, n < fuel → Ends (phpXzEncodeString L fuel data level format) fun _ => True := by
  unfold phpXzEncodeString
  split
  · exact ⟨0, fun _ _ => trivial⟩
  · rename_i opt _
    split
    · exact ⟨0, fun _ _ => trivial⟩
    · rename_i s hcreated
      have hc : Ending L.coder s := by
        split at hcreated
        · exact hL.rawEncoder _ _ hcreated
        · exact hL.streamEncoder _ _ _ hcreated
      obtain ⟨b, hb⟩ := hc.exists_budget data.length
      have hstart := (b.left_start (P := fun _ => True) trivial hb.symm).rank
      refine ⟨2 * (data.length + b.most) + 1, fun fuel hfuel => ?_⟩
      refine (loop_ends (fun m w => b.Rank (fun _ => True) b.most m 0 w.strm)
        (fun m w h => encodeRunTurn_ends hc h) fuel _ _ hstart hfuel).bind ?_
      intro res hres
      match res with
      | none => trivial
      | some w =>
        -- the second loop starts where the first one has left
        obtain ⟨hin, hleft⟩ := hres w rfl
        have hrank := hleft.rank
        refine (loop_ends (fun m w => b.Rank (fun _ => True) b.most m 0 w.strm)
          (fun m w h => encodeFinishTurn_ends hc h) fuel _ _ hrank (by omega)).bind ?_
        intro res _
        match res with
        | none => trivial
        | some w => trivial

theorem phpXzDecodeString_ends {L : Liblzma σ} (hL : EndingLiblzma L) (data : List UInt8)
    (memoryLimit : UInt64) :
    ∃ n, ∀ fuel, n < fuel → Ends (phpXzDecodeString L fuel data memoryLimit) fun _ => True := by
  unfold phpXzDecodeString
  split
  · exact ⟨0, fun _ _ => trivial⟩
  · rename_i s hcreated
    have hc := hL.concatenated _ _ _ hcreated (by decide)
    obtain ⟨b, hb⟩ := hc.exists_budget data.length
    have hstart := (b.left_start (P := fun f => f.finishing = none) rfl hb.symm).rank
    refine ⟨2 * (data.length + b.most) + 1, fun fuel hfuel => ?_⟩
    refine (loop_ends (fun m w => b.Rank (fun f => f.finishing = none) b.most m 0 w.strm)
      (fun m w h => decodeTurn_ends hc h) fuel _ _ hstart hfuel).bind ?_
    intro res _
    match res with
    | none => trivial
    | some w => trivial

/-- **The one-shot encoder returns**, with any library whose encoders end. -/
theorem phpXzEncodeString_returns {L : Liblzma σ} (hL : EndingLiblzma L) (data : List UInt8)
    (level format : UInt32) :
    ∃ n, ∀ fuel, n < fuel → ∃ res, phpXzEncodeString L fuel data level format = .ok res := by
  obtain ⟨n, hn⟩ := phpXzEncodeString_ends hL data level format
  refine ⟨n, fun fuel hfuel => ?_⟩
  obtain ⟨res, hres, -⟩ :=
    (phpXzEncodeString_sat L fuel data level format).returns (hn fuel hfuel).ne_outOfFuel
  exact ⟨res, hres⟩

/-- **The one-shot decoder returns.** -/
theorem phpXzDecodeString_returns {L : Liblzma σ} (hL : EndingLiblzma L) (data : List UInt8)
    (memoryLimit : UInt64) :
    ∃ n, ∀ fuel, n < fuel → ∃ res, phpXzDecodeString L fuel data memoryLimit = .ok res := by
  obtain ⟨n, hn⟩ := phpXzDecodeString_ends hL data memoryLimit
  refine ⟨n, fun fuel hfuel => ?_⟩
  obtain ⟨res, hres, -⟩ :=
    (phpXzDecodeString_sat L fuel data memoryLimit).returns (hn fuel hfuel).ne_outOfFuel
  exact ⟨res, hres⟩

/-! ## The contexts -/

theorem processTurn_ends {switch : LzmaRet → Nat → Switch}
    (hswitch : ∀ ret n, switch ret n = .grow → n = 0) (hc : Ending c s₀)
    (h : b.Rank (fun _ => True) k m spare w.strm) (hroom : 0 < w.strm.availOut) :
    Ends (processTurn switch c action data w)
      (TurnSat (fun w' => ∃ m', m' < m ∧ b.Rank (fun _ => True) k m' spare w'.strm ∧ 0 < w'.strm.availOut)
        fun p => b.Left (fun _ => True) k spare p.strm) := by
  unfold processTurn
  apply (OutString.code_ends c action data w).bind
  rintro ⟨ret, w'⟩ hcall
  dsimp only at hcall ⊢
  obtain ⟨hleft, hlower⟩ := h.answer hc hcall fun _ _ _ _ => trivial
  split
  · -- the string grows where the call has filled it
    rename_i hgrow
    obtain ⟨m', hm', hrank⟩ := hlower (Or.inr ⟨hroom, hswitch _ _ hgrow⟩)
    exact ⟨m', hm', hrank, Nat.succ_pos _⟩
  · exact hleft
  · exact hleft

theorem contextProcess_ends {switch : LzmaRet → Nat → Switch} {strm : LzmaStream σ} {fuel : Nat}
    (hswitch : ∀ ret n, switch ret n = .grow → n = 0) (hc : Ending c s₀)
    (h : b.Left (fun _ => True) k (data.length + spare) strm) (hfuel : 2 * k + 1 < fuel) :
    Ends (contextProcess switch c fuel strm data action) fun p => b.Left (fun _ => True) k spare p.strm := by
  have hk : data.length ≤ k := by
    obtain ⟨f, -, -, -, hout⟩ := h
    omega
  have hstart : b.Left (fun _ => True) (k - data.length) spare (OutString.start strm data.length).strm :=
    h.move rfl (by rw [OutString.start_availIn]; omega) (by omega)
  have hrank := hstart.rank
  rw [OutString.start_availIn] at hrank
  refine (loop_ends
    (fun m w => b.Rank (fun _ => True) (k - data.length) m spare w.strm ∧ 0 < w.strm.availOut)
    (fun m w hw => processTurn_ends hswitch hc hw.1 hw.2) fuel _ _ ⟨hrank, Nat.succ_pos _⟩ (by omega)).mono ?_
  intro p hp
  exact hp.move rfl (le_refl _) (by omega)

/-! ### Scripts of operations -/

/-- Every operation of a run ends, where each one keeps an invariant that speaks about the bytes that
are still to come. -/
theorem trace_ends {S Op R : Type} {run : S → Op → Exec MemoryFault (R × S)} {last : Op → Bool}
    {bytes : Op → List UInt8} (Inv : Nat → S → Prop)
    (hop : ∀ later s op, Inv ((bytes op).length + later) s → Ends (run s op) fun p => Inv later p.2)
    {s : S} {ops : List Op} (hstart : Inv (ops.flatMap bytes).length s) :
    ∀ step ∈ Runs.trace run last s ops, step.outcome ≠ .error .outOfFuel := by
  intro step hmem
  have hops : ∀ s op ops, Inv ((op :: ops).flatMap bytes).length s →
      Ends (run s op) fun p => Inv (ops.flatMap bytes).length p.2 := by
    intro s op ops hinv
    rw [List.flatMap_cons, List.length_append] at hinv
    exact hop _ _ _ hinv
  obtain ⟨later, hinv⟩ := Runs.trace_todo (fun ops s => Inv (ops.flatMap bytes).length s) hstart
    (fun op ops s r s' hinv hrun => (hops s op ops hinv).of_ok hrun) hmem
  rw [(Runs.mem_trace hmem).2]
  exact (hops _ _ _ hinv).ne_outOfFuel

/-- Both kinds of operation leave a finished decode context alone, and process their bytes on any other
one. -/
theorem decodeOp_cases (L : Liblzma σ) (fuel : Nat) (obj : XzDecodeContext σ) (op : DecodeOp) :
    (∃ ret, decodeOp L fuel obj op = .ok (ret, obj)) ∨
    decodeOp L fuel obj op =
      (phpXzDecodeContextProcess L fuel obj op.bytes op.action >>= fun p =>
        .ok (returnStr p.1, p.2)) := by
  by_cases hfinished : obj.status = .streamEnd
  · exact Or.inl (decodeOp_finished L fuel hfinished op)
  · exact Or.inr (decodeOp_unfinished L fuel hfinished op)

variable {L : Liblzma σ} {fuel : Nat} {b : Budget L.coder s₀}

/-- An operation that leaves the context alone. -/
theorem Budget.Left.skip {len : Nat} {strm : LzmaStream σ}
    (h : b.Left P k (len + spare) strm) : b.Left P k spare strm :=
  h.move rfl (by omega) (by omega)

theorem phpXzEncodeContextProcess_ends (hc : Ending L.coder s₀) {obj : XzEncodeContext σ}
    (h : b.Left (fun _ => True) k (data.length + spare) obj.strm) (hfuel : 2 * k + 1 < fuel) :
    Ends (phpXzEncodeContextProcess L fuel obj data action) fun p =>
      b.Left (fun _ => True) k spare p.2.strm := by
  apply (contextProcess_ends encodeSwitch_grow hc h hfuel).bind
  exact fun p hp => hp

theorem phpXzDecodeContextProcess_ends (hc : Ending L.coder s₀) {obj : XzDecodeContext σ}
    (h : b.Left (fun _ => True) k (data.length + spare) obj.strm) (hfuel : 2 * k + 1 < fuel) :
    Ends (phpXzDecodeContextProcess L fuel obj data action) fun p =>
      b.Left (fun _ => True) k spare p.2.strm := by
  apply (contextProcess_ends (decodeSwitch_grow action) hc h hfuel).bind
  exact fun p hp => hp

theorem encodeOp_ends (hc : Ending L.coder s₀) {obj : XzEncodeContext σ} (op : EncodeOp)
    (h : b.Left (fun _ => True) k (op.bytes.length + spare) obj.strm) (hfuel : 2 * k + 1 < fuel) :
    Ends (encodeOp L fuel obj op) fun p => b.Left (fun _ => True) k spare p.2.strm := by
  rcases encodeOp_cases L fuel obj op with ⟨ret, heq⟩ | heq
  · rw [heq]
    exact h.skip
  · rw [heq]
    exact (phpXzEncodeContextProcess_ends hc h hfuel).bind fun p hp => hp

theorem decodeOp_ends (hc : Ending L.coder s₀) {obj : XzDecodeContext σ} (op : DecodeOp)
    (h : b.Left (fun _ => True) k (op.bytes.length + spare) obj.strm) (hfuel : 2 * k + 1 < fuel) :
    Ends (decodeOp L fuel obj op) fun p => b.Left (fun _ => True) k spare p.2.strm := by
  rcases decodeOp_cases L fuel obj op with ⟨ret, heq⟩ | heq
  · rw [heq]
    exact h.skip
  · rw [heq]
    exact (phpXzDecodeContextProcess_ends hc h hfuel).bind fun p hp => hp

/-- A new context has all of its budget. -/
theorem Budget.left_init (b : Budget c s₀) {len : Nat} (hP : P {}) (h : len = b.input) :
    b.Left P (len + b.most) len (.init s₀) := by
  refine ⟨{}, .start, hP, ?_, ?_⟩
  · show ([] : List UInt8).length + (0 + len) ≤ b.input
    rw [h, List.length_nil]
    omega
  · omega

theorem encodeOp_sat (L : Liblzma σ) (fuel : Nat) (obj : XzEncodeContext σ) (op : EncodeOp) :
    Sat (encodeOp L fuel obj op) (fun _ => True) (fun _ => False) := by
  rcases encodeOp_cases L fuel obj op with ⟨ret, heq⟩ | heq
  · rw [heq]
    trivial
  · rw [heq]
    have hprocess : Sat (phpXzEncodeContextProcess L fuel obj op.bytes op.action) (fun _ => True)
        (fun _ => False) :=
      (contextProcess_sat encodeSwitch_grow L.coder fuel obj.strm op.bytes op.action).bind
        fun _ _ => trivial
    exact hprocess.bind fun _ _ => trivial

theorem decodeOp_sat (L : Liblzma σ) (fuel : Nat) (obj : XzDecodeContext σ) (op : DecodeOp) :
    Sat (decodeOp L fuel obj op) (fun _ => True) (fun _ => False) := by
  rcases decodeOp_cases L fuel obj op with ⟨ret, heq⟩ | heq
  · rw [heq]
    trivial
  · rw [heq]
    have hprocess : Sat (phpXzDecodeContextProcess L fuel obj op.bytes op.action) (fun _ => True)
        (fun _ => False) :=
      (contextProcess_sat (decodeSwitch_grow op.action) L.coder fuel obj.strm op.bytes op.action).bind
        fun _ _ => trivial
    exact hprocess.bind fun _ _ => trivial

/-- A script on a context, where every operation ends within the budget and none leaves its string. -/
theorem script_returns {S Op R : Type} {run : Nat → S → Op → Exec MemoryFault (R × S)}
    {bytes : Op → List UInt8} {strm : S → LzmaStream σ} (hc : Ending c s₀)
    (hends : ∀ (b : Budget c s₀) k later fuel obj op,
      b.Left (fun _ => True) k ((bytes op).length + later) (strm obj) → 2 * k + 1 < fuel →
        Ends (run fuel obj op) fun p => b.Left (fun _ => True) k later (strm p.2))
    (hsat : ∀ fuel obj op, Sat (run fuel obj op) (fun _ => True) (fun _ => False))
    {obj : S} (hnew : strm obj = .init s₀) (ops : List Op) :
    ∃ n, ∀ fuel, n < fuel → ∀ step ∈ Runs.trace (run fuel) (fun _ => false) obj ops,
      ∃ p, step.outcome = .ok p := by
  obtain ⟨b, hb⟩ := hc.exists_budget (ops.flatMap bytes).length
  have hstart := b.left_init (P := fun _ => True) trivial hb.symm
  rw [← hnew] at hstart
  refine ⟨2 * ((ops.flatMap bytes).length + b.most) + 1, fun fuel hfuel step hmem => ?_⟩
  have hne := trace_ends (fun later obj => b.Left (fun _ => True) _ later (strm obj))
    (fun later obj op h => hends b _ later fuel obj op h hfuel) hstart step hmem
  rw [(Runs.mem_trace hmem).2] at hne ⊢
  obtain ⟨p, hp, -⟩ := (hsat fuel step.before step.op).returns hne
  exact ⟨p, hp⟩

/-- **Every step of a script on an encode context returns.** -/
theorem encodeScript_returns (hc : Ending L.coder s₀) {obj : XzEncodeContext σ}
    (hnew : obj.strm = .init s₀) (ops : List EncodeOp) :
    ∃ n, ∀ fuel, n < fuel → ∀ step ∈ Runs.trace (encodeOp L fuel) (fun _ => false) obj ops,
      ∃ p, step.outcome = .ok p :=
  script_returns hc (fun _ _ _ _ _ op h hfuel => encodeOp_ends hc op h hfuel) (encodeOp_sat L) hnew ops

/-- **Every step of a script on a decode context returns.** -/
theorem decodeScript_returns (hc : Ending L.coder s₀) {obj : XzDecodeContext σ}
    (hnew : obj.strm = .init s₀) (ops : List DecodeOp) :
    ∃ n, ∀ fuel, n < fuel → ∀ step ∈ Runs.trace (decodeOp L fuel) (fun _ => false) obj ops,
      ∃ p, step.outcome = .ok p :=
  script_returns hc (fun _ _ _ _ _ op h hfuel => decodeOp_ends hc op h hfuel) (decodeOp_sat L) hnew ops

end PhpExtXz
