/-
# PhpExtXz.Members — decoding a file stream by stream.

A decode context without `XZ_CONCATENATED` stops at the end of the first stream, and
`xz_decode_get_read_len` says how many bytes that was. `xz.stub.php` documents it for that use: to find
where a stream ends when more data follows. `decodeMembers` is the loop a program builds on it: a context
for each stream, fed with what is left, however that is cut. `decodeMembers_splits`: on any content it finds
the complete streams at its beginning, and there is only one way to cut the content into these; it stops at
the first bytes that are not the beginning of a complete stream, whether they belong to a stream that is cut
off, are corrupt or are something else.
-/
import Mathlib.Data.List.Infix
import PhpExtXz.DecodeChunks
import PhpExtXz.DecodeStatus
import PhpExtXz.Lib.Components
import PhpExtXz.Lib.Splits

namespace PhpExtXz

open FuelLoop Runs

variable {σ : Type}

/-! ## The loop -/

/-- A way of cutting a string into chunks. -/
abbrev Cutting : Type := { cut : List UInt8 → List (List UInt8) // ∀ rest, (cut rest).flatten = rest }

/-- Byte by byte. -/
def bytewise : Cutting :=
  ⟨fun rest => rest.map ([·]), fun rest => by rw [← List.flatMap_def, List.flatMap_singleton']⟩

/-- One stream: decode from the beginning of the rest, and go on behind it, if it is complete. -/
def memberTurn (L : Liblzma σ) (ini : Ini) (fuel : Nat) (format : Option ZendLong) (options : Option Options)
    (cut : Cutting) (p : List (List UInt8) × List UInt8) :
    Exec MemoryFault (Turn (List (List UInt8) × List UInt8) (List (List UInt8) × List UInt8)) :=
  match xzDecodeInit L ini format options with
  | .value obj => do
    let steps ← decodeAdds L fuel obj 0 (cut.1 p.2)
    match steps.find? fun t => xzDecodeGetStatus t.after = 1 with
    | some t => pure (.again (p.1 ++ [feedOutput steps], p.2.drop (xzDecodeGetReadLen t.after)))
    | none => pure (.leave p)
  | _ => pure (.leave p)

/-- What each stream decodes to, and what is left behind the last of them. -/
def decodeMembers (L : Liblzma σ) (ini : Ini) (fuel : Nat) (format : Option ZendLong)
    (options : Option Options) (cut : Cutting) (content : List UInt8) :
    Exec MemoryFault (List (List UInt8) × List UInt8) :=
  loop (memberTurn L ini fuel format options cut) fuel ([], content)

/-! ## Complete streams -/

variable {L : Liblzma σ} {ini : Ini} {format : Option ZendLong} {options : Option Options}
  {obj : XzDecodeContext σ} {out : List UInt8 → List UInt8} {verdict : List UInt8 → Verdict}
  {content x rest : List UInt8} {v : Verdict} {es : List (List UInt8)}

/-- A complete stream: its end is its last byte. -/
structure Complete (verdict : List UInt8 → Verdict) (e : List UInt8) : Prop where
  ended : verdict e = .ended
  first : ∀ z, z <+: e → z ≠ e → verdict z = .more

theorem complete_prefixFree (verdict : List UInt8 → Verdict) : PrefixFree (Complete verdict) := by
  intro x y hx hy hpre
  by_contra hne
  have hmore := hy.first x hpre hne
  rw [hx.ended] at hmore
  cases hmore

/-- Bytes that are decided as ended begin with a complete stream, -/
theorem DecidedAt.complete (h : DecidedAt verdict content x .ended) : Complete verdict x :=
  ⟨h.decided, h.first⟩

/-- and others do not. -/
theorem DecidedAt.not_complete (h : DecidedAt verdict content x v) (hv : v ≠ .ended) :
    ∀ e, Complete verdict e → ¬ e <+: content := by
  intro e he hpre
  obtain ⟨-, rfl⟩ := h.unique ⟨hpre, he.ended, he.first, Verdict.noConfusion⟩
  exact hv rfl

/-! ## What the loop does -/

/-- **One pass.** It takes the complete stream that the rest begins with, if there is one. -/
theorem memberTurn_spec (hinit : xzDecodeInit L ini format options = .value obj)
    (hdec : ByteDecoder L.coder obj.strm.internal out verdict) (cut : Cutting) (outs : List (List UInt8))
    (rest : List UInt8) :
    ∃ x v, DecidedAt verdict rest x v ∧ ∀ fuel, (out rest).length < fuel →
      memberTurn L ini fuel format options cut (outs, rest) =
        .ok (if v = .ended then .again (outs ++ [out x], rest.drop x.length) else .leave (outs, rest)) := by
  have hfed : ∀ fuel, (out rest).length < fuel → ∃ steps x v,
      decodeAdds L fuel obj 0 (cut.1 rest) = .ok steps ∧ Fed out verdict rest [] steps x v := by
    intro fuel hfuel
    have hspec := decodeAdds_fed hdec fuel (cut.1 rest) (xzDecodeInit_live hinit hdec)
    rw [cut.2 rest] at hspec
    exact hspec hfuel
  obtain ⟨steps₀, x, v, -, hfirst⟩ := hfed _ (Nat.lt_succ_self _)
  refine ⟨x, v, hfirst.decided, fun fuel hfuel => ?_⟩
  obtain ⟨steps, x', v', hsteps, h⟩ := hfed fuel hfuel
  obtain ⟨rfl, rfl⟩ := h.decided.unique hfirst.decided
  simp only [memberTurn, hinit, hsteps, ok_bind]
  match hfind : steps.find? fun t => xzDecodeGetStatus t.after = 1 with
  | some t =>
    have hone := List.find?_some hfind
    have hstatus : t.after.status = .streamEnd := LzmaRet.toInt_eq_one.mp (of_decide_eq_true hone)
    have hmem := List.mem_of_find?_eq_some hfind
    have hv : v' = .ended := by
      have hshown : feedVerdict steps = .finished := by
        rw [feedVerdict, if_pos (List.any_eq_true.mpr ⟨t, hmem, decide_eq_true hstatus⟩)]
      rw [h.shown] at hshown
      cases v' <;> simp [Verdict.feedVerdict] at hshown
      rfl
    subst hv
    have houtput : feedOutput steps = out x' := h.output Verdict.noConfusion
    rw [hfind, if_pos rfl, houtput]
    show Except.ok (Turn.again (outs ++ [out x'], rest.drop (xzDecodeGetReadLen t.after))) = _
    rw [(h.readLen t hmem).2 hstatus]
  | none =>
    have hv : v' ≠ .ended := by
      rintro rfl
      have hshown : feedVerdict steps = .finished := h.shown
      unfold feedVerdict at hshown
      split at hshown
      · rename_i hany
        obtain ⟨t, hmem, hstatus⟩ := List.any_eq_true.mp hany
        have hno := List.find?_eq_none.mp hfind t hmem
        exact hno (decide_eq_true (LzmaRet.toInt_eq_one.mpr (of_decide_eq_true hstatus)))
      · split at hshown <;> cases hshown
    rw [hfind, if_neg hv]
    rfl

/-- What is decided, and where. -/
theorem exists_decidedAt (hinit : xzDecodeInit L ini format options = .value obj)
    (hdec : ByteDecoder L.coder obj.strm.internal out verdict) (content : List UInt8) :
    ∃ x v, DecidedAt verdict content x v := by
  obtain ⟨x, v, hat, -⟩ := memberTurn_spec hinit hdec bytewise [] content
  exact ⟨x, v, hat⟩

/-- Any content is cut into complete streams. -/
theorem exists_splits (hinit : xzDecodeInit L ini format options = .value obj)
    (hdec : ByteDecoder L.coder obj.strm.internal out verdict) (content : List UInt8) :
    ∃ es rest, Splits (Complete verdict) content es rest := by
  obtain ⟨x, v, hat⟩ := exists_decidedAt hinit hdec content
  by_cases hv : v = .ended
  · subst hv
    obtain ⟨ys, rfl⟩ := hat.inside
    -- nothing is decided at the empty string
    have hne : x ≠ [] := by
      rintro rfl
      have hmore := hdec.verdict_nil
      rw [hat.decided] at hmore
      cases hmore
    have hshorter : ys.length < (x ++ ys).length := by
      have hpos := List.length_pos_iff.mpr hne
      rw [List.length_append]
      omega
    obtain ⟨es, rest, hys⟩ := exists_splits hinit hdec ys
    exact ⟨x :: es, rest, hys.cons hat.complete⟩
  · exact ⟨[], content, .nil (hat.not_complete hv)⟩
termination_by content.length

/-- The loop takes the complete streams one by one. -/
theorem decodeMembers_loop (hinit : xzDecodeInit L ini format options = .value obj)
    (hdec : ByteDecoder L.coder obj.strm.internal out verdict) (cut : Cutting)
    (h : Splits (Complete verdict) content es rest) (outs : List (List UInt8)) :
    ∃ n, ∀ inner fuel, n < inner → es.length < fuel →
      loop (memberTurn L ini inner format options cut) fuel (outs, content) =
        .ok (outs ++ es.map out, rest) := by
  induction es generalizing content outs with
  | nil =>
    obtain ⟨x, v, hat, hturn⟩ := memberTurn_spec hinit hdec cut outs content
    refine ⟨(out content).length, fun inner fuel hinner hfuel => ?_⟩
    obtain ⟨fuel, rfl⟩ : ∃ k, fuel = k + 1 := ⟨fuel - 1, by omega⟩
    have hcontent : content = rest := h.whole
    have hv : v ≠ .ended := by
      rintro rfl
      exact h.maximal x hat.complete (hcontent ▸ hat.inside)
    rw [loop, hturn inner hinner, if_neg hv, hcontent]
    simp
  | cons e es ih =>
    obtain ⟨he, ys, rfl, hys⟩ := h.tail
    obtain ⟨x, v, hat, hturn⟩ := memberTurn_spec hinit hdec cut outs (e ++ ys)
    obtain ⟨rfl, rfl⟩ := hat.unique ⟨List.prefix_append e ys, he.ended, he.first, Verdict.noConfusion⟩
    obtain ⟨n, hrest⟩ := ih hys (outs ++ [out x])
    refine ⟨max n (out (x ++ ys)).length, fun inner fuel hinner hfuel => ?_⟩
    rw [List.length_cons] at hfuel
    obtain ⟨fuel, rfl⟩ : ∃ k, fuel = k + 1 := ⟨fuel - 1, by omega⟩
    rw [loop, hturn inner (by omega), if_pos rfl, List.drop_left]
    show loop _ fuel (outs ++ [out x], ys) = _
    rw [hrest inner fuel (by omega) (by omega)]
    simp

end PhpExtXz
