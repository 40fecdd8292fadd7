/-
# PhpExtXz.LoopsEnd — every driving loop ends.

The results of `PhpExtXz.StringsEnd` and `PhpExtXz.StreamsEnd`, for whatever the functions that create
contexts and streams hand out. A loop ends where its fuel does not run out, however much of it there is
above some bound. The functions that produce strings then return, and so does every operation on a stream
that is only read; one on a stream that is only written to returns or is a write that leaves `in_buf` after
its loop, of which `PhpExtXz.WriteRuns` says when there are any.
-/
import PhpExtXz.InitOptions
import PhpExtXz.Direction
import PhpExtXz.StreamsEnd

namespace PhpExtXz

open FuelLoop

variable {σ : Type} {L : Liblzma σ}

/-! ## Contexts and streams as they are handed out -/

theorem createEncoder_ending (hL : EndingLiblzma L) {format : ZendLong} {filter : LzmaFilter}
    {check : UInt32} {s : σ} (h : createEncoder L format filter check = .ok s) :
    Ending L.coder s := by
  unfold createEncoder at h
  split at h
  · exact hL.rawEncoder _ _ h
  · exact hL.streamEncoder _ _ _ h

theorem createDecoder_ending (hL : EndingLiblzma L)
    {format flags memoryLimit filterId dictSize lc lp pb : ZendLong} {s : σ}
    (h : createDecoder L format flags memoryLimit filterId dictSize lc lp pb = some s) :
    Ending L.coder s := by
  unfold createDecoder at h
  split at h
  · split at h
    · cases h
    · exact hL.rawDecoder _ _ (toOption_eq_some h)
  · exact hL.autoDecoder _ _ _ (toOption_eq_some h)

/-- On a stream opened for reading everything but a write stays inside the buffers. -/
theorem xziop_reading_sat {ι : Type} {c : Coder σ} {io : Inner ι} {fuel : Nat} {ctx : XzStreamCtx σ ι}
    (hw : ctx.Windowed) (hread : ctx.isWrite = false) {op : XziopOp} (hwrite : op.isWrite = false) :
    Sat (xziop c io fuel ctx op) (fun _ => True) (fun _ => False) := by
  have hsat : op.isClose = false → Sat (xziop c io fuel ctx op) (fun _ => True) (fun _ => False) := by
    intro hclose
    exact (xziop_windowed hw hread hclose hwrite).mono fun _ _ => trivial
  cases op with
  | close =>
    simp only [xziop, phpXziopClose, hread, Bool.false_eq_true, if_false, pure_eq_ok, ok_bind]
    trivial
  | read count => exact hsat rfl
  | write buf => cases hwrite
  | flush => exact hsat rfl

/-- So it does in a run without writes. -/
theorem xziopTrace_reading_sat {ι : Type} {c : Coder σ} {io : Inner ι} {fuel : Nat}
    {ctx : XzStreamCtx σ ι} (hw : ctx.Windowed) (hread : ctx.isWrite = false) {ops : List XziopOp}
    (hwrite : ∀ op ∈ ops, op.isWrite = false) :
    ∀ step ∈ xziopTrace c io fuel ctx ops, Sat step.outcome (fun _ => True) (fun _ => False) := by
  intro step hmem
  obtain ⟨hop, houtcome⟩ := Runs.mem_trace hmem
  have hbefore := xziopTrace_windowed hw hread hwrite step hmem
  rw [houtcome]
  exact xziop_reading_sat hbefore.1 hbefore.2 (hwrite _ hop)

/-- What does not run out of fuel on a write stream returns, or is a write that leaves `in_buf` once its
loop has ended. -/
theorem WriteStep.returns {ι : Type} {ctx : XzStreamCtx σ ι} {ev : List Event} {op : XziopOp}
    {outcome : Exec MemoryFault (XziopResult × XzStreamCtx σ ι)} (h : WriteStep ctx ev op outcome)
    (hne : outcome ≠ .error .outOfFuel) :
    (∃ p, outcome = .ok p) ∨ (op.isWrite = true ∧ outcome = .error (.fault .copyPastInBuf)) := by
  cases h with
  | halted => exact absurd rfl hne
  | wrote => exact Or.inl ⟨_, rfl⟩
  | overflowed => exact Or.inr ⟨rfl, rfl⟩
  | flushed => exact Or.inl ⟨_, rfl⟩
  | closed => exact Or.inl ⟨_, rfl⟩

/-- **The loops of the extension end**: `php_xz_encode_string` and `php_xz_decode_string` on any data,
any script of additions and finishes on a context, and any run of operations on a stream, in whichever
direction it was opened. Nothing is asked of the stream below but that its content, where it is read, is
finite. -/
structure DrivingLoopsEnd (L : Liblzma σ) : Prop where
  encodeString : ∀ data level format, ∃ n, ∀ fuel, n < fuel →
    ∃ res, phpXzEncodeString L fuel data level format = .ok res
  decodeString : ∀ data memoryLimit, ∃ n, ∀ fuel, n < fuel →
    ∃ res, phpXzDecodeString L fuel data memoryLimit = .ok res
  encodeContext : ∀ ini format options obj, xzEncodeInit L ini format options = .value obj →
    ∀ ops, ∃ n, ∀ fuel, n < fuel →
      ∀ step ∈ Runs.trace (encodeOp L fuel) (fun _ => false) obj ops, ∃ p, step.outcome = .ok p
  decodeContext : ∀ ini format options obj, xzDecodeInit L ini format options = .value obj →
    ∀ ops, ∃ n, ∀ fuel, n < fuel →
      ∀ step ∈ Runs.trace (decodeOp L fuel) (fun _ => false) obj ops, ∃ p, step.outcome = .ok p
  writeStream : ∀ (ι : Type) (io : Inner ι) level stream ctx,
    phpXzInitEncoder L level stream = some ctx → ∀ ops, ∃ n, ∀ fuel, n < fuel →
      ∀ step ∈ xziopTrace L.coder io fuel ctx ops, step.outcome ≠ .error .outOfFuel ∧
        ((∀ op ∈ ops, op.isRead = false) → (∃ p, step.outcome = .ok p) ∨
          (step.op.isWrite = true ∧ step.outcome = .error (.fault .copyPastInBuf)))
  readStream : ∀ (ι : Type) (io : Inner ι) remaining, FiniteFile io remaining →
    ∀ memoryLimit stream ctx, phpXzInitDecoder L memoryLimit stream = some ctx →
      ∀ ops, ∃ n, ∀ fuel, n < fuel → ∀ step ∈ xziopTrace L.coder io fuel ctx ops,
        step.outcome ≠ .error .outOfFuel ∧
          ((∀ op ∈ ops, op.isWrite = false) → ∃ p, step.outcome = .ok p)

/-- **Every driving loop ends.** -/
theorem drivingLoops_end (hL : EndingLiblzma L) : DrivingLoopsEnd L where
  encodeString := phpXzEncodeString_returns hL
  decodeString := phpXzDecodeString_returns hL
  encodeContext := by
    intro ini format options obj hinit ops
    obtain ⟨-, preset, s, -, hcreated, hnew, -⟩ := xzEncodeInit_value hinit
    exact encodeScript_returns (createEncoder_ending hL hcreated) hnew ops
  decodeContext := by
    intro ini format options obj hinit ops
    obtain ⟨-, s, hcreated, hnew⟩ := xzDecodeInit_value hinit
    exact decodeScript_returns (createDecoder_ending hL hcreated) hnew ops
  writeStream := by
    intro ι io level stream ctx hopen ops
    obtain ⟨s, hs, rfl⟩ := Option.map_eq_some_iff.mp hopen
    have hc : Ending L.coder s := by
      unfold phpXzEncoderInitStream at hs
      split at hs
      · cases hs
      · exact hL.streamEncoder _ _ _ (toOption_eq_some hs)
    have hdir : OneWay true (freshCtx s stream true) := ⟨rfl, fun _ => rfl⟩
    -- nothing is read below, so that nothing need be known of it
    have hfile : true = false → FiniteFile io fun _ => 0 := nofun
    have hcat : true = false → EndingConcatenated L.coder s := nofun
    obtain ⟨n, hn⟩ := xziopTrace_ends hc hcat hfile hdir rfl rfl ops
    refine ⟨n, fun fuel hfuel step hmem => ⟨hn fuel hfuel step hmem, fun hread => ?_⟩⟩
    obtain ⟨-, hstep⟩ := xziopTrace_writeStep (phpXzInitEncoder_fresh hopen).toWriteReady hread hmem
    exact hstep.returns (hn fuel hfuel step hmem)
  readStream := by
    intro ι io remaining hfile memoryLimit stream ctx hopen ops
    obtain ⟨s, hcreated, rfl⟩ := phpXzInitDecoder_eq hopen
    have hc := hL.concatenated _ _ _ hcreated (by decide)
    have hdir : OneWay false { freshCtx s stream false with outBufIdx := some 0 } := ⟨rfl, nofun⟩
    obtain ⟨n, hn⟩ := xziopTrace_ends hc.toEnding (fun _ => hc) (fun _ => hfile) hdir rfl rfl ops
    refine ⟨n, fun fuel hfuel step hmem => ⟨hn fuel hfuel step hmem, fun hwrite => ?_⟩⟩
    obtain ⟨hwindowed, hread⟩ := phpXzInitDecoder_windowed hopen
    obtain ⟨p, hp, -⟩ :=
      (xziopTrace_reading_sat hwindowed hread hwrite step hmem).returns (hn fuel hfuel step hmem)
    exact ⟨p, hp⟩

/-! ### A stream below that never shows its end -/

/-- The copying coder ends, also where streams are concatenated. -/
theorem copyCoder_ending : EndingConcatenated copyCoder false where
  finite data := by
    refine ⟨data.length, fun f s hcalled htaken => ?_⟩
    rw [(copyCoder_called hcalled).1, htaken]
  stallsOnce := by
    rintro f s action input room r hcalled rfl - hstall ⟨action', input', room', hok, hstall'⟩
    have hstalled : (copyCoder.code s action input room).state = true := by
      rw [(copyCoder_step (copyCoder_called hcalled).1 s action input room).2]
      exact decide_eq_true hstall
    rw [hstalled] at hok hstall'
    have hnone : min input'.length room' = 0 := by
      by_contra hpos
      exact hstall' (Or.inl (Nat.pos_of_ne_zero hpos))
    unfold copyCoder at hok
    dsimp only at hok
    split at hok
    · cases hok
    · rw [if_pos ⟨hnone, rfl⟩] at hok
      cases hok
  runsOn := by
    intro f s input room _ _ hend
    have hret := (copyCoder_run (rfl : copyCoder.code s .run input room = _)).2.2
    rw [hend] at hret
    split at hret
    · cases hret
    · cases hret

theorem copyLiblzma_ending : EndingLiblzma copyLiblzma where
  streamEncoder := by
    rintro filters check s ⟨⟩
    exact copyCoder_ending.toEnding
  rawEncoder := by
    rintro filters s ⟨⟩
    exact copyCoder_ending.toEnding
  autoDecoder := by
    rintro memlimit flags s ⟨⟩
    exact copyCoder_ending.toEnding
  concatenated := by
    rintro memlimit flags s ⟨⟩ -
    exact copyCoder_ending
  rawDecoder := by
    rintro filters s ⟨⟩
    exact copyCoder_ending.toEnding

/-- Where nothing is left its reads return no bytes, and it never shows its end. -/
def dryPipe : Inner (List UInt8) where
  read content n := (some ⟨content.take n, List.length_take_le _ _⟩, content.drop n)
  write content _ := (none, content)
  flush := id
  eof _ := false

theorem dryPipe_finite : FiniteFile dryPipe List.length where
  read := by
    rintro content n bytes hread
    obtain rfl := Option.some.inj hread
    show (content.take n).length + (content.drop n).length ≤ content.length
    rw [List.length_take, List.length_drop]
    omega
  readFails := nofun
  write _ _ := le_refl _
  flush _ := le_refl _

/-- The copying library over a stream that never shows its end. -/
theorem drivingLoops_end_dryPipe :
    DrivingLoopsEnd copyLiblzma ∧
      phpXzInitDecoder copyLiblzma 0 [7, 8] = some (copyReader [7, 8]) ∧
      ∃ n, ∀ fuel, n < fuel →
        ∀ step ∈ xziopTrace copyLiblzma.coder dryPipe fuel (copyReader [7, 8]) [.read 5, .read 5],
          ∃ p, step.outcome = .ok p := by
  refine ⟨drivingLoops_end copyLiblzma_ending, rfl, ?_⟩
  obtain ⟨n, hn⟩ := (drivingLoops_end copyLiblzma_ending).readStream _ dryPipe _ dryPipe_finite 0 [7, 8] _
    rfl [.read 5, .read 5]
  exact ⟨n, fun fuel hfuel step hmem => (hn fuel hfuel step hmem).2 (by decide)⟩

end PhpExtXz
