/-
# PhpExtXz.ReadExact — reads of a complete file are exact.

A file that decodes to `D`, below a stream that splits it as it likes, read in pieces of any sizes: each
read returns the next bytes of `D`, as many as were asked for while there are that many
(`ReadsExactly`). What the reads rest on beyond `PhpExtXz.ReadFile` is that the decoder has put out all
of `D` when it takes the last byte (`EmitsAll`), so that nothing waits inside it when
`php_xziop_read` takes an empty `in_buf` at the end of the file for the end of the data.

A read after the one that set `stream->eof` meets the same test again: `AtEnd` is a state that reads do
not leave.
-/
import PhpExtXz.ReadRuns
import PhpExtXz.DecodePaths

namespace PhpExtXz

open FuelLoop XzStreamCtx

variable {σ ι : Type}

/-! ## After the end -/

/-- All is handed out, the stream below is at its end, and `stream->eof` says so. -/
structure AtEnd (io : Inner ι) (ctx : XzStreamCtx σ ι) : Prop where
  windowed : ctx.Windowed
  atNextOut : ctx.outBufIdx = some ctx.strm.nextOut
  noInput : ctx.strm.availIn = 0
  noMore : io.eof ctx.stream = true
  eof : ctx.eof = true

variable {c : Coder σ} {io : Inner ι} {r : Reading σ ι} {ctx ctx' e : XzStreamCtx σ ι}
  {t : Turn (Reading σ ι) (Option (List UInt8) × XzStreamCtx σ ι)}

/-- Only a pass that finds the end sets `stream->eof`. -/
theorem XzStreamCtx.ReadStep.endsAt (hstep : ReadStep c io r t) (hw : r.self.Windowed)
    (hopen : r.self.eof = false) :
    TurnSat (fun r' => r'.self.Windowed ∧ r'.self.eof = false)
      (fun p => p.2.eof = true → AtEnd io p.2) t := by
  have hnext := hstep.windowed hw
  cases hstep with
  | full =>
    intro heof
    rw [hopen] at heof
    cases heof
  | fromWindow =>
    intro heof
    rw [show r.self.eof = true from heof] at hopen
    cases hopen
  | atEnd _ _ emptied noInput noMore =>
    exact fun _ => ⟨hnext.1, emptied.atNextOut, noInput, noMore, rfl⟩
  | @readFailed e st _ _ emptied =>
    intro heof
    rw [← emptied.eof, show e.eof = true from heof] at hopen
    cases hopen
  | decoded _ _ emptied refilled _ coded =>
    exact ⟨hnext.1, coded.eof.trans (refilled.eof.trans (emptied.eof.trans hopen))⟩
  | decodeFailed _ _ emptied refilled _ coded =>
    intro heof
    rw [← emptied.eof, ← refilled.eof, ← coded.eof, heof] at hopen
    cases hopen

/-- A read that sets `stream->eof` leaves a stream at its end. -/
theorem phpXziopRead_atEnd (c : Coder σ) (io : Inner ι) (fuel : Nat) (hw : ctx.Windowed)
    (hopen : ctx.eof = false) (count : Nat) :
    Sat (phpXziopRead c io fuel ctx count) (fun p => p.2.eof = true → AtEnd io p.2)
      (fun _ => False) := by
  apply loop_sat (fun r : Reading σ ι => r.self.Windowed ∧ r.self.eof = false) _ fuel
    ⟨ctx, [], count⟩ ⟨hw, hopen⟩
  rintro a ⟨ha, hclear⟩
  obtain ⟨t, ht, hstep⟩ := readTurn_step c io ha
  rw [ht]
  exact hstep.endsAt ha hclear

/-- A pass at the end returns nothing and stays there. -/
theorem XzStreamCtx.ReadStep.stays (hstep : ReadStep c io r t) (h : AtEnd io r.self) :
    ∃ ctx', t = .leave (some r.buf, ctx') ∧ AtEnd io ctx' := by
  have hnone : r.self.waiting = [] := waiting_of_atNextOut h.windowed.bounded h.atNextOut
  -- an empty `in_buf` at the end of the file is not refilled
  have hnot : ∀ {e e₁ : XzStreamCtx σ ι}, Emptied r.self e → Refilled io e e₁ → False := by
    intro e e₁ emptied refilled
    rcases refilled.source with ⟨hsome, -, -⟩ | ⟨-, hunended, -⟩
    · exact hsome (emptied.availIn.trans h.noInput)
    · rw [emptied.stream, h.noMore] at hunended
      cases hunended
  cases hstep with
  | full => exact ⟨_, rfl, h⟩
  | fromWindow _ short =>
    rw [hnone] at short
    exact absurd short (Nat.not_lt_zero _)
  | @atEnd e _ _ emptied noInput noMore =>
    refine ⟨{ e with eof := true }, by rw [hnone, List.append_nil], ?_⟩
    exact ⟨⟨⟨emptied.bounded.inside, emptied.bounded.room⟩, emptied.windowed.idx,
      emptied.windowed.room⟩, emptied.atNextOut, noInput, noMore, rfl⟩
  | readFailed _ _ emptied _ unended =>
    rw [emptied.stream, h.noMore] at unended
    cases unended
  | decoded _ _ emptied refilled => exact (hnot emptied refilled).elim
  | decodeFailed _ _ emptied refilled => exact (hnot emptied refilled).elim

/-- **A read after the end.** It returns no bytes, and `stream->eof` stays set. -/
theorem AtEnd.read (h : AtEnd io ctx) (c : Coder σ) {fuel : Nat} (hfuel : 0 < fuel) (count : Nat) :
    ∃ ctx', phpXziopRead c io fuel ctx count = .ok (some [], ctx') ∧ AtEnd io ctx' := by
  obtain ⟨n, rfl⟩ : ∃ n, fuel = n + 1 := ⟨fuel - 1, by omega⟩
  obtain ⟨t, ht, hstep⟩ := readTurn_step (r := ⟨ctx, [], count⟩) c io h.windowed
  obtain ⟨ctx', rfl, hend⟩ := hstep.stays h
  refine ⟨ctx', ?_, hend⟩
  rw [phpXziopRead, loop, ht]

/-! ## One read of the file -/

/-- All of `D` has been put out when the last byte of `s` is taken. -/
def EmitsAll (c : Coder σ) (s₀ : σ) (s D : List UInt8) : Prop :=
  ∀ f st, Reaches c s₀ f st → f.finishing = none → f.failed = false → f.taken = s → f.emitted = D

/-- Where the reads of a file stand when `given` has been handed out. -/
def Standing (c : Coder σ) (s₀ : σ) (io : Inner ι) (left : ι → List UInt8) (st₀ : ι)
    (D given : List UInt8) (ctx : XzStreamCtx σ ι) : Prop :=
  (∃ f, ReadingFile c s₀ io left st₀ given f ctx) ∨ (AtEnd io ctx ∧ given = D)

variable {left : ι → List UInt8} {s₀ : σ} {st₀ : ι} {s D given : List UInt8} {fuel : Nat}

/-- What has been read at the end is all of `D`. -/
theorem ReadOut.eq_decoded (h : ReadOut c s₀ io left st₀ D given) (hfile : FileStream io left)
    (hleft : left st₀ = s) (hdec : Decodes c s₀ s D) (hall : EmitsAll c s₀ s D) : given = D := by
  obtain ⟨ps, st₁, f₀, s₁, hreads, hnone, hfed, hbefore, -⟩ := h.fed
  obtain ⟨hreach, hrunning, htaken⟩ := hfed.reaches .start rfl
  have hflat : f₀.taken = s := by
    rw [htaken, List.nil_append, ← hleft, hreads.left_eq hfile, hnone, List.append_nil]
  have hfine := hfed.notFailed hdec .start rfl rfl ((htaken.symm.trans hflat) ▸ List.prefix_rfl)
  rw [hall f₀ s₁ hreach hrunning hfine hflat] at hbefore
  exact h.decoded.eq_of_length_le hbefore.length_le

/-- The bytes that come next are told by what is handed out after them. -/
theorem next_bytes {bytes : List UInt8} {count : Nat} (hpre : given ++ bytes <+: D)
    (hcount : bytes.length ≤ count) (hall : bytes.length < count → given ++ bytes = D) :
    bytes = (D.drop given.length).take count := by
  obtain ⟨rest, rfl⟩ := hpre
  rw [List.append_assoc, List.drop_left]
  by_cases hshort : bytes.length < count
  · have hnil : rest = [] := List.append_right_eq_self.mp (hall hshort).symm
    rw [hnil, List.append_nil, List.take_of_length_le hcount]
  · obtain rfl : count = bytes.length := by omega
    rw [List.take_left]

/-- **One read.** It goes on from where the last one stopped. -/
theorem Standing.read (h : Standing c s₀ io left st₀ D given ctx) (hfile : FileStream io left)
    (hleft : left st₀ = s) (hdec : Decodes c s₀ s D) (hall : EmitsAll c s₀ s D)
    (hfuel : s.length + D.length + 1 < fuel) {count : Nat}
    (hcount : ∀ bytes ctx', phpXziopRead c io fuel ctx count = .ok (some bytes, ctx') →
      bytes.length ≤ count) :
    ∃ bytes ctx', phpXziopRead c io fuel ctx count = .ok (some bytes, ctx') ∧
      bytes = (D.drop given.length).take count ∧
      Standing c s₀ io left st₀ D (given ++ bytes) ctx' ∧
      (ctx'.eof = true → given ++ bytes = D) ∧ (bytes.length < count → ctx'.eof = true) := by
  have hpre : left st₀ <+: s := hleft ▸ List.prefix_rfl
  rcases h with ⟨f, hreading⟩ | ⟨hend, rfl⟩
  · obtain ⟨⟨ret, ctx'⟩, hread, bytes, hret, hnext⟩ :=
      phpXziopRead_file hfile hdec hpre hreading count fuel hfuel
    obtain rfl : ret = some bytes := hret
    have hle := hcount bytes ctx' hread
    rcases hnext with ⟨heof, hlen, f', hreading'⟩ | ⟨heof, hout⟩
    · have hgiven := hreading'.decodes hfile hdec hpre
      refine ⟨bytes, ctx', hread, next_bytes hgiven hle ?_, Or.inl ⟨f', hreading'⟩, ?_, ?_⟩
      · intro hshort
        omega
      · intro hset
        rw [show ctx'.eof = false from heof] at hset
        cases hset
      · intro hshort
        omega
    · have hD : given ++ bytes = D := hout.eq_decoded hfile hleft hdec hall
      have hatEnd := (phpXziopRead_atEnd c io fuel hreading.windowed hreading.notEof count).of_ok hread
      refine ⟨bytes, ctx', hread, next_bytes hout.decoded hle (fun _ => hD), ?_, fun _ => hD,
        fun _ => heof⟩
      exact Or.inr ⟨hatEnd heof, hD⟩
  · obtain ⟨ctx', hread, hend'⟩ := hend.read c (by omega : 0 < fuel) count
    refine ⟨[], ctx', hread, ?_, ?_, ?_, fun _ => hend'.eof⟩
    · rw [List.drop_length, List.take_nil]
    · rw [List.append_nil]
      exact Or.inr ⟨hend', rfl⟩
    · rw [List.append_nil]
      exact fun _ => rfl

theorem Standing.decodes (h : Standing c s₀ io left st₀ D given ctx) (hfile : FileStream io left)
    (hleft : left st₀ = s) (hdec : Decodes c s₀ s D) : given <+: D := by
  rcases h with ⟨f, hreading⟩ | ⟨-, rfl⟩
  · exact hreading.decodes hfile hdec (hleft ▸ List.prefix_rfl)
  · exact List.prefix_rfl

/-! ## Runs of reads -/

/-- All reads were made, and each returned the next bytes of `D`: as many as it was asked for, or all
that were left, and then it has set `stream->eof`, which is set only when all of `D` was returned. -/
structure ReadsExactly (D : List UInt8) (counts : List Nat) (trace : List (XziopStep σ ι)) : Prop where
  made : trace.map (·.op) = counts.map .read
  exact : ∀ done step rest count, trace = done ++ step :: rest → step.op = .read count →
    handedOut done <+: D ∧
    ∃ bytes ctx', step.outcome = .ok (.read (some bytes), ctx') ∧
      bytes = (D.drop (handedOut done).length).take count ∧
      (ctx'.eof = true → handedOut (done ++ [step]) = D) ∧ (bytes.length < count → ctx'.eof = true)

variable {done : List (XziopStep σ ι)} {step : XziopStep σ ι} {counts : List Nat}

/-- A read in a run, in the terms of `Standing.read`. -/
theorem Standing.xziop (h : Standing c s₀ io left st₀ D (handedOut done) ctx)
    (hbetween : BetweenReads done ctx) (hfile : FileStream io left) (hleft : left st₀ = s)
    (hdec : Decodes c s₀ s D) (hall : EmitsAll c s₀ s D)
    (hfuel : s.length + D.length + 1 < fuel) (count : Nat) :
    ∃ bytes ctx', xziop c io fuel ctx (.read count) = .ok (.read (some bytes), ctx') ∧
      bytes = (D.drop (handedOut done).length).take count ∧
      Standing c s₀ io left st₀ D (handedOut done ++ bytes) ctx' ∧
      (ctx'.eof = true → handedOut done ++ bytes = D) ∧ (bytes.length < count → ctx'.eof = true) := by
  obtain ⟨bytes, ctx', hread, hnext⟩ := h.read hfile hleft hdec hall hfuel (fun bytes ctx' hret =>
    ((phpXziopRead_handedOut c io fuel hbetween.windowed hbetween.exact count).of_ok hret).length_le)
  refine ⟨bytes, ctx', ?_, hnext⟩
  simp only [PhpExtXz.xziop, hread, ok_bind, pure_eq_ok]

/-- Where a run of reads stands before each of its steps. -/
theorem xziopTrace_standing (hstart : Standing c s₀ io left st₀ D [] ctx)
    (hctx : BetweenReads [] ctx) (hfile : FileStream io left) (hleft : left st₀ = s)
    (hdec : Decodes c s₀ s D) (hall : EmitsAll c s₀ s D) (hfuel : s.length + D.length + 1 < fuel)
    {rest : List (XziopStep σ ι)}
    (hsplit : xziopTrace c io fuel ctx (counts.map .read) = done ++ step :: rest) :
    Standing c s₀ io left st₀ D (handedOut done) step.before ∧ BetweenReads done step.before := by
  refine Runs.trace_invariant (fun done ctx =>
      Standing c s₀ io left st₀ D (handedOut done) ctx ∧ BetweenReads done ctx) []
    ⟨hstart, hctx⟩ ?_ hsplit
  rintro done ⟨before, op, outcome⟩ ret ctx' hmem ⟨hstands, hbetween⟩ rfl -
  obtain ⟨hop, hrun⟩ := Runs.mem_trace hmem
  obtain ⟨count, -, rfl⟩ := exists_read_of_mem hop
  obtain ⟨bytes, ctx'', hread, -, hnext, -, -⟩ :=
    hstands.xziop hbetween hfile hleft hdec hall hfuel count
  obtain ⟨rfl, rfl⟩ := Prod.mk.inj (Except.ok.inj (hread.symm.trans hrun.symm))
  refine ⟨?_, hbetween.step hread⟩
  rw [handedOut_append, handedOut_singleton rfl]
  exact hnext

/-- **Reads are exact**, for every file that decodes, every way the stream below splits it, and all
sizes. -/
theorem xziopTrace_readsExactly {L : Liblzma σ}
    (hinit : L.lzmaAutoDecoder UINT64_MAX LZMA_CONCATENATED = .ok s₀)
    (hopen : phpXzInitDecoder L 0 st₀ = some ctx) (hfile : FileStream io left) (hleft : left st₀ = s)
    (hdec : Decodes L.coder s₀ s D) (hall : EmitsAll L.coder s₀ s D) (counts : List Nat)
    (hfuel : s.length + D.length + 1 < fuel) :
    ReadsExactly D counts (xziopTrace L.coder io fuel ctx (counts.map .read)) := by
  have hlimit : L.lzmaAutoDecoder (memoryLimitOrMax 0) LZMA_CONCATENATED = .ok s₀ := hinit
  have hstart : Standing L.coder s₀ io left st₀ D [] ctx :=
    Or.inl ⟨{}, phpXzInitDecoder_reading hlimit hopen⟩
  -- what every step of the run does
  have hstep : ∀ done step rest,
      xziopTrace L.coder io fuel ctx (counts.map .read) = done ++ step :: rest →
      ∃ count, step.op = .read count ∧ handedOut done <+: D ∧
        ∃ bytes ctx', step.outcome = .ok (.read (some bytes), ctx') ∧
          bytes = (D.drop (handedOut done).length).take count ∧
          (ctx'.eof = true → handedOut done ++ bytes = D) ∧
          (bytes.length < count → ctx'.eof = true) := by
    intro done step rest hsplit
    obtain ⟨hstands, hbetween⟩ := xziopTrace_standing hstart (phpXzInitDecoder_between hopen) hfile
      hleft hdec hall hfuel hsplit
    obtain ⟨hop, hrun⟩ := Runs.mem_trace (hsplit ▸ List.mem_append_right _ List.mem_cons_self)
    obtain ⟨count, -, hcount⟩ := exists_read_of_mem hop
    obtain ⟨bytes, ctx', hread, hbytes, -, heof, hshort⟩ :=
      hstands.xziop hbetween hfile hleft hdec hall hfuel count
    refine ⟨count, hcount, hstands.decodes hfile hleft hdec, bytes, ctx', ?_, hbytes, heof, hshort⟩
    rw [hrun, hcount, hread]
  refine ⟨Runs.trace_ops ?_ ?_, ?_⟩
  · intro op hop
    obtain ⟨count, -, rfl⟩ := exists_read_of_mem hop
    rfl
  · intro step hmem
    obtain ⟨done, rest, hsplit⟩ := List.append_of_mem hmem
    obtain ⟨count, -, -, bytes, ctx', hread, -⟩ := hstep done step rest hsplit
    exact ⟨_, _, hread⟩
  · intro done step rest count hsplit hcount
    obtain ⟨count', hcount', hpre, bytes, ctx', hread, hbytes, heof, hshort⟩ :=
      hstep done step rest hsplit
    obtain rfl : count = count' := XziopOp.read.inj (hcount.symm.trans hcount')
    refine ⟨hpre, bytes, ctx', hread, hbytes, ?_, hshort⟩
    rw [handedOut_append, handedOut_singleton hread]
    exact heof

/-- A stream that decodes a file of three bytes with their marks, which comes in two pieces. -/
def twoPieces : XzStreamCtx StoredState Pieces :=
  { freshCtx markTable.start ⟨[[1, 7, 1], [8, 1, 9]], by decide⟩ false with outBufIdx := some 0 }

theorem xziopTrace_readsExactly_marked :
    ReadsExactly [7, 8, 9] [2, 1, 4]
      (xziopTrace markLiblzma.coder pieceStream 11 twoPieces ([2, 1, 4].map .read)) := by
  have hopen : phpXzInitDecoder markLiblzma 0 ⟨[[1, 7, 1], [8, 1, 9]], by decide⟩ = some twoPieces := rfl
  have hdec := markTable_decodesWhole [7, 8, 9] (by decide)
  have hall : EmitsAll storedCoder markTable.start (mark [7, 8, 9]) [7, 8, 9] := by
    intro f st hreach _ _ htaken
    rw [markTable_emitted hreach, htaken]
    rfl
  exact xziopTrace_readsExactly rfl hopen pieceStream_file rfl hdec.toDecodes hall [2, 1, 4] (by decide)

end PhpExtXz
