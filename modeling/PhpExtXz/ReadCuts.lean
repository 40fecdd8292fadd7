/-
# PhpExtXz.ReadCuts — how much is asked for at a time cannot be told from what is read.

`php_xziop_read` hands out from the window and, when it has handed out all of it, goes on to the next
decompression at once, whether more is asked for or not. So a read of `n + m` bytes is a read of `n` and
then one of `m` (`gives_add_iff`): the same calls of `lzma_code` are made, in the same order. From that
follows, for any coder and any stream below, that a run of reads depends on how many bytes it asks for
in all (`asked_in_pieces`).

Failures are left out: after one, a read that has bytes to return returns them, and it is the next read
that meets the failure again.
-/
import PhpExtXz.Lib.Components
import PhpExtXz.Direction
import PhpExtXz.ReadRuns

namespace PhpExtXz

open FuelLoop Runs XzStreamCtx

variable {σ ι : Type}

/-! ## Handing out -/

namespace XzStreamCtx

/-- `self->out_buf_idx += n`. -/
def handOut (n : Nat) (self : XzStreamCtx σ ι) : XzStreamCtx σ ι :=
  { self with outBufIdx := self.outBufIdx.map (· + n) }

/-- All of the window has been handed out. -/
def drained (self : XzStreamCtx σ ι) : XzStreamCtx σ ι :=
  if self.waiting.length = 0 then self else self.emptyWindow

variable {ctx ctx' : XzStreamCtx σ ι} {n m : Nat}

@[simp]
theorem waiting_handOut : (ctx.handOut n).waiting = ctx.waiting.drop n := by
  match hidx : ctx.outBufIdx with
  | none => simp [waiting, handOut, hidx]
  | some idx =>
    rw [waiting_of_idx hidx, waiting_of_idx (show (ctx.handOut n).outBufIdx = some (idx + n) by
      rw [handOut, hidx]; rfl), List.drop_drop]
    rfl

theorem handOut_handOut : (ctx.handOut n).handOut m = ctx.handOut (n + m) := by
  simp only [handOut, Option.map_map]
  congr 2
  funext idx
  exact Nat.add_assoc idx n m

/-- What part of the window was handed out before does not matter once all of it has been. -/
theorem drained_handOut (h : n < ctx.waiting.length) : (ctx.handOut n).drained = ctx.drained := by
  have hleft : (ctx.handOut n).waiting.length ≠ 0 := by
    rw [waiting_handOut, List.length_drop]
    omega
  rw [drained, if_neg hleft, drained, if_neg (by omega)]
  rfl

@[simp]
theorem waiting_drained : ctx.drained.waiting = [] := by
  unfold drained
  by_cases hnone : ctx.waiting.length = 0
  · rw [if_pos hnone]
    exact List.eq_nil_of_length_eq_zero hnone
  · rw [if_neg hnone, emptyWindow]
    split
    · exact List.drop_of_length_le (List.length_take_le _ _)
    · rfl

theorem drained_of_nil (h : ctx.waiting = []) : ctx.drained = ctx := by
  rw [drained, h]
  rfl

theorem Windowed.emptied (h : ctx.Windowed) : Emptied ctx ctx.drained := by
  unfold drained
  by_cases hnone : ctx.waiting.length = 0
  · rw [if_pos hnone]
    exact h.emptied_of_nil hnone
  · rw [if_neg hnone]
    exact emptyWindow_emptied h

end XzStreamCtx

/-- No input is left, in `in_buf` or below. -/
def NoInput (io : Inner ι) (ctx : XzStreamCtx σ ι) : Prop :=
  io.eof ctx.stream = true ∧ ctx.strm.availIn = 0

instance (io : Inner ι) (ctx : XzStreamCtx σ ι) : Decidable (NoInput io ctx) :=
  inferInstanceAs (Decidable (_ ∧ _))

/-! ## What a read gives -/

/-- A stream that is asked for `n` bytes gives these, without a failure. -/
inductive Gives (c : Coder σ) (io : Inner ι) :
    XzStreamCtx σ ι → Nat → List UInt8 → XzStreamCtx σ ι → Prop
  | nothing {ctx : XzStreamCtx σ ι} : Gives c io ctx 0 [] ctx
  | fromWindow {ctx : XzStreamCtx σ ι} {n : Nat} (more : 0 < n) (short : n < ctx.waiting.length) :
      Gives c io ctx n (ctx.waiting.take n) (ctx.handOut n)
  | atEnd {ctx : XzStreamCtx σ ι} {n : Nat} (more : 0 < n) (all : ctx.waiting.length ≤ n)
      (ended : NoInput io ctx.drained) : Gives c io ctx n ctx.waiting { ctx.drained with eof := true }
  | decoded {ctx mid ctx' : XzStreamCtx σ ι} {n : Nat} {rest : List UInt8} (more : 0 < n)
      (all : ctx.waiting.length ≤ n) (unended : ¬ NoInput io ctx.drained)
      (decompressed : phpXzDecompress c io ctx.drained = .ok (true, mid))
      (gives : Gives c io mid (n - ctx.waiting.length) rest ctx') :
      Gives c io ctx n (ctx.waiting ++ rest) ctx'

variable {c : Coder σ} {io : Inner ι} {fuel n m : Nat} {ctx ctx' mid : XzStreamCtx σ ι}
  {bytes bytes' : List UInt8}

/-- A read and then another. -/
theorem Gives.add (h : Gives c io ctx n bytes mid) (h' : Gives c io mid m bytes' ctx') :
    Gives c io ctx (n + m) (bytes ++ bytes') ctx' := by
  induction h with
  | nothing =>
    rw [Nat.zero_add]
    exact h'
  | @fromWindow ctx n more short =>
    cases h' with
    | nothing =>
      rw [List.append_nil]
      exact .fromWindow more short
    | fromWindow more' short' =>
      rw [waiting_handOut, List.length_drop] at short'
      rw [waiting_handOut, ← List.take_add, handOut_handOut]
      exact .fromWindow (by omega) (by omega)
    | atEnd more' all ended =>
      rw [drained_handOut short] at ended ⊢
      rw [waiting_handOut, List.length_drop] at all
      rw [waiting_handOut, List.take_append_drop]
      exact .atEnd (by omega) (by omega) ended
    | @decoded _ _ _ _ rest more' all unended decompressed gives =>
      rw [drained_handOut short] at unended decompressed
      rw [waiting_handOut, List.length_drop] at all gives
      rw [waiting_handOut, ← List.append_assoc, List.take_append_drop]
      refine .decoded (by omega) (by omega) unended decompressed ?_
      rw [show n + m - ctx.waiting.length = m - (ctx.waiting.length - n) by omega]
      exact gives
  | @atEnd ctx n more all ended =>
    -- what comes after the end is the end again
    have hnil : ({ ctx.drained with eof := true } : XzStreamCtx σ ι).waiting = [] :=
      (waiting_drained : ctx.drained.waiting = [])
    have hsame := drained_of_nil hnil
    cases h' with
    | nothing =>
      rw [List.append_nil]
      exact .atEnd more all ended
    | fromWindow _ short =>
      rw [hnil] at short
      exact absurd short (Nat.not_lt_zero _)
    | atEnd =>
      rw [hsame, hnil, List.append_nil]
      exact .atEnd (by omega) (by omega) ended
    | decoded _ _ unended =>
      rw [hsame] at unended
      exact absurd ended unended
  | @decoded ctx next _ n rest more all unended decompressed _ ih =>
    rw [List.append_assoc]
    refine .decoded (by omega) (by omega) unended decompressed ?_
    rw [show n + m - ctx.waiting.length = n - ctx.waiting.length + m by omega]
    exact ih h'

/-- A read cut in two. -/
theorem Gives.split {k : Nat} (h : Gives c io ctx k bytes ctx') (hk : k = n + m) :
    ∃ bytes₁ mid bytes₂, Gives c io ctx n bytes₁ mid ∧ Gives c io mid m bytes₂ ctx' ∧
      bytes = bytes₁ ++ bytes₂ := by
  induction h generalizing n with
  | nothing =>
    obtain ⟨rfl, rfl⟩ : n = 0 ∧ m = 0 := by omega
    exact ⟨[], _, [], .nothing, .nothing, rfl⟩
  | @fromWindow ctx k more short =>
    subst hk
    by_cases hn : 0 < n
    · refine ⟨_, _, (ctx.waiting.drop n).take m, .fromWindow hn (by omega), ?_, List.take_add⟩
      by_cases hm : 0 < m
      · rw [← handOut_handOut, ← waiting_handOut]
        refine .fromWindow hm ?_
        rw [waiting_handOut, List.length_drop]
        omega
      · obtain rfl : m = 0 := by omega
        exact .nothing
    · obtain rfl : n = 0 := by omega
      rw [Nat.zero_add] at more short ⊢
      exact ⟨[], ctx, _, .nothing, .fromWindow more short, rfl⟩
  | @atEnd ctx k more all ended =>
    subst hk
    by_cases hn : 0 < n
    · by_cases hshort : n < ctx.waiting.length
      · refine ⟨_, _, _, .fromWindow hn hshort, ?_, (List.take_append_drop n _).symm⟩
        rw [← drained_handOut hshort] at ended ⊢
        rw [← waiting_handOut]
        refine .atEnd (by omega) ?_ ended
        rw [waiting_handOut, List.length_drop]
        omega
      · refine ⟨_, _, [], .atEnd hn (by omega) ended, ?_, (List.append_nil _).symm⟩
        by_cases hm : 0 < m
        · have hnil : ({ ctx.drained with eof := true } : XzStreamCtx σ ι).waiting = [] :=
            (waiting_drained : ctx.drained.waiting = [])
          have hsame := drained_of_nil hnil
          have hend := Gives.atEnd (c := c) hm (by rw [hnil]; exact Nat.zero_le _)
            (by rw [hsame]; exact ended)
          rw [hsame, hnil] at hend
          exact hend
        · obtain rfl : m = 0 := by omega
          exact .nothing
    · obtain rfl : n = 0 := by omega
      rw [Nat.zero_add] at more all
      exact ⟨[], ctx, _, .nothing, .atEnd more all ended, rfl⟩
  | @decoded ctx next _ k rest more all unended decompressed gives ih =>
    subst hk
    by_cases hn : 0 < n
    · by_cases hshort : n < ctx.waiting.length
      · refine ⟨_, _, ctx.waiting.drop n ++ rest, .fromWindow hn hshort, ?_, ?_⟩
        · rw [← drained_handOut hshort] at unended decompressed
          rw [← waiting_handOut]
          refine .decoded (by omega) ?_ unended decompressed ?_
          · rw [waiting_handOut, List.length_drop]
            omega
          · rw [waiting_handOut, List.length_drop,
              show m - (ctx.waiting.length - n) = n + m - ctx.waiting.length by omega]
            exact gives
        · rw [← List.append_assoc, List.take_append_drop]
      · obtain ⟨bytes₁, mid, bytes₂, h₁, h₂, rfl⟩ := ih (n := n - ctx.waiting.length) (by omega)
        refine ⟨_, mid, bytes₂, .decoded hn (by omega) unended decompressed h₁, h₂, ?_⟩
        rw [List.append_assoc]
    · obtain rfl : n = 0 := by omega
      rw [Nat.zero_add] at more all gives
      exact ⟨[], ctx, _, .nothing, .decoded more all unended decompressed gives, rfl⟩

/-- **Asking for more is asking again.** -/
theorem gives_add_iff : Gives c io ctx (n + m) bytes ctx' ↔
    ∃ bytes₁ mid bytes₂, Gives c io ctx n bytes₁ mid ∧ Gives c io mid m bytes₂ ctx' ∧
      bytes = bytes₁ ++ bytes₂ := by
  constructor
  · intro h
    exact h.split rfl
  · rintro ⟨bytes₁, mid, bytes₂, h₁, h₂, rfl⟩
    exact h₁.add h₂

/-! ## The operation -/

/-- A pass of the loop. -/
theorem readTurn_eq (c : Coder σ) (io : Inner ι) {r : Reading σ ι} (h : r.self.Windowed) :
    readTurn c io r =
      if r.toRead = 0 then .ok (.leave (some r.buf, r.self))
      else if r.toRead < r.self.waiting.length then
        .ok (.leave (some (r.buf ++ r.self.waiting.take r.toRead), r.self.handOut r.toRead))
      else readMore c io ⟨r.self.drained, r.buf ++ r.self.waiting, r.toRead - r.self.waiting.length⟩ := by
  obtain ⟨idx, hidx, hle⟩ := h.idx
  have hlen := h.length_waiting hidx
  have hnext : r.self.strm.nextOut ≤ XZ_BUFFER_SIZE := by
    have := h.bounded.room
    omega
  have hsize : ((((r.self.strm.nextOut : Int) - idx) % 2 ^ 64).toNat) = r.self.waiting.length := by
    simp only [XZ_BUFFER_SIZE] at hnext
    omega
  have hwindow : ∀ n, n ≤ r.self.waiting.length → r.self.outBuf.window idx n = r.self.waiting.take n := by
    intro n hn
    rw [waiting_of_idx hidx, outPending, Buffer.take_drop_written _ (by omega)]
  by_cases hmore : r.toRead = 0
  · rw [if_pos hmore, readTurn, if_neg (by omega)]
    rfl
  · simp only [if_neg hmore, readTurn, if_pos (Nat.pos_of_ne_zero hmore), hidx, hsize]
    by_cases hshort : r.toRead < r.self.waiting.length
    · rw [if_pos hshort, if_pos hshort, Reading.copyOut, if_pos (by omega), hwindow _ (by omega), handOut, hidx]
      rfl
    · rw [if_neg hshort, if_neg hshort]
      by_cases hsome : 0 < r.self.waiting.length
      · have hnat : ((r.self.strm.nextOut : Int) - idx).toNat = r.self.waiting.length := by omega
        rw [if_pos (by omega), hnat, Reading.copyOut, if_pos (by omega), hwindow _ (le_refl _), List.take_length,
          drained, if_neg (by omega)]
        rfl
      · have hnil : r.self.waiting = [] := List.eq_nil_of_length_eq_zero (by omega)
        rw [if_neg (by omega), drained_of_nil hnil, hnil, List.append_nil]
        rfl

/-- Its second half. -/
theorem readMore_eq (c : Coder σ) (io : Inner ι) {buf : List UInt8} (h : Emptied ctx mid) :
    readMore c io ⟨mid, buf, n⟩ =
      if NoInput io mid then .ok (.leave (some buf, { mid with eof := true }))
      else phpXzDecompress c io mid >>= fun p =>
        if p.1 then .ok (.again ⟨p.2, buf, n⟩)
        else .ok (.leave (readFailure buf, p.2)) := by
  by_cases hend : NoInput io mid
  · rw [if_pos hend, readMore, if_pos ⟨h.atNextOut, hend⟩]
    rfl
  · rw [if_neg hend, readMore, if_neg fun hall => hend hall.2]
    cases phpXzDecompress c io mid with
    | error e => rfl
    | ok p =>
      obtain ⟨_ | _, next⟩ := p
      · simp only [ok_bind, Bool.false_eq_true, if_false, readFailure]
        split <;> rfl
      · rfl

/-- No call of `lzma_code` failed. -/
def NoneFailed (log : List Event) : Prop := ∀ call, .coded call ∈ log → call.ret = .ok ∨ call.ret = .streamEnd

/-- Where the stream below can be read, `php_xz_decompress` fails with the coder. -/
theorem decompress_failed (hio : ∀ st, (io.read st XZ_BUFFER_SIZE).1 ≠ none) (h : Emptied ctx mid)
    (hend : ¬ NoInput io mid) (hfalse : phpXzDecompress c io mid = .ok (false, ctx')) :
    ¬ NoneFailed ctx'.log := by
  intro hnone
  rcases refill_cases io h hend with ⟨st, -, -, hread, -⟩ | ⟨e, hrefilled, hrefill⟩
  · exact hio mid.stream (congrArg Prod.fst hread)
  · obtain ⟨res, hres⟩ : ∃ res, c.code e.strm.internal .run e.inPending e.strm.availOut = res := ⟨_, rfl⟩
    obtain ⟨last, hcode, hcoded⟩ := code_eq_ok hrefilled.bounded hres
    rw [phpXzDecompress, hrefill] at hfalse
    simp only [if_true, hcode, ok_bind, pure_eq_ok] at hfalse
    obtain ⟨hbad, rfl⟩ := Prod.mk.inj (Except.ok.inj hfalse)
    have hmem : .coded (e.callOf .run res) ∈ last.log := by
      rw [hcoded.log]
      exact List.mem_append_right _ List.mem_cons_self
    exact of_decide_eq_false hbad (hnone _ hmem)

/-- After a pass that goes round again the stream is one that can be read. -/
theorem windowed_of_again {r r' : Reading σ ι} (hw : r.self.Windowed)
    (hturn : readTurn c io r = .ok (.again r')) : r'.self.Windowed := by
  obtain ⟨t, ht, hstep⟩ := readTurn_step c io hw
  obtain rfl : t = .again r' := Except.ok.inj (ht.symm.trans hturn)
  exact (hstep.windowed hw).1

/-- **A read without a failure** gives what it returns, -/
theorem gives_of_loop (hio : ∀ st, (io.read st XZ_BUFFER_SIZE).1 ≠ none) {r : Reading σ ι}
    {res : Option (List UInt8)} (hw : r.self.Windowed)
    (hloop : loop (readTurn c io) fuel r = .ok (res, ctx')) (hnone : NoneFailed ctx'.log) :
    ∃ bytes, res = some (r.buf ++ bytes) ∧ Gives c io r.self r.toRead bytes ctx' := by
  induction fuel generalizing r with
  | zero => cases hloop
  | succ fuel ih =>
    obtain ⟨self, buf, toRead⟩ := r
    rw [loop] at hloop
    by_cases hmore : toRead = 0
    · rw [readTurn_eq c io hw, if_pos hmore] at hloop
      obtain ⟨rfl, rfl⟩ := Prod.mk.inj (Except.ok.inj hloop)
      subst hmore
      exact ⟨[], by rw [List.append_nil], .nothing⟩
    have hpos : 0 < toRead := Nat.pos_of_ne_zero hmore
    by_cases hshort : toRead < self.waiting.length
    · rw [readTurn_eq c io hw, if_neg hmore, if_pos hshort] at hloop
      obtain ⟨rfl, rfl⟩ := Prod.mk.inj (Except.ok.inj hloop)
      exact ⟨_, rfl, .fromWindow hpos hshort⟩
    have hemptied := hw.emptied
    have hturn := readTurn_eq c io hw
    rw [if_neg hmore, if_neg hshort, readMore_eq c io hemptied] at hturn
    by_cases hend : NoInput io self.drained
    · rw [hturn, if_pos hend] at hloop
      obtain ⟨rfl, rfl⟩ := Prod.mk.inj (Except.ok.inj hloop)
      exact ⟨_, rfl, .atEnd hpos (Nat.not_lt.mp hshort) hend⟩
    · rw [if_neg hend] at hturn
      cases hdecompress : phpXzDecompress c io self.drained with
      | error e =>
        rw [hturn, hdecompress] at hloop
        cases hloop
      | ok p =>
        obtain ⟨_ | _, next⟩ := p
        · rw [hturn, hdecompress] at hloop
          obtain ⟨-, rfl⟩ := Prod.mk.inj (Except.ok.inj hloop)
          exact absurd hnone (decompress_failed hio hemptied hend hdecompress)
        · rw [hdecompress] at hturn
          rw [hturn] at hloop
          obtain ⟨rest, rfl, hgives⟩ := ih (windowed_of_again hw hturn) hloop
          refine ⟨self.waiting ++ rest, by rw [List.append_assoc], ?_⟩
          exact .decoded hpos (Nat.not_lt.mp hshort) hend hdecompress hgives

/-- and what a stream gives, a read returns. -/
theorem Gives.loop (h : Gives c io ctx n bytes ctx') (hw : ctx.Windowed) (buf : List UInt8) :
    ∃ N, ∀ fuel, N < fuel → FuelLoop.loop (readTurn c io) fuel ⟨ctx, buf, n⟩ = .ok (some (buf ++ bytes), ctx') := by
  induction h generalizing buf with
  | nothing =>
    refine ⟨0, fun fuel hfuel => ?_⟩
    obtain ⟨fuel, rfl⟩ : ∃ f, fuel = f + 1 := ⟨fuel - 1, by omega⟩
    rw [FuelLoop.loop, readTurn_eq c io hw, if_pos rfl, List.append_nil]
  | fromWindow more short =>
    refine ⟨0, fun fuel hfuel => ?_⟩
    obtain ⟨fuel, rfl⟩ : ∃ f, fuel = f + 1 := ⟨fuel - 1, by omega⟩
    rw [FuelLoop.loop, readTurn_eq c io hw, if_neg (Nat.ne_of_gt more), if_pos short]
  | atEnd more all ended =>
    refine ⟨0, fun fuel hfuel => ?_⟩
    obtain ⟨fuel, rfl⟩ : ∃ f, fuel = f + 1 := ⟨fuel - 1, by omega⟩
    rw [FuelLoop.loop, readTurn_eq c io hw, if_neg (Nat.ne_of_gt more), if_neg (Nat.not_lt.mpr all),
      readMore_eq c io hw.emptied, if_pos ended]
  | @decoded ctx mid _ n rest more all unended decompressed gives ih =>
    have hturn : readTurn c io ⟨ctx, buf, n⟩ =
        .ok (.again ⟨mid, buf ++ ctx.waiting, n - ctx.waiting.length⟩) := by
      rw [readTurn_eq c io hw, if_neg (Nat.ne_of_gt more), if_neg (Nat.not_lt.mpr all),
        readMore_eq c io hw.emptied, if_neg unended, decompressed]
      rfl
    obtain ⟨N, hN⟩ := ih (windowed_of_again hw hturn) (buf ++ ctx.waiting)
    refine ⟨N + 1, fun fuel hfuel => ?_⟩
    obtain ⟨fuel, rfl⟩ : ∃ f, fuel = f + 1 := ⟨fuel - 1, by omega⟩
    rw [FuelLoop.loop, hturn]
    show FuelLoop.loop (readTurn c io) fuel _ = _
    rw [hN fuel (by omega), List.append_assoc]

/-! ## Runs of reads -/

/-- A read adds to the log. -/
theorem phpXziopRead_log (c : Coder σ) (io : Inner ι) (fuel : Nat) (hw : ctx.Windowed) (count : Nat) :
    Sat (phpXziopRead c io fuel ctx count) (fun p => p.2.Windowed ∧ ctx.log <+: p.2.log) fun _ => False := by
  refine loop_sat (fun r : Reading σ ι => r.self.Windowed ∧ ctx.log <+: r.self.log) ?_ fuel ⟨ctx, [], count⟩
    ⟨hw, List.prefix_rfl⟩
  rintro r ⟨hwindow, hlog⟩
  obtain ⟨t, hturn, hstep⟩ := readTurn_step c io hwindow
  have hnext := hstep.windowed hwindow
  rw [hturn]
  cases hstep with
  | full => exact ⟨hnext.1, hlog⟩
  | fromWindow => exact ⟨hnext.1, hlog⟩
  | atEnd _ _ emptied =>
    refine ⟨hnext.1, ?_⟩
    show ctx.log <+: (_ : XzStreamCtx σ ι).log
    rw [emptied.log]
    exact hlog
  | readFailed _ _ emptied =>
    refine ⟨hnext.1, ?_⟩
    show ctx.log <+: (_ : XzStreamCtx σ ι).log
    rw [emptied.log]
    exact hlog
  | decoded _ _ emptied refilled _ coded =>
    refine ⟨hnext.1, hlog.trans ?_⟩
    rw [coded.log, refilled.log, emptied.log]
    exact List.prefix_append _ _
  | decodeFailed _ _ emptied refilled _ coded =>
    refine ⟨hnext.1, hlog.trans ?_⟩
    rw [coded.log, refilled.log, emptied.log]
    exact List.prefix_append _ _

variable {counts counts' : List Nat} {rs : List XziopResult}

theorem NoneFailed.of_prefix {log log' : List Event} (h : NoneFailed log') (hpre : log <+: log') :
    NoneFailed log := fun call hmem => h call (hpre.subset hmem)

/-- Reads one after the other are one read, as long as none fails. -/
theorem gives_of_perform (hio : ∀ st, (io.read st XZ_BUFFER_SIZE).1 ≠ none) (hw : ctx.Windowed)
    (hrun : perform (xziop c io fuel) ctx (counts.map .read) = .ok (rs, ctx')) (hnone : NoneFailed ctx'.log) :
    ctx.log <+: ctx'.log ∧ Gives c io ctx counts.sum (rs.flatMap (·.bytes)) ctx' := by
  induction counts generalizing ctx rs with
  | nil =>
    cases hrun
    exact ⟨List.prefix_rfl, .nothing⟩
  | cons count counts ih =>
    obtain ⟨r, next, rest, hop, hops, rfl⟩ := perform_cons_eq_ok.mp hrun
    obtain ⟨⟨res, next⟩, hread, hpure⟩ := bind_eq_ok.mp hop
    obtain ⟨rfl, rfl⟩ := Prod.mk.inj (Except.ok.inj hpure)
    obtain ⟨hnext, hlog⟩ := (phpXziopRead_log c io fuel hw count).of_ok hread
    obtain ⟨hlog', hrest⟩ := ih hnext hops
    obtain ⟨bytes, rfl, hfirst⟩ := gives_of_loop hio hw hread (hnone.of_prefix hlog')
    exact ⟨hlog.trans hlog', gives_add_iff.mpr ⟨_, _, _, hfirst, hrest, rfl⟩⟩

/-- One read is reads one after the other. -/
theorem Gives.perform (h : Gives c io ctx counts.sum bytes ctx') (hw : ctx.Windowed) :
    Returns (fun fuel => Runs.perform (xziop c io fuel) ctx (counts.map .read))
      fun p => p.1.flatMap (·.bytes) = bytes ∧ p.2 = ctx' := by
  induction counts generalizing ctx bytes with
  | nil =>
    obtain ⟨rfl, rfl⟩ : bytes = [] ∧ ctx' = ctx := by
      generalize hzero : ([] : List Nat).sum = n at h
      rw [List.sum_nil] at hzero
      cases h with
      | nothing => exact ⟨rfl, rfl⟩
      | fromWindow more => omega
      | atEnd more => omega
      | decoded more => omega
    exact .ok ⟨rfl, rfl⟩
  | cons count counts ih =>
    rw [List.sum_cons] at h
    obtain ⟨bytes₁, mid, bytes₂, hfirst, hrest, rfl⟩ := gives_add_iff.mp h
    obtain ⟨N, hN⟩ := hfirst.loop hw []
    obtain ⟨hmid, -⟩ := (phpXziopRead_log c io (N + 1) hw count).of_ok (hN (N + 1) (by omega))
    refine Returns.bind (Q := (· = (XziopResult.read (some bytes₁), mid))) ⟨N, _, fun fuel hfuel => ?_, rfl⟩ ?_
    · exact bind_eq_ok.mpr ⟨_, hN fuel hfuel, rfl⟩
    rintro _ rfl
    apply (ih hrest hmid).bind
    rintro ⟨rs, last⟩ ⟨rfl, rfl⟩
    exact .ok ⟨rfl, rfl⟩

/-- **The pieces are invisible.** Two runs of reads on a stream that ask for the same number of bytes in all,
for any coder and any stream below that can be read: if no call of `lzma_code` fails in the one, then the
other returns the same bytes one after the other and leaves the same context, with the same calls made of
the coder, the same bytes waiting in both buffers and the same position in the stream below. -/
theorem asked_in_pieces {L : Liblzma σ} {memoryLimit : UInt64} {stream : ι} {opened : XzStreamCtx σ ι}
    (hopen : phpXzInitDecoder L memoryLimit stream = some opened)
    (hio : ∀ st, (io.read st XZ_BUFFER_SIZE).1 ≠ none) (hsum : counts.sum = counts'.sum) (fuel : Nat)
    (hrun : perform (xziop L.coder io fuel) opened (counts.map .read) = .ok (rs, ctx'))
    (hnone : NoneFailed ctx'.log) :
    Returns (fun fuel => perform (xziop L.coder io fuel) opened (counts'.map .read))
      fun p => p.1.flatMap (·.bytes) = rs.flatMap (·.bytes) ∧ p.2 = ctx' := by
  obtain ⟨hw, -⟩ := phpXzInitDecoder_windowed hopen
  obtain ⟨-, hgives⟩ := gives_of_perform hio hw hrun hnone
  rw [hsum] at hgives
  exact hgives.perform hw

/-- Three bytes, asked for as seven, and as two, one and four. -/
theorem asked_in_pieces_copy :
    ∃ rs ctx', perform (xziop copyLiblzma.coder pipe 8) (copyReader [1, 2, 3]) ([7].map .read) = .ok (rs, ctx') ∧
      Returns (fun fuel => perform (xziop copyLiblzma.coder pipe fuel) (copyReader [1, 2, 3]) ([2, 1, 4].map .read))
        fun p => p.1.flatMap (·.bytes) = rs.flatMap (·.bytes) ∧ p.2 = ctx' := by
  have hlog : (perform (xziop copyLiblzma.coder pipe 8) (copyReader [1, 2, 3]) ([7].map .read)).toOption.map
      (·.2.log) = some [.coded ⟨0, .run, [1, 2, 3], 4096, .ok, 3, [1, 2, 3]⟩] := by
    decide +kernel
  cases hrun : perform (xziop copyLiblzma.coder pipe 8) (copyReader [1, 2, 3]) ([7].map .read) with
  | error e =>
    rw [hrun] at hlog
    cases hlog
  | ok p =>
    obtain ⟨rs, ctx'⟩ := p
    rw [hrun] at hlog
    have hsum : [7].sum = [2, 1, 4].sum := rfl
    have hread : ∀ st, (pipe.read st XZ_BUFFER_SIZE).1 ≠ none := fun st => Option.some_ne_none _
    refine ⟨rs, ctx', rfl, asked_in_pieces (copyReader_opened [1, 2, 3]) hread hsum 8 hrun ?_⟩
    intro call hmem
    rw [show ctx'.log = _ from Option.some.inj hlog, List.mem_singleton] at hmem
    obtain rfl := Event.coded.inj hmem
    exact Or.inl rfl

end PhpExtXz
