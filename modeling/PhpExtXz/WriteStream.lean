/-
# PhpExtXz.WriteStream — what the operations of a write stream do, for any coder and any stream below.

Nothing is assumed here of `lzma_code` beyond what a `Coder` is, and nothing of the stream below. The
operations are described by the events they add to the log:

* `Moved` — a stretch of the loop of `php_xz_compress`: where the bytes of `in_buf` and `out_buf`
  went;
* `Segment` — an operation, or a part of one that begins and ends with `next_in` at `in_buf`.

`phpXzCompress` rewinds `next_in` on every exit, also on a break in the middle of `in_buf`; so what a
`Segment` says about the bytes themselves is said under the condition that breaks were clean.
-/
import PhpExtXz.Lib.Delivery
import PhpExtXz.XzFopenWrapper

namespace PhpExtXz

open FuelLoop Delivery

variable {σ ι : Type}

/-! ## Reading the log -/

/-- An event as a transfer to the stream below. -/
def Event.transfer : Event → Transfer UInt8
  | .coded call => .produce call.emitted
  | .wrote bytes acc => .offer bytes (acc.getD 0)

/-- The bytes the coder consumed. -/
def consumed (ev : List Event) : List UInt8 :=
  ev.flatMap fun
    | .coded call => call.consumed
    | .wrote _ _ => []

@[simp]
theorem consumed_nil : consumed [] = [] := rfl

@[simp]
theorem consumed_append (ev ev' : List Event) : consumed (ev ++ ev') = consumed ev ++ consumed ev' :=
  List.flatMap_append

@[simp]
theorem consumed_cons_coded (call : LzmaCall) (ev : List Event) :
    consumed (.coded call :: ev) = call.consumed ++ consumed ev := rfl

/-- The coder failed, or the stream below did not accept all it was offered. -/
def Event.Failed : Event → Prop
  | .coded call =>
    match call.action with
    | .run => call.ret ≠ .ok
    | .finish => call.ret ≠ .ok ∧ call.ret ≠ .streamEnd
  | .wrote bytes acc => acc ≠ some bytes.length

/-- The call took all of its input, or it left `next_in` where `in_buf` begins. -/
def LzmaCall.Whole (call : LzmaCall) : Prop :=
  call.taken = call.input.length ∨ call.nextIn + call.taken = 0

/-- Where `php_xz_compress` broke off, the coder had taken all or none of `in_buf`, and a write of the
stream below that was not accepted in full was not accepted at all. -/
structure CleanBreaks (ev : List Event) : Prop where
  coder : ∀ call, .coded call ∈ ev → call.ret ≠ .ok → call.Whole
  below : ∀ pre call bytes acc post, ev = pre ++ .coded call :: .wrote bytes acc :: post →
    acc ≠ some bytes.length → call.Whole ∧ acc.getD 0 = 0

theorem CleanBreaks.nil : CleanBreaks [] where
  coder _ hmem := by cases hmem
  below pre call bytes acc post heq := by simp at heq

theorem CleanBreaks.left {ev ev' : List Event} (h : CleanBreaks (ev ++ ev')) : CleanBreaks ev where
  coder call hmem := h.coder call (List.mem_append_left _ hmem)
  below pre call bytes acc post heq := h.below pre call bytes acc (post ++ ev') (by simp [heq])

theorem CleanBreaks.right {ev ev' : List Event} (h : CleanBreaks (ev ++ ev')) : CleanBreaks ev' where
  coder call hmem := h.coder call (List.mem_append_right _ hmem)
  below pre call bytes acc post heq := h.below (ev ++ pre) call bytes acc post (by simp [heq])

/-! ## One call of the coder -/

namespace XzStreamCtx

/-- The bytes in `in_buf` that the coder has not taken. -/
def inPending (self : XzStreamCtx σ ι) : List UInt8 :=
  self.inBuf.window self.strm.nextIn self.strm.availIn

/-- The bytes in `out_buf` up to `next_out`. -/
def outPending (self : XzStreamCtx σ ι) : List UInt8 := self.outBuf.written self.strm.nextOut

/-- The input window lies inside `in_buf`, and the room ends where `out_buf` ends. -/
structure Bounded (ctx : XzStreamCtx σ ι) : Prop where
  inside : ctx.strm.nextIn + ctx.strm.availIn ≤ XZ_BUFFER_SIZE
  room : ctx.strm.nextOut + ctx.strm.availOut = XZ_BUFFER_SIZE

/-- The record of a call. -/
def callOf (self : XzStreamCtx σ ι) (action : LzmaAction) (r : CodeResult σ) : LzmaCall :=
  ⟨self.strm.nextIn, action, self.inPending, self.strm.availOut, r.ret, r.taken, r.emitted⟩

/-- What a call of the coder leaves. -/
structure CodedTo (c : Coder σ) (action : LzmaAction) (ctx : XzStreamCtx σ ι) (r : CodeResult σ)
    (ctx' : XzStreamCtx σ ι) : Prop where
  taken_le : r.taken ≤ ctx.strm.availIn
  emitted_le : r.emitted.length ≤ ctx.strm.availOut
  strm : ctx'.strm = ctx.strm.advance r
  inBuf : ctx'.inBuf = ctx.inBuf
  outPending : ctx'.outPending = ctx.outPending ++ r.emitted
  outBufIdx : ctx'.outBufIdx = ctx.outBufIdx
  stream : ctx'.stream = ctx.stream
  isWrite : ctx'.isWrite = ctx.isWrite
  eof : ctx'.eof = ctx.eof
  log : ctx'.log = ctx.log ++ [.coded (ctx.callOf action r)]

variable {c : Coder σ} {io : Inner ι} {self self' : XzStreamCtx σ ι} {action : LzmaAction}
  {r : CodeResult σ}

theorem Bounded.length_inPending (h : self.Bounded) : self.inPending.length = self.strm.availIn :=
  self.inBuf.length_window h.inside

theorem Bounded.length_outPending (h : self.Bounded) :
    self.outPending.length = self.strm.nextOut :=
  self.outBuf.length_written (by have := h.room; omega)

/-- **One call.** Inside its bounds it does not fault, and it does what the coder does. -/
theorem code_eq_ok (h : self.Bounded)
    (hr : c.code self.strm.internal action self.inPending self.strm.availOut = r) :
    ∃ self', self.code c action = .ok (r.ret, self') ∧ CodedTo c action self r self' := by
  have hlen : self.inBuf.cells.length = XZ_BUFFER_SIZE := self.inBuf.size_eq
  have hroom := h.room
  have hnext : self.strm.next c action self.inBuf.cells = r := hr
  obtain ⟨dst, hcode, hdst⟩ := lzmaCode_eq_ok self.outBuf hnext (by rw [hlen]; exact h.inside)
    (by omega)
  have htaken : r.taken ≤ self.strm.availIn := by
    rw [← h.length_inPending, ← hr]
    exact c.taken_le _ _ _ _
  refine ⟨{ self with
    strm := self.strm.advance r, outBuf := dst,
    log := self.log ++ [.coded (self.callOf action r)] }, ?_, htaken, ?_, rfl, rfl, hdst, rfl, rfl,
    rfl, rfl, rfl⟩
  · simp only [code, hcode, ok_bind, pure_eq_ok]
    rfl
  · rw [← hr]
    exact c.emitted_le _ _ _ _

theorem CodedTo.bounded (h : CodedTo c action self r self') (hb : self.Bounded) :
    self'.Bounded := by
  have hin := hb.inside
  have hroom := hb.room
  have htaken := h.taken_le
  have hemitted := h.emitted_le
  constructor
  · rw [h.strm, LzmaStream.advance_nextIn, LzmaStream.advance_availIn]
    omega
  · rw [h.strm, LzmaStream.advance_nextOut, LzmaStream.advance_availOut]
    omega

/-- The input after a call is what the call left of it. -/
theorem CodedTo.inPending (h : CodedTo c action self r self') :
    self'.inPending = self.inPending.drop r.taken := by
  rw [XzStreamCtx.inPending, XzStreamCtx.inPending, h.inBuf, h.strm, Buffer.drop_window]
  rfl

/-! ## Where bytes go -/

/-- A stretch of the loop of `php_xz_compress`, which added `ev` to the log. The bytes of `in_buf` were
consumed in order; the bytes waiting in `out_buf` and those produced were offered in order, and all
were accepted but the ones past the first `k` of those waiting at the end. -/
structure Moved (ctx ctx' : XzStreamCtx σ ι) (ev : List Event) (k : Nat) : Prop where
  log : ctx'.log = ctx.log ++ ev
  inBuf : ctx'.inBuf = ctx.inBuf
  isWrite : ctx'.isWrite = ctx.isWrite
  bounded : ctx'.Bounded
  window : ctx'.strm.nextIn + ctx'.strm.availIn = ctx.strm.nextIn + ctx.strm.availIn
  consumed : consumed ev ++ ctx'.inPending = ctx.inPending
  accepted : accepted (ev.map Event.transfer) ++ ctx'.outPending.drop k =
    ctx.outPending ++ produced (ev.map Event.transfer)
  inOrder : InOrder ctx.outPending (ev.map Event.transfer)

variable {ctx ctx' ctx'' : XzStreamCtx σ ι} {ev ev' : List Event} {k : Nat}

theorem Moved.refl (hb : ctx.Bounded) : Moved ctx ctx [] 0 where
  log := (List.append_nil _).symm
  inBuf := rfl
  isWrite := rfl
  bounded := hb
  window := rfl
  consumed := rfl
  accepted := by simp
  inOrder := .nil

theorem Moved.trans (h : Moved ctx ctx' ev 0) (h' : Moved ctx' ctx'' ev' k) :
    Moved ctx ctx'' (ev ++ ev') k := by
  have haccepted : Delivery.accepted (ev.map Event.transfer) ++ ctx'.outPending =
      ctx.outPending ++ produced (ev.map Event.transfer) := by
    simpa using h.accepted
  refine ⟨?_, h'.inBuf.trans h.inBuf, h'.isWrite.trans h.isWrite, h'.bounded,
    h'.window.trans h.window, ?_, ?_, ?_⟩
  · rw [h'.log, h.log, List.append_assoc]
  · rw [consumed_append, List.append_assoc, h'.consumed, h.consumed]
  · rw [List.map_append, accepted_append, produced_append, List.append_assoc, h'.accepted,
      ← List.append_assoc, haccepted, List.append_assoc]
  · rw [List.map_append]
    exact h.inOrder.append haccepted h'.inOrder

/-- A call of the coder consumes and produces. -/
theorem CodedTo.moved (h : CodedTo c action ctx r ctx') (hb : ctx.Bounded) :
    Moved ctx ctx' [.coded (ctx.callOf action r)] 0 := by
  have htaken := h.taken_le
  refine ⟨h.log, h.inBuf, h.isWrite, h.bounded hb, ?_, ?_, ?_, .produce _⟩
  · rw [h.strm, LzmaStream.advance_nextIn, LzmaStream.advance_availIn]
    omega
  · rw [consumed_cons_coded, h.inPending]
    simp [LzmaCall.consumed, callOf]
  · simp [Event.transfer, callOf, h.outPending]

/-- A write of all that waits in `out_buf` offers it, and leaves the buffers as they were. -/
theorem write_moved {acc : Option Nat} (hb : ctx.Bounded)
    (hwrite : ctx.write io ctx.strm.nextOut = (acc, ctx')) :
    Moved ctx ctx' [.wrote ctx.outPending acc] (acc.getD 0) ∧ ctx'.strm = ctx.strm ∧
      ctx'.outPending = ctx.outPending := by
  have hwindow : ctx.outBuf.window 0 ctx.strm.nextOut = ctx.outPending := Buffer.window_zero _ _
  rw [write, hwindow, Prod.mk.injEq] at hwrite
  obtain ⟨rfl, rfl⟩ := hwrite
  refine ⟨⟨rfl, rfl, rfl, ⟨hb.inside, hb.room⟩, rfl, rfl, ?_, .offer List.prefix_rfl _⟩, rfl, rfl⟩
  simp only [List.map_cons, List.map_nil, Event.transfer, accepted_cons_offer, accepted_nil,
    List.append_nil, produced_cons_offer, produced_nil]
  exact List.take_append_drop _ _

/-- Once all that waited was accepted, `out_buf` is empty again. -/
theorem Moved.resetOut (h : Moved ctx ctx' ev k) (hall : ctx'.outPending.drop k = []) :
    Moved ctx ctx'.resetOut ev 0 where
  log := h.log
  inBuf := h.inBuf
  isWrite := h.isWrite
  bounded := ⟨h.bounded.inside, Nat.zero_add _⟩
  window := h.window
  consumed := h.consumed
  accepted := by
    have haccepted := h.accepted
    rw [hall] at haccepted
    rw [← haccepted, List.drop_zero]
    rfl
  inOrder := h.inOrder

/-! ## The loop of `php_xz_compress` -/

/-- What one pass can do. -/
inductive CompressStep (ctx : XzStreamCtx σ ι) :
    Turn (XzStreamCtx σ ι) (Bool × XzStreamCtx σ ι) → Prop
  | again {ctx' : XzStreamCtx σ ι} {ev : List Event} (moved : Moved ctx ctx' ev 0)
      (fine : ∀ e ∈ ev, ¬ e.Failed) : CompressStep ctx (.again ctx')
  | done (empty : ctx.strm.availIn = 0) : CompressStep ctx (.leave (true, ctx))
  | broke {ctx' : XzStreamCtx σ ι} {ev : List Event} {k : Nat} (moved : Moved ctx ctx' ev k)
      (failed : ∃ e ∈ ev, e.Failed)
      (clean : CleanBreaks ev → ctx'.outPending.drop k = ctx'.outPending ∧
        (ctx'.strm.availIn = 0 ∨ ctx'.strm.nextIn = 0)) :
      CompressStep ctx (.leave (false, ctx'))

/-- Where a call that was `Whole` leaves `next_in` and `avail_in`. -/
theorem CodedTo.whole (h : CodedTo c action ctx r ctx') (hb : ctx.Bounded)
    (hwhole : (ctx.callOf action r).Whole) : ctx'.strm.availIn = 0 ∨ ctx'.strm.nextIn = 0 := by
  have hlen : (ctx.callOf action r).input.length = ctx.strm.availIn := hb.length_inPending
  rw [LzmaCall.Whole, hlen] at hwhole
  rw [h.strm, LzmaStream.advance_availIn, LzmaStream.advance_nextIn]
  rcases hwhole with hall | hnone
  · left
    change r.taken = _ at hall
    omega
  · exact Or.inr hnone

theorem compressTurn_step (c : Coder σ) (io : Inner ι) (hb : ctx.Bounded) :
    ∃ t, compressTurn c io ctx = .ok t ∧ CompressStep ctx t := by
  by_cases hin : 0 < ctx.strm.availIn
  · obtain ⟨r, hr⟩ : ∃ r, c.code ctx.strm.internal .run ctx.inPending ctx.strm.availOut = r :=
      ⟨_, rfl⟩
    obtain ⟨mid, hcode, hcoded⟩ := code_eq_ok hb hr
    have hmoved := hcoded.moved hb
    have hbmid := hcoded.bounded hb
    have hlen : sizeSub XZ_BUFFER_SIZE mid.strm.availOut = mid.strm.nextOut := by
      have := hbmid.room
      rw [sizeSub_eq (by omega) (by decide)]
      omega
    simp only [compressTurn, if_pos hin, hcode, ok_bind, hlen]
    by_cases hret : r.ret = .ok
    · simp only [hret, ne_eq, not_true_eq_false, if_false]
      have hfine : ∀ e ∈ [Event.coded (ctx.callOf .run r)], ¬ e.Failed := by
        simp [Event.Failed, callOf, hret]
      by_cases hnone : mid.strm.nextOut = 0
      · -- nothing came out: no write, and `out_buf` is reset
        refine ⟨_, by rw [if_pos hnone]; rfl, .again (hmoved.resetOut ?_) hfine⟩
        rw [outPending, hnone, Buffer.written_zero, List.drop_nil]
      · rw [if_neg hnone]
        obtain ⟨⟨acc, ctx'⟩, hwrite⟩ : ∃ p, mid.write io mid.strm.nextOut = p := ⟨_, rfl⟩
        obtain ⟨hwrote, hstrm, hsame⟩ := write_moved hbmid hwrite
        have hlen' := hbmid.length_outPending
        simp only [hwrite]
        by_cases hacc : acc = some mid.strm.nextOut
        · -- the stream below accepted all of it
          refine ⟨_, by rw [if_neg (by simp [hacc])]; rfl,
            .again ((hmoved.trans hwrote).resetOut ?_) ?_⟩
          · rw [hsame, hacc, List.drop_of_length_le (by rw [hlen']; rfl)]
          · intro e he
            rcases List.mem_append.mp he with he | he
            · exact hfine e he
            · obtain rfl := List.mem_singleton.mp he
              simp [Event.Failed, hacc, hlen']
        · -- a short write breaks the loop, with all of it still in `out_buf`
          refine ⟨_, by rw [if_pos hacc]; rfl, .broke (hmoved.trans hwrote)
            ⟨.wrote mid.outPending acc, by simp, by simpa [Event.Failed, hlen'] using hacc⟩ ?_⟩
          intro hclean
          obtain ⟨hwhole, h0⟩ := hclean.below [] (ctx.callOf .run r) mid.outPending acc [] rfl
            (by simpa [hlen'] using hacc)
          refine ⟨by rw [h0, List.drop_zero], ?_⟩
          rw [hstrm]
          exact hcoded.whole hb hwhole
    · -- the coder failed: the loop breaks before any write
      simp only [hret, ne_eq, not_false_eq_true, if_true]
      refine ⟨_, rfl, .broke hmoved ⟨_, List.mem_cons_self, ?_⟩ fun hclean => ?_⟩
      · simpa [Event.Failed, callOf] using hret
      · refine ⟨List.drop_zero, ?_⟩
        exact hcoded.whole hb (hclean.coder _ List.mem_cons_self hret)
  · exact ⟨_, by rw [compressTurn, if_neg hin]; rfl, .done (by omega)⟩

/-- What the loop leaves: it moved bytes until `in_buf` was empty, or it broke off. -/
inductive CompressLoop (ctx : XzStreamCtx σ ι) : Bool × XzStreamCtx σ ι → Prop
  | done {ctx' : XzStreamCtx σ ι} {ev : List Event} (moved : Moved ctx ctx' ev 0)
      (fine : ∀ e ∈ ev, ¬ e.Failed) (empty : ctx'.strm.availIn = 0) : CompressLoop ctx (true, ctx')
  | broke {ctx' : XzStreamCtx σ ι} {ev : List Event} {k : Nat} (moved : Moved ctx ctx' ev k)
      (failed : ∃ e ∈ ev, e.Failed)
      (clean : CleanBreaks ev → ctx'.outPending.drop k = ctx'.outPending ∧
        (ctx'.strm.availIn = 0 ∨ ctx'.strm.nextIn = 0)) :
      CompressLoop ctx (false, ctx')

theorem compressLoop_sat (c : Coder σ) (io : Inner ι) (fuel : Nat) (hb : ctx.Bounded) :
    Sat (loop (compressTurn c io) fuel ctx) (CompressLoop ctx) (fun _ => False) := by
  refine loop_sat (fun ctx' => ∃ ev, Moved ctx ctx' ev 0 ∧ ∀ e ∈ ev, ¬ e.Failed) ?_ fuel ctx
    ⟨[], .refl hb, by simp⟩
  rintro mid ⟨ev, hmoved, hfine⟩
  obtain ⟨t, hturn, hstep⟩ := compressTurn_step c io hmoved.bounded
  rw [hturn]
  cases hstep with
  | again hmoved' hfine' =>
    refine ⟨_, hmoved.trans hmoved', fun e he => ?_⟩
    rcases List.mem_append.mp he with he | he
    · exact hfine e he
    · exact hfine' e he
  | done hempty => exact .done hmoved hfine hempty
  | broke hmoved' hfailed hclean =>
    obtain ⟨e, he, hfailed⟩ := hfailed
    exact .broke (hmoved.trans hmoved') ⟨e, List.mem_append_right _ he, hfailed⟩
      fun h => hclean h.right

/-! ## Segments -/

/-- A stretch between two states with `next_in` at `in_buf`, which added `ev` to the log and copied
`fed` into `in_buf`. If breaks were clean, the bytes consumed and those still in `in_buf` are the ones
that were there and the ones copied in; and what is said of `out_buf` in `Moved` holds. -/
structure Segment (ctx ctx' : XzStreamCtx σ ι) (ev : List Event) (fed : List UInt8) : Prop where
  log : ctx'.log = ctx.log ++ ev
  isWrite : ctx'.isWrite = ctx.isWrite
  rewound : ctx'.strm.nextIn = 0
  bounded : ctx'.Bounded
  count : (consumed ev).length + ctx'.strm.availIn = ctx.strm.availIn + fed.length
  consumed : CleanBreaks ev → consumed ev ++ ctx'.inPending = ctx.inPending ++ fed
  accepted : CleanBreaks ev → accepted (ev.map Event.transfer) ++ ctx'.outPending =
    ctx.outPending ++ produced (ev.map Event.transfer)
  inOrder : CleanBreaks ev → InOrder ctx.outPending (ev.map Event.transfer)

variable {fed fed' : List UInt8}

theorem Segment.refl (h0 : ctx.strm.nextIn = 0) (hb : ctx.Bounded) : Segment ctx ctx [] [] where
  log := (List.append_nil _).symm
  isWrite := rfl
  rewound := h0
  bounded := hb
  count := by simp
  consumed _ := by simp
  accepted _ := by simp
  inOrder _ := .nil

theorem Segment.trans (h : Segment ctx ctx' ev fed) (h' : Segment ctx' ctx'' ev' fed') :
    Segment ctx ctx'' (ev ++ ev') (fed ++ fed') where
  log := by rw [h'.log, h.log, List.append_assoc]
  isWrite := h'.isWrite.trans h.isWrite
  rewound := h'.rewound
  bounded := h'.bounded
  count := by
    have := h.count
    have := h'.count
    rw [consumed_append, List.length_append, List.length_append]
    omega
  consumed hclean := by
    rw [consumed_append, List.append_assoc, h'.consumed hclean.right, ← List.append_assoc,
      h.consumed hclean.left, List.append_assoc]
  accepted hclean := by
    rw [List.map_append, accepted_append, produced_append, List.append_assoc,
      h'.accepted hclean.right, ← List.append_assoc, h.accepted hclean.left, List.append_assoc]
  inOrder hclean := by
    rw [List.map_append]
    exact (h.inOrder hclean.left).append (h.accepted hclean.left) (h'.inOrder hclean.right)

/-- Copying into `in_buf` behind what is there. -/
theorem copyIn_segment (h0 : ctx.strm.nextIn = 0) (hb : ctx.Bounded) {bytes : List UInt8}
    (hfit : ctx.strm.availIn + bytes.length ≤ XZ_BUFFER_SIZE) :
    ∃ ctx', ctx.copyIn bytes = .ok ctx' ∧ ctx'.strm = ctx.strm ∧
      Segment ctx (ctx'.setAvailIn (ctx.strm.availIn + bytes.length)) [] bytes := by
  refine ⟨{ ctx with inBuf := ctx.inBuf.blit ctx.strm.availIn bytes hfit },
    by rw [copyIn, dif_pos hfit], rfl, (List.append_nil _).symm, rfl, h0, ⟨?_, hb.room⟩,
    ?_, ?_, fun _ => by simp [setAvailIn, outPending], fun _ => .nil⟩
  · simp only [setAvailIn, h0]
    omega
  · simp [setAvailIn]
  · intro _
    simp only [consumed_nil, List.nil_append, inPending, setAvailIn, h0, Buffer.window_zero]
    exact Buffer.written_blit

/-- **`php_xz_compress`.** It never faults; it returns a negative number exactly when the coder or the
stream below failed in it, and else it has emptied `in_buf`. -/
theorem phpXzCompress_sat (c : Coder σ) (io : Inner ι) (fuel : Nat) (h0 : ctx.strm.nextIn = 0)
    (hb : ctx.Bounded) :
    Sat (phpXzCompress c io fuel ctx)
      (fun p => ∃ ev, Segment ctx p.2 ev [] ∧ (p.1 < 0 ↔ ∃ e ∈ ev, e.Failed) ∧
        (0 ≤ p.1 → p.2.strm.availIn = 0))
      (fun _ => False) := by
  have hcast : 0 ≤ castInt ctx.strm.availIn := castInt_nonneg (by
    have := hb.inside
    simp only [XZ_BUFFER_SIZE] at this
    omega)
  apply (compressLoop_sat c io fuel hb).bind
  rintro ⟨fine, ctx'⟩ hloop
  -- rewinding `next_in` is harmless only where the coder took all of `in_buf` or none of it
  have hrewind : ∀ {ev : List Event} {k : Nat}, Moved ctx ctx' ev k →
      (CleanBreaks ev → ctx'.outPending.drop k = ctx'.outPending ∧
        (ctx'.strm.availIn = 0 ∨ ctx'.strm.nextIn = 0)) → Segment ctx ctx'.rewindIn ev [] := by
    intro ev k hmoved hclean
    have hin : CleanBreaks ev → ctx'.rewindIn.inPending = ctx'.inPending := by
      intro h
      rcases (hclean h).2 with hempty | hzero
      · simp [inPending, rewindIn, hempty]
      · simp [inPending, rewindIn, hzero]
    have hinside := hmoved.bounded.inside
    refine ⟨hmoved.log, hmoved.isWrite, rfl, ⟨?_, hmoved.bounded.room⟩, ?_, ?_, ?_,
      fun _ => hmoved.inOrder⟩
    · simp only [rewindIn]
      omega
    · have hlen := congrArg List.length hmoved.consumed
      rw [List.length_append, hmoved.bounded.length_inPending, hb.length_inPending] at hlen
      exact hlen
    · intro h
      rw [hin h, hmoved.consumed, List.append_nil]
    · intro h
      have haccepted := hmoved.accepted
      rw [(hclean h).1] at haccepted
      exact haccepted
  cases hloop with
  | done hmoved hfine hempty =>
    refine ⟨_, hrewind hmoved fun _ => ⟨List.drop_zero, Or.inl hempty⟩, ?_, fun _ => hempty⟩
    refine ⟨fun h => absurd h (Int.not_lt.mpr hcast), ?_⟩
    rintro ⟨e, he, hfailed⟩
    exact absurd hfailed (hfine e he)
  | broke hmoved hfailed hclean =>
    exact ⟨_, hrewind hmoved hclean, ⟨fun _ => hfailed, fun _ => by simp⟩, fun h => absurd h (by simp)⟩

/-! ## `php_xziop_write` and `php_xziop_flush` -/

/-- What the loop of `php_xziop_write` leaves: part of the buffer was copied in; the loop broke off
exactly when the coder or the stream below failed, and else the rest fits into `in_buf`. -/
structure WriteLoop (ctx : XzStreamCtx σ ι) (buf : List UInt8) (w : Writing σ ι) (ev : List Event)
    (fed : List UInt8) : Prop where
  split : buf = fed ++ w.rest
  segment : Segment ctx w.self ev fed
  failed : w.bytesConsumed < 0 ↔ ∃ e ∈ ev, e.Failed
  fits : 0 ≤ w.bytesConsumed → w.self.strm.availIn + w.rest.length ≤ XZ_BUFFER_SIZE

theorem Segment.availIn_le (h : Segment ctx ctx' ev fed) : ctx'.strm.availIn ≤ XZ_BUFFER_SIZE := by
  have := h.bounded.inside
  omega

theorem writeLoop_sat (c : Coder σ) (io : Inner ι) (fuel : Nat) (h0 : ctx.strm.nextIn = 0)
    (hb : ctx.Bounded) (buf : List UInt8) :
    Sat (writeLoop c io fuel ctx buf) (fun w => ∃ ev fed, WriteLoop ctx buf w ev fed)
      (fun _ => False) := by
  refine loop_sat (fun w : Writing σ ι => ∃ ev fed, buf = fed ++ w.rest ∧ Segment ctx w.self ev fed ∧
    (∀ e ∈ ev, ¬ e.Failed) ∧ 0 ≤ w.bytesConsumed) ?_ fuel ⟨ctx, buf, 0⟩
    ⟨[], [], rfl, .refl h0 hb, by simp, by simp⟩
  rintro w ⟨ev, fed, hsplit, hseg, hfine, hpos⟩
  have hle := hseg.availIn_le
  have hroom : sizeSub XZ_BUFFER_SIZE w.self.strm.availIn =
      XZ_BUFFER_SIZE - w.self.strm.availIn := sizeSub_eq hle (by decide)
  simp only [writeTurn, hroom]
  by_cases hmore : w.rest.length > XZ_BUFFER_SIZE - w.self.strm.availIn
  · -- fill `in_buf` up and compress
    have hlen : (w.rest.take (XZ_BUFFER_SIZE - w.self.strm.availIn)).length =
        XZ_BUFFER_SIZE - w.self.strm.availIn := List.length_take_of_le (by omega)
    obtain ⟨full, hcopy, hstrm, hcopied⟩ :=
      copyIn_segment hseg.rewound hseg.bounded (by rw [hlen]; omega)
    rw [hlen, Nat.add_sub_cancel' hle] at hcopied
    simp only [if_pos hmore, hcopy, ok_bind]
    apply (phpXzCompress_sat c io fuel hcopied.rewound hcopied.bounded).bind
    rintro ⟨n, ctx'⟩ ⟨ev', hcompress, hfailed, -⟩
    have hseg' := (hseg.trans hcopied).trans hcompress
    rw [List.append_nil, List.append_nil] at hseg'
    have hsplit' : buf = fed ++ w.rest.take (XZ_BUFFER_SIZE - w.self.strm.availIn) ++
        w.rest.drop (XZ_BUFFER_SIZE - w.self.strm.availIn) := by
      rw [List.append_assoc, List.take_append_drop, hsplit]
    -- the passes before this one did not fail, or the loop would have ended
    have hiff : n < 0 ↔ ∃ e ∈ ev ++ ev', e.Failed := by
      rw [hfailed]
      constructor
      · rintro ⟨e, he, h⟩
        exact ⟨e, List.mem_append_right _ he, h⟩
      · rintro ⟨e, he, h⟩
        rcases List.mem_append.mp he with he | he
        · exact absurd h (hfine e he)
        · exact ⟨e, he, h⟩
    by_cases hn : n < 0
    · simp only [if_pos hn]
      exact ⟨_, _, hsplit', hseg', hiff, fun h => absurd hn (Int.not_lt.mpr h)⟩
    · simp only [if_neg hn]
      refine ⟨_, _, hsplit', hseg', fun e he h => hn (hiff.mpr ⟨e, he, h⟩), Int.not_lt.mp hn⟩
  · simp only [if_neg hmore]
    refine ⟨ev, fed, hsplit, hseg, ⟨fun h => absurd h (Int.not_lt.mpr hpos), ?_⟩, fun _ => by omega⟩
    rintro ⟨e, he, h⟩
    exact absurd h (hfine e he)

/-- What the tail of `php_xziop_write` does: it copies the rest in, or that copy leaves `in_buf`. -/
theorem phpXziopWrite_of_loop {c : Coder σ} {io : Inner ι} {fuel : Nat} {buf : List UInt8}
    {w : Writing σ ι} (hw : writeLoop c io fuel ctx buf = .ok w) (h : WriteLoop ctx buf w ev fed) :
    (w.self.strm.availIn + w.rest.length ≤ XZ_BUFFER_SIZE →
      ∃ ctx', phpXziopWrite c io fuel ctx buf =
        .ok (if w.bytesConsumed < 0 then -1 else buf.length, ctx') ∧ Segment ctx ctx' ev buf) ∧
    (¬ w.self.strm.availIn + w.rest.length ≤ XZ_BUFFER_SIZE →
      phpXziopWrite c io fuel ctx buf = .error (.fault .copyPastInBuf)) := by
  simp only [phpXziopWrite, hw, ok_bind]
  constructor
  · intro hfit
    by_cases hrest : 0 < w.rest.length
    · obtain ⟨full, hcopy, hstrm, hcopied⟩ := copyIn_segment h.segment.rewound h.segment.bounded hfit
      have hseg := h.segment.trans hcopied
      rw [List.append_nil, ← h.split] at hseg
      simp only [if_pos hrest, hcopy, hstrm, ok_bind, pure_eq_ok]
      exact ⟨_, rfl, hseg⟩
    · have hnil : w.rest = [] := List.eq_nil_of_length_eq_zero (by omega)
      have hseg := h.segment
      have hsplit := h.split
      rw [hnil, List.append_nil] at hsplit
      rw [← hsplit] at hseg
      simp only [if_neg hrest, pure_eq_ok, ok_bind]
      exact ⟨_, rfl, hseg⟩
  · intro hover
    have hrest : 0 < w.rest.length := by
      have := h.segment.availIn_le
      omega
    simp only [if_pos hrest, copyIn, dif_neg hover, error_bind]

/-- **`php_xziop_flush`.** It never faults, and returns 0. -/
theorem phpXziopFlush_sat (c : Coder σ) (io : Inner ι) (fuel : Nat) (h0 : ctx.strm.nextIn = 0)
    (hb : ctx.Bounded) :
    Sat (phpXziopFlush c io fuel ctx) (fun p => p.1 = 0 ∧ ∃ ev, Segment ctx p.2 ev [])
      (fun _ => False) := by
  by_cases hwrite : ctx.isWrite = true
  · simp only [phpXziopFlush, hwrite, if_true]
    apply (phpXzCompress_sat c io fuel h0 hb).bind
    rintro ⟨n, ctx'⟩ ⟨ev, hseg, -⟩
    exact ⟨rfl, ev, hseg.log, hseg.isWrite, hseg.rewound, ⟨hseg.bounded.inside, hseg.bounded.room⟩,
      hseg.count, hseg.consumed, hseg.accepted, hseg.inOrder⟩
  · simp only [phpXziopFlush, hwrite]
    have hrefl := Segment.refl h0 hb
    exact ⟨rfl, [], hrefl.log, rfl, h0, ⟨hb.inside, hb.room⟩, hrefl.count, hrefl.consumed,
      hrefl.accepted, hrefl.inOrder⟩

/-! ## `php_xziop_close` -/

/-- One pass of the loop of `php_xziop_close` starts with an empty `out_buf` and ends with one. It
makes a call, and a write if the call produced something. -/
structure CloseStep (ctx ctx' : XzStreamCtx σ ι) (ev : List Event) : Prop where
  log : ctx'.log = ctx.log ++ ev
  bounded : ctx'.Bounded
  consumed : PhpExtXz.consumed ev ++ ctx'.inPending = ctx.inPending
  events : (∃ call, ev = [.coded call] ∧ call.emitted = []) ∨
    ∃ call acc, ev = [.coded call, .wrote call.emitted acc]

theorem closeTurn_step (c : Coder σ) (io : Inner ι) (hb : ctx.Bounded) :
    ∃ t, closeTurn c io ctx = .ok t ∧ ∃ ctx' ev, (t = .again ctx' ∨ t = .leave ctx') ∧
      CloseStep ctx ctx' ev := by
  have hb' : ctx.resetOut.Bounded := ⟨hb.inside, Nat.zero_add _⟩
  have hempty : ctx.resetOut.outPending = [] := Buffer.written_zero _
  obtain ⟨r, hr⟩ : ∃ r, c.code ctx.resetOut.strm.internal .finish ctx.resetOut.inPending
    ctx.resetOut.strm.availOut = r := ⟨_, rfl⟩
  obtain ⟨mid, hcode, hcoded⟩ := code_eq_ok hb' hr
  have hmoved := hcoded.moved hb'
  have hbmid := hcoded.bounded hb'
  -- whatever waited in `out_buf` was dropped when `next_out` was set back
  have hpending : mid.outPending = r.emitted := by
    rw [hcoded.outPending, hempty, List.nil_append]
  have hlen : mid.outPending.length = mid.strm.nextOut := hbmid.length_outPending
  have hroom := hbmid.room
  simp only [closeTurn, hcode, ok_bind]
  by_cases hout : mid.strm.availOut < XZ_BUFFER_SIZE
  · have hsub : XZ_BUFFER_SIZE - mid.strm.availOut = mid.strm.nextOut := by omega
    obtain ⟨⟨acc, ctx'⟩, hwrite⟩ : ∃ p, mid.write io mid.strm.nextOut = p := ⟨_, rfl⟩
    obtain ⟨hwrote, -, hsame⟩ := write_moved hbmid hwrite
    have hboth := hmoved.trans hwrote
    simp only [if_pos hout, hsub, hwrite]
    refine ⟨if r.ret = .ok then .again ctx'.resetOut else .leave ctx'.resetOut, by split <;> rfl,
      ctx'.resetOut, _, by split <;> simp, hboth.log, ⟨hboth.bounded.inside, Nat.zero_add _⟩,
      hboth.consumed, Or.inr ⟨ctx.resetOut.callOf .finish r, acc, ?_⟩⟩
    rw [hpending]
    rfl
  · have hnone : r.emitted = [] := by
      rw [← hpending]
      exact List.eq_nil_of_length_eq_zero (by omega)
    simp only [if_neg hout]
    exact ⟨if r.ret = .ok then .again mid else .leave mid, by split <;> rfl, mid, _,
      by split <;> simp, hmoved.log, hbmid, hmoved.consumed,
      Or.inl ⟨ctx.resetOut.callOf .finish r, rfl, hnone⟩⟩

/-- No write of the stream below comes after one that was not accepted in full. -/
def ShortLast (ev : List Event) : Prop :=
  ∀ pre bytes acc post, ev = pre ++ .wrote bytes acc :: post → acc ≠ some bytes.length →
    ∀ bytes' acc', .wrote bytes' acc' ∉ post

/-- What the loop of `php_xziop_close` leaves, from an empty `out_buf`. -/
structure CloseLoop (ctx ctx' : XzStreamCtx σ ι) (ev : List Event) : Prop where
  log : ctx'.log = ctx.log ++ ev
  bounded : ctx'.Bounded
  consumed : PhpExtXz.consumed ev ++ ctx'.inPending = ctx.inPending
  accepted : (∀ bytes acc, .wrote bytes acc ∈ ev → acc = some bytes.length) →
    accepted (ev.map Event.transfer) = produced (ev.map Event.transfer)
  inOrder : ShortLast ev → InOrder [] (ev.map Event.transfer)

theorem CloseLoop.step (h : CloseLoop ctx ctx' ev) (h' : CloseStep ctx' ctx'' ev') :
    CloseLoop ctx ctx'' (ev ++ ev') where
  log := by rw [h'.log, h.log, List.append_assoc]
  bounded := h'.bounded
  consumed := by rw [consumed_append, List.append_assoc, h'.consumed, h.consumed]
  accepted hfull := by
    have hev := h.accepted fun bytes acc hmem => hfull bytes acc (List.mem_append_left _ hmem)
    rw [List.map_append, accepted_append, produced_append, hev]
    rcases h'.events with ⟨call, rfl, hnone⟩ | ⟨call, acc, rfl⟩
    · simp [Event.transfer, hnone]
    · have hacc := hfull call.emitted acc (by simp)
      simp [Event.transfer, hacc]
  inOrder hshort := by
    rw [List.map_append]
    rcases h'.events with ⟨call, rfl, -⟩ | ⟨call, acc, rfl⟩
    · refine (h.inOrder fun pre bytes acc post heq hacc bytes' acc' hmem => ?_).append_produce _
      exact hshort pre bytes acc (post ++ [.coded call]) (by simp [heq]) hacc bytes' acc'
        (List.mem_append_left _ hmem)
    · -- a write follows, so everything before it was accepted
      have hfull : ∀ bytes acc, Event.wrote bytes acc ∈ ev → acc = some bytes.length := by
        intro bytes acc' hmem
        by_contra hacc
        obtain ⟨pre, post, rfl⟩ := List.append_of_mem hmem
        exact hshort pre bytes acc' (post ++ [.coded call, .wrote call.emitted acc]) (by simp) hacc
          call.emitted acc (by simp)
      have hshort' : ShortLast ev := by
        rintro pre bytes acc' post rfl hacc
        exact absurd (hfull bytes acc' (by simp)) hacc
      have hall : Delivery.accepted (ev.map Event.transfer) ++ [] =
          [] ++ produced (ev.map Event.transfer) := by
        rw [h.accepted hfull, List.append_nil, List.nil_append]
      refine (h.inOrder hshort').append hall ?_
      exact (InOrder.produce call.emitted).append (by simp) (.offer List.prefix_rfl _)

theorem phpXziopClose_sat (c : Coder σ) (io : Inner ι) (fuel : Nat) (hb : ctx.Bounded)
    (hwrite : ctx.isWrite = true) :
    Sat (phpXziopClose c io fuel ctx) (fun p => p.1 = EOF ∧ ∃ ev, CloseLoop ctx p.2 ev)
      (fun _ => False) := by
  have hloop : Sat (loop (closeTurn c io) fuel ctx) (fun ctx' => ∃ ev, CloseLoop ctx ctx' ev)
      (fun _ => False) := by
    refine loop_sat (fun ctx' => ∃ ev, CloseLoop ctx ctx' ev) ?_ fuel ctx
      ⟨[], (List.append_nil _).symm, hb, rfl, fun _ => rfl, fun _ => .nil⟩
    rintro mid ⟨ev, h⟩
    obtain ⟨t, hturn, ctx', ev', ht, hstep⟩ := closeTurn_step c io h.bounded
    rw [hturn]
    rcases ht with rfl | rfl
    · exact ⟨_, h.step hstep⟩
    · exact ⟨_, h.step hstep⟩
  simp only [phpXziopClose, hwrite, if_true]
  exact hloop.bind fun ctx' h => ⟨rfl, h⟩

end XzStreamCtx

end PhpExtXz
