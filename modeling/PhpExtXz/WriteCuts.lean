/-
# PhpExtXz.WriteCuts — how data is cut into writes cannot be told from the stream.

`php_xziop_write` fills `in_buf` and compresses it when it is full and a further byte comes. So a write
is what its bytes would be if they were put in one after the other (`Put`), and from that follows, for any
coder and any stream below, that a run of writes and flushes depends on the bytes and on where the
flushes stand among them alone: two runs that agree in these make the same calls of `lzma_code` and the
same writes below, and leave the same stream (`cuts_invisible`).
-/
import PhpExtXz.Lib.Components
import PhpExtXz.Lib.Steps
import PhpExtXz.WriteHealthy

namespace PhpExtXz

open FuelLoop Runs XzStreamCtx

variable {σ ι : Type}

/-! ## Filling a buffer -/

namespace Buffer

variable {α : Type} {n off : Nat} {b : Buffer α n}

theorem blit_nil (h : off + ([] : List α).length ≤ n) : b.blit off [] h = b := by
  obtain ⟨cells, size_eq⟩ := b
  simp only [blit, List.append_nil, List.length_nil, Nat.add_zero, List.take_append_drop]

/-- Two copies, one behind the other, are one copy. -/
theorem blit_blit {xs ys : List α} (h : off + xs.length ≤ n) (h' : off + xs.length + ys.length ≤ n)
    (h'' : off + (xs ++ ys).length ≤ n) :
    (b.blit off xs h).blit (off + xs.length) ys h' = b.blit off (xs ++ ys) h'' := by
  have hlen : (b.cells.take off ++ xs).length = off + xs.length := by
    have := b.size_eq
    rw [List.length_append, List.length_take]
    omega
  have hcells : (b.cells.take off ++ xs ++ b.cells.drop (off + xs.length)).take (off + xs.length) ++ ys ++
      (b.cells.take off ++ xs ++ b.cells.drop (off + xs.length)).drop (off + xs.length + ys.length) =
      b.cells.take off ++ (xs ++ ys) ++ b.cells.drop (off + (xs ++ ys).length) := by
    rw [List.take_left' hlen, ← List.drop_drop, List.drop_left' hlen, List.drop_drop, List.length_append]
    simp only [List.append_assoc, Nat.add_assoc]
  simp only [blit, hcells]

end Buffer

namespace XzStreamCtx

/-- Bytes are copied behind those in `in_buf`. -/
def append (self : XzStreamCtx σ ι) (bytes : List UInt8)
    (h : self.strm.availIn + bytes.length ≤ XZ_BUFFER_SIZE) : XzStreamCtx σ ι :=
  { self with
    inBuf := self.inBuf.blit self.strm.availIn bytes h
    strm := { self.strm with availIn := self.strm.availIn + bytes.length } }

variable {ctx ctx' : XzStreamCtx σ ι} {xs ys : List UInt8}

theorem append_nil (h : ctx.strm.availIn + ([] : List UInt8).length ≤ XZ_BUFFER_SIZE) :
    ctx.append [] h = ctx := by
  rw [append, Buffer.blit_nil]
  rfl

theorem append_append (h : ctx.strm.availIn + xs.length ≤ XZ_BUFFER_SIZE)
    (h' : (ctx.append xs h).strm.availIn + ys.length ≤ XZ_BUFFER_SIZE)
    (h'' : ctx.strm.availIn + (xs ++ ys).length ≤ XZ_BUFFER_SIZE) :
    (ctx.append xs h).append ys h' = ctx.append (xs ++ ys) h'' := by
  simp only [append, Buffer.blit_blit h h' h'', List.length_append, Nat.add_assoc]

/-- A `memcpy` behind the bytes in `in_buf`, and `avail_in` moved past it. -/
theorem copyIn_setAvailIn (h : ctx.strm.availIn + xs.length ≤ XZ_BUFFER_SIZE) :
    ∃ mid, ctx.copyIn xs = .ok mid ∧ mid.strm = ctx.strm ∧
      ∀ n, n = ctx.strm.availIn + xs.length → mid.setAvailIn n = ctx.append xs h := by
  refine ⟨_, dif_pos h, rfl, ?_⟩
  rintro n rfl
  rfl

theorem append_ready (h : ctx.strm.availIn + xs.length ≤ XZ_BUFFER_SIZE) (hctx : WriteReady ctx) :
    WriteReady (ctx.append xs h) := by
  refine ⟨hctx.rewound, ⟨?_, hctx.bounded.room⟩, hctx.isWrite⟩
  show ctx.strm.nextIn + (ctx.strm.availIn + xs.length) ≤ XZ_BUFFER_SIZE
  rw [hctx.rewound, Nat.zero_add]
  exact h

end XzStreamCtx

/-! ## One byte -/

/-- `php_xz_compress` succeeds. -/
def Compressed (c : Coder σ) (io : Inner ι) (ctx ctx' : XzStreamCtx σ ι) : Prop :=
  ∃ fuel n, phpXzCompress c io fuel ctx = .ok (n, ctx') ∧ 0 ≤ n

/-- **One byte is put in**: behind those in `in_buf`, which is compressed before if it is full. -/
inductive Put (c : Coder σ) (io : Inner ι) (ctx : XzStreamCtx σ ι) (x : UInt8) : XzStreamCtx σ ι → Prop
  | room (h : ctx.strm.availIn + [x].length ≤ XZ_BUFFER_SIZE) : Put c io ctx x (ctx.append [x] h)
  | full {mid : XzStreamCtx σ ι} (isFull : ctx.strm.availIn = XZ_BUFFER_SIZE)
      (compressed : Compressed c io ctx mid) (h : mid.strm.availIn + [x].length ≤ XZ_BUFFER_SIZE) :
      Put c io ctx x (mid.append [x] h)

variable {c : Coder σ} {io : Inner ι} {fuel : Nat} {ctx ctx' mid : XzStreamCtx σ ι} {x : UInt8}
  {xs buf : List UInt8}

/-- Bytes for which there is room are copied in. -/
theorem steps_put_room (h : ctx.strm.availIn + xs.length ≤ XZ_BUFFER_SIZE) :
    Steps (Put c io) ctx xs ctx' ↔ ctx' = ctx.append xs h := by
  induction xs generalizing ctx with
  | nil => rw [steps_nil_iff, XzStreamCtx.append_nil]
  | cons x xs ih =>
    have hx : ctx.strm.availIn + [x].length ≤ XZ_BUFFER_SIZE := by
      rw [List.length_cons] at h
      show ctx.strm.availIn + 1 ≤ XZ_BUFFER_SIZE
      omega
    have hxs : (ctx.append [x] hx).strm.availIn + xs.length ≤ XZ_BUFFER_SIZE := by
      rw [List.length_cons] at h
      show ctx.strm.availIn + 1 + xs.length ≤ XZ_BUFFER_SIZE
      omega
    rw [steps_cons_iff]
    constructor
    · rintro ⟨mid, hput, hrest⟩
      cases hput with
      | room =>
        rw [(ih hxs).mp hrest]
        exact XzStreamCtx.append_append hx hxs h
      | full isFull =>
        rw [isFull, List.length_cons] at h
        omega
    · rintro rfl
      refine ⟨_, .room hx, (ih hxs).mpr ?_⟩
      exact (XzStreamCtx.append_append hx hxs h).symm

/-- After it `in_buf` is empty. -/
theorem Compressed.ready (h : Compressed c io ctx ctx') (hctx : WriteReady ctx) :
    WriteReady ctx' ∧ ctx'.strm.availIn = 0 := by
  obtain ⟨fuel, n, hcompress, hn⟩ := h
  obtain ⟨ev, hseg, -, hempty⟩ := (phpXzCompress_sat c io fuel hctx.rewound hctx.bounded).of_ok hcompress
  exact ⟨hseg.ready hctx, hempty hn⟩

/-! ## A write -/

/-- As many bytes as there is room for. -/
def upTo (ctx : XzStreamCtx σ ι) (buf : List UInt8) : List UInt8 :=
  buf.take (XZ_BUFFER_SIZE - ctx.strm.availIn)

def past (ctx : XzStreamCtx σ ι) (buf : List UInt8) : List UInt8 :=
  buf.drop (XZ_BUFFER_SIZE - ctx.strm.availIn)

theorem upTo_append_past (ctx : XzStreamCtx σ ι) (buf : List UInt8) : upTo ctx buf ++ past ctx buf = buf :=
  List.take_append_drop _ _

theorem WriteReady.availIn_le (h : WriteReady ctx) : ctx.strm.availIn ≤ XZ_BUFFER_SIZE := by
  have := h.bounded.inside
  omega

section Pass

variable (hctx : WriteReady ctx) (hmore : XZ_BUFFER_SIZE - ctx.strm.availIn < buf.length)
include hctx hmore

theorem length_upTo : ctx.strm.availIn + (upTo ctx buf).length = XZ_BUFFER_SIZE := by
  have := hctx.availIn_le
  rw [upTo, List.length_take_of_le (by omega)]
  omega

theorem upTo_fits : ctx.strm.availIn + (upTo ctx buf).length ≤ XZ_BUFFER_SIZE :=
  le_of_eq (length_upTo hctx hmore)

/-- A pass of the loop with more bytes than there is room for: `in_buf` is filled up and compressed. -/
theorem writeTurn_more (c : Coder σ) (io : Inner ι) (fuel : Nat) (k : Int) :
    writeTurn c io fuel ⟨ctx, buf, k⟩ =
      phpXzCompress c io fuel (ctx.append (upTo ctx buf) (upTo_fits hctx hmore)) >>= fun p =>
        if p.1 < 0 then .ok (.leave ⟨p.2, past ctx buf, p.1⟩)
        else .ok (.again ⟨p.2, past ctx buf, p.1⟩) := by
  have hroom : sizeSub XZ_BUFFER_SIZE ctx.strm.availIn = XZ_BUFFER_SIZE - ctx.strm.availIn :=
    sizeSub_eq hctx.availIn_le (by decide)
  obtain ⟨mid, hcopy, -, hset⟩ := copyIn_setAvailIn (upTo_fits hctx hmore)
  simp only [writeTurn, hroom, if_pos hmore, pure_eq_ok]
  show ctx.copyIn (upTo ctx buf) >>= _ = _
  rw [hcopy, ok_bind, hset _ (length_upTo hctx hmore).symm]
  rfl

omit hctx in
theorem past_ne_nil : past ctx buf ≠ [] := by
  rw [past, ne_eq, List.drop_eq_nil_iff]
  omega

/-- What putting in the bytes comes to then. -/
theorem steps_put_more : Steps (Put c io) ctx buf ctx' ↔
    ∃ mid, Compressed c io (ctx.append (upTo ctx buf) (upTo_fits hctx hmore)) mid ∧
      Steps (Put c io) mid (past ctx buf) ctx' := by
  have hfull := append_ready (upTo_fits hctx hmore) hctx
  have hsize : (ctx.append (upTo ctx buf) (upTo_fits hctx hmore)).strm.availIn = XZ_BUFFER_SIZE :=
    length_upTo hctx hmore
  obtain ⟨x, xs, hpast⟩ := List.exists_cons_of_ne_nil (past_ne_nil hmore)
  conv_lhs => rw [← upTo_append_past ctx buf, steps_append_iff]
  rw [hpast]
  constructor
  · rintro ⟨full, hupTo, hrest⟩
    obtain rfl := (steps_put_room (upTo_fits hctx hmore)).mp hupTo
    obtain ⟨next, hput, hxs⟩ := steps_cons_iff.mp hrest
    cases hput with
    | room h =>
      rw [hsize] at h
      exact absurd h (by simp)
    | @full mid _ hcompressed h => exact ⟨mid, hcompressed, .cons (.room h) hxs⟩
  · rintro ⟨mid, hcompressed, hrest⟩
    obtain ⟨next, hput, hxs⟩ := steps_cons_iff.mp hrest
    refine ⟨_, (steps_put_room (upTo_fits hctx hmore)).mpr rfl, .cons ?_ hxs⟩
    obtain ⟨-, hempty⟩ := hcompressed.ready hfull
    cases hput with
    | room h => exact .full hsize hcompressed h
    | full isFull =>
      rw [hempty] at isFull
      exact absurd isFull (by decide)

end Pass

/-- What the loop of `php_xziop_write` has done, if it did not fail: whatever putting in the rest leads to,
putting in all of the buffer leads to. -/
theorem writeLoop_steps {n : Nat} {k : Int} {w : Writing σ ι} (hctx : WriteReady ctx)
    (hloop : loop (writeTurn c io fuel) n ⟨ctx, buf, k⟩ = .ok w) (hw : 0 ≤ w.bytesConsumed) :
    w.self.strm.availIn + w.rest.length ≤ XZ_BUFFER_SIZE ∧
      ∀ ctx', Steps (Put c io) w.self w.rest ctx' → Steps (Put c io) ctx buf ctx' := by
  induction n generalizing ctx buf k with
  | zero => cases hloop
  | succ n ih =>
    have hle := hctx.availIn_le
    rw [loop] at hloop
    by_cases hmore : XZ_BUFFER_SIZE - ctx.strm.availIn < buf.length
    · rw [writeTurn_more hctx hmore] at hloop
      cases hcompress : phpXzCompress c io fuel (ctx.append (upTo ctx buf) (upTo_fits hctx hmore)) with
      | error e =>
        rw [hcompress] at hloop
        cases hloop
      | ok p =>
        obtain ⟨m, mid⟩ := p
        rw [hcompress, ok_bind] at hloop
        by_cases hm : m < 0
        · simp only [if_pos hm] at hloop
          cases hloop
          exact absurd hm (Int.not_lt.mpr hw)
        · simp only [if_neg hm] at hloop
          have hcompressed : Compressed c io (ctx.append (upTo ctx buf) (upTo_fits hctx hmore)) mid :=
            ⟨fuel, m, hcompress, Int.not_lt.mp hm⟩
          obtain ⟨hready, -⟩ := hcompressed.ready (append_ready (upTo_fits hctx hmore) hctx)
          obtain ⟨hfits, hsteps⟩ := ih hready hloop
          exact ⟨hfits, fun ctx' h => (steps_put_more hctx hmore).mpr ⟨mid, hcompressed, hsteps ctx' h⟩⟩
    · have hroom : sizeSub XZ_BUFFER_SIZE ctx.strm.availIn = XZ_BUFFER_SIZE - ctx.strm.availIn :=
        sizeSub_eq hle (by decide)
      simp only [writeTurn, hroom, if_neg hmore, pure_eq_ok] at hloop
      cases hloop
      refine ⟨?_, fun _ h => h⟩
      show ctx.strm.availIn + buf.length ≤ XZ_BUFFER_SIZE
      omega

/-- And the other way round: where the bytes can be put in, the loop returns. -/
theorem writeLoop_of_steps (hctx : WriteReady ctx) (hsteps : Steps (Put c io) ctx buf ctx') :
    ∃ N, ∀ fuel n k, N < fuel → N < n → 0 ≤ k → ∃ w, loop (writeTurn c io fuel) n ⟨ctx, buf, k⟩ = .ok w ∧
      0 ≤ w.bytesConsumed ∧ ∃ h, ctx' = w.self.append w.rest h := by
  -- each pass uses up `in_buf` or bytes of the buffer
  induction hsize : buf.length + ctx.strm.availIn using Nat.strongRecOn generalizing ctx buf with
  | _ size ih =>
    have hle := hctx.availIn_le
    by_cases hmore : XZ_BUFFER_SIZE - ctx.strm.availIn < buf.length
    · obtain ⟨mid, hcompressed, hrest⟩ := (steps_put_more hctx hmore).mp hsteps
      obtain ⟨hready, hempty⟩ := hcompressed.ready (append_ready (upTo_fits hctx hmore) hctx)
      have hless : (past ctx buf).length + mid.strm.availIn < size := by
        have hpos : 0 < XZ_BUFFER_SIZE := by decide
        rw [past, List.length_drop, hempty, ← hsize]
        omega
      obtain ⟨N, hN⟩ := ih _ hless hready hrest rfl
      obtain ⟨fuel₀, m, hcompress, hm⟩ := hcompressed
      refine ⟨max fuel₀ (N + 1), fun fuel n k hfuel hn hk => ?_⟩
      obtain ⟨n, rfl⟩ : ∃ n', n = n' + 1 := ⟨n - 1, by omega⟩
      obtain ⟨w, hw, hres⟩ := hN fuel n m (by omega) (by omega) hm
      refine ⟨w, ?_, hres⟩
      rw [loop, writeTurn_more hctx hmore, phpXzCompress_mono hcompress (by omega), ok_bind]
      simp only [if_neg (Int.not_lt.mpr hm)]
      exact hw
    · have hfits : ctx.strm.availIn + buf.length ≤ XZ_BUFFER_SIZE := by omega
      refine ⟨0, fun fuel n k _ hn hk => ⟨⟨ctx, buf, k⟩, ?_, hk, hfits, (steps_put_room hfits).mp hsteps⟩⟩
      obtain ⟨n, rfl⟩ : ∃ n', n = n' + 1 := ⟨n - 1, by omega⟩
      have hroom : sizeSub XZ_BUFFER_SIZE ctx.strm.availIn = XZ_BUFFER_SIZE - ctx.strm.availIn :=
        sizeSub_eq hle (by decide)
      rw [loop]
      simp only [writeTurn, hroom, if_neg hmore, pure_eq_ok]

/-- What `php_xziop_write` does with the rest of the buffer: it is copied in, if there is any. -/
theorem phpXziopWrite_rest {w : Writing σ ι} (hloop : writeLoop c io fuel ctx buf = .ok w)
    (h : w.self.strm.availIn + w.rest.length ≤ XZ_BUFFER_SIZE) :
    phpXziopWrite c io fuel ctx buf =
      .ok (if w.bytesConsumed < 0 then -1 else buf.length, w.self.append w.rest h) := by
  simp only [phpXziopWrite, hloop, ok_bind]
  by_cases hrest : 0 < w.rest.length
  · obtain ⟨mid, hcopy, hstrm, hset⟩ := copyIn_setAvailIn h
    simp only [if_pos hrest, hcopy, ok_bind, pure_eq_ok]
    rw [hset _ (by rw [hstrm])]
  · simp only [if_neg hrest, ok_bind, pure_eq_ok]
    have hnil : w.rest = [] := List.eq_nil_of_length_eq_zero (by omega)
    simp only [hnil, append_nil]

/-- **A write puts in its bytes**, -/
theorem steps_of_write {ret : Int} (hctx : WriteReady ctx)
    (hwrite : phpXziopWrite c io fuel ctx buf = .ok (ret, ctx')) (hret : ret ≠ -1) :
    Steps (Put c io) ctx buf ctx' := by
  obtain ⟨w, hloop, -⟩ := bind_eq_ok.mp hwrite
  obtain ⟨ev, fed, hleft⟩ := (writeLoop_sat c io fuel hctx.rewound hctx.bounded buf).of_ok hloop
  have hfits : w.self.strm.availIn + w.rest.length ≤ XZ_BUFFER_SIZE := by
    by_contra hover
    rw [(phpXziopWrite_of_loop hloop hleft).2 hover] at hwrite
    cases hwrite
  rw [phpXziopWrite_rest hloop hfits] at hwrite
  obtain ⟨rfl, rfl⟩ := Prod.mk.inj (Except.ok.inj hwrite)
  have hw : 0 ≤ w.bytesConsumed := by
    by_contra hneg
    exact hret (if_pos (Int.not_le.mp hneg))
  obtain ⟨-, hsteps⟩ := writeLoop_steps hctx hloop hw
  exact hsteps _ ((steps_put_room hfits).mpr rfl)

/-- and where its bytes can be put in, it returns their number. -/
theorem write_of_steps (hctx : WriteReady ctx) (hsteps : Steps (Put c io) ctx buf ctx') :
    Returns (fun fuel => phpXziopWrite c io fuel ctx buf) (· = ((buf.length : Int), ctx')) := by
  obtain ⟨N, hN⟩ := writeLoop_of_steps hctx hsteps
  refine ⟨N, _, fun fuel hfuel => ?_, rfl⟩
  obtain ⟨w, hloop, hw, hfits, rfl⟩ := hN fuel fuel 0 hfuel hfuel (Int.le_refl 0)
  show phpXziopWrite c io fuel ctx buf = _
  rw [phpXziopWrite_rest hloop hfits, if_neg (Int.not_lt.mpr hw)]

/-! ## Runs of writes and flushes -/

/-- What an operation comes to: bytes, or a flush (`none`). -/
def XziopOp.marks : XziopOp → List (Option UInt8)
  | .write buf => buf.map some
  | .flush => [none]
  | _ => []

/-- A byte is put in, or a flush returns, whether it got the bytes through or not. -/
def Marked (c : Coder σ) (io : Inner ι) (ctx : XzStreamCtx σ ι) : Option UInt8 → XzStreamCtx σ ι → Prop
  | some x, ctx' => Put c io ctx x ctx'
  | none, ctx' => ∃ fuel, phpXziopFlush c io fuel ctx = .ok (0, ctx')

theorem steps_marked : Steps (Marked c io) ctx (buf.map some) ctx' ↔ Steps (Put c io) ctx buf ctx' :=
  steps_map_iff Iff.rfl

variable {op : XziopOp} {ops ops' : List XziopOp} {rs : List XziopResult}

/-- **One operation**, -/
theorem steps_of_xziop {r : XziopResult} (hctx : WriteReady ctx) (hread : op.isRead = false)
    (hclose : op.isClose = false) (hop : xziop c io fuel ctx op = .ok (r, ctx')) (hr : r ≠ .write (-1)) :
    Steps (Marked c io) ctx op.marks ctx' := by
  cases op with
  | read _ => cases hread
  | close => cases hclose
  | write buf =>
    obtain ⟨⟨ret, next⟩, hwrite, hpure⟩ := bind_eq_ok.mp hop
    obtain ⟨rfl, rfl⟩ := Prod.mk.inj (Except.ok.inj hpure)
    refine steps_marked.mpr (steps_of_write hctx hwrite ?_)
    rintro rfl
    exact hr rfl
  | flush =>
    obtain ⟨⟨ret, next⟩, hflush, hpure⟩ := bind_eq_ok.mp hop
    obtain ⟨rfl, rfl⟩ := Prod.mk.inj (Except.ok.inj hpure)
    obtain ⟨rfl, -⟩ := (phpXziopFlush_sat c io fuel hctx.rewound hctx.bounded).of_ok hflush
    exact .cons ⟨fuel, hflush⟩ .nil

/-- and what it comes to is all that its outcome depends on. -/
theorem xziop_of_steps (hctx : WriteReady ctx) (hread : op.isRead = false) (hclose : op.isClose = false)
    (hsteps : Steps (Marked c io) ctx op.marks ctx') :
    Returns (fun fuel => xziop c io fuel ctx op) fun p => p.1 ≠ .write (-1) ∧ p.2 = ctx' := by
  cases op with
  | read _ => cases hread
  | close => cases hclose
  | write buf =>
    apply (write_of_steps hctx (steps_marked.mp hsteps)).bind
    rintro _ rfl
    refine .ok ⟨?_, rfl⟩
    intro h
    have hlength := XziopResult.write.inj h
    omega
  | flush =>
    obtain ⟨next, ⟨fuel, hflush⟩, hnil⟩ := steps_cons_iff.mp hsteps
    obtain rfl := steps_nil_iff.mp hnil
    refine ⟨fuel, (.flush 0, ctx'), fun m hm => ?_, nofun, rfl⟩
    exact bind_eq_ok.mpr ⟨_, phpXziopFlush_mono hflush (by omega), rfl⟩

/-- Operations that write or flush keep the stream ready. -/
theorem ready_of_xziop {r : XziopResult} (hctx : WriteReady ctx) (hread : op.isRead = false)
    (hclose : op.isClose = false) (hop : xziop c io fuel ctx op = .ok (r, ctx')) : WriteReady ctx' := by
  have hstep := xziop_writeStep c io fuel hctx hread
  rw [hop] at hstep
  exact hstep.ready hctx hclose

/-- **A run**, -/
theorem steps_of_perform (hctx : WriteReady ctx) (hread : ∀ op ∈ ops, op.isRead = false)
    (hclose : ∀ op ∈ ops, op.isClose = false) (hrun : perform (xziop c io fuel) ctx ops = .ok (rs, ctx'))
    (hrs : .write (-1) ∉ rs) : Steps (Marked c io) ctx (ops.flatMap (·.marks)) ctx' := by
  induction ops generalizing ctx rs with
  | nil =>
    cases hrun
    exact .nil
  | cons op ops ih =>
    obtain ⟨r, next, rest, hop, hops, rfl⟩ := perform_cons_eq_ok.mp hrun
    rw [List.mem_cons, not_or] at hrs
    rw [List.forall_mem_cons] at hread hclose
    rw [List.flatMap_cons, steps_append_iff]
    refine ⟨next, steps_of_xziop hctx hread.1 hclose.1 hop (fun h => hrs.1 h.symm), ?_⟩
    exact ih (ready_of_xziop hctx hread.1 hclose.1 hop) hread.2 hclose.2 hops hrs.2

/-- and what it comes to. -/
theorem perform_of_steps (hctx : WriteReady ctx) (hread : ∀ op ∈ ops, op.isRead = false)
    (hclose : ∀ op ∈ ops, op.isClose = false)
    (hsteps : Steps (Marked c io) ctx (ops.flatMap (·.marks)) ctx') :
    Returns (fun fuel => perform (xziop c io fuel) ctx ops) fun p => .write (-1) ∉ p.1 ∧ p.2 = ctx' := by
  induction ops generalizing ctx with
  | nil =>
    obtain rfl := steps_nil_iff.mp hsteps
    exact .ok ⟨List.not_mem_nil, rfl⟩
  | cons op ops ih =>
    rw [List.forall_mem_cons] at hread hclose
    rw [List.flatMap_cons, steps_append_iff] at hsteps
    obtain ⟨next, hfirst, hrest⟩ := hsteps
    have hop := xziop_of_steps hctx hread.1 hclose.1 hfirst
    obtain ⟨N, ⟨r, next⟩, hN, hr, rfl⟩ := hop
    have hready := ready_of_xziop hctx hread.1 hclose.1 (hN (N + 1) (by omega))
    refine Returns.bind (Q := (· = (r, next))) ⟨N, (r, next), hN, rfl⟩ ?_
    rintro _ rfl
    apply (ih hready hread.2 hclose.2 hrest).bind
    rintro ⟨rs, last⟩ ⟨hrs, rfl⟩
    refine .ok ⟨?_, rfl⟩
    rw [List.mem_cons, not_or]
    exact ⟨fun h => hr h.symm, hrs⟩

/-- **The cuts are invisible.** Two runs of writes and flushes on a stream, for any coder and any stream
below: they write the same bytes, cut in any two ways, and flush at the same places among them. If no write
of the one fails, then none of the other does, and both leave the same context: the same bytes wait in
`in_buf`, the coder and the stream below are in the same states, and the same calls of both were made. -/
theorem cuts_invisible {L : Liblzma σ} {level : UInt32} {stream : ι} {opened : XzStreamCtx σ ι} (io : Inner ι)
    (hopen : phpXzInitEncoder L level stream = some opened) (ops ops' : List XziopOp)
    (hread : ∀ op ∈ ops ++ ops', op.isRead = false) (hclose : ∀ op ∈ ops ++ ops', op.isClose = false)
    (hmarks : ops.flatMap (·.marks) = ops'.flatMap (·.marks)) (fuel : Nat)
    (hrun : perform (xziop L.coder io fuel) opened ops = .ok (rs, ctx')) (hrs : .write (-1) ∉ rs) :
    Returns (fun fuel => perform (xziop L.coder io fuel) opened ops')
      fun p => .write (-1) ∉ p.1 ∧ p.2 = ctx' := by
  have hctx := (phpXzInitEncoder_fresh hopen).toWriteReady
  rw [List.forall_mem_append] at hread hclose
  refine perform_of_steps hctx hread.2 hclose.2 ?_
  rw [← hmarks]
  exact steps_of_perform hctx hread.1 hclose.1 hrun hrs

/-- Five thousand bytes in one write, of which the first 4096 are compressed, and one by one. -/
theorem cuts_invisible_bytewise :
    ∃ rs ctx', perform (xziop copyLiblzma.coder pipe 10002) (freshCtx false [] true)
        [.write (.replicate 5000 7)] = .ok (rs, ctx') ∧
      Returns (fun fuel => perform (xziop copyLiblzma.coder pipe fuel) (freshCtx false [] true)
        ((List.replicate 5000 7).map fun x => .write [x])) fun p => .write (-1) ∉ p.1 ∧ p.2 = ctx' := by
  have hopen : phpXzInitEncoder copyLiblzma 6 ([] : List UInt8) = some (freshCtx false [] true) := rfl
  have hstart : StreamEncoding copyLiblzma.coder false id [] [] {} (freshCtx false [] true) :=
    ⟨⟨Nat.zero_le _, rfl⟩, rfl, .start, rfl, rfl, rfl⟩
  obtain ⟨ctx', f', hwrite, -⟩ := phpXziopWrite_healthy copyCoder_healthyEncoder pipe_accepts hstart rfl rfl
    (.replicate 5000 7) [] 10002 (by simp only [id, List.length_append, List.length_replicate]; decide)
  have hrun : perform (xziop copyLiblzma.coder pipe 10002) (freshCtx false [] true)
      [.write (.replicate 5000 7)] = .ok ([.write (List.replicate 5000 (7 : UInt8)).length], ctx') := by
    refine perform_cons_eq_ok.mpr ⟨_, ctx', [], ?_, rfl, rfl⟩
    exact bind_eq_ok.mpr ⟨_, hwrite, rfl⟩
  refine ⟨_, ctx', hrun, cuts_invisible pipe hopen _ _ ?_ ?_ ?_ 10002 hrun ?_⟩
  · simp only [List.forall_mem_append, List.forall_mem_map, List.forall_mem_singleton]
    exact ⟨rfl, fun _ _ => rfl⟩
  · simp only [List.forall_mem_append, List.forall_mem_map, List.forall_mem_singleton]
    exact ⟨rfl, fun _ _ => rfl⟩
  · rw [List.flatMap_singleton, List.flatMap_map]
    exact List.map_eq_flatMap
  · rw [List.length_replicate]
    decide

end PhpExtXz
