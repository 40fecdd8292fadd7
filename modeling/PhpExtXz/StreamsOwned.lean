/-
# PhpExtXz.StreamsOwned — what streams own is used and released as it should be, in every script.

`StreamTable.Sound`: every stream has a coder and a stream below of its own, and there are no others. Each
step of a script keeps this, so that no script uses a coder or a stream below after its release or releases
it twice, and none is left once the streams are closed.

Two things can still go wrong, and the theorem says when (`streamRun_sound`). An open that gets past its
checks and then has no coder accesses the context it has released. And an operation may leave the buffers
of its stream: where each stream is used in its own direction (`Along`), only a write does, in the
copy after its loop.
-/
import PhpExtXz.LoopsEnd
import PhpExtXz.Streams

namespace PhpExtXz

open FuelLoop Runs XzStreamCtx

variable {σ τ ι κ φ : Type}

/-! ## Contexts and what they point to -/

/-- A context whose operations, in its own direction, stay inside its buffers as long as none fails. -/
def XzStreamCtx.Directed (ctx : XzStreamCtx σ ι) : Prop :=
  (ctx.isWrite = false ∧ ctx.Windowed) ∨ WriteReady ctx

/-- What a context points to does not matter for that. -/
theorem XzStreamCtx.Directed.withParts {ctx : XzStreamCtx σ ι} (h : ctx.Directed) (internal : τ) (stream : κ) :
    (ctx.withParts internal stream).Directed := by
  rcases h with ⟨hread, hw⟩ | hready
  · exact Or.inl ⟨hread, ⟨hw.bounded.inside, hw.bounded.room⟩, hw.idx, hw.room⟩
  · exact Or.inr ⟨hready.rewound, ⟨hready.bounded.inside, hready.bounded.room⟩, hready.isWrite⟩

theorem xzOpened_directed {L : Liblzma σ} {ctx : XzStreamCtx σ ι} (h : XzOpened L ctx) : ctx.Directed := by
  cases h with
  | decoder opened => exact Or.inl (phpXzInitDecoder_windowed opened).symm
  | encoder opened => exact Or.inr (phpXzInitEncoder_fresh opened).toWriteReady

/-- An operation that fits the direction of its stream. -/
def XziopOp.Along (ctx : XzStreamCtx σ ι) (op : XziopOp) : Prop :=
  (op.isRead = true → ctx.isWrite = false) ∧ (op.isWrite = true → ctx.isWrite = true)

/-- **An operation in the direction of its stream** leaves the buffers in one place at most. -/
theorem xziop_directed {c : Coder σ} {io : Inner ι} {fuel : Nat} {ctx : XzStreamCtx σ ι} (h : ctx.Directed)
    {op : XziopOp} (hop : op.Along ctx) :
    Sat (xziop c io fuel ctx op) (fun p => op.isClose = false → p.2.Directed) (· = .copyPastInBuf) := by
  rcases h with ⟨hread, hw⟩ | hready
  · have hwrite : op.isWrite = false := by
      by_contra hne
      rw [hop.2 (Bool.eq_true_of_not_eq_false hne)] at hread
      cases hread
    cases hclose : op.isClose with
    | true => exact (xziop_reading_sat hw hread hwrite).weaken (fun _ _ h => by cases h) fun _ => False.elim
    | false =>
      refine (xziop_windowed hw hread hclose hwrite).weaken ?_ fun _ => False.elim
      exact fun p hp _ => Or.inl hp.symm
  · have hread : op.isRead = false := by
      by_contra hne
      have hnot := hop.1 (Bool.eq_true_of_not_eq_false hne)
      rw [hready.isWrite] at hnot
      cases hnot
    have hstep := xziop_writeStep c io fuel hready hread
    cases hres : xziop c io fuel ctx op with
    | ok p =>
      rw [hres] at hstep
      exact fun hclose => Or.inr (hstep.ready hready hclose)
    | error e =>
      cases e with
      | outOfFuel => trivial
      | fault m =>
        rcases hstep.returns (by rw [hres]; nofun) with ⟨p, hp⟩ | ⟨-, hp⟩
        · rw [hres] at hp
          cases hp
        · rw [hres] at hp
          exact Halt.fault.inj (Except.error.inj hp)

theorem sat_liftMemory {α : Type} {x : Exec MemoryFault α} {Q : α → Prop} {F : MemoryFault → Prop}
    (h : Sat x Q F) : Sat (liftMemory x) Q fun fault => ∃ m, fault = .memory m ∧ F m := by
  cases x with
  | ok a => exact h
  | error e =>
    cases e with
    | outOfFuel => trivial
    | fault m => exact ⟨m, rfl, h⟩

/-- The context that is made for a request around the stream below. -/
def OpenRequest.makeCtx (L : Liblzma σ) (ini : Ini) (req : OpenRequest) (inner : ι) :
    Option (XzStreamCtx σ ι) :=
  (initCoder L (openMode req.modePass) (levelUsed ini req.modePass req.context) (memUsed ini req.context)
    inner).1

/-- A request gets past the checks, and there is no coder for it. -/
def NoCoder (L : Liblzma σ) (ini : Ini) (req : OpenRequest) : Prop :=
  ¬ RefusedEarly ini req.modePass ∧ req.makeCtx L ini () = none

/-! ## The invariant -/

namespace StreamTable

/-- **Each stream has a coder and a stream below of its own**, and there are no others. -/
structure Sound (table : StreamTable σ φ) : Prop where
  coders : Owns (fun ctx => some ctx.strm.internal) table.streams table.coders
  inners : Owns (fun ctx => some ctx.stream) table.streams table.inners

variable {L : Liblzma σ} {fs : FileSystem φ ι} {self self' : StreamTable σ φ} {fuel handle : Nat}
  {ctx ctx₁ : XzStreamCtx Nat Nat}

theorem start_sound (ini : Ini) (world : φ) : (start ini world : StreamTable σ φ).Sound :=
  ⟨.empty, .empty⟩

/-- What a stream points to is there. -/
theorem Sound.load (fs : FileSystem φ ι) (h : self.Sound) (hctx : self.streams.get handle = some ctx) :
    ∃ s, self.coders.get ctx.strm.internal = some s ∧
      self.load fs ctx = .ok (ctx.withParts s (fs.get self.world ctx.stream)) := by
  obtain ⟨s, hs⟩ := h.coders.alive hctx rfl
  obtain ⟨_, hinner⟩ := h.inners.alive hctx rfl
  refine ⟨s, hs, ?_⟩
  simp only [StreamTable.load, hs, hinner, pure_eq_ok]

theorem Sound.save (fs : FileSystem φ ι) (h : self.Sound) (hctx : self.streams.get handle = some ctx)
    (ctx' : XzStreamCtx σ ι) :
    (self.save fs handle ctx ctx').Sound where
  coders := by
    have hsame : Owns (fun ctx => some ctx.strm.internal) (self.save fs handle ctx ctx').streams self.coders :=
      h.coders.set hctx rfl
    exact hsame.set_owned _ _
  inners := h.inners.set hctx rfl

/-- The end of a close releases what the stream owns, and the stream. -/
theorem Sound.release (fs : FileSystem φ ι) (h : self.Sound) (ctx : XzStreamCtx Nat Nat)
    (hctx : self.streams.get handle = some ctx₁) (hcoder : ctx₁.strm.internal = ctx.strm.internal)
    (hinner : ctx₁.stream = ctx.stream) :
    ∃ self', self.release fs handle ctx = .ok self' ∧ self'.Sound ∧
      self' = { self with
        world := fs.close self.world ctx.stream
        streams := self.streams.free handle
        coders := self.coders.free ctx.strm.internal
        inners := self.inners.free ctx.stream } := by
  obtain ⟨s, hs⟩ := h.coders.alive hctx (congrArg some hcoder)
  obtain ⟨_, hi⟩ := h.inners.alive hctx (congrArg some hinner)
  refine ⟨_, ?_, ⟨h.coders.free_both hctx (congrArg some hcoder),
    h.inners.free_both hctx (congrArg some hinner)⟩, rfl⟩
  simp only [StreamTable.release, lzmaEnd, closeInner, hs, hi, pure_eq_ok, ok_bind]

/-- **An operation.** Whatever happens in the buffers, what is owned is owned as before, or has been
released with the stream. -/
theorem call_sat (h : self.Sound) (op : XziopOp) (Q : XzStreamCtx σ ι → Prop) {F : MemoryFault → Prop}
    (hop : ∀ ctx s st, self.streams.get handle = some ctx →
      Sat (xziop L.coder fs.io fuel (ctx.withParts s st) op) (fun p => op.isClose = false → Q p.2) F) :
    Sat (self.call L fs fuel handle op)
      (fun p => p.2.Sound ∧ p.2.ini = self.ini ∧ ∀ i ctx', p.2.streams.get i = some ctx' →
        self.streams.get i = some ctx' ∨ ∃ ctx'' : XzStreamCtx σ ι, Q ctx'' ∧
          ctx' = ctx''.withParts ctx'.strm.internal ctx'.stream)
      (fun fault => ∃ m, fault = .memory m ∧ F m) := by
  unfold StreamTable.call
  split
  · exact ⟨h, rfl, fun i ctx' hi => Or.inl hi⟩
  · rename_i ctx hctx
    obtain ⟨s, -, hload⟩ := h.load fs hctx
    rw [hload, ok_bind]
    refine (sat_liftMemory (hop ctx s _ hctx)).bind ?_
    rintro ⟨ret, ctx'⟩ hQ
    have hsaved := h.save fs hctx ctx'
    have hget : (self.save fs handle ctx ctx').streams.get handle =
        some (ctx'.withParts ctx.strm.internal ctx.stream) := Store.get_set_self hctx
    cases hclose : op.isClose with
    | true =>
      obtain ⟨self', hrelease, hsound, rfl⟩ := hsaved.release fs ctx hget rfl rfl
      simp only [if_true, hrelease, ok_bind, pure_eq_ok]
      refine ⟨hsound, rfl, fun i ctx₂ hi => ?_⟩
      obtain ⟨hne, hi⟩ := Store.get_of_free hi
      exact Or.inl ((Store.get_set_of_ne hne).symm.trans hi)
    | false =>
      simp only [Bool.false_eq_true, if_false, ok_bind, pure_eq_ok]
      refine ⟨hsaved, rfl, fun i ctx₂ hi => ?_⟩
      rcases Store.eq_or_get_of_set hi with ⟨-, rfl, -⟩ | ⟨-, hi⟩
      · exact Or.inr ⟨ctx', hQ hclose, rfl⟩
      · exact Or.inl hi

/-! ## Opening -/

theorem add_sound (h : self.Sound) (ctx : XzStreamCtx σ φ) : (self.add ctx).Sound where
  coders := h.coders.alloc_both rfl
  inners := h.inners.alloc_both rfl

/-- The streams below are what they were. -/
theorem Sound.scratch (h : self.Sound) (world : φ) : Sound { self with
    world := world
    inners := (self.inners.alloc ()).free self.inners.next } where
  coders := h.coders
  inners := h.inners.congr fun _ => Store.get_free_alloc

theorem initCoder_isSome (L : Liblzma σ) (mode : List UInt8) (level mem : ZendLong) (inner : ι) (inner' : κ) :
    (initCoder L mode level mem inner).1.isSome = (initCoder L mode level mem inner').1.isSome := by
  simp only [initCoder, phpXzInitEncoder, phpXzInitDecoder]
  split
  · cases phpXzEncoderInitStream L (castUInt32 level) <;> rfl
  · split
    · cases phpXzDecoderInitStream L (castUInt64 mem) <;> rfl
    · rfl

/-- A coder is that of a stream opened for writing, or of one opened for reading. -/
theorem initCoder_some {mode : List UInt8} {level mem : ZendLong} {inner : ι} {ctx : XzStreamCtx σ ι}
    (h : (initCoder L mode level mem inner).1 = some ctx) :
    (isWriteMode mode = true ∧ phpXzInitEncoder L (castUInt32 level) inner = some ctx) ∨
      (isReadMode mode = true ∧ phpXzInitDecoder L (castUInt64 mem) inner = some ctx) := by
  unfold initCoder at h
  split at h
  · rename_i hwrite
    split at h
    · cases h
    · rename_i hself
      exact Or.inl ⟨hwrite, hself.trans h⟩
  · split at h
    · rename_i hread
      split at h
      · cases h
      · rename_i hself
        exact Or.inr ⟨hread, hself.trans h⟩
    · cases h

theorem initCoder_opened {mode : List UInt8} {level mem : ZendLong} {inner : ι} {ctx : XzStreamCtx σ ι}
    (h : (initCoder L mode level mem inner).1 = some ctx) : XzOpened L ctx := by
  rcases initCoder_some h with ⟨-, h⟩ | ⟨-, h⟩
  · exact .encoder h
  · exact .decoder h

/-- The context is one around the stream below that was opened. -/
theorem initCoder_stream {mode : List UInt8} {level mem : ZendLong} {inner : ι} {ctx : XzStreamCtx σ ι}
    (h : (initCoder L mode level mem inner).1 = some ctx) : ctx.stream = inner := by
  rcases initCoder_some h with ⟨-, h⟩ | ⟨-, h⟩
  · obtain ⟨s, -, rfl⟩ := Option.map_eq_some_iff.mp h
    rfl
  · obtain ⟨s, -, rfl⟩ := Option.map_eq_some_iff.mp h
    rfl

/-- The last exits release the context, and the close that follows accesses it. -/
theorem replayEvents_initCoder (fs : FileSystem φ ι) {path mode mode' : List UInt8} {level mem : ZendLong}
    {id : Nat} {inner : κ} (hnone : (initCoder L mode level mem inner).1 = none) (self : StreamTable σ φ) :
    (initCoder L mode level mem inner).2.foldlM (replayEvent fs id path mode') (true, self) =
      .error (.fault .contextReleased) := by
  unfold initCoder at hnone ⊢
  split
  · rename_i hwrite
    rw [if_pos hwrite] at hnone
    split
    · cases (L.lzmaLzmaPreset (castUInt32 level)).isSome <;> rfl
    · rename_i hself
      rw [hself] at hnone
      cases hnone
  · rename_i hwrite
    rw [if_neg hwrite] at hnone
    split
    · rename_i hread
      rw [if_pos hread] at hnone
      split
      · rfl
      · rename_i hself
        rw [hself] at hnone
        cases hnone
    · rfl

theorem replay_initialised (fs : FileSystem φ ι) {path mode mode' : List UInt8} {level mem : ZendLong}
    {id : Nat} {inner : κ} (hnone : (initCoder L mode level mem inner).1 = none) :
    self.replay fs id path mode' ([.openInner true, .allocCtx, .accessCtx] ++
      (initCoder L mode level mem inner).2) = .error (.fault .contextReleased) := by
  show ((initCoder L mode level mem inner).2.foldlM (replayEvent fs id path mode') (true, _) >>= _) = _
  rw [replayEvents_initCoder fs hnone, error_bind]

/-- The exits between the early checks and the last ones close the stream below. -/
theorem replay_unprepared (fs : FileSystem φ ι) {path mode : List UInt8} {ledger : List OpenEvent}
    (h : ledger = [.openInner true, .closeInner] ∨ ledger =
      [.openInner true, .allocCtx, .accessCtx, .releaseCtx, .report .allocFailed, .closeInner]) :
    self.replay fs self.inners.next path mode ledger = .ok { self with
      world := fs.close ((fs.openWrapper self.world self.inners.next path mode).getD self.world)
        self.inners.next
      inners := (self.inners.alloc ()).free self.inners.next } := by
  rcases h with rfl | rfl <;>
    simp [replay, replayEvent, closeInner, List.foldlM_cons, pure_eq_ok, ok_bind]

/-- **An open.** The new stream is ready to be used in its direction; the others are as they were. -/
theorem xzopenStream_sat (h : self.Sound) (path modePass : List UInt8) (context : Option XzContext) :
    Sat (self.xzopenStream L fs path modePass context)
      (fun p => p.2.Sound ∧ p.2.ini = self.ini ∧ ∀ i ctx', p.2.streams.get i = some ctx' →
        self.streams.get i = some ctx' ∨ ctx'.Directed)
      (fun fault => fault = .contextReleased ∧ NoCoder L self.ini ⟨path, modePass, context⟩) := by
  have hcases := phpStreamXzopen_cases L (fs.layer self.world self.inners.next) self.ini path modePass context
  unfold xzopenStream
  generalize phpStreamXzopen L (fs.layer self.world self.inners.next) self.ini path modePass context = res
    at hcases
  cases hcases with
  | refused early => exact ⟨h, rfl, fun _ _ hi => Or.inl hi⟩
  | notOpened => exact ⟨h, rfl, fun _ _ hi => Or.inl hi⟩
  | notCast =>
    rw [opened, replay_unprepared fs (Or.inl rfl), ok_bind]
    exact ⟨h.scratch _, rfl, fun _ _ hi => Or.inl hi⟩
  | notAllocated =>
    rw [opened, replay_unprepared fs (Or.inr rfl), ok_bind]
    exact ⟨h.scratch _, rfl, fun _ _ hi => Or.inl hi⟩
  | @initialised inner checked prepared =>
    cases hself : (initCoder L (openMode modePass) (levelUsed self.ini modePass context)
        (memUsed self.ini context) inner).1 with
    | some ctx =>
      refine ⟨add_sound h ctx, rfl, fun i ctx' hi => ?_⟩
      rcases Store.eq_or_get_of_alloc hi with ⟨-, rfl⟩ | ⟨-, hi⟩
      · exact Or.inr ((xzOpened_directed (initCoder_opened hself)).withParts _ _)
      · exact Or.inl hi
    | none =>
      rw [opened, replay_initialised fs hself, error_bind]
      refine ⟨rfl, checked, ?_⟩
      rw [OpenRequest.makeCtx, ← Option.isNone_iff_eq_none, ← Option.not_isSome,
        initCoder_isSome L _ _ _ () inner, hself]
      rfl

end StreamTable

/-! ## Scripts -/

/-- An open that gets past its checks, and has no coder for what it opens. -/
def StreamOp.Abandons (L : Liblzma σ) (ini : Ini) (op : StreamOp) : Prop :=
  ∃ req, op.request ini = some req ∧ NoCoder L ini req

/-- A step that does not use a stream against its direction. -/
def Along (table : StreamTable σ φ) : StreamOp → Prop
  | .call handle op => ∀ ctx, table.streams.get handle = some ctx → op.Along ctx
  | _ => True

section Runs

variable {L : Liblzma σ} {fs : FileSystem φ ι} {table : StreamTable σ φ} {fuel : Nat}

/-- **One step.** -/
theorem streamOp_sat (h : table.Sound) (op : StreamOp) :
    Sat (streamOp L fs fuel table op)
      (fun p => p.2.Sound ∧ p.2.ini.maxMemory = table.ini.maxMemory)
      (fun fault => (∃ m, fault = .memory m) ∨ (fault = .contextReleased ∧ op.Abandons L table.ini)) := by
  cases op with
  | xzopen filename mode level =>
    refine (StreamTable.xzopenStream_sat h _ _ _).weaken (fun p hp => ⟨hp.1, by rw [hp.2.1]⟩) ?_
    exact fun _ hfault => Or.inr ⟨hfault.1, _, rfl, hfault.2⟩
  | fopen path mode context =>
    refine (StreamTable.xzopenStream_sat h _ _ _).weaken (fun p hp => ⟨hp.1, by rw [hp.2.1]⟩) ?_
    exact fun _ hfault => Or.inr ⟨hfault.1, _, rfl, hfault.2⟩
  | call handle op =>
    have hany : ∀ ctx s st, table.streams.get handle = some ctx →
        Sat (xziop L.coder fs.io fuel (ctx.withParts s st) op) (fun _ => op.isClose = false → True)
          fun _ => True := fun _ _ _ _ => (sat_any _).mono fun _ _ _ => trivial
    refine (StreamTable.call_sat h op (fun _ => True) hany).weaken (fun p hp => ⟨hp.1, by rw [hp.2.1]⟩) ?_
    exact fun _ hfault => Or.inl (hfault.imp fun _ hm => hm.1)
  | setCompressionLevel level => exact ⟨⟨h.coders, h.inners⟩, rfl⟩

/-- **One step in the direction of its stream.** -/
theorem streamOp_along (h : table.Sound) (hdirected : ∀ i ctx, table.streams.get i = some ctx → ctx.Directed)
    {op : StreamOp} (hop : Along table op) :
    Sat (streamOp L fs fuel table op)
      (fun p => p.2.Sound ∧ ∀ i ctx, p.2.streams.get i = some ctx → ctx.Directed)
      (fun fault => ∀ m, fault = .memory m → m = .copyPastInBuf) := by
  have hopened : ∀ path modePass context, Sat (table.xzopenStream L fs path modePass context)
      (fun p => p.2.Sound ∧ ∀ i ctx, p.2.streams.get i = some ctx → ctx.Directed)
      (fun fault => ∀ m, fault = .memory m → m = .copyPastInBuf) := by
    intro path modePass context
    refine (StreamTable.xzopenStream_sat h path modePass context).weaken ?_ ?_
    · exact fun p hp => ⟨hp.1, fun i ctx hi => (hp.2.2 i ctx hi).elim (hdirected i ctx) id⟩
    · rintro _ ⟨rfl, -⟩ m hm
      cases hm
  cases op with
  | xzopen filename mode level => exact hopened _ _ _
  | fopen path mode context => exact hopened _ _ _
  | call handle op =>
    refine (StreamTable.call_sat h op XzStreamCtx.Directed fun ctx s st hctx =>
      xziop_directed ((hdirected handle ctx hctx).withParts s st) (hop ctx hctx)).weaken ?_ ?_
    · refine fun p hp => ⟨hp.1, fun i ctx hi => ?_⟩
      rcases hp.2.2 i ctx hi with hold | ⟨ctx', hctx', heq⟩
      · exact hdirected i ctx hold
      · rw [heq]
        exact hctx'.withParts _ _
    · rintro _ ⟨m, rfl, hm⟩ m' hm'
      obtain rfl := StreamFault.memory.inj hm'
      exact hm
  | setCompressionLevel level => exact ⟨⟨h.coders, h.inners⟩, hdirected⟩

/-- **Streams own what they use**, in every script, whatever the coders and the streams below do. After every
run each coder and each stream below belongs to one stream, and those of each stream are there; once all
streams are closed, nothing is left. No run uses or releases anything that has been released, but for the
context of an open that gets past its checks and has no coder; and in a script that uses each stream in
its own direction, no operation leaves its buffers but a write that copies more into `in_buf` than fits. -/
theorem streamRun_sound (L : Liblzma σ) (fs : FileSystem φ ι) (ini : Ini) (world : φ) (fuel : Nat)
    (ops : List StreamOp) :
    Sat (streamRun L fs fuel (.start ini world) ops)
      (fun p => p.2.Sound ∧ ((∀ handle, p.2.streams.get handle = none) →
        (∀ coder, p.2.coders.get coder = none) ∧ ∀ inner, p.2.inners.get inner = none))
      (fun fault => ((∃ m, fault = .memory m) ∨
          (fault = .contextReleased ∧ ∃ op ∈ ops, ∃ level, op.Abandons L ⟨level, ini.maxMemory⟩)) ∧
        (Admitted (streamOp L fs fuel) Along (.start ini world) ops →
          ∀ m, fault = .memory m → m = .copyPastInBuf)) := by
  have hstart : (StreamTable.start ini world : StreamTable σ φ).Sound := StreamTable.start_sound ini world
  have hall : Admitted (streamOp L fs fuel) (fun _ op => op ∈ ops) (.start ini world) ops :=
    admitted_of_forall fun _ _ hmem => hmem
  have howned : Sat (streamRun L fs fuel (.start ini world) ops)
      (fun p => p.2.Sound ∧ p.2.ini.maxMemory = ini.maxMemory)
      (fun fault => (∃ m, fault = .memory m) ∨
        (fault = .contextReleased ∧ ∃ op ∈ ops, ∃ level, op.Abandons L ⟨level, ini.maxMemory⟩)) := by
    refine perform_sat_of_admitted (fun table => table.Sound ∧ table.ini.maxMemory = ini.maxMemory) ?_
      ⟨hstart, rfl⟩ hall
    intro table op htable hmem
    refine (streamOp_sat htable.1 op).weaken (fun p hp => ⟨hp.1, hp.2.trans htable.2⟩) fun fault hfault => ?_
    refine hfault.imp_right fun habandons => ⟨habandons.1, op, hmem, table.ini.compressionLevel, ?_⟩
    rw [← htable.2]
    exact habandons.2
  have hbuffers : Sat (streamRun L fs fuel (.start ini world) ops) (fun _ => True)
      (fun fault => Admitted (streamOp L fs fuel) Along (.start ini world) ops →
        ∀ m, fault = .memory m → m = .copyPastInBuf) := by
    by_cases halong : Admitted (streamOp L fs fuel) Along (.start ini world) ops
    · refine (perform_sat_of_admitted
        (fun table => table.Sound ∧ ∀ i ctx, table.streams.get i = some ctx → ctx.Directed) ?_
        ⟨hstart, fun _ _ h => by cases h⟩ halong).weaken (fun _ _ => trivial) fun _ h _ => h
      exact fun table op htable hop => streamOp_along htable.1 htable.2 hop
    · exact (sat_any _).weaken (fun _ _ => trivial) fun _ _ h => absurd h halong
  refine (howned.fault_and hbuffers).mono fun p hp => ⟨hp.1, fun hnone => ?_⟩
  exact ⟨hp.1.coders.none_left hnone, hp.1.inners.none_left hnone⟩

end Runs

end PhpExtXz
