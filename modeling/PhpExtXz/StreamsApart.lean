/-
# PhpExtXz.StreamsApart — streams do not disturb each other.

The streams below share the files. What one of them does shows to another one where it writes to the file
that the other one has open, and nowhere else (`OpenFiles`). So a stream of a script, with its coder and
the stream below it, is a component of the process as long as no other stream writes to its file: in every
script it goes through the run that its operations are for it alone (`stream_alone`).

With that, whatever holds of all runs on one stream holds of each stream of a script.
-/
import Mathlib.Logic.Function.Basic
import PhpExtXz.StreamsOwned

namespace PhpExtXz

open FuelLoop Runs XzStreamCtx

variable {σ τ ι κ φ : Type}

/-! ## Files -/

/-- **Which file each stream below has open**, and whether it writes to it. Streams below do not see each
other, unless the one writes to the file of the other. -/
structure OpenFiles (fs : FileSystem φ ι) (File : Type) where
  fileOf : (path : List UInt8) → File
  file : φ → Nat → File
  writes : φ → Nat → Bool
  get_put : ∀ world i st, fs.get (fs.put world i st) i = st
  get_put_of_ne : ∀ {world i j} st, j ≠ i → (writes world i = true → file world i ≠ file world j) →
    fs.get (fs.put world i st) j = fs.get world j
  put : ∀ world i st j,
    file (fs.put world i st) j = file world j ∧ writes (fs.put world i st) j = writes world j
  opened : ∀ {world i path mode world'}, fs.openWrapper world i path mode = some world' →
    file world' i = fileOf path ∧ writes world' i = !isReadMode mode
  opened_of_ne : ∀ {world i path mode world' j}, fs.openWrapper world i path mode = some world' → j ≠ i →
    file world' j = file world j ∧ writes world' j = writes world j
  get_opened : ∀ {world i path mode world' j}, fs.openWrapper world i path mode = some world' → j ≠ i →
    (isReadMode mode = false → fileOf path ≠ file world j) → fs.get world' j = fs.get world j
  closed : ∀ world {i j}, j ≠ i → file (fs.close world i) j = file world j ∧
    writes (fs.close world i) j = writes world j ∧ fs.get (fs.close world i) j = fs.get world j

namespace StreamTable

/-- A stream with its coder and the stream below it. -/
def view (fs : FileSystem φ ι) (table : StreamTable σ φ) (handle : Nat) : Option (XzStreamCtx σ ι) :=
  (table.streams.get handle).bind fun ctx =>
    (table.coders.get ctx.strm.internal).map fun s => ctx.withParts s (fs.get table.world ctx.stream)

/-- The streams of `table` that are open are sound, `handle` has the file `f` open, and no other one
writes to it. -/
structure Quiet {fs : FileSystem φ ι} {File : Type} (O : OpenFiles fs File) (handle : Nat) (f : File)
    (table : StreamTable σ φ) : Prop where
  sound : table.Sound
  own : ∀ {ctx}, table.streams.get handle = some ctx → O.file table.world ctx.stream = f
  others : ∀ {i ctx}, i ≠ handle → table.streams.get i = some ctx →
    O.writes table.world ctx.stream = true → O.file table.world ctx.stream ≠ f

variable {L : Liblzma σ} {fs : FileSystem φ ι} {File : Type} {O : OpenFiles fs File}
  {table table' : StreamTable σ φ}
  {fuel handle i : Nat} {f : File} {ctx : XzStreamCtx σ ι} {op : XziopOp} {ret : StreamReturn}

/-! ## What a step does -/

theorem liftMemory_eq_ok {α : Type} {x : Exec MemoryFault α} {a : α} : liftMemory x = .ok a ↔ x = .ok a := by
  cases x with
  | ok b => exact ⟨fun h => congrArg _ (Except.ok.inj h), fun h => congrArg _ (Except.ok.inj h)⟩
  | error e => cases e <;> simp [liftMemory]

/-- **What a call does**: nothing where there is no stream, else the operation, and the release of the
stream after a close. -/
theorem Sound.call_cases (h : table.Sound) (hcall : table.call L fs fuel i op = .ok (ret, table')) :
    (table.streams.get i = none ∧ table' = table) ∨
    ∃ before s r ctx', table.streams.get i = some before ∧ table.coders.get before.strm.internal = some s ∧
      xziop L.coder fs.io fuel (before.withParts s (fs.get table.world before.stream)) op = .ok (r, ctx') ∧
      ret = .did r ∧
      (op.isClose = false ∧ table' = table.save fs i before ctx' ∨
        op.isClose = true ∧ (table.save fs i before ctx').release fs i before = .ok table') := by
  unfold StreamTable.call at hcall
  cases hbefore : table.streams.get i with
  | none =>
    simp only [hbefore, pure_eq_ok] at hcall
    cases hcall
    exact Or.inl ⟨rfl, rfl⟩
  | some before =>
    obtain ⟨s, hs, hload⟩ := h.load fs hbefore
    simp only [hbefore, hload, ok_bind] at hcall
    obtain ⟨⟨r, ctx'⟩, hop, hrest⟩ := bind_eq_ok.mp hcall
    refine Or.inr ⟨before, s, r, ctx', rfl, hs, liftMemory_eq_ok.mp hop, ?_⟩
    cases hclose : op.isClose with
    | false =>
      simp only [hclose, Bool.false_eq_true, if_false, pure_eq_ok, ok_bind] at hrest
      cases hrest
      exact ⟨rfl, Or.inl ⟨rfl, rfl⟩⟩
    | true =>
      simp only [hclose, if_true] at hrest
      obtain ⟨closed, hrelease, hpure⟩ := bind_eq_ok.mp hrest
      cases hpure
      exact ⟨rfl, Or.inr ⟨rfl, hrelease⟩⟩

/-- **An operation on the stream** is one on it alone. -/
theorem view_call (O : OpenFiles fs File) (h : table.Sound) (hview : table.view fs handle = some ctx)
    (hclose : op.isClose = false) (hcall : table.call L fs fuel handle op = .ok (ret, table')) :
    ∃ r ctx', xziop L.coder fs.io fuel ctx op = .ok (r, ctx') ∧ ret = .did r ∧
      table'.view fs handle = some ctx' := by
  obtain ⟨before, hbefore, hmap⟩ := Option.bind_eq_some_iff.mp hview
  obtain ⟨s, hs, rfl⟩ := Option.map_eq_some_iff.mp hmap
  rcases h.call_cases hcall with ⟨hnone, -⟩ | ⟨before', s', r, ctx', hbefore', hs', hop, rfl, hend⟩
  · rw [hbefore] at hnone
    cases hnone
  obtain rfl := Option.some.inj (hbefore.symm.trans hbefore')
  obtain rfl := Option.some.inj (hs.symm.trans hs')
  refine ⟨r, ctx', hop, rfl, ?_⟩
  rcases hend with ⟨-, rfl⟩ | ⟨htrue, -⟩
  · refine Option.bind_eq_some_iff.mpr ⟨_, Store.get_set_self hbefore, ?_⟩
    refine Option.map_eq_some_iff.mpr ⟨_, Store.get_set_self hs, ?_⟩
    show ctx'.withParts ctx'.strm.internal
      (fs.get (fs.put table.world before.stream ctx'.stream) before.stream) = ctx'
    rw [O.get_put]
    rfl
  · rw [hclose] at htrue
    cases htrue

/-- **What an open does**: a new stream, or nothing but that a stream below was opened and closed. -/
theorem xzopenStream_cases {path modePass : List UInt8} {context : Option XzContext}
    (hopen : table.xzopenStream L fs path modePass context = .ok (ret, table')) :
    (∃ world ctx, fs.openWrapper table.world table.inners.next (openPath path) (openMode modePass) = some world ∧
      (initCoder L (openMode modePass) (levelUsed table.ini modePass context) (memUsed table.ini context)
        world).1 = some ctx ∧ ret = .stream table.streams.next ∧ table' = table.add ctx) ∨
    (∃ messages, ret = .returnFalse messages ∧ (table' = table ∨
      ∃ world, fs.openWrapper table.world table.inners.next (openPath path) (openMode modePass) = some world ∧
        table' = { table with
        world := fs.close world table.inners.next
        inners := (table.inners.alloc ()).free table.inners.next })) := by
  have hrefused : ∀ {ledger}, table.opened fs path modePass (none, ledger) = .ok (ret, table') →
      table.replay fs table.inners.next (openPath path) (openMode modePass) ledger = .ok table →
      ∃ messages, ret = .returnFalse messages ∧ table' = table := by
    intro ledger hopened hreplay
    rw [opened, hreplay, ok_bind] at hopened
    cases hopened
    exact ⟨_, rfl, rfl⟩
  have hclosed : ∀ {ledger world}, table.opened fs path modePass (none, ledger) = .ok (ret, table') →
      fs.openWrapper table.world table.inners.next (openPath path) (openMode modePass) = some world →
      (ledger = [.openInner true, .closeInner] ∨ ledger =
        [.openInner true, .allocCtx, .accessCtx, .releaseCtx, .report .allocFailed, .closeInner]) →
      ∃ messages, ret = .returnFalse messages ∧ table' = { table with
        world := fs.close world table.inners.next
        inners := (table.inners.alloc ()).free table.inners.next } := by
    intro ledger world hopened hworld hledger
    rw [opened, replay_unprepared fs hledger, ok_bind, hworld] at hopened
    cases hopened
    exact ⟨_, rfl, rfl⟩
  dsimp only [xzopenStream, phpStreamXzopen] at hopen
  split at hopen
  · obtain ⟨reports, hret, htable⟩ := hrefused hopen rfl
    exact Or.inr ⟨reports, hret, Or.inl htable⟩
  split at hopen
  · obtain ⟨reports, hret, htable⟩ := hrefused hopen rfl
    exact Or.inr ⟨reports, hret, Or.inl htable⟩
  split at hopen
  · obtain ⟨reports, hret, htable⟩ := hrefused hopen rfl
    exact Or.inr ⟨reports, hret, Or.inl htable⟩
  rename_i world hworld
  split at hopen
  · split at hopen
    · have hinit : table.opened fs path modePass
          ((initCoder L (openMode modePass) (levelUsed table.ini modePass context) (memUsed table.ini context)
            world).1, [.openInner true, .allocCtx, .accessCtx] ++ (initCoder L (openMode modePass)
              (levelUsed table.ini modePass context) (memUsed table.ini context) world).2) =
          .ok (ret, table') := hopen
      cases hself : (initCoder L (openMode modePass) (levelUsed table.ini modePass context)
        (memUsed table.ini context) world).1 with
      | some ctx =>
        rw [hself] at hinit
        cases hinit
        exact Or.inl ⟨world, ctx, hworld, hself, rfl, rfl⟩
      | none =>
        rw [hself, opened, replay_initialised fs hself, error_bind] at hinit
        cases hinit
    · obtain ⟨reports, hret, htable⟩ := hclosed hopen hworld (Or.inr rfl)
      exact Or.inr ⟨reports, hret, Or.inr ⟨world, hworld, htable⟩⟩
  · obtain ⟨reports, hret, htable⟩ := hclosed hopen hworld (Or.inl rfl)
    exact Or.inr ⟨reports, hret, Or.inr ⟨world, hworld, htable⟩⟩

/-! ## What a step leaves alone -/

/-- A stream below that has not been given out yet is not that of a stream. -/
theorem Sound.stream_ne_next (h : table.Sound) {before : XzStreamCtx Nat Nat}
    (hbefore : table.streams.get i = some before) : before.stream ≠ table.inners.next := by
  intro heq
  obtain ⟨_, hinner⟩ := h.inners.alive hbefore rfl
  rw [heq, Store.get_next] at hinner
  cases hinner

theorem Sound.coder_ne_next (h : table.Sound) {before : XzStreamCtx Nat Nat}
    (hbefore : table.streams.get i = some before) : before.strm.internal ≠ table.coders.next := by
  intro heq
  obtain ⟨_, hcoder⟩ := h.coders.alive hbefore rfl
  rw [heq, Store.get_next] at hcoder
  cases hcoder

/-- The stream `handle`, its coder and the stream below it are in `table'` what they were in `table`. -/
structure Untouched (fs : FileSystem φ ι) (handle : Nat) (table table' : StreamTable σ φ) : Prop where
  stream : ∀ {before}, table.streams.get handle = some before → table'.streams.get handle = some before ∧
    table'.coders.get before.strm.internal = table.coders.get before.strm.internal ∧
    fs.get table'.world before.stream = fs.get table.world before.stream

theorem Untouched.view (h : Untouched fs handle table table') (hview : table.view fs handle = some ctx) :
    table'.view fs handle = some ctx := by
  obtain ⟨before, hbefore, hmap⟩ := Option.bind_eq_some_iff.mp hview
  obtain ⟨hstream, hcoder, hstate⟩ := h.stream hbefore
  refine Option.bind_eq_some_iff.mpr ⟨before, hstream, ?_⟩
  rw [hcoder, hstate]
  exact hmap

theorem Untouched.trans {table'' : StreamTable σ φ} (h : Untouched fs handle table table')
    (h' : Untouched fs handle table' table'') : Untouched fs handle table table'' where
  stream hbefore := by
    obtain ⟨hstream, hcoder, hstate⟩ := h.stream hbefore
    obtain ⟨hstream', hcoder', hstate'⟩ := h'.stream hstream
    exact ⟨hstream', hcoder'.trans hcoder, hstate'.trans hstate⟩

theorem Untouched.refl (fs : FileSystem φ ι) (handle : Nat) (table : StreamTable σ φ) :
    Untouched fs handle table table := ⟨fun hbefore => ⟨hbefore, rfl, rfl⟩⟩

/-- An operation on any stream leaves the files open as they were. -/
theorem Quiet.save (h : table.Quiet O handle f) {before : XzStreamCtx Nat Nat}
    (hbefore : table.streams.get i = some before) (ctx' : XzStreamCtx σ ι) :
    (table.save fs i before ctx').Quiet O handle f where
  sound := h.sound.save fs hbefore ctx'
  own {ctx} hctx := by
    refine (O.put _ _ _ _).1.trans ?_
    rcases Store.eq_or_get_of_set hctx with ⟨rfl, rfl, -⟩ | ⟨-, hctx⟩
    · show O.file table.world before.stream = f
      exact h.own hbefore
    · exact h.own hctx
  others {j ctx} hne hctx hwrites := by
    obtain ⟨hfile, hsame⟩ := O.put table.world before.stream ctx'.stream ctx.stream
    have hwrites' : O.writes table.world ctx.stream = true := hsame.symm.trans hwrites
    show O.file (fs.put table.world before.stream ctx'.stream) ctx.stream ≠ f
    rw [hfile]
    rcases Store.eq_or_get_of_set hctx with ⟨rfl, rfl, -⟩ | ⟨-, hctx⟩
    · have hold := h.others hne hbefore
      exact hold hwrites'
    · exact h.others hne hctx hwrites'

/-- One on another stream does not touch this one. -/
theorem Quiet.untouched_save (h : table.Quiet O handle f) (hne : i ≠ handle) {before : XzStreamCtx Nat Nat}
    (hbefore : table.streams.get i = some before) (ctx' : XzStreamCtx σ ι) :
    Untouched fs handle table (table.save fs i before ctx') where
  stream {own} hown := by
    refine ⟨(Store.get_set_of_ne hne.symm).trans hown, Store.get_set_of_ne ?_, O.get_put_of_ne _ ?_ ?_⟩
    · exact fun heq => hne (h.sound.coders.sole hbefore hown rfl (congrArg some heq))
    · exact fun heq => hne (h.sound.inners.sole hbefore hown rfl (congrArg some heq))
    · intro hwrites
      rw [h.own hown]
      exact h.others hne hbefore hwrites

/-- Nor does the release of another stream. -/
theorem Quiet.release (h : table.Quiet O handle f) (hne : i ≠ handle) {before ctx₁ : XzStreamCtx Nat Nat}
    (hctx₁ : table.streams.get i = some ctx₁) (hcoder : ctx₁.strm.internal = before.strm.internal)
    (hinner : ctx₁.stream = before.stream) (hrelease : table.release fs i before = .ok table') :
    table'.Quiet O handle f ∧ Untouched fs handle table table' := by
  obtain ⟨closed, hclosed, hsound, rfl⟩ := h.sound.release fs before hctx₁ hcoder hinner
  obtain rfl := Except.ok.inj (hclosed.symm.trans hrelease)
  have hapart : ∀ {j ctx}, j ≠ i → table.streams.get j = some ctx → ctx.stream ≠ before.stream := by
    intro j ctx hj hctx heq
    exact hj (h.sound.inners.sole hctx hctx₁ rfl (congrArg some (hinner.trans heq.symm)))
  refine ⟨⟨hsound, ?_, ?_⟩, ⟨?_⟩⟩
  · intro ctx hctx
    obtain ⟨hji, hctx⟩ := Store.get_of_free hctx
    exact (O.closed _ (hapart hji hctx)).1.trans (h.own hctx)
  · intro j ctx hj hctx hwrites
    obtain ⟨hji, hctx⟩ := Store.get_of_free hctx
    obtain ⟨hfile, hwrites', -⟩ := O.closed table.world (hapart hji hctx)
    rw [hwrites'] at hwrites
    rw [hfile]
    exact h.others hj hctx hwrites
  · intro own hown
    refine ⟨(Store.get_free_of_ne hne.symm).trans hown, Store.get_free_of_ne ?_,
      (O.closed _ (hapart hne.symm hown)).2.2⟩
    exact fun heq => hne (h.sound.coders.sole hctx₁ hown (congrArg some hcoder) (congrArg some heq))

/-- A new stream that does not write to the file, and the others. -/
theorem Quiet.add (h : table.Quiet O handle f) (hhandle : handle < table.streams.next)
    {path mode : List UInt8} {world : φ} {new : XzStreamCtx σ φ}
    (hopen : fs.openWrapper table.world table.inners.next path mode = some world) (hnew : new.stream = world)
    (hspares : isReadMode mode = false → O.fileOf path ≠ f) :
    (table.add new).Quiet O handle f ∧ Untouched fs handle table (table.add new) := by
  have hold : handle ≠ table.streams.next := Nat.ne_of_lt hhandle
  obtain ⟨hfile, hwrites⟩ := O.opened hopen
  subst hnew
  refine ⟨⟨add_sound h.sound new, ?_, ?_⟩, ⟨?_⟩⟩
  · intro ctx hctx
    rw [show (table.add new).streams.get handle = _ from Store.get_alloc_of_ne hold] at hctx
    exact (O.opened_of_ne hopen (h.sound.stream_ne_next hctx)).1.trans (h.own hctx)
  · intro j ctx hj hctx hwrites'
    rcases Store.eq_or_get_of_alloc hctx with ⟨-, rfl⟩ | ⟨-, hctx⟩
    · have hmode : isReadMode mode = false := by simpa using hwrites.symm.trans hwrites'
      exact fun heq => hspares hmode (hfile.symm.trans heq)
    · obtain ⟨hsame, hsame'⟩ := O.opened_of_ne hopen (h.sound.stream_ne_next hctx)
      exact fun heq => h.others hj hctx (hsame'.symm.trans hwrites') (hsame.symm.trans heq)
  · intro own hown
    refine ⟨(Store.get_alloc_of_ne hold).trans hown, Store.get_alloc_of_ne (h.sound.coder_ne_next hown),
      O.get_opened hopen (h.sound.stream_ne_next hown) ?_⟩
    rw [h.own hown]
    exact hspares

/-- A file that was opened and closed. -/
theorem Quiet.scratch (h : table.Quiet O handle f) {path mode : List UInt8} {world : φ}
    (hopen : fs.openWrapper table.world table.inners.next path mode = some world)
    (hspares : isReadMode mode = false → O.fileOf path ≠ f)
    (htable : table' = { table with
      world := fs.close world table.inners.next
      inners := (table.inners.alloc ()).free table.inners.next }) :
    table'.Quiet O handle f ∧ Untouched fs handle table table' := by
  subst htable
  have hsame : ∀ {j ctx}, table.streams.get j = some ctx →
      O.file (fs.close world table.inners.next) ctx.stream = O.file table.world ctx.stream ∧
        O.writes (fs.close world table.inners.next) ctx.stream = O.writes table.world ctx.stream := by
    intro j ctx hctx
    have hne := h.sound.stream_ne_next hctx
    obtain ⟨hfile, hwrites, -⟩ := O.closed world hne
    obtain ⟨hfile', hwrites'⟩ := O.opened_of_ne hopen hne
    exact ⟨hfile.trans hfile', hwrites.trans hwrites'⟩
  refine ⟨⟨h.sound.scratch _, fun hctx => (hsame hctx).1.trans (h.own hctx), ?_⟩, ⟨?_⟩⟩
  · intro j ctx hj hctx hwrites heq
    exact h.others hj hctx ((hsame hctx).2.symm.trans hwrites) ((hsame hctx).1.symm.trans heq)
  · intro own hown
    have hne := h.sound.stream_ne_next hown
    refine ⟨hown, rfl, (O.closed world hne).2.2.trans (O.get_opened hopen hne ?_)⟩
    rw [h.own hown]
    exact hspares

/-- **An open** that does not write to the file. -/
theorem Quiet.xzopenStream (h : table.Quiet O handle f) (hhandle : handle < table.streams.next)
    {path modePass : List UInt8} {context : Option XzContext}
    (hspares : isReadMode (openMode modePass) = false → O.fileOf (openPath path) ≠ f)
    (hopen : table.xzopenStream L fs path modePass context = .ok (ret, table')) :
    table'.Quiet O handle f ∧ Untouched fs handle table table' := by
  rcases xzopenStream_cases hopen with
    ⟨world, new, hworld, hinit, -, rfl⟩ | ⟨-, -, rfl | ⟨world, hworld, htable⟩⟩
  · exact h.add hhandle hworld (initCoder_stream hinit) hspares
  · exact ⟨h, StreamTable.Untouched.refl _ _ _⟩
  · exact h.scratch hworld hspares htable

/-- **An operation on another stream**, also one that closes it. -/
theorem Quiet.call (h : table.Quiet O handle f) (hne : i ≠ handle)
    (hcall : table.call L fs fuel i op = .ok (ret, table')) :
    table'.Quiet O handle f ∧ Untouched fs handle table table' := by
  rcases h.sound.call_cases hcall with ⟨-, rfl⟩ | ⟨before, s, r, ctx', hbefore, -, -, -, hend⟩
  · exact ⟨h, StreamTable.Untouched.refl _ _ _⟩
  have hsaved := h.save hbefore ctx'
  have huntouched := h.untouched_save hne hbefore ctx'
  rcases hend with ⟨-, rfl⟩ | ⟨-, hrelease⟩
  · exact ⟨hsaved, huntouched⟩
  · obtain ⟨hquiet, hrest⟩ := hsaved.release hne (Store.get_set_self hbefore) rfl rfl hrelease
    exact ⟨hquiet, huntouched.trans hrest⟩

end StreamTable

/-! ## A stream is a component of its process -/

/-- The operations of a script on the stream `handle`, but for its close. -/
def callsOn (handle : Nat) : StreamOp → Option XziopOp
  | .call handle' op => if handle' = handle ∧ op.isClose = false then some op else none
  | _ => none

theorem callsOn_eq_some {handle : Nat} {op : StreamOp} {o : XziopOp} (h : callsOn handle op = some o) :
    op = .call handle o ∧ o.isClose = false := by
  cases op with
  | call i op =>
    rw [callsOn] at h
    split at h
    · rename_i hop
      cases h
      exact ⟨by rw [hop.1], hop.2⟩
    · cases h
  | _ => cases h

section Component

variable {L : Liblzma σ} {fs : FileSystem φ ι} {File : Type}

/-- A step that does not open the file `f` for writing. -/
def SparesFile (O : OpenFiles fs File) (f : File) (op : StreamOp) : Prop :=
  ∀ ini req, op.request ini = some req → isReadMode (openMode req.modePass) = false →
    O.fileOf (openPath req.path) ≠ f

/-- One that does not close the stream `handle` either. -/
def Spares (O : OpenFiles fs File) (handle : Nat) (f : File) (op : StreamOp) : Prop :=
  SparesFile O f op ∧ op ≠ .call handle .close

/-- An operation on one stream, as a step of a script. -/
def streamPart (L : Liblzma σ) (io : Inner ι) (fuel : Nat) (ctx : XzStreamCtx σ ι) (op : XziopOp) :
    Exec MemoryFault (StreamReturn × XzStreamCtx σ ι) :=
  xziop L.coder io fuel ctx op >>= fun p => .ok (.did p.1, p.2)

/-- Whatever is not an operation on a stream, its close, or an open that writes to its file, leaves it alone. -/
theorem streamOp_untouched {O : OpenFiles fs File} {handle fuel : Nat} {f : File}
    {table table' : StreamTable σ φ}
    {op : StreamOp} {ret : StreamReturn} (h : table.Quiet O handle f)
    (hhandle : handle < table.streams.next) (hcalls : callsOn handle op = none) (hspares : Spares O handle f op)
    (hop : streamOp L fs fuel table op = .ok (ret, table')) :
    table'.Quiet O handle f ∧ StreamTable.Untouched fs handle table table' := by
  cases op with
  | xzopen filename mode level => exact h.xzopenStream hhandle (hspares.1 table.ini _ rfl) hop
  | fopen path mode context => exact h.xzopenStream hhandle (hspares.1 table.ini _ rfl) hop
  | call i op =>
    have hne : i ≠ handle := by
      rintro rfl
      cases op with
      | close => exact hspares.2 rfl
      | _ => cases (if_pos ⟨rfl, rfl⟩).symm.trans hcalls
    exact h.call hne hop
  | setCompressionLevel level =>
    cases hop
    exact ⟨⟨⟨h.sound.coders, h.sound.inners⟩, h.own, h.others⟩, ⟨fun hbefore => ⟨hbefore, rfl, rfl⟩⟩⟩

/-- **A stream is a component of its process.** -/
theorem streamComponent (O : OpenFiles fs File) (handle : Nat) (f : File) (fuel : Nat) :
    Component (streamOp L fs fuel) (streamPart L fs.io fuel)
      (fun table => table.Quiet O handle f ∧ (table.streams.get handle).isSome)
      (fun table => table.view fs handle) (callsOn handle) (Spares O handle f) where
  inv {table op ret table'} h hspares hop := by
    cases hcalls : callsOn handle op with
    | none =>
      obtain ⟨before, hbefore⟩ := Option.isSome_iff_exists.mp h.2
      obtain ⟨hquiet, huntouched⟩ := streamOp_untouched h.1 (Store.lt_next hbefore) hcalls hspares hop
      rw [(huntouched.stream hbefore).1]
      exact ⟨hquiet, rfl⟩
    | some o =>
      obtain ⟨rfl, hclose⟩ := callsOn_eq_some hcalls
      rcases h.1.sound.call_cases hop with ⟨-, rfl⟩ | ⟨before, s, r, ctx', hbefore, -, -, -, hend⟩
      · exact h
      rcases hend with ⟨-, rfl⟩ | ⟨htrue, -⟩
      · exact ⟨h.1.save hbefore ctx', Option.isSome_iff_exists.mpr ⟨_, Store.get_set_self hbefore⟩⟩
      · rw [hclose] at htrue
        cases htrue
  mine {table ctx op o ret table'} h hview hown hop := by
    obtain ⟨rfl, hclose⟩ := callsOn_eq_some hown
    obtain ⟨r, ctx', hxziop, rfl, hview'⟩ := StreamTable.view_call O h.1.sound hview hclose hop
    exact ⟨ctx', bind_eq_ok.mpr ⟨(r, ctx'), hxziop, rfl⟩, hview'⟩
  others {table ctx op ret table'} h hview hown hspares hop := by
    obtain ⟨before, hbefore⟩ := Option.isSome_iff_exists.mp h.2
    exact (streamOp_untouched h.1 (Store.lt_next hbefore) hown hspares hop).2.view hview

/-- **A step that returns a stream** is an open, and the stream has the context that is made for it. -/
theorem streamOp_opened {fuel handle : Nat} {table table' : StreamTable σ φ} {init : StreamOp}
    (h : streamOp L fs fuel table init = .ok (.stream handle, table')) {req : OpenRequest}
    (hreq : init.request table.ini = some req) :
    ∃ world new, fs.openWrapper table.world table.inners.next (openPath req.path) (openMode req.modePass) =
        some world ∧
      req.makeCtx L table.ini world = some new ∧ handle = table.streams.next ∧ table' = table.add new := by
  have hopen : table.xzopenStream L fs req.path req.modePass req.context = .ok (.stream handle, table') := by
    cases init with
    | xzopen filename mode level =>
      obtain rfl := Option.some.inj hreq
      exact h
    | fopen path mode context =>
      obtain rfl := Option.some.inj hreq
      exact h
    | call i op => cases hreq
    | setCompressionLevel level => cases hreq
  rcases StreamTable.xzopenStream_cases hopen with ⟨world, new, hworld, hinit, hret, htable⟩ | ⟨_, hret, -⟩
  · exact ⟨world, new, hworld, hinit, StreamReturn.stream.inj hret, htable⟩
  · cases hret

/-- The context does not depend on what the stream below is. -/
theorem makeCtx_withParts {req : OpenRequest} {ini : Ini} {inner : κ} {new : XzStreamCtx σ κ}
    (h : req.makeCtx L ini inner = some new) (st : ι) :
    req.makeCtx L ini st = some (new.withParts new.strm.internal st) := by
  rw [OpenRequest.makeCtx] at h ⊢
  rcases StreamTable.initCoder_some h with ⟨hmode, hinit⟩ | ⟨hmode, hinit⟩
  · obtain ⟨s, hs, rfl⟩ := Option.map_eq_some_iff.mp hinit
    have hst : phpXzInitEncoder L (castUInt32 (levelUsed ini req.modePass req.context)) st =
        some (freshCtx s st true) := Option.map_eq_some_iff.mpr ⟨s, hs, rfl⟩
    rw [initCoder, if_pos hmode, hst]
    rfl
  · obtain ⟨s, hs, rfl⟩ := Option.map_eq_some_iff.mp hinit
    have hst : phpXzInitDecoder L (castUInt64 (memUsed ini req.context)) st =
        some { freshCtx s st false with outBufIdx := some 0 } := Option.map_eq_some_iff.mpr ⟨s, hs, rfl⟩
    rw [initCoder, isWriteMode_of_isReadMode hmode, if_neg Bool.false_ne_true, if_pos hmode, hst]
    rfl

/-- The file of a new stream is its own as long as no stream writes to it. -/
theorem quiet_add {O : OpenFiles fs File} {table : StreamTable σ φ} (h : table.Sound) {path mode : List UInt8}
    {world : φ} {new : XzStreamCtx σ φ}
    (hopen : fs.openWrapper table.world table.inners.next path mode = some world) (hnew : new.stream = world)
    (hquiet : ∀ i ctx, table.streams.get i = some ctx → O.writes table.world ctx.stream = true →
      O.file table.world ctx.stream ≠ O.fileOf path) :
    (table.add new).Quiet O table.streams.next (O.fileOf path) := by
  subst hnew
  refine ⟨StreamTable.add_sound h new, ?_, ?_⟩
  · intro ctx hctx
    rcases Store.eq_or_get_of_alloc hctx with ⟨-, rfl⟩ | ⟨hne, -⟩
    · exact (O.opened hopen).1
    · exact absurd rfl hne
  · intro i ctx hi hctx hwrites
    rcases Store.eq_or_get_of_alloc hctx with ⟨rfl, -⟩ | ⟨-, hctx⟩
    · exact absurd rfl hi
    · obtain ⟨hfile, hsame⟩ := O.opened_of_ne hopen (h.stream_ne_next hctx)
      exact fun heq => hquiet i ctx hctx (hsame.symm.trans hwrites) (hfile.symm.trans heq)

/-- **Streams do not disturb each other**, whatever files they share. Where an open of a script returns a
stream, no other stream writes to its file then, and the script neither opens it for writing nor closes the
stream after that, the operations on this stream return what they return in the run on it alone, from the
context that is made for it around the stream below; and they leave it in the same state. -/
theorem stream_alone (O : OpenFiles fs File) {ini : Ini} {world : φ} {fuel handle : Nat}
    {before later : List StreamOp} {init : StreamOp} {rets₀ rets : List StreamReturn}
    {table table' : StreamTable σ φ}
    (hbefore : streamRun L fs fuel (.start ini world) before = .ok (rets₀, table))
    (hlater : streamRun L fs fuel table (init :: later) = .ok (.stream handle :: rets, table'))
    {req : OpenRequest} (hreq : init.request table.ini = some req)
    (hquiet : ∀ i ctx, table.streams.get i = some ctx → O.writes table.world ctx.stream = true →
      O.file table.world ctx.stream ≠ O.fileOf (openPath req.path))
    (hspares : ∀ op ∈ later, Spares O handle (O.fileOf (openPath req.path)) op) :
    ∃ world' ctx ctx' results,
      fs.openWrapper table.world table.inners.next (openPath req.path) (openMode req.modePass) = some world' ∧
      req.makeCtx L table.ini (fs.get world' table.inners.next) = some ctx ∧
      perform (xziop L.coder fs.io fuel) ctx (later.filterMap (callsOn handle)) = .ok (results, ctx') ∧
      resultsOf (callsOn handle) later rets = results.map .did ∧ table'.view fs handle = some ctx' := by
  have hsound : table.Sound := ((streamRun_sound L fs ini world fuel before).of_ok hbefore).1
  obtain ⟨ret, opened, rets', hinit, hrest, heq⟩ := perform_cons_eq_ok.mp hlater
  obtain ⟨rfl, rfl⟩ := List.cons.inj heq
  obtain ⟨world', new, hopen, hmake, rfl, rfl⟩ := streamOp_opened hinit hreq
  have hstream : new.stream = world' := StreamTable.initCoder_stream hmake
  have hget : (table.add new).streams.get table.streams.next =
      some (new.withParts table.coders.next table.inners.next) := Store.get_alloc_next
  have hview : (table.add new).view fs table.streams.next =
      some (new.withParts new.strm.internal (fs.get world' table.inners.next)) := by
    refine Option.bind_eq_some_iff.mpr ⟨_, hget, ?_⟩
    refine Option.map_eq_some_iff.mpr ⟨new.strm.internal, Store.get_alloc_next, ?_⟩
    rw [← hstream]
    rfl
  have hnew : (table.add new).Quiet O table.streams.next (O.fileOf (openPath req.path)) :=
    quiet_add hsound hopen hstream hquiet
  obtain ⟨ctx', hpart, hview'⟩ :=
    (streamComponent O table.streams.next (O.fileOf (openPath req.path)) fuel).perform
    ⟨hnew, Option.isSome_iff_exists.mpr ⟨_, hget⟩⟩ hview hspares hrest
  obtain ⟨results, hperform, hresults⟩ := perform_map StreamReturn.did hpart
  exact ⟨world', _, ctx', results, hopen, makeCtx_withParts hmake _, hperform, hresults, hview'⟩

end Component

/-! ## Plain files -/

/-- What a stream below has open; one that was opened for reading hands out what the file held then. -/
structure PlainStream where
  path : List UInt8
  writing : Bool
  left : List UInt8

structure Disk where
  held : List UInt8 → List UInt8
  opened : Nat → PlainStream

/-- Plain files, each stream below a pipe. -/
def plainFiles : FileSystem Disk (List UInt8) where
  io := pipe
  get disk i := if (disk.opened i).writing then disk.held (disk.opened i).path else (disk.opened i).left
  put disk i st :=
    if (disk.opened i).writing then { disk with held := Function.update disk.held (disk.opened i).path st }
    else { disk with opened := Function.update disk.opened i { disk.opened i with left := st } }
  openWrapper disk i path mode :=
    some ⟨if isReadMode mode then disk.held else Function.update disk.held path [],
      Function.update disk.opened i ⟨path, !isReadMode mode, disk.held path⟩⟩
  castFd _ _ := true
  alloc _ := true
  close disk _ := disk

/-- An operation does not change what file a stream has open. -/
theorem plainFiles_put (disk : Disk) (i : Nat) (st : List UInt8) (j : Nat) :
    ((plainFiles.put disk i st).opened j).path = (disk.opened j).path ∧
      ((plainFiles.put disk i st).opened j).writing = (disk.opened j).writing := by
  cases hwriting : (disk.opened i).writing with
  | true => simp [plainFiles, hwriting]
  | false =>
    by_cases hj : j = i
    · subst hj
      simp [plainFiles, hwriting]
    · simp [plainFiles, hwriting, Function.update_of_ne hj]

/-- The path is the file. -/
def plainFiles_open : OpenFiles plainFiles (List UInt8) where
  fileOf := id
  file disk i := (disk.opened i).path
  writes disk i := (disk.opened i).writing
  get_put disk i st := by
    cases hwriting : (disk.opened i).writing <;> simp [plainFiles, hwriting]
  get_put_of_ne {disk i j} st hne hfile := by
    cases hwriting : (disk.opened i).writing with
    | true => simp [plainFiles, hwriting, Function.update_of_ne (hfile hwriting).symm]
    | false => simp [plainFiles, hwriting, Function.update_of_ne hne]
  put := plainFiles_put
  opened {disk i path mode disk'} h := by
    obtain rfl := Option.some.inj h
    simp
  opened_of_ne {disk i path mode disk' j} h hne := by
    obtain rfl := Option.some.inj h
    simp [Function.update_of_ne hne]
  get_opened {disk i path mode disk' j} h hne hfile := by
    obtain rfl := Option.some.inj h
    cases hmode : isReadMode mode with
    | true => simp [plainFiles, Function.update_of_ne hne]
    | false =>
      have hpath : (disk.opened j).path ≠ path := (hfile hmode).symm
      simp [plainFiles, Function.update_of_ne hne, Function.update_of_ne hpath]
  closed _ _ _ _ := ⟨rfl, rfl, rfl⟩

/-- One stream goes on writing while another one writes to its file, and is closed. -/
def twoStreams : List StreamOp :=
  [.call 1 (.write [3]), .call 0 (.write [2]), .call 1 .flush, .call 0 .close, .call 1 (.write [4, 5])]

set_option maxRecDepth 20000 in
theorem stream_alone_two :
    ∃ table table' : StreamTable Bool Disk,
      streamRun copyLiblzma plainFiles 9 (.start {} ⟨fun _ => [], fun _ => ⟨[], false, []⟩⟩)
        [.xzopen [97] [119] none, .call 0 (.write [1])] = .ok ([.stream 0, .did (.write 1)], table) ∧
      streamRun copyLiblzma plainFiles 9 table (.xzopen [98] [119] (some 9) :: twoStreams) =
        .ok ([.stream 1, .did (.write 1), .did (.write 1), .did (.flush 0), .did (.close EOF), .did (.write 2)],
          table') ∧
      ∃ world' ctx ctx' results, plainFiles.openWrapper table.world table.inners.next [98] [119] = some world' ∧
        OpenRequest.makeCtx copyLiblzma table.ini ⟨[98], modeToPass table.ini [119] (some 9), none⟩
          (plainFiles.get world' table.inners.next) = some ctx ∧
        perform (xziop copyLiblzma.coder pipe 9) ctx [.write [3], .flush, .write [4, 5]] = .ok (results, ctx') ∧
        [.did (.write 1), .did (.flush 0), .did (.write 2)] = results.map StreamReturn.did ∧
        table'.view plainFiles 1 = some ctx' := by
  obtain ⟨table, table', hbefore, hlater, hnext, hpath⟩ : ∃ table table',
      streamRun copyLiblzma plainFiles 9 (.start {} ⟨fun _ => [], fun _ => ⟨[], false, []⟩⟩)
        [.xzopen [97] [119] none, .call 0 (.write [1])] = .ok ([.stream 0, .did (.write 1)], table) ∧
      streamRun copyLiblzma plainFiles 9 table (.xzopen [98] [119] (some 9) :: twoStreams) =
        .ok ([.stream 1, .did (.write 1), .did (.write 1), .did (.flush 0), .did (.close EOF), .did (.write 2)],
          table') ∧
      table.streams.next = 1 ∧
      (table.streams.get 0).map (fun ctx => (table.world.opened ctx.stream).path) = some [97] :=
    ⟨_, _, rfl, rfl, rfl, rfl⟩
  refine ⟨table, table', hbefore, hlater, stream_alone plainFiles_open hbefore hlater rfl ?_ ?_⟩
  · intro i ctx hctx _ hfile
    have hi : i < 1 := hnext ▸ Store.lt_next hctx
    obtain rfl : i = 0 := by omega
    rw [hctx] at hpath
    have hother : ([97] : List UInt8) = [98] := (Option.some.inj hpath).symm.trans hfile
    exact absurd hother (by decide)
  · simp [twoStreams, Spares, SparesFile, StreamOp.request]

end PhpExtXz
