/-
# PhpExtXz.ReadFile — reading a file to its end.

The stream below is a file (`FileStream`): it hands out its bytes in order, in pieces as it likes, and
shows its end with the last byte, or only after one more read that returns nothing. `readAll` makes
reads of given sizes up to the first that ends them.

`readAll_spec` holds for every decoder that decodes the file, and also when the file is only the
beginning of one that it decodes: no read fails, and once enough is asked for the last one sets
`stream->eof`. What has been read by then is what the decoder had emitted when it took the last byte
(`ReadOut`); where the stream below shows its end late, one more call of the coder adds to that.
-/
import PhpExtXz.ReadStream

namespace PhpExtXz

open FuelLoop XzStreamCtx

variable {σ ι : Type}

/-! ## A file below -/

/-- The stream below is a file, of which `left` is still to be read. -/
structure FileStream (io : Inner ι) (left : ι → List UInt8) : Prop where
  read : ∀ st n, 0 < n → ∃ bytes st', io.read st n = (some bytes, st') ∧
    left st = bytes.1 ++ left st' ∧ (left st ≠ [] → bytes.1 ≠ []) ∧
    (bytes.1 = [] → io.eof st' = true)
  eof : ∀ st, io.eof st = true → left st = []

/-- The stream below has handed out `ps`, each piece when it was asked for a full `in_buf`. -/
inductive Reads (io : Inner ι) (st₀ : ι) : List (List UInt8) → ι → Prop
  | start : Reads io st₀ [] st₀
  | read {ps : List (List UInt8)} {st st' : ι}
      {bytes : { bytes : List UInt8 // bytes.length ≤ XZ_BUFFER_SIZE }} :
      Reads io st₀ ps st → io.read st XZ_BUFFER_SIZE = (some bytes, st') → bytes.1 ≠ [] →
      Reads io st₀ (ps ++ [bytes.1]) st'

variable {io : Inner ι} {left : ι → List UInt8} {st st₀ : ι} {ps : List (List UInt8)}

theorem Reads.pieces (h : Reads io st₀ ps st) : ∀ p ∈ ps, p ≠ [] ∧ p.length ≤ XZ_BUFFER_SIZE := by
  induction h with
  | start => simp
  | @read ps _ _ bytes _ _ hne ih =>
    intro p hp
    rcases List.mem_append.mp hp with hp | hp
    · exact ih p hp
    · obtain rfl := List.mem_singleton.mp hp
      exact ⟨hne, bytes.2⟩

/-- What was handed out and what is left are the file. -/
theorem Reads.left_eq (hfile : FileStream io left) (h : Reads io st₀ ps st) :
    left st₀ = ps.flatten ++ left st := by
  induction h with
  | start => rfl
  | @read _ st _ _ _ hread _ ih =>
    obtain ⟨_, _, hread', hleft, -, -⟩ := hfile.read st XZ_BUFFER_SIZE (by decide)
    obtain ⟨hbytes, rfl⟩ := Prod.mk.inj (hread'.symm.trans hread)
    cases hbytes
    rw [ih, hleft, List.flatten_append, List.flatten_singleton, List.append_assoc]

/-- What was handed out begins every file that the stream below holds the beginning of. -/
theorem Reads.inside {file : List UInt8} (hfile : FileStream io left) (hpre : left st₀ <+: file)
    (h : Reads io st₀ ps st) : ps.flatten <+: file := by
  apply List.IsPrefix.trans _ hpre
  rw [h.left_eq hfile]
  exact List.prefix_append _ _

/-! ## Reading on and on -/

/-- How a sequence of reads ended. -/
inductive ReadEnd where
  /-- a read set `stream->eof` -/
  | eof
  /-- a read returned the error value -/
  | error
  /-- all reads were made -/
  | more
  deriving DecidableEq, Repr

/-- Reads of the given sizes, up to the first that sets `stream->eof` or returns the error value: the
bytes that were read, and how it ended. -/
def readAll (c : Coder σ) (io : Inner ι) (fuel : Nat) :
    XzStreamCtx σ ι → List Nat → Exec MemoryFault (List UInt8 × ReadEnd)
  | _, [] => pure ([], .more)
  | ctx, count :: counts => do
    let (ret, ctx') ← phpXziopRead c io fuel ctx count
    match ret with
    | none => pure ([], .error)
    | some bytes =>
      if ctx'.eof then pure (bytes, .eof)
      else do
        let (rest, ended) ← readAll c io fuel ctx' counts
        pure (bytes ++ rest, ended)

/-! ## Where reading stands -/

variable {c : Coder σ} {s₀ : σ} {f : Feed} {ctx ctx' e e₁ : XzStreamCtx σ ι} {r : Reading σ ι}
  {file D given : List UInt8} {res : CodeResult σ}

/-- The decoder is being fed the pieces of the file; or it has taken all of them, and one call without
input was made after that, because the stream below had not shown its end. -/
inductive ReadPhase (c : Coder σ) (s₀ : σ) (io : Inner ι) (left : ι → List UInt8) (st₀ : ι) (f : Feed)
    (ctx : XzStreamCtx σ ι) : Prop
  | feeding {ps : List (List UInt8)} (reads : Reads io st₀ ps ctx.stream)
      (taken : f.taken ++ ctx.inPending = ps.flatten)
      (amid : Amid c s₀ ps f ctx.strm.internal ctx.inPending) (fresh : f.stalled = false)
  | drained {ps : List (List UInt8)} {st₁ : ι} {f₀ : Feed} {s₁ : σ} (reads : Reads io st₀ ps st₁)
      (late : io.eof st₁ = false) (allRead : left st₁ = []) (fed : ConsumesAll c {} s₀ ps f₀ s₁)
      (before : f₀.emitted <+: f.emitted) (taken : f.taken = ps.flatten)
      (noInput : ctx.strm.availIn = 0) (noMore : io.eof ctx.stream = true)

/-- Between two passes, when `given` has been handed out. -/
structure ReadingFile (c : Coder σ) (s₀ : σ) (io : Inner ι) (left : ι → List UInt8) (st₀ : ι)
    (given : List UInt8) (f : Feed) (ctx : XzStreamCtx σ ι) : Prop where
  windowed : ctx.Windowed
  reaches : Reaches c s₀ f ctx.strm.internal
  running : f.finishing = none
  notFailed : f.failed = false
  emitted : given ++ ctx.waiting = f.emitted
  aligned : ctx.strm.nextOut % XZ_BUFFER_SIZE = f.emitted.length % XZ_BUFFER_SIZE
  totalIn : ctx.strm.totalIn = f.taken.length
  phase : ReadPhase c s₀ io left st₀ f ctx
  notEof : ctx.eof = false

/-- What has been read when the end is reached: what the decoder had emitted when it took the last of
the pieces, and more than that at most where the stream below showed its end late. -/
structure ReadOut (c : Coder σ) (s₀ : σ) (io : Inner ι) (left : ι → List UInt8) (st₀ : ι)
    (D given : List UInt8) : Prop where
  decoded : given <+: D
  fed : ∃ ps st₁ f₀ s₁, Reads io st₀ ps st₁ ∧ left st₁ = [] ∧ ConsumesAll c {} s₀ ps f₀ s₁ ∧
    f₀.emitted <+: given ∧ (io.eof st₁ = true → given = f₀.emitted)

/-- What is still to come: input to take, output to emit, and the end of the file. -/
def toCome (file D given : List UInt8) (io : Inner ι) (ctx : XzStreamCtx σ ι) : Nat :=
  (file.length - ctx.strm.totalIn) + (D.length - (given ++ ctx.waiting).length) +
    if io.eof ctx.stream then 0 else 1

/-! ## One pass -/

/-- Handing out the window. -/
theorem ReadingFile.emptied (h : ReadingFile c s₀ io left st₀ given f ctx) (he : Emptied ctx e) :
    ReadingFile c s₀ io left st₀ (given ++ ctx.waiting) f e where
  windowed := he.windowed
  reaches := by
    rw [he.internal]
    exact h.reaches
  running := h.running
  notFailed := h.notFailed
  emitted := by
    rw [waiting_of_atNextOut he.bounded he.atNextOut, List.append_nil]
    exact h.emitted
  aligned := he.aligned.trans h.aligned
  totalIn := he.totalIn.trans h.totalIn
  phase := by
    cases h.phase with
    | feeding reads taken amid fresh =>
      rw [← he.stream] at reads
      rw [← he.inPending] at taken
      rw [← he.inPending, ← he.internal] at amid
      exact .feeding reads taken amid fresh
    | drained reads late allRead fed before taken noInput noMore =>
      rw [← he.availIn] at noInput
      rw [← he.stream] at noMore
      exact .drained reads late allRead fed before taken noInput noMore
  notEof := he.eof.trans h.notEof

/-- Handing out the beginning of the window. -/
theorem ReadingFile.fromWindow (h : ReadingFile c s₀ io left st₀ given f ctx) {idx n : Nat}
    (hidx : ctx.outBufIdx = some idx) (hshort : n < ctx.waiting.length) :
    ReadingFile c s₀ io left st₀ (given ++ ctx.waiting.take n) f
      { ctx with outBufIdx := some (idx + n) } := by
  have hlen := h.windowed.length_waiting hidx
  refine ⟨⟨⟨h.windowed.bounded.inside, h.windowed.bounded.room⟩, ⟨_, rfl, ?_⟩, ?_⟩, h.reaches,
    h.running, h.notFailed, ?_, h.aligned, h.totalIn, ?_, h.notEof⟩
  · show idx + n ≤ ctx.strm.nextOut
    omega
  · intro hat
    have heq : idx + n = ctx.strm.nextOut := Option.some.inj hat
    omega
  · have hrest : ({ ctx with outBufIdx := some (idx + n) } : XzStreamCtx σ ι).waiting =
        ctx.waiting.drop n := by
      rw [waiting_of_idx hidx, List.drop_drop]
      rfl
    rw [hrest, List.append_assoc, List.take_append_drop]
    exact h.emitted
  · cases h.phase with
    | feeding reads taken amid fresh => exact .feeding reads taken amid fresh
    | drained reads late allRead fed before taken noInput noMore =>
      exact .drained reads late allRead fed before taken noInput noMore

/-- An empty window leaves the room up to the next multiple of `XZ_BUFFER_SIZE`. -/
theorem ReadingFile.availOut (h : ReadingFile c s₀ io left st₀ given f e)
    (hroom : 0 < e.strm.availOut) : e.strm.availOut = roomAt f := by
  have hsize := h.windowed.bounded.room
  have haligned := h.aligned
  unfold roomAt
  rw [← haligned]
  simp only [XZ_BUFFER_SIZE] at hsize ⊢
  omega

/-- The stream below does not take its end back. -/
theorem XzStreamCtx.Refilled.eof_stream (hr : Refilled io e e₁) (hended : io.eof e.stream = true) :
    io.eof e₁.stream = true := by
  rcases hr.source with ⟨-, hstream, -⟩ | ⟨-, hunended, -⟩
  · rw [hstream]
    exact hended
  · rw [hended] at hunended
    cases hunended

/-- A call that makes progress, or in whose refill the end of the file showed, leaves less to come. -/
theorem toCome_lt (htotal : ctx'.strm.totalIn = e.strm.totalIn + res.taken)
    (hwaiting : ctx'.waiting.length = e.waiting.length + res.emitted.length)
    (hin : ctx'.strm.totalIn ≤ file.length) (hout : (given ++ ctx'.waiting).length ≤ D.length)
    (hsome : (res.Progress ∧ (io.eof e.stream = true → io.eof ctx'.stream = true)) ∨
      (io.eof e.stream = false ∧ io.eof ctx'.stream = true)) :
    toCome file D given io ctx' < toCome file D given io e := by
  simp only [toCome, List.length_append] at hout ⊢
  rcases hsome with ⟨hprog, hend⟩ | ⟨hunended, hended⟩
  · have hmoved : 0 < res.taken + res.emitted.length := by
      rcases hprog with htaken | hne
      · omega
      · have := List.length_pos_iff.mpr hne
        omega
    have hflag : (if io.eof ctx'.stream then 0 else 1) ≤ if io.eof e.stream then 0 else 1 := by
      by_cases he : io.eof e.stream = true
      · rw [if_pos he, if_pos (hend he)]
      · rw [if_neg he]
        split <;> omega
    omega
  · rw [hunended, hended]
    simp only [if_true, Bool.false_eq_true, if_false]
    omega

section File

variable (hfile : FileStream io left) (hdec : Decodes c s₀ file D) (hpre : left st₀ <+: file)

include hfile in
/-- After the refill there is input, or it is the one call without input. -/
theorem ReadPhase.refilled (h : ReadPhase c s₀ io left st₀ f e) (hb : e.Bounded)
    (hr : Refilled io e e₁) :
    f.stalled = false ∧
      ((e₁.inPending ≠ [] ∧ ∃ ps, Reads io st₀ ps e₁.stream ∧ f.taken ++ e₁.inPending = ps.flatten ∧
          Amid c s₀ ps f e₁.strm.internal e₁.inPending) ∨
        (e₁.inPending = [] ∧ io.eof e.stream = false ∧ io.eof e₁.stream = true ∧
          left e.stream = [] ∧ ∃ ps, Reads io st₀ ps e.stream ∧ f.taken = ps.flatten ∧
            ConsumesAll c {} s₀ ps f e.strm.internal)) := by
  cases h with
  | drained _ _ _ _ _ _ noInput noMore =>
    -- there is nothing to call the coder with
    rcases hr.source with ⟨hsome, -, -⟩ | ⟨-, hunended, -⟩
    · exact absurd noInput hsome
    · rw [noMore] at hunended
      cases hunended
  | @feeding ps reads taken amid fresh =>
    refine ⟨fresh, ?_⟩
    have hlen := hb.length_inPending
    rcases hr.source with ⟨hsome, hstream, hpending⟩ | ⟨hnone, hunended, bytes, hread, hpending⟩
    · refine Or.inl ⟨?_, ps, ?_, ?_, ?_⟩
      · rw [hpending, ← List.length_pos_iff]
        omega
      · rw [hstream]
        exact reads
      · rw [hpending]
        exact taken
      · rw [hpending, hr.internal]
        exact amid
    · have hempty : e.inPending = [] := List.eq_nil_of_length_eq_zero (by omega)
      rw [hempty] at taken amid
      rw [List.append_nil] at taken
      obtain ⟨_, _, hread', -, hmore, hlast⟩ := hfile.read e.stream XZ_BUFFER_SIZE (by decide)
      obtain ⟨hbytes, rfl⟩ := Prod.mk.inj (hread'.symm.trans hread)
      cases hbytes
      by_cases hnil : bytes.1 = []
      · refine Or.inr ⟨hpending.trans hnil, hunended, hlast hnil, ?_, ps, reads, taken, amid.done⟩
        by_contra hleft
        exact hmore hleft hnil
      · refine Or.inl ⟨?_, ps ++ [bytes.1], reads.read hread hnil, ?_, ?_⟩
        · rw [hpending]
          exact hnil
        · rw [hpending, taken, List.flatten_append, List.flatten_singleton]
        · rw [hpending, hr.internal]
          exact Amid.start amid.done _

/-- After a call, reading stands as before, in the phase that the call has led to. -/
theorem ReadingFile.coded (h : ReadingFile c s₀ io left st₀ given f e)
    (hat : e.outBufIdx = some e.strm.nextOut) (hroom : 0 < e.strm.availOut) (hr : Refilled io e e₁)
    (hcode : c.code e₁.strm.internal .run e₁.inPending e₁.strm.availOut = res)
    (hcoded : CodedTo c .run e₁ res ctx') (hok : res.ret = .ok)
    (hphase : ReadPhase c s₀ io left st₀ (f.step .run e₁.inPending res) ctx') :
    ReadingFile c s₀ io left st₀ given (f.step .run e₁.inPending res) ctx' ∧
      ctx'.strm.totalIn = e.strm.totalIn + res.taken ∧ ctx'.waiting = res.emitted := by
  have hroom₁ : 0 < e₁.strm.availOut := by
    rw [hr.availOut]
    exact hroom
  have hreach : Reaches c s₀ f e₁.strm.internal := by
    rw [hr.internal]
    exact h.reaches
  have hwaiting : ctx'.waiting = res.emitted := hcoded.waiting hr.bounded hr.atNextOut
  have hemitted : given = f.emitted := by
    rw [← h.emitted, waiting_of_atNextOut h.windowed.bounded hat, List.append_nil]
  have htotal : ctx'.strm.totalIn = e.strm.totalIn + res.taken := by
    rw [hcoded.strm, LzmaStream.advance_totalIn, hr.totalIn]
  refine ⟨⟨hcoded.windowed hr.bounded hr.atNextOut hroom₁, ?_, h.running,
    Feed.notFailed_step h.notFailed (by rw [hok]; rfl), ?_, ?_, ?_, hphase, ?_⟩, htotal, hwaiting⟩
  · rw [hcoded.strm]
    exact hreach.run hroom₁ hcode
  · rw [hwaiting, hemitted]
    rfl
  · have haligned := h.aligned
    show ctx'.strm.nextOut % XZ_BUFFER_SIZE = (f.emitted ++ res.emitted).length % XZ_BUFFER_SIZE
    rw [hcoded.strm, LzmaStream.advance_nextOut, hr.nextOut, List.length_append, Nat.add_mod,
      haligned, ← Nat.add_mod]
  · have htaken := hcoded.taken_le
    have hlen := hr.bounded.length_inPending
    rw [htotal, h.totalIn]
    show f.taken.length + res.taken = (f.taken ++ e₁.inPending.take res.taken).length
    rw [List.length_append, List.length_take]
    omega
  · rw [hcoded.eof, hr.eof]
    exact h.notEof

include hfile hdec hpre in
/-- Less is to come after a call that has made progress or met the end of the stream below, in whatever
phase it leads to. -/
theorem ReadingFile.coded_less {ps : List (List UInt8)} {st : ι}
    (h : ReadingFile c s₀ io left st₀ given f e) (hat : e.outBufIdx = some e.strm.nextOut)
    (hroom : 0 < e.strm.availOut) (hr : Refilled io e e₁)
    (hcode : c.code e₁.strm.internal .run e₁.inPending e₁.strm.availOut = res)
    (hcoded : CodedTo c .run e₁ res ctx') (hok : res.ret = .ok) (hreads : Reads io st₀ ps st)
    (hphase : ReadPhase c s₀ io left st₀ (f.step .run e₁.inPending res) ctx')
    (hall : f.taken ++ e₁.inPending = ps.flatten)
    (hsome : (res.Progress ∧ (io.eof e.stream = true → io.eof ctx'.stream = true)) ∨
      (io.eof e.stream = false ∧ io.eof ctx'.stream = true)) :
    (∃ f', ReadingFile c s₀ io left st₀ given f' ctx') ∧
      toCome file D given io ctx' < toCome file D given io e := by
  obtain ⟨hnext, htotal, hwaiting⟩ := h.coded hat hroom hr hcode hcoded hok hphase
  have htaken : (f.step .run e₁.inPending res).taken <+: file := by
    apply (Feed.taken_step_prefix .run).trans
    rw [hall]
    exact hreads.inside hfile hpre
  have hemitted := hdec.in_order hnext.reaches hnext.running hnext.notFailed htaken
  rw [← hnext.emitted] at hemitted
  refine ⟨⟨_, hnext⟩, toCome_lt htotal ?_ ?_ hemitted.length_le hsome⟩
  · rw [hwaiting, waiting_of_atNextOut h.windowed.bounded hat, List.length_nil, Nat.zero_add]
  · rw [hnext.totalIn]
    exact htaken.length_le

include hfile hdec hpre in
/-- **A call of the coder.** It returns `LZMA_OK`, and less is to come after it. -/
theorem ReadingFile.decoded (h : ReadingFile c s₀ io left st₀ given f e)
    (hat : e.outBufIdx = some e.strm.nextOut) (hroom : 0 < e.strm.availOut) (hr : Refilled io e e₁)
    (hcode : c.code e₁.strm.internal .run e₁.inPending e₁.strm.availOut = res)
    (hcoded : CodedTo c .run e₁ res ctx') :
    res.ret = .ok ∧ (∃ f', ReadingFile c s₀ io left st₀ given f' ctx') ∧
      toCome file D given io ctx' < toCome file D given io e := by
  have hroom₁ : 0 < e₁.strm.availOut := by
    rw [hr.availOut]
    exact hroom
  have hreach : Reaches c s₀ f e₁.strm.internal := by
    rw [hr.internal]
    exact h.reaches
  obtain ⟨hfresh, hsource⟩ := h.phase.refilled hfile h.windowed.bounded hr
  rcases hsource with ⟨hne, ps, hreads, htaken, hamid⟩ |
    ⟨hnil, hunended, hended, hleft, ps, hreads, htaken, hfed⟩
  · -- there is input, so the call makes progress
    have hgiven : f.taken ++ e₁.inPending <+: file := by
      rw [htaken]
      exact hreads.inside hfile hpre
    obtain ⟨hok, hprog⟩ := hdec.run_ok hreach h.running h.notFailed hgiven hroom₁ hne hcode
    refine ⟨hok, h.coded_less hfile hdec hpre hat hroom hr hcode hcoded hok hreads
      (.feeding (?_ : Reads io st₀ ps _) ?_ ?_ ?_) htaken (Or.inl ⟨hprog, ?_⟩)⟩
    · rw [hcoded.stream]
      exact hreads
    · rw [hcoded.inPending, Feed.taken_step_append]
      exact htaken
    · rw [hcoded.inPending, hcoded.strm]
      apply hamid.call hne
      rw [← h.availOut hroom, ← hr.availOut]
      exact hcode
    · simp [Feed.step, hprog]
    · rw [hcoded.stream]
      exact hr.eof_stream
  · -- all has been taken, and the stream below has just shown its end
    have htaken' : f.taken <+: file := by
      rw [htaken]
      exact hreads.inside hfile hpre
    have hok : res.ret = .ok := by
      rw [hnil] at hcode
      rcases hdec.run_idle hreach h.running h.notFailed htaken' hroom₁ hcode with hok | ⟨-, hstalled, -⟩
      · exact hok
      · rw [hfresh] at hstalled
        cases hstalled
    have hin : e₁.strm.availIn = 0 := by
      rw [← hr.bounded.length_inPending, hnil, List.length_nil]
    refine ⟨hok, h.coded_less hfile hdec hpre hat hroom hr hcode hcoded hok hreads
      (.drained hreads hunended hleft hfed ?_ ?_ ?_ ?_) ?_ (Or.inr ⟨hunended, ?_⟩)⟩
    · exact List.prefix_append _ _
    · simp [Feed.step, hnil, htaken]
    · rw [hcoded.strm, LzmaStream.advance_availIn, hin, Nat.zero_sub]
    · rw [hcoded.stream]
      exact hended
    · rw [hnil, List.append_nil]
      exact htaken
    · rw [hcoded.stream]
      exact hended

/-- What a read leaves when `count` bytes were asked for: the bytes, and reading where it stands, or the
end. -/
def ReadsOn (c : Coder σ) (s₀ : σ) (io : Inner ι) (left : ι → List UInt8) (st₀ : ι)
    (D given : List UInt8) (count : Nat) (p : Option (List UInt8) × XzStreamCtx σ ι) : Prop :=
  ∃ bytes, p.1 = some bytes ∧
    ((p.2.eof = false ∧ bytes.length = count ∧
        ∃ f, ReadingFile c s₀ io left st₀ (given ++ bytes) f p.2) ∨
      (p.2.eof = true ∧ ReadOut c s₀ io left st₀ D (given ++ bytes)))

include hfile hdec hpre in
/-- What has been handed out is decoded from the file. -/
theorem ReadingFile.decodes (h : ReadingFile c s₀ io left st₀ given f ctx) : given <+: D := by
  -- in both phases the decoder has been fed pieces of the file only
  have htaken : ∃ ps st, Reads io st₀ ps st ∧ f.taken <+: ps.flatten := by
    cases h.phase with
    | feeding reads taken amid fresh => exact ⟨_, _, reads, taken ▸ List.prefix_append _ _⟩
    | drained reads late allRead fed before taken noInput noMore =>
      exact ⟨_, _, reads, taken ▸ List.prefix_rfl⟩
  obtain ⟨ps, st, hreads, htaken⟩ := htaken
  have hinside : f.taken <+: file := htaken.trans (hreads.inside hfile hpre)
  apply List.IsPrefix.trans _ (hdec.in_order h.reaches h.running h.notFailed hinside)
  rw [← h.emitted]
  exact List.prefix_append _ _

include hfile hdec hpre in
/-- At the end of the file with an empty window all has been read. -/
theorem ReadingFile.atEnd (h : ReadingFile c s₀ io left st₀ given f e)
    (hat : e.outBufIdx = some e.strm.nextOut) (hin : e.strm.availIn = 0)
    (hend : io.eof e.stream = true) : ReadOut c s₀ io left st₀ D given := by
  have hgiven : given = f.emitted := by
    rw [← h.emitted, waiting_of_atNextOut h.windowed.bounded hat, List.append_nil]
  refine ⟨h.decodes hfile hdec hpre, ?_⟩
  cases h.phase with
  | @feeding ps reads taken amid fresh =>
    have hnil : e.inPending = [] := by
      apply List.eq_nil_of_length_eq_zero
      rw [h.windowed.bounded.length_inPending, hin]
    rw [hnil] at amid
    exact ⟨ps, e.stream, f, _, reads, hfile.eof _ hend, amid.done, hgiven ▸ List.prefix_rfl,
      fun _ => hgiven⟩
  | @drained ps st₁ f₀ s₁ reads late allRead fed before taken noInput noMore =>
    refine ⟨ps, st₁, f₀, s₁, reads, allRead, fed, hgiven ▸ before, ?_⟩
    intro hshown
    rw [late] at hshown
    cases hshown

include hfile hdec hpre in
/-- **One pass of a read.** It goes round again with less to come, or it leaves. -/
theorem readTurn_file {count : Nat}
    (h : ReadingFile c s₀ io left st₀ (given ++ r.buf) f r.self)
    (hcount : r.buf.length + r.toRead = count) :
    (∃ r', readTurn c io r = .ok (.again r') ∧
      ((∃ f', ReadingFile c s₀ io left st₀ (given ++ r'.buf) f' r'.self) ∧
        r'.buf.length + r'.toRead = count) ∧
      toCome file D (given ++ r'.buf) io r'.self < toCome file D (given ++ r.buf) io r.self) ∨
    ∃ p, readTurn c io r = .ok (.leave p) ∧ ReadsOn c s₀ io left st₀ D given count p := by
  obtain ⟨t, hturn, hstep⟩ := readTurn_step c io h.windowed
  -- what a pass does to the window first
  have hempty : ∀ {e}, Emptied r.self e →
      ReadingFile c s₀ io left st₀ (given ++ (r.buf ++ r.self.waiting)) f e ∧
        toCome file D (given ++ (r.buf ++ r.self.waiting)) io e =
          toCome file D (given ++ r.buf) io r.self := by
    intro e he
    refine ⟨by rw [← List.append_assoc]; exact h.emptied he, ?_⟩
    simp only [toCome, he.totalIn, he.stream, waiting_of_atNextOut he.bounded he.atNextOut,
      List.append_nil, List.append_assoc]
  rw [hturn]
  cases hstep with
  | full enough =>
    exact Or.inr ⟨_, rfl, r.buf, rfl, Or.inl ⟨h.notEof, by omega, f, h⟩⟩
  | @fromWindow idx more short at_idx =>
    refine Or.inr ⟨_, rfl, _, rfl, Or.inl ⟨h.notEof, ?_, f, ?_⟩⟩
    · rw [List.length_append, List.length_take]
      omega
    · rw [← List.append_assoc]
      exact h.fromWindow at_idx short
  | atEnd more all emptied noInput noMore =>
    obtain ⟨hread, -⟩ := hempty emptied
    exact Or.inr ⟨_, rfl, _, rfl, Or.inr ⟨rfl,
      hread.atEnd hfile hdec hpre emptied.atNextOut noInput noMore⟩⟩
  | @readFailed e st more all emptied noInput unended read =>
    obtain ⟨_, _, hread, -, -, -⟩ := hfile.read e.stream XZ_BUFFER_SIZE (by decide)
    rw [read] at hread
    cases hread
  | decoded more all emptied refilled code coded fine =>
    obtain ⟨hread, hcome⟩ := hempty emptied
    obtain ⟨-, hnext, hlt⟩ := hread.decoded hfile hdec hpre emptied.atNextOut emptied.room refilled
      code coded
    refine Or.inl ⟨_, rfl, ⟨hnext, ?_⟩, ?_⟩
    · simp only [List.length_append]
      omega
    · rw [← hcome]
      exact hlt
  | decodeFailed more all emptied refilled code coded bad =>
    obtain ⟨hread, -⟩ := hempty emptied
    obtain ⟨hok, -, -⟩ := hread.decoded hfile hdec hpre emptied.atNextOut emptied.room refilled
      code coded
    exact absurd (Or.inl hok) bad

/-! ## Reading to the end -/

include hfile hdec hpre in
/-- **A read of a file.** It returns bytes, as many as were asked for unless it reaches the end. -/
theorem phpXziopRead_file (h : ReadingFile c s₀ io left st₀ given f ctx) (count fuel : Nat)
    (hfuel : file.length + D.length + 1 < fuel) :
    ∃ p, phpXziopRead c io fuel ctx count = .ok p ∧ ReadsOn c s₀ io left st₀ D given count p := by
  have hcome : toCome file D (given ++ []) io ctx < fuel := by
    -- only the end of the file is counted beside input and output, and only once
    have hflag : (if io.eof ctx.stream then 0 else 1) ≤ 1 := by split <;> omega
    unfold toCome
    omega
  apply loop_returns (fun r : Reading σ ι =>
      (∃ f, ReadingFile c s₀ io left st₀ (given ++ r.buf) f r.self) ∧
        r.buf.length + r.toRead = count)
    (fun r => toCome file D (given ++ r.buf) io r.self) _ fuel ⟨ctx, [], count⟩ _ hcome
  · rintro r ⟨⟨f, hread⟩, hcount⟩
    exact readTurn_file hfile hdec hpre hread hcount
  · refine ⟨⟨f, ?_⟩, Nat.zero_add _⟩
    rw [List.append_nil]
    exact h

include hfile hdec hpre in
/-- **Reading on and on.** No read fails; when the reads end with `stream->eof` all has been read, and
until then each read has returned as much as it was asked for. -/
theorem readAll_spec (fuel : Nat) (hfuel : file.length + D.length + 1 < fuel) (counts : List Nat) :
    ∀ {given f ctx}, ReadingFile c s₀ io left st₀ given f ctx →
      ∃ bytes ended, readAll c io fuel ctx counts = .ok (bytes, ended) ∧ ended ≠ .error ∧
        (ended = .eof → ReadOut c s₀ io left st₀ D (given ++ bytes)) ∧
        (ended = .more → bytes.length = counts.sum ∧
          ∃ f' ctx', ReadingFile c s₀ io left st₀ (given ++ bytes) f' ctx') := by
  induction counts with
  | nil =>
    intro given f ctx h
    refine ⟨[], .more, rfl, nofun, nofun, fun _ => ⟨rfl, f, ctx, ?_⟩⟩
    rw [List.append_nil]
    exact h
  | cons count counts ih =>
    intro given f ctx h
    obtain ⟨⟨ret, ctx'⟩, hread, bytes, hret, hnext⟩ :=
      phpXziopRead_file hfile hdec hpre h count fuel hfuel
    obtain rfl : ret = some bytes := hret
    simp only [readAll, hread, ok_bind, pure_eq_ok]
    rcases hnext with ⟨heof, hlen, f', h'⟩ | ⟨heof, hout⟩
    · obtain ⟨rest, ended, hrest, herror, hend, hmore⟩ := ih h'
      refine ⟨bytes ++ rest, ended, ?_, herror, ?_, ?_⟩
      · simp only [show ctx'.eof = false from heof, hrest, ok_bind, Bool.false_eq_true, if_false]
      · rw [← List.append_assoc]
        exact hend
      · intro hended
        obtain ⟨hsum, hstands⟩ := hmore hended
        rw [← List.append_assoc, List.length_append, List.sum_cons]
        exact ⟨by omega, hstands⟩
    · refine ⟨bytes, .eof, ?_, nofun, fun _ => hout, nofun⟩
      simp only [show ctx'.eof = true from heof, if_true]

end File

/-- A stream as it is opened. -/
theorem phpXzInitDecoder_reading {L : Liblzma σ} {memoryLimit : UInt64}
    (hinit : L.lzmaAutoDecoder (memoryLimitOrMax memoryLimit) LZMA_CONCATENATED = .ok s₀)
    (hopen : phpXzInitDecoder L memoryLimit st₀ = some ctx) :
    ReadingFile L.coder s₀ io left st₀ [] {} ctx := by
  have hwindowed := (phpXzInitDecoder_windowed hopen).1
  obtain ⟨s, hs, rfl⟩ := phpXzInitDecoder_eq hopen
  obtain rfl : s₀ = s := Except.ok.inj (hinit.symm.trans hs)
  refine ⟨hwindowed, .start, rfl, rfl, rfl, rfl, rfl, ?_, rfl⟩
  refine ReadPhase.feeding (Reads.start : Reads io st₀ [] st₀) rfl ?_ rfl
  intro f' s' hnone
  cases hnone with
  | done => exact .nil
  | call hne _ _ => exact absurd rfl hne

/-- **Reading a file from the start.** No read fails, and asking for more than there is reaches the
end, with all read. -/
theorem readAll_file {L : Liblzma σ} {memoryLimit : UInt64}
    (hinit : L.lzmaAutoDecoder (memoryLimitOrMax memoryLimit) LZMA_CONCATENATED = .ok s₀)
    (hopen : phpXzInitDecoder L memoryLimit st₀ = some ctx) (hfile : FileStream io left)
    (hdec : Decodes L.coder s₀ file D) (hpre : left st₀ <+: file) (counts : List Nat) (fuel : Nat)
    (hfuel : file.length + D.length + 1 < fuel) :
    ∃ bytes ended, readAll L.coder io fuel ctx counts = .ok (bytes, ended) ∧ ended ≠ .error ∧
      (ended = .eof → ReadOut L.coder s₀ io left st₀ D bytes) ∧
      (D.length < counts.sum → ended = .eof) := by
  obtain ⟨bytes, ended, hread, herror, hout, hmore⟩ :=
    readAll_spec hfile hdec hpre fuel hfuel counts (phpXzInitDecoder_reading hinit hopen)
  refine ⟨bytes, ended, hread, herror, hout, ?_⟩
  intro hlong
  cases ended with
  | eof => rfl
  | error => exact absurd rfl herror
  | more =>
    obtain ⟨hsum, f', ctx', hstands⟩ := hmore rfl
    have hle := (hstands.decodes hfile hdec hpre).length_le
    rw [List.nil_append] at hle
    omega

end PhpExtXz
