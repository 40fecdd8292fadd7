/-
# PhpExtXz.ReadAny — reading a file of any content.

A file that is opened for reading need not be one that decodes. `Fetching` says where the reads of it
stand by its bytes alone: which of them the decoder has taken, which wait in `in_buf`, and which are still
below; and once the coder has failed, that some of them are wrong. A call that fails may put out some
bytes that do not come from the file, which are handed out like others (`FromContent`). `php_xziop_read`
keeps to itself a failure that it meets when it has bytes to return, and finds a clean end behind one that
it meets with the last byte. So what reading says of a file is this (`reads_decide`): an error says that its
bytes are wrong; an end says that all of them were taken, and that no byte before the last one makes them
wrong unless a failure was kept.
-/
import PhpExtXz.DecodePaths
import PhpExtXz.ReadErrors

namespace PhpExtXz

open FuelLoop XzStreamCtx

variable {σ ι : Type}

/-! ## Where reading stands -/

/-- The bytes cannot be decoded: they begin with some that the decoder refuses. -/
def Wrong (verdict : List UInt8 → Verdict) (content : List UInt8) : Prop :=
  ∃ y, y <+: content ∧ verdict y = .failed

/-- The bytes come from the content, but for what a call has put out that failed. -/
def FromContent (out : List UInt8 → List UInt8) (verdict : List UInt8 → Verdict)
    (content bytes : List UInt8) : Prop :=
  ∃ good extra, bytes = good ++ extra ∧ good <+: out content ∧ extra.length ≤ XZ_BUFFER_SIZE ∧
    (extra ≠ [] → Wrong verdict content)

/-- What is wrong with a coder: it has met a fatal code, or the memory limit. -/
def Feed.Broken (f : Feed) : Prop := f.fatal = true ∨ f.limited = true

/-- Between two passes of a read, when `given` has been handed out. -/
structure Fetching (c : Coder σ) (s₀ : σ) (out : List UInt8 → List UInt8)
    (verdict : List UInt8 → Verdict) (io : Inner ι) (left : ι → List UInt8)
    (content given : List UInt8) (f : Feed) (ctx : XzStreamCtx σ ι) : Prop where
  windowed : ctx.Windowed
  reaches : Reaches c s₀ f ctx.strm.internal
  running : f.finishing = none
  notEnded : f.ended = false
  emitted : given ++ ctx.waiting = f.emitted
  whole : f.taken ++ ctx.inPending ++ left ctx.stream = content
  /-- a call without progress was the one without input, when the end of the file showed -/
  fresh : f.failed = false → f.allowBufError = true → ctx.strm.availIn = 0 ∧ io.eof ctx.stream = true
  wrong : f.failed = true → f.Broken ∧ Wrong verdict content
  source : FromContent out verdict content f.emitted
  notEof : ctx.eof = false

/-- What is still to come: input to take, output to hand out, and the end of the file. -/
def Fetching.toCome (out : List UInt8 → List UInt8) (content given : List UInt8) (io : Inner ι)
    (left : ι → List UInt8) (ctx : XzStreamCtx σ ι) : Nat :=
  ctx.inPending.length + (left ctx.stream).length +
    ((out content).length - (given ++ ctx.waiting).length) + if io.eof ctx.stream then 0 else 1

/-- All of the file has been taken, and all that was put out has been handed out. No byte before the last
one makes the file wrong, unless the coder has failed. -/
def AllRead (c : Coder σ) (s₀ : σ) (verdict : List UInt8 → Verdict) (content given : List UInt8) : Prop :=
  ∃ f s, Reaches c s₀ f s ∧ f.finishing = none ∧ f.taken = content ∧ f.emitted = given ∧
    (f.failed = false → ∀ y, y <+: content → y ≠ content → verdict y = .more) ∧
    (f.failed = true → Wrong verdict content)

variable {c : Coder σ} {s₀ : σ} {out : List UInt8 → List UInt8} {verdict : List UInt8 → Verdict}
  {quiet : List UInt8 → Bool} {io : Inner ι} {left : ι → List UInt8} {content given bytes : List UInt8}
  {f : Feed} {ctx ctx' e e₁ : XzStreamCtx σ ι} {r : Reading σ ι} {res : CodeResult σ} {count fuel : Nat}

theorem FromContent.of_prefix (h : FromContent out verdict content bytes) (hpre : given <+: bytes) :
    FromContent out verdict content given := by
  obtain ⟨good, extra, rfl, hgood, hextra, hwrong⟩ := h
  rcases List.prefix_or_prefix_of_prefix hpre (List.prefix_append good extra) with hinside | ⟨more, rfl⟩
  · exact ⟨given, [], (List.append_nil _).symm, hinside.trans hgood, Nat.zero_le _, fun hne => absurd rfl hne⟩
  · have hmore : more <+: extra := (List.prefix_append_right_inj good).mp hpre
    refine ⟨good, more, rfl, hgood, Nat.le_trans hmore.length_le hextra, fun hne => hwrong ?_⟩
    rintro rfl
    exact hne (List.prefix_nil.mp hmore)

theorem FromContent.length_le (h : FromContent out verdict content bytes) :
    bytes.length ≤ (out content).length + XZ_BUFFER_SIZE := by
  obtain ⟨good, extra, rfl, hgood, hextra, -⟩ := h
  have hle := hgood.length_le
  rw [List.length_append]
  omega

/-- Where nothing is wrong, all of it comes from the content. -/
theorem FromContent.decoded (h : FromContent out verdict content bytes) (hright : ¬ Wrong verdict content) :
    bytes <+: out content := by
  obtain ⟨good, extra, rfl, hgood, -, hwrong⟩ := h
  have hnil : extra = [] := by
    by_contra hne
    exact hright (hwrong hne)
  rw [hnil, List.append_nil]
  exact hgood

theorem FromContent.of_out (h : bytes <+: out content) : FromContent out verdict content bytes :=
  ⟨bytes, [], (List.append_nil _).symm, h, Nat.zero_le _, fun hne => absurd rfl hne⟩

/-- What has been handed out comes from the bytes of the file. -/
theorem Fetching.decodes (h : Fetching c s₀ out verdict io left content given f ctx) :
    FromContent out verdict content given := by
  apply h.source.of_prefix
  rw [← h.emitted]
  exact List.prefix_append _ _

/-- What a coder that has met no fatal code has put out comes from the bytes it was given. -/
theorem Fetching.emitted_prefix (h : Fetching c s₀ out verdict io left content given f ctx)
    (hdec : ByteDecoder c s₀ out verdict) (hfatal : f.fatal = false) : f.emitted <+: out content := by
  have htaken : f.taken <+: content := by
    rw [← h.whole, List.append_assoc]
    exact List.prefix_append _ _
  exact (hdec.out_prefix h.reaches hfatal).trans (hdec.out_mono htaken)

/-- Handing out the window. -/
theorem Fetching.emptied (h : Fetching c s₀ out verdict io left content given f ctx) (he : Emptied ctx e) :
    Fetching c s₀ out verdict io left content (given ++ ctx.waiting) f e where
  windowed := he.windowed
  reaches := by
    rw [he.internal]
    exact h.reaches
  running := h.running
  notEnded := h.notEnded
  emitted := by
    rw [waiting_of_atNextOut he.bounded he.atNextOut, List.append_nil]
    exact h.emitted
  whole := by
    rw [he.inPending, he.stream]
    exact h.whole
  fresh := by
    rw [he.availIn, he.stream]
    exact h.fresh
  wrong := h.wrong
  source := h.source
  notEof := he.eof.trans h.notEof

/-- Handing out the beginning of the window. -/
theorem Fetching.fromWindow (h : Fetching c s₀ out verdict io left content given f ctx) {idx n : Nat}
    (hidx : ctx.outBufIdx = some idx)
    (hw : ({ ctx with outBufIdx := some (idx + n) } : XzStreamCtx σ ι).Windowed) :
    Fetching c s₀ out verdict io left content (given ++ ctx.waiting.take n) f
      { ctx with outBufIdx := some (idx + n) } where
  windowed := hw
  reaches := h.reaches
  running := h.running
  notEnded := h.notEnded
  emitted := by
    have hrest : ({ ctx with outBufIdx := some (idx + n) } : XzStreamCtx σ ι).waiting =
        ctx.waiting.drop n := by
      rw [waiting_of_idx hidx, List.drop_drop]
      rfl
    rw [hrest, List.append_assoc, List.take_append_drop]
    exact h.emitted
  whole := h.whole
  fresh := h.fresh
  wrong := h.wrong
  source := h.source
  notEof := h.notEof

/-- At the end of the file, with an empty window. -/
theorem Fetching.atEnd (h : Fetching c s₀ out verdict io left content given f e)
    (hdec : ByteDecoder c s₀ out verdict) (hfile : FileStream io left)
    (hat : e.outBufIdx = some e.strm.nextOut) (hin : e.strm.availIn = 0) (hend : io.eof e.stream = true) :
    AllRead c s₀ verdict content given := by
  have htaken : f.taken = content := by
    have hnil : e.inPending = [] := by
      apply List.eq_nil_of_length_eq_zero
      rw [h.windowed.bounded.length_inPending, hin]
    have hwhole := h.whole
    rw [hnil, hfile.eof _ hend, List.append_nil, List.append_nil] at hwhole
    exact hwhole
  refine ⟨f, _, h.reaches, h.running, htaken, ?_, fun hgood y hy hne => ?_, fun hbad => (h.wrong hbad).2⟩
  · rw [← h.emitted, waiting_of_atNextOut h.windowed.bounded hat, List.append_nil]
  · rw [← htaken] at hy hne
    exact hdec.never_past h.reaches h.running hgood hy hne

/-! ## One call of the coder -/

/-- What a refill has brought: the same bytes are still to be taken, and there is input, or the file has
just shown its end. -/
theorem FileStream.refilled (hfile : FileStream io left) (hb : e.Bounded) (hr : Refilled io e e₁) :
    e₁.inPending ++ left e₁.stream = e.inPending ++ left e.stream ∧
      (e₁.inPending = [] → io.eof e.stream = false ∧ io.eof e₁.stream = true) := by
  have hlen := hb.length_inPending
  rcases hr.source with ⟨hsome, hstream, hpending⟩ | ⟨hnone, hunended, bytes, hread, hpending⟩
  · rw [hstream, hpending]
    refine ⟨rfl, fun hnil => absurd ?_ hsome⟩
    rw [← hlen, hnil, List.length_nil]
  · have hempty : e.inPending = [] := List.eq_nil_of_length_eq_zero (by omega)
    obtain ⟨_, _, hread', hleft, -, hlast⟩ := hfile.read e.stream XZ_BUFFER_SIZE (by decide)
    obtain ⟨hbytes, rfl⟩ := Prod.mk.inj (hread'.symm.trans hread)
    cases hbytes
    refine ⟨by rw [hpending, hempty, hleft, List.nil_append], fun hnil => ⟨hunended, hlast ?_⟩⟩
    rw [← hpending]
    exact hnil

/-- After a call, reading stands as before, if the ledger says what the call has brought. -/
theorem Fetching.coded (h : Fetching c s₀ out verdict io left content given f e) (hfile : FileStream io left)
    (hat : e.outBufIdx = some e.strm.nextOut) (hroom : 0 < e.strm.availOut) (hr : Refilled io e e₁)
    (hcode : c.code e₁.strm.internal .run e₁.inPending e₁.strm.availOut = res)
    (hcoded : CodedTo c .run e₁ res ctx') (hend : res.ret ≠ .streamEnd)
    (hfresh : (f.step .run e₁.inPending res).failed = false →
      (f.step .run e₁.inPending res).allowBufError = true → e₁.inPending = [] ∧ io.eof e₁.stream = true)
    (hwrong : (f.step .run e₁.inPending res).failed = true →
      (f.step .run e₁.inPending res).Broken ∧ Wrong verdict content)
    (hsource : FromContent out verdict content (f.emitted ++ res.emitted)) :
    Fetching c s₀ out verdict io left content given (f.step .run e₁.inPending res) ctx' where
  windowed := by
    apply hcoded.windowed hr.bounded hr.atNextOut
    rw [hr.availOut]
    exact hroom
  reaches := by
    have hroom₁ : 0 < e₁.strm.availOut := by
      rw [hr.availOut]
      exact hroom
    rw [hcoded.strm]
    refine Reaches.run ?_ hroom₁ hcode
    rw [hr.internal]
    exact h.reaches
  running := h.running
  notEnded := by simp [Feed.step, h.notEnded, hend]
  emitted := by
    have hgiven : given = f.emitted := by
      rw [← h.emitted, waiting_of_atNextOut h.windowed.bounded hat, List.append_nil]
    rw [hcoded.waiting hr.bounded hr.atNextOut, hgiven]
    rfl
  whole := by
    obtain ⟨hsame, -⟩ := hfile.refilled h.windowed.bounded hr
    rw [hcoded.inPending, hcoded.stream, Feed.taken_step_append, List.append_assoc, hsame, ← List.append_assoc]
    exact h.whole
  fresh := by
    intro hgood hstalled
    obtain ⟨hnil, hended⟩ := hfresh hgood hstalled
    have hin : e₁.strm.availIn = 0 := by
      rw [← hr.bounded.length_inPending, hnil, List.length_nil]
    rw [hcoded.strm, hcoded.stream, LzmaStream.advance_availIn, hin, Nat.zero_sub]
    exact ⟨rfl, hended⟩
  wrong := hwrong
  source := hsource
  notEof := by
    rw [hcoded.eof, hr.eof]
    exact h.notEof

/-- A call that returned `LZMA_OK` leaves less to come. -/
theorem Fetching.toCome_lt (hnext : Fetching c s₀ out verdict io left content given f ctx')
    (hdec : ByteDecoder c s₀ out verdict) (hfile : FileStream io left) (hb : e.Bounded)
    (hat : e.outBufIdx = some e.strm.nextOut) (hr : Refilled io e e₁) (hcoded : CodedTo c .run e₁ res ctx')
    (hfatal : f.fatal = false) (hprog : e₁.inPending ≠ [] → res.Progress) :
    Fetching.toCome out content given io left ctx' < Fetching.toCome out content given io left e := by
  obtain ⟨hsame, hlast⟩ := hfile.refilled hb hr
  have hinput := congrArg List.length hsame
  rw [List.length_append, List.length_append] at hinput
  have htaken : res.taken ≤ e₁.inPending.length := by
    rw [hr.bounded.length_inPending]
    exact hcoded.taken_le
  have hwaiting : ctx'.waiting = res.emitted := hcoded.waiting hr.bounded hr.atNextOut
  have hle : (given ++ res.emitted).length ≤ (out content).length := by
    rw [← hwaiting, hnext.emitted]
    exact (hnext.emitted_prefix hdec hfatal).length_le
  rw [List.length_append] at hle
  simp only [toCome, hwaiting, waiting_of_atNextOut hb hat, hcoded.inPending, hcoded.stream, List.length_append,
    List.length_drop, List.length_nil]
  by_cases hmoved : res.Progress
  · have hsome : 0 < res.taken + res.emitted.length := by
      rcases hmoved with htook | hput
      · omega
      · have := List.length_pos_iff.mpr hput
        omega
    have hflag : (if io.eof e₁.stream then 0 else 1) ≤ if io.eof e.stream then 0 else 1 := by
      by_cases he : io.eof e.stream = true
      · rw [if_pos he, if_pos (hr.eof_stream he)]
      · rw [if_neg he]
        split <;> omega
    omega
  · -- there was no input, so the file has just shown its end
    have hnil : e₁.inPending = [] := by
      by_contra hne
      exact hmoved (hprog hne)
    obtain ⟨hunended, hended⟩ := hlast hnil
    simp only [hunended, hended, if_true, Bool.false_eq_true, if_false]
    omega

/-- A call of a coder that has failed: it refuses, or repeats the memory limit, or finds nothing to do. -/
theorem Fetching.called_broken (h : Fetching c s₀ out verdict io left content given f e)
    (hdec : ByteDecoder c s₀ out verdict) (hrefuses : RefusesAfterFatal c s₀)
    (hrepeats : RepeatsLimit c s₀ quiet) (hfile : FileStream io left)
    (hat : e.outBufIdx = some e.strm.nextOut) (hroom : 0 < e.strm.availOut) (hr : Refilled io e e₁)
    (hcode : c.code e₁.strm.internal .run e₁.inPending e₁.strm.availOut = res)
    (hcoded : CodedTo c .run e₁ res ctx') (hbad : f.failed = true) :
    (∃ f', Fetching c s₀ out verdict io left content given f' ctx') ∧
      ((res.ret = .ok ∧
          Fetching.toCome out content given io left ctx' < Fetching.toCome out content given io left e) ∨
        (¬ (res.ret = .ok ∨ res.ret = .streamEnd) ∧ Wrong verdict content)) := by
  have hroom₁ : 0 < e₁.strm.availOut := by
    rw [hr.availOut]
    exact hroom
  have hreach : Reaches c s₀ f e₁.strm.internal := by
    rw [hr.internal]
    exact h.reaches
  obtain ⟨hbroken, hwrong⟩ := h.wrong hbad
  have hrefused : f.refuses .run = false := by rw [Feed.refuses, h.running]; rfl
  -- what such a call does not do
  have hidle : ¬ res.Progress ∧ res.ret ≠ .streamEnd ∧
      (res.ret = .ok → e₁.inPending = [] ∧ f.fatal = false) := by
    cases hfatal : f.fatal with
    | true =>
      obtain ⟨hret, hno⟩ := hrefuses hreach hfatal hroom₁ hcode
      rw [hret]
      exact ⟨hno, by decide, fun h => by cases h⟩
    | false =>
      have hlimited : f.limited = true := hbroken.resolve_left (by rw [hfatal]; decide)
      obtain ⟨hno, hret⟩ := hrepeats hreach hlimited hfatal
        (show f.Allows .run e₁.inPending from trivial) hroom₁ hcode
      rw [Feed.limitCode, if_neg (by rw [hrefused]; decide)] at hret
      by_cases hquiet : e₁.inPending = [] ∧ quiet f.taken = true
      · rw [if_pos hquiet] at hret
        rw [hret]
        refine ⟨hno, ?_, fun _ => ⟨hquiet.1, rfl⟩⟩
        rcases f.stallCode_cases with hcase | hcase <;> rw [hcase] <;> decide
      · rw [if_neg hquiet] at hret
        rw [hret]
        exact ⟨hno, by decide, fun h => by cases h⟩
  obtain ⟨hno, hnotEnd, hok⟩ := hidle
  have hstays : (f.step .run e₁.inPending res).failed = true := by simp [Feed.step, hbad]
  have hnext := h.coded hfile hat hroom hr hcode hcoded hnotEnd
    (fun hgood => by rw [hstays] at hgood; cases hgood)
    (fun _ => ⟨hbroken.imp (fun hb => by simp [Feed.step, hb]) (fun hb => by simp [Feed.step, hb]), hwrong⟩)
    (by rw [CodeResult.emitted_of_not_progress hno, List.append_nil]; exact h.source)
  refine ⟨⟨_, hnext⟩, ?_⟩
  by_cases hret : res.ret = .ok
  · obtain ⟨hnil, hfatal⟩ := hok hret
    refine Or.inl ⟨hret, hnext.toCome_lt hdec hfile h.windowed.bounded hat hr hcoded ?_ fun hne =>
      absurd hnil hne⟩
    simp [Feed.step, hfatal, hret, LzmaRet.isFatal]
  · exact Or.inr ⟨fun heq => heq.elim hret hnotEnd, hwrong⟩

/-- **A call of the coder.** It returns `LZMA_OK`, and less is to come; or it fails, and the bytes are wrong. -/
theorem Fetching.called (h : Fetching c s₀ out verdict io left content given f e)
    (hdec : ByteDecoder c s₀ out verdict) (hrun : ∀ x, verdict x ≠ .ended)
    (hrefuses : RefusesAfterFatal c s₀) (hrepeats : RepeatsLimit c s₀ quiet) (htells : NeverAnnounces c s₀)
    (hfile : FileStream io left) (hat : e.outBufIdx = some e.strm.nextOut) (hroom : 0 < e.strm.availOut)
    (hr : Refilled io e e₁)
    (hcode : c.code e₁.strm.internal .run e₁.inPending e₁.strm.availOut = res)
    (hcoded : CodedTo c .run e₁ res ctx') :
    (∃ f', Fetching c s₀ out verdict io left content given f' ctx') ∧
      ((res.ret = .ok ∧
          Fetching.toCome out content given io left ctx' < Fetching.toCome out content given io left e) ∨
        (¬ (res.ret = .ok ∨ res.ret = .streamEnd) ∧ Wrong verdict content)) := by
  by_cases hbad : f.failed = true
  · exact h.called_broken hdec hrefuses hrepeats hfile hat hroom hr hcode hcoded hbad
  have hgood : f.failed = false := Bool.eq_false_iff.mpr hbad
  have hroom₁ : 0 < e₁.strm.availOut := by
    rw [hr.availOut]
    exact hroom
  have hreach : Reaches c s₀ f e₁.strm.internal := by
    rw [hr.internal]
    exact h.reaches
  obtain ⟨hsame, hlast⟩ := hfile.refilled h.windowed.bounded hr
  have hbefore := h.emitted_prefix hdec (hreach.not_fatal hgood)
  rcases res.ret.ok_or_end_or_stall_or_fails with hok | hend | hstall | hfails
  · have hprog : e₁.inPending ≠ [] → res.Progress := fun hne =>
      hdec.run_progress hreach h.running h.notEnded hgood hroom₁ hne hcode hok
    have hreach' := hreach.run hroom₁ hcode
    have hstays : (f.step .run e₁.inPending res).failed = false :=
      Feed.notFailed_step hgood (by rw [hok]; rfl)
    have hfatal := hreach'.not_fatal hstays
    have htaken : (f.step .run e₁.inPending res).taken <+: content := by
      rw [← h.whole, List.append_assoc, ← hsame, ← List.append_assoc]
      exact (Feed.taken_step_prefix .run).trans (List.prefix_append _ _)
    have hnext := h.coded hfile hat hroom hr hcode hcoded (by rw [hok]; decide) ?_ ?_
      (.of_out ((hdec.out_prefix hreach' hfatal).trans (hdec.out_mono htaken)))
    · exact ⟨⟨_, hnext⟩,
        Or.inl ⟨hok, hnext.toCome_lt hdec hfile h.windowed.bounded hat hr hcoded hfatal hprog⟩⟩
    · intro _ hstalled
      have hno : ¬ res.Progress := by simpa [Feed.step, hok] using hstalled
      have hnil : e₁.inPending = [] := by
        by_contra hne
        exact hno (hprog hne)
      exact ⟨hnil, (hlast hnil).2⟩
    · intro hbad'
      rw [hstays] at hbad'
      cases hbad'
  · exact absurd (hdec.run_ended hreach h.running h.notEnded hgood hroom₁ hcode hend).1 (hrun _)
  · -- only a call without input stalls, and there is none after the end of the file
    obtain ⟨-, hnil, hstalled⟩ := (hdec.run_stalled hreach h.running h.notEnded hgood hroom₁ hcode).1 hstall
    obtain ⟨hunended, -⟩ := hlast hnil
    rw [(h.fresh hgood hstalled).2] at hunended
    cases hunended
  · obtain ⟨x, hat'⟩ := hdec.run_failed hreach h.running h.notEnded hgood hroom₁ hcode hfails
    have hwrong : Wrong verdict content := by
      refine ⟨x, hat'.inside.trans ?_, hat'.decided⟩
      rw [← h.whole, List.append_assoc, ← hsame, ← List.append_assoc]
      exact List.prefix_append _ _
    have hcodes : ¬ (res.ret = .ok ∨ res.ret = .streamEnd) := fun heq =>
      heq.elim (LzmaRet.ne_of_fails hfails).1 (LzmaRet.ne_of_fails hfails).2.1
    have hstays : (f.step .run e₁.inPending res).failed = true := by
      simp [Feed.step, hfails, Feed.refuses, h.running]
    have hbroken : (f.step .run e₁.inPending res).Broken := by
      rcases LzmaRet.fails_cases hfails with ⟨hfatal, -⟩ | ⟨htold, -⟩ | hlimit
      · exact Or.inl (by simp [Feed.step, hfatal, Feed.refuses, h.running])
      · rw [htells hreach hcode] at htold
        cases htold
      · exact Or.inr (by simp [Feed.step, hlimit])
    -- what it has put out beside does not fill more than the window
    have hextra : res.emitted.length ≤ XZ_BUFFER_SIZE := by
      have hle := hcoded.emitted_le
      have hwindow := hr.bounded.room
      omega
    refine ⟨⟨_, h.coded hfile hat hroom hr hcode hcoded (fun heq => hcodes (Or.inr heq)) ?_
      (fun _ => ⟨hbroken, hwrong⟩) ⟨_, _, rfl, hbefore, hextra, fun _ => hwrong⟩⟩, Or.inr ⟨hcodes, hwrong⟩⟩
    intro hgood'
    rw [hstays] at hgood'
    cases hgood'

/-! ## One read -/

/-- What a read of `count` bytes leaves: bytes, and reading where it stands; the last bytes, and the end; or
the error value. -/
inductive ReadsAny (c : Coder σ) (s₀ : σ) (out : List UInt8 → List UInt8)
    (verdict : List UInt8 → Verdict) (io : Inner ι) (left : ι → List UInt8)
    (content given : List UInt8) (count : Nat) :
    Option (List UInt8) × XzStreamCtx σ ι → Prop
  | more {bytes : List UInt8} {ctx' : XzStreamCtx σ ι} {f : Feed}
      (some_or_full : bytes ≠ [] ∨ bytes.length = count)
      (fetching : Fetching c s₀ out verdict io left content (given ++ bytes) f ctx') :
      ReadsAny c s₀ out verdict io left content given count (some bytes, ctx')
  | ended {bytes : List UInt8} {ctx' : XzStreamCtx σ ι} (eof : ctx'.eof = true)
      (all : AllRead c s₀ verdict content (given ++ bytes))
      (source : FromContent out verdict content (given ++ bytes)) :
      ReadsAny c s₀ out verdict io left content given count (some bytes, ctx')
  | failed {ctx' : XzStreamCtx σ ι} (wrong : Wrong verdict content) :
      ReadsAny c s₀ out verdict io left content given count (none, ctx')

section Any

variable (hdec : ByteDecoder c s₀ out verdict) (hrun : ∀ x, verdict x ≠ .ended)
  (hrefuses : RefusesAfterFatal c s₀) (hrepeats : RepeatsLimit c s₀ quiet) (htells : NeverAnnounces c s₀)
  (hfile : FileStream io left)

include hdec hrun hrefuses hrepeats htells hfile in
/-- **One pass of a read.** It goes round again with less to come, or it leaves. -/
theorem readTurn_any (h : Fetching c s₀ out verdict io left content (given ++ r.buf) f r.self)
    (hcount : r.buf.length + r.toRead = count) :
    (∃ r', readTurn c io r = .ok (.again r') ∧
      ((∃ f', Fetching c s₀ out verdict io left content (given ++ r'.buf) f' r'.self) ∧
        r'.buf.length + r'.toRead = count) ∧
      Fetching.toCome out content (given ++ r'.buf) io left r'.self <
        Fetching.toCome out content (given ++ r.buf) io left r.self) ∨
    ∃ p, readTurn c io r = .ok (.leave p) ∧ ReadsAny c s₀ out verdict io left content given count p := by
  obtain ⟨t, hturn, hstep⟩ := readTurn_step c io h.windowed
  have hw := hstep.windowed h.windowed
  -- what a pass does to the window first
  have hempty : ∀ {e}, Emptied r.self e →
      Fetching c s₀ out verdict io left content (given ++ (r.buf ++ r.self.waiting)) f e ∧
        Fetching.toCome out content (given ++ (r.buf ++ r.self.waiting)) io left e =
          Fetching.toCome out content (given ++ r.buf) io left r.self := by
    intro e he
    refine ⟨by rw [← List.append_assoc]; exact h.emptied he, ?_⟩
    simp only [Fetching.toCome, he.inPending, he.stream, waiting_of_atNextOut he.bounded he.atNextOut,
      List.append_nil, List.append_assoc]
  rw [hturn]
  cases hstep with
  | full enough => exact Or.inr ⟨_, rfl, .more (Or.inr (by omega)) h⟩
  | fromWindow more short at_idx =>
    refine Or.inr ⟨_, rfl, .more (f := f) (Or.inr ?_) ?_⟩
    · rw [List.length_append, List.length_take]
      omega
    · rw [← List.append_assoc]
      exact h.fromWindow at_idx hw.1
  | atEnd more all emptied noInput noMore =>
    obtain ⟨hread, -⟩ := hempty emptied
    refine Or.inr ⟨_, rfl, .ended rfl (hread.atEnd hdec hfile emptied.atNextOut noInput noMore) hread.decodes⟩
  | @readFailed e st more all emptied noInput unended read =>
    obtain ⟨_, _, hread, -, -, -⟩ := hfile.read e.stream XZ_BUFFER_SIZE (by decide)
    rw [read] at hread
    cases hread
  | decoded more all emptied refilled code coded fine =>
    obtain ⟨hread, hcome⟩ := hempty emptied
    obtain ⟨hnext, ⟨-, hlt⟩ | ⟨hbad, -⟩⟩ := hread.called hdec hrun hrefuses hrepeats htells hfile
      emptied.atNextOut emptied.room refilled code coded
    · refine Or.inl ⟨_, rfl, ⟨hnext, ?_⟩, ?_⟩
      · simp only [List.length_append]
        omega
      · rw [← hcome]
        exact hlt
    · exact absurd fine hbad
  | decodeFailed more all emptied refilled code coded bad =>
    obtain ⟨⟨f', hnext⟩, ⟨hok, -⟩ | ⟨-, hwrong⟩⟩ := (hempty emptied).1.called hdec hrun hrefuses hrepeats
      htells hfile emptied.atNextOut emptied.room refilled code coded
    · exact absurd (Or.inl hok) bad
    · -- what the read has it returns, and keeps the failure to itself
      refine Or.inr ⟨_, rfl, ?_⟩
      by_cases hnone : (r.buf ++ r.self.waiting).length = 0
      · rw [readFailure, if_pos hnone]
        exact .failed hwrong
      · rw [readFailure, if_neg hnone]
        exact .more (Or.inl fun hnil => hnone (by rw [hnil, List.length_nil])) hnext

include hdec hrun hrefuses hrepeats htells hfile in
/-- **A read of a file of any content.** -/
theorem phpXziopRead_any (h : Fetching c s₀ out verdict io left content given f ctx) (count fuel : Nat)
    (hfuel : content.length + (out content).length + 1 < fuel) :
    ∃ p, phpXziopRead c io fuel ctx count = .ok p ∧
      ReadsAny c s₀ out verdict io left content given count p := by
  have hcome : Fetching.toCome out content (given ++ []) io left ctx < fuel := by
    have hlen := congrArg List.length h.whole
    rw [List.length_append, List.length_append] at hlen
    have hflag : (if io.eof ctx.stream then 0 else 1) ≤ 1 := by split <;> omega
    unfold Fetching.toCome
    omega
  apply loop_returns (fun r : Reading σ ι =>
      (∃ f, Fetching c s₀ out verdict io left content (given ++ r.buf) f r.self) ∧
        r.buf.length + r.toRead = count)
    (fun r => Fetching.toCome out content (given ++ r.buf) io left r.self) _ fuel ⟨ctx, [], count⟩ _ hcome
  · rintro r ⟨⟨f, hread⟩, hcount⟩
    exact readTurn_any hdec hrun hrefuses hrepeats htells hfile hread hcount
  · refine ⟨⟨f, ?_⟩, Nat.zero_add _⟩
    rw [List.append_nil]
    exact h

/-! ## Reading to the end -/

/-- What reading has to say of a file when it is over. -/
inductive Judged (c : Coder σ) (s₀ : σ) (verdict : List UInt8 → Verdict) (content given : List UInt8) :
    ReadEnd → Prop
  | eof (all : AllRead c s₀ verdict content given) : Judged c s₀ verdict content given .eof
  | error (wrong : Wrong verdict content) : Judged c s₀ verdict content given .error

include hdec hrun hrefuses hrepeats htells hfile in
/-- **Reading on and on.** What is returned comes from the bytes of the file; either a byte is returned for
each read that asks for some, or the reads have come to an end and say so. -/
theorem readAll_any (fuel : Nat) (hfuel : content.length + (out content).length + 1 < fuel) (counts : List Nat)
    (hpos : ∀ count ∈ counts, 0 < count) :
    ∀ {given f ctx}, Fetching c s₀ out verdict io left content given f ctx →
      ∃ bytes ended, readAll c io fuel ctx counts = .ok (bytes, ended) ∧
        FromContent out verdict content (given ++ bytes) ∧
        ((ended = .more ∧ counts.length ≤ bytes.length) ∨
          Judged c s₀ verdict content (given ++ bytes) ended) := by
  induction counts with
  | nil =>
    intro given f ctx h
    refine ⟨[], .more, rfl, ?_, Or.inl ⟨rfl, Nat.le_refl _⟩⟩
    rw [List.append_nil]
    exact h.decodes
  | cons count counts ih =>
    intro given f ctx h
    rw [List.forall_mem_cons] at hpos
    obtain ⟨p, hread, hp⟩ := phpXziopRead_any hdec hrun hrefuses hrepeats htells hfile h count fuel hfuel
    simp only [readAll, hread, ok_bind]
    cases hp with
    | @more bytes ctx' f' some_or_full fetching =>
      obtain ⟨rest, ended, hrest, hpre, hend⟩ := ih hpos.2 fetching
      have hsome : 0 < bytes.length := by
        rcases some_or_full with hne | hfull
        · exact List.length_pos_iff.mpr hne
        · have := hpos.1
          omega
      refine ⟨bytes ++ rest, ended, ?_, ?_, ?_⟩
      · simp only [fetching.notEof, hrest, ok_bind, pure_eq_ok, Bool.false_eq_true, if_false]
      · rw [← List.append_assoc]
        exact hpre
      · rw [← List.append_assoc]
        refine hend.imp_left fun hmore => ⟨hmore.1, ?_⟩
        have hlen := hmore.2
        rw [List.length_cons, List.length_append]
        omega
    | @ended bytes ctx' eof all source =>
      refine ⟨bytes, .eof, ?_, source, Or.inr (.eof all)⟩
      simp only [eof, if_true, pure_eq_ok]
    | failed wrong =>
      refine ⟨[], .error, rfl, ?_, Or.inr (.error wrong)⟩
      rw [List.append_nil]
      exact h.decodes

end Any

/-- A stream as it is opened. -/
theorem phpXzInitDecoder_fetching {L : Liblzma σ} {memoryLimit : UInt64} {st : ι}
    (hinit : L.lzmaAutoDecoder (memoryLimitOrMax memoryLimit) LZMA_CONCATENATED = .ok s₀)
    (hopen : phpXzInitDecoder L memoryLimit st = some ctx) :
    Fetching L.coder s₀ out verdict io left (left st) [] {} ctx := by
  have hwindowed := (phpXzInitDecoder_windowed hopen).1
  obtain ⟨s, hs, rfl⟩ := phpXzInitDecoder_eq hopen
  obtain rfl : s₀ = s := Except.ok.inj (hinit.symm.trans hs)
  exact ⟨hwindowed, .start, rfl, rfl, rfl, rfl, nofun, nofun, .of_out List.nil_prefix, rfl⟩

/-- A file with a wrong mark behind two bytes; it comes in two pieces. -/
def wrongMark : XzStreamCtx StoredState Pieces :=
  { freshCtx markTable.start ⟨[[1, 7, 1], [8, 2, 9]], by decide⟩ false with outBufIdx := some 0 }

end PhpExtXz
