/-
# PhpExtXz.StoredCoder — a coder that follows a table.

`storedCoder` follows a `Table`, which says what the bytes decode to, where a stream ends and where it is
wrong. It leaves a byte that is wrong untaken and refuses every call from then on, or reports the memory
limit again and again. It takes bytes as long as there is room, but one byte may decode to more than that:
like a `.lzma` decoder in the middle of a long match, it then holds decoded bytes back after the end of its
input.

Its state is determined by its ledger (`storedCoder_reaches`), and so is what one of its calls does (`Went`).
-/
import PhpExtXz.CoderSpec

namespace PhpExtXz

/-! ## A coder that follows a table -/

/-- What a decoder makes of the bytes it is fed. -/
structure Table where
  out : List UInt8 → List UInt8
  verdict : List UInt8 → Verdict
  atEnd : List UInt8 → Verdict
  /-- what is wrong with the bytes is that they ask for too much memory -/
  tooLarge : List UInt8 → Bool := fun _ => false
  quiet : List UInt8 → Bool := fun _ => false
  out_nil : out [] = []
  out_mono : ∀ {x y}, x <+: y → out x <+: out y
  verdict_nil : verdict [] = .more

/-- The code that bytes are rejected with. -/
def Table.code (t : Table) (x : List UInt8) : LzmaRet :=
  if t.tooLarge x then .memlimitError else .dataError

/-- What has become of the coder. -/
inductive Course where
  | going | ended | refusing | limited
  deriving DecidableEq

/-- What the coder was fed, how much it has put out, and what else `lzma_code` remembers. -/
structure StoredState where
  table : Table
  fed : List UInt8 := []
  sent : Nat := 0
  allowBufError : Bool := false
  finishing : Bool := false
  course : Course := .going

def Table.start (t : Table) : StoredState := { table := t }

/-- How many bytes are taken, and what has stopped it: all of them, or a place where the bytes are decided,
or the output that is due has come to `goal`. A byte that makes the bytes wrong is not taken. -/
def Table.meets (t : Table) (goal : Nat) (fed : List UInt8) : List UInt8 → Nat × Verdict
  | [] => (0, t.verdict fed)
  | b :: later =>
    if goal ≤ (t.out fed).length then (0, .more)
    else if t.verdict fed = .ended then (0, .ended)
    else if t.verdict (fed ++ [b]) = .failed then (0, .failed)
    else ((t.meets goal (fed ++ [b]) later).1 + 1, (t.meets goal (fed ++ [b]) later).2)

/-- The code of a call, and what it leaves behind. -/
structure Answer where
  ret : LzmaRet
  course : Course
  allowBufError : Bool

/-- The answer to a call that has taken and emitted what it could. -/
def StoredState.answer (s : StoredState) (action : LzmaAction) (input : List UInt8) (room : Nat)
    (met : Nat × Verdict) (emitted : List UInt8) : Answer :=
  let fed := s.fed ++ input.take met.1
  let bad := s.fed ++ input.take (met.1 + 1)
  if s.sent + room ≤ (s.table.out fed).length then ⟨.ok, .going, false⟩
  else
    match met.2 with
    | .ended => ⟨.streamEnd, .ended, false⟩
    | .failed => ⟨s.table.code bad, if s.table.tooLarge bad then .limited else .refusing, false⟩
    | .more =>
      -- `LZMA_FINISH` asks what the bytes are
      match if action = .finish then s.table.atEnd fed else .more with
      | .ended => ⟨.streamEnd, .ended, false⟩
      | .failed => ⟨.dataError, .refusing, false⟩
      | .more =>
        if met.1 = 0 ∧ emitted = [] then ⟨if s.allowBufError then .bufError else .ok, .going, true⟩
        else ⟨.ok, .going, false⟩

/-- One call of a coder that has neither ended nor failed. -/
def StoredState.go (s : StoredState) (action : LzmaAction) (input : List UInt8) (room : Nat) :
    CodeResult StoredState :=
  let met := s.table.meets (s.sent + room) s.fed input
  let emitted := ((s.table.out (s.fed ++ input.take met.1)).drop s.sent).take room
  let answer := s.answer action input room met emitted
  ⟨answer.ret, met.1, emitted,
    { table := s.table
      fed := s.fed ++ input.take met.1
      sent := s.sent + emitted.length
      allowBufError := answer.allowBufError
      finishing := s.finishing || decide (action = .finish)
      course := answer.course }⟩

/-- The answer to a call that takes and emits nothing. -/
def StoredState.still (s : StoredState) (action : LzmaAction) (input : List UInt8) : Answer :=
  match s.course with
  | .ended => ⟨.streamEnd, .ended, false⟩
  | .limited =>
    if s.finishing = true ∧ action = .run then ⟨.progError, .limited, s.allowBufError⟩
    else if input = [] ∧ s.table.quiet s.fed = true then
      ⟨if s.allowBufError then .bufError else .ok, .limited, true⟩
    else ⟨.memlimitError, .limited, false⟩
  | course => ⟨.progError, course, s.allowBufError⟩

/-- One call of the coder. -/
def storedCode (s : StoredState) (action : LzmaAction) (input : List UInt8) (room : Nat) :
    CodeResult StoredState :=
  if s.course = .going ∧ ¬ (s.finishing = true ∧ action = .run) then s.go action input room
  else
    let answer := s.still action input
    ⟨answer.ret, 0, [],
      { s with
        allowBufError := answer.allowBufError
        finishing := s.finishing || decide (action = .finish)
        course := answer.course }⟩

/-! ### How far it gets -/

section Meets

variable {t : Table} {goal : Nat} {fed input : List UInt8}

/-- Each byte adds at most one to the output. -/
def Table.Steady (t : Table) : Prop := ∀ x b, (t.out (x ++ [b])).length ≤ (t.out x).length + 1

/-- Where a call stops, in terms of the bytes. -/
structure Met (t : Table) (goal : Nat) (fed input : List UInt8) (m : Nat × Verdict) : Prop where
  le : m.1 ≤ input.length
  past : ∀ z, z <+: fed ++ input.take m.1 → z ≠ fed ++ input.take m.1 → t.verdict z = .more
  good : t.verdict (fed ++ input.take m.1) ≠ .failed
  decided : (t.out (fed ++ input.take m.1)).length < goal →
    DecidedAt t.verdict (fed ++ input) (fed ++ input.take (if m.2 = .failed then m.1 + 1 else m.1)) m.2
  moves : input ≠ [] → t.verdict fed = .more → (t.out fed).length < goal → m.1 = 0 → m.2 = .failed
  steady : t.Steady → (t.out fed).length ≤ goal → (t.out (fed ++ input.take m.1)).length ≤ goal

theorem Table.meets_met (hpast : ∀ z, z <+: fed → z ≠ fed → t.verdict z = .more)
    (hgood : t.verdict fed ≠ .failed) : Met t goal fed input (t.meets goal fed input) := by
  induction input generalizing fed with
  | nil =>
    simp only [Table.meets]
    refine ⟨Nat.le_refl _, ?_, ?_, fun _ => ?_, fun hne => absurd rfl hne, ?_⟩
    · simpa using hpast
    · simpa using hgood
    · rw [if_neg hgood]
      exact ⟨List.prefix_rfl, by simp, by simpa using hpast, fun _ => rfl⟩
    · simp
  | cons b later ih =>
    simp only [Table.meets]
    -- nothing has been taken yet
    have hstay : ∀ z, z <+: fed ++ (b :: later).take 0 → z ≠ fed ++ (b :: later).take 0 →
        t.verdict z = .more := by simpa using hpast
    have hstays : t.verdict (fed ++ (b :: later).take 0) ≠ .failed := by simpa using hgood
    by_cases hfull : goal ≤ (t.out fed).length
    · rw [if_pos hfull]
      refine ⟨Nat.zero_le _, hstay, hstays, fun hless => ?_, fun _ _ hless => ?_, ?_⟩
      · simp only [List.take_zero, List.append_nil] at hless
        omega
      · omega
      · simp
    rw [if_neg hfull]
    by_cases hended : t.verdict fed = .ended
    · rw [if_pos hended]
      refine ⟨Nat.zero_le _, hstay, hstays, fun _ => ?_, fun _ hmore => ?_, ?_⟩
      · exact ⟨by simp, by simpa using hended, by simpa using hpast, nofun⟩
      · rw [hended] at hmore
        cases hmore
      · simp
    rw [if_neg hended]
    have hmore : t.verdict fed = .more := by
      cases hv : t.verdict fed with
      | more => rfl
      | ended => exact absurd hv hended
      | failed => exact absurd hv hgood
    have hnext : ∀ z, z <+: fed ++ [b] → z ≠ fed ++ [b] → t.verdict z = .more := by
      intro z hz hne
      rcases List.prefix_concat_iff.mp hz with heq | hz
      · exact absurd heq hne
      · by_cases hsame : z = fed
        · rw [hsame, hmore]
        · exact hpast z hz hsame
    by_cases hbad : t.verdict (fed ++ [b]) = .failed
    · rw [if_pos hbad]
      refine ⟨Nat.zero_le _, hstay, hstays, fun _ => ?_, fun _ _ _ _ => rfl, ?_⟩
      · exact ⟨⟨later, by simp⟩, by simpa using hbad, by simpa using hnext, nofun⟩
      · simp
    rw [if_neg hbad]
    have hmet := ih hnext hbad
    generalize t.meets goal (fed ++ [b]) later = m at hmet
    have htake : ∀ n, fed ++ (b :: later).take (n + 1) = fed ++ [b] ++ later.take n := by simp
    refine ⟨?_, ?_, ?_, ?_, fun _ _ _ hzero => absurd hzero (Nat.succ_ne_zero _), ?_⟩
    · rw [List.length_cons]
      exact Nat.succ_le_succ hmet.le
    · rw [htake]
      exact hmet.past
    · rw [htake]
      exact hmet.good
    · rw [htake]
      intro hless
      have hat := hmet.decided hless
      rw [show fed ++ b :: later = fed ++ [b] ++ later by simp]
      by_cases hfailed : m.2 = .failed
      · rw [if_pos hfailed] at hat ⊢
        rw [htake]
        exact hat
      · rw [if_neg hfailed] at hat ⊢
        rw [htake]
        exact hat
    · intro hsteady _
      rw [htake]
      exact hmet.steady hsteady (by have := hsteady fed b; omega)

end Meets

def storedCoder : Coder StoredState where
  code := storedCode
  taken_le s action input room := by
    have hle : ∀ fed, (s.table.meets (s.sent + room) fed input).1 ≤ input.length := by
      induction input with
      | nil => exact fun _ => Nat.le_refl _
      | cons b later ih =>
        intro fed
        simp only [Table.meets]
        split
        · exact Nat.zero_le _
        split
        · exact Nat.zero_le _
        split
        · exact Nat.zero_le _
        · exact Nat.succ_le_succ (ih _)
    unfold storedCode
    split
    · exact hle _
    · exact Nat.zero_le _
  emitted_le s action input room := by
    unfold storedCode
    split
    · exact List.length_take_le _ _
    · exact Nat.zero_le _

/-! ### Its state is determined by its ledger -/

section Ledger

variable {t : Table} {f : Feed} {s : StoredState} {action : LzmaAction} {input : List UInt8} {room : Nat}
  {r : CodeResult StoredState}

/-- The bytes of a coder with ledger `f` that follows `t`. -/
structure StoredBytes (t : Table) (f : Feed) (s : StoredState) : Prop where
  table : s.table = t
  fed : s.fed = f.taken
  sent : s.sent = f.emitted.length
  finishing : s.finishing = f.finishing.isSome
  emitted : f.emitted <+: t.out f.taken
  whole : t.Steady → f.emitted = t.out f.taken
  past : ∀ z, z <+: f.taken → z ≠ f.taken → t.verdict z = .more
  good : t.verdict f.taken ≠ .failed

/-- The answer of a call. -/
def CodeResult.answer (r : CodeResult StoredState) : Answer :=
  ⟨r.ret, r.state.course, r.state.allowBufError⟩

/-- What a call of a coder that goes on comes to. -/
inductive Went (t : Table) (f : Feed) (action : LzmaAction) (input : List UInt8) (room : Nat)
    (r : CodeResult StoredState) : Prop
  | full (answered : r.answer = ⟨.ok, .going, false⟩) (fills : r.emitted.length = room)
  | ended (answered : r.answer = ⟨.streamEnd, .ended, false⟩)
      (drained : f.emitted ++ r.emitted = t.out (f.taken ++ input.take r.taken))
      (known : t.verdict (f.taken ++ input.take r.taken) = .ended ∨
        (action = .finish ∧ r.taken = input.length ∧ t.atEnd (f.taken ++ input) = .ended))
  | wrong (x : List UInt8)
      (answered : r.answer = ⟨t.code x, if t.tooLarge x then .limited else .refusing, false⟩)
      (bad : DecidedAt t.verdict (f.taken ++ input) x .failed)
  | cut (answered : r.answer = ⟨.dataError, .refusing, false⟩) (asked : action = .finish)
      (drained : f.emitted ++ r.emitted = t.out (f.taken ++ input)) (all : r.taken = input.length)
      (bad : t.atEnd (f.taken ++ input) = .failed)
  | waits (answered : r.answer =
        if r.Progress then ⟨.ok, .going, false⟩ else ⟨f.stallCode, .going, true⟩)
      (drained : f.emitted ++ r.emitted = t.out (f.taken ++ input)) (all : r.taken = input.length)
      (more : t.verdict (f.taken ++ input) = .more)
      (unasked : action = .finish → t.atEnd (f.taken ++ input) = .more)

/-- Where a call stops. -/
theorem StoredBytes.met (h : StoredBytes t f s) (room : Nat) (input : List UInt8) :
    Met t (f.emitted.length + room) f.taken input
      (t.meets (f.emitted.length + room) f.taken input) := Table.meets_met h.past h.good

/-- What a call emits continues what it has emitted. -/
theorem StoredBytes.continued (h : StoredBytes t f s) (input : List UInt8) (n : Nat) :
    ∃ due, f.emitted ++ due = t.out (f.taken ++ input.take n) ∧
      (t.out (f.taken ++ input.take n)).drop f.emitted.length = due := by
  obtain ⟨due, hdue⟩ := h.emitted.trans (t.out_mono (List.prefix_append f.taken (input.take n)))
  exact ⟨due, hdue, by rw [← hdue, List.drop_left]⟩

/-- A call keeps the account of the bytes. -/
theorem StoredBytes.go (h : StoredBytes t f s) (hr : s.go action input room = r) :
    StoredBytes t (f.step action input r) r.state := by
  subst hr
  have hmet := h.met room input
  obtain ⟨htable, hfed, hsent, hfinishing, hemitted, hwhole, hpast, hgood⟩ := h
  subst htable
  obtain ⟨due, hdue, hdrop⟩ := StoredBytes.continued
    ⟨rfl, hfed, hsent, hfinishing, hemitted, hwhole, hpast, hgood⟩ input
    (s.table.meets (f.emitted.length + room) f.taken input).1
  refine ⟨rfl, ?_, ?_, ?_, ?_, ?_, ?_, ?_⟩
  · simp only [StoredState.go, Feed.step, hfed, hsent]
  · simp only [StoredState.go, Feed.step, hfed, hsent, List.length_append]
  · cases action <;> simp [StoredState.go, Feed.step, hfinishing]
  · simp only [StoredState.go, Feed.step, hfed, hsent, hdrop]
    rw [← hdue]
    exact (List.prefix_append_right_inj _).mpr (List.take_prefix _ _)
  · intro hsteady
    simp only [StoredState.go, Feed.step, hfed, hsent, hdrop]
    rw [← hdue, List.take_of_length_le]
    have hle := hmet.steady hsteady (by rw [← hwhole hsteady]; omega)
    rw [← hdue, List.length_append] at hle
    omega
  · simpa only [StoredState.go, Feed.step, hfed, hsent] using hmet.past
  · simpa only [StoredState.go, Feed.step, hfed, hsent] using hmet.good

/-- What a call of a coder that goes on comes to, when it was fed and has put out what its ledger says. -/
theorem StoredBytes.went (h : StoredBytes t f s) (hbuf : s.allowBufError = f.allowBufError)
    (hr : s.go action input room = r) : Went t f action input room r := by
  have hmet := h.met room input
  obtain ⟨due, hdue, hdrop⟩ := h.continued input
    (t.meets (f.emitted.length + room) f.taken input).1
  obtain ⟨rfl, hfed, hsent, -⟩ := h
  generalize hm : s.table.meets (f.emitted.length + room) f.taken input = met at *
  have htaken : r.taken = met.1 := by
    rw [← hr, ← hm, ← hfed, ← hsent]
    rfl
  have hput : r.emitted = due.take room := by
    rw [← hr, ← hdrop, ← hm, ← hfed, ← hsent]
    rfl
  have hanswer : r.answer = s.answer action input room met r.emitted := by
    subst hr
    rw [← hm, ← hfed, ← hsent]
    rfl
  simp only [StoredState.answer, hfed, hsent] at hanswer
  by_cases hfull : f.emitted.length + room ≤ (s.table.out (f.taken ++ input.take met.1)).length
  · rw [if_pos hfull] at hanswer
    refine .full hanswer ?_
    rw [← hdue, List.length_append] at hfull
    rw [hput, List.length_take]
    omega
  rw [if_neg hfull] at hanswer
  have hat := hmet.decided (by omega)
  have hdrained : f.emitted ++ r.emitted = s.table.out (f.taken ++ input.take met.1) := by
    rw [← hdue, List.length_append] at hfull
    rw [hput, List.take_of_length_le (by omega), hdue]
  cases hv : met.2 with
  | ended =>
    rw [hv] at hanswer hat
    exact .ended hanswer (by rw [htaken, hdrained]) (Or.inl (by rw [htaken]; exact hat.decided))
  | failed =>
    rw [hv] at hanswer hat
    exact .wrong _ hanswer hat
  | more =>
    rw [hv, if_neg nofun] at hat
    -- undecided: all of the input has been taken
    have hall : f.taken ++ input.take met.1 = f.taken ++ input := hat.undecided rfl
    have hlength : r.taken = input.length := by
      have hlen := congrArg List.length hall
      rw [List.length_append, List.length_append, List.length_take_of_le hmet.le] at hlen
      omega
    rw [hv, hall] at hanswer
    rw [hall] at hdrained hat
    have hwaits : (if action = .finish then s.table.atEnd (f.taken ++ input) else Verdict.more) = .more →
        Went s.table f action input room r := by
      intro hmore
      simp only [hmore, ← htaken, hbuf] at hanswer
      refine .waits ?_ hdrained hlength hat.decided fun haction => by rwa [if_pos haction] at hmore
      rw [hanswer]
      by_cases hprogress : r.Progress
      · have hmoved : ¬ (r.taken = 0 ∧ r.emitted = []) := by
          simpa [CodeResult.Progress, Nat.pos_iff_ne_zero, imp_iff_not_or] using hprogress
        rw [if_pos hprogress, if_neg hmoved]
      · rw [if_neg hprogress, if_pos (by simpa [CodeResult.Progress] using hprogress)]
        rfl
    by_cases haction : action = .finish
    · cases hend : s.table.atEnd (f.taken ++ input) with
      | ended =>
        rw [if_pos haction, hend] at hanswer
        refine .ended hanswer ?_ (Or.inr ⟨haction, hlength, hend⟩)
        rw [hlength, List.take_length, hdrained]
      | failed =>
        rw [if_pos haction, hend] at hanswer
        exact .cut hanswer haction hdrained hlength hend
      | more => exact hwaits (by rw [if_pos haction, hend])
    · exact hwaits (if_neg haction)

theorem Table.code_fails (t : Table) (x : List UInt8) : (t.code x).fails = true := by
  unfold Table.code
  split <;> rfl

/-- A call that takes and emits nothing keeps the account of the bytes. -/
theorem StoredBytes.still (h : StoredBytes t f s) (htaken : r.taken = 0) (hemitted : r.emitted = [])
    (hstate : r.state = { s with
      allowBufError := r.state.allowBufError
      finishing := s.finishing || decide (action = .finish)
      course := r.state.course }) : StoredBytes t (f.step action input r) r.state := by
  rw [hstate]
  refine ⟨h.table, ?_, ?_, ?_, ?_, ?_, ?_, ?_⟩
  · simp [Feed.step, htaken, h.fed]
  · simp [Feed.step, hemitted, h.sent]
  · cases action <;> simp [Feed.step, h.finishing]
  · simpa [Feed.step, htaken, hemitted] using h.emitted
  · simpa [Feed.step, htaken, hemitted] using h.whole
  · simpa [Feed.step, htaken] using h.past
  · simpa [Feed.step, htaken] using h.good

/-- The state of a coder with ledger `f` that follows `t`. -/
structure StoredAt (t : Table) (f : Feed) (s : StoredState) : Prop where
  bytes : StoredBytes t f s
  buf : s.allowBufError = f.allowBufError
  stalls : f.allowBufError = true → f.stalled = true
  ended : f.ended = decide (s.course = .ended)
  fatal : f.fatal = decide (s.course = .refusing)
  limited : f.limited = decide (s.course = .limited)
  failed : f.failed = (f.fatal || f.limited)
  settled : f.ended = true → f.emitted = t.out f.taken ∧
    (t.verdict f.taken = .ended ∨ (f.finishing = some [] ∧ t.atEnd f.taken = .ended))
  blamed : f.failed = true → (∃ x, t.verdict x = .failed) ∨ ∃ x, t.atEnd x = .failed

theorem StoredAt.course (h : StoredAt t f s) :
    s.course = .going ∧ f.ended = false ∧ f.failed = false ∧ f.fatal = false ∧ f.limited = false ∨
    s.course = .ended ∧ f.ended = true ∧ f.failed = false ∧ f.fatal = false ∧ f.limited = false ∨
    s.course = .refusing ∧ f.ended = false ∧ f.failed = true ∧ f.fatal = true ∧ f.limited = false ∨
    s.course = .limited ∧ f.ended = false ∧ f.failed = true ∧ f.fatal = false ∧ f.limited = true := by
  have hended := h.ended
  have hfatal := h.fatal
  have hlimited := h.limited
  have hfailed := h.failed
  cases hcourse : s.course <;> simp_all

/-- A coder that goes on, and that is not refused, is left with the next ledger. -/
theorem StoredAt.go (h : StoredAt t f s) (hcourse : s.course = .going) (hrefuses : f.refuses action = false)
    (hroom : 0 < room) (hr : s.go action input room = r) : StoredAt t (f.step action input r) r.state := by
  have hbytes := h.bytes.go hr
  obtain ⟨-, hended, hfailed, hfatal, hlimited⟩ | ⟨hother, -⟩ | ⟨hother, -⟩ | ⟨hother, -⟩ := h.course
  case inr.inl | inr.inr.inl | inr.inr.inr => rw [hcourse] at hother; cases hother
  have hstep : ∀ {answer : Answer}, r.answer = answer →
      r.ret = answer.ret ∧ r.state.course = answer.course ∧ r.state.allowBufError = answer.allowBufError := by
    rintro answer rfl
    exact ⟨rfl, rfl, rfl⟩
  cases h.bytes.went h.buf hr with
  | full answered fills =>
    have hprogress : r.Progress := Or.inr (List.ne_nil_of_length_pos (by omega))
    obtain ⟨hret, hcourse', hbuf⟩ := hstep answered
    refine ⟨hbytes, ?_, ?_, ?_, ?_, ?_, ?_, ?_, ?_⟩ <;>
      simp [Feed.step, hret, hcourse', hbuf, hprogress, hended, hfailed, hfatal, hlimited, LzmaRet.fails,
        LzmaRet.isFatal]
  | ended answered drained known =>
    obtain ⟨hret, hcourse', hbuf⟩ := hstep answered
    refine ⟨hbytes, ?_, ?_, ?_, ?_, ?_, ?_, fun _ => ⟨drained, ?_⟩, ?_⟩
    case refine_7 =>
      rcases known with hverdict | ⟨rfl, hall, hend⟩
      · exact Or.inl hverdict
      · exact Or.inr ⟨by simp [Feed.step, hall], by simpa [Feed.step, hall] using hend⟩
    all_goals
      simp [Feed.step, hret, hcourse', hbuf, hfailed, hfatal, hlimited, LzmaRet.fails, LzmaRet.isFatal]
  | wrong x answered bad =>
    obtain ⟨hret, hcourse', hbuf⟩ := hstep answered
    unfold Table.code at hret
    refine ⟨hbytes, ?_, ?_, ?_, ?_, ?_, ?_, ?_, fun _ => Or.inl ⟨x, bad.decided⟩⟩ <;>
      cases hlarge : t.tooLarge x <;>
      simp [Feed.step, hret, hcourse', hbuf, hlarge, hrefuses, hended, hfailed, hfatal, hlimited,
        LzmaRet.fails, LzmaRet.isFatal]
  | cut answered asked drained all bad =>
    obtain ⟨hret, hcourse', hbuf⟩ := hstep answered
    refine ⟨hbytes, ?_, ?_, ?_, ?_, ?_, ?_, ?_, fun _ => Or.inr ⟨_, bad⟩⟩ <;>
      simp [Feed.step, hret, hcourse', hbuf, hrefuses, hended, hfatal, hlimited, LzmaRet.fails,
        LzmaRet.isFatal]
  | waits answered drained all more unasked =>
    by_cases hprogress : r.Progress
    · rw [if_pos hprogress] at answered
      obtain ⟨hret, hcourse', hbuf⟩ := hstep answered
      refine ⟨hbytes, ?_, ?_, ?_, ?_, ?_, ?_, ?_, ?_⟩ <;>
        simp [Feed.step, hret, hcourse', hbuf, hprogress, hended, hfailed, hfatal, hlimited, LzmaRet.fails,
          LzmaRet.isFatal]
    · rw [if_neg hprogress] at answered
      obtain ⟨hret, hcourse', hbuf⟩ := hstep answered
      refine ⟨hbytes, ?_, ?_, ?_, ?_, ?_, ?_, ?_, ?_⟩ <;> rcases f.stallCode_cases with hcode | hcode <;>
        simp [Feed.step, hret, hcode, hcourse', hbuf, hprogress, hended, hfailed, hfatal, hlimited,
          LzmaRet.fails, LzmaRet.isFatal]

/-- A refused coder, or one that has ended or failed, does nothing, and is left with the next ledger. -/
theorem StoredAt.still (h : StoredAt t f s)
    (hcourse : ¬ (s.course = .going ∧ ¬ (s.finishing = true ∧ action = .run)))
    (hr : storedCode s action input room = r) :
    ¬ r.Progress ∧ r.ret = (s.still action input).ret ∧
      (f.Allows action input → StoredAt t (f.step action input r) r.state) := by
  unfold storedCode at hr
  rw [if_neg hcourse] at hr
  have hidle : ¬ r.Progress := by
    subst hr
    simp [CodeResult.Progress]
  have hbytes : StoredBytes t (f.step action input r) r.state :=
    h.bytes.still (by rw [← hr]) (by rw [← hr]) (by rw [← hr])
  have hret : r.ret = (s.still action input).ret := by rw [← hr]
  have hcourse' : r.state.course = (s.still action input).course := by rw [← hr]
  have hbuf : r.state.allowBufError = (s.still action input).allowBufError := by rw [← hr]
  have hstalled : (f.step action input r).stalled = true := by simp [Feed.step, hidle]
  refine ⟨hidle, hret, fun hallow => ?_⟩
  unfold StoredState.still at hret hcourse' hbuf
  have hblamed := h.blamed
  rcases h.course with ⟨hs, hended, hfailed, hfatal, hlimited⟩ | ⟨hs, hended, hfailed, hfatal, hlimited⟩ |
    ⟨hs, hended, hfailed, hfatal, hlimited⟩ | ⟨hs, hended, hfailed, hfatal, hlimited⟩ <;>
    rw [hs] at hret hcourse' hbuf <;> simp only at hret hcourse' hbuf
  · -- only a refused call leaves a going coder where it is
    obtain ⟨hfinishing, rfl⟩ : s.finishing = true ∧ action = .run := by
      by_contra hnot
      exact hcourse ⟨hs, hnot⟩
    have hrefuses : f.refuses .run = true := by rw [Feed.refuses, ← h.bytes.finishing, hfinishing]
    refine ⟨hbytes, ?_, fun _ => hstalled, ?_, ?_, ?_, ?_, ?_, ?_⟩ <;>
      simp [Feed.step, hret, hcourse', hbuf, h.buf, hrefuses, hended, hfailed, hfatal, hlimited,
        LzmaRet.fails, LzmaRet.isFatal]
  · -- the end stays the end
    obtain ⟨hout, hend⟩ := h.settled hended
    have htaken : r.taken = 0 ∧ r.emitted = [] := by rw [← hr]; exact ⟨rfl, rfl⟩
    refine ⟨hbytes, ?_, fun _ => hstalled, ?_, ?_, ?_, ?_, fun _ => ⟨?_, ?_⟩, ?_⟩
    case refine_6 => simpa [Feed.step, htaken] using hout
    case refine_7 =>
      rcases hend with hverdict | ⟨hfinishing, hend⟩
      · exact Or.inl (by simpa [Feed.step, htaken] using hverdict)
      · refine Or.inr ⟨?_, by simpa [Feed.step, htaken] using hend⟩
        cases action with
        | run => exact hfinishing
        | finish =>
          rcases hallow with hnone | hsome
          · rw [hfinishing] at hnone
            cases hnone
          · rw [hfinishing, Option.some.injEq] at hsome
            simp [Feed.step, ← hsome]
    all_goals
      simp [Feed.step, hret, hcourse', hbuf, hfailed, hfatal, hlimited, LzmaRet.fails, LzmaRet.isFatal]
  · refine ⟨hbytes, ?_, fun _ => hstalled, ?_, ?_, ?_, ?_, ?_, fun _ => hblamed hfailed⟩ <;>
      simp [Feed.step, hret, hcourse', hbuf, h.buf, hended, hfailed, hfatal, hlimited, LzmaRet.fails,
        LzmaRet.isFatal]
  · by_cases hrefused : s.finishing = true ∧ action = .run
    · simp only [if_pos hrefused] at hret hcourse' hbuf
      obtain ⟨hfinishing, rfl⟩ := hrefused
      have hrefuses : f.refuses .run = true := by rw [Feed.refuses, ← h.bytes.finishing, hfinishing]
      refine ⟨hbytes, ?_, fun _ => hstalled, ?_, ?_, ?_, ?_, ?_, fun _ => hblamed hfailed⟩ <;>
        simp [Feed.step, hret, hcourse', hbuf, h.buf, hrefuses, hended, hfailed, hfatal, hlimited,
          LzmaRet.fails, LzmaRet.isFatal]
    simp only [if_neg hrefused] at hret hcourse' hbuf
    by_cases hquiet : input = [] ∧ s.table.quiet s.fed = true
    · simp only [if_pos hquiet] at hret hcourse' hbuf
      refine ⟨hbytes, ?_, fun _ => hstalled, ?_, ?_, ?_, ?_, ?_, fun _ => hblamed hfailed⟩ <;>
        cases hallowBuf : s.allowBufError <;>
        simp [Feed.step, hret, hcourse', hbuf, hallowBuf, hidle, hended, hfailed, hfatal, hlimited,
          LzmaRet.fails, LzmaRet.isFatal]
    · simp only [if_neg hquiet] at hret hcourse' hbuf
      refine ⟨hbytes, ?_, fun _ => hstalled, ?_, ?_, ?_, ?_, ?_, fun _ => hblamed hfailed⟩ <;>
        simp [Feed.step, hret, hcourse', hbuf, hended, hfailed, hfatal, LzmaRet.fails, LzmaRet.isFatal]

/-- Where calls can drive a coder that follows a table. -/
theorem storedCoder_reaches (h : Reaches storedCoder t.start f s) : StoredAt t f s := by
  induction h with
  | start =>
    refine ⟨⟨rfl, rfl, rfl, rfl, ?_, ?_, ?_, ?_⟩, rfl, ?_, rfl, rfl, rfl, rfl, ?_, ?_⟩
    · exact List.nil_prefix
    · exact fun _ => t.out_nil.symm
    · exact fun z hz hne => absurd (List.prefix_nil.mp hz) hne
    · rw [t.verdict_nil]
      nofun
    all_goals nofun
  | @call f s action input room _ hallow hroom ih =>
    by_cases hgo : s.course = .going ∧ ¬ (s.finishing = true ∧ action = .run)
    · have hrefuses : f.refuses action = false := by
        cases action with
        | run => simpa [Feed.refuses, ih.bytes.finishing] using hgo.2
        | finish => rfl
      exact ih.go hgo.1 hrefuses hroom (by simp only [storedCoder, storedCode, if_pos hgo])
    · exact (ih.still hgo rfl).2.2 hallow

/-- Success is a full buffer, or all of the input taken and decoded. -/
theorem Went.ok (h : Went t f action input room r) (hret : r.ret = .ok) :
    r.emitted.length = room ∨
      (r.taken = input.length ∧ t.verdict (f.taken ++ input) = .more ∧
        f.emitted ++ r.emitted = t.out (f.taken ++ input) ∧ (¬ r.Progress → f.allowBufError = false) ∧
        (action = .finish → t.atEnd (f.taken ++ input) = .more)) := by
  cases h with
  | full answered fills => exact Or.inl fills
  | ended answered => cases (congrArg Answer.ret answered).symm.trans hret
  | wrong x answered bad =>
    exact absurd ((congrArg Answer.ret answered).symm.trans hret) (LzmaRet.ne_of_fails (t.code_fails x)).1
  | cut answered => cases (congrArg Answer.ret answered).symm.trans hret
  | waits answered drained all more unasked =>
    refine Or.inr ⟨all, more, drained, fun hidle => ?_, unasked⟩
    rw [if_neg hidle] at answered
    have hcode : f.stallCode = .ok := (congrArg Answer.ret answered).symm.trans hret
    cases hbuf : f.allowBufError with
    | false => rfl
    | true => simp [Feed.stallCode, hbuf] at hcode

/-- The end is one that the table knows. -/
theorem Went.atEnd (h : Went t f action input room r) (hret : r.ret = .streamEnd) :
    f.emitted ++ r.emitted = t.out (f.taken ++ input.take r.taken) ∧
      (t.verdict (f.taken ++ input.take r.taken) = .ended ∨
        (action = .finish ∧ r.taken = input.length ∧ t.atEnd (f.taken ++ input) = .ended)) := by
  cases h with
  | full answered => cases (congrArg Answer.ret answered).symm.trans hret
  | ended answered drained known => exact ⟨drained, known⟩
  | wrong x answered bad =>
    exact absurd ((congrArg Answer.ret answered).symm.trans hret) (LzmaRet.ne_of_fails (t.code_fails x)).2.1
  | cut answered => cases (congrArg Answer.ret answered).symm.trans hret
  | waits answered =>
    have hcode := (congrArg Answer.ret answered).symm.trans hret
    split at hcode
    · cases hcode
    · rcases f.stallCode_cases with h | h <;> rw [h] at hcode <;> cases hcode

/-- A second stall finds nothing to do. -/
theorem Went.idle (h : Went t f action input room r) (hret : r.ret = .bufError) :
    ¬ r.Progress ∧ input = [] ∧ f.allowBufError = true := by
  cases h with
  | full answered => cases (congrArg Answer.ret answered).symm.trans hret
  | ended answered => cases (congrArg Answer.ret answered).symm.trans hret
  | wrong x answered bad =>
    exact absurd ((congrArg Answer.ret answered).symm.trans hret) (LzmaRet.ne_of_fails (t.code_fails x)).2.2
  | cut answered => cases (congrArg Answer.ret answered).symm.trans hret
  | waits answered drained all =>
    by_cases hprogress : r.Progress
    · rw [if_pos hprogress] at answered
      cases (congrArg Answer.ret answered).symm.trans hret
    · rw [if_neg hprogress] at answered
      have hcode : f.stallCode = .bufError := (congrArg Answer.ret answered).symm.trans hret
      refine ⟨hprogress, List.eq_nil_of_length_eq_zero ?_, ?_⟩
      · rw [← all]
        by_contra hpos
        exact hprogress (Or.inl (Nat.pos_of_ne_zero hpos))
      · by_contra hbuf
        simp [Feed.stallCode, hbuf] at hcode

/-- A failure is one that the table knows. -/
theorem Went.fails (h : Went t f action input room r) (hret : r.ret.fails = true) :
    (∃ x, r.ret = t.code x ∧ DecidedAt t.verdict (f.taken ++ input) x .failed) ∨
      (action = .finish ∧ r.ret = .dataError ∧ t.atEnd (f.taken ++ input) = .failed) := by
  cases h with
  | full answered => cases (congrArg (·.ret.fails) answered).symm.trans hret
  | ended answered => cases (congrArg (·.ret.fails) answered).symm.trans hret
  | wrong x answered bad => exact Or.inl ⟨x, congrArg Answer.ret answered, bad⟩
  | cut answered asked drained all bad => exact Or.inr ⟨asked, congrArg Answer.ret answered, bad⟩
  | waits answered =>
    have hcode := (congrArg (·.ret.fails) answered).symm.trans hret
    split at hcode
    · cases hcode
    · rcases f.stallCode_cases with h | h <;> simp [h, LzmaRet.fails] at hcode

/-- A call of a coder that has neither ended nor failed, and that is not refused. -/
theorem storedCoder_went (h : Reaches storedCoder t.start f s) (hended : f.ended = false)
    (hfailed : f.failed = false) (hrefuses : f.refuses action = false)
    (hr : storedCoder.code s action input room = r) : Went t f action input room r := by
  have hat := storedCoder_reaches h
  have hgo : s.course = .going ∧ ¬ (s.finishing = true ∧ action = .run) := by
    refine ⟨?_, ?_⟩
    · rcases hat.course with h | ⟨-, h, -⟩ | ⟨-, -, h, -⟩ | ⟨-, -, h, -⟩
      · exact h.1
      · rw [hended] at h
        cases h
      · rw [hfailed] at h
        cases h
      · rw [hfailed] at h
        cases h
    · rintro ⟨hfinishing, rfl⟩
      rw [Feed.refuses, ← hat.bytes.finishing, hfinishing] at hrefuses
      cases hrefuses
  exact hat.bytes.went hat.buf (by rw [← hr]; simp only [storedCoder, storedCode, if_pos hgo])

theorem storedCoder_run (h : Reaches storedCoder t.start f s) (hf : f.finishing = none)
    (hended : f.ended = false) (hfailed : f.failed = false) (hr : storedCoder.code s .run input room = r) :
    Went t f .run input room r :=
  storedCoder_went h hended hfailed (by rw [Feed.refuses, hf]; rfl) hr

/-- A coder that has failed takes and emits nothing more. -/
theorem storedCoder_still (h : Reaches storedCoder t.start f s)
    (hcourse : ¬ (s.course = .going ∧ ¬ (s.finishing = true ∧ action = .run)))
    (hr : storedCoder.code s action input room = r) :
    ¬ r.Progress ∧ r.ret = (s.still action input).ret :=
  have hstill := (storedCoder_reaches h).still hcourse hr
  ⟨hstill.1, hstill.2.1⟩

end Ledger

end PhpExtXz
