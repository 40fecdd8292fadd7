/-
# PhpExtXz.ConcreteCoders — coders that satisfy the contracts.

The contracts of `PhpExtXz.CoderSpec` are hypotheses about liblzma; this module shows that they can be
met, by two coders.

* `copyCoder` copies as many bytes as fit. It is a healthy encoder.
* `storedCoder`, whatever its table, is a decoder on any bytes (`Table.statusDecoder`); it decodes the files
  that its table calls complete (`Table.decodesWhole`); and with a table that finds nothing wrong it is an
  encoder (`Table.healthyEncoder`).
-/
import PhpExtXz.StoredCoder

namespace PhpExtXz

/-! ## The copying coder -/

/-- Copies as many bytes as fit; its state is whether the last call was a stall. -/
def copyCoder : Coder Bool where
  code s action input room :=
    { ret :=
        if action = .finish ∧ input.length ≤ room then .streamEnd
        else if min input.length room = 0 ∧ s = true then .bufError
        else .ok
      taken := min input.length room
      emitted := input.take room
      state := decide (min input.length room = 0) }
  taken_le _ _ _ _ := Nat.min_le_left _ _
  emitted_le _ _ _ _ := List.length_take_le _ _

/-- It puts out what it takes, and its state is its stall. -/
theorem copyCoder_step {f : Feed} (hout : f.emitted = f.taken) (s : Bool) (action : LzmaAction)
    (input : List UInt8) (room : Nat) :
    (f.step action input (copyCoder.code s action input room)).emitted =
        (f.step action input (copyCoder.code s action input room)).taken ∧
      (copyCoder.code s action input room).state =
        (f.step action input (copyCoder.code s action input room)).stalled := by
  refine ⟨?_, ?_⟩
  · simp only [Feed.step, copyCoder, hout, ← List.take_take, List.take_length, Nat.min_comm _ room]
  · simp only [copyCoder, Feed.step, CodeResult.Progress]
    by_cases h0 : min input.length room = 0
    · have hnil : input.take room = [] := List.length_eq_zero_iff.mp (by rw [List.length_take]; omega)
      simp [h0, hnil]
    · simp [h0, Nat.pos_of_ne_zero h0]

theorem copyCoder_called {f : Feed} {s : Bool} (h : Called copyCoder false f s) :
    f.emitted = f.taken ∧ s = f.stalled := by
  induction h with
  | start => exact ⟨rfl, rfl⟩
  | call action input room _ ih => exact copyCoder_step ih.1 _ action input room

theorem copyCoder_reaches {f : Feed} {s : Bool} (h : Reaches copyCoder false f s) :
    f.emitted = f.taken ∧ s = f.stalled := copyCoder_called h.called

theorem copyCoder_run {s : Bool} {input : List UInt8} {room : Nat} {r : CodeResult Bool}
    (hr : copyCoder.code s .run input room = r) :
    r.taken = min input.length room ∧ r.emitted = input.take room ∧
      r.ret = if min input.length room = 0 ∧ s = true then .bufError else .ok := by
  subst hr
  simp [copyCoder]

/-- With input and room, the copying coder copies. -/
theorem copyCoder_run_ok {s : Bool} {input : List UInt8} {room : Nat} {r : CodeResult Bool}
    (hroom : 0 < room) (hne : input ≠ []) (hr : copyCoder.code s .run input room = r) :
    r.ret = .ok ∧ r.Progress := by
  obtain ⟨htaken, -, hret⟩ := copyCoder_run hr
  have hpos := List.length_pos_iff.mpr hne
  exact ⟨by rw [hret, if_neg (by omega)], Or.inl (by omega)⟩

/-- Without input it stalls. -/
theorem copyCoder_run_idle {f : Feed} {s : Bool} {room : Nat} {r : CodeResult Bool}
    (hreach : Reaches copyCoder false f s) (hr : copyCoder.code s .run [] room = r) :
    r.ret = .ok ∨ (r.ret = .bufError ∧ f.stalled = true ∧ ¬ r.Progress) := by
  obtain ⟨htaken, hemitted, hret⟩ := copyCoder_run hr
  rw [(copyCoder_reaches hreach).2] at hret
  cases hstalled : f.stalled with
  | false => exact Or.inl (by rw [hret]; simp [hstalled])
  | true =>
    exact Or.inr ⟨by rw [hret]; simp [hstalled], rfl, by simp [CodeResult.Progress, htaken, hemitted]⟩

theorem copyCoder_takes_all {s : Bool} {input : List UInt8} {room : Nat} {r : CodeResult Bool}
    (hr : copyCoder.code s .run input room = r) (hroom : r.emitted.length < room) :
    r.taken = input.length := by
  obtain ⟨htaken, hemitted, -⟩ := copyCoder_run hr
  rw [hemitted, List.length_take] at hroom
  omega

/-- The copying coder is a healthy encoder whose encoding is the string itself. -/
theorem copyCoder_healthyEncoder : HealthyEncoder copyCoder false id where
  output_prefix hreach _ := by
    rw [(copyCoder_reaches hreach).1]
    exact List.prefix_append _ _
  run_ok _ _ hroom hne hr := copyCoder_run_ok hroom hne hr
  run_idle hreach _ _ hr := copyCoder_run_idle hreach hr
  run_takes_all _ _ _ hr _ hroom := copyCoder_takes_all hr hroom
  finish_ok := by
    intro f s input room r hreach _ hroom hr
    subst hr
    by_cases hfit : input.length ≤ room
    · refine Or.inr ⟨by simp [copyCoder, hfit], Nat.min_eq_left hfit, ?_⟩
      simp [copyCoder, (copyCoder_reaches hreach).1, List.take_of_length_le hfit]
    · have hne : ¬ min input.length room = 0 := by omega
      refine Or.inl ⟨?_, List.length_take_of_le (by omega)⟩
      simp only [copyCoder, hfit, hne, and_false, false_and, if_false]

/-! ## The coder that follows a table -/

section Stored

variable {t : Table} {f : Feed} {s : StoredState} {action : LzmaAction} {input : List UInt8} {room : Nat}
  {r : CodeResult StoredState}

/-- **Whatever the table, the coder that follows it is a decoder on any bytes.** -/
theorem Table.statusDecoder (t : Table) :
    StatusDecoder storedCoder t.start t.out t.verdict t.atEnd t.code t.quiet where
  out_nil := t.out_nil
  verdict_nil := t.verdict_nil
  out_mono := t.out_mono
  out_prefix h _ := (storedCoder_reaches h).bytes.emitted
  never_past h _ _ hx hne := (storedCoder_reaches h).bytes.past _ hx hne
  run_progress := by
    intro f s input room r h hf he hx hroom hne hr hret
    rcases (storedCoder_run h hf he hx hr).ok hret with hfull | ⟨hall, -⟩
    · exact Or.inr (List.ne_nil_of_length_pos (by omega))
    · exact Or.inl (hall ▸ List.length_pos_iff.mpr hne)
  run_drained := by
    intro f s input room r h hf he hx hroom hr hret hless
    rcases (storedCoder_run h hf he hx hr).ok hret with hfull | ⟨hall, hmore, hout, -⟩
    · omega
    · exact ⟨hall, hmore, hout⟩
  run_ended := by
    intro f s input room r h hf he hx hroom hr hret
    obtain ⟨hout, hend | ⟨hrun, -⟩⟩ := (storedCoder_run h hf he hx hr).atEnd hret
    · exact ⟨hend, hout⟩
    · cases hrun
  run_failed := by
    intro f s input room r h hf he hx hroom hr hret
    rcases (storedCoder_run h hf he hx hr).fails hret with ⟨x, -, hbad⟩ | ⟨hrun, -⟩
    · exact ⟨x, hbad⟩
    · cases hrun
  run_stalled := by
    intro f s input room r h hf he hx hroom hr
    refine ⟨(storedCoder_run h hf he hx hr).idle, fun hret hidle => ?_⟩
    rcases (storedCoder_run h hf he hx hr).ok hret with hfull | ⟨-, -, -, hbuf, -⟩
    · exact absurd (Or.inr (List.ne_nil_of_length_pos (by omega))) hidle
    · exact hbuf hidle
  finish_call := by
    intro f s room r h hawaits he hx hout hmore hroom hr
    have hnext := storedCoder_reaches (h.finish hawaits hroom hr)
    have hat := storedCoder_reaches h
    have hempty : r.emitted = [] := by
      have hpre := hnext.bytes.emitted
      simp only [Feed.step, List.take_nil, List.append_nil, ← hout] at hpre
      exact List.append_right_eq_self.mp (hpre.eq_of_length_le (by simp))
    refine ⟨hempty, ?_⟩
    cases storedCoder_went h he hx rfl hr with
    | full answered fills =>
      rw [hempty, List.length_nil] at fills
      omega
    | ended answered drained known =>
      rcases known with hend | ⟨-, -, hend⟩
      · rw [List.take_nil, List.append_nil, hmore] at hend
        cases hend
      · rw [List.append_nil] at hend
        rw [hend]
        exact congrArg Answer.ret answered
    | wrong x answered bad =>
      rw [List.append_nil] at bad
      by_cases hwhole : x = f.taken
      · rw [← hwhole, bad.decided] at hmore
        cases hmore
      · cases bad.decided.symm.trans (hat.bytes.past x bad.inside hwhole)
    | cut answered asked drained all bad =>
      rw [List.append_nil] at bad
      have hret : r.ret = .dataError := congrArg Answer.ret answered
      rw [bad, hret]
      rfl
    | waits answered drained all more unasked =>
      rw [List.append_nil] at unasked
      rw [unasked rfl]
      rw [if_neg (by simp [CodeResult.Progress, hempty, all])] at answered
      exact congrArg Answer.ret answered
  run_refused := by
    intro f s input room r h hf he hroom hr
    have hat := storedCoder_reaches h
    have hfinishing : s.finishing = true := by rw [hat.bytes.finishing, Option.isSome_iff_ne_none]; exact hf
    obtain ⟨hidle, hret⟩ := storedCoder_still h (fun hgo => hgo.2 ⟨hfinishing, rfl⟩) hr
    refine ⟨?_, hidle⟩
    rw [hret, StoredState.still]
    rcases hat.course with ⟨hs, -⟩ | ⟨-, hended, -⟩ | ⟨hs, -⟩ | ⟨hs, -⟩
    case inr.inl => rw [he] at hended; cases hended
    all_goals simp [hs, hfinishing]
  refuses := by
    intro f s action input room r h hfatal hroom hr
    have hcourse : s.course = .refusing := of_decide_eq_true ((storedCoder_reaches h).fatal ▸ hfatal)
    obtain ⟨hidle, hret⟩ := storedCoder_still h (fun hgo => by rw [hcourse] at hgo; cases hgo.1) hr
    exact ⟨by rw [hret, StoredState.still, hcourse], hidle⟩
  run_code := by
    intro f s input room r x h hf he hx hroom hr hret hat
    rcases (storedCoder_run h hf he hx hr).fails hret with ⟨y, hcode, hbad⟩ | ⟨hrun, -⟩
    · rw [hcode, (hbad.unique hat).1]
    · cases hrun
  repeats := by
    intro f s action input room r h hlimited hfatal hallow hroom hr
    have hat := storedCoder_reaches h
    have hcourse : s.course = .limited := of_decide_eq_true (hat.limited ▸ hlimited)
    obtain ⟨hidle, hret⟩ := storedCoder_still h (fun hgo => by rw [hcourse] at hgo; cases hgo.1) hr
    refine ⟨hidle, ?_⟩
    rw [hret, StoredState.still, hcourse, hat.bytes.table, hat.bytes.fed, hat.bytes.finishing, hat.buf]
    cases action <;> cases hfinishing : f.finishing <;>
      by_cases hquiet : input = [] ∧ t.quiet f.taken = true <;>
        simp [Feed.limitCode, Feed.refuses, Feed.stallCode, hfinishing, hquiet]

/-- It tells nothing. -/
theorem Table.neverAnnounces (t : Table) : NeverAnnounces storedCoder t.start := by
  intro f s action input room r h hr
  have hat := storedCoder_reaches h
  have hstall : f.stallCode.announces = false := by rcases f.stallCode_cases with h | h <;> rw [h] <;> rfl
  by_cases hgo : s.course = .going ∧ ¬ (s.finishing = true ∧ action = .run)
  · have hrun : s.go action input room = r := by rw [← hr]; simp only [storedCoder, storedCode, if_pos hgo]
    have hret : ∀ {answer : Answer}, r.answer = answer → r.ret.announces = answer.ret.announces := by
      rintro answer rfl
      rfl
    cases hat.bytes.went hat.buf hrun with
    | full answered => exact hret answered
    | ended answered => exact hret answered
    | wrong x answered =>
      rw [hret answered, Table.code]
      split <;> rfl
    | cut answered => exact hret answered
    | waits answered =>
      rw [hret answered]
      split
      · rfl
      · exact hstall
  · rw [(storedCoder_still h hgo hr).2, StoredState.still, hat.buf]
    cases s.course with
    | limited =>
      simp only
      split
      · rfl
      split
      · exact hstall
      · rfl
    | _ => rfl

/-! ### On bytes that are not wrong -/

/-- On bytes that stay undecided a call fills its room or takes all of its input. -/
theorem storedCoder_undecided (h : Reaches storedCoder t.start f s) (hf : f.finishing = none)
    (hx : f.failed = false) (hmore : ∀ z, z <+: f.taken ++ input → t.verdict z = .more)
    (hr : storedCoder.code s .run input room = r) :
    (r.ret = .ok ∧ r.emitted.length = room) ∨
      (r.ret = (if r.Progress then .ok else f.stallCode) ∧ r.taken = input.length ∧
        f.emitted ++ r.emitted = t.out (f.taken ++ input)) := by
  have he : f.ended = false := by
    by_contra hended
    rcases ((storedCoder_reaches h).settled (by simpa using hended)).2 with hend | ⟨hfinishing, -⟩
    · rw [hmore _ (List.prefix_append _ _)] at hend
      cases hend
    · rw [hf] at hfinishing
      cases hfinishing
  cases storedCoder_run h hf he hx hr with
  | full answered fills => exact Or.inl ⟨congrArg Answer.ret answered, fills⟩
  | ended answered drained known =>
    rcases known with hend | ⟨hrun, -⟩
    · rw [hmore _ ((List.prefix_append_right_inj _).mpr (List.take_prefix _ _))] at hend
      cases hend
    · cases hrun
  | wrong x answered bad => cases (hmore x bad.inside).symm.trans bad.decided
  | cut answered asked => cases asked
  | waits answered drained all =>
    refine Or.inr ⟨?_, all, drained⟩
    by_cases hprogress : r.Progress
    · rw [if_pos hprogress] at answered ⊢
      exact congrArg Answer.ret answered
    · rw [if_neg hprogress] at answered ⊢
      exact congrArg Answer.ret answered

theorem storedCoder_undecided_ok (h : Reaches storedCoder t.start f s) (hf : f.finishing = none)
    (hx : f.failed = false) (hmore : ∀ z, z <+: f.taken ++ input → t.verdict z = .more) (hroom : 0 < room)
    (hne : input ≠ []) (hr : storedCoder.code s .run input room = r) : r.ret = .ok ∧ r.Progress := by
  rcases storedCoder_undecided h hf hx hmore hr with ⟨hret, hfull⟩ | ⟨hret, hall, -⟩
  · exact ⟨hret, Or.inr (List.ne_nil_of_length_pos (by omega))⟩
  · have hprogress : r.Progress := Or.inl (hall ▸ List.length_pos_iff.mpr hne)
    exact ⟨by rw [hret, if_pos hprogress], hprogress⟩

theorem storedCoder_undecided_idle (h : Reaches storedCoder t.start f s) (hf : f.finishing = none)
    (hx : f.failed = false) (hmore : ∀ z, z <+: f.taken ++ [] → t.verdict z = .more)
    (hr : storedCoder.code s .run [] room = r) :
    r.ret = .ok ∨ (r.ret = .bufError ∧ f.stalled = true ∧ ¬ r.Progress) := by
  rcases storedCoder_undecided h hf hx hmore hr with ⟨hret, -⟩ | ⟨hret, -⟩
  · exact Or.inl hret
  · by_cases hprogress : r.Progress
    · exact Or.inl (by rw [hret, if_pos hprogress])
    · rw [if_neg hprogress] at hret
      cases hbuf : f.allowBufError with
      | false => exact Or.inl (by simp [hret, Feed.stallCode, hbuf])
      | true =>
        exact Or.inr ⟨by simp [hret, Feed.stallCode, hbuf], (storedCoder_reaches h).stalls hbuf, hprogress⟩

/-- A table that finds nothing wrong with a file gives a decoder of that file. -/
theorem Table.decodes (file : List UInt8) (hmore : ∀ z, z <+: file → t.verdict z = .more) :
    Decodes storedCoder t.start file (t.out file) where
  in_order h _ _ hpre := (storedCoder_reaches h).bytes.emitted.trans (t.out_mono hpre)
  run_ok h hf hx hpre hroom hinput hr :=
    storedCoder_undecided_ok h hf hx (fun z hz => hmore z (hz.trans hpre)) hroom hinput hr
  run_idle h hf hx hpre _ hr :=
    storedCoder_undecided_idle h hf hx (fun z hz => hmore z (hz.trans (by rwa [List.append_nil]))) hr

/-- One that calls it complete, too, gives a decoder of the whole file. -/
theorem Table.decodesWhole {file : List UInt8} (hne : file ≠ [])
    (hmore : ∀ z, z <+: file → t.verdict z = .more) (hend : t.atEnd file = .ended) :
    DecodesWhole storedCoder t.start file (t.out file) where
  toDecodes := Table.decodes file hmore
  nonempty := hne
  takes_all h hf hx hpre _ hr hless := by
    rcases storedCoder_undecided h hf hx (fun z hz => hmore z (hz.trans hpre)) hr with
      ⟨-, hfull⟩ | ⟨-, hall, -⟩
    · omega
    · exact hall
  drained h hf hx hsame _ hr hless := by
    rcases storedCoder_undecided h hf hx (fun z hz => hmore z (hsame ▸ hz)) hr with ⟨-, hfull⟩ | ⟨-, -, hout⟩
    · omega
    · rw [hout, hsame]
  finish_ends h hf hx htaken hemitted hroom hr := by
    subst htaken
    have hcall := t.statusDecoder.finish_call h (Or.inl hf) ?_ hx hemitted (hmore _ List.prefix_rfl) hroom hr
    · rw [hend] at hcall
      exact ⟨hcall.2, hcall.1⟩
    · by_contra hended
      rcases ((storedCoder_reaches h).settled (by simpa using hended)).2 with hend | ⟨hfinishing, -⟩
      · rw [hmore _ List.prefix_rfl] at hend
        cases hend
      · rw [hf] at hfinishing
        cases hfinishing

/-- A table that takes every byte and calls everything complete gives an encoder. -/
theorem Table.healthyEncoder (hmore : ∀ x, t.verdict x = .more) (hend : ∀ x, t.atEnd x = .ended) :
    HealthyEncoder storedCoder t.start t.out := by
  have hgood : ∀ {f s}, Reaches storedCoder t.start f s → f.failed = false := by
    intro f s h
    by_contra hfailed
    rcases (storedCoder_reaches h).blamed (by simpa using hfailed) with ⟨x, hx⟩ | ⟨x, hx⟩
    · rw [hmore] at hx
      cases hx
    · rw [hend] at hx
      cases hx
  exact {
    output_prefix := fun h _ =>
      (storedCoder_reaches h).bytes.emitted.trans (t.out_mono (List.prefix_append _ _))
    run_ok := fun h hf hroom hne hr =>
      storedCoder_undecided_ok h hf (hgood h) (fun z _ => hmore z) hroom hne hr
    run_idle := fun h hf _ hr => storedCoder_undecided_idle h hf (hgood h) (fun z _ => hmore z) hr
    run_takes_all := by
      intro f s input room r h hf _ hr _ hless
      rcases storedCoder_undecided h hf (hgood h) (fun z _ => hmore z) hr with ⟨-, hfull⟩ | ⟨-, hall, -⟩
      · omega
      · exact hall
    finish_ok := by
      intro f s input room r h hawaits _ hr
      have hat := storedCoder_reaches h
      cases hended : f.ended with
      | true =>
        obtain ⟨hout, hverdict | ⟨hfinishing, -⟩⟩ := hat.settled hended
        · rw [hmore] at hverdict
          cases hverdict
        have hnil : input = [] := by
          rcases hawaits with hnone | hsome
          · rw [hnone] at hfinishing
            cases hfinishing
          · rw [hsome, Option.some.injEq] at hfinishing
            exact hfinishing
        have hcourse : s.course = .ended := of_decide_eq_true (hat.ended ▸ hended)
        obtain ⟨hidle, hret⟩ :=
          storedCoder_still h (fun hgo => by rw [hcourse] at hgo; cases hgo.1) hr
        refine Or.inr ⟨by rw [hret, StoredState.still, hcourse], ?_, ?_⟩
        · rw [hnil]
          by_contra hpos
          exact hidle (Or.inl (Nat.pos_of_ne_zero hpos))
        · rw [CodeResult.emitted_of_not_progress hidle, hnil, List.append_nil, List.append_nil, hout]
      | false =>
        cases storedCoder_went h hended (hgood h) rfl hr with
        | full answered fills => exact Or.inl ⟨congrArg Answer.ret answered, fills⟩
        | ended answered drained known =>
          rcases known with hverdict | ⟨-, hall, -⟩
          · rw [hmore] at hverdict
            cases hverdict
          · rw [hall, List.take_length] at drained
            exact Or.inr ⟨congrArg Answer.ret answered, hall, drained⟩
        | wrong x answered bad => cases (hmore x).symm.trans bad.decided
        | cut answered asked drained all bad => cases (hend _).symm.trans bad
        | waits answered drained all more unasked => cases (hend _).symm.trans (unasked rfl) }

/-- With a steady table nothing waits inside the coder. -/
theorem Table.emitted_eq (hsteady : t.Steady) (h : Reaches storedCoder t.start f s) :
    f.emitted = t.out f.taken := (storedCoder_reaches h).bytes.whole hsteady

end Stored

/-! ## A format with marks -/

/-- A byte 1 stands before every byte. -/
def mark (data : List UInt8) : List UInt8 := data.flatMap ([1, ·])

/-- Every second byte. -/
def unmark : List UInt8 → List UInt8
  | _ :: b :: rest => b :: unmark rest
  | _ => []

/-- Every mark is a 1. -/
def marked : List UInt8 → Bool
  | m :: _ :: rest => m = 1 && marked rest
  | [m] => m = 1
  | [] => true

theorem unmark_mark (data : List UInt8) : unmark (mark data) = data := by
  induction data with
  | nil => rfl
  | cons b data ih => simpa [mark, unmark] using ih

theorem mark_mono {x y : List UInt8} (h : x <+: y) : mark x <+: mark y := by
  obtain ⟨z, rfl⟩ := h
  exact ⟨mark z, List.flatMap_append.symm⟩

theorem unmark_mono {x y : List UInt8} (h : x <+: y) : unmark x <+: unmark y := by
  obtain ⟨z, rfl⟩ := h
  induction x using unmark.induct with
  | case1 m b rest ih => simpa [unmark] using ih
  | case2 x hx =>
    rw [unmark.eq_2 _ hx]
    exact List.nil_prefix

theorem unmark_steady (x : List UInt8) (b : UInt8) : (unmark (x ++ [b])).length ≤ (unmark x).length + 1 := by
  induction x using unmark.induct with
  | case1 m c rest ih => simpa [unmark] using ih
  | case2 x hx =>
    rcases x with _ | ⟨m, _ | ⟨c, rest⟩⟩
    · simp [unmark]
    · simp [unmark]
    · exact absurd rfl (hx m c rest)

/-- What begins a string with marks has marks. -/
theorem marked_of_begins {x data : List UInt8} (h : x <+: mark data) : marked x = true := by
  induction data generalizing x with
  | nil =>
    rw [List.prefix_nil.mp h]
    rfl
  | cons b data ih =>
    rcases x with _ | ⟨m, _ | ⟨c, rest⟩⟩
    · rfl
    · simp_all [mark, marked]
    · simp only [mark, List.flatMap_cons, List.cons_append, List.nil_append, List.cons_prefix_cons] at h
      simp [marked, h.1, ih h.2.2]

/-- The decoder of the format: it rejects a wrong mark. -/
def markTable : Table where
  out := unmark
  verdict x := if marked x then .more else .failed
  atEnd x := if x ≠ [] ∧ x.length % 2 = 0 then .ended else .more
  out_nil := rfl
  out_mono := unmark_mono
  verdict_nil := rfl

/-- Nothing waits inside it. -/
theorem markTable_emitted {f : Feed} {s : StoredState} (h : Reaches storedCoder markTable.start f s) :
    f.emitted = unmark f.taken := markTable.emitted_eq unmark_steady h

/-- Every mark is a 1, up to a mark 0 that ends the bytes. -/
def sealed : List UInt8 → Verdict
  | [] => .more
  | [m] => if m = 0 then .ended else if m = 1 then .more else .failed
  | m :: _ :: rest => if m = 0 then .ended else if m = 1 then sealed rest else .failed

/-- The decoder of single streams of the format, which a mark 0 ends. -/
def sealTable : Table where
  out := unmark
  verdict := sealed
  atEnd _ := .more
  out_nil := rfl
  out_mono := unmark_mono
  verdict_nil := rfl

/-- The encoder of the format. -/
def markEncoder : Table where
  out := mark
  verdict _ := .more
  atEnd _ := .ended
  out_nil := rfl
  out_mono := mark_mono
  verdict_nil := rfl

theorem markEncoder_healthyEncoder : HealthyEncoder storedCoder markEncoder.start mark :=
  Table.healthyEncoder (fun _ => rfl) fun _ => rfl

theorem markTable_decodes (data : List UInt8) : Decodes storedCoder markTable.start (mark data) data := by
  have hdec := markTable.decodes (mark data) fun z hz => if_pos (marked_of_begins hz)
  rwa [show markTable.out (mark data) = data from unmark_mark data] at hdec

/-- The decoder of the format decodes what has marks. -/
theorem markTable_decodesWhole (data : List UInt8) (hne : data ≠ []) :
    DecodesWhole storedCoder markTable.start (mark data) data := by
  have hlength : (mark data).length = 2 * data.length := by simp [mark, Nat.mul_comm]
  have hmark : mark data ≠ [] := by
    have hpos := List.length_pos_iff.mpr hne
    exact List.ne_nil_of_length_pos (by omega)
  have hwhole := markTable.decodesWhole hmark (fun z hz => if_pos (marked_of_begins hz))
    (if_pos ⟨hmark, by omega⟩)
  rwa [show markTable.out (mark data) = data from unmark_mark data] at hwhole

/-! ## As libraries -/

/-- One preset for every level that exists. -/
def storedPreset (level : UInt32) : Option LzmaOptionsLzma :=
  if level ≤ 9 then
    some { dictSize := 0x800000, lc := 3, lp := 0, pb := 2, mode := 2, niceLen := 64, mf := 0x14,
           depth := 0 }
  else none

/-- A library around one coder: its encoders are created in the state `encoder`, its decoders in the state
`decoder`. -/
def pairLiblzma {σ : Type} (c : Coder σ) (encoder decoder : σ) : Liblzma σ where
  coder := c
  lzmaLzmaPreset := storedPreset
  lzmaStreamEncoder := fun _ _ => .ok encoder
  lzmaRawEncoder := fun _ => .ok encoder
  lzmaAutoDecoder := fun _ _ => .ok decoder
  lzmaRawDecoder := fun _ => .ok decoder
  lzmaPropertiesSize := fun filter => .ok (if filter.id = LZMA_FILTER_LZMA1 then 5 else 1)
  lzmaPropertiesEncode := fun filter =>
    .ok (List.replicate (if filter.id = LZMA_FILTER_LZMA1 then 5 else 1) 0)

/-- The library of a coder with one state to start in. -/
def coderLiblzma {σ : Type} (c : Coder σ) (s₀ : σ) : Liblzma σ := pairLiblzma c s₀ s₀

/-- The library of the copying coder. -/
def copyLiblzma : Liblzma Bool := coderLiblzma copyCoder false

/-- The library of the coders that follow two tables. -/
def tableLiblzma (encoder decoder : Table) : Liblzma StoredState :=
  pairLiblzma storedCoder encoder.start decoder.start

/-- The library of the format with marks. -/
def markLiblzma : Liblzma StoredState := tableLiblzma markEncoder markTable

/-- The library of its single streams. -/
def sealLiblzma : Liblzma StoredState := tableLiblzma markEncoder sealTable

end PhpExtXz
