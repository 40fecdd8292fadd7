/-
# PhpExtXz.CoderSpec — what the extension relies on in liblzma, stated about any `Coder`.

The extension never sees inside `lzma_code`; it relies on a contract. This module states that
contract over an arbitrary coder as a ledger of what the coder has been fed and has put out so far
(`Feed`), the states a caller can drive it into (`Reaches`; `Called` where the rules for callers do not
matter), and one named hypothesis for each role:

* `HealthyEncoder` — an encoder whose complete output is a function of the bytes fed;
* `Decodes`, `DecodesWhole` — a decoder on a file that decodes to a known string;
* `ByteDecoder`, `FinishingDecoder` — a decoder on any bytes at all, whose output and verdict are
  functions of the bytes fed.

They are hypotheses of the results that use them. A stall is a call that neither takes nor emits a
byte: the first one in a row returns `LZMA_OK`, the next one `LZMA_BUF_ERROR`.
-/
import PhpExtXz.Liblzma

namespace PhpExtXz

variable {σ : Type}

/-! ## Codes -/

/-- Neither success, nor the end, nor a mere stall: no loop of the extension goes on after it. -/
def LzmaRet.fails : LzmaRet → Bool
  | .ok | .streamEnd | .bufError => false
  | _ => true

/-- Every code is success, the end, a stall, or a failure. -/
theorem LzmaRet.ok_or_end_or_stall_or_fails (ret : LzmaRet) :
    ret = .ok ∨ ret = .streamEnd ∨ ret = .bufError ∨ ret.fails = true := by
  cases ret <;> simp [LzmaRet.fails]

/-- A failure after which `lzma_code` refuses every call. -/
def LzmaRet.isFatal : LzmaRet → Bool
  | .memError | .formatError | .optionsError | .dataError | .progError => true
  | _ => false

/-- A failure that only tells something, after which the coder goes on: what the `LZMA_TELL_*` flags ask
for. -/
def LzmaRet.announces : LzmaRet → Bool
  | .noCheck | .unsupportedCheck | .getCheck | .seekNeeded => true
  | _ => false

/-- The remaining failure is the memory limit. -/
theorem LzmaRet.fails_cases {ret : LzmaRet} (h : ret.fails = true) :
    (ret.isFatal = true ∧ ret.announces = false ∧ ret ≠ .memlimitError) ∨
    (ret.announces = true ∧ ret.isFatal = false ∧ ret ≠ .memlimitError) ∨ ret = .memlimitError := by
  cases ret <;> simp [LzmaRet.fails, LzmaRet.isFatal, LzmaRet.announces] at h ⊢

theorem LzmaRet.fails_of_isFatal {ret : LzmaRet} (h : ret.isFatal = true) : ret.fails = true := by
  cases ret <;> simp [LzmaRet.fails, LzmaRet.isFatal] at h ⊢

theorem LzmaRet.ne_of_fails {ret : LzmaRet} (h : ret.fails = true) :
    ret ≠ .ok ∧ ret ≠ .streamEnd ∧ ret ≠ .bufError := by
  cases ret <;> simp [LzmaRet.fails] at h ⊢

/-! ## The ledger of a coder -/

/-- The call took or emitted something. -/
def CodeResult.Progress (r : CodeResult σ) : Prop := 0 < r.taken ∨ r.emitted ≠ []

instance (r : CodeResult σ) : Decidable r.Progress := inferInstanceAs (Decidable (_ ∨ _))

theorem CodeResult.emitted_of_not_progress {r : CodeResult σ} (h : ¬ r.Progress) : r.emitted = [] := by
  by_contra hne
  exact h (Or.inr hne)

/-- A call that has used up its room has put something out. -/
theorem CodeResult.emitted_ne_nil_of_full {r : CodeResult σ} {room : Nat} (hroom : 0 < room)
    (hfull : room - r.emitted.length = 0) : r.emitted ≠ [] := by
  intro hnone
  rw [hnone, List.length_nil] at hfull
  omega

/-- What a coder has been given and has given since it was created. -/
structure Feed where
  taken : List UInt8 := []
  emitted : List UInt8 := []
  /-- the last call made no progress -/
  stalled : Bool := false
  /-- `LZMA_FINISH` was passed, with these bytes still to be taken -/
  finishing : Option (List UInt8) := none
  /-- some call returned `LZMA_STREAM_END` -/
  ended : Bool := false
  /-- some call that was not refused failed -/
  failed : Bool := false
  /-- it did so with a fatal code -/
  fatal : Bool := false
  /-- some call returned `LZMA_MEMLIMIT_ERROR` -/
  limited : Bool := false
  /-- what liblzma remembers under this name: another call that finds nothing to do will return
  `LZMA_BUF_ERROR` -/
  allowBufError : Bool := false

/-- Once `LZMA_FINISH` was passed, `LZMA_RUN` is refused: the call does nothing. -/
def Feed.refuses (f : Feed) : LzmaAction → Bool
  | .run => f.finishing.isSome
  | .finish => false

/-- The ledger after one more call. -/
def Feed.step (f : Feed) (action : LzmaAction) (input : List UInt8) (r : CodeResult σ) : Feed where
  taken := f.taken ++ input.take r.taken
  emitted := f.emitted ++ r.emitted
  stalled := decide (¬ r.Progress)
  finishing := match action with
    | .run => f.finishing
    | .finish => some (input.drop r.taken)
  ended := f.ended || decide (r.ret = .streamEnd)
  failed := f.failed || (r.ret.fails && !f.refuses action)
  fatal := f.fatal || (r.ret.isFatal && !f.refuses action)
  limited := f.limited || decide (r.ret = .memlimitError)
  allowBufError := match r.ret with
    | .ok | .bufError => decide (¬ r.Progress)
    | .progError => f.allowBufError
    | _ => false

/-- liblzma's rule for the caller: from the first `LZMA_FINISH` on, a `LZMA_FINISH` call offers
exactly the input that is left. -/
def Feed.Allows (f : Feed) : LzmaAction → List UInt8 → Prop
  | .run, _ => True
  | .finish, input => f.finishing = none ∨ f.finishing = some input

/-- The states a caller can drive the coder `c` into from `s₀`, with the ledger that led there. Only
calls with output room are made. -/
inductive Reaches (c : Coder σ) (s₀ : σ) : Feed → σ → Prop
  | start : Reaches c s₀ {} s₀
  | call {f : Feed} {s : σ} (action : LzmaAction) (input : List UInt8) (room : Nat) :
      Reaches c s₀ f s → f.Allows action input → 0 < room →
      Reaches c s₀ (f.step action input (c.code s action input room))
        (c.code s action input room).state

/-- The states that calls of any kind lead to, with the ledger of these calls. -/
inductive Called (c : Coder σ) (s₀ : σ) : Feed → σ → Prop
  | start : Called c s₀ {} s₀
  | call {f : Feed} {s : σ} (action : LzmaAction) (input : List UInt8) (room : Nat) :
      Called c s₀ f s →
      Called c s₀ (f.step action input (c.code s action input room)) (c.code s action input room).state

variable {c : Coder σ} {s₀ s : σ} {f : Feed} {input rest : List UInt8} {room : Nat}
  {r : CodeResult σ}

theorem Reaches.called (h : Reaches c s₀ f s) : Called c s₀ f s := by
  induction h with
  | start => exact .start
  | call action input room _ _ _ ih => exact .call action input room ih

theorem Reaches.run (h : Reaches c s₀ f s) (hroom : 0 < room) (hr : c.code s .run input room = r) :
    Reaches c s₀ (f.step .run input r) r.state := by
  subst hr
  exact .call .run input room h trivial hroom

theorem Reaches.finish (h : Reaches c s₀ f s) (hf : f.finishing = none ∨ f.finishing = some input)
    (hroom : 0 < room) (hr : c.code s .finish input room = r) :
    Reaches c s₀ (f.step .finish input r) r.state := by
  subst hr
  exact .call .finish input room h hf hroom

/-- The ledger counts every failure but those of refused calls. -/
theorem Called.failed_of (h : Called c s₀ f s) :
    (f.fatal = true → f.failed = true) ∧ (f.limited = true → f.failed = true ∨ f.finishing ≠ none) := by
  induction h with
  | start => exact ⟨nofun, nofun⟩
  | @call f s action input room _ ih =>
    generalize c.code s action input room = r
    simp only [Feed.step, Bool.or_eq_true, Bool.and_eq_true, decide_eq_true_eq]
    refine ⟨?_, ?_⟩
    · rintro (hfatal | ⟨hfatal, hallowed⟩)
      · exact Or.inl (ih.1 hfatal)
      · exact Or.inr ⟨LzmaRet.fails_of_isFatal hfatal, hallowed⟩
    · rintro (hlimited | hlimit)
      · rcases ih.2 hlimited with hfailed | hfinishing
        · exact Or.inl (Or.inl hfailed)
        · refine Or.inr ?_
          cases action with
          | run => exact hfinishing
          | finish => exact Option.some_ne_none _
      · cases action with
        | finish => exact Or.inr (Option.some_ne_none _)
        | run =>
          cases hfinishing : f.finishing with
          | none => exact Or.inl (Or.inr (by simp [hlimit, LzmaRet.fails, Feed.refuses, hfinishing]))
          | some rest => exact Or.inr (Option.some_ne_none _)

/-- A decoder that has not failed has met neither a fatal code nor the memory limit. -/
theorem Reaches.not_fatal (h : Reaches c s₀ f s) (hx : f.failed = false) : f.fatal = false := by
  by_contra hfatal
  rw [h.called.failed_of.1 (by simpa using hfatal)] at hx
  cases hx

theorem Reaches.not_limited (h : Reaches c s₀ f s) (hf : f.finishing = none) (hx : f.failed = false) :
    f.limited = false := by
  by_contra hlimited
  rcases h.called.failed_of.2 (by simpa using hlimited) with hfailed | hfinishing
  · rw [hfailed] at hx
    cases hx
  · exact hfinishing hf

/-- A call moves bytes from the input to what has been taken. -/
theorem Feed.taken_step_append (action : LzmaAction) :
    (f.step action input r).taken ++ input.drop r.taken = f.taken ++ input := by
  simp only [Feed.step, List.append_assoc, List.take_append_drop]

theorem Feed.taken_step_prefix (action : LzmaAction) :
    (f.step action input r).taken <+: f.taken ++ input :=
  ⟨_, Feed.taken_step_append action⟩

/-! ## The ledger beside the coder -/

/-- The coder with its ledger kept beside its state. The program cannot tell the difference: it passes
the state on without looking at it. -/
def Coder.logged (c : Coder σ) : Coder (σ × Feed) where
  code s action input room :=
    let r := c.code s.1 action input room
    ⟨r.ret, r.taken, r.emitted, (r.state, s.2.step action input r)⟩
  taken_le s action input room := c.taken_le s.1 action input room
  emitted_le s action input room := c.emitted_le s.1 action input room

/-- A library whose coder keeps its ledger beside its state. -/
def Liblzma.logged (L : Liblzma σ) : Liblzma (σ × Feed) where
  coder := L.coder.logged
  lzmaLzmaPreset := L.lzmaLzmaPreset
  lzmaStreamEncoder filters check := (L.lzmaStreamEncoder filters check).map (·, {})
  lzmaRawEncoder filters := (L.lzmaRawEncoder filters).map (·, {})
  lzmaAutoDecoder memlimit flags := (L.lzmaAutoDecoder memlimit flags).map (·, {})
  lzmaRawDecoder filters := (L.lzmaRawDecoder filters).map (·, {})
  lzmaPropertiesSize := L.lzmaPropertiesSize
  lzmaPropertiesEncode := L.lzmaPropertiesEncode

/-- What is kept beside the state is the ledger. -/
theorem Reaches.of_logged {p : σ × Feed} (h : Reaches c.logged (s₀, {}) f p) :
    p.2 = f ∧ Reaches c s₀ f p.1 := by
  induction h with
  | start => exact ⟨rfl, .start⟩
  | @call f p action input room _ hallow hroom ih =>
    obtain ⟨rfl, hreach⟩ := ih
    exact ⟨rfl, .call action input room hreach hallow hroom⟩

/-! ## Encoders -/

/-- The bytes a caller may still feed: any under `LZMA_RUN`, the announced rest afterwards. -/
def Feed.Awaits (f : Feed) (rest : List UInt8) : Prop :=
  f.finishing = none ∨ f.finishing = some rest

/-- **An encoder without failures.** Its total output up to `LZMA_STREAM_END` is the function `Enc`
of the bytes fed, so that at any moment the output so far is the beginning of `Enc` of what has
been fed and is still to come. Under `LZMA_RUN` it encodes as much input as possible: with input
and room it makes progress, and it stops short of its input only for lack of room. Under
`LZMA_FINISH` it fills the room or ends. -/
structure HealthyEncoder (c : Coder σ) (s₀ : σ) (Enc : List UInt8 → List UInt8) : Prop where
  output_prefix : ∀ {f s rest}, Reaches c s₀ f s → f.Awaits rest →
    f.emitted <+: Enc (f.taken ++ rest)
  run_ok : ∀ {f s input room r}, Reaches c s₀ f s → f.finishing = none → 0 < room → input ≠ [] →
    c.code s .run input room = r → r.ret = .ok ∧ r.Progress
  run_idle : ∀ {f s room r}, Reaches c s₀ f s → f.finishing = none → 0 < room →
    c.code s .run [] room = r →
    r.ret = .ok ∨ (r.ret = .bufError ∧ f.stalled = true ∧ ¬ r.Progress)
  run_takes_all : ∀ {f s input room r}, Reaches c s₀ f s → f.finishing = none → 0 < room →
    c.code s .run input room = r → r.ret = .ok → r.emitted.length < room →
    r.taken = input.length
  finish_ok : ∀ {f s input room r}, Reaches c s₀ f s → f.Awaits input → 0 < room →
    c.code s .finish input room = r →
    (r.ret = .ok ∧ r.emitted.length = room) ∨
    (r.ret = .streamEnd ∧ r.taken = input.length ∧
      f.emitted ++ r.emitted = Enc (f.taken ++ input))

/-- After a call, too, the output so far is the beginning of the encoding of all that has been given and is
still to come. -/
theorem HealthyEncoder.step_prefix {Enc : List UInt8 → List UInt8} {action : LzmaAction}
    {later : List UInt8} (h : HealthyEncoder c s₀ Enc) (hreach : Reaches c s₀ (f.step action input r) s)
    (hawaits : (f.step action input r).Awaits (input.drop r.taken ++ later)) :
    f.emitted ++ r.emitted <+: Enc (f.taken ++ input ++ later) := by
  have hpre := h.output_prefix hreach hawaits
  rw [← List.append_assoc, Feed.taken_step_append] at hpre
  exact hpre

/-! ## Decoders on a file that decodes -/

/-- **A decoder opened with `LZMA_CONCATENATED`, on (part of) a file `s` that decodes to `D`.**
Under `LZMA_RUN` it emits `D` in order, returns `LZMA_OK` while it waits for more, makes progress
whenever it has input and output room, and reports lack of input only through a stall. All of this as long
as it has not failed: it may have been offered other bytes before, and have rejected them. -/
structure Decodes (c : Coder σ) (s₀ : σ) (s D : List UInt8) : Prop where
  in_order : ∀ {f st}, Reaches c s₀ f st → f.finishing = none → f.failed = false → f.taken <+: s →
    f.emitted <+: D
  run_ok : ∀ {f st input room r}, Reaches c s₀ f st → f.finishing = none → f.failed = false →
    f.taken ++ input <+: s → 0 < room → input ≠ [] → c.code st .run input room = r →
    r.ret = .ok ∧ r.Progress
  run_idle : ∀ {f st room r}, Reaches c s₀ f st → f.finishing = none → f.failed = false →
    f.taken <+: s → 0 < room → c.code st .run [] room = r →
    r.ret = .ok ∨ (r.ret = .bufError ∧ f.stalled = true ∧ ¬ r.Progress)

/-- **The same decoder on the whole of a complete file.** A call that leaves room has taken its
input and, once all of `s` is taken, has emitted all of `D`; then `LZMA_FINISH` ends the stream. The
last byte of `s` may be taken while decoded bytes still wait for room. -/
structure DecodesWhole (c : Coder σ) (s₀ : σ) (s D : List UInt8) : Prop
    extends Decodes c s₀ s D where
  nonempty : s ≠ []
  takes_all : ∀ {f st input room r}, Reaches c s₀ f st → f.finishing = none → f.failed = false →
    f.taken ++ input <+: s → 0 < room → c.code st .run input room = r → r.emitted.length < room →
    r.taken = input.length
  drained : ∀ {f st input room r}, Reaches c s₀ f st → f.finishing = none → f.failed = false →
    f.taken ++ input = s → 0 < room → c.code st .run input room = r → r.emitted.length < room →
    f.emitted ++ r.emitted = D
  finish_ends : ∀ {f st room r}, Reaches c s₀ f st → f.finishing = none → f.failed = false →
    f.taken = s → f.emitted = D → 0 < room → c.code st .finish [] room = r →
    r.ret = .streamEnd ∧ r.emitted = []

/-- A call that has not failed leaves a decoder that has not. -/
theorem Feed.notFailed_step {action : LzmaAction} (h : f.failed = false) (hr : r.ret.fails = false) :
    (f.step action input r).failed = false := by
  simp [Feed.step, h, hr]

/-! ## Decoders on any bytes -/

/-- What the bytes fed so far amount to. -/
inductive Verdict where
  /-- the decoder waits for more input -/
  | more
  /-- the bytes are exactly one encoding, its end included -/
  | ended
  /-- the decoder fails here: the bytes are not the beginning of an encoding, or they ask for more memory
  than it may use -/
  | failed
  deriving DecidableEq, Repr

/-- `x` is the first place in `given` where the verdict is other than `more`, and it is `v` there; or
there is no such place, `v` is `more` and `x` is all of `given`. -/
structure DecidedAt (verdict : List UInt8 → Verdict) (given x : List UInt8) (v : Verdict) : Prop where
  inside : x <+: given
  decided : verdict x = v
  first : ∀ z, z <+: x → z ≠ x → verdict z = .more
  undecided : v = .more → x = given

/-- Bytes are decided in one place and in one way. -/
theorem DecidedAt.unique {verdict : List UInt8 → Verdict} {given x y : List UInt8} {v w : Verdict}
    (hx : DecidedAt verdict given x v) (hy : DecidedAt verdict given y w) : x = y ∧ v = w := by
  -- a decided place is no proper prefix of another one
  have key : ∀ {x y : List UInt8} {v w : Verdict}, DecidedAt verdict given x v →
      DecidedAt verdict given y w → x <+: y → x = y := by
    intro x y v w hx hy hxy
    by_contra hne
    have hmore : verdict x = .more := hy.first x hxy hne
    have hall : x = given := hx.undecided (hx.decided.symm.trans hmore)
    exact hne (hxy.eq_of_length_le (hall ▸ hy.inside.length_le))
  have hxy : x = y := by
    rcases List.prefix_or_prefix_of_prefix hx.inside hy.inside with h | h
    · exact key hx hy h
    · exact (key hy hx h).symm
  exact ⟨hxy, by rw [← hx.decided, ← hy.decided, hxy]⟩

/-- What has been decided stays decided when more bytes come. -/
theorem DecidedAt.extend {verdict : List UInt8 → Verdict} {given given' x : List UInt8} {v : Verdict}
    (h : DecidedAt verdict given x v) (hv : v ≠ .more) (hgiven : given <+: given') :
    DecidedAt verdict given' x v :=
  ⟨h.inside.trans hgiven, h.decided, h.first, fun hmore => absurd hmore hv⟩

/-- **A decoder whose output and verdict are functions of the bytes fed**, whatever the calls they
came in. Under `LZMA_RUN` it decodes as much input as possible and produces as much output as
possible: when it returns `LZMA_OK` with room left it has taken all its input and has emitted all
that follows from it. It never takes a byte past the point where it ends. It fails if what it has taken and
what it is offered are wrong at some point; the byte that makes them wrong need not be taken then, and
bytes behind it may have been. -/
structure ByteDecoder (c : Coder σ) (s₀ : σ) (out : List UInt8 → List UInt8)
    (verdict : List UInt8 → Verdict) : Prop where
  out_nil : out [] = []
  verdict_nil : verdict [] = .more
  out_mono : ∀ {x y}, x <+: y → out x <+: out y
  out_prefix : ∀ {f st}, Reaches c s₀ f st → f.fatal = false → f.emitted <+: out f.taken
  never_past : ∀ {f st x}, Reaches c s₀ f st → f.finishing = none → f.failed = false →
    x <+: f.taken → x ≠ f.taken → verdict x = .more
  run_progress : ∀ {f st input room r}, Reaches c s₀ f st → f.finishing = none →
    f.ended = false → f.failed = false → 0 < room → input ≠ [] →
    c.code st .run input room = r → r.ret = .ok → r.Progress
  run_drained : ∀ {f st input room r}, Reaches c s₀ f st → f.finishing = none →
    f.ended = false → f.failed = false → 0 < room → c.code st .run input room = r →
    r.ret = .ok → r.emitted.length < room →
    r.taken = input.length ∧ verdict (f.taken ++ input) = .more ∧
      f.emitted ++ r.emitted = out (f.taken ++ input)
  run_ended : ∀ {f st input room r}, Reaches c s₀ f st → f.finishing = none →
    f.ended = false → f.failed = false → 0 < room → c.code st .run input room = r →
    r.ret = .streamEnd →
    verdict (f.taken ++ input.take r.taken) = .ended ∧
      f.emitted ++ r.emitted = out (f.taken ++ input.take r.taken)
  run_failed : ∀ {f st input room r}, Reaches c s₀ f st → f.finishing = none →
    f.ended = false → f.failed = false → 0 < room → c.code st .run input room = r →
    r.ret.fails = true → ∃ x, DecidedAt verdict (f.taken ++ input) x .failed
  run_stalled : ∀ {f st input room r}, Reaches c s₀ f st → f.finishing = none →
    f.ended = false → f.failed = false → 0 < room → c.code st .run input room = r →
    (r.ret = .bufError → ¬ r.Progress ∧ input = [] ∧ f.allowBufError = true) ∧
    (r.ret = .ok → ¬ r.Progress → f.allowBufError = false)

/-! ### After a failure -/

/-- After a fatal code every call is refused. -/
def RefusesAfterFatal (c : Coder σ) (s₀ : σ) : Prop :=
  ∀ {f s action input room r}, Reaches c s₀ f s → f.fatal = true → 0 < room →
    c.code s action input room = r → r.ret = .progError ∧ ¬ r.Progress

/-- The code of a call that finds nothing to do. -/
def Feed.stallCode (f : Feed) : LzmaRet := if f.allowBufError then .bufError else .ok

theorem Feed.stallCode_cases (f : Feed) : f.stallCode = .ok ∨ f.stallCode = .bufError := by
  unfold Feed.stallCode
  split
  · exact Or.inr rfl
  · exact Or.inl rfl

/-- The code of a call after `LZMA_MEMLIMIT_ERROR`. Every call reports the limit again, unless it is
refused; but after some bytes (`quiet`: those of a `.lzma` header) the decoder only looks at the limit when
it is given input. -/
def Feed.limitCode (f : Feed) (quiet : List UInt8 → Bool) (action : LzmaAction) (input : List UInt8) :
    LzmaRet :=
  if f.refuses action then .progError
  else if input = [] ∧ quiet f.taken = true then f.stallCode
  else .memlimitError

/-- After `LZMA_MEMLIMIT_ERROR` the decoder takes and emits nothing any more. -/
def RepeatsLimit (c : Coder σ) (s₀ : σ) (quiet : List UInt8 → Bool) : Prop :=
  ∀ {f s action input room r}, Reaches c s₀ f s → f.limited = true → f.fatal = false →
    f.Allows action input → 0 < room → c.code s action input room = r →
    ¬ r.Progress ∧ r.ret = f.limitCode quiet action input

/-- A decoder that was opened without `LZMA_TELL_*` flags. -/
def NeverAnnounces (c : Coder σ) (s₀ : σ) : Prop :=
  ∀ {f s action input room r}, Reaches c s₀ f s → c.code s action input room = r → r.ret.announces = false

/-! ### What `LZMA_FINISH` adds -/

/-- The codes of a call that says that no more bytes come, by what they amount to. -/
def Feed.FinishCode (f : Feed) (ret : LzmaRet) : Verdict → Prop
  | .ended => ret = .streamEnd
  | .failed => ret.isFatal = true
  | .more => ret = f.stallCode

/-- **A decoder that is told that no more bytes come.** While it waits for input, `LZMA_FINISH` without input
ends the stream when the bytes fed are complete (`atEnd` says so), fails when they cannot be, and else
stalls; from then on `LZMA_RUN` is refused with `LZMA_PROG_ERROR`. After a fatal code every call is. -/
structure FinishingDecoder (c : Coder σ) (s₀ : σ) (out : List UInt8 → List UInt8)
    (verdict atEnd : List UInt8 → Verdict) : Prop extends ByteDecoder c s₀ out verdict where
  finish_call : ∀ {f st room r}, Reaches c s₀ f st → f.Awaits [] → f.ended = false →
    f.failed = false → f.emitted = out f.taken → verdict f.taken = .more → 0 < room →
    c.code st .finish [] room = r →
    r.emitted = [] ∧ f.FinishCode r.ret (atEnd f.taken)
  run_refused : ∀ {f st input room r}, Reaches c s₀ f st → f.finishing ≠ none →
    f.ended = false → 0 < room → c.code st .run input room = r →
    r.ret = .progError ∧ ¬ r.Progress
  refuses : RefusesAfterFatal c s₀

/-- **A decoder whose failures are known.** `code` is the code it fails with where the bytes are wrong, and
after the memory limit it repeats it. -/
structure StatusDecoder (c : Coder σ) (s₀ : σ) (out : List UInt8 → List UInt8)
    (verdict atEnd : List UInt8 → Verdict) (code : List UInt8 → LzmaRet) (quiet : List UInt8 → Bool) : Prop
    extends FinishingDecoder c s₀ out verdict atEnd where
  run_code : ∀ {f st input room r x}, Reaches c s₀ f st → f.finishing = none →
    f.ended = false → f.failed = false → 0 < room → c.code st .run input room = r →
    r.ret.fails = true → DecidedAt verdict (f.taken ++ input) x .failed → r.ret = code x
  repeats : RepeatsLimit c s₀ quiet

/-! ### With the ledger beside it -/

variable {out : List UInt8 → List UInt8} {verdict atEnd : List UInt8 → Verdict}

/-- A coder with its ledger beside it satisfies the same contracts. -/
theorem FinishingDecoder.logged (h : FinishingDecoder c s₀ out verdict atEnd) :
    FinishingDecoder c.logged (s₀, {}) out verdict atEnd where
  out_nil := h.out_nil
  verdict_nil := h.verdict_nil
  out_mono := h.out_mono
  out_prefix hreach := h.out_prefix hreach.of_logged.2
  never_past hreach := h.never_past hreach.of_logged.2
  run_progress hreach hf he hx hroom hne hr := by
    subst hr
    exact h.run_progress hreach.of_logged.2 hf he hx hroom hne rfl
  run_drained hreach hf he hx hroom hr := by
    subst hr
    exact h.run_drained hreach.of_logged.2 hf he hx hroom rfl
  run_ended hreach hf he hx hroom hr := by
    subst hr
    exact h.run_ended hreach.of_logged.2 hf he hx hroom rfl
  run_failed hreach hf he hx hroom hr := by
    subst hr
    exact h.run_failed hreach.of_logged.2 hf he hx hroom rfl
  run_stalled hreach hf he hx hroom hr := by
    subst hr
    exact h.run_stalled hreach.of_logged.2 hf he hx hroom rfl
  finish_call hreach hf he hx hout hmore hroom hr := by
    subst hr
    exact h.finish_call hreach.of_logged.2 hf he hx hout hmore hroom rfl
  run_refused hreach hf he hroom hr := by
    subst hr
    exact h.run_refused hreach.of_logged.2 hf he hroom rfl
  refuses hreach hf hroom hr := by
    subst hr
    exact h.refuses hreach.of_logged.2 hf hroom rfl

theorem StatusDecoder.logged {code : List UInt8 → LzmaRet} {quiet : List UInt8 → Bool}
    (h : StatusDecoder c s₀ out verdict atEnd code quiet) :
    StatusDecoder c.logged (s₀, {}) out verdict atEnd code quiet where
  toFinishingDecoder := h.toFinishingDecoder.logged
  run_code hreach hf he hx hroom hr := by
    subst hr
    exact h.run_code hreach.of_logged.2 hf he hx hroom rfl
  repeats hreach hlimited hfatal hallow hroom hr := by
    subst hr
    exact h.repeats hreach.of_logged.2 hlimited hfatal hallow hroom rfl

end PhpExtXz
