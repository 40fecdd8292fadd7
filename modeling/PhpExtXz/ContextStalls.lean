/-
# PhpExtXz.ContextStalls — a stall costs no output in the loops of the contexts.

liblzma returns `LZMA_BUF_ERROR` only from a call without progress that follows a call without progress
(`BufErrorAfterStall`). Both loops go round again only after a call that has filled its room, so that no
pass but the first can begin with a stalled coder, whatever was called before: where the encoding loop
gives its string up on `LZMA_BUF_ERROR` the string is empty, and the decoding loop never grows it there.

Every pass begins with its call in place (`CallInPlace`), however often the string has grown, also where
the output is a multiple of `XZ_BUFFER_SIZE` and the last room was filled to its end.
-/
import PhpExtXz.ConcreteCoders
import PhpExtXz.StringsEnd

namespace PhpExtXz

open FuelLoop

variable {σ : Type} {c : Coder σ} {s₀ : σ} {switch : LzmaRet → Nat → Switch} {action : LzmaAction}
  {data : List UInt8} {strm : LzmaStream σ} {past : List (OutString σ)} {w w' : OutString σ} {f : Feed}

/-- liblzma returns `LZMA_BUF_ERROR` only from a call without progress that follows a call without
progress. -/
def BufErrorAfterStall (c : Coder σ) (s₀ : σ) : Prop :=
  ∀ f s action input room r, Called c s₀ f s → c.code s action input room = r → r.ret = .bufError →
    ¬ r.Progress ∧ f.stalled = true

/-! ## An invocation of the shared loop -/

/-- An invocation on `data` begins the pass `w` after it has made the passes `past`. -/
abbrev Invocation (switch : LzmaRet → Nat → Switch) (c : Coder σ) (strm : LzmaStream σ)
    (data : List UInt8) (action : LzmaAction) : List (OutString σ) → OutString σ → Prop :=
  History (processTurn switch c action data) (.start strm data.length)

/-- The bytes that the `lzma_code` calls of the passes put out. -/
def producedIn (c : Coder σ) (action : LzmaAction) (data : List UInt8) (passes : List (OutString σ)) :
    List UInt8 :=
  passes.flatMap fun w => (w.strm.next c action data).emitted

@[simp]
theorem producedIn_nil : producedIn c action data [] = [] := rfl

@[simp]
theorem producedIn_concat : producedIn c action data (past ++ [w]) =
    producedIn c action data past ++ (w.strm.next c action data).emitted := by
  simp [producedIn]

/-- The `lzma_code` call of a pass is in place: there is room, `next_out` is behind what was produced, the
room ends where the string does, and up to `next_out` the string holds what was produced. The call stays
inside its objects, and it leaves the string in order. -/
structure CallInPlace (c : Coder σ) (action : LzmaAction) (data : List UInt8)
    (past : List (OutString σ)) (w : OutString σ) : Prop where
  room : 0 < w.strm.availOut
  nextOut : w.strm.nextOut = (producedIn c action data past).length
  len : w.out.len = (producedIn c action data past).length + w.strm.availOut
  kept : w.produced = producedIn c action data past
  made : ∃ w', w.code c action data = .ok ((w.strm.next c action data).ret, w') ∧
    w'.strm = w.strm.advance (w.strm.next c action data) ∧
    w'.out.len = (producedIn c action data (past ++ [w])).length + w'.strm.availOut

/-- **A stall costs no output** in the function `process`, whose loop goes by `switch`. -/
structure StallCostsNothing (switch : LzmaRet → Nat → Switch) (c : Coder σ) (strm : LzmaStream σ)
    (data : List UInt8) (action : LzmaAction) (process : Nat → Exec MemoryFault (Processed σ)) : Prop where
  /-- every call is made in place -/
  inPlace : ∀ past w, Invocation switch c strm data action past w → CallInPlace c action data past w
  /-- `LZMA_BUF_ERROR` comes from the first call, and then nothing is produced -/
  firstCall : ∀ past w, Invocation switch c strm data action past w →
    (w.strm.next c action data).ret = .bufError →
    past = [] ∧ producedIn c action data (past ++ [w]) = []
  /-- the string does not grow on it -/
  noGrowth : ∀ past w, Invocation switch c strm data action past w →
    (w.strm.next c action data).ret = .bufError →
    switch .bufError (w.strm.advance (w.strm.next c action data)).availOut ≠ .grow
  /-- a string that is returned holds what was produced, and none is given up on it that holds anything -/
  returned : ∀ fuel p, process fuel = .ok p → ∃ past w,
    Invocation switch c strm data action past w ∧
    processTurn switch c action data w = .ok (.leave p) ∧
    p.status = (w.strm.next c action data).ret ∧
    (∀ out, p.out = some out → out = producedIn c action data (past ++ [w])) ∧
    (p.out = none → p.status = .bufError → producedIn c action data (past ++ [w]) = [])

/-! ## Its passes -/

/-- What holds when a pass begins. -/
structure PassBegins (c : Coder σ) (s₀ : σ) (action : LzmaAction) (data : List UInt8)
    (past : List (OutString σ)) (w : OutString σ) : Prop where
  /-- only the first pass can find a stalled coder -/
  called : ∃ f, Called c s₀ f w.strm.internal ∧ (past ≠ [] → f.stalled = false)
  inside : w.Inside data
  room : 0 < w.strm.availOut
  produced : w.produced = producedIn c action data past

theorem PassBegins.start (hcalled : Called c s₀ f strm.internal) :
    PassBegins c s₀ action data [] (.start strm data.length) where
  called := ⟨f, hcalled, fun h => absurd rfl h⟩
  inside := OutString.start_inside strm
  room := Nat.succ_pos _
  produced := OutString.start_produced

namespace PassBegins

/-- The call of the pass. -/
theorem call (h : PassBegins c s₀ action data past w) :
    ∃ w', w.code c action data = .ok ((w.strm.next c action data).ret, w') ∧ w'.Inside data ∧
      w'.strm = w.strm.advance (w.strm.next c action data) ∧
      w'.produced = producedIn c action data (past ++ [w]) := by
  have hnext : c.code w.strm.internal action (w.left data) w.strm.availOut =
      w.strm.next c action data := by
    rw [LzmaStream.next, OutString.input_eq_left h.inside.2]
  obtain ⟨w', hcode, hfit, hreads, hstrm, hproduced, -⟩ :=
    OutString.code_eq_ok h.inside.1 h.inside.2 hnext
  refine ⟨w', hcode, ⟨hfit, hreads⟩, hstrm, ?_⟩
  rw [hproduced, h.produced, producedIn_concat]

/-- The coder after the call. -/
theorem called_next (h : PassBegins c s₀ action data past w) :
    ∃ f, Called c s₀ f (w.strm.next c action data).state ∧
      ((w.strm.next c action data).Progress → f.stalled = false) := by
  obtain ⟨f, hcalled, -⟩ := h.called
  refine ⟨_, .call action (w.strm.input data) w.strm.availOut hcalled, ?_⟩
  intro hprogress
  show decide (¬ (w.strm.next c action data).Progress) = false
  exact decide_eq_false (not_not_intro hprogress)

/-- A call that leaves no room has filled it. -/
theorem progress_of_full (h : PassBegins c s₀ action data past w)
    (hfull : (w.strm.advance (w.strm.next c action data)).availOut = 0) :
    (w.strm.next c action data).Progress := by
  rw [LzmaStream.advance_availOut] at hfull
  exact Or.inr (CodeResult.emitted_ne_nil_of_full h.room hfull)

/-- One pass that goes round again. -/
theorem next (hswitch : ∀ ret n, switch ret n = .grow → n = 0)
    (h : PassBegins c s₀ action data past w)
    (hturn : processTurn switch c action data w = .ok (.again w')) :
    PassBegins c s₀ action data (past ++ [w]) w' := by
  obtain ⟨v, hcode, hinside, hstrm, hproduced⟩ := h.call
  obtain ⟨f, hcalled, hprogress⟩ := h.called_next
  rcases processTurn_cases switch hcode with ⟨hgrow, heq⟩ | ⟨-, heq⟩ | ⟨-, heq⟩
  · rw [heq] at hturn
    cases hturn
    have hfull : v.strm.availOut = 0 := hswitch _ _ hgrow
    refine ⟨⟨f, ?_, ?_⟩, hinside.grow hfull, Nat.succ_pos _, ?_⟩
    · show Called c s₀ f v.strm.internal
      rw [hstrm]
      exact hcalled
    · intro _
      rw [hstrm] at hfull
      exact hprogress (h.progress_of_full hfull)
    · rw [OutString.grow_produced hinside.1, hproduced]
  · rw [heq] at hturn
    cases hturn
  · rw [heq] at hturn
    cases hturn

/-- Every pass of an invocation on a coder that has been called in whatever way. -/
theorem of_invocation (hswitch : ∀ ret n, switch ret n = .grow → n = 0)
    (hcalled : Called c s₀ f strm.internal) (h : Invocation switch c strm data action past w) :
    PassBegins c s₀ action data past w := by
  apply h.invariant (PassBegins c s₀ action data) (.start hcalled)
  intro past w w' hw hturn
  exact hw.next hswitch hturn

/-- The call is in place. -/
theorem callInPlace (h : PassBegins c s₀ action data past w) : CallInPlace c action data past w := by
  obtain ⟨w', hcode, hinside, hstrm, hproduced⟩ := h.call
  have hnext : w.strm.nextOut = (producedIn c action data past).length := by
    rw [← h.produced, OutString.length_produced h.inside.1]
  have hnext' : w'.strm.nextOut = (producedIn c action data (past ++ [w])).length := by
    rw [← hproduced, OutString.length_produced hinside.1]
  refine ⟨h.room, hnext, ?_, h.produced, w', hcode, hstrm, ?_⟩
  · rw [← hnext]
    exact h.inside.1.symm
  · rw [← hnext']
    exact hinside.1.symm

/-- `LZMA_BUF_ERROR` comes from the first call, which has then put nothing out. -/
theorem bufError (hbuf : BufErrorAfterStall c s₀) (h : PassBegins c s₀ action data past w)
    (hret : (w.strm.next c action data).ret = .bufError) :
    past = [] ∧ (w.strm.next c action data).emitted = [] := by
  obtain ⟨f, hcalled, hfirst⟩ := h.called
  obtain ⟨hstall, hstalled⟩ := hbuf f _ _ _ _ _ hcalled rfl hret
  refine ⟨?_, CodeResult.emitted_of_not_progress hstall⟩
  by_contra hpast
  rw [hfirst hpast] at hstalled
  cases hstalled

/-- The pass in which the loop leaves. -/
theorem leave {p : Processed σ} (h : PassBegins c s₀ action data past w)
    (hturn : processTurn switch c action data w = .ok (.leave p)) :
    p.status = (w.strm.next c action data).ret ∧
      p.strm = w.strm.advance (w.strm.next c action data) ∧
      ∀ out, p.out = some out → out = producedIn c action data (past ++ [w]) := by
  obtain ⟨v, hcode, hinside, hstrm, hproduced⟩ := h.call
  rcases processTurn_cases switch hcode with ⟨-, heq⟩ | ⟨-, heq⟩ | ⟨-, heq⟩
  · rw [heq] at hturn
    cases hturn
  · rw [heq] at hturn
    cases hturn
    refine ⟨rfl, hstrm, ?_⟩
    rintro out ⟨⟩
    rw [OutString.result_noteUsed hinside.1, hproduced]
  · rw [heq] at hturn
    cases hturn
    exact ⟨rfl, hstrm, nofun⟩

end PassBegins

/-! ## The two functions -/

theorem contextProcess_stallCostsNothing (hbuf : BufErrorAfterStall c s₀)
    (hswitch : ∀ ret n, switch ret n = .grow → n = 0) (hcalled : Called c s₀ f strm.internal)
    (data : List UInt8) (action : LzmaAction) :
    StallCostsNothing switch c strm data action
      fun fuel => contextProcess switch c fuel strm data action where
  inPlace := by
    intro past w hpast
    exact (PassBegins.of_invocation hswitch hcalled hpast).callInPlace
  firstCall := by
    intro past w hpast hret
    obtain ⟨rfl, hnone⟩ := (PassBegins.of_invocation hswitch hcalled hpast).bufError hbuf hret
    refine ⟨rfl, ?_⟩
    rw [producedIn_concat, hnone]
    rfl
  noGrowth := by
    intro past w hpast hret hgrow
    have hw := PassBegins.of_invocation hswitch hcalled hpast
    -- a call that has put nothing out leaves all its room
    have hprogress := hw.progress_of_full (hswitch _ _ hgrow)
    obtain ⟨f', hcalled', -⟩ := hw.called
    exact (hbuf f' _ _ _ _ _ hcalled' rfl hret).1 hprogress
  returned := by
    intro fuel p hp
    obtain ⟨past, w, hpast, hleave⟩ := loop_history hp
    have hw := PassBegins.of_invocation hswitch hcalled hpast
    obtain ⟨hstatus, -, hout⟩ := hw.leave hleave
    refine ⟨past, w, hpast, hleave, hstatus, hout, ?_⟩
    intro _ hret
    rw [hstatus] at hret
    obtain ⟨rfl, hnone⟩ := hw.bufError hbuf hret
    rw [producedIn_concat, hnone]
    rfl

/-- What `php_xz_encode_context_process` leaves. -/
def XzEncodeContext.processed (p : Option (List UInt8) × XzEncodeContext σ) : Processed σ :=
  ⟨p.2.status, p.2.strm, p.1⟩

/-- What `php_xz_decode_context_process` leaves. -/
def XzDecodeContext.processed (p : Option (List UInt8) × XzDecodeContext σ) : Processed σ :=
  ⟨p.2.status, p.2.strm, p.1⟩

variable {L : Liblzma σ}

/-- Both functions are the shared loop with its `switch`. -/
theorem phpXzEncodeContextProcess_processed (fuel : Nat) (obj : XzEncodeContext σ) :
    (phpXzEncodeContextProcess L fuel obj data action).map XzEncodeContext.processed =
      contextProcess encodeSwitch L.coder fuel obj.strm data action := by
  unfold phpXzEncodeContextProcess
  cases contextProcess encodeSwitch L.coder fuel obj.strm data action with
  | error e => rfl
  | ok p => rfl

theorem phpXzDecodeContextProcess_processed (fuel : Nat) (obj : XzDecodeContext σ) :
    (phpXzDecodeContextProcess L fuel obj data action).map XzDecodeContext.processed =
      contextProcess (decodeSwitch action) L.coder fuel obj.strm data action := by
  unfold phpXzDecodeContextProcess
  cases contextProcess (decodeSwitch action) L.coder fuel obj.strm data action with
  | error e => rfl
  | ok p => rfl

/-- A stall costs no output in `php_xz_encode_context_process`. -/
def EncodeStallCostsNothing (L : Liblzma σ) (obj : XzEncodeContext σ) (data : List UInt8)
    (action : LzmaAction) : Prop :=
  StallCostsNothing encodeSwitch L.coder obj.strm data action
    fun fuel => (phpXzEncodeContextProcess L fuel obj data action).map XzEncodeContext.processed

/-- A stall costs no output in `php_xz_decode_context_process`. -/
def DecodeStallCostsNothing (L : Liblzma σ) (obj : XzDecodeContext σ) (data : List UInt8)
    (action : LzmaAction) : Prop :=
  StallCostsNothing (decodeSwitch action) L.coder obj.strm data action
    fun fuel => (phpXzDecodeContextProcess L fuel obj data action).map XzDecodeContext.processed

theorem encodeStallCostsNothing_of_called (hbuf : BufErrorAfterStall L.coder s₀)
    {obj : XzEncodeContext σ} (hcalled : Called L.coder s₀ f obj.strm.internal) (data : List UInt8)
    (action : LzmaAction) : EncodeStallCostsNothing L obj data action := by
  unfold EncodeStallCostsNothing
  simp only [phpXzEncodeContextProcess_processed]
  exact contextProcess_stallCostsNothing hbuf encodeSwitch_grow hcalled data action

theorem decodeStallCostsNothing_of_called (hbuf : BufErrorAfterStall L.coder s₀)
    {obj : XzDecodeContext σ} (hcalled : Called L.coder s₀ f obj.strm.internal) (data : List UInt8)
    (action : LzmaAction) : DecodeStallCostsNothing L obj data action := by
  unfold DecodeStallCostsNothing
  simp only [phpXzDecodeContextProcess_processed]
  exact contextProcess_stallCostsNothing hbuf (decodeSwitch_grow action) hcalled data action

/-- **A stall costs no output in either function**, in whatever way its coder has been called before,
stalled or not. -/
theorem contextStalls_costNothing (hbuf : BufErrorAfterStall L.coder s₀) (data : List UInt8)
    (action : LzmaAction) :
    (∀ (obj : XzEncodeContext σ) f, Called L.coder s₀ f obj.strm.internal →
      EncodeStallCostsNothing L obj data action) ∧
    (∀ (obj : XzDecodeContext σ) f, Called L.coder s₀ f obj.strm.internal →
      DecodeStallCostsNothing L obj data action) := by
  refine ⟨?_, ?_⟩
  · intro obj f hcalled
    exact encodeStallCostsNothing_of_called hbuf hcalled data action
  · intro obj f hcalled
    exact decodeStallCostsNothing_of_called hbuf hcalled data action

/-! ### A stalled copying coder -/

theorem copyCoder_bufErrorAfterStall : BufErrorAfterStall copyCoder false := by
  rintro f s action input room r hcalled rfl hret
  rw [← (copyCoder_called hcalled).2]
  unfold copyCoder at hret
  dsimp only at hret
  split at hret
  · cases hret
  · split at hret
    · rename_i hstall
      obtain ⟨hnone, hstalled⟩ := hstall
      refine ⟨?_, hstalled⟩
      have hnil : input.take room = [] := by
        apply List.eq_nil_of_length_eq_zero
        rw [List.length_take, Nat.min_comm]
        exact hnone
      rintro (htaken | hemitted)
      · exact absurd hnone (Nat.ne_of_gt htaken)
      · exact hemitted hnil
    · cases hret

/-- A context that was given an empty string. -/
def stalledEncoder : XzEncodeContext Bool where
  strm := .init true
  status := .ok
  filterId := LZMA_FILTER_LZMA2
  opt := ⟨0x800000, 3, 0, 2, 2, 64, 0x14, 0⟩
  format := castUInt32 XZ_FORMAT_RAW
  check := LZMA_CHECK_CRC64

/-- A context that was given an empty string. -/
def stalledDecoder : XzDecodeContext Bool := ⟨.init true, .ok, castUInt32 XZ_FORMAT_RAW⟩

/-- Another empty string. -/
theorem contextStalls_costNothing_copy :
    EncodeStallCostsNothing copyLiblzma stalledEncoder [] .run ∧
      DecodeStallCostsNothing copyLiblzma stalledDecoder [] .run ∧
      ((OutString.start (.init true) 0).strm.next copyCoder .run []).ret = .bufError := by
  have hcalled : Called copyCoder false (({} : Feed).step .run [] (copyCoder.code false .run [] 1)) true :=
    .call .run [] 1 .start
  have hboth := contextStalls_costNothing (L := copyLiblzma) copyCoder_bufErrorAfterStall [] .run
  exact ⟨hboth.1 stalledEncoder _ hcalled, hboth.2 stalledDecoder _ hcalled, rfl⟩

/-! ## Along a script -/

theorem contextProcess_called {p : Processed σ} {fuel : Nat}
    (hswitch : ∀ ret n, switch ret n = .grow → n = 0) (hcalled : Called c s₀ f strm.internal)
    (hp : contextProcess switch c fuel strm data action = .ok p) :
    ∃ f, Called c s₀ f p.strm.internal := by
  obtain ⟨past, w, hpast, hleave⟩ := loop_history hp
  have hw := PassBegins.of_invocation hswitch hcalled hpast
  obtain ⟨-, hstrm, -⟩ := hw.leave hleave
  obtain ⟨f', hcalled', -⟩ := hw.called_next
  refine ⟨f', ?_⟩
  rw [hstrm]
  exact hcalled'

theorem encodeOp_called {fuel : Nat} {obj obj' : XzEncodeContext σ} {op : EncodeOp}
    {ret : PhpReturn (List UInt8)} (hcalled : Called L.coder s₀ f obj.strm.internal)
    (h : encodeOp L fuel obj op = .ok (ret, obj')) :
    ∃ f, Called L.coder s₀ f obj'.strm.internal := by
  rcases encodeOp_cases L fuel obj op with ⟨ret', heq⟩ | heq
  · rw [heq] at h
    cases h
    exact ⟨f, hcalled⟩
  · rw [heq] at h
    obtain ⟨p, hprocess, hp⟩ := bind_eq_ok.mp h
    cases hp
    obtain ⟨p, hloop, hp⟩ := bind_eq_ok.mp hprocess
    cases hp
    exact contextProcess_called encodeSwitch_grow hcalled hloop

theorem decodeOp_called {fuel : Nat} {obj obj' : XzDecodeContext σ} {op : DecodeOp}
    {ret : PhpReturn (List UInt8)} (hcalled : Called L.coder s₀ f obj.strm.internal)
    (h : decodeOp L fuel obj op = .ok (ret, obj')) :
    ∃ f, Called L.coder s₀ f obj'.strm.internal := by
  rcases decodeOp_cases L fuel obj op with ⟨ret', heq⟩ | heq
  · rw [heq] at h
    cases h
    exact ⟨f, hcalled⟩
  · rw [heq] at h
    obtain ⟨p, hprocess, hp⟩ := bind_eq_ok.mp h
    cases hp
    obtain ⟨p, hloop, hp⟩ := bind_eq_ok.mp hprocess
    cases hp
    exact contextProcess_called (decodeSwitch_grow op.action) hcalled hloop

/-- Before every step of a script the coder is one that was called in some way. -/
theorem script_called {S Op R : Type} {run : S → Op → Exec MemoryFault (R × S)}
    {strm : S → LzmaStream σ}
    (hop : ∀ obj op r obj' f, Called c s₀ f (strm obj).internal → run obj op = .ok (r, obj') →
      ∃ f, Called c s₀ f (strm obj').internal)
    {obj : S} (hnew : strm obj = .init s₀) {ops : List Op} {step : Runs.Step S Op R (Halt MemoryFault)}
    (hmem : step ∈ Runs.trace run (fun _ => false) obj ops) :
    ∃ f, Called c s₀ f (strm step.before).internal := by
  apply Runs.trace_before (fun obj => ∃ f, Called c s₀ f (strm obj).internal) _ _ hmem
  · rw [hnew]
    exact ⟨{}, .start⟩
  · rintro obj op r obj' ⟨f, hcalled⟩ - hrun -
    exact hop obj op r obj' f hcalled hrun

/-- **Before every step of a script on a new encode context**, whatever was added to it and however often
it was finished, a stall costs no output. -/
theorem encodeScript_stallCostsNothing (hbuf : BufErrorAfterStall L.coder s₀) {fuel : Nat}
    {obj : XzEncodeContext σ} (hnew : obj.strm = .init s₀) (ops : List EncodeOp) :
    ∀ step ∈ Runs.trace (encodeOp L fuel) (fun _ => false) obj ops, ∀ data action,
      EncodeStallCostsNothing L step.before data action := by
  intro step hmem data action
  obtain ⟨f, hcalled⟩ := script_called (fun _ _ _ _ _ h hrun => encodeOp_called h hrun) hnew hmem
  exact encodeStallCostsNothing_of_called hbuf hcalled data action

/-- **Before every step of a script on a new decode context**. -/
theorem decodeScript_stallCostsNothing (hbuf : BufErrorAfterStall L.coder s₀) {fuel : Nat}
    {obj : XzDecodeContext σ} (hnew : obj.strm = .init s₀) (ops : List DecodeOp) :
    ∀ step ∈ Runs.trace (decodeOp L fuel) (fun _ => false) obj ops, ∀ data action,
      DecodeStallCostsNothing L step.before data action := by
  intro step hmem data action
  obtain ⟨f, hcalled⟩ := script_called (fun _ _ _ _ _ h hrun => decodeOp_called h hrun) hnew hmem
  exact decodeStallCostsNothing_of_called hbuf hcalled data action

end PhpExtXz
