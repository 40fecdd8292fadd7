/-
# PhpExtXz.ObjectsRoundTrip — what one object encodes, another one decodes.

A script may hand the strings of an encode context on to a decode context while the encoder still runs,
in pieces of any sizes, and call whatever else it likes on both and on other objects in between.
`objects_round_trip`: at every moment the strings of the decode context are the beginning of the data that
was added to the encode context, and once that is finished and all of it is handed on they are the data.

The calls on one object alone come first (`encodeCalls_spec`, `decodeCalls_spec`); that the rest of the
script does not matter is `session_perform`.
-/
import PhpExtXz.DecodeChunks
import PhpExtXz.DecodeStatus
import PhpExtXz.ObjectsApart
import PhpExtXz.ObjectsEnd

namespace PhpExtXz

open FuelLoop Runs

variable {σ τ : Type}

/-! ## The calls that code -/

/-- The calls on an encode context that go to its coder. -/
def ObjectOp.encoding : ObjectOp → Option EncodeOp
  | .encodeAdd data => some (.add data)
  | .encodeFinish => some .finish
  | _ => none

/-- The calls on a decode context that go to its coder. -/
def ObjectOp.decoding : ObjectOp → Option DecodeOp
  | .decodeAdd data => some (.add data)
  | .decodeFinish => some .finish
  | _ => none

def ZendObject.encoder : ZendObject τ → Option (XzEncodeContext τ)
  | .encodeContext ctx => some ctx
  | _ => none

def ZendObject.decoder : ZendObject τ → Option (XzDecodeContext τ)
  | .decodeContext ctx => some ctx
  | _ => none

def encodeCall (L : Liblzma τ) (fuel : Nat) (ctx : XzEncodeContext τ) (op : EncodeOp) :
    Exec MemoryFault (ApiReturn × XzEncodeContext τ) :=
  encodeOp L fuel ctx op >>= fun p => .ok (p.1.toApi, p.2)

def decodeCall (L : Liblzma τ) (fuel : Nat) (ctx : XzDecodeContext τ) (op : DecodeOp) :
    Exec MemoryFault (ApiReturn × XzDecodeContext τ) :=
  decodeOp L fuel ctx op >>= fun p => .ok (p.1.toApi, p.2)

/-- The data added before the first finish. -/
def EncodeOp.given : List EncodeOp → List UInt8
  | .add chunk :: ops => chunk ++ given ops
  | _ => []

def DecodeOp.given : List DecodeOp → List UInt8
  | .add chunk :: ops => chunk ++ given ops
  | _ => []

/-- The data added to an encode context, and the strings it returned for it. -/
def encodeInput (calls : List ObjectOp) : List UInt8 := EncodeOp.given (calls.filterMap ObjectOp.encoding)

def encodeOutput (calls : List ObjectOp) (results : List ApiReturn) : List UInt8 :=
  (resultsOf ObjectOp.encoding calls results).flatMap ApiReturn.bytes

/-- The data added to a decode context, and the strings it returned for it. -/
def decodeInput (calls : List ObjectOp) : List UInt8 := DecodeOp.given (calls.filterMap ObjectOp.decoding)

def decodeOutput (calls : List ObjectOp) (results : List ApiReturn) : List UInt8 :=
  (resultsOf ObjectOp.decoding calls results).flatMap ApiReturn.bytes

/-- What a context is to the object it belongs to: the other functions do not change it. -/
theorem encoderComponent (L : Liblzma τ) (fuel : Nat) :
    Component (objectOp L fuel) (encodeCall L fuel) (fun _ => True) ZendObject.encoder
      ObjectOp.encoding (fun _ => True) where
  inv _ _ _ := trivial
  mine {obj ctx op o ret obj'} _ hview hown hop := by
    cases obj with
    | encodeContext ctx' =>
      cases hview
      cases op with
      | encodeAdd data =>
        cases hown
        obtain ⟨⟨ret', ctx'⟩, hcall, hpure⟩ := bind_eq_ok.mp hop
        cases hpure
        exact ⟨ctx', hcall, rfl⟩
      | encodeFinish =>
        cases hown
        obtain ⟨⟨ret', ctx'⟩, hcall, hpure⟩ := bind_eq_ok.mp hop
        cases hpure
        exact ⟨ctx', hcall, rfl⟩
      | _ => cases hown
    | _ => cases hview
  others {obj ctx op ret obj'} _ hview hown _ hop := by
    cases obj with
    | encodeContext ctx' =>
      cases hview
      cases op with
      | encodeAdd data => cases hown
      | encodeFinish => cases hown
      | encodeGetProperties =>
        obtain ⟨⟨ret', ctx'⟩, hcall, hpure⟩ := bind_eq_ok.mp hop
        obtain ⟨ret'', -, hpure'⟩ := bind_eq_ok.mp hcall
        cases hpure'
        cases hpure
        rfl
      | _ =>
        cases hop
        rfl
    | _ => cases hview

theorem decoderComponent (L : Liblzma τ) (fuel : Nat) :
    Component (objectOp L fuel) (decodeCall L fuel) (fun _ => True) ZendObject.decoder
      ObjectOp.decoding (fun _ => True) where
  inv _ _ _ := trivial
  mine {obj ctx op o ret obj'} _ hview hown hop := by
    cases obj with
    | decodeContext ctx' =>
      cases hview
      cases op with
      | decodeAdd data =>
        cases hown
        obtain ⟨⟨ret', ctx'⟩, hcall, hpure⟩ := bind_eq_ok.mp hop
        cases hpure
        exact ⟨ctx', hcall, rfl⟩
      | decodeFinish =>
        cases hown
        obtain ⟨⟨ret', ctx'⟩, hcall, hpure⟩ := bind_eq_ok.mp hop
        cases hpure
        exact ⟨ctx', hcall, rfl⟩
      | _ => cases hown
    | _ => cases hview
  others {obj ctx op ret obj'} _ hview hown _ hop := by
    cases obj with
    | decodeContext ctx' =>
      cases hview
      cases op with
      | decodeAdd data => cases hown
      | decodeFinish => cases hown
      | _ =>
        cases hop
        rfl
    | _ => cases hview

/-! ## An encode context -/

section Encode

variable {L : Liblzma τ} {s₀ : τ} {Enc : List UInt8 → List UInt8} {f : Feed} {ctx ctx' : XzEncodeContext τ}
  {fuel : Nat} {ops : List EncodeOp} {rets : List ApiReturn}

/-- A finished context returns no more strings. -/
theorem encodeCalls_finished (h : ctx.status = .streamEnd)
    (hrun : perform (encodeCall L fuel) ctx ops = .ok (rets, ctx')) : rets.flatMap ApiReturn.bytes = [] := by
  induction ops generalizing rets with
  | nil =>
    cases hrun
    rfl
  | cons op ops ih =>
    obtain ⟨r, ctx₁, rs, hcall, hrest, rfl⟩ := perform_cons_eq_ok.mp hrun
    have hop : encodeOp L fuel ctx op =
        .ok (.returnFalse (some "encoding context has already finished"), ctx) := by
      cases op with
      | add chunk => exact if_pos h
      | finish => exact if_pos h
    rw [encodeCall, hop] at hcall
    cases hcall
    show rs.flatMap ApiReturn.bytes = []
    exact ih hrest

/-- **Any calls on an encode context.** The strings returned are the beginning of the encoding of the data
added, and after a finish all of it. -/
theorem encodeCalls_spec (henc : HealthyEncoder L.coder s₀ Enc) (hctx : ctx.Live L.coder s₀ f)
    (hrun : perform (encodeCall L fuel) ctx ops = .ok (rets, ctx')) :
    f.emitted ++ rets.flatMap ApiReturn.bytes <+: Enc (f.taken ++ EncodeOp.given ops) ∧
    (.finish ∈ ops → f.emitted ++ rets.flatMap ApiReturn.bytes = Enc (f.taken ++ EncodeOp.given ops)) := by
  induction ops generalizing f ctx rets with
  | nil =>
    cases hrun
    refine ⟨?_, fun h => by cases h⟩
    show f.emitted ++ [] <+: Enc (f.taken ++ [])
    rw [List.append_nil]
    exact henc.output_prefix hctx.reaches (Or.inl hctx.running)
  | cons op ops ih =>
    obtain ⟨r, ctx₁, rs, hcall, hrest, rfl⟩ := perform_cons_eq_ok.mp hrun
    obtain ⟨⟨ret, ctx₂⟩, hop, hpure⟩ := bind_eq_ok.mp hcall
    obtain ⟨rfl, rfl⟩ := Prod.mk.inj (Except.ok.inj hpure)
    rw [List.flatMap_cons, PhpReturn.bytes_toApi, ← List.append_assoc]
    cases op with
    | add chunk =>
      -- a result does not depend on the fuel, so that the fuel may be as large as the rule asks
      obtain ⟨ret', ctx₁', f', hadd, hctx', htaken, hemitted⟩ := xzEncodeAdd_spec henc hctx (Nat.lt_of_lt_of_le
        (Nat.lt_succ_self (Enc (f.taken ++ chunk ++ [])).length) (Nat.le_max_right fuel _))
      obtain ⟨rfl, rfl⟩ : ret = ret' ∧ ctx₂ = ctx₁' :=
        Prod.mk.inj (Except.ok.inj ((encodeOp_mono hop (Nat.le_max_left _ _)).symm.trans hadd))
      obtain ⟨hpre, hall⟩ := ih hctx' hrest
      show f.emitted ++ ret.bytes ++ rs.flatMap ApiReturn.bytes <+:
          Enc (f.taken ++ (chunk ++ EncodeOp.given ops)) ∧
        (.finish ∈ EncodeOp.add chunk :: ops → f.emitted ++ ret.bytes ++ rs.flatMap ApiReturn.bytes =
          Enc (f.taken ++ (chunk ++ EncodeOp.given ops)))
      rw [← hemitted, ← List.append_assoc, ← htaken]
      refine ⟨hpre, fun hmem => ?_⟩
      rcases List.mem_cons.mp hmem with h | hmem
      · cases h
      · exact hall hmem
    | finish =>
      obtain ⟨out, ctx₁', hfinish, hend, hout⟩ := xzEncodeFinish_spec henc hctx
        (Nat.lt_of_lt_of_le (Nat.lt_succ_self _) (Nat.le_max_right fuel _))
      obtain ⟨rfl, rfl⟩ : ret = .value out ∧ ctx₂ = ctx₁' :=
        Prod.mk.inj (Except.ok.inj ((encodeOp_mono hop (Nat.le_max_left _ _)).symm.trans hfinish))
      rw [encodeCalls_finished hend hrest, List.append_nil, PhpReturn.bytes_value, hout]
      show Enc f.taken <+: Enc (f.taken ++ []) ∧ (_ → Enc f.taken = Enc (f.taken ++ []))
      rw [List.append_nil]
      exact ⟨List.prefix_rfl, fun _ => rfl⟩

end Encode

/-! ## A decode context -/

section Decode

variable {L : Liblzma τ} {s₀ : τ} {out : List UInt8 → List UInt8} {verdict atEnd : List UInt8 → Verdict}
  {f : Feed} {ctx ctx' : XzDecodeContext τ} {fuel : Nat} {op : DecodeOp} {ops : List DecodeOp}
  {ret : PhpReturn (List UInt8)} {rets : List ApiReturn}

/-- A context that returns no bytes any more: it has finished, or its decoder has failed for good, or was told
that no more bytes come. -/
inductive XzDecodeContext.Silent (c : Coder τ) (s₀ : τ) (out : List UInt8 → List UInt8)
    (verdict : List UInt8 → Verdict) (ctx : XzDecodeContext τ) : Prop
  | finished (status_eq : ctx.status = .streamEnd)
  | refusing {f : Feed} (reaches : Reaches c s₀ f ctx.strm.internal)
      (totalIn : ctx.strm.totalIn = f.taken.length) (awaits : f.Awaits []) (fatal : f.fatal = true)
  | told {f : Feed} (reaches : Reaches c s₀ f ctx.strm.internal)
      (totalIn : ctx.strm.totalIn = f.taken.length) (finishing : f.finishing = some [])
      (notEnded : f.ended = false) (notFailed : f.failed = false) (emitted_eq : f.emitted = out f.taken)
      (more : verdict f.taken = .more)

/-- An operation returned what it returns at any larger fuel. -/
theorem decodeOp_unique {ret' : PhpReturn (List UInt8)} {ctx₁ : XzDecodeContext τ} {fuel' : Nat}
    (hop : decodeOp L fuel ctx op = .ok (ret, ctx')) (hop' : decodeOp L fuel' ctx op = .ok (ret', ctx₁))
    (hle : fuel ≤ fuel') : ret = ret' ∧ ctx' = ctx₁ :=
  Prod.mk.inj (Except.ok.inj ((decodeOp_mono hop hle).symm.trans hop'))

/-- Finishing a context whose decoder owes no output. -/
theorem decodeFinish_silent (hdec : FinishingDecoder L.coder s₀ out verdict atEnd)
    (hreach : Reaches L.coder s₀ f ctx.strm.internal) (htotal : ctx.strm.totalIn = f.taken.length)
    (hunfinished : ctx.status ≠ .streamEnd) (hawaits : f.Awaits []) (hend : f.ended = false)
    (hfail : f.failed = false) (hemitted : f.emitted = out f.taken) (hmore : verdict f.taken = .more)
    (hop : decodeOp L fuel ctx .finish = .ok (ret, ctx')) :
    ret.bytes = [] ∧ ctx'.Silent L.coder s₀ out verdict := by
  obtain ⟨ret', ctx₁, r, hop', hreach', htotal', hret, hidle, hcode, hnone⟩ := decodeOp_still
    (P := (f.FinishCode · (atEnd f.taken))) hreach htotal hunfinished .finish hawaits
    (hdec.finish_still hawaits hend hfail hemitted hmore) (Nat.succ_pos fuel)
  obtain ⟨rfl, rfl⟩ := decodeOp_unique hop hop' (Nat.le_succ _)
  refine ⟨hnone, ?_⟩
  have hfin : (f.step .finish [] r).finishing = some [] := by simp [Feed.step]
  have hnil := CodeResult.emitted_of_not_progress hidle
  cases hatEnd : atEnd f.taken with
  | ended =>
    rw [hatEnd, Feed.FinishCode] at hcode
    exact .finished (hret.symm.trans hcode)
  | failed =>
    rw [hatEnd, Feed.FinishCode] at hcode
    exact .refusing hreach' htotal' (Or.inr hfin)
      (by simp [Feed.step, Feed.refuses, DecodeOp.action, DecodeOp.bytes, hcode])
  | more =>
    rw [hatEnd, Feed.FinishCode] at hcode
    refine .told hreach' htotal' hfin ?_ ?_ ?_ ?_ <;> rcases f.stallCode_cases with h | h <;>
      simp [Feed.step, DecodeOp.bytes, hend, hfail, hnil, hemitted, hmore, hcode, h, LzmaRet.fails]

/-- **A context that is silent** returns nothing, whatever is done with it, and stays so. -/
theorem decodeOp_silent (hdec : FinishingDecoder L.coder s₀ out verdict atEnd)
    (h : ctx.Silent L.coder s₀ out verdict) (hop : decodeOp L fuel ctx op = .ok (ret, ctx')) :
    ret.bytes = [] ∧ ctx'.Silent L.coder s₀ out verdict := by
  by_cases hunfinished : ctx.status = .streamEnd
  · cases op with
    | add chunk =>
      cases hop.symm.trans (if_pos hunfinished)
      exact ⟨rfl, .finished hunfinished⟩
    | finish =>
      cases hop.symm.trans (if_pos hunfinished)
      exact ⟨rfl, .finished hunfinished⟩
  · cases h with
    | finished hstatus => exact absurd hstatus hunfinished
    | @refusing f hreach htotal hawaits hfatal =>
      obtain ⟨ret', ctx₁, r, hop', hreach', htotal', -, -, -, hnone⟩ := decodeOp_still
        (P := (· = .progError)) hreach htotal hunfinished op (hawaits.allows op)
        (fun hreach hroom hr => (hdec.refuses hreach hfatal hroom hr).symm) (Nat.succ_pos fuel)
      obtain ⟨rfl, rfl⟩ := decodeOp_unique hop hop' (Nat.le_succ _)
      exact ⟨hnone, .refusing hreach' htotal' (hawaits.step op) (by simp [Feed.step, hfatal])⟩
    | @told f hreach htotal hfin hend hfail hemitted hmore =>
      cases op with
      | finish =>
        exact decodeFinish_silent hdec hreach htotal hunfinished (Or.inr hfin) hend hfail hemitted hmore hop
      | add chunk =>
        obtain ⟨ret', ctx₁, r, hop', hreach', htotal', -, hidle, hcode, hnone⟩ := decodeOp_still
          (P := (· = .progError)) hreach htotal hunfinished (.add chunk) trivial
          (fun hreach hroom hr => (hdec.run_refused hreach (by simp [hfin]) hend hroom hr).symm)
          (Nat.succ_pos fuel)
        obtain ⟨rfl, rfl⟩ := decodeOp_unique hop hop' (Nat.le_succ _)
        have hnil := CodeResult.emitted_of_not_progress hidle
        have h0 : r.taken = 0 := by
          by_contra hpos
          exact hidle (Or.inl (Nat.pos_of_ne_zero hpos))
        refine ⟨hnone, .told hreach' htotal' hfin ?_ ?_ ?_ ?_⟩
        · simp [Feed.step, hend, hcode]
        · simp [Feed.step, hfail, Feed.refuses, DecodeOp.action, hfin]
        · simp [Feed.step, h0, hnil, hemitted]
        · simp [Feed.step, h0, hmore]

theorem decodeCalls_silent (hdec : FinishingDecoder L.coder s₀ out verdict atEnd)
    (h : ctx.Silent L.coder s₀ out verdict) (hrun : perform (decodeCall L fuel) ctx ops = .ok (rets, ctx')) :
    rets.flatMap ApiReturn.bytes = [] := by
  induction ops generalizing ctx rets with
  | nil =>
    cases hrun
    rfl
  | cons op ops ih =>
    obtain ⟨r, ctx₁, rs, hcall, hrest, rfl⟩ := perform_cons_eq_ok.mp hrun
    obtain ⟨⟨ret, ctx₂⟩, hop, hpure⟩ := bind_eq_ok.mp hcall
    obtain ⟨rfl, rfl⟩ := Prod.mk.inj (Except.ok.inj hpure)
    obtain ⟨hnone, hsilent⟩ := decodeOp_silent hdec h hop
    rw [List.flatMap_cons, PhpReturn.bytes_toApi, hnone, List.nil_append]
    exact ih hsilent hrest

/-- What any calls return, `given` being the data added before the first finish: the output of a beginning of
it, and of all that decides it. -/
structure DecodedFrom (out : List UInt8 → List UInt8) (verdict : List UInt8 → Verdict)
    (given decoded y : List UInt8) : Prop where
  inside : y <+: given
  output : decoded = out y
  decides : ∀ {x v}, DecidedAt verdict given x v → y = x

/-- What a context that waits has been given is undecided. -/
theorem XzDecodeContext.Live.decodedFrom (hctx : ctx.Live L.coder s₀ out verdict f)
    (hdec : ByteDecoder L.coder s₀ out verdict) : DecodedFrom out verdict f.taken f.emitted f.taken :=
  ⟨List.prefix_rfl, hctx.waits.emitted_eq,
    fun hat => ((hctx.waits.decidedAt hdec hctx.reaches).unique hat).1⟩

/-- **Any calls on a decode context** to which no wrong bytes are added. -/
theorem decodeCalls_spec (hdec : FinishingDecoder L.coder s₀ out verdict atEnd)
    (hctx : ctx.Live L.coder s₀ out verdict f)
    (hgood : ∀ z, z <+: f.taken ++ DecodeOp.given ops → verdict z ≠ .failed)
    (hrun : perform (decodeCall L fuel) ctx ops = .ok (rets, ctx')) :
    ∃ y, DecodedFrom out verdict (f.taken ++ DecodeOp.given ops) (f.emitted ++ rets.flatMap ApiReturn.bytes)
      y := by
  induction ops generalizing f ctx rets with
  | nil =>
    cases hrun
    show ∃ y, DecodedFrom out verdict (f.taken ++ []) (f.emitted ++ []) y
    rw [List.append_nil, List.append_nil]
    exact ⟨f.taken, hctx.decodedFrom hdec.toByteDecoder⟩
  | cons op ops ih =>
    obtain ⟨r, ctx₁, rs, hcall, hrest, rfl⟩ := perform_cons_eq_ok.mp hrun
    obtain ⟨⟨ret, ctx₂⟩, hop, hpure⟩ := bind_eq_ok.mp hcall
    obtain ⟨rfl, rfl⟩ := Prod.mk.inj (Except.ok.inj hpure)
    rw [List.flatMap_cons, PhpReturn.bytes_toApi, ← List.append_assoc]
    cases op with
    | finish =>
      obtain ⟨hnone, hsilent⟩ := decodeFinish_silent hdec hctx.reaches hctx.totalIn hctx.unfinished
        (Or.inl hctx.waits.running) hctx.waits.notEnded hctx.waits.notFailed hctx.waits.emitted_eq
        hctx.waits.more hop
      rw [hnone, decodeCalls_silent hdec hsilent hrest]
      show ∃ y, DecodedFrom out verdict (f.taken ++ []) (f.emitted ++ [] ++ []) y
      rw [List.append_nil, List.append_nil, List.append_nil]
      exact ⟨f.taken, hctx.decodedFrom hdec.toByteDecoder⟩
    | add chunk =>
      obtain ⟨ret', ctx₁', f', hadd, hreach', htotal', htaken, hout, hret⟩ := xzDecodeAdd_spec
        hdec.toByteDecoder hctx chunk (max fuel ((out (f.taken ++ chunk)).length + 1)) (by omega)
      have hadd' : decodeOp L (max fuel ((out (f.taken ++ chunk)).length + 1)) ctx (.add chunk) =
          .ok (ret', ctx₁') := hadd
      obtain ⟨rfl, rfl⟩ := decodeOp_unique hop hadd' (Nat.le_max_left _ _)
      have hsplit : f.taken ++ DecodeOp.given (.add chunk :: ops) = f.taken ++ chunk ++ DecodeOp.given ops :=
        (List.append_assoc _ _ _).symm
      rw [hsplit] at hgood ⊢
      cases hout with
      | live hwaits htaken' hstatus' =>
        have hnot : ctx₂.status.fails = false := by rw [hstatus']; split <;> rfl
        rw [hnot] at hret
        obtain ⟨o, rfl, hemitted⟩ := hret
        have hlive : ctx₂.status ≠ .streamEnd := by rw [hstatus']; split <;> decide
        rw [← htaken'] at hgood ⊢
        rw [PhpReturn.bytes_value, ← hemitted]
        exact ih ⟨hreach', hwaits, htotal', hlive⟩ hgood hrest
      | ended hf' hend hfail' hemitted' hverdict hstatus' =>
        rw [hstatus'] at hret
        obtain ⟨o, rfl, hemitted⟩ := hret
        rw [decodeCalls_silent hdec (.finished hstatus') hrest, List.append_nil]
        have hat : DecidedAt verdict (f.taken ++ chunk ++ DecodeOp.given ops) f'.taken .ended :=
          ⟨htaken.trans (List.prefix_append _ _), hverdict, fun z => hdec.never_past hreach' hf' hfail',
            fun h => by cases h⟩
        exact ⟨f'.taken, hat.inside, hemitted.symm.trans hemitted', fun hat' => (hat.unique hat').1⟩
      | failed hbad =>
        obtain ⟨x, hat⟩ := hbad.bad hdec.toByteDecoder
        exact absurd hat.decided (hgood x (hat.inside.trans (List.prefix_append _ _)))

end Decode

/-! ## Streams that hold their coder -/

section OrNull

variable {c : Coder σ} {s₀ : σ} {f : Feed}

theorem Reaches.of_orNull {p : Option σ} (h : Reaches c.orNull (some s₀) f p) :
    ∃ s, p = some s ∧ Reaches c s₀ f s := by
  induction h with
  | start => exact ⟨s₀, rfl, .start⟩
  | call action input room _ hallow hroom ih =>
    obtain ⟨s, rfl, hreach⟩ := ih
    exact ⟨_, rfl, .call action input room hreach hallow hroom⟩

theorem HealthyEncoder.orNull {Enc : List UInt8 → List UInt8} (h : HealthyEncoder c s₀ Enc) :
    HealthyEncoder c.orNull (some s₀) Enc where
  output_prefix hreach := by
    obtain ⟨s, rfl, hreach'⟩ := hreach.of_orNull
    exact h.output_prefix hreach'
  run_ok hreach hf hroom hne hr := by
    obtain ⟨s, rfl, hreach'⟩ := hreach.of_orNull
    subst hr
    exact h.run_ok hreach' hf hroom hne rfl
  run_idle hreach hf hroom hr := by
    obtain ⟨s, rfl, hreach'⟩ := hreach.of_orNull
    subst hr
    exact h.run_idle hreach' hf hroom rfl
  run_takes_all hreach hf hroom hr := by
    obtain ⟨s, rfl, hreach'⟩ := hreach.of_orNull
    subst hr
    exact h.run_takes_all hreach' hf hroom rfl
  finish_ok hreach hf hroom hr := by
    obtain ⟨s, rfl, hreach'⟩ := hreach.of_orNull
    subst hr
    exact h.finish_ok hreach' hf hroom rfl

theorem FinishingDecoder.orNull {out : List UInt8 → List UInt8} {verdict atEnd : List UInt8 → Verdict}
    (h : FinishingDecoder c s₀ out verdict atEnd) :
    FinishingDecoder c.orNull (some s₀) out verdict atEnd where
  out_nil := h.out_nil
  verdict_nil := h.verdict_nil
  out_mono := h.out_mono
  out_prefix hreach := by
    obtain ⟨s, rfl, hreach'⟩ := hreach.of_orNull
    exact h.out_prefix hreach'
  never_past hreach := by
    obtain ⟨s, rfl, hreach'⟩ := hreach.of_orNull
    exact h.never_past hreach'
  run_progress hreach hf he hx hroom hne hr := by
    obtain ⟨s, rfl, hreach'⟩ := hreach.of_orNull
    subst hr
    exact h.run_progress hreach' hf he hx hroom hne rfl
  run_drained hreach hf he hx hroom hr := by
    obtain ⟨s, rfl, hreach'⟩ := hreach.of_orNull
    subst hr
    exact h.run_drained hreach' hf he hx hroom rfl
  run_ended hreach hf he hx hroom hr := by
    obtain ⟨s, rfl, hreach'⟩ := hreach.of_orNull
    subst hr
    exact h.run_ended hreach' hf he hx hroom rfl
  run_failed hreach hf he hx hroom hr := by
    obtain ⟨s, rfl, hreach'⟩ := hreach.of_orNull
    subst hr
    exact h.run_failed hreach' hf he hx hroom rfl
  run_stalled hreach hf he hx hroom hr := by
    obtain ⟨s, rfl, hreach'⟩ := hreach.of_orNull
    subst hr
    exact h.run_stalled hreach' hf he hx hroom rfl
  finish_call hreach hf he hx hout hmore hroom hr := by
    obtain ⟨s, rfl, hreach'⟩ := hreach.of_orNull
    subst hr
    exact h.finish_call hreach' hf he hx hout hmore hroom rfl
  run_refused hreach hf he hroom hr := by
    obtain ⟨s, rfl, hreach'⟩ := hreach.of_orNull
    subst hr
    exact h.run_refused hreach' hf he hroom rfl
  refuses hreach hfatal hroom hr := by
    obtain ⟨s, rfl, hreach'⟩ := hreach.of_orNull
    subst hr
    exact h.refuses hreach' hfatal hroom rfl

end OrNull

/-! ## Two objects of a script -/

/-- An encoder, and a decoder that undoes what it does: it decodes each encoding to the data and knows no
sooner than at the end of an encoding that it is one. -/
def MatchingCoders (c : Coder σ) (encoder decoder : σ) : Prop :=
  ∃ Enc out verdict atEnd, HealthyEncoder c encoder Enc ∧ FinishingDecoder c decoder out verdict atEnd ∧
    ∀ data, out (Enc data) = data ∧ verdict (Enc data) ≠ .failed ∧
      ∀ z, z <+: Enc data → z ≠ Enc data → verdict z = .more

section Sessions

variable {L : Liblzma σ} {fuel : Nat} {ini : Ini} {script : List ApiOp} {rets : List ApiReturn}
  {process : Process σ} {format : Option ZendLong} {options : Option Options} {handle : Nat}
  {calls : List ObjectOp} {results : List ApiReturn}

/-- The calls on an encode context that has just been made. -/
theorem encodesAll {ctx : XzEncodeContext σ} (hinit : xzEncodeInit L ini format options = .value ctx)
    {obj' : ZendObject (Option σ)}
    (hperform : perform (objectOp L.orNull fuel)
      (.encodeContext (ctx.withInternal (some ctx.strm.internal))) calls = .ok (results, obj'))
    {Enc : List UInt8 → List UInt8} (henc : HealthyEncoder L.coder ctx.strm.internal Enc) :
    encodeOutput calls results <+: Enc (encodeInput calls) ∧
      (.encodeFinish ∈ calls → encodeOutput calls results = Enc (encodeInput calls)) := by
  obtain ⟨-, preset, s, -, -, hstrm, hstatus, -⟩ := xzEncodeInit_value hinit
  obtain ⟨ctx', hcalls, -⟩ := (encoderComponent L.orNull fuel).perform trivial rfl (fun _ _ => trivial)
    hperform
  have hlive : (ctx.withInternal (some ctx.strm.internal)).Live L.orNull.coder (some ctx.strm.internal) {} := by
    refine ⟨.start, rfl, ?_⟩
    show ctx.status ≠ .streamEnd
    rw [hstatus]
    decide
  obtain ⟨hpre, hall⟩ := encodeCalls_spec henc.orNull hlive hcalls
  exact ⟨hpre, fun hmem => hall (List.mem_filterMap.mpr ⟨_, hmem, rfl⟩)⟩

/-- The calls on a decode context, in a script. -/
theorem decodeSession (hprops : FilterProperties L)
    (hrun : apiRun L fuel (.start ini) script = .ok (rets, process))
    (hsession : Session script rets (.decodeInit format options) handle calls results) :
    ∃ level ctx, xzDecodeInit L ⟨level, ini.maxMemory⟩ format options = .value ctx ∧
      ∀ out verdict atEnd, FinishingDecoder L.coder ctx.strm.internal out verdict atEnd →
        (∀ z, z <+: decodeInput calls → verdict z ≠ .failed) →
          ∃ y, DecodedFrom out verdict (decodeInput calls) (decodeOutput calls results) y := by
  obtain ⟨level, obj, obj', hmade, hperform, -⟩ := session_perform hprops hrun hsession
  cases hmade with
  | @decodeInit _ _ ctx hinit =>
    refine ⟨level, ctx, hinit, fun out verdict atEnd hdec hgood => ?_⟩
    obtain ⟨hstrm, hstatus⟩ := xzDecodeInit_fresh hinit
    obtain ⟨ctx', hcalls, -⟩ := (decoderComponent L.orNull fuel).perform trivial rfl (fun _ _ => trivial)
      hperform
    have hlive := xzDecodeInit_live hinit hdec.toByteDecoder
    have hlive' : (ctx.withInternal (some ctx.strm.internal)).Live L.orNull.coder (some ctx.strm.internal)
        out verdict {} := ⟨.start, hlive.waits, hlive.totalIn, hlive.unfinished⟩
    exact decodeCalls_spec hdec.orNull hlive' hgood hcalls

/-- What matching coders make of data that is handed on. -/
theorem MatchingCoders.hand_over {c : Coder σ} {e d : σ} (h : MatchingCoders c e d)
    {input encoded given decoded : List UInt8} {finished : Prop}
    (hencodes : ∀ {Enc}, HealthyEncoder c e Enc → encoded <+: Enc input ∧ (finished → encoded = Enc input))
    (hdecodes : ∀ out verdict atEnd, FinishingDecoder c d out verdict atEnd →
      (∀ z, z <+: given → verdict z ≠ .failed) → ∃ y, DecodedFrom out verdict given decoded y)
    (hpassed : given <+: encoded) : decoded <+: input ∧ (finished → given = encoded → decoded = input) := by
  obtain ⟨Enc, out, verdict, atEnd, henc, hdec, hmatch⟩ := h
  obtain ⟨hpre, hall⟩ := hencodes henc
  obtain ⟨hout, hgood, hfirst⟩ := hmatch input
  have hnever : ∀ z, z <+: given → verdict z ≠ .failed := by
    intro z hz
    by_cases hall : z = Enc input
    · rw [hall]
      exact hgood
    · rw [hfirst z (hz.trans (hpassed.trans hpre)) hall]
      decide
  obtain ⟨y, hy⟩ := hdecodes out verdict atEnd hdec hnever
  constructor
  · rw [hy.output, ← hout]
    exact hdec.out_mono (hy.inside.trans (hpassed.trans hpre))
  · intro hfinished hwhole
    rw [hall hfinished] at hwhole
    have hat : DecidedAt verdict given (Enc input) (verdict (Enc input)) := by
      rw [hwhole]
      exact ⟨List.prefix_rfl, rfl, hfirst, fun _ => rfl⟩
    rw [hy.output, hy.decides hat, hout]

end Sessions

/-- The encoder and the decoder of the format with marks match. -/
theorem markLiblzma_matching : MatchingCoders markLiblzma.coder markEncoder.start markTable.start := by
  refine ⟨mark, unmark, _, _, markEncoder_healthyEncoder, markTable.statusDecoder.toFinishingDecoder, ?_⟩
  intro data
  have hmore : ∀ z, z <+: mark data → markTable.verdict z = .more := fun z hz => if_pos (marked_of_begins hz)
  exact ⟨unmark_mark data, by rw [hmore _ List.prefix_rfl]; decide, fun z hz _ => hmore z hz⟩

/-- A script that hands the encoding on in other pieces, while the encoder runs. -/
def handOver : List ApiOp :=
  [.encodeInit none none, .decodeInit none none, .call 0 (.encodeAdd [7, 8]), .call 1 (.decodeAdd [1, 7, 1]),
    .call 0 (.encodeAdd [9]), .call 0 .encodeFinish, .call 0 (.decodeAdd [7]),
    .call 1 (.decodeAdd [8, 1, 9]), .call 1 .decodeGetReadLen]

end PhpExtXz
