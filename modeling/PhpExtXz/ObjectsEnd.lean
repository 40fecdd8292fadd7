/-
# PhpExtXz.ObjectsEnd — every script comes to its end.

With a library whose coders end, every call a script makes returns: on whatever object it is, in whatever
state earlier calls have left it, one that was never initialised included. What is needed for one call is
a bound on what its coder may still put out, and there is one for every state that calls of any kind have
led the coder to (`Answering`).
-/
import PhpExtXz.LoopsEnd
import PhpExtXz.ObjectsOwned

namespace PhpExtXz

open FuelLoop Runs

variable {σ τ : Type}

/-! ## Coders that still answer -/

/-- A state that calls have led a coder to that ends. -/
def Answering (c : Coder τ) (s : τ) : Prop := ∃ s₀ f, Ending c s₀ ∧ Called c s₀ f s

theorem answering_keeps (c : Coder τ) : c.Keeps (Answering c) := by
  rintro s action input room ⟨s₀, f, hending, hcalled⟩
  exact ⟨s₀, _, hending, .call action input room hcalled⟩

section OrNull

variable {c : Coder σ} {s₀ s : σ} {f : Feed}

/-- The calls of a coder are those of the stream that holds it. -/
theorem Called.orNull (h : Called c s₀ f s) : Called c.orNull (some s₀) f (some s) := by
  induction h with
  | start => exact .start
  | call action input room _ ih => exact .call action input room ih

theorem Called.of_orNull {p : Option σ} (h : Called c.orNull (some s₀) f p) :
    ∃ s, p = some s ∧ Called c s₀ f s := by
  induction h with
  | start => exact ⟨s₀, rfl, .start⟩
  | call action input room _ ih =>
    obtain ⟨s, rfl, hcalled⟩ := ih
    exact ⟨_, rfl, .call action input room hcalled⟩

theorem mayStall_orNull (h : MayStall c.orNull (some s)) : MayStall c s := by
  obtain ⟨action, input, room, hok, hno⟩ := h
  exact ⟨action, input, room, hok, hno⟩

theorem Ending.orNull (h : Ending c s₀) : Ending c.orNull (some s₀) where
  finite data := by
    obtain ⟨most, hmost⟩ := h.finite data
    refine ⟨most, fun f p hcalled htaken => ?_⟩
    obtain ⟨s, rfl, hcalled'⟩ := hcalled.of_orNull
    exact hmost f s hcalled' htaken
  stallsOnce := by
    rintro f p action input room r hcalled rfl hok hno hstall
    obtain ⟨s, rfl, hcalled'⟩ := hcalled.of_orNull
    exact h.stallsOnce f s action input room _ hcalled' rfl hok hno (mayStall_orNull hstall)

/-- Where there is no coder nothing is ever put out. -/
theorem Called.null {p : Option σ} (h : Called c.orNull none f p) : p = none ∧ f.emitted = [] := by
  induction h with
  | start => exact ⟨rfl, rfl⟩
  | call action input room _ ih =>
    obtain ⟨rfl, hemitted⟩ := ih
    refine ⟨rfl, ?_⟩
    show _ ++ [] = []
    rw [List.append_nil, hemitted]

/-- And no call returns `LZMA_OK`. -/
theorem ending_null (c : Coder σ) : Ending c.orNull none where
  finite data := by
    refine ⟨0, fun f p hcalled _ => ?_⟩
    rw [hcalled.null.2]
    exact le_refl _
  stallsOnce := by
    rintro f p action input room r hcalled rfl hok
    rw [hcalled.null.1] at hok
    cases hok

/-- A stream still answers, with its coder or without one. -/
theorem answering_orNull {internal : Option σ} (h : ∀ s, internal = some s → Answering c s) :
    Answering c.orNull internal := by
  cases internal with
  | none => exact ⟨none, {}, ending_null c, .start⟩
  | some s =>
    obtain ⟨s₀, f, hending, hcalled⟩ := h s rfl
    exact ⟨some s₀, f, hending.orNull, hcalled.orNull⟩

end OrNull

/-! ## Larger fuel -/

section Mono

variable {L : Liblzma τ} {n m : Nat}

theorem encodeOp_mono {obj : XzEncodeContext τ} {op : EncodeOp}
    {p : PhpReturn (List UInt8) × XzEncodeContext τ} (h : encodeOp L n obj op = .ok p) (hnm : n ≤ m) :
    encodeOp L m obj op = .ok p := by
  by_cases hfinished : obj.status = .streamEnd
  · cases op <;> simpa only [encodeOp, xzEncodeAdd, xzEncodeFinish, if_pos hfinished] using h
  · cases op <;>
    · simp only [encodeOp, xzEncodeAdd, xzEncodeFinish, if_neg hfinished, phpXzEncodeContextProcess,
        bind_eq_ok] at h ⊢
      obtain ⟨q, ⟨processed, hloop, hq⟩, hp⟩ := h
      exact ⟨q, ⟨processed, loop_mono hloop hnm, hq⟩, hp⟩

theorem phpXzDecodeString_mono {data : List UInt8} {memoryLimit : UInt64} {res : Option (List UInt8)}
    (h : phpXzDecodeString L n data memoryLimit = .ok res) (hnm : n ≤ m) :
    phpXzDecodeString L m data memoryLimit = .ok res := by
  unfold phpXzDecodeString at h ⊢
  split
  · rename_i e hinit
    simpa only [hinit] using h
  · rename_i s hinit
    simp only [hinit] at h
    obtain ⟨w, hrun, h⟩ := bind_eq_ok.mp h
    rw [loop_mono hrun hnm, ok_bind]
    exact h

end Mono

/-! ## One object -/

section OneObject

variable {L : Liblzma τ}

/-- A coder that still answers has a budget for more input. -/
theorem Answering.budget {strm : LzmaStream τ} (h : Answering L.coder strm.internal) (len : Nat) :
    ∃ (s₀ : τ) (b : Budget L.coder s₀) (k : Nat), Ending L.coder s₀ ∧
      b.Left (fun _ => True) k (len + 0) strm := by
  obtain ⟨s₀, f, hending, hcalled⟩ := h
  obtain ⟨b, hb⟩ := hending.exists_budget (f.taken.length + (strm.availIn + (len + 0)))
  exact ⟨s₀, b, len + 0 + b.most, hending, f, hcalled, trivial, hb.ge, by omega⟩

theorem encodeOp_returns {obj : XzEncodeContext τ} (h : Answering L.coder obj.strm.internal)
    (op : EncodeOp) : Returns (fun fuel => encodeOp L fuel obj op) fun _ => True := by
  obtain ⟨s₀, b, k, hending, hleft⟩ := h.budget op.bytes.length
  refine .of_ends ⟨2 * k + 1, fun fuel hfuel => ?_⟩ (fun fuel => encodeOp_sat L fuel obj op) encodeOp_mono
  exact (encodeOp_ends hending op hleft hfuel).mono fun _ _ => trivial

theorem decodeOp_returns {obj : XzDecodeContext τ} (h : Answering L.coder obj.strm.internal)
    (op : DecodeOp) : Returns (fun fuel => decodeOp L fuel obj op) fun _ => True := by
  obtain ⟨s₀, b, k, hending, hleft⟩ := h.budget op.bytes.length
  refine .of_ends ⟨2 * k + 1, fun fuel hfuel => ?_⟩ (fun fuel => decodeOp_sat L fuel obj op) decodeOp_mono
  exact (decodeOp_ends hending op hleft hfuel).mono fun _ _ => trivial

variable {obj : ZendObject τ} {fuel : Nat}

theorem asEncodeContext_returns {body : Nat → XzEncodeContext τ → Exec MemoryFault (ApiReturn × XzEncodeContext τ)}
    (hbody : ∀ ctx, obj = .encodeContext ctx → Returns (fun fuel => body fuel ctx) fun _ => True) :
    Returns (fun fuel => obj.asEncodeContext (body fuel)) fun _ => True := by
  cases obj with
  | encodeContext ctx => exact (hbody ctx rfl).bind fun _ _ => .ok trivial
  | decodeContext ctx => exact .ok trivial
  | other => exact .ok trivial

theorem asDecodeContext_returns {body : Nat → XzDecodeContext τ → Exec MemoryFault (ApiReturn × XzDecodeContext τ)}
    (hbody : ∀ ctx, obj = .decodeContext ctx → Returns (fun fuel => body fuel ctx) fun _ => True) :
    Returns (fun fuel => obj.asDecodeContext (body fuel)) fun _ => True := by
  cases obj with
  | decodeContext ctx => exact (hbody ctx rfl).bind fun _ _ => .ok trivial
  | encodeContext ctx => exact .ok trivial
  | other => exact .ok trivial

theorem xzEncodeGetProperties_ends (L : Liblzma τ) (obj : XzEncodeContext τ) :
    Ends (xzEncodeGetProperties L obj) fun _ => True := by
  unfold xzEncodeGetProperties
  split
  · trivial
  · split
    · trivial
    · split
      · trivial
      · split
        · trivial
        · trivial

/-- Every function returns on an object whose coder still answers. -/
theorem objectOp_returns (hprops : FilterProperties L) (hobj : obj.CoderSat (Answering L.coder))
    (hknown : obj.RawKnown) (op : ObjectOp) :
    Returns (fun fuel => objectOp L fuel obj op) fun _ => True := by
  cases op with
  | encodeAdd data =>
    apply asEncodeContext_returns
    rintro ctx rfl
    exact (encodeOp_returns hobj (.add data)).bind fun _ _ => .ok trivial
  | encodeFinish =>
    apply asEncodeContext_returns
    rintro ctx rfl
    exact (encodeOp_returns hobj .finish).bind fun _ _ => .ok trivial
  | encodeGetProperties =>
    apply asEncodeContext_returns
    rintro ctx rfl
    have hsat := xzEncodeGetProperties_sat hprops (hknown _ _ rfl)
    exact (Returns.const (xzEncodeGetProperties_ends L ctx) hsat).bind fun _ _ => .ok trivial
  | decodeAdd data =>
    apply asDecodeContext_returns
    rintro ctx rfl
    exact (decodeOp_returns hobj (.add data)).bind fun _ _ => .ok trivial
  | decodeFinish =>
    apply asDecodeContext_returns
    rintro ctx rfl
    exact (decodeOp_returns hobj .finish).bind fun _ _ => .ok trivial
  | decodeGetStatus => exact asDecodeContext_returns fun _ _ => .ok trivial
  | decodeGetReadLen => exact asDecodeContext_returns fun _ _ => .ok trivial

end OneObject

/-! ## The process -/

theorem returns_liftFault {α : Type} {x : Nat → Exec MemoryFault α} {Q : α → Prop} (h : Returns x Q) :
    Returns (fun fuel => liftFault (x fuel)) Q := by
  obtain ⟨n, a, hx, ha⟩ := h
  refine ⟨n, a, fun fuel hfuel => ?_, ha⟩
  show liftFault (x fuel) = .ok a
  rw [hx fuel hfuel]
  rfl

variable {L : Liblzma σ} {self : Process σ}

/-- The coders of a library that ends answer, whatever has been done with them. -/
theorem coderProperty_answering (hL : EndingLiblzma L) :
    CoderProperty L fun _ => Answering L.coder where
  keeps _ := answering_keeps L.coder
  encoder ini format options obj hinit := by
    obtain ⟨-, preset, s, -, hcreated, hstrm, -⟩ := xzEncodeInit_value hinit
    rw [hstrm]
    exact ⟨s, {}, createEncoder_ending hL hcreated, .start⟩
  decoder ini format options obj hinit := by
    obtain ⟨-, s, hcreated, hstrm⟩ := xzDecodeInit_value hinit
    rw [hstrm]
    exact ⟨s, {}, createDecoder_ending hL hcreated, .start⟩

theorem call_returns (hprops : FilterProperties L)
    (h : self.Sound fun _ => Answering L.coder) (handle : Nat) (op : ObjectOp) :
    Returns (fun fuel => self.call L fuel handle op) fun _ => True := by
  unfold Process.call
  split
  · exact .ok trivial
  · rename_i obj hobj
    obtain ⟨internal, hload, hloaded, -⟩ := h.load hobj
    have hprops' : FilterProperties L.orNull := ⟨hprops.lzma1, hprops.lzma2, hprops.written⟩
    have hknown : (obj.withInternal internal).RawKnown := by
      intro format filter hff
      rw [ZendObject.frozen_withInternal] at hff
      exact h.known hobj format filter hff
    have hcoder : (obj.withInternal internal).CoderSat (Answering L.orNull.coder) :=
      ZendObject.coderSat_withInternal (answering_orNull hloaded.2)
    rw [hload]
    exact (returns_liftFault (objectOp_returns hprops' hcoder hknown op)).bind fun _ _ => .ok trivial

theorem destroy_ends (process : Process σ) (handle : Nat) : Ends (process.destroy handle) fun _ => True := by
  unfold Process.destroy
  split
  · trivial
  · dsimp only
    split
    · trivial
    · split
      · trivial
      · trivial

theorem initObject_ends (process : Process σ) (cls : ObjectClass)
    (ret : PhpReturn (ZendObject (Option Nat) × σ)) :
    Ends (process.initObject cls ret) fun _ => True := by
  cases ret with
  | valueError arg message => trivial
  | returnFalse warning => exact (destroy_ends _ _).bind fun _ _ => trivial
  | value p => trivial

/-- **Every call returns.** -/
theorem api_returns (hL : EndingLiblzma L) (hprops : FilterProperties L)
    (h : self.Sound fun _ => Answering L.coder) (op : ApiOp) :
    Returns (fun fuel => api L fuel self op) fun p => p.2.Sound fun _ => Answering L.coder := by
  have hsound := fun fuel => api_sound (coderProperty_answering hL) hprops h fuel op
  -- most of them do not depend on the fuel
  cases op with
  | new cls => exact .const trivial (hsound 0)
  | encodeInit format options => exact .const (initObject_ends _ _ _) (hsound 0)
  | decodeInit format options => exact .const (initObject_ends _ _ _) (hsound 0)
  | clone handle => exact .const trivial (hsound 0)
  | release handle => exact .const ((destroy_ends _ _).bind fun _ _ => trivial) (hsound 0)
  | setCompressionLevel level => exact .const trivial (hsound 0)
  | call handle op => exact (call_returns hprops h handle op).sat hsound
  | encode data level format =>
    refine Returns.sat (Q := fun _ => True) ?_ hsound
    refine (returns_liftFault (Q := fun _ => True) ?_).bind fun _ _ => .ok trivial
    rcases xzencode_cases L self.ini data level format with ⟨ret, heq⟩ | ⟨level', format', heq⟩
    · simp only [heq]
      exact .ok trivial
    · simp only [heq]
      exact (Returns.of_ends (phpXzEncodeString_ends hL data level' format')
        (fun fuel => phpXzEncodeString_sat L fuel data level' format') phpXzEncodeString_mono).bind
          fun _ _ => .ok trivial
  | decode data memoryLimit =>
    refine Returns.sat (Q := fun _ => True) ?_ hsound
    refine (returns_liftFault (Q := fun _ => True) ?_).bind fun _ _ => .ok trivial
    rcases xzdecode_cases L self.ini data memoryLimit with ⟨ret, heq⟩ | ⟨limit, heq⟩
    · simp only [heq]
      exact .ok trivial
    · simp only [heq]
      exact (Returns.of_ends (phpXzDecodeString_ends hL data limit)
        (fun fuel => phpXzDecodeString_sat L fuel data limit) phpXzDecodeString_mono).bind
          fun _ _ => .ok trivial

/-- **Every script comes to its end.** Whatever it does, and whatever it does it with, from some fuel on
all of its calls return, and the process is as `apiRun_sound` says. -/
theorem apiRun_returns {L : Liblzma σ} (hL : EndingLiblzma L) (hprops : FilterProperties L) (ini : Ini)
    (ops : List ApiOp) :
    Returns (fun fuel => apiRun L fuel (.start ini) ops) fun p =>
      p.1.length = ops.length ∧ Owns ZendObject.internal p.2.objects p.2.coders := by
  have hreturns := perform_returns (Process.Sound fun _ => Answering L.coder)
    (fun _ op h => api_returns hL hprops h op) (Process.start_sound _ ini) ops
  obtain ⟨n, p, hp, hsound⟩ := hreturns
  exact ⟨n, p, hp, length_of_perform (hp (n + 1) (by omega)), hsound.owns⟩

/-- A script with two objects, one of them never initialised. -/
theorem apiRun_returns_copy :
    Returns (fun fuel => apiRun copyLiblzma fuel (.start {})
      [.new .decodeContext, .call 0 (.decodeAdd [1]), .decodeInit none none, .call 1 (.decodeAdd [7, 8]),
        .call 0 .decodeFinish, .decode [5] none]) fun p =>
      p.1.length = 6 ∧ Owns ZendObject.internal p.2.objects p.2.coders :=
  apiRun_returns copyLiblzma_ending (pairLiblzma_filterProperties _ _ _) _ _

end PhpExtXz
