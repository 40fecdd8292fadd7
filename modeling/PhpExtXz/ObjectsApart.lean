/-
# PhpExtXz.ObjectsApart — objects do not disturb each other.

An object of a process, together with its coder, is a component of the process: what a script does with
other objects, or creates, clones and releases, does not touch it. So in every script an object goes
through the run that the calls on it are for it alone (`session_perform`), and the script that has only this
object and these calls sees the same (`object_alone`).

The coder of one object cannot be the coder of another one, which is where the invariant of
`ObjectsOwned` is needed.
-/
import PhpExtXz.ObjectsOwned

namespace PhpExtXz

open FuelLoop

variable {σ τ : Type}

/-! ## An object with its coder -/

namespace ZendObject

@[simp]
theorem withInternal_withInternal {υ ω : Type} (obj : ZendObject τ) (i : υ) (j : ω) :
    (obj.withInternal i).withInternal j = obj.withInternal j := by
  cases obj <;> rfl

/-- Putting back what was there. -/
theorem withInternal_self (obj : ZendObject (Option τ)) : obj.withInternal obj.internal = obj := by
  cases obj <;> rfl

/-- An object of the same class whose coder is loaded as `present` says has one where it says so. -/
theorem isSome_internal {P : τ → Prop} {obj : ZendObject (Option τ)} {before : ZendObject (Option Nat)}
    (hcls : obj.cls = before.cls) (h : obj.CoderSat (Loaded P before.internal.isSome)) :
    obj.internal.isSome = before.internal.isSome := by
  cases obj with
  | encodeContext ctx => exact h.1
  | decodeContext ctx => exact h.1
  | other =>
    cases before with
    | other => rfl
    | encodeContext ctx => cases hcls
    | decodeContext ctx => cases hcls

end ZendObject

theorem liftFault_eq_ok {α : Type} {x : Exec MemoryFault α} {a : α} :
    liftFault x = .ok a ↔ x = .ok a := by
  match x with
  | .ok b => exact ⟨fun h => congrArg _ (Except.ok.inj h), fun h => congrArg _ (Except.ok.inj h)⟩
  | .error .outOfFuel => exact ⟨nofun, nofun⟩
  | .error (.fault e) => exact ⟨nofun, nofun⟩

namespace Process

/-- An object together with its coder. -/
def view (process : Process σ) (handle : Nat) : Option (ZendObject (Option σ)) :=
  (process.objects.get handle).map fun obj => obj.withInternal (obj.internal.bind process.coders.get)

/-- The object under `handle` and its coder are in `process'` what they were in `process`. -/
structure Untouched (handle : Nat) (process process' : Process σ) : Prop where
  object : ∀ {obj}, process.objects.get handle = some obj → process'.objects.get handle = some obj
  coder : ∀ {obj p s}, process.objects.get handle = some obj → obj.internal = some p →
    process.coders.get p = some s → process'.coders.get p = some s

variable {L : Liblzma σ} {P : Option (UInt32 × LzmaFilter) → σ → Prop} {process process' process'' : Process σ}
  {fuel handle : Nat} {obj : ZendObject (Option σ)}

theorem Untouched.refl (handle : Nat) (process : Process σ) : Untouched handle process process :=
  ⟨fun h => h, fun _ _ h => h⟩

theorem Untouched.trans (h : Untouched handle process process')
    (h' : Untouched handle process' process'') : Untouched handle process process'' :=
  ⟨fun hobj => h'.object (h.object hobj), fun hobj hp hs => h'.coder (h.object hobj) hp (h.coder hobj hp hs)⟩

theorem Untouched.view (h : Untouched handle process process') (hsound : process.Sound P)
    (hview : process.view handle = some obj) : process'.view handle = some obj := by
  obtain ⟨before, hbefore, rfl⟩ := Option.map_eq_some_iff.mp hview
  refine Option.map_eq_some_iff.mpr ⟨before, h.object hbefore, ?_⟩
  match hp : before.internal with
  | none => rfl
  | some p =>
    obtain ⟨s, hs⟩ := hsound.owns.alive hbefore hp
    show before.withInternal (process'.coders.get p) = before.withInternal (process.coders.get p)
    rw [hs, h.coder hbefore hp hs]

/-! ## What one call does to an object -/

/-- **A call on the object** is a call on it alone. -/
theorem view_call (hprops : FilterProperties L) (h : process.Sound fun _ _ => True)
    (hview : process.view handle = some obj) {op : ObjectOp} {ret : ApiReturn}
    (hcall : process.call L fuel handle op = .ok (ret, process')) :
    ∃ obj', objectOp L.orNull fuel obj op = .ok (ret, obj') ∧ process'.view handle = some obj' := by
  obtain ⟨before, hbefore, rfl⟩ := Option.map_eq_some_iff.mp hview
  obtain ⟨internal, hload, hloaded, rfl⟩ := h.load hbefore
  simp only [Process.call, hbefore, hload, ok_bind] at hcall
  obtain ⟨⟨ret', obj'⟩, hlift, hpure⟩ := bind_eq_ok.mp hcall
  cases hpure
  have hop := liftFault_eq_ok.mp hlift
  obtain ⟨hcls, -, hcoder⟩ := (h.op (coderProperty_true L) hprops hbefore hloaded fuel op).of_ok hop
  refine ⟨obj', hop, Option.map_eq_some_iff.mpr ⟨_, Store.get_set_self hbefore, ?_⟩⟩
  rw [ZendObject.withInternal_withInternal, ZendObject.internal_withInternal hcls]
  have hsome := ZendObject.isSome_internal hcls hcoder
  -- the coder is put back where it was, or there is none
  have hback : before.internal.bind (process.saveCoder before.internal obj'.internal).get =
      obj'.internal := by
    match hp : before.internal, hp' : obj'.internal with
    | none, none => rfl
    | some p, some s =>
      obtain ⟨old, hold⟩ := h.owns.alive hbefore hp
      exact Store.get_set_self hold
    | none, some s =>
      rw [hp, hp'] at hsome
      cases hsome
    | some p, none =>
      rw [hp, hp'] at hsome
      cases hsome
  show obj'.withInternal (before.internal.bind (process.saveCoder before.internal obj'.internal).get) = obj'
  rw [hback, ZendObject.withInternal_self]

/-! ## What the other calls leave alone -/

/-- A call on another object. -/
theorem untouched_call (h : process.Sound P) {other : Nat} (hne : other ≠ handle) (op : ObjectOp) :
    Sat (process.call L fuel other op) (fun p => Untouched handle process p.2) fun _ => True := by
  unfold Process.call
  split
  · exact .refl _ _
  · rename_i before hbefore
    refine (sat_any _).bind fun internal _ => (sat_any _).bind fun p _ => ?_
    refine ⟨fun hobj => (Store.get_set_of_ne hne.symm).trans hobj, ?_⟩
    intro obj q s hobj hq hs
    show (process.saveCoder before.internal p.2.internal).get q = some s
    unfold saveCoder
    split
    · rename_i q' s' hq' _
      rw [Store.get_set_of_ne, hs]
      rintro rfl
      exact hne (h.owns.sole hbefore hobj hq' hq)
    · exact hs

/-- Another object goes. -/
theorem untouched_destroy (h : process.Sound P) {other : Nat} (hne : other ≠ handle) :
    Sat (process.destroy other) (Untouched handle process) fun _ => True := by
  have hobject : ∀ {obj}, process.objects.get handle = some obj →
      (process.objects.free other).get handle = some obj :=
    fun hobj => (Store.get_free_of_ne hne.symm).trans hobj
  unfold destroy
  split
  · exact .refl _ _
  · rename_i before hbefore
    dsimp only
    split
    · exact ⟨hobject, fun _ _ hs => hs⟩
    · rename_i q hq
      split
      · trivial
      · refine ⟨hobject, ?_⟩
        intro obj p s hobj hp hs
        show (process.coders.free q).get p = some s
        rw [Store.get_free_of_ne, hs]
        rintro rfl
        exact hne (h.owns.sole hbefore hobj hq hp)

theorem untouched_create (handle : Nat) (process : Process σ) (obj : ZendObject (Option Nat)) :
    Untouched handle process (process.create obj) :=
  ⟨fun hobj => Store.get_alloc hobj, fun _ _ hs => hs⟩

theorem untouched_createWith (handle : Nat) (process : Process σ) (obj : ZendObject (Option Nat)) (s : σ) :
    Untouched handle process (process.createWith obj s) :=
  ⟨fun hobj => Store.get_alloc hobj, fun _ _ hs => Store.get_alloc hs⟩

/-- An object is made, whether or not it stays. -/
theorem untouched_initObject (h : process.Sound P) (hobj : (process.objects.get handle).isSome)
    (cls : ObjectClass) (ret : PhpReturn (ZendObject (Option Nat) × σ)) :
    Sat (process.initObject cls ret) (fun p => Untouched handle process p.2) fun _ => True := by
  cases ret with
  | valueError arg message => exact .refl _ _
  | returnFalse warning =>
    have hne : process.objects.next ≠ handle := by
      rintro rfl
      rw [Store.get_next] at hobj
      cases hobj
    have hcreated := create_sound h (createObject_internal cls) (createObject_known cls)
    refine (untouched_destroy hcreated hne).bind fun _ hp => ?_
    exact (untouched_create handle process (createObject cls)).trans hp
  | value p => exact untouched_createWith handle process p.1 p.2

end Process

/-- The calls of a script on the object under `handle`. -/
def callsOf (handle : Nat) : ApiOp → Option ObjectOp
  | .call handle' op => if handle' = handle then some op else none
  | _ => none

/-- Whatever is not a call on an object, or the end of it, leaves it alone. -/
theorem api_untouched {L : Liblzma σ} {P : Option (UInt32 × LzmaFilter) → σ → Prop} {process : Process σ}
    {handle fuel : Nat} (h : process.Sound P) (hobj : (process.objects.get handle).isSome) {op : ApiOp}
    (hcall : callsOf handle op = none) (hrelease : op ≠ .release handle) :
    Sat (api L fuel process op) (fun p => process.Untouched handle p.2) fun _ => True := by
  cases op with
  | new cls => exact Process.untouched_create _ _ _
  | encodeInit format options => exact Process.untouched_initObject h hobj _ _
  | decodeInit format options => exact Process.untouched_initObject h hobj _ _
  | call other op =>
    have hne : other ≠ handle := by
      rintro rfl
      rw [callsOf, if_pos rfl] at hcall
      cases hcall
    exact Process.untouched_call h hne op
  | clone other =>
    show process.Untouched handle (process.clone other).2
    unfold Process.clone
    split
    · exact .refl _ _
    · exact Process.untouched_create _ _ _
    · exact .refl _ _
  | release other =>
    have hne : other ≠ handle := by
      rintro rfl
      exact hrelease rfl
    exact (Process.untouched_destroy h hne).bind fun _ hp => hp
  | encode data level format => exact (sat_any _).bind fun _ _ => .refl _ _
  | decode data memoryLimit => exact (sat_any _).bind fun _ _ => .refl _ _
  | setCompressionLevel level => exact ⟨fun hobj => hobj, fun _ _ hs => hs⟩

/-- **An object is a component of its process.** -/
theorem objectComponent {L : Liblzma σ} (hprops : FilterProperties L) (fuel handle : Nat) :
    Runs.Component (api L fuel) (objectOp L.orNull fuel) (Process.Sound fun _ _ => True)
      (Process.view · handle) (callsOf handle) (· ≠ .release handle) where
  inv h _ hop := (api_sound (coderProperty_true L) hprops h fuel _).of_ok hop
  mine {process obj op o ret process'} h hview hown hop := by
    cases op with
    | call handle' op =>
      rw [callsOf] at hown
      split at hown
      · rename_i heq
        subst heq
        cases hown
        exact Process.view_call hprops h hview hop
      · cases hown
    | _ => cases hown
  others {process obj op ret process'} h hview hown hkeeps hop := by
    have hobj : (process.objects.get handle).isSome := by
      obtain ⟨before, hbefore, -⟩ := Option.map_eq_some_iff.mp hview
      rw [hbefore]
      rfl
    exact ((api_untouched h hobj hown hkeeps).of_ok hop).view h hview

/-! ## Objects of a script -/

/-- The object that `init` makes where it returns one, `ini` being the INI values. -/
inductive MadeBy (L : Liblzma σ) (ini : Ini) : ApiOp → ZendObject (Option σ) → Prop
  | new (cls : ObjectClass) : MadeBy L ini (.new cls) (createObject cls)
  | encodeInit {format : Option ZendLong} {options : Option Options} {ctx : XzEncodeContext σ}
      (h : xzEncodeInit L ini format options = .value ctx) :
      MadeBy L ini (.encodeInit format options)
        (.encodeContext (ctx.withInternal (some ctx.strm.internal)))
  | decodeInit {format : Option ZendLong} {options : Option Options} {ctx : XzDecodeContext σ}
      (h : xzDecodeInit L ini format options = .value ctx) :
      MadeBy L ini (.decodeInit format options)
        (.decodeContext (ctx.withInternal (some ctx.strm.internal)))
  | clone (handle : Nat) : MadeBy L ini (.clone handle) .other

/-- In a script that returned `rets`, `init` returned the object `handle`, which is not released after
that; `calls` are the calls on it, and `results` is what they returned. -/
def Session (script : List ApiOp) (rets : List ApiReturn) (init : ApiOp) (handle : Nat)
    (calls : List ObjectOp) (results : List ApiReturn) : Prop :=
  ∃ before later rets₀ rets₁, script = before ++ init :: later ∧
    rets = rets₀ ++ .object handle :: rets₁ ∧ rets₀.length = before.length ∧
    (∀ op ∈ later, op ≠ .release handle) ∧
    calls = later.filterMap (callsOf handle) ∧
    results = Runs.resultsOf (callsOf handle) later rets₁

section Made

variable {L : Liblzma σ} {process process' : Process σ} {fuel handle : Nat}

/-- A call does not return an object. -/
def NoObject {β : Type} (p : ApiReturn × β) : Prop := ∀ handle, p.1 ≠ .object handle

theorem noObject_toApi {β : Type} (ret : PhpReturn (List UInt8)) (b : β) : NoObject (ret.toApi, b) := by
  intro handle h
  cases ret <;> cases h

theorem asEncodeContext_noObject {obj : ZendObject τ}
    {body : XzEncodeContext τ → Exec MemoryFault (ApiReturn × XzEncodeContext τ)}
    (hbody : ∀ ctx, Sat (body ctx) NoObject fun _ => True) :
    Sat (obj.asEncodeContext body) NoObject fun _ => True := by
  cases obj with
  | encodeContext ctx => exact (hbody ctx).bind fun _ h => h
  | decodeContext ctx => exact fun _ => nofun
  | other => exact fun _ => nofun

theorem asDecodeContext_noObject {obj : ZendObject τ}
    {body : XzDecodeContext τ → Exec MemoryFault (ApiReturn × XzDecodeContext τ)}
    (hbody : ∀ ctx, Sat (body ctx) NoObject fun _ => True) :
    Sat (obj.asDecodeContext body) NoObject fun _ => True := by
  cases obj with
  | decodeContext ctx => exact (hbody ctx).bind fun _ h => h
  | encodeContext ctx => exact fun _ => nofun
  | other => exact fun _ => nofun

/-- No function of a context returns an object. -/
theorem objectOp_noObject (L : Liblzma τ) (fuel : Nat) (obj : ZendObject τ) (op : ObjectOp) :
    Sat (objectOp L fuel obj op) NoObject fun _ => True := by
  cases op with
  | encodeAdd data => exact asEncodeContext_noObject fun _ => (sat_any _).bind fun _ _ => noObject_toApi _ _
  | encodeFinish => exact asEncodeContext_noObject fun _ => (sat_any _).bind fun _ _ => noObject_toApi _ _
  | encodeGetProperties =>
    exact asEncodeContext_noObject fun _ => (sat_any _).bind fun _ _ => noObject_toApi _ _
  | decodeAdd data => exact asDecodeContext_noObject fun _ => (sat_any _).bind fun _ _ => noObject_toApi _ _
  | decodeFinish => exact asDecodeContext_noObject fun _ => (sat_any _).bind fun _ _ => noObject_toApi _ _
  | decodeGetStatus => exact asDecodeContext_noObject fun _ _ => nofun
  | decodeGetReadLen => exact asDecodeContext_noObject fun _ _ => nofun

theorem Process.view_create {obj : ZendObject (Option Nat)} (hnone : obj.internal = none) :
    (process.create obj).view process.objects.next = some (obj.withInternal none) := by
  refine Option.map_eq_some_iff.mpr ⟨obj, Store.get_alloc_next, ?_⟩
  rw [hnone]
  rfl

theorem Process.view_createWith {obj : ZendObject (Option Nat)} {s : σ}
    (hinternal : obj.internal = some process.coders.next) :
    (process.createWith obj s).view process.objects.next = some (obj.withInternal (some s)) := by
  refine Option.map_eq_some_iff.mpr ⟨obj, Store.get_alloc_next, ?_⟩
  rw [hinternal]
  show obj.withInternal ((process.coders.alloc s).get process.coders.next) = _
  rw [Store.get_alloc_next]

theorem createObject_withInternal (cls : ObjectClass) :
    (createObject cls : ZendObject (Option Nat)).withInternal (none : Option σ) = createObject cls := by
  cases cls <;> rfl

/-- Only a context that could be made is returned as an object. -/
theorem Process.initObject_made {cls : ObjectClass} {ret : PhpReturn (ZendObject (Option Nat) × σ)}
    (h : process.initObject cls ret = .ok (.object handle, process')) :
    ∃ obj s, ret = .value (obj, s) ∧ handle = process.objects.next ∧ process' = process.createWith obj s := by
  cases ret with
  | value p =>
    cases h
    exact ⟨_, _, rfl, rfl, rfl⟩
  | returnFalse warning =>
    obtain ⟨_, -, hpure⟩ := bind_eq_ok.mp h
    cases hpure
  | valueError arg message => cases h

theorem PhpReturn.map_eq_value {α β : Type} {f : α → β} {ret : PhpReturn α} {b : β} (h : ret.map f = .value b) :
    ∃ a, ret = .value a ∧ f a = b := by
  cases ret with
  | value a => exact ⟨a, rfl, PhpReturn.value.inj h⟩
  | returnFalse warning => cases h
  | valueError arg message => cases h

/-- **What a call that returns an object has made.** -/
theorem api_made {op : ApiOp} (h : api L fuel process op = .ok (.object handle, process')) :
    ∃ obj, MadeBy L process.ini op obj ∧ process'.view handle = some obj := by
  cases op with
  | new cls =>
    cases h
    refine ⟨_, .new cls, ?_⟩
    rw [Process.view_create (Process.createObject_internal cls), createObject_withInternal]
  | encodeInit format options =>
    obtain ⟨obj, s, hret, rfl, rfl⟩ := Process.initObject_made h
    obtain ⟨ctx, hinit, hobj⟩ := PhpReturn.map_eq_value hret
    cases hobj
    exact ⟨_, .encodeInit hinit, Process.view_createWith rfl⟩
  | decodeInit format options =>
    obtain ⟨obj, s, hret, rfl, rfl⟩ := Process.initObject_made h
    obtain ⟨ctx, hinit, hobj⟩ := PhpReturn.map_eq_value hret
    cases hobj
    exact ⟨_, .decodeInit hinit, Process.view_createWith rfl⟩
  | call other op =>
    simp only [api, Process.call] at h
    split at h
    · cases h
    · obtain ⟨internal, -, h⟩ := bind_eq_ok.mp h
      obtain ⟨⟨ret, obj'⟩, hlift, hpure⟩ := bind_eq_ok.mp h
      cases hpure
      exact ((objectOp_noObject _ _ _ _).of_ok (liftFault_eq_ok.mp hlift) handle rfl).elim
  | clone other =>
    simp only [api, Process.clone] at h
    split at h
    · cases h
    · cases h
      exact ⟨_, .clone other, Process.view_create rfl⟩
    · cases h
  | release other =>
    obtain ⟨_, -, hpure⟩ := bind_eq_ok.mp h
    cases hpure
  | encode data level format =>
    obtain ⟨ret, -, hpure⟩ := bind_eq_ok.mp h
    exact (noObject_toApi ret process' handle (congrArg Prod.fst (Except.ok.inj hpure))).elim
  | decode data memoryLimit =>
    obtain ⟨ret, -, hpure⟩ := bind_eq_ok.mp h
    exact (noObject_toApi ret process' handle (congrArg Prod.fst (Except.ok.inj hpure))).elim
  | setCompressionLevel level => cases h

theorem destroy_ini (process : Process σ) (handle : Nat) :
    Sat (process.destroy handle) (fun p => p.ini = process.ini) fun _ => True := by
  unfold Process.destroy
  split
  · rfl
  · dsimp only
    split
    · rfl
    · split
      · trivial
      · rfl

/-- A script cannot change `xz.max_memory`. -/
theorem api_maxMemory (L : Liblzma σ) (fuel : Nat) (process : Process σ) (op : ApiOp) :
    Sat (api L fuel process op) (fun p => p.2.ini.maxMemory = process.ini.maxMemory) fun _ => True := by
  have hinit : ∀ cls ret, Sat (process.initObject cls ret)
      (fun p => p.2.ini.maxMemory = process.ini.maxMemory) fun _ => True := by
    rintro cls (⟨obj, s⟩ | warning | ⟨arg, message⟩)
    · rfl
    · exact (destroy_ini (process.create (createObject cls)) process.objects.next).bind
        fun _ h => congrArg Ini.maxMemory h
    · rfl
  cases op with
  | new cls => rfl
  | encodeInit format options => exact hinit _ _
  | decodeInit format options => exact hinit _ _
  | call handle op =>
    show Sat (process.call L fuel handle op) _ _
    unfold Process.call
    split
    · rfl
    · exact (sat_any _).bind fun _ _ => (sat_any _).bind fun _ _ => rfl
  | clone handle =>
    show (process.clone handle).2.ini.maxMemory = process.ini.maxMemory
    unfold Process.clone
    split <;> rfl
  | release handle => exact (destroy_ini process handle).bind fun _ h => congrArg Ini.maxMemory h
  | encode data level format => exact (sat_any _).bind fun _ _ => rfl
  | decode data memoryLimit => exact (sat_any _).bind fun _ _ => rfl
  | setCompressionLevel level => rfl

/-- A session goes through the run that its calls are on the object alone. -/
theorem session_perform {L : Liblzma σ} (hprops : FilterProperties L) {fuel : Nat} {ini : Ini}
    {script : List ApiOp} {rets : List ApiReturn} {process : Process σ}
    (hrun : apiRun L fuel (.start ini) script = .ok (rets, process)) {init : ApiOp} {handle : Nat}
    {calls : List ObjectOp} {results : List ApiReturn}
    (hsession : Session script rets init handle calls results) :
    ∃ level obj obj', MadeBy L ⟨level, ini.maxMemory⟩ init obj ∧
      Runs.perform (objectOp L.orNull fuel) obj calls = .ok (results, obj') ∧
      process.view handle = some obj' := by
  obtain ⟨before, later, rets₀, rets₁, rfl, rfl, hlen, hkept, rfl, rfl⟩ := hsession
  obtain ⟨rs₀, process₀, rs, hbefore, hrest, hrets⟩ := Runs.perform_append_eq_ok.mp hrun
  obtain ⟨r, process₁, rs₁, hinit, hlater, rfl⟩ := Runs.perform_cons_eq_ok.mp hrest
  obtain ⟨rfl, hsame⟩ := List.append_inj hrets (hlen.trans (Runs.length_of_perform hbefore).symm)
  obtain ⟨rfl, rfl⟩ := List.cons.inj hsame
  obtain ⟨hsound, hmemory⟩ : (process₀.Sound fun _ _ => True) ∧ process₀.ini.maxMemory = ini.maxMemory :=
    (Runs.perform_sat
      (fun process : Process σ => (process.Sound fun _ _ => True) ∧ process.ini.maxMemory = ini.maxMemory)
      (F := fun _ => True)
      (fun process op h => ((api_sound (coderProperty_true L) hprops h.1 fuel op).and
        (api_maxMemory L fuel process op)).mono fun _ hp => ⟨hp.1, hp.2.trans h.2⟩)
      ⟨Process.start_sound _ ini, rfl⟩ before).of_ok hbefore
  obtain ⟨obj, hmade, hview⟩ := api_made hinit
  have hsound₁ := (api_sound (coderProperty_true L) hprops hsound fuel init).of_ok hinit
  obtain ⟨obj', hperform, hview'⟩ := (objectComponent hprops fuel handle).perform hsound₁ hview hkept hlater
  rw [show process₀.ini = ⟨process₀.ini.compressionLevel, process₀.ini.maxMemory⟩ from rfl, hmemory] at hmade
  exact ⟨_, obj, obj', hmade, hperform, hview'⟩

/-! ## The object in a script of its own -/

/-- A function on an object that returns does so in every process that has the object. -/
theorem call_of_objectOp (h : process.Sound fun _ _ => True) {obj obj' : ZendObject (Option σ)}
    (hview : process.view handle = some obj) {op : ObjectOp} {ret : ApiReturn}
    (hop : objectOp L.orNull fuel obj op = .ok (ret, obj')) :
    ∃ process', process.call L fuel handle op = .ok (ret, process') := by
  obtain ⟨before, hbefore, rfl⟩ := Option.map_eq_some_iff.mp hview
  obtain ⟨internal, hload, -, rfl⟩ := h.load hbefore
  simp only [Process.call, hbefore, hload, ok_bind, hop, liftFault, pure_eq_ok]
  exact ⟨_, rfl⟩

/-- So do the calls of a run. -/
theorem apiRun_calls (hprops : FilterProperties L) (h : process.Sound fun _ _ => True)
    {obj obj' : ZendObject (Option σ)} (hview : process.view handle = some obj) {calls : List ObjectOp}
    {results : List ApiReturn}
    (hperform : Runs.perform (objectOp L.orNull fuel) obj calls = .ok (results, obj')) :
    ∃ process', apiRun L fuel process (calls.map (.call handle)) = .ok (results, process') ∧
      process'.view handle = some obj' := by
  induction calls generalizing process obj results with
  | nil =>
    cases hperform
    exact ⟨process, rfl, hview⟩
  | cons op calls ih =>
    obtain ⟨r, obj₁, rs, hop, hrest, rfl⟩ := Runs.perform_cons_eq_ok.mp hperform
    obtain ⟨process₁, hcall⟩ := call_of_objectOp h hview hop
    obtain ⟨obj₁', hop', hview₁⟩ := Process.view_call hprops h hview hcall
    obtain ⟨-, rfl⟩ := Prod.mk.inj (Except.ok.inj (hop.symm.trans hop'))
    have hsound₁ : process₁.Sound fun _ _ => True :=
      (api_sound (coderProperty_true L) hprops h fuel (.call handle op)).of_ok hcall
    obtain ⟨process', hrun, hview'⟩ := ih hsound₁ hview₁ hrest
    exact ⟨process', Runs.perform_cons_eq_ok.mpr ⟨r, process₁, rs, hcall, hrun, rfl⟩, hview'⟩

/-- In a new process the same object can be made again. -/
theorem api_start {init : ApiOp} {obj : ZendObject (Option σ)} {ini : Ini} (hmade : MadeBy L ini init obj)
    (hclone : ∀ other, init ≠ .clone other) (fuel : Nat) :
    ∃ process', api L fuel (.start ini) init = .ok (.object 0, process') ∧
      process'.view 0 = some obj := by
  have hobject : ∀ {process' : Process σ}, api L fuel (.start ini) init = .ok (.object 0, process') →
      ∃ obj', MadeBy L ini init obj' ∧ process'.view 0 = some obj' := fun h => api_made h
  cases hmade with
  | new cls =>
    obtain ⟨obj', hmade', hview⟩ := hobject rfl
    cases hmade'
    exact ⟨_, rfl, hview⟩
  | @encodeInit _ _ ctx h =>
    have hinit : api L fuel (.start ini) (.encodeInit _ _) = _ :=
      congrArg (fun ret => Process.initObject _ .encodeContext (PhpReturn.map _ ret)) h
    obtain ⟨obj', hmade', hview⟩ := hobject hinit
    cases hmade' with
    | @encodeInit _ _ ctx' h' =>
      obtain rfl : ctx = ctx' := PhpReturn.value.inj (h.symm.trans h')
      exact ⟨_, hinit, hview⟩
  | @decodeInit _ _ ctx h =>
    have hinit : api L fuel (.start ini) (.decodeInit _ _) = _ :=
      congrArg (fun ret => Process.initObject _ .decodeContext (PhpReturn.map _ ret)) h
    obtain ⟨obj', hmade', hview⟩ := hobject hinit
    cases hmade' with
    | @decodeInit _ _ ctx' h' =>
      obtain rfl : ctx = ctx' := PhpReturn.value.inj (h.symm.trans h')
      exact ⟨_, hinit, hview⟩
  | clone other => exact absurd rfl (hclone other)

/-- **Objects do not disturb each other.** Whatever else a script does in between, what the calls on an
object return is what they return in the script that makes this object and does nothing but these calls;
and both scripts leave the object and its coder the same. -/
theorem object_alone (hprops : FilterProperties L) {ini : Ini} {script : List ApiOp} {rets : List ApiReturn}
    (hrun : apiRun L fuel (.start ini) script = .ok (rets, process)) {init : ApiOp}
    {calls : List ObjectOp} {results : List ApiReturn}
    (hsession : Session script rets init handle calls results) (hclone : ∀ other, init ≠ .clone other) :
    ∃ level process₁, apiRun L fuel (.start ⟨level, ini.maxMemory⟩) (init :: calls.map (.call 0)) =
        .ok (.object 0 :: results, process₁) ∧
      process₁.view 0 = process.view handle := by
  obtain ⟨level, obj, obj', hmade, hperform, hview⟩ := session_perform hprops hrun hsession
  obtain ⟨process₀, hinit, hview₀⟩ := api_start hmade hclone fuel
  have hsound₀ := (api_sound (coderProperty_true L) hprops (Process.start_sound _ _) fuel init).of_ok hinit
  obtain ⟨process₁, hcalls, hview₁⟩ := apiRun_calls hprops hsound₀ hview₀ hperform
  refine ⟨level, process₁, ?_, hview₁.trans hview.symm⟩
  exact Runs.perform_cons_eq_ok.mpr ⟨_, process₀, results, hinit, hcalls, rfl⟩

/-- Two encoders, and a decoder that is released in between. -/
def twoEncoders : List ApiOp :=
  [.encodeInit none none, .decodeInit none none, .call 0 (.encodeAdd [1]), .new .encodeContext,
    .call 1 (.decodeAdd [5]), .release 1, .call 0 (.encodeAdd [2]), .call 0 .encodeFinish]

theorem object_alone_two :
    ∃ process, apiRun copyLiblzma 9 (.start {}) twoEncoders =
        .ok ([.object 0, .object 1, .string [1], .object 2, .string [5], .null, .string [2], .string []],
          process) ∧
      ∃ level process₁, apiRun copyLiblzma 9 (.start ⟨level, 0⟩)
          [.encodeInit none none, .call 0 (.encodeAdd [1]), .call 0 (.encodeAdd [2]), .call 0 .encodeFinish] =
            .ok ([.object 0, .string [1], .string [2], .string []], process₁) ∧
        process₁.view 0 = process.view 0 := by
  obtain ⟨process, hrun⟩ : ∃ process, apiRun copyLiblzma 9 (.start {}) twoEncoders =
      .ok ([.object 0, .object 1, .string [1], .object 2, .string [5], .null, .string [2], .string []],
        process) := ⟨_, rfl⟩
  have hsession : Session twoEncoders
      [.object 0, .object 1, .string [1], .object 2, .string [5], .null, .string [2], .string []]
      (.encodeInit none none) 0 [.encodeAdd [1], .encodeAdd [2], .encodeFinish]
      [.string [1], .string [2], .string []] :=
    ⟨[], _, [], _, rfl, rfl, rfl, by simp, rfl, rfl⟩
  exact ⟨process, hrun, object_alone (pairLiblzma_filterProperties _ _ _) hrun hsession fun _ => nofun⟩

end Made

end PhpExtXz
