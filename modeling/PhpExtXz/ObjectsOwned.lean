/-
# PhpExtXz.ObjectsOwned — no script misuses the memory of liblzma, and every script comes to its end.

A coder belongs to one object: init creates the two together, no function moves a coder to another object,
objects of the two classes cannot be cloned, and the coder goes with its object. That each call keeps
this is `api_sound`; from it, whatever a script does, no coder is used after its release or released twice,
and none outlives its object (`apiRun_sound`).

`xz_encode_get_properties` writes into an array of five bytes. That they are enough rests on a second
invariant: format and filter of an encode context never change, and a context of the raw format has one
of the two filters that `xz_encode_init` lets through.
-/
import PhpExtXz.InitOptions
import PhpExtXz.Objects
import PhpExtXz.StringsEnd

namespace PhpExtXz

open FuelLoop

variable {σ τ : Type}

/-! ## What the calls of a coder keep -/

/-- A property of coders that no call changes. -/
def Coder.Keeps (c : Coder τ) (P : τ → Prop) : Prop :=
  ∀ s action input room, P s → P (c.code s action input room).state

variable {c : Coder τ} {P : τ → Prop} {L : Liblzma τ} {fuel : Nat} {data : List UInt8}

/-- One pass of the shared loop keeps what calls keep. -/
theorem processTurn_keeps {switch : LzmaRet → Nat → Switch} (hP : c.Keeps P)
    (hswitch : ∀ ret n, switch ret n = .grow → n = 0) (action : LzmaAction) {w : OutString τ}
    (h : w.Inside data) (hw : P w.strm.internal) :
    Sat (processTurn switch c action data w)
      (TurnSat (fun w => w.Inside data ∧ P w.strm.internal) fun p => P p.strm.internal)
      (fun _ => False) := by
  obtain ⟨w', hcode, hfit, hreads, hstrm, -⟩ := OutString.code_eq_ok h.1 h.2
    (rfl : c.code w.strm.internal action (w.left data) w.strm.availOut = _)
  have hw' : P w'.strm.internal := by
    rw [hstrm]
    exact hP _ _ _ _ hw
  rcases processTurn_cases switch hcode with ⟨hgrow, hturn⟩ | ⟨-, hturn⟩ | ⟨-, hturn⟩
  · rw [hturn]
    exact ⟨OutString.Inside.grow ⟨hfit, hreads⟩ (hswitch _ _ hgrow), hw'⟩
  · rw [hturn]
    exact hw'
  · rw [hturn]
    exact hw'

theorem contextProcess_keeps {switch : LzmaRet → Nat → Switch} (hP : c.Keeps P)
    (hswitch : ∀ ret n, switch ret n = .grow → n = 0) (fuel : Nat) {strm : LzmaStream τ}
    (data : List UInt8) (action : LzmaAction) (hstrm : P strm.internal) :
    Sat (contextProcess switch c fuel strm data action) (fun p => P p.strm.internal)
      (fun _ => False) :=
  loop_sat (fun w : OutString τ => w.Inside data ∧ P w.strm.internal)
    (fun _ h => processTurn_keeps hP hswitch action h.1 h.2) fuel _
    ⟨OutString.start_inside strm, hstrm⟩

/-- Adding and finishing change neither the format nor the filter. -/
theorem encodeOp_keeps (hP : L.coder.Keeps P) {obj : XzEncodeContext τ} (h : P obj.strm.internal)
    (op : EncodeOp) :
    Sat (encodeOp L fuel obj op)
      (fun p => p.2.format = obj.format ∧ p.2.filter = obj.filter ∧ P p.2.strm.internal)
      (fun _ => False) := by
  rcases encodeOp_cases L fuel obj op with ⟨ret, heq⟩ | heq
  · rw [heq]
    exact ⟨rfl, rfl, h⟩
  · rw [heq]
    have hprocess : Sat (phpXzEncodeContextProcess L fuel obj op.bytes op.action)
        (fun p => p.2.format = obj.format ∧ p.2.filter = obj.filter ∧ P p.2.strm.internal)
        (fun _ => False) :=
      (contextProcess_keeps hP encodeSwitch_grow fuel op.bytes op.action h).bind
        fun _ hp => ⟨rfl, rfl, hp⟩
    exact hprocess.bind fun _ hp => hp

theorem decodeOp_keeps (hP : L.coder.Keeps P) {obj : XzDecodeContext τ} (h : P obj.strm.internal)
    (op : DecodeOp) :
    Sat (decodeOp L fuel obj op) (fun p => P p.2.strm.internal) (fun _ => False) := by
  rcases decodeOp_cases L fuel obj op with ⟨ret, heq⟩ | heq
  · rw [heq]
    exact h
  · rw [heq]
    have hprocess : Sat (phpXzDecodeContextProcess L fuel obj op.bytes op.action)
        (fun p => P p.2.strm.internal) (fun _ => False) :=
      (contextProcess_keeps hP (decodeSwitch_grow op.action) fuel op.bytes op.action h).bind
        fun _ hp => hp
    exact hprocess.bind fun _ hp => hp

/-! ## The properties of a filter -/

/-- **What `lzma_properties_size` and `lzma_properties_encode` promise**: LZMA1 has five bytes of
properties and LZMA2 one, and as many bytes are written as the size says. -/
structure FilterProperties (L : Liblzma σ) : Prop where
  lzma1 : ∀ opt n, L.lzmaPropertiesSize ⟨LZMA_FILTER_LZMA1, opt⟩ = .ok n → n = 5
  lzma2 : ∀ opt n, L.lzmaPropertiesSize ⟨LZMA_FILTER_LZMA2, opt⟩ = .ok n → n = 1
  written : ∀ filter n bytes, L.lzmaPropertiesSize filter = .ok n →
    L.lzmaPropertiesEncode filter = .ok bytes → bytes.length = n.toNat

theorem FilterProperties.size_le (h : FilterProperties L) {filter : LzmaFilter} (hknown : filter.Known)
    {n : UInt32} (hn : L.lzmaPropertiesSize filter = .ok n) : n.toNat ≤ 5 := by
  obtain ⟨id, opt⟩ := filter
  rcases hknown with hid | hid
  · obtain rfl : id = LZMA_FILTER_LZMA1 := hid
    rw [h.lzma1 opt n hn]
    decide
  · obtain rfl : id = LZMA_FILTER_LZMA2 := hid
    rw [h.lzma2 opt n hn]
    decide

/-- An encode context of the raw format has a filter that is known. -/
def XzEncodeContext.RawKnown (obj : XzEncodeContext τ) : Prop :=
  obj.format = castUInt32 XZ_FORMAT_RAW → obj.filter.Known

/-- The properties fit into `props`, and what is returned are the properties of the filter. -/
theorem xzEncodeGetProperties_sat (h : FilterProperties L) {obj : XzEncodeContext τ}
    (hknown : obj.RawKnown) :
    Sat (xzEncodeGetProperties L obj)
      (fun ret => ∀ bytes, ret = .value bytes →
        obj.format = castUInt32 XZ_FORMAT_RAW ∧ L.lzmaPropertiesEncode obj.filter = .ok bytes)
      (fun _ => False) := by
  unfold xzEncodeGetProperties
  split
  · rintro _ ⟨⟩
  · rename_i hformat
    have hraw : obj.format = castUInt32 XZ_FORMAT_RAW := not_ne_iff.mp hformat
    split
    · rintro _ ⟨⟩
    · rename_i n hn
      split
      · rintro _ ⟨⟩
      · rename_i bytes hbytes
        have hlen : bytes.length = n.toNat := h.written _ _ _ hn hbytes
        have hle : n.toNat ≤ 5 := h.size_le (hknown hraw) hn
        have hfits : 0 + bytes.length ≤ 5 ∧ n.toNat ≤ 5 := ⟨by omega, hle⟩
        rw [dif_pos hfits]
        rintro out hout
        have hback : ∀ k, k = bytes.length →
            ((Buffer.fresh 0 5).blit 0 bytes hfits.1).window 0 k = bytes := by
          rintro k rfl
          exact Buffer.window_blit_zero hfits.1
        obtain rfl : bytes = out := (hback _ hlen.symm).symm.trans (PhpReturn.value.inj hout)
        exact ⟨hraw, hbytes⟩

/-! ## One object -/

/-- Format and filter of an encode context. -/
def ZendObject.frozen : ZendObject τ → Option (UInt32 × LzmaFilter)
  | .encodeContext obj => some (obj.format, obj.filter)
  | _ => none

/-- An object whose coder, if it has a place for one, satisfies `P`. -/
def ZendObject.CoderSat (P : τ → Prop) : ZendObject τ → Prop
  | .encodeContext obj => P obj.strm.internal
  | .decodeContext obj => P obj.strm.internal
  | .other => True

/-- An encode context of the raw format has a filter that is known. -/
def ZendObject.RawKnown (obj : ZendObject τ) : Prop :=
  ∀ format filter, obj.frozen = some (format, filter) → format = castUInt32 XZ_FORMAT_RAW → filter.Known

/-- What a function has left of an object: its class, format and filter are as before. -/
structure ZendObject.Left (P : τ → Prop) (obj obj' : ZendObject τ) : Prop where
  cls : obj'.cls = obj.cls
  frozen : obj'.frozen = obj.frozen
  coder : obj'.CoderSat P

theorem ZendObject.asEncodeContext_sat {obj : ZendObject τ} (hobj : obj.CoderSat P)
    {body : XzEncodeContext τ → Exec MemoryFault (ApiReturn × XzEncodeContext τ)}
    (hbody : ∀ ctx, obj = .encodeContext ctx → P ctx.strm.internal →
      Sat (body ctx) (fun p => p.2.format = ctx.format ∧ p.2.filter = ctx.filter ∧ P p.2.strm.internal)
        (fun _ => False)) :
    Sat (obj.asEncodeContext body) (fun p => Left P obj p.2) (fun _ => False) := by
  cases obj with
  | encodeContext ctx =>
    refine (hbody ctx rfl hobj).bind ?_
    rintro ⟨ret, ctx'⟩ ⟨hformat, hfilter, hcoder⟩
    refine ⟨rfl, ?_, hcoder⟩
    show some (ctx'.format, ctx'.filter) = some (ctx.format, ctx.filter)
    rw [hformat, hfilter]
  | decodeContext ctx => exact ⟨rfl, rfl, hobj⟩
  | other => exact ⟨rfl, rfl, hobj⟩

theorem ZendObject.asDecodeContext_sat {obj : ZendObject τ} (hobj : obj.CoderSat P)
    {body : XzDecodeContext τ → Exec MemoryFault (ApiReturn × XzDecodeContext τ)}
    (hbody : ∀ ctx, obj = .decodeContext ctx → P ctx.strm.internal →
      Sat (body ctx) (fun p => P p.2.strm.internal) (fun _ => False)) :
    Sat (obj.asDecodeContext body) (fun p => Left P obj p.2) (fun _ => False) := by
  cases obj with
  | decodeContext ctx =>
    refine (hbody ctx rfl hobj).bind ?_
    exact fun _ hcoder => ⟨rfl, rfl, hcoder⟩
  | encodeContext ctx => exact ⟨rfl, rfl, hobj⟩
  | other => exact ⟨rfl, rfl, hobj⟩

/-- **No function faults on an object**, of whatever class it is, and what calls of its coder keep holds
of its coder afterwards. -/
theorem objectOp_sat (hprops : FilterProperties L) (hP : L.coder.Keeps P) (fuel : Nat)
    {obj : ZendObject τ} (hobj : obj.CoderSat P) (hknown : obj.RawKnown) (op : ObjectOp) :
    Sat (objectOp L fuel obj op) (fun p => obj.Left P p.2) (fun _ => False) := by
  cases op with
  | encodeAdd data =>
    apply ZendObject.asEncodeContext_sat hobj
    intro ctx _ hctx
    exact (encodeOp_keeps hP hctx (.add data)).bind fun _ hp => hp
  | encodeFinish =>
    apply ZendObject.asEncodeContext_sat hobj
    intro ctx _ hctx
    exact (encodeOp_keeps hP hctx .finish).bind fun _ hp => hp
  | encodeGetProperties =>
    apply ZendObject.asEncodeContext_sat hobj
    rintro ctx rfl hctx
    exact (xzEncodeGetProperties_sat hprops (hknown _ _ rfl)).bind fun _ _ => ⟨rfl, rfl, hctx⟩
  | decodeAdd data =>
    apply ZendObject.asDecodeContext_sat hobj
    intro ctx _ hctx
    exact (decodeOp_keeps hP hctx (.add data)).bind fun _ hp => hp
  | decodeFinish =>
    apply ZendObject.asDecodeContext_sat hobj
    intro ctx _ hctx
    exact (decodeOp_keeps hP hctx .finish).bind fun _ hp => hp
  | decodeGetStatus => exact ZendObject.asDecodeContext_sat hobj fun _ _ hctx => hctx
  | decodeGetReadLen => exact ZendObject.asDecodeContext_sat hobj fun _ _ hctx => hctx

/-! ## The process -/

/-- A property of coders that may depend on format and filter of the object they belong to: coders have it
when they are created, and calls do not change it. -/
structure CoderProperty (L : Liblzma σ) (P : Option (UInt32 × LzmaFilter) → σ → Prop) : Prop where
  keeps : ∀ frozen, L.coder.Keeps (P frozen)
  encoder : ∀ ini format options obj, xzEncodeInit L ini format options = .value obj →
    P (some (obj.format, obj.filter)) obj.strm.internal
  decoder : ∀ ini format options obj, xzDecodeInit L ini format options = .value obj →
    P none obj.strm.internal

/-- **The invariant of a process**: its objects own its coders, each coder has the property, and encode
contexts of the raw format have known filters. -/
structure Process.Sound (P : Option (UInt32 × LzmaFilter) → σ → Prop) (process : Process σ) : Prop where
  owns : Owns ZendObject.internal process.objects process.coders
  coders : ∀ {handle obj p s}, process.objects.get handle = some obj → obj.internal = some p →
    process.coders.get p = some s → P obj.frozen s
  known : ∀ {handle obj}, process.objects.get handle = some obj → obj.RawKnown

/-- A coder that is there or not, as `present` says, and that satisfies `P` if it is. -/
def Loaded (P : σ → Prop) (present : Bool) (internal : Option σ) : Prop :=
  internal.isSome = present ∧ ∀ s, internal = some s → P s

/-- A stream without a coder stays without one, and one with a coder keeps it. -/
theorem Coder.Keeps.orNull {c : Coder σ} {P : σ → Prop} (h : c.Keeps P) (present : Bool) :
    c.orNull.Keeps (Loaded P present) := by
  rintro internal action input room ⟨hpresent, hP⟩
  cases internal with
  | none => exact ⟨hpresent, fun s hs => nomatch hs⟩
  | some s =>
    refine ⟨hpresent, ?_⟩
    rintro s' hs'
    obtain rfl : (c.code s action input room).state = s' := Option.some.inj hs'
    exact h s action input room (hP s rfl)

theorem sat_liftFault {α : Type} {x : Exec MemoryFault α} {Q : α → Prop}
    (h : Sat x Q fun _ => False) : Sat (liftFault x) Q fun _ => False := by
  match x with
  | .ok a => exact h
  | .error .outOfFuel => trivial
  | .error (.fault e) => exact h.elim

namespace ZendObject

variable {obj obj' : ZendObject τ}

@[simp]
theorem cls_withInternal {υ : Type} (i : υ) : (obj.withInternal i).cls = obj.cls := by
  cases obj <;> rfl

@[simp]
theorem frozen_withInternal {υ : Type} (i : υ) : (obj.withInternal i).frozen = obj.frozen := by
  cases obj <;> rfl

/-- The pointer put back into an object of the same class. -/
theorem internal_withInternal {υ : Type} {before : ZendObject (Option υ)} (h : obj.cls = before.cls) :
    (obj.withInternal before.internal).internal = before.internal := by
  cases obj <;> cases before <;> first | rfl | cases h

theorem coderSat_withInternal {υ : Type} {P : υ → Prop} {i : υ} (h : P i) :
    (obj.withInternal i).CoderSat P := by
  cases obj
  · exact h
  · exact h
  · trivial

end ZendObject

namespace Process

variable {L : Liblzma σ} {P : Option (UInt32 × LzmaFilter) → σ → Prop} {self : Process σ} {fuel : Nat}
  {handle : Nat} {obj : ZendObject (Option Nat)}

theorem start_sound (P : Option (UInt32 × LzmaFilter) → σ → Prop) (ini : Ini) :
    (start ini : Process σ).Sound P where
  owns := .empty
  coders h := by cases h
  known h := by cases h

/-- The coder of an object is there. -/
theorem Sound.load (h : self.Sound P) (hobj : self.objects.get handle = some obj) :
    ∃ internal, self.load obj.internal = .ok internal ∧
      Loaded (P obj.frozen) obj.internal.isSome internal ∧
      internal = obj.internal.bind self.coders.get := by
  match hp : obj.internal with
  | none => exact ⟨none, rfl, ⟨rfl, fun s hs => nomatch hs⟩, rfl⟩
  | some p =>
    obtain ⟨s, hs⟩ := h.owns.alive hobj hp
    refine ⟨some s, ?_, ⟨rfl, ?_⟩, hs.symm⟩
    · simp only [Process.load, hs, pure_eq_ok]
    · rintro s' hs'
      obtain rfl := Option.some.inj hs'
      exact h.coders hobj hp hs

/-- A function has left the process sound. -/
theorem Sound.save (h : self.Sound P) (hobj : self.objects.get handle = some obj)
    {obj' : ZendObject (Option σ)} (hcls : obj'.cls = obj.cls) (hfrozen : obj'.frozen = obj.frozen)
    (hcoder : ∀ s, obj'.internal = some s → P obj.frozen s) :
    ({ self with
      objects := self.objects.set handle (obj'.withInternal obj.internal)
      coders := self.saveCoder obj.internal obj'.internal } : Process σ).Sound P := by
  have hinternal : (obj'.withInternal obj.internal).internal = obj.internal :=
    ZendObject.internal_withInternal hcls
  have hfrozen' : (obj'.withInternal obj.internal).frozen = obj.frozen := by
    rw [ZendObject.frozen_withInternal, hfrozen]
  have howns := h.owns.set hobj hinternal
  refine ⟨?_, ?_, ?_⟩
  · unfold saveCoder
    split
    · exact howns.set_owned _ _
    · exact howns
  · intro j a p s hj hp hs
    -- the coder of this object, or another one, which has not been touched
    have hold : ∀ s', self.coders.get p = some s' → P a.frozen s' := by
      intro s' hs'
      rcases Store.eq_or_get_of_set hj with ⟨rfl, rfl, -⟩ | ⟨-, hj'⟩
      · rw [hfrozen']
        exact h.coders hobj (hinternal ▸ hp) hs'
      · exact h.coders hj' hp hs'
    dsimp only [saveCoder] at hs
    split at hs
    · rename_i q s' hq hs'
      rcases Store.eq_or_get_of_set hs with ⟨rfl, rfl, -⟩ | ⟨-, hs⟩
      · obtain rfl := howns.sole hj (Store.get_set_self hobj) hp (hinternal.trans hq)
        obtain rfl := Option.some.inj (hj.symm.trans (Store.get_set_self hobj))
        rw [hfrozen']
        exact hcoder _ hs'
      · exact hold _ hs
    · exact hold _ hs
  · intro j a hj
    rcases Store.eq_or_get_of_set hj with ⟨rfl, rfl, -⟩ | ⟨-, hj⟩
    · intro format filter hff
      rw [hfrozen'] at hff
      exact h.known hobj format filter hff
    · exact h.known hj

/-- What `objectOp` leaves of a loaded object. -/
theorem Sound.op (hL : CoderProperty L P) (hprops : FilterProperties L) (h : self.Sound P)
    (hobj : self.objects.get handle = some obj) {internal : Option σ}
    (hloaded : Loaded (P obj.frozen) obj.internal.isSome internal) (fuel : Nat) (op : ObjectOp) :
    Sat (objectOp L.orNull fuel (obj.withInternal internal) op)
      (fun p => p.2.cls = obj.cls ∧ p.2.frozen = obj.frozen ∧
        p.2.CoderSat (Loaded (P obj.frozen) obj.internal.isSome))
      (fun _ => False) := by
  have hprops' : FilterProperties L.orNull := ⟨hprops.lzma1, hprops.lzma2, hprops.written⟩
  have hknown : (obj.withInternal internal).RawKnown := by
    intro format filter hff
    rw [ZendObject.frozen_withInternal] at hff
    exact h.known hobj format filter hff
  refine (objectOp_sat hprops' ((hL.keeps obj.frozen).orNull _) fuel
    (ZendObject.coderSat_withInternal hloaded) hknown op).mono ?_
  rintro p ⟨hcls, hfrozen, hcoder⟩
  rw [ZendObject.cls_withInternal] at hcls
  rw [ZendObject.frozen_withInternal] at hfrozen
  exact ⟨hcls, hfrozen, hcoder⟩

theorem call_sat (hL : CoderProperty L P) (hprops : FilterProperties L) (h : self.Sound P)
    (fuel handle : Nat) (op : ObjectOp) :
    Sat (self.call L fuel handle op) (fun p => p.2.Sound P) (fun _ => False) := by
  unfold call
  split
  · exact h
  · rename_i obj hobj
    obtain ⟨internal, hload, hloaded, -⟩ := h.load hobj
    rw [hload]
    refine (sat_liftFault (h.op hL hprops hobj hloaded fuel op)).bind ?_
    rintro ⟨ret, obj'⟩ ⟨hcls, hfrozen, hcoder⟩
    refine h.save hobj hcls hfrozen ?_
    intro s hs
    cases obj' with
    | encodeContext ctx => exact hcoder.2 s hs
    | decodeContext ctx => exact hcoder.2 s hs
    | other => cases hs

/-- Where an object comes from, the others stay as they are. -/
theorem create_sound (h : self.Sound P) (hnone : obj.internal = none) (hknown : obj.RawKnown) :
    (self.create obj).Sound P where
  owns := h.owns.alloc hnone
  coders {j a p s} hj hp hs := by
    rcases Store.eq_or_get_of_alloc hj with ⟨-, rfl⟩ | ⟨-, hj⟩
    · rw [hnone] at hp
      cases hp
    · exact h.coders hj hp hs
  known {j a} hj := by
    rcases Store.eq_or_get_of_alloc hj with ⟨-, rfl⟩ | ⟨-, hj⟩
    · exact hknown
    · exact h.known hj

theorem createWith_sound (h : self.Sound P) (hinternal : obj.internal = some self.coders.next)
    (hknown : obj.RawKnown) {s : σ} (hs : P obj.frozen s) : (self.createWith obj s).Sound P where
  owns := h.owns.alloc_both hinternal
  coders {j a p s'} hj hp hs' := by
    rcases Store.eq_or_get_of_alloc hj with ⟨-, rfl⟩ | ⟨-, hj'⟩
    · obtain rfl : self.coders.next = p := Option.some.inj (hinternal.symm.trans hp)
      obtain rfl := Option.some.inj (hs'.symm.trans Store.get_alloc_next)
      exact hs
    · obtain ⟨old, hold⟩ := h.owns.alive hj' hp
      obtain rfl := Option.some.inj (hs'.symm.trans (Store.get_alloc hold))
      exact h.coders hj' hp hold
  known {j a} hj := by
    rcases Store.eq_or_get_of_alloc hj with ⟨-, rfl⟩ | ⟨-, hj⟩
    · exact hknown
    · exact h.known hj

theorem createObject_internal (cls : ObjectClass) :
    (createObject cls : ZendObject (Option Nat)).internal = none := by
  cases cls <;> rfl

/-- An object as it is created is one of the xz format. -/
theorem createObject_known (cls : ObjectClass) :
    (createObject cls : ZendObject (Option Nat)).RawKnown := by
  rintro format filter hff hraw
  cases cls with
  | encodeContext =>
    obtain ⟨rfl, -⟩ := Prod.mk.inj (Option.some.inj hff)
    exact absurd hraw (by decide)
  | decodeContext => cases hff
  | other => cases hff

/-- An object is destroyed together with its coder. -/
theorem destroy_sat (h : self.Sound P) (handle : Nat) :
    Sat (self.destroy handle) (fun self' => self'.Sound P) (fun _ => False) := by
  unfold destroy
  split
  · exact h
  · rename_i obj hobj
    have hothers : ∀ {j a}, (self.objects.free handle).get j = some a → self.objects.get j = some a :=
      fun hj => (Store.get_of_free hj).2
    dsimp only
    split
    · rename_i hnone
      exact ⟨h.owns.free hobj hnone, fun hj hp hs => h.coders (hothers hj) hp hs,
        fun hj => h.known (hothers hj)⟩
    · rename_i p hp
      obtain ⟨s, hs⟩ := h.owns.alive hobj hp
      rw [hs]
      exact ⟨h.owns.free_both hobj hp,
        fun hj hq ht => h.coders (hothers hj) hq (Store.get_of_free ht).2,
        fun hj => h.known (hothers hj)⟩

/-- The object an init function has made is sound. -/
def Made (P : Option (UInt32 × LzmaFilter) → σ → Prop) (self : Process σ)
    (obj : ZendObject (Option Nat)) (s : σ) : Prop :=
  obj.internal = some self.coders.next ∧ obj.RawKnown ∧ P obj.frozen s

theorem initObject_sat (h : self.Sound P) (cls : ObjectClass)
    {ret : PhpReturn (ZendObject (Option Nat) × σ)}
    (hret : ∀ obj s, ret = .value (obj, s) → Made P self obj s) :
    Sat (self.initObject cls ret) (fun p => p.2.Sound P) (fun _ => False) := by
  cases ret with
  | valueError arg message => exact h
  | returnFalse warning =>
    have hcreated := create_sound h (createObject_internal cls) (createObject_known cls)
    exact (destroy_sat hcreated self.objects.next).bind fun _ hp => hp
  | value p =>
    obtain ⟨obj, s⟩ := p
    obtain ⟨hinternal, hknown, hs⟩ := hret obj s rfl
    exact createWith_sound h hinternal hknown hs

end Process

/-- A context that `xz_encode_init` has made has a filter that is known. -/
theorem xzEncodeInit_known {L : Liblzma σ} {ini : Ini} {format : Option ZendLong}
    {options : Option Options} {obj : XzEncodeContext σ}
    (h : xzEncodeInit L ini format options = .value obj) : obj.filter.Known := by
  have hcases := xzEncodeInit_cases L ini format options
  rw [h] at hcases
  cases hcases with
  | made good accepted preset_eq created => exact accepted.known _ _

namespace Process

variable {L : Liblzma σ} {P : Option (UInt32 × LzmaFilter) → σ → Prop} {self : Process σ}

/-- What an init function makes of its object. -/
theorem made_encodeContext (hL : CoderProperty L P) {ini : Ini} {format : Option ZendLong}
    {options : Option Options} (obj : ZendObject (Option Nat)) (s : σ)
    (h : (xzEncodeInit L ini format options).map (fun ctx =>
      (ZendObject.encodeContext (ctx.withInternal (some self.coders.next)), ctx.strm.internal)) =
        .value (obj, s)) : Made P self obj s := by
  match hinit : xzEncodeInit L ini format options with
  | .value ctx =>
    rw [hinit] at h
    obtain ⟨rfl, rfl⟩ := Prod.mk.inj (PhpReturn.value.inj h)
    have hknown : ctx.filter.Known := xzEncodeInit_known hinit
    refine ⟨rfl, ?_, hL.encoder _ _ _ _ hinit⟩
    rintro format filter hff -
    obtain ⟨-, rfl⟩ := Prod.mk.inj (Option.some.inj hff)
    exact hknown
  | .returnFalse warning =>
    rw [hinit] at h
    cases h
  | .valueError arg message =>
    rw [hinit] at h
    cases h

theorem made_decodeContext (hL : CoderProperty L P) {ini : Ini} {format : Option ZendLong}
    {options : Option Options} (obj : ZendObject (Option Nat)) (s : σ)
    (h : (xzDecodeInit L ini format options).map (fun ctx =>
      (ZendObject.decodeContext (ctx.withInternal (some self.coders.next)), ctx.strm.internal)) =
        .value (obj, s)) : Made P self obj s := by
  match hinit : xzDecodeInit L ini format options with
  | .value ctx =>
    rw [hinit] at h
    obtain ⟨rfl, rfl⟩ := Prod.mk.inj (PhpReturn.value.inj h)
    refine ⟨rfl, ?_, hL.decoder _ _ _ _ hinit⟩
    intro format filter hff
    cases hff
  | .returnFalse warning =>
    rw [hinit] at h
    cases h
  | .valueError arg message =>
    rw [hinit] at h
    cases h

end Process

/-- `xzencode` refuses its arguments, or it hands the data to the one-shot encoder. -/
theorem xzencode_cases (L : Liblzma σ) (ini : Ini) (data : List UInt8) (level format : Option ZendLong) :
    (∃ ret, ∀ fuel, xzencode L ini fuel data level format = .ok ret) ∨
    ∃ level' format', ∀ fuel, xzencode L ini fuel data level format =
      phpXzEncodeString L fuel data level' format' >>= fun out => .ok (returnStr out) := by
  obtain ⟨used, hused⟩ : ∃ used,
      (if level.getD (-1) = -1 then ini.compressionLevel else level.getD (-1)) = used := ⟨_, rfl⟩
  simp only [xzencode, hused]
  by_cases hlevel : used < 0 ∨ used > 9
  · exact Or.inl ⟨_, fun _ => if_pos hlevel⟩
  · by_cases hformat : format.getD XZ_FORMAT_XZ ≠ XZ_FORMAT_XZ ∧ format.getD XZ_FORMAT_XZ ≠ XZ_FORMAT_RAW
    · exact Or.inl ⟨_, fun _ => (if_neg hlevel).trans (if_pos hformat)⟩
    · exact Or.inr ⟨_, _, fun _ => (if_neg hlevel).trans (if_neg hformat)⟩

theorem xzdecode_cases (L : Liblzma σ) (ini : Ini) (data : List UInt8) (memoryLimit : Option ZendLong) :
    (∃ ret, ∀ fuel, xzdecode L ini fuel data memoryLimit = .ok ret) ∨
    ∃ limit, ∀ fuel, xzdecode L ini fuel data memoryLimit =
      phpXzDecodeString L fuel data limit >>= fun out => .ok (returnStr out) := by
  simp only [xzdecode]
  by_cases hnil : data.length = 0
  · exact Or.inl ⟨_, fun _ => if_pos hnil⟩
  · by_cases hlimit : memoryLimit.getD (-1) < -1
    · exact Or.inl ⟨_, fun _ => (if_neg hnil).trans (if_pos hlimit)⟩
    · exact Or.inr ⟨_, fun _ => (if_neg hnil).trans (if_neg hlimit)⟩

/-- **Every call keeps the process sound**, and none faults. -/
theorem api_sound {L : Liblzma σ} {P : Option (UInt32 × LzmaFilter) → σ → Prop} {self : Process σ}
    (hL : CoderProperty L P) (hprops : FilterProperties L) (h : self.Sound P) (fuel : Nat) (op : ApiOp) :
    Sat (api L fuel self op) (fun p => p.2.Sound P) (fun _ => False) := by
  cases op with
  | new cls => exact Process.create_sound h (Process.createObject_internal cls) (Process.createObject_known cls)
  | encodeInit format options =>
    exact Process.initObject_sat h .encodeContext (Process.made_encodeContext hL)
  | decodeInit format options =>
    exact Process.initObject_sat h .decodeContext (Process.made_decodeContext hL)
  | call handle op => exact Process.call_sat hL hprops h fuel handle op
  | clone handle =>
    show (self.clone handle).2.Sound P
    unfold Process.clone
    split
    · exact h
    · exact Process.create_sound h rfl (Process.createObject_known .other)
    · exact h
  | release handle => exact (Process.destroy_sat h handle).bind fun _ hp => hp
  | encode data level format =>
    refine (sat_liftFault (Q := fun _ => True) ?_).bind fun _ _ => h
    rcases xzencode_cases L self.ini data level format with ⟨ret, heq⟩ | ⟨level', format', heq⟩
    · rw [heq]
      trivial
    · rw [heq]
      exact (phpXzEncodeString_sat L fuel data level' format').bind fun _ _ => trivial
  | decode data memoryLimit =>
    refine (sat_liftFault (Q := fun _ => True) ?_).bind fun _ _ => h
    rcases xzdecode_cases L self.ini data memoryLimit with ⟨ret, heq⟩ | ⟨limit, heq⟩
    · rw [heq]
      trivial
    · rw [heq]
      exact (phpXzDecodeString_sat L fuel data limit).bind fun _ _ => trivial
  | setCompressionLevel level => exact ⟨h.owns, h.coders, h.known⟩

/-- The invariant without a property of coders. -/
theorem coderProperty_true (L : Liblzma σ) : CoderProperty L fun _ _ => True :=
  ⟨fun _ _ _ _ _ _ => trivial, fun _ _ _ _ _ => trivial, fun _ _ _ _ _ => trivial⟩

/-- **No script misuses the memory of liblzma**, whatever the coders do: no run faults, so that no coder
is used or ended once it has been ended; after every run each coder has exactly one object and each
object's coder is there; and where all objects are gone, so are all coders. -/
theorem apiRun_sound {L : Liblzma σ} (hprops : FilterProperties L) (ini : Ini) (fuel : Nat)
    (ops : List ApiOp) :
    Sat (apiRun L fuel (.start ini) ops)
      (fun p => Owns ZendObject.internal p.2.objects p.2.coders ∧
        ((∀ handle, p.2.objects.get handle = none) → ∀ coder, p.2.coders.get coder = none))
      (fun _ => False) := by
  refine (Runs.perform_sat (Process.Sound fun _ _ => True)
    (fun _ op h => api_sound (coderProperty_true L) hprops h fuel op)
    (Process.start_sound _ ini) ops).mono ?_
  exact fun p h => ⟨h.owns, h.owns.none_left⟩

theorem pairLiblzma_filterProperties (c : Coder σ) (encoder decoder : σ) :
    FilterProperties (pairLiblzma c encoder decoder) where
  lzma1 opt n h := (Except.ok.inj h).symm
  lzma2 opt n h := (Except.ok.inj h).symm
  written filter n bytes hn hbytes := by
    obtain rfl := Except.ok.inj hn
    obtain rfl := Except.ok.inj hbytes
    rw [List.length_replicate]
    split <;> rfl

/-- A script that goes on with an object after its release. -/
theorem apiRun_released :
    (apiRun copyLiblzma 9 (.start {})
      [.encodeInit none none, .new .encodeContext, .call 0 (.encodeAdd [7, 8]), .clone 0, .release 0,
        .call 0 .encodeFinish, .call 1 .encodeFinish, .release 0, .release 1]).map (·.1) =
        .ok [.object 0, .object 1, .string [7, 8],
          .error "Trying to clone an uncloneable object of class XZEncodeContext", .null,
          .typeError 1 "must be of type object, null given", .returnFalse none, .null,
          .null] ∧
      Sat (apiRun copyLiblzma 9 (.start {})
        [.encodeInit none none, .new .encodeContext, .call 0 (.encodeAdd [7, 8]), .clone 0, .release 0,
          .call 0 .encodeFinish, .call 1 .encodeFinish, .release 0, .release 1])
        (fun p => Owns ZendObject.internal p.2.objects p.2.coders ∧
          ((∀ handle, p.2.objects.get handle = none) → ∀ coder, p.2.coders.get coder = none))
        (fun _ => False) :=
  ⟨by decide, apiRun_sound (pairLiblzma_filterProperties _ _ _) _ _ _⟩

end PhpExtXz
