/-
# PhpExtXz.Lib.Components — a machine made of components, and what one of them sees of a run.

`perform` performs a list of operations and returns what each of them returned. An invariant that every
operation keeps, and that excludes faults, holds after every run (`perform_sat`); if besides every
operation returns once the fuel is large enough (`Returns`), then so does every run (`perform_returns`),
and if it returns what an abstract machine says, so does the run (`perform_simulates`).

A component of a machine is a smaller machine, of which the state of the large one shows the state
(`view`) and whose operations some of the operations of the large one are (`own`). If these do to the
component what the smaller machine does, and the other ones leave it alone, then in every run of the
large machine, however the operations are interleaved, the component goes through a run of the smaller
one (`Component.perform`).

Nothing here mentions a particular program.
-/
import Mathlib.Data.List.Forall2
import PhpExtXz.Lib.FuelLoop

namespace PhpExtXz.Runs

open FuelLoop

universe u v w x

/-! ## Large enough fuel -/

section Returns

variable {α β : Type u} {ε : Type v} {x : Nat → Exec ε α} {Q Q' : α → Prop} {R : β → Prop} {a : α}

/-- From some fuel on, `x` returns one and the same result, which satisfies `Q`. -/
def Returns (x : Nat → Exec ε α) (Q : α → Prop) : Prop :=
  ∃ n a, (∀ fuel, n < fuel → x fuel = .ok a) ∧ Q a

theorem Returns.ok (h : Q a) : Returns (fun _ => (.ok a : Exec ε α)) Q :=
  ⟨0, a, fun _ _ => rfl, h⟩

theorem Returns.imp (h : Returns x Q) (himp : ∀ a, Q a → Q' a) : Returns x Q' := by
  obtain ⟨n, a, hx, ha⟩ := h
  exact ⟨n, a, hx, himp a ha⟩

/-- What holds of every result holds of this one. -/
theorem Returns.sat {F : ε → Prop} (h : Returns x Q) (hsat : ∀ fuel, Sat (x fuel) Q' F) :
    Returns x Q' := by
  obtain ⟨n, a, hx, -⟩ := h
  exact ⟨n, a, hx, (hsat (n + 1)).of_ok (hx (n + 1) (by omega))⟩

theorem Returns.bind {k : Nat → α → Exec ε β} (h : Returns x Q)
    (hk : ∀ a, Q a → Returns (fun fuel => k fuel a) R) : Returns (fun fuel => x fuel >>= k fuel) R := by
  obtain ⟨n, a, hx, ha⟩ := h
  obtain ⟨m, b, hb, hR⟩ := hk a ha
  refine ⟨max n m, b, fun fuel hfuel => ?_, hR⟩
  show x fuel >>= k fuel = .ok b
  rw [hx fuel (by omega), ok_bind]
  exact hb fuel (by omega)

/-- What has returned and does not depend on the fuel that was enough for it. -/
theorem Returns.of_ok {n : Nat} (hx : x n = .ok a) (hQ : Q a)
    (hmono : ∀ {n m a}, x n = .ok a → n ≤ m → x m = .ok a) : Returns x Q :=
  ⟨n, a, fun _ hfuel => hmono hx (Nat.le_of_lt hfuel), hQ⟩

/-- What ends, does not fault and does not depend on the fuel that was enough for it, returns. -/
theorem Returns.of_ends (hends : ∃ n, ∀ fuel, n < fuel → Ends (x fuel) fun _ => True)
    (hsat : ∀ fuel, Sat (x fuel) Q fun _ => False)
    (hmono : ∀ {n m a}, x n = .ok a → n ≤ m → x m = .ok a) : Returns x Q := by
  obtain ⟨n, hn⟩ := hends
  obtain ⟨a, ha, hQ⟩ := (hsat (n + 1)).returns (hn (n + 1) (by omega)).ne_outOfFuel
  exact .of_ok ha hQ hmono

/-- The same for what does not depend on the fuel at all. -/
theorem Returns.const {x : Exec ε α} (hends : Ends x fun _ => True) (hsat : Sat x Q fun _ => False) :
    Returns (fun _ => x) Q :=
  .of_ends ⟨0, fun _ _ => hends⟩ (fun _ => hsat) fun h _ => h

/-- For each one of a list. -/
theorem Returns.mapM {ι : Type w} {f : Nat → ι → Exec ε α} {Q : ι → α → Prop} {xs : List ι}
    (h : ∀ x ∈ xs, Returns (fun fuel => f fuel x) (Q x)) :
    Returns (fun fuel => xs.mapM (f fuel)) (List.Forall₂ Q xs) := by
  induction xs with
  | nil => exact .ok .nil
  | cons x xs ih =>
    rw [List.forall_mem_cons] at h
    simp only [List.mapM_cons]
    apply h.1.bind
    intro a ha
    apply (ih h.2).bind
    intro as has
    exact .ok (.cons ha has)

end Returns

/-! ## Performing operations -/

section Perform

variable {S : Type u} {Op : Type v} {R : Type u} {ε : Type x}

/-- Perform the operations one after the other: what they returned, and the state after the last. -/
def perform (run : S → Op → Exec ε (R × S)) : S → List Op → Exec ε (List R × S)
  | s, [] => .ok ([], s)
  | s, op :: ops => do
    let (r, s) ← run s op
    let (rs, s) ← perform run s ops
    pure (r :: rs, s)

variable {run : S → Op → Exec ε (R × S)} {s s' : S} {op : Op} {ops ops' : List Op} {rs : List R}

theorem perform_cons (run : S → Op → Exec ε (R × S)) (s : S) (op : Op) (ops : List Op) :
    perform run s (op :: ops) =
      run s op >>= fun p => perform run p.2 ops >>= fun q => .ok (p.1 :: q.1, q.2) := rfl

/-- A run with a first operation: it returned, and then the others did. -/
theorem perform_cons_eq_ok :
    perform run s (op :: ops) = .ok (rs, s') ↔
      ∃ r s₁ rs₁, run s op = .ok (r, s₁) ∧ perform run s₁ ops = .ok (rs₁, s') ∧ rs = r :: rs₁ := by
  rw [perform_cons, bind_eq_ok]
  constructor
  · rintro ⟨⟨r, s₁⟩, hop, h⟩
    obtain ⟨⟨rs₁, s₂⟩, hops, h⟩ := bind_eq_ok.mp h
    cases h
    exact ⟨r, s₁, rs₁, hop, hops, rfl⟩
  · rintro ⟨r, s₁, rs₁, hop, hops, rfl⟩
    exact ⟨(r, s₁), hop, by rw [bind_eq_ok]; exact ⟨(rs₁, s'), hops, rfl⟩⟩

/-- A run of two lists is a run of the first and then one of the second. -/
theorem perform_append_eq_ok :
    perform run s (ops ++ ops') = .ok (rs, s') ↔
      ∃ rs₁ s₁ rs₂, perform run s ops = .ok (rs₁, s₁) ∧ perform run s₁ ops' = .ok (rs₂, s') ∧
        rs = rs₁ ++ rs₂ := by
  induction ops generalizing s rs with
  | nil =>
    constructor
    · intro h
      exact ⟨[], s, rs, rfl, h, rfl⟩
    · rintro ⟨rs₁, s₁, rs₂, h₁, h₂, rfl⟩
      cases h₁
      exact h₂
  | cons op ops ih =>
    rw [List.cons_append, perform_cons_eq_ok]
    constructor
    · rintro ⟨r, s₁, rs', hop, hrest, rfl⟩
      obtain ⟨rs₁, s₂, rs₂, h₁, h₂, rfl⟩ := ih.mp hrest
      exact ⟨r :: rs₁, s₂, rs₂, perform_cons_eq_ok.mpr ⟨r, s₁, rs₁, hop, h₁, rfl⟩, h₂, rfl⟩
    · rintro ⟨rs₁, s₂, rs₂, h₁, h₂, rfl⟩
      obtain ⟨r, s₁, rs', hop, hrest, rfl⟩ := perform_cons_eq_ok.mp h₁
      exact ⟨r, s₁, rs' ++ rs₂, hop, ih.mpr ⟨rs', s₂, rs₂, hrest, h₂, rfl⟩, rfl⟩

/-- There is one result for each operation. -/
theorem length_of_perform (h : perform run s ops = .ok (rs, s')) : rs.length = ops.length := by
  induction ops generalizing s rs with
  | nil =>
    cases h
    rfl
  | cons op ops ih =>
    obtain ⟨r, s₁, rs₁, -, hops, rfl⟩ := perform_cons_eq_ok.mp h
    rw [List.length_cons, List.length_cons, ih hops]

/-- A run whose operations do not depend on the fuel that was enough for them does not either. -/
theorem perform_mono {run run' : S → Op → Exec ε (R × S)} (hrun : ∀ s op p, run s op = .ok p → run' s op = .ok p)
    (h : perform run s ops = .ok (rs, s')) : perform run' s ops = .ok (rs, s') := by
  induction ops generalizing s rs with
  | nil => exact h
  | cons op ops ih =>
    obtain ⟨r, s₁, rs₁, hop, hops, rfl⟩ := perform_cons_eq_ok.mp h
    exact perform_cons_eq_ok.mpr ⟨r, s₁, rs₁, hrun s op _ hop, ih hops, rfl⟩

/-- A run whose results are seen in another way. -/
theorem perform_map {R' : Type u} (f : R → R') {rs' : List R'}
    (h : perform (fun s op => run s op >>= fun p => .ok (f p.1, p.2)) s ops = .ok (rs', s')) :
    ∃ rs, perform run s ops = .ok (rs, s') ∧ rs' = rs.map f := by
  induction ops generalizing s rs' with
  | nil =>
    cases h
    exact ⟨[], rfl, rfl⟩
  | cons op ops ih =>
    obtain ⟨r', s₁, rs₁', hop, hops, rfl⟩ := perform_cons_eq_ok.mp h
    obtain ⟨⟨r, s₂⟩, hrun, hpure⟩ := bind_eq_ok.mp hop
    obtain ⟨rfl, rfl⟩ := Prod.mk.inj (Except.ok.inj hpure)
    obtain ⟨rs, hrest, rfl⟩ := ih hops
    exact ⟨r :: rs, perform_cons_eq_ok.mpr ⟨r, _, rs, hrun, hrest, rfl⟩, rfl⟩

/-- Each operation is one that `Ok` admits in the state in which it is performed. -/
def Admitted (run : S → Op → Exec ε (R × S)) (Ok : S → Op → Prop) : S → List Op → Prop
  | _, [] => True
  | s, op :: ops => Ok s op ∧ ∀ r s', run s op = .ok (r, s') → Admitted run Ok s' ops

/-- What is admitted in every state. -/
theorem admitted_of_forall {Ok : S → Op → Prop} (h : ∀ s, ∀ op ∈ ops, Ok s op) : Admitted run Ok s ops := by
  induction ops generalizing s with
  | nil => trivial
  | cons op ops ih =>
    exact ⟨h s op List.mem_cons_self, fun r s' _ => ih fun s op hmem => h s op (List.mem_cons_of_mem _ hmem)⟩

/-- **Every run of admitted operations.** An invariant that each of them keeps holds after the run, and
where none of them faults but in the way `F` says, the run does not either. -/
theorem perform_sat_of_admitted {Ok : S → Op → Prop} (Inv : S → Prop) {F : ε → Prop}
    (hstep : ∀ s op, Inv s → Ok s op → Sat (run s op) (fun p => Inv p.2) F) (hs : Inv s) {ops : List Op}
    (hops : Admitted run Ok s ops) : Sat (perform run s ops) (fun p => Inv p.2) F := by
  induction ops generalizing s with
  | nil => exact hs
  | cons op ops ih =>
    rw [perform_cons]
    refine (hstep s op hs hops.1).bind_of_ok fun p hok hp => ?_
    exact (ih hp (hops.2 p.1 p.2 hok)).bind fun q hq => hq

/-- **Every run.** An invariant that every operation keeps without a fault holds after every run, and no
run faults. -/
theorem perform_sat (Inv : S → Prop) {F : ε → Prop}
    (hstep : ∀ s op, Inv s → Sat (run s op) (fun p => Inv p.2) F) (hs : Inv s) (ops : List Op) :
    Sat (perform run s ops) (fun p => Inv p.2) F := by
  have hall : Admitted run (fun _ _ => True) s ops := admitted_of_forall fun _ _ _ => trivial
  exact perform_sat_of_admitted Inv (fun s op hinv _ => hstep s op hinv) hs hall

/-- **Every run returns**, if every operation does and keeps an invariant. -/
theorem perform_returns {run : Nat → S → Op → Exec ε (R × S)} (Inv : S → Prop)
    (hstep : ∀ s op, Inv s → Returns (fun fuel => run fuel s op) fun p => Inv p.2) (hs : Inv s)
    (ops : List Op) : Returns (fun fuel => perform (run fuel) s ops) fun p => Inv p.2 := by
  induction ops generalizing s with
  | nil => exact .ok hs
  | cons op ops ih =>
    refine (hstep s op hs).bind fun p hp => ?_
    exact (ih hp).bind fun q hq => .ok hq

end Perform

/-! ## An abstract machine beside the runs -/

section Simulates

variable {S : Type u} {A : Type w} {Op : Type v} {R : Type u} {ε : Type x}

/-- Each operation is allowed in the state of the abstract machine `next` in which it is performed. -/
def Allowed (next : A → Op → A) (Pre : A → Op → Prop) : A → List Op → Prop
  | _, [] => True
  | a, op :: ops => Pre a op ∧ Allowed next Pre (next a op) ops

/-- Each operation returned what it should in that state. -/
def Conforms (next : A → Op → A) (Post : A → Op → R → Prop) : A → List Op → List R → Prop
  | _, [], [] => True
  | a, op :: ops, r :: rs => Post a op r ∧ Conforms next Post (next a op) ops rs
  | _, _, _ => False

/-- **Every run simulates the abstract machine**, if every operation that is allowed returns, with what it
should return and a state that stands for the next one. -/
theorem perform_simulates {run : Nat → S → Op → Exec ε (R × S)} {next : A → Op → A} {Pre : A → Op → Prop}
    {Post : A → Op → R → Prop} (Sim : A → S → Prop)
    (hstep : ∀ a s op, Sim a s → Pre a op →
      Returns (fun fuel => run fuel s op) fun p => Post a op p.1 ∧ Sim (next a op) p.2)
    {a : A} {s : S} (hs : Sim a s) {ops : List Op} (hops : Allowed next Pre a ops) :
    Returns (fun fuel => perform (run fuel) s ops)
      fun p => Conforms next Post a ops p.1 ∧ Sim (ops.foldl next a) p.2 := by
  induction ops generalizing a s with
  | nil => exact .ok ⟨trivial, hs⟩
  | cons op ops ih =>
    refine (hstep a s op hs hops.1).bind ?_
    rintro ⟨r, s₁⟩ ⟨hr, hs₁⟩
    refine (ih hs₁ hops.2).bind ?_
    rintro ⟨rs, s₂⟩ ⟨hrs, hs₂⟩
    exact .ok ⟨⟨hr, hrs⟩, hs₂⟩

end Simulates

/-! ## Components -/

section Components

variable {S : Type u} {T : Type u} {Op : Type v} {Op' : Type w} {R : Type u} {ε ε' : Type x}

/-- The results of the operations that `own` picks. -/
def resultsOf (own : Op → Option Op') : List Op → List R → List R
  | op :: ops, r :: rs => if (own op).isSome then r :: resultsOf own ops rs else resultsOf own ops rs
  | _, _ => []

/-- **`part` is a component of `run`**, in the states that satisfy `Inv` and as long as only operations
that satisfy `Keeps` are performed: the operations that `own` picks do to the component what `part` does,
and the other ones do not touch it. -/
structure Component (run : S → Op → Exec ε (R × S)) (part : T → Op' → Exec ε' (R × T))
    (Inv : S → Prop) (view : S → Option T) (own : Op → Option Op') (Keeps : Op → Prop) : Prop where
  inv : ∀ {s op r s'}, Inv s → Keeps op → run s op = .ok (r, s') → Inv s'
  mine : ∀ {s t op o r s'}, Inv s → view s = some t → own op = some o → run s op = .ok (r, s') →
    ∃ t', part t o = .ok (r, t') ∧ view s' = some t'
  others : ∀ {s t op r s'}, Inv s → view s = some t → own op = none → Keeps op →
    run s op = .ok (r, s') → view s' = some t

variable {run : S → Op → Exec ε (R × S)} {part : T → Op' → Exec ε' (R × T)} {Inv : S → Prop}
  {view : S → Option T} {own : Op → Option Op'} {Keeps : Op → Prop} {s s' : S} {t : T}
  {ops : List Op} {rs : List R}

/-- **A component goes through a run of its own**, whatever is done in between to the rest. -/
theorem Component.perform (h : Component run part Inv view own Keeps) (hs : Inv s)
    (hview : view s = some t) (hkeeps : ∀ op ∈ ops, Keeps op)
    (hrun : Runs.perform run s ops = .ok (rs, s')) :
    ∃ t', Runs.perform part t (ops.filterMap own) = .ok (resultsOf own ops rs, t') ∧
      view s' = some t' := by
  induction ops generalizing s t rs with
  | nil =>
    cases hrun
    exact ⟨t, rfl, hview⟩
  | cons op ops ih =>
    obtain ⟨r, s₁, rs₁, hop, hops, rfl⟩ := perform_cons_eq_ok.mp hrun
    have hs₁ := h.inv hs (hkeeps op List.mem_cons_self) hop
    have hlater : ∀ op ∈ ops, Keeps op := fun op hmem => hkeeps op (List.mem_cons_of_mem _ hmem)
    match howned : own op with
    | none =>
      have hview₁ := h.others hs hview howned (hkeeps op List.mem_cons_self) hop
      obtain ⟨t', hpart, hview'⟩ := ih hs₁ hview₁ hlater hops
      refine ⟨t', ?_, hview'⟩
      rw [List.filterMap_cons_none howned, resultsOf, howned]
      exact hpart
    | some o =>
      obtain ⟨t₁, hmine, hview₁⟩ := h.mine hs hview howned hop
      obtain ⟨t', hpart, hview'⟩ := ih hs₁ hview₁ hlater hops
      refine ⟨t', ?_, hview'⟩
      rw [List.filterMap_cons_some howned, resultsOf, howned]
      exact perform_cons_eq_ok.mpr ⟨r, t₁, _, hmine, hpart, rfl⟩

end Components

end PhpExtXz.Runs
