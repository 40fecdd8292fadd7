/-
# PhpExtXz.Lib.FuelLoop — loops with fuel over an `Except` of faults, and their two proof rules.

A `while` or `do … while` of a C program is one `body` that either goes round again or leaves
(`Turn`), run by `loop` with a fuel argument. A computation halts early for one of two reasons,
which the results must never confuse: the fuel of the *model* ran out (`Halt.outOfFuel`, nothing is
known about the program), or the *program* faulted (`Halt.fault`).

Three rules carry every loop proof of this development:

* `loop_sat` — partial correctness: an invariant kept by every turn holds, as a postcondition, of
  whatever the loop returns, at any fuel;
* `loop_returns` — total correctness: an invariant together with a measure that drops at every turn
  that goes round again makes the loop return at every fuel above the measure;
* `loop_ends` — the same up to faults, with the measure as a rank of the invariant: the fuel does not
  run out.

For what a loop has done by the time it begins a pass there are its earlier passes (`History`), and a
rule for invariants that speak about them (`History.invariant`); a loop that returned left in a pass that
has such a history (`loop_history`).

Nothing here mentions a particular program.
-/
import Mathlib.Data.Nat.Basic

namespace PhpExtXz.FuelLoop

universe u v w

/-! ## Computations that may halt early -/

/-- Why a computation stopped without a result. -/
inductive Halt (ε : Type u) where
  | outOfFuel : Halt ε
  | fault : ε → Halt ε
  deriving Repr, DecidableEq

/-- A computation with a result, or the reason why there is none. -/
abbrev Exec (ε : Type u) (α : Type v) := Except (Halt ε) α

variable {ε : Type u} {α β : Type v}

@[simp]
theorem ok_bind (a : α) (k : α → Exec ε β) : (Except.ok a >>= k) = k a := rfl

@[simp]
theorem error_bind (e : Halt ε) (k : α → Exec ε β) :
    ((Except.error e : Exec ε α) >>= k) = Except.error e := rfl

@[simp]
theorem pure_eq_ok (a : α) : (pure a : Exec ε α) = Except.ok a := rfl

/-- Inversion of `>>=`: a sequence that returned went through a result of its first part. -/
theorem bind_eq_ok {x : Exec ε α} {k : α → Exec ε β} {b : β} :
    (x >>= k) = .ok b ↔ ∃ a, x = .ok a ∧ k a = .ok b := by
  cases x with
  | error e => simp
  | ok a => simp

/-- Partial correctness of one computation: a result satisfies `Q`, a fault satisfies `F`, and
running out of fuel says nothing. -/
def Sat (x : Exec ε α) (Q : α → Prop) (F : ε → Prop) : Prop :=
  match x with
  | .ok a => Q a
  | .error .outOfFuel => True
  | .error (.fault e) => F e

variable {x : Exec ε α} {Q Q' : α → Prop} {R : β → Prop} {F F' : ε → Prop}

@[simp]
theorem sat_outOfFuel : Sat (.error .outOfFuel : Exec ε α) Q F := trivial

/-- Nothing is known about the computation. -/
theorem sat_any (x : Exec ε α) : Sat x (fun _ => True) fun _ => True := by
  match x with
  | .ok a => trivial
  | .error .outOfFuel => trivial
  | .error (.fault e) => trivial

theorem Sat.bind {k : α → Exec ε β} (h : Sat x Q F) (hk : ∀ a, Q a → Sat (k a) R F) :
    Sat (x >>= k) R F := by
  match x with
  | .ok a => exact hk a h
  | .error .outOfFuel => trivial
  | .error (.fault e) => exact h

/-- The same, where the second computation may rely on what the first one returned. -/
theorem Sat.bind_of_ok {k : α → Exec ε β} (h : Sat x Q F) (hk : ∀ a, x = .ok a → Q a → Sat (k a) R F) :
    Sat (x >>= k) R F := by
  match x with
  | .ok a => exact hk a rfl h
  | .error .outOfFuel => trivial
  | .error (.fault e) => exact h

theorem Sat.mono (h : Sat x Q F) (hQ : ∀ a, Q a → Q' a) : Sat x Q' F := by
  match x with
  | .ok a => exact hQ a h
  | .error .outOfFuel => trivial
  | .error (.fault e) => exact h

theorem Sat.weaken (h : Sat x Q F) (hQ : ∀ a, Q a → Q' a) (hF : ∀ e, F e → F' e) : Sat x Q' F' := by
  match x with
  | .ok a => exact hQ a h
  | .error .outOfFuel => trivial
  | .error (.fault e) => exact hF e h

theorem Sat.and (h : Sat x Q F) (h' : Sat x Q' F') : Sat x (fun a => Q a ∧ Q' a) F' := by
  match x with
  | .ok a => exact ⟨h, h'⟩
  | .error .outOfFuel => trivial
  | .error (.fault e) => exact h'

/-- What two statements say of the faults. -/
theorem Sat.fault_and (h : Sat x Q F) (h' : Sat x Q' F') : Sat x Q (fun e => F e ∧ F' e) := by
  match x with
  | .ok a => exact h
  | .error .outOfFuel => trivial
  | .error (.fault e) => exact ⟨h, h'⟩

/-- Reading a result off a partial correctness statement. -/
theorem Sat.of_ok (h : Sat x Q F) {a : α} (hx : x = .ok a) : Q a := by
  subst hx; exact h

/-! ## The loop -/

/-- One pass through a loop body: go round again, or leave the loop. -/
inductive Turn (α : Type v) (β : Type w) where
  | again : α → Turn α β
  | leave : β → Turn α β

/-- Run `body` until it leaves the loop; each pass costs one unit of fuel. -/
def loop {α : Type v} {β : Type v} (body : α → Exec ε (Turn α β)) : Nat → α → Exec ε β
  | 0, _ => .error .outOfFuel
  | n + 1, a =>
    match body a with
    | .error e => .error e
    | .ok (.again a') => loop body n a'
    | .ok (.leave b) => .ok b

variable {body : α → Exec ε (Turn α β)}

/-- What an invariant asks of one pass: it is kept by going round, and leaving gives `R`. -/
def TurnSat (Inv : α → Prop) (R : β → Prop) : Turn α β → Prop
  | .again a => Inv a
  | .leave b => R b

/-- **Partial correctness of loops.** An invariant of the body is an invariant of the loop. -/
theorem loop_sat (Inv : α → Prop) (hbody : ∀ a, Inv a → Sat (body a) (TurnSat Inv R) F) :
    ∀ (n : Nat) (a : α), Inv a → Sat (loop body n a) R F := by
  intro n
  induction n with
  | zero => intro a _; trivial
  | succ n ih =>
    intro a ha
    have hturn := hbody a ha
    rw [loop]
    match hb : body a with
    | .ok (.again a') => exact ih a' (by rw [hb] at hturn; exact hturn)
    | .ok (.leave b) => rw [hb] at hturn; exact hturn
    | .error .outOfFuel => trivial
    | .error (.fault e) => rw [hb] at hturn; exact hturn

/-- **Total correctness of loops.** If every pass from an invariant state either goes round again
with a smaller measure or leaves with `R`, then any fuel above the measure is enough. -/
theorem loop_returns (Inv : α → Prop) (μ : α → Nat)
    (hbody : ∀ a, Inv a →
      (∃ a', body a = .ok (.again a') ∧ Inv a' ∧ μ a' < μ a) ∨
      (∃ b, body a = .ok (.leave b) ∧ R b)) :
    ∀ (n : Nat) (a : α), Inv a → μ a < n → ∃ b, loop body n a = .ok b ∧ R b := by
  intro n
  induction n with
  | zero => intro a _ hn; omega
  | succ n ih =>
    intro a ha hn
    rcases hbody a ha with ⟨a', hb, hinv, hlt⟩ | ⟨b, hb, hR⟩
    · obtain ⟨b, hloop, hR⟩ := ih a' hinv (by omega)
      exact ⟨b, by rw [loop, hb]; exact hloop, hR⟩
    · exact ⟨b, by rw [loop, hb], hR⟩

/-- The states in which a loop that starts in `a` begins a pass, whatever its fuel. -/
inductive Passes (body : α → Exec ε (Turn α β)) (a : α) : α → Prop
  | first : Passes body a a
  | next {b b' : α} : Passes body a b → body b = .ok (.again b') → Passes body a b'

/-- **Every pass.** An invariant of the body holds when a pass begins, also in a loop that never
ends. -/
theorem Passes.invariant {a b : α} (h : Passes body a b) (Inv : α → Prop) (ha : Inv a)
    (hbody : ∀ a a', Inv a → body a = .ok (.again a') → Inv a') : Inv b := by
  induction h with
  | first => exact ha
  | next _ hturn ih => exact hbody _ _ ih hturn

/-- The loop that started in `a` begins a pass in the last state, and the passes before it began in the
listed ones. -/
inductive History (body : α → Exec ε (Turn α β)) (a : α) : List α → α → Prop
  | first : History body a [] a
  | next {past : List α} {b b' : α} :
      History body a past b → body b = .ok (.again b') → History body a (past ++ [b]) b'

variable {a a' b : α} {past : List α}

/-- The first pass put in front of a history. -/
theorem History.cons (hturn : body a = .ok (.again a')) (h : History body a' past b) :
    History body a (a :: past) b := by
  induction h with
  | first => exact History.next .first hturn
  | next _ hlast ih => exact History.next ih hlast

/-- **Every pass, with the passes before it.** -/
theorem History.invariant (h : History body a past b) (Inv : List α → α → Prop) (hstart : Inv [] a)
    (hbody : ∀ past b b', Inv past b → body b = .ok (.again b') → Inv (past ++ [b]) b') :
    Inv past b := by
  induction h with
  | first => exact hstart
  | next _ hturn ih => exact hbody _ _ _ ih hturn

/-- A loop that returned left in one of its passes. -/
theorem loop_history {n : Nat} {res : β} (h : loop body n a = .ok res) :
    ∃ past b, History body a past b ∧ body b = .ok (.leave res) := by
  induction n generalizing a with
  | zero => cases h
  | succ n ih =>
    rw [loop] at h
    match hturn : body a with
    | .error e => rw [hturn] at h; cases h
    | .ok (.again a') =>
      rw [hturn] at h
      obtain ⟨past, b, hpast, hleave⟩ := ih h
      exact ⟨a :: past, b, hpast.cons hturn, hleave⟩
    | .ok (.leave res') =>
      rw [hturn] at h
      cases h
      exact ⟨[], a, .first, hturn⟩

/-- A result does not depend on the fuel that was enough for it. -/
theorem loop_mono {n m : Nat} {a : α} {b : β} (h : loop body n a = .ok b) (hnm : n ≤ m) :
    loop body m a = .ok b := by
  induction n generalizing m a with
  | zero => cases h
  | succ n ih =>
    obtain ⟨m, rfl⟩ : ∃ k, m = k + 1 := ⟨m - 1, by omega⟩
    rw [loop] at h ⊢
    match hturn : body a with
    | .error e => rw [hturn] at h; cases h
    | .ok (.again a') => rw [hturn] at h; exact ih h (by omega)
    | .ok (.leave b') => rw [hturn] at h; exact h

/-- The same for a body that has fuel of its own. -/
theorem loop_more {body' : α → Exec ε (Turn α β)} {n m : Nat} {a : α} {b : β}
    (hbody : ∀ a t, body a = .ok t → body' a = .ok t) (h : loop body n a = .ok b) (hnm : n ≤ m) :
    loop body' m a = .ok b := by
  induction n generalizing m a with
  | zero => cases h
  | succ n ih =>
    obtain ⟨m, rfl⟩ : ∃ k, m = k + 1 := ⟨m - 1, by omega⟩
    rw [loop] at h ⊢
    match hturn : body a with
    | .error e => rw [hturn] at h; cases h
    | .ok (.again a') =>
      rw [hturn] at h
      rw [hbody a _ hturn]
      exact ih h (by omega)
    | .ok (.leave b') =>
      rw [hturn] at h
      rw [hbody a _ hturn]
      exact h

/-! ## Ending -/

/-- Total correctness up to faults: the fuel was enough, and a result satisfies `Q`. -/
def Ends (x : Exec ε α) (Q : α → Prop) : Prop :=
  match x with
  | .ok a => Q a
  | .error .outOfFuel => False
  | .error (.fault _) => True

theorem Ends.bind {k : α → Exec ε β} (h : Ends x Q) (hk : ∀ a, Q a → Ends (k a) R) :
    Ends (x >>= k) R := by
  match x with
  | .ok a => exact hk a h
  | .error .outOfFuel => exact h.elim
  | .error (.fault e) => trivial

theorem Ends.mono (h : Ends x Q) (hQ : ∀ a, Q a → Q' a) : Ends x Q' := by
  match x with
  | .ok a => exact hQ a h
  | .error .outOfFuel => exact h
  | .error (.fault e) => trivial

theorem Ends.ne_outOfFuel (h : Ends x Q) : x ≠ .error .outOfFuel := by
  rintro rfl
  exact h

/-- Reading a result off. -/
theorem Ends.of_ok (h : Ends x Q) {a : α} (hx : x = .ok a) : Q a := by
  subst hx
  exact h

/-- What does not fault and does not run out of fuel returns. -/
theorem Sat.returns (h : Sat x Q fun _ => False) (hne : x ≠ .error .outOfFuel) :
    ∃ a, x = .ok a ∧ Q a := by
  match x with
  | .ok a => exact ⟨a, rfl, h⟩
  | .error .outOfFuel => exact absurd rfl hne
  | .error (.fault e) => exact h.elim

/-- **Loops that end.** An invariant with a rank that drops at every pass that goes round again: any fuel
above the rank is enough. -/
theorem loop_ends (Inv : Nat → α → Prop)
    (hbody : ∀ n a, Inv n a → Ends (body a) (TurnSat (fun a' => ∃ m, m < n ∧ Inv m a') R)) :
    ∀ (fuel n : Nat) (a : α), Inv n a → n < fuel → Ends (loop body fuel a) R := by
  intro fuel
  induction fuel with
  | zero => intro n a _ hlt; omega
  | succ fuel ih =>
    intro n a ha hlt
    have hturn := hbody n a ha
    rw [loop]
    match hb : body a with
    | .ok (.again a') =>
      rw [hb] at hturn
      obtain ⟨m, hm, ha'⟩ : ∃ m, m < n ∧ Inv m a' := hturn
      exact ih m a' ha' (by omega)
    | .ok (.leave b) => rw [hb] at hturn; exact hturn
    | .error .outOfFuel => rw [hb] at hturn; exact hturn
    | .error (.fault e) => trivial

end PhpExtXz.FuelLoop
