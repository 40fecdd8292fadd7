/-
# PhpExtXz.ContextProcess — the loop the two incremental contexts share.

`php_xz_encode_context_process` and `php_xz_decode_context_process` are one loop with two different
`switch` statements. `contextProcess` is that loop with the `switch` as a parameter.

`contextProcess_returns` is its rule: an invariant of the ledger that every call keeps, together with
a bound on the output, makes the loop return, and what it returns is what the coder emitted.
-/
import PhpExtXz.ZendString

namespace PhpExtXz

open FuelLoop

variable {σ : Type}

/-! ## The loop -/

/-- What the `switch (ret)` of the loop decides. -/
inductive Switch where
  /-- extend the string and go round again -/
  | grow
  /-- `finished = 1` -/
  | finished
  /-- release the string and return `NULL` -/
  | fail
  deriving DecidableEq, Repr

/-- What a call of the loop leaves: `obj->status`, `obj->strm`, and the string (`none` is `NULL`). -/
structure Processed (σ : Type) where
  status : LzmaRet
  strm : LzmaStream σ
  out : Option (List UInt8)

/-- One pass of `do … while (!finished)`; `switch` sees the return code and `avail_out`. -/
def processTurn (switch : LzmaRet → Nat → Switch) (c : Coder σ) (action : LzmaAction)
    (data : List UInt8) (w : OutString σ) :
    Exec MemoryFault (Turn (OutString σ) (Processed σ)) := do
  let (ret, w) ← w.code c action data
  let w := w.noteUsed
  match switch ret w.strm.availOut with
  | .grow => pure (.again w.grow)
  | .finished => pure (.leave ⟨ret, w.strm, some w.result⟩)
  | .fail => pure (.leave ⟨ret, w.strm, none⟩)

/-- The loop on a chunk: point the stream at the data and at a fresh string, then go round. -/
def contextProcess (switch : LzmaRet → Nat → Switch) (c : Coder σ) (fuel : Nat)
    (strm : LzmaStream σ) (data : List UInt8) (action : LzmaAction) :
    Exec MemoryFault (Processed σ) :=
  loop (processTurn switch c action data) fuel (.start strm data.length)

/-! ## Its rule -/

variable {c : Coder σ} {s₀ : σ} {switch : LzmaRet → Nat → Switch} {action : LzmaAction}
  {data : List UInt8} {strm : LzmaStream σ} {f₀ : Feed} {Inv : Feed → Prop}
  {Q F : Feed → LzmaRet → Prop} {total : Nat}

/-- What one pass comes to, by its call and the `switch`. -/
theorem processTurn_cases {w w' : OutString σ} {ret : LzmaRet} (switch : LzmaRet → Nat → Switch)
    (hcode : w.code c action data = .ok (ret, w')) :
    (switch ret w'.strm.availOut = .grow ∧
      processTurn switch c action data w = .ok (.again w'.noteUsed.grow)) ∨
    (switch ret w'.strm.availOut = .finished ∧
      processTurn switch c action data w = .ok (.leave ⟨ret, w'.strm, some w'.noteUsed.result⟩)) ∨
    (switch ret w'.strm.availOut = .fail ∧
      processTurn switch c action data w = .ok (.leave ⟨ret, w'.strm, none⟩)) := by
  simp only [processTurn, hcode, ok_bind, OutString.noteUsed_strm]
  cases hswitch : switch ret w'.strm.availOut with
  | grow => exact Or.inl ⟨rfl, rfl⟩
  | finished => exact Or.inr (Or.inl ⟨rfl, rfl⟩)
  | fail => exact Or.inr (Or.inr ⟨rfl, rfl⟩)

/-- What the rule asks of one call from a ledger that satisfies the invariant: the call is allowed,
and what the `switch` makes of it is as promised. -/
def CallKeeps (c : Coder σ) (s₀ : σ) (switch : LzmaRet → Nat → Switch) (action : LzmaAction)
    (given : List UInt8) (total : Nat) (Inv : Feed → Prop) (Q F : Feed → LzmaRet → Prop) : Prop :=
  ∀ f s input room r, Inv f → Reaches c s₀ f s → f.taken ++ input = given → 0 < room →
    c.code s action input room = r →
    f.Allows action input ∧
    match switch r.ret (room - r.emitted.length) with
    | .grow => Inv (f.step action input r) ∧ (f.emitted ++ r.emitted).length ≤ total
    | .finished => Q (f.step action input r) r.ret
    | .fail => F (f.step action input r) r.ret

/-- The invariant of the loop: the ledger satisfies `Inv`, `total_in` has kept step with it, and
there is room. -/
structure Processing (c : Coder σ) (s₀ : σ) (strm : LzmaStream σ) (f₀ : Feed) (data : List UInt8)
    (Inv : Feed → Prop) (w : OutString σ) : Prop where
  tracks : ∃ f, Inv f ∧ OutString.Track c s₀ f₀.emitted (f₀.taken ++ data) data f w ∧
    w.strm.totalIn + f₀.taken.length = strm.totalIn + f.taken.length
  room : 0 < w.strm.availOut

/-- What the loop leaves: a coder whose ledger has advanced by the input and output of the call. -/
structure Leaves (c : Coder σ) (s₀ : σ) (strm : LzmaStream σ) (f₀ : Feed) (given : List UInt8)
    (Q F : Feed → LzmaRet → Prop) (p : Processed σ) (f : Feed) : Prop where
  reaches : Reaches c s₀ f p.strm.internal
  taken_prefix : f.taken <+: given
  totalIn : p.strm.totalIn + f₀.taken.length = strm.totalIn + f.taken.length
  result : (∃ out, p.out = some out ∧ f.emitted = f₀.emitted ++ out ∧ Q f p.status) ∨
    (p.out = none ∧ F f p.status)

/-- One pass of the loop: it fills the string and goes round again with less to come, or it
leaves. -/
theorem processTurn_step (hswitch : ∀ ret n, switch ret n = .grow → n = 0)
    (hcall : CallKeeps c s₀ switch action (f₀.taken ++ data) total Inv Q F) {w : OutString σ}
    (h : Processing c s₀ strm f₀ data Inv w) :
    (∃ w', processTurn switch c action data w = .ok (.again w') ∧
      Processing c s₀ strm f₀ data Inv w' ∧
      total - (f₀.emitted ++ w'.produced).length < total - (f₀.emitted ++ w.produced).length) ∨
    (∃ p, processTurn switch c action data w = .ok (.leave p) ∧
      ∃ f, Leaves c s₀ strm f₀ (f₀.taken ++ data) Q F p f) := by
  obtain ⟨⟨f, hinv, ht, htotal⟩, hroom⟩ := h
  obtain ⟨r, hr⟩ : ∃ r, c.code w.strm.internal action (w.left data) w.strm.availOut = r := ⟨_, rfl⟩
  obtain ⟨hallow, hnext⟩ := hcall _ _ _ _ _ hinv ht.reaches ht.input hroom hr
  obtain ⟨w', hcode, ht', hstrm, -⟩ := ht.call hroom hr hallow
  have hprod : w'.produced = w.produced ++ r.emitted := ht.produced_step ht'
  have hout : w'.strm.availOut = w.strm.availOut - r.emitted.length := by
    rw [hstrm, LzmaStream.advance_availOut]
  have htotal' : w'.strm.totalIn + f₀.taken.length =
      strm.totalIn + (f.step action (w.left data) r).taken.length := by
    have hle := ht.taken_le hr
    rw [hstrm, LzmaStream.advance_totalIn]
    simp only [Feed.step, List.length_append, List.length_take, OutString.length_left ht.reads]
    omega
  rw [← hout] at hnext
  rcases processTurn_cases switch hcode with ⟨hsw, hturn⟩ | ⟨hsw, hturn⟩ | ⟨hsw, hturn⟩
  · rw [hsw] at hnext
    have hfull := hswitch _ _ hsw
    refine Or.inl ⟨w'.noteUsed.grow, hturn,
      ⟨⟨_, hnext.1, ht'.grow hfull, htotal'⟩, Nat.succ_pos _⟩, ?_⟩
    -- the call filled its room, so it emitted something
    have hle := hnext.2
    rw [ht.output, List.append_assoc, ← hprod] at hle
    rw [OutString.grow_produced ht'.fits]
    simp only [hprod, List.length_append] at hle ⊢
    omega
  · rw [hsw] at hnext
    refine Or.inr ⟨_, hturn, _, ht'.reaches, ht'.taken_prefix, htotal', Or.inl ⟨_, rfl, ?_, hnext⟩⟩
    rw [OutString.result_noteUsed ht'.fits, ← ht'.output]
  · rw [hsw] at hnext
    exact Or.inr ⟨_, hturn, _, ht'.reaches, ht'.taken_prefix, htotal', Or.inr ⟨rfl, hnext⟩⟩

/-- **The rule of the shared loop.** From a ledger that satisfies the invariant it returns, at any
fuel above the output still to come. -/
theorem contextProcess_returns (hswitch : ∀ ret n, switch ret n = .grow → n = 0)
    (hcall : CallKeeps c s₀ switch action (f₀.taken ++ data) total Inv Q F)
    (hinv : Inv f₀) (hreach : Reaches c s₀ f₀ strm.internal) (fuel : Nat)
    (hfuel : total - f₀.emitted.length < fuel) :
    ∃ p, contextProcess switch c fuel strm data action = .ok p ∧
      ∃ f, Leaves c s₀ strm f₀ (f₀.taken ++ data) Q F p f :=
  loop_returns (Processing c s₀ strm f₀ data Inv)
    (fun w => total - (f₀.emitted ++ w.produced).length) (fun _ h => processTurn_step hswitch hcall h)
    fuel (.start strm data.length)
    ⟨⟨f₀, hinv, .begin hreach, rfl⟩, Nat.succ_pos _⟩
    (by rw [OutString.start_produced, List.append_nil]; exact hfuel)

end PhpExtXz
