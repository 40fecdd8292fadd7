/-
# PhpExtXz.Lib.CString — C strings: their end, a split at a character, numerals.

A C string is what stands before the first NUL. `strtoul` reads the integer at the start of a string
and wraps or clamps it to 64 bits; `leadingInt` is that integer itself. `decimal` prints an integer the
way `%ld` does, and reading it back gives the integer again (`leadingInt_decimal`).

Nothing here mentions a particular program.
-/
import Mathlib.Data.List.TakeWhile
import Mathlib.Data.Nat.Digits.Lemmas
import Mathlib.Algebra.Ring.Int.Defs

namespace PhpExtXz.CString

/-- The characters of a literal as bytes. -/
def bytes (cs : List Char) : List UInt8 := cs.map fun c => UInt8.ofNat c.toNat

/-- The string that starts at a pointer: everything before the first NUL. -/
def cString (s : List UInt8) : List UInt8 := s.takeWhile (· ≠ 0)

/-- What stands before the first `c`. -/
def before (c : UInt8) (s : List UInt8) : List UInt8 := s.takeWhile (· ≠ c)

/-- What stands after the first `c`, if there is one. -/
def after (c : UInt8) (s : List UInt8) : Option (List UInt8) :=
  match s.dropWhile (· ≠ c) with
  | [] => none
  | _ :: rest => some rest

/-! ## Numerals -/

/-- `isspace` in the C locale. -/
def isSpace (b : UInt8) : Bool := b = 32 ∨ (9 ≤ b ∧ b ≤ 13)

/-- `isdigit`. -/
def isDigit (b : UInt8) : Bool := 48 ≤ b ∧ b ≤ 57

/-- The value of a string of digits. -/
def digitsValue (ds : List UInt8) : Nat := Nat.ofDigits 10 (ds.map fun b => b.toNat - 48).reverse

/-- The natural number at the start of a string, if there is a digit. -/
def leadingNat (s : List UInt8) : Option Nat :=
  match s.takeWhile isDigit with
  | [] => none
  | d :: ds => some (digitsValue (d :: ds))

/-- The integer at the start of a string: white space, a sign, digits. -/
def leadingInt (s : List UInt8) : Option Int :=
  match s.dropWhile isSpace with
  | [] => none
  | c :: rest =>
    if c = 45 then (leadingNat rest).map fun n : Nat => -(n : Int)
    else if c = 43 then (leadingNat rest).map fun n : Nat => (n : Int)
    else (leadingNat (c :: rest)).map fun n : Nat => (n : Int)

/-- `strtoul(s, NULL, 10)`: the integer modulo `2 ^ 64`, `ULONG_MAX` where it is out of range, and 0
where there is none. -/
def strtoul (s : List UInt8) : UInt64 :=
  match leadingInt s with
  | none => 0
  | some n => if n.natAbs < 2 ^ 64 then .ofNat (n % 2 ^ 64).toNat else .ofNat (2 ^ 64 - 1)

/-- A natural number in base 10. -/
def decimalNat (n : Nat) : List UInt8 :=
  if n = 0 then [48] else (Nat.digits 10 n).reverse.map fun d => UInt8.ofNat (48 + d)

/-- `%ld`. -/
def decimal (n : Int) : List UInt8 :=
  if n < 0 then 45 :: decimalNat n.natAbs else decimalNat n.natAbs

/-! ## Printing and reading back -/

theorem digit_toNat {d : Nat} (h : d < 10) : (UInt8.ofNat (48 + d)).toNat = 48 + d := by
  rw [UInt8.toNat_ofNat']
  omega

theorem isDigit_iff {b : UInt8} : isDigit b = true ↔ 48 ≤ b.toNat ∧ b.toNat ≤ 57 := by
  unfold isDigit
  rw [decide_eq_true_eq, UInt8.le_iff_toNat_le, UInt8.le_iff_toNat_le]
  rfl

theorem isDigit_digit {d : Nat} (h : d < 10) : isDigit (UInt8.ofNat (48 + d)) = true := by
  rw [isDigit_iff, digit_toNat h]
  omega

/-- A digit is neither white space nor a sign. -/
theorem not_isSpace_of_isDigit {b : UInt8} (h : isDigit b = true) :
    isSpace b = false ∧ b ≠ 45 ∧ b ≠ 43 := by
  rw [isDigit_iff] at h
  refine ⟨?_, ?_, ?_⟩
  · unfold isSpace
    rw [decide_eq_false_iff_not, UInt8.le_iff_toNat_le, UInt8.le_iff_toNat_le, ← UInt8.toNat_inj]
    show ¬ (b.toNat = 32 ∨ (9 ≤ b.toNat ∧ b.toNat ≤ 13))
    omega
  · rintro rfl
    exact absurd h (by decide)
  · rintro rfl
    exact absurd h (by decide)

theorem decimalNat_ne_nil (n : Nat) : decimalNat n ≠ [] := by
  unfold decimalNat
  split
  · exact List.cons_ne_nil _ _
  · rename_i h
    have hne : Nat.digits 10 n ≠ [] := Nat.digits_ne_nil_iff_ne_zero.mpr h
    rw [ne_eq, List.map_eq_nil_iff, List.reverse_eq_nil_iff]
    exact hne

theorem isDigit_of_mem_decimalNat {n : Nat} {b : UInt8} (h : b ∈ decimalNat n) :
    isDigit b = true := by
  unfold decimalNat at h
  split at h
  · rw [List.mem_singleton.mp h]
    rfl
  · obtain ⟨d, hd, rfl⟩ := List.mem_map.mp h
    exact isDigit_digit (Nat.digits_lt_base (by decide) (List.mem_reverse.mp hd))

theorem digitsValue_decimalNat (n : Nat) : digitsValue (decimalNat n) = n := by
  unfold decimalNat
  split
  · rename_i h
    rw [h]
    rfl
  · have hdigits : (Nat.digits 10 n).map ((fun b : UInt8 => b.toNat - 48) ∘ fun d => UInt8.ofNat (48 + d)) =
        Nat.digits 10 n := by
      refine (List.map_congr_left ?_).trans (List.map_id _)
      intro d hd
      show (UInt8.ofNat (48 + d)).toNat - 48 = d
      rw [digit_toNat (Nat.digits_lt_base (by decide) hd)]
      omega
    rw [digitsValue, List.map_map, ← List.map_reverse, List.reverse_reverse, hdigits, Nat.ofDigits_digits]

theorem leadingNat_decimalNat (n : Nat) : leadingNat (decimalNat n) = some n := by
  have hall : (decimalNat n).takeWhile isDigit = decimalNat n :=
    List.takeWhile_eq_self_iff.mpr fun _ h => isDigit_of_mem_decimalNat h
  have hvalue := digitsValue_decimalNat n
  unfold leadingNat
  rw [hall]
  match hd : decimalNat n with
  | [] => exact absurd hd (decimalNat_ne_nil n)
  | d :: ds =>
    rw [hd] at hvalue
    exact congrArg some hvalue

/-- **What `%ld` prints is read back.** -/
theorem leadingInt_decimal (n : Int) : leadingInt (decimal n) = some n := by
  unfold decimal
  split
  · rename_i hneg
    show (leadingNat (decimalNat n.natAbs)).map (fun n : Nat => -(n : Int)) = some n
    rw [leadingNat_decimalNat, Option.map_some]
    exact congrArg some (by omega)
  · rename_i hnonneg
    match hd : decimalNat n.natAbs with
    | [] => exact absurd hd (decimalNat_ne_nil _)
    | d :: ds =>
      have hdigit : isDigit d = true := isDigit_of_mem_decimalNat (hd ▸ List.mem_cons_self)
      obtain ⟨hspace, hminus, hplus⟩ := not_isSpace_of_isDigit hdigit
      unfold leadingInt
      rw [List.dropWhile_cons, if_neg (by rw [hspace]; decide)]
      show (if d = 45 then _ else if d = 43 then _ else _) = some n
      rw [if_neg hminus, if_neg hplus, ← hd, leadingNat_decimalNat, Option.map_some]
      exact congrArg some (by omega)

theorem zero_not_mem_decimal (n : Int) : 0 ∉ decimal n := by
  have hnat : 0 ∉ decimalNat n.natAbs := by
    intro h
    exact absurd (isDigit_of_mem_decimalNat h) (by decide)
  unfold decimal
  split
  · rw [List.mem_cons]
    exact fun h => h.elim (by decide) hnat
  · exact hnat

theorem length_decimal {n : Int} (h : n.natAbs < 10 ^ 19) : (decimal n).length ≤ 20 := by
  have hnat : (decimalNat n.natAbs).length ≤ 19 := by
    unfold decimalNat
    split
    · exact (by decide : 1 ≤ 19)
    · rw [List.length_map, List.length_reverse]
      exact (Nat.digits_length_le_iff (by decide) _).mpr h
  unfold decimal
  split
  · rw [List.length_cons]
    omega
  · omega

/-! ## What follows a numeral -/

/-- A character that is no digit ends a numeral. -/
theorem leadingNat_append {c : UInt8} (hc : isDigit c = false) (s t : List UInt8) :
    leadingNat (s ++ c :: t) = leadingNat s := by
  have hnone : (c :: t).takeWhile isDigit = [] := by
    rw [List.takeWhile_cons, if_neg (by rw [hc]; decide)]
  have hsame : (s ++ c :: t).takeWhile isDigit = s.takeWhile isDigit := by
    rw [List.takeWhile_append, hnone, List.append_nil]
    split
    · rename_i hlen
      exact ((List.takeWhile_prefix isDigit).eq_of_length hlen).symm
    · rfl
  unfold leadingNat
  rw [hsame]

/-- So does one that is no part of an integer. -/
theorem leadingInt_append {c : UInt8} (hc : isDigit c = false) (hspace : isSpace c = false)
    (hminus : c ≠ 45) (hplus : c ≠ 43) (s t : List UInt8) :
    leadingInt (s ++ c :: t) = leadingInt s := by
  unfold leadingInt
  rw [List.dropWhile_append]
  match hs : s.dropWhile isSpace with
  | [] =>
    have hnone : leadingNat (c :: t) = none := by
      unfold leadingNat
      rw [List.takeWhile_cons, if_neg (by rw [hc]; decide)]
    rw [List.isEmpty_nil, if_pos rfl, List.dropWhile_cons, if_neg (by rw [hspace]; decide)]
    show (if c = 45 then _ else if c = 43 then _ else (leadingNat (c :: t)).map _) = none
    rw [if_neg hminus, if_neg hplus, hnone]
    rfl
  | d :: rest =>
    rw [List.isEmpty_cons, if_neg (by decide)]
    show (if d = 45 then (leadingNat (rest ++ c :: t)).map _
      else if d = 43 then (leadingNat (rest ++ c :: t)).map _
      else (leadingNat (d :: rest ++ c :: t)).map _) = _
    rw [leadingNat_append hc, leadingNat_append hc]

/-- More digits do not make a number smaller. -/
theorem leadingNat_le {s : List UInt8} {n : Nat} (h : leadingNat s = some n) (t : List UInt8) :
    ∃ m, leadingNat (s ++ t) = some m ∧ n ≤ m := by
  obtain ⟨more, hmore⟩ : s.takeWhile isDigit <+: (s ++ t).takeWhile isDigit := by
    rw [List.takeWhile_append]
    split
    · exact (List.takeWhile_prefix isDigit).trans (List.prefix_append _ _)
    · exact List.prefix_refl _
  unfold leadingNat at h ⊢
  rw [← hmore]
  match hs : s.takeWhile isDigit with
  | [] =>
    rw [hs] at h
    cases h
  | d :: ds =>
    rw [hs] at h
    cases h
    refine ⟨_, rfl, ?_⟩
    -- the further digits are the low ones
    show digitsValue (d :: ds) ≤ digitsValue (d :: ds ++ more)
    unfold digitsValue
    rw [List.map_append, List.reverse_append, Nat.ofDigits_append]
    have hpow : 0 < 10 ^ ((more.map fun b : UInt8 => b.toNat - 48).reverse).length :=
      Nat.pow_pos (by decide)
    exact (Nat.le_mul_of_pos_left _ hpow).trans (Nat.le_add_left _ _)

/-- With more characters after it there still is an integer, and a negative one stays negative. -/
theorem leadingInt_more {s : List UInt8} {n : Int} (h : leadingInt s = some n) (t : List UInt8) :
    ∃ m, leadingInt (s ++ t) = some m ∧ (n < 0 → m < 0) := by
  unfold leadingInt at h ⊢
  rw [List.dropWhile_append]
  match hs : s.dropWhile isSpace with
  | [] =>
    rw [hs] at h
    cases h
  | c :: rest =>
    rw [hs] at h
    rw [List.isEmpty_cons, if_neg (by decide)]
    show ∃ m, (if c = 45 then (leadingNat (rest ++ t)).map _
      else if c = 43 then (leadingNat (rest ++ t)).map _
      else (leadingNat (c :: rest ++ t)).map _) = some m ∧ _
    by_cases hminus : c = 45
    · simp only [if_pos hminus, Option.map_eq_some_iff] at h
      obtain ⟨k, hk, rfl⟩ := h
      obtain ⟨m, hm, hle⟩ := leadingNat_le hk t
      rw [if_pos hminus, hm]
      exact ⟨-(m : Int), rfl, fun _ => by omega⟩
    · -- without a minus no integer is negative
      simp only [if_neg hminus] at h ⊢
      by_cases hplus : c = 43
      · simp only [if_pos hplus, Option.map_eq_some_iff] at h ⊢
        obtain ⟨k, hk, rfl⟩ := h
        obtain ⟨m, hm, -⟩ := leadingNat_le hk t
        exact ⟨m, ⟨m, hm, rfl⟩, fun hneg => by omega⟩
      · simp only [if_neg hplus, Option.map_eq_some_iff] at h ⊢
        obtain ⟨k, hk, rfl⟩ := h
        obtain ⟨m, hm, -⟩ := leadingNat_le hk t
        exact ⟨m, ⟨m, hm, rfl⟩, fun hneg => by omega⟩

/-! ## `strtoul` as a `long` -/

theorem toInt_toInt64 (x : UInt64) :
    x.toInt64.toInt = if x.toNat < 2 ^ 63 then (x.toNat : Int) else x.toNat - 2 ^ 64 := by
  have hbits : x.toInt64.toInt = x.toBitVec.toInt := rfl
  have hnat : x.toBitVec.toNat = x.toNat := rfl
  rw [hbits, BitVec.toInt_eq_toNat_cond, hnat]
  split <;> split <;> omega

/-- What `strtoul` gives for an integer, as a `long`, where it is not clamped. -/
theorem toInt_strtoul {s : List UInt8} {n : Int} (h : leadingInt s = some n)
    (hrange : -2 ^ 63 ≤ n) (hclamp : n < 2 ^ 63 ∨ 0 ≤ (strtoul s).toInt64.toInt) :
    (strtoul s).toInt64.toInt = n := by
  have hvalue : ((strtoul s).toNat : Int) = if n.natAbs < 2 ^ 64 then n % 2 ^ 64 else 2 ^ 64 - 1 := by
    unfold strtoul
    rw [h]
    show ((if n.natAbs < 2 ^ 64 then _ else _ : UInt64).toNat : Int) = _
    split
    · rw [UInt64.toNat_ofNat']
      omega
    · rfl
  rw [toInt_toInt64] at hclamp ⊢
  split at hvalue <;> split at hclamp <;> split <;> omega

theorem strtoul_congr {s t : List UInt8} (h : leadingInt s = leadingInt t) : strtoul s = strtoul t := by
  unfold strtoul
  rw [h]

theorem strtoul_none {s : List UInt8} (h : leadingInt s = none) : (strtoul s).toInt64.toInt = 0 := by
  unfold strtoul
  rw [h]
  rfl

/-- What `strtoul` makes of a string that has been cut is its integer, or what stands for one that is
missing, exactly where the integer is not negative and is not cut. -/
theorem strtoul_cut_iff {cut : List UInt8} (rest : List UInt8) (missing : Int)
    (hlong : 0 ≤ (strtoul cut).toInt64.toInt) :
    (strtoul cut).toInt64.toInt = (leadingInt (cut ++ rest)).getD missing ↔
      match leadingInt (cut ++ rest) with
      | none => missing = 0
      | some n => 0 ≤ n ∧ (leadingInt cut).getD 0 = n := by
  match hcut : leadingInt cut with
  | none =>
    rw [strtoul_none hcut]
    match leadingInt (cut ++ rest) with
    | none => exact eq_comm
    | some n =>
      show 0 = n ↔ 0 ≤ n ∧ 0 = n
      omega
  | some k =>
    obtain ⟨n, hn, hneg⟩ := leadingInt_more hcut rest
    rw [hn]
    show (strtoul cut).toInt64.toInt = n ↔ 0 ≤ n ∧ k = n
    by_cases hk : 0 ≤ k
    · rw [toInt_strtoul hcut (by omega) (Or.inr hlong)]
      omega
    · have := hneg (by omega)
      omega

/-! ## Splitting at a character -/

variable {c : UInt8} {s pre rest : List UInt8}

theorem not_mem_before : c ∉ before c s := by
  intro h
  have hne := List.mem_takeWhile_imp h
  exact absurd rfl (of_decide_eq_true hne)

theorem before_append (h : c ∉ pre) : before c (pre ++ c :: rest) = pre := by
  have hpre : ∀ d ∈ pre, decide (d ≠ c) = true := by
    intro d hd
    exact decide_eq_true fun heq => h (heq ▸ hd)
  have hstop : (c :: rest).takeWhile (· ≠ c) = [] := List.takeWhile_cons_of_neg (by simp)
  rw [before, List.takeWhile_append_of_pos hpre, hstop, List.append_nil]

theorem after_append (h : c ∉ pre) : after c (pre ++ c :: rest) = some rest := by
  have hpre : ∀ d ∈ pre, decide (d ≠ c) = true := by
    intro d hd
    exact decide_eq_true fun heq => h (heq ▸ hd)
  have hstop : (c :: rest).dropWhile (· ≠ c) = c :: rest := List.dropWhile_cons_of_neg (by simp)
  rw [after, List.dropWhile_append_of_pos hpre, hstop]

theorem before_of_not_mem (h : c ∉ s) : before c s = s := by
  apply List.takeWhile_eq_self_iff.mpr
  intro d hd
  exact decide_eq_true fun heq => h (heq ▸ hd)

theorem after_of_not_mem (h : c ∉ s) : after c s = none := by
  have hdrop : s.dropWhile (· ≠ c) = [] := by
    have hsplit : before c s ++ s.dropWhile (· ≠ c) = s := List.takeWhile_append_dropWhile
    rw [before_of_not_mem h] at hsplit
    exact List.append_right_eq_self.mp hsplit
  rw [after, hdrop]

end PhpExtXz.CString
