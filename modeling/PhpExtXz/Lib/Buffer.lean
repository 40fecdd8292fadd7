/-
# PhpExtXz.Lib.Buffer — memory objects of a fixed size, written in place.

A `Buffer α n` is an object of exactly `n` cells; its size is part of its type, so no operation can
change it. Three readings of an object are used together:

* `window b off len` — the `len` cells from `off` on (what a pointer and a length denote);
* `written b k` — the first `k` cells (what has been written so far when writing left to right);
* `blit b off src h` — the object after `src` was copied to offset `off`, where `h` says that the
  copy stays inside the object.

The lemmas say how the three interact; cells past what was written are never looked at.
-/
import Mathlib.Data.List.Basic

namespace PhpExtXz

universe u

/-- A memory object of exactly `n` cells. -/
structure Buffer (α : Type u) (n : Nat) where
  cells : List α
  size_eq : cells.length = n
  deriving DecidableEq

namespace Buffer

variable {α : Type u} {n m : Nat}

/-- A fresh object; the content of fresh memory is unspecified, `fill` stands for it. -/
def fresh (fill : α) (n : Nat) : Buffer α n := ⟨List.replicate n fill, List.length_replicate⟩

/-- The `len` cells from offset `off` on. -/
def window (b : Buffer α n) (off len : Nat) : List α := (b.cells.drop off).take len

/-- The first `k` cells. -/
def written (b : Buffer α n) (k : Nat) : List α := b.cells.take k

/-- `memcpy(b + off, src, |src|)` that stays inside the object. -/
def blit (b : Buffer α n) (off : Nat) (src : List α) (h : off + src.length ≤ n) : Buffer α n where
  cells := b.cells.take off ++ src ++ b.cells.drop (off + src.length)
  size_eq := by
    have := b.size_eq
    simp only [List.length_append, List.length_take, List.length_drop]
    omega

/-- The object reallocated to `m` cells: a prefix is kept, new cells are filled with `fill`. -/
def resize (b : Buffer α n) (fill : α) (m : Nat) : Buffer α m where
  cells := b.cells.take m ++ List.replicate (m - n) fill
  size_eq := by
    have := b.size_eq
    simp only [List.length_append, List.length_take, List.length_replicate]
    omega

/-! ## Windows -/

theorem length_window (b : Buffer α n) {off len : Nat} (h : off + len ≤ n) :
    (b.window off len).length = len := by
  have := b.size_eq
  simp only [window, List.length_take, List.length_drop]
  omega

@[simp]
theorem window_zero_len (b : Buffer α n) (off : Nat) : b.window off 0 = [] := by
  simp [window]

theorem window_zero (b : Buffer α n) (k : Nat) : b.window 0 k = b.written k := by
  simp [window, written]

/-- Dropping from a window moves its start. -/
theorem drop_window (b : Buffer α n) (off len k : Nat) :
    (b.window off len).drop k = b.window (off + k) (len - k) := by
  simp only [window, List.drop_take, List.drop_drop]

/-! ## What has been written -/

@[simp]
theorem written_zero (b : Buffer α n) : b.written 0 = [] := by
  simp [written]

theorem length_written (b : Buffer α n) {k : Nat} (h : k ≤ n) : (b.written k).length = k := by
  have := b.size_eq
  simp only [written, List.length_take]
  omega

/-- A window inside of what has been written. -/
theorem take_drop_written (b : Buffer α n) {off len k : Nat} (h : off + len ≤ k) :
    ((b.written k).drop off).take len = b.window off len := by
  rw [written, List.drop_take, List.take_take, Nat.min_eq_left (by omega)]
  rfl

/-! ## Copying into an object -/

variable {b : Buffer α n} {off : Nat} {src : List α} {h : off + src.length ≤ n}

/-- Writing left to right: what had been written, then the bytes copied. -/
theorem written_blit : (b.blit off src h).written (off + src.length) = b.written off ++ src := by
  have hlen : (b.cells.take off ++ src).length = off + src.length := by
    have := b.size_eq
    simp only [List.length_append, List.length_take]
    omega
  simp only [written, blit]
  rw [List.take_append_of_le_length (by omega), List.take_of_length_le (by omega)]

/-- What was copied to the front of an object is read back from there. -/
theorem window_blit_zero (h : 0 + src.length ≤ n) : (b.blit 0 src h).window 0 src.length = src := by
  have hwritten := @written_blit _ _ b 0 src h
  rw [written_zero, List.nil_append] at hwritten
  rw [window_zero]
  simpa only [Nat.zero_add] using hwritten

@[simp]
theorem written_resize (fill : α) {k : Nat} (hk : k ≤ n) (hm : k ≤ m) :
    (b.resize fill m).written k = b.written k := by
  have := b.size_eq
  simp only [written, resize]
  rw [List.take_append_of_le_length (by simp only [List.length_take]; omega), List.take_take,
    Nat.min_eq_left hm]

end Buffer

end PhpExtXz
