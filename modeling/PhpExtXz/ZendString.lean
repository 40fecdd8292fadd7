/-
# PhpExtXz.ZendString — collecting coder output in a growing `zend_string`.

All four string-producing loops of the extension write through `next_out`/`avail_out` into a
`zend_string` that starts at `XZ_BUFFER_SIZE` bytes, grows by `XZ_BUFFER_SIZE` when it is full and is
truncated to its used part at the end. `OutString` is that idiom: the stream, the string and the
loop variable `out_used`. The bytes produced so far are `OutString.produced`; `OutString.Fits` is the
invariant that the room left ends exactly where the string does.
-/
import PhpExtXz.CoderSpec

namespace PhpExtXz

open FuelLoop

/-- `XZ_BUFFER_SIZE`. -/
def XZ_BUFFER_SIZE : Nat := 4096

/-! ## `zend_string` -/

/-- A `zend_string`: `len` is `ZSTR_LEN`, `val` the object behind `ZSTR_VAL`. -/
structure ZendString where
  len : Nat
  val : Buffer UInt8 len

/-- `zend_string_alloc(len, 0)`; the content is unspecified. -/
def zendStringAlloc (len : Nat) : ZendString := ⟨len, .fresh 0 len⟩

/-- `zend_string_extend(s, len, 0)`. -/
def zendStringExtend (s : ZendString) (len : Nat) : ZendString := ⟨len, s.val.resize 0 len⟩

/-- `zend_string_truncate(s, len, 0)`. -/
def zendStringTruncate (s : ZendString) (len : Nat) : ZendString := ⟨len, s.val.resize 0 len⟩

/-! ## The output idiom -/

/-- An `lzma_stream` writing into a `zend_string`, with the loop variable `out_used`. -/
structure OutString (σ : Type) where
  strm : LzmaStream σ
  out : ZendString
  outUsed : Nat

variable {σ : Type} {c : Coder σ} {action : LzmaAction} {data : List UInt8}

namespace OutString

/-- Point the stream at `len` bytes of input and at a fresh string of `XZ_BUFFER_SIZE` bytes. -/
def start (strm : LzmaStream σ) (len : Nat) : OutString σ where
  strm := { strm with nextIn := 0, availIn := len, nextOut := 0, availOut := XZ_BUFFER_SIZE }
  out := zendStringAlloc XZ_BUFFER_SIZE
  outUsed := 0

/-- `lzma_code(strm, action)` into the string. -/
def code (c : Coder σ) (action : LzmaAction) (data : List UInt8) (w : OutString σ) :
    Exec MemoryFault (LzmaRet × OutString σ) := do
  let d ← lzmaCode c w.strm action data w.out.val
  pure (d.ret, { w with strm := d.strm, out := ⟨w.out.len, d.dst⟩ })

/-- `out_used = ZSTR_LEN(out) - strm->avail_out`. -/
def noteUsed (w : OutString σ) : OutString σ :=
  { w with outUsed := w.out.len - w.strm.availOut }

/-- Extend the string by `XZ_BUFFER_SIZE` bytes and offer the new part as room. -/
def grow (w : OutString σ) : OutString σ where
  strm := { w.strm with nextOut := w.outUsed, availOut := XZ_BUFFER_SIZE }
  out := zendStringExtend w.out (w.out.len + XZ_BUFFER_SIZE)
  outUsed := w.outUsed

/-- The string truncated to its used part, as it is returned. -/
def result (w : OutString σ) : List UInt8 := (zendStringTruncate w.out w.outUsed).val.cells

/-! ## Its invariant -/

/-- The room left ends where the string ends. -/
def Fits (w : OutString σ) : Prop := w.strm.nextOut + w.strm.availOut = w.out.len

/-- The input window lies inside the data. -/
def Reads (w : OutString σ) (data : List UInt8) : Prop :=
  w.strm.nextIn + w.strm.availIn = data.length

/-- What has been written into the string so far. -/
def produced (w : OutString σ) : List UInt8 := w.out.val.written w.strm.nextOut

/-- The input not taken yet. -/
def left (w : OutString σ) (data : List UInt8) : List UInt8 := data.drop w.strm.nextIn

variable {w : OutString σ} {strm : LzmaStream σ} {r : CodeResult σ}

theorem start_fits : (start strm data.length).Fits := by
  simp [Fits, start, zendStringAlloc]

theorem start_reads : (start strm data.length).Reads data := by
  simp [Reads, start]

@[simp]
theorem start_produced {len : Nat} : (start strm len).produced = [] := by
  simp [produced, start]

@[simp]
theorem start_left {len : Nat} : (start strm len).left data = data := by
  simp [left, start]

@[simp]
theorem start_availIn {len : Nat} : (start strm len).strm.availIn = len := rfl

theorem length_left (h : w.Reads data) : (w.left data).length = w.strm.availIn := by
  unfold Reads at h
  simp only [left, List.length_drop]
  omega

theorem length_produced (h : w.Fits) : w.produced.length = w.strm.nextOut := by
  unfold Fits at h
  exact w.out.val.length_written (by omega)

theorem input_eq_left (h : w.Reads data) : w.strm.input data = w.left data := by
  have hlen := length_left h
  simp only [LzmaStream.input]
  exact List.take_of_length_le (by rw [← left]; exact Nat.le_of_eq hlen)

/-- **One call into the string.** It does not fault, keeps the invariants, and appends what the coder
emits to what had been produced. -/
theorem code_eq_ok (hfit : w.Fits) (hreads : w.Reads data)
    (hr : c.code w.strm.internal action (w.left data) w.strm.availOut = r) :
    ∃ w' : OutString σ, w.code c action data = .ok (r.ret, w') ∧ w'.Fits ∧ w'.Reads data ∧
      w'.strm = w.strm.advance r ∧ w'.produced = w.produced ++ r.emitted ∧
      w'.left data = (w.left data).drop r.taken ∧ w'.out.len = w.out.len := by
  have hnext : w.strm.next c action data = r := by
    rw [LzmaStream.next, input_eq_left hreads, hr]
  have hin : w.strm.nextIn + w.strm.availIn ≤ data.length := by rw [Reads] at hreads; omega
  have hout : w.strm.nextOut + w.strm.availOut ≤ w.out.len := by rw [Fits] at hfit; omega
  obtain ⟨dst', hcode, hdst⟩ := lzmaCode_eq_ok w.out.val hnext hin hout
  have htaken : r.taken ≤ w.strm.availIn := by
    rw [← hr, ← length_left hreads]; exact c.taken_le _ _ _ _
  have hemitted : r.emitted.length ≤ w.strm.availOut := by
    rw [← hr]; exact c.emitted_le _ _ _ _
  refine ⟨⟨w.strm.advance r, ⟨w.out.len, dst'⟩, w.outUsed⟩, ?_, ?_, ?_, rfl, hdst, ?_, rfl⟩
  · simp only [code, hcode, ok_bind, pure_eq_ok]
  · simp only [Fits, LzmaStream.advance] at hfit ⊢
    omega
  · simp only [Reads, LzmaStream.advance] at hreads ⊢
    omega
  · simp only [left, LzmaStream.advance, List.drop_drop]

/-! ### Growing -/

@[simp]
theorem noteUsed_strm : w.noteUsed.strm = w.strm := rfl

@[simp]
theorem noteUsed_produced : w.noteUsed.produced = w.produced := rfl

@[simp]
theorem grow_availIn : w.grow.strm.availIn = w.strm.availIn := rfl

theorem outUsed_noteUsed (h : w.Fits) : w.noteUsed.outUsed = w.strm.nextOut := by
  unfold Fits at h
  simp only [noteUsed]
  omega

theorem grow_fits (h : w.Fits) (hfull : w.strm.availOut = 0) : w.noteUsed.grow.Fits := by
  unfold Fits at h
  simp only [Fits, grow, noteUsed, zendStringExtend]
  omega

theorem grow_produced (h : w.Fits) : w.noteUsed.grow.produced = w.produced := by
  have hused := outUsed_noteUsed h
  unfold Fits at h
  simp only [produced, grow, zendStringExtend, hused]
  exact Buffer.written_resize 0 (by simp only [noteUsed]; omega) (by simp only [noteUsed]; omega)

/-- The returned string is what was produced. -/
theorem result_noteUsed (h : w.Fits) : w.noteUsed.result = w.produced := by
  have hused := outUsed_noteUsed h
  unfold Fits at h
  change w.out.val.cells.take w.noteUsed.outUsed ++
    List.replicate (w.noteUsed.outUsed - w.out.len) 0 = w.out.val.cells.take w.strm.nextOut
  rw [hused, Nat.sub_eq_zero_of_le (by omega), List.replicate_zero, List.append_nil]

/-! ## Following the coder through a loop -/

/-- The loop invariant of every string-producing loop: the coder is in a state with ledger `f`; what
it has taken and what is left are `given`; what it has emitted is `before` and what the string
holds. -/
structure Track (c : Coder σ) (s₀ : σ) (before given data : List UInt8) (f : Feed)
    (w : OutString σ) : Prop where
  reaches : Reaches c s₀ f w.strm.internal
  fits : w.Fits
  reads : w.Reads data
  input : f.taken ++ w.left data = given
  output : f.emitted = before ++ w.produced

variable {s₀ : σ} {before given : List UInt8} {f : Feed}

theorem Track.begin (h : Reaches c s₀ f strm.internal) :
    Track c s₀ f.emitted (f.taken ++ data) data f (start strm data.length) where
  reaches := h
  fits := start_fits
  reads := start_reads
  input := by simp
  output := by simp

/-- The invariant at the start of a fresh coder's only run. -/
theorem Track.init : Track c s₀ [] data data {} (start (.init s₀) data.length) where
  reaches := .start
  fits := start_fits
  reads := start_reads
  input := by simp
  output := by simp

/-- One call: the ledger advances by one step, nothing else changes. -/
theorem Track.call (h : Track c s₀ before given data f w) (hroom : 0 < w.strm.availOut)
    (hr : c.code w.strm.internal action (w.left data) w.strm.availOut = r)
    (hallow : f.Allows action (w.left data)) :
    ∃ w' : OutString σ, w.code c action data = .ok (r.ret, w') ∧
      Track c s₀ before given data (f.step action (w.left data) r) w' ∧
      w'.strm = w.strm.advance r ∧ w'.out.len = w.out.len := by
  obtain ⟨w', hcode, hfit, hreads, hstrm, hprod, hleft, hlen⟩ := code_eq_ok h.fits h.reads hr
  refine ⟨w', hcode, ⟨?_, hfit, hreads, ?_, ?_⟩, hstrm, hlen⟩
  · rw [hstrm, ← hr]
    exact .call action _ _ h.reaches hallow hroom
  · rw [hleft, Feed.taken_step_append, h.input]
  · rw [hprod, ← List.append_assoc, ← h.output]
    rfl

/-- A call appends what it emits to what the string holds. -/
theorem Track.produced_step {w' : OutString σ} {input : List UInt8}
    (h : Track c s₀ before given data f w)
    (h' : Track c s₀ before given data (f.step action input r) w') :
    w'.produced = w.produced ++ r.emitted := by
  have hout : f.emitted ++ r.emitted = before ++ w'.produced := h'.output
  rw [h.output, List.append_assoc] at hout
  exact (List.append_cancel_left hout).symm

theorem Track.taken_le (h : Track c s₀ before given data f w)
    (hr : c.code w.strm.internal action (w.left data) w.strm.availOut = r) :
    r.taken ≤ w.strm.availIn := by
  rw [← length_left h.reads, ← hr]
  exact c.taken_le _ _ _ _

/-- Growing a full string changes nothing that is tracked. -/
theorem Track.grow (h : Track c s₀ before given data f w) (hfull : w.strm.availOut = 0) :
    Track c s₀ before given data f w.noteUsed.grow where
  reaches := h.reaches
  fits := grow_fits h.fits hfull
  reads := h.reads
  input := h.input
  output := by rw [grow_produced h.fits]; exact h.output

theorem Track.taken_prefix (h : Track c s₀ before given data f w) : f.taken <+: given :=
  ⟨w.left data, h.input⟩

/-- When all input is used up, the coder has taken what it was given. -/
theorem Track.taken_of_empty (h : Track c s₀ before given data f w) (h0 : w.strm.availIn = 0) :
    f.taken = given := by
  have hlen := length_left h.reads
  rw [h0] at hlen
  rw [← h.input, List.eq_nil_of_length_eq_zero hlen, List.append_nil]

theorem Track.left_ne_nil (h : Track c s₀ before given data f w) (h0 : 0 < w.strm.availIn) :
    w.left data ≠ [] := by
  have hlen := length_left h.reads
  intro hnil
  rw [hnil] at hlen
  simp only [List.length_nil] at hlen
  omega

/-- A call with progress brings a loop closer to its end: it shortens the input or what is still to
come of a known output. -/
theorem measure_advance {strm strm' : LzmaStream σ} {total : Nat} {e : List UInt8}
    (hstrm : strm' = strm.advance r) (htaken : r.taken ≤ strm.availIn) (hprog : r.Progress)
    (hle : (e ++ r.emitted).length ≤ total) :
    strm'.availIn + (total - (e ++ r.emitted).length) < strm.availIn + (total - e.length) := by
  subst hstrm
  simp only [LzmaStream.advance, List.length_append] at hle ⊢
  rcases hprog with hpos | hne
  · omega
  · have := List.length_pos_iff.mpr hne
    omega

end OutString

end PhpExtXz
