/-
# PhpExtXz.Truncation — what becomes of a file that was cut off.

Only `LZMA_FINISH` asks a decoder whether the bytes it was given are complete. The one-shot function
and the read operation never pass it: both give `LZMA_RUN` as long as there is input, and a decoder that
waits for more returns `LZMA_OK`. So both end as they would at the end of a complete file.

`truncation_not_reported`: no cut is reported, wherever it is, however the file is read.
-/
import PhpExtXz.DecodePaths
import PhpExtXz.Xz

namespace PhpExtXz

open FuelLoop XzStreamCtx

variable {σ ι : Type} {L : Liblzma σ} {c : Coder σ} {s₀ : σ} {file D p : List UInt8} {io : Inner ι}
  {left : ι → List UInt8} {st : ι} {ctx : XzStreamCtx σ ι} {ini : Ini} {fuel : Nat}

/-- `p` is what is left of a complete file that was cut off, and is not complete itself: `LZMA_FINISH`
does not end a decoder that was given `p`. -/
structure Truncated (c : Coder σ) (s₀ : σ) (file D p : List UInt8) : Prop where
  whole : DecodesWhole c s₀ file D
  begins : p <+: file
  cut : p ≠ file
  nonempty : p ≠ []
  incomplete : ∀ {f s room}, Reaches c s₀ f s → f.finishing = none → f.failed = false →
    f.taken = p → 0 < room → (c.code s .finish [] room).ret ≠ .streamEnd

/-- `xzdecode(p)` returns `false`. -/
def DecodeReports (L : Liblzma σ) (ini : Ini) (fuel : Nat) (p : List UInt8) : Prop :=
  xzdecode L ini fuel p none = .ok (.returnFalse none)

/-- Reads of whatever sizes never end with `stream->eof`, and enough of them end with the error value. -/
def ReadReports (L : Liblzma σ) (io : Inner ι) (fuel : Nat) (ctx : XzStreamCtx σ ι) : Prop :=
  ∃ enough, ∀ counts, ∃ bytes ended, readAll L.coder io fuel ctx counts = .ok (bytes, ended) ∧
    ended ≠ .eof ∧ (enough ≤ counts.sum → ended = .error)

/-- **`xzdecode` of a file that was cut off.** It returns a string, the beginning of what the file
decodes to. -/
theorem Truncated.xzdecode_value (hp : Truncated L.coder s₀ file D p)
    (hinit : L.lzmaAutoDecoder (memoryLimitOrMax (castUInt64 ini.maxMemory)) LZMA_CONCATENATED = .ok s₀)
    (hfuel : file.length + D.length < fuel) :
    ∃ out, xzdecode L ini fuel p none = .ok (.value out) ∧ out <+: D := by
  have hle := hp.begins.length_le
  obtain ⟨f, s, hfed, hresult⟩ :=
    phpXzDecodeString_spec hinit hp.whole.toDecodes hp.begins fuel (by omega)
  obtain ⟨hreach, hrun, htaken⟩ := hfed.reaches .start rfl
  have hfine := hfed.notFailed hp.whole.toDecodes .start rfl rfl (by simpa using hp.begins)
  refine ⟨f.emitted, ?_, ?_⟩
  · have hsome : ¬ p.length = 0 := fun hnil => hp.nonempty (List.eq_nil_of_length_eq_zero hnil)
    have hlimit : ¬ (-1 : ZendLong) < -1 := by decide
    unfold xzdecode
    simp only [Option.getD_none, if_neg hsome, if_neg hlimit, if_true, hresult, ok_bind, pure_eq_ok,
      returnStr]
  · apply hp.whole.in_order hreach hrun hfine
    rw [htaken, List.flatten_singleton]
    exact hp.begins

/-- **Reading a file that was cut off.** No read fails, and asking for more than there is ends with
`stream->eof`. -/
theorem Truncated.readAll_eof (hp : Truncated L.coder s₀ file D p)
    (hinit : L.lzmaAutoDecoder (memoryLimitOrMax (castUInt64 ini.maxMemory)) LZMA_CONCATENATED = .ok s₀)
    (hfile : FileStream io left) (hleft : left st = p)
    (hopen : phpXzInitDecoder L (castUInt64 ini.maxMemory) st = some ctx)
    (hfuel : file.length + D.length + 1 < fuel) (counts : List Nat) :
    ∃ bytes ended, readAll L.coder io fuel ctx counts = .ok (bytes, ended) ∧ ended ≠ .error ∧
      (D.length < counts.sum → ended = .eof) := by
  have hbegins : left st <+: file := by
    rw [hleft]
    exact hp.begins
  obtain ⟨bytes, ended, hread, herror, -, hend⟩ :=
    readAll_file hinit hopen hfile hp.whole.toDecodes hbegins counts fuel hfuel
  exact ⟨bytes, ended, hread, herror, hend⟩

/-- **A cut is not reported**, neither by `xzdecode` nor by reading. -/
theorem truncation_not_reported (hp : Truncated L.coder s₀ file D p)
    (hinit : L.lzmaAutoDecoder (memoryLimitOrMax (castUInt64 ini.maxMemory)) LZMA_CONCATENATED = .ok s₀)
    (hfile : FileStream io left) (hleft : left st = p)
    (hopen : phpXzInitDecoder L (castUInt64 ini.maxMemory) st = some ctx)
    (hfuel : file.length + D.length + 1 < fuel) :
    ¬ DecodeReports L ini fuel p ∧ ¬ ReadReports L io fuel ctx := by
  constructor
  · intro hreports
    have hshort : file.length + D.length < fuel := by omega
    obtain ⟨out, hvalue, -⟩ := hp.xzdecode_value hinit hshort
    rw [DecodeReports, hvalue] at hreports
    cases hreports
  · rintro ⟨enough, hreports⟩
    obtain ⟨bytes, ended, hread, -, hend⟩ :=
      hp.readAll_eof hinit hfile hleft hopen hfuel [D.length + 1]
    obtain ⟨bytes', ended', hread', hnot, -⟩ := hreports [D.length + 1]
    obtain ⟨rfl, rfl⟩ := Prod.mk.inj (Except.ok.inj (hread.symm.trans hread'))
    exact hnot (hend (by simp))

/-! ## The first byte of two -/

/-- A mark without the byte that belongs to it. -/
theorem firstMark_truncated : Truncated storedCoder markTable.start [1, 7] [7] [1] where
  whole := markTable_decodesWhole [7] (by decide)
  begins := ⟨[7], rfl⟩
  cut := by decide
  nonempty := by decide
  incomplete := by
    intro f s room hreach hf hfine htaken hroom hend
    have hat := storedCoder_reaches hreach
    cases hended : f.ended with
    | true =>
      -- it has not ended before
      rcases (hat.settled hended).2 with hverdict | ⟨hfinishing, -⟩
      · rw [htaken] at hverdict
        cases hverdict
      · rw [hf] at hfinishing
        cases hfinishing
    | false =>
      obtain ⟨-, hverdict | ⟨-, -, hcomplete⟩⟩ := (storedCoder_went hreach hended hfine rfl rfl).atEnd hend
      · rw [htaken, List.take_nil] at hverdict
        cases hverdict
      · rw [htaken] at hcomplete
        cases hcomplete

/-- A stream that reads the first byte. -/
def firstMark : XzStreamCtx StoredState Pieces :=
  { freshCtx markTable.start ⟨[[1]], by decide⟩ false with outBufIdx := some 0 }

theorem truncation_not_reported_firstMark :
    ¬ DecodeReports markLiblzma {} 6 [1] ∧ ¬ ReadReports markLiblzma pieceStream 6 firstMark :=
  truncation_not_reported firstMark_truncated rfl pieceStream_file rfl rfl (by decide)

/-- The first byte of two decodes like a complete file, and reads like one. -/
theorem first_byte_taken_for_complete :
    Truncated storedCoder markTable.start [1, 7] [7] [1] ∧
      ¬ (DecodeReports markLiblzma {} 6 [1] ∧ ReadReports markLiblzma pieceStream 6 firstMark) := by
  refine ⟨firstMark_truncated, ?_⟩
  rintro ⟨hreports, -⟩
  have hvalue : xzdecode markLiblzma {} 6 [1] none = .ok (.value []) := rfl
  rw [DecodeReports, hvalue] at hreports
  cases hreports

end PhpExtXz
