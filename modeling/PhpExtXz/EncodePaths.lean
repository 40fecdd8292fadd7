/-
# PhpExtXz.EncodePaths — the three ways to encode hand out the same bytes.

A string can be encoded in one call, chunk by chunk through a context, or by writing the chunks to a
stream and closing it. The three loops are written differently: one grows a string, one makes a string
of every call, and one works between two buffers, of which the input buffer is compressed only when
more comes than it can hold, and for the last time in `close`.

`encode_paths_agree`: over a healthy encoder all three give the complete encoding of the string,
however it is split, and wherever a stream is flushed in between.
-/
import PhpExtXz.XzEncode
import PhpExtXz.XzEncodeContext
import PhpExtXz.ConcreteCoders
import PhpExtXz.WriteHealthy

namespace PhpExtXz

open FuelLoop XzStreamCtx

variable {σ ι : Type} {L : Liblzma σ} {c : Coder σ} {io : Inner ι} {s₀ : σ}
  {Enc : List UInt8 → List UInt8} {content : ι → List UInt8} {base given : List UInt8} {f : Feed}
  {ctx ctx' : XzStreamCtx σ ι} {fuel : Nat} {op : XziopOp} {r : XziopResult}

/-! ## Chunk by chunk -/

/-- Add the chunks one by one, then finish; the results are concatenated. -/
def encodeChunks (L : Liblzma σ) (fuel : Nat) :
    XzEncodeContext σ → List (List UInt8) → Exec MemoryFault (List UInt8)
  | obj, [] => do
    let (ret, _) ← xzEncodeFinish L fuel obj
    pure ret.bytes
  | obj, chunk :: chunks => do
    let (ret, obj') ← xzEncodeAdd L fuel obj chunk
    let rest ← encodeChunks L fuel obj' chunks
    pure (ret.bytes ++ rest)

/-- What was handed out before and what the chunks give are the encoding of all. -/
theorem encodeChunks_spec (henc : HealthyEncoder L.coder s₀ Enc) (fuel : Nat)
    (chunks : List (List UInt8)) :
    ∀ {f obj}, XzEncodeContext.Live L.coder s₀ f obj →
      (Enc (f.taken ++ chunks.flatten)).length < fuel →
      ∃ out, encodeChunks L fuel obj chunks = .ok out ∧
        f.emitted ++ out = Enc (f.taken ++ chunks.flatten) := by
  induction chunks with
  | nil =>
    intro f obj hobj hfuel
    rw [List.flatten_nil, List.append_nil] at hfuel ⊢
    obtain ⟨out, obj', hfinish, -, hout⟩ := xzEncodeFinish_spec henc hobj hfuel
    refine ⟨out, ?_, hout⟩
    simp only [encodeChunks, hfinish, ok_bind, pure_eq_ok, PhpReturn.bytes_value]
  | cons chunk chunks ih =>
    intro f obj hobj hfuel
    rw [List.flatten_cons, ← List.append_assoc] at hfuel ⊢
    obtain ⟨ret, obj', f', hadd, hobj', htaken, hemitted⟩ := xzEncodeAdd_spec henc hobj hfuel
    rw [← htaken] at hfuel ⊢
    obtain ⟨out, hrest, hout⟩ := ih hobj' hfuel
    refine ⟨ret.bytes ++ out, ?_, ?_⟩
    · simp only [encodeChunks, hadd, hrest, ok_bind, pure_eq_ok]
    · rw [← hout, hemitted, List.append_assoc]

/-! ## Through a stream -/

/-- The buffer an operation writes. -/
def XziopOp.buffer : XziopOp → Option (List UInt8)
  | .write buf => some buf
  | _ => none

theorem flatMap_bytes (ops : List XziopOp) :
    ops.flatMap XziopOp.bytes = (ops.filterMap XziopOp.buffer).flatten := by
  induction ops with
  | nil => rfl
  | cons op ops ih =>
    rw [List.flatMap_cons, ih]
    cases op with
    | write buf => rfl
    | read count => rfl
    | flush => rfl
    | close => rfl

theorem streamAfter_cons (hop : xziop c io fuel ctx op = .ok (r, ctx')) (hclose : op.isClose = false)
    (next : XziopOp) (ops : List XziopOp) :
    streamAfter c io fuel ctx (op :: next :: ops) = streamAfter c io fuel ctx' (next :: ops) := by
  have htrace : xziopTrace c io fuel ctx (op :: next :: ops) =
      ⟨ctx, op, .ok (r, ctx')⟩ :: xziopTrace c io fuel ctx' (next :: ops) :=
    Runs.trace_cons_ok hop hclose
  unfold streamAfter
  rw [htrace]
  rcases Runs.trace_cons (xziop c io fuel) XziopOp.isClose ctx' next ops with
    ⟨r', s', -, -, hnext⟩ | hnext
  · rw [xziopTrace, hnext, List.getLast?_cons_cons]
  · rw [xziopTrace, hnext, List.getLast?_cons_cons]

theorem streamAfter_close (hclose : xziop c io fuel ctx .close = .ok (r, ctx')) :
    streamAfter c io fuel ctx [.close] = some ctx'.stream := by
  have htrace : xziopTrace c io fuel ctx [.close] = [⟨ctx, .close, .ok (r, ctx')⟩] := by
    rw [← hclose]
    exact Runs.trace_cons_last rfl
  unfold streamAfter
  rw [htrace]
  rfl

/-- A write or a flush passes its bytes to the stream. -/
theorem xziop_healthy (henc : HealthyEncoder c s₀ Enc) (hio : Accepts io content)
    (h : StreamEncoding c s₀ content base given f ctx) (hrun : f.finishing = none)
    (h0 : ctx.strm.nextIn = 0) (hread : op.isRead = false) (hclose : op.isClose = false)
    (later : List UInt8) (fuel : Nat)
    (hfuel : (given ++ op.bytes).length + (Enc (given ++ op.bytes ++ later)).length + 1 < fuel) :
    ∃ r ctx' f', xziop c io fuel ctx op = .ok (r, ctx') ∧
      StreamEncoding c s₀ content base (given ++ op.bytes) f' ctx' ∧ f'.finishing = none ∧
      ctx'.strm.nextIn = 0 := by
  cases op with
  | read count => cases hread
  | close => cases hclose
  | write buf =>
    obtain ⟨ctx', f', hwrite, hctx'⟩ := phpXziopWrite_healthy henc hio h hrun h0 buf later fuel hfuel
    refine ⟨.write buf.length, ctx', f', ?_, hctx'⟩
    simp only [xziop, hwrite, ok_bind, pure_eq_ok]
  | flush =>
    have hnone : given ++ XziopOp.flush.bytes = given := List.append_nil given
    rw [hnone] at hfuel ⊢
    obtain ⟨ctx', f', hflush, hctx'⟩ := phpXziopFlush_healthy henc hio h hrun later fuel (by omega)
    refine ⟨.flush 0, ctx', f', ?_, hctx'⟩
    simp only [xziop, hflush, ok_bind, pure_eq_ok]

/-- **Writing and closing.** Whatever the writes and flushes before it, `close` leaves the complete
encoding of what was written in the stream below. -/
theorem streamAfter_healthy (henc : HealthyEncoder c s₀ Enc) (hio : Accepts io content)
    (fuel : Nat) (ops : List XziopOp) :
    ∀ {given f ctx}, StreamEncoding c s₀ content base given f ctx → f.finishing = none →
      ctx.strm.nextIn = 0 → (∀ op ∈ ops, op.isRead = false ∧ op.isClose = false) →
      (given ++ ops.flatMap XziopOp.bytes).length +
        (Enc (given ++ ops.flatMap XziopOp.bytes)).length + 1 < fuel →
      ∃ st, streamAfter c io fuel ctx (ops ++ [.close]) = some st ∧
        content st = base ++ Enc (given ++ ops.flatMap XziopOp.bytes) := by
  induction ops with
  | nil =>
    intro given f ctx h hrun _ _ hfuel
    rw [List.flatMap_nil, List.append_nil] at hfuel ⊢
    obtain ⟨ctx', hclose, hcontent⟩ := phpXziopClose_healthy henc hio h hrun fuel (by omega)
    have hop : xziop c io fuel ctx .close = .ok (.close EOF, ctx') := by
      simp only [xziop, hclose, ok_bind, pure_eq_ok]
    exact ⟨ctx'.stream, streamAfter_close hop, hcontent⟩
  | cons op ops ih =>
    intro given f ctx h hrun h0 hops hfuel
    obtain ⟨hread, hclose⟩ := hops op List.mem_cons_self
    rw [List.flatMap_cons, ← List.append_assoc] at hfuel ⊢
    obtain ⟨r, ctx', f', hop, hctx', hrun', h0'⟩ := xziop_healthy henc hio h hrun h0 hread hclose
      (ops.flatMap XziopOp.bytes) fuel (by
        rw [List.length_append] at hfuel
        omega)
    obtain ⟨st, hafter, hcontent⟩ := ih hctx' hrun' h0'
      (fun op hmem => hops op (List.mem_cons_of_mem _ hmem)) hfuel
    refine ⟨st, ?_, hcontent⟩
    rw [List.cons_append]
    rw [← hafter]
    cases ops with
    | nil => exact streamAfter_cons hop hclose _ _
    | cons next ops => exact streamAfter_cons hop hclose _ _

/-! ## All three -/

/-- **The three encode paths.** For every string in chunks, every level, and every sequence of writes
and flushes that writes the chunks: the one-shot function, the context and the stream hand out the
complete encoding of the string. -/
theorem encode_paths_agree {level : ZendLong} (hlevel : 0 ≤ level ∧ level ≤ 9)
    {preset : LzmaOptionsLzma} (hpreset : L.lzmaLzmaPreset (castUInt32 level) = some preset)
    (hinit : L.lzmaStreamEncoder (lzma2Filters preset) LZMA_CHECK_CRC64 = .ok s₀)
    (henc : HealthyEncoder L.coder s₀ Enc) (hio : Accepts io content) (stream : ι) (ini : Ini)
    (chunks : List (List UInt8)) (ops : List XziopOp)
    (hops : ∀ op ∈ ops, op.isRead = false ∧ op.isClose = false)
    (hchunks : ops.filterMap XziopOp.buffer = chunks) (fuel : Nat)
    (hfuel : chunks.flatten.length + (Enc chunks.flatten).length + 1 < fuel) :
    phpXzEncodeString L fuel chunks.flatten (castUInt32 level) (castUInt32 XZ_FORMAT_XZ) =
      .ok (some (Enc chunks.flatten)) ∧
    (∃ obj, xzEncodeInit L ini (some XZ_FORMAT_XZ)
        (some fun key => if key = "level" then some level else none) = .value obj ∧
      encodeChunks L fuel obj chunks = .ok (Enc chunks.flatten)) ∧
    ∃ ctx st, phpXzInitEncoder L (castUInt32 level) stream = some ctx ∧
      streamAfter L.coder io fuel ctx (ops ++ [.close]) = some st ∧
      content st = content stream ++ Enc chunks.flatten := by
  refine ⟨phpXzEncodeString_spec hpreset hinit henc _ fuel (by omega), ?_, ?_⟩
  · obtain ⟨obj, hobj, hlive⟩ : ∃ obj, xzEncodeInit L ini (some XZ_FORMAT_XZ)
        (some fun key => if key = "level" then some level else none) = .value obj ∧
        obj.Live L.coder s₀ {} := xzEncodeInit_level hlevel hpreset hinit
    have hshort : (Enc ([] ++ chunks.flatten)).length < fuel := by
      rw [List.nil_append]
      omega
    obtain ⟨out, hencode, hout⟩ := encodeChunks_spec henc fuel chunks hlive hshort
    rw [show ({} : Feed).emitted ++ out = out from rfl,
      show ({} : Feed).taken ++ chunks.flatten = chunks.flatten from rfl] at hout
    rw [hout] at hencode
    exact ⟨obj, hobj, hencode⟩
  · have hopen : phpXzInitEncoder L (castUInt32 level) stream = some (freshCtx s₀ stream true) := by
      simp only [phpXzInitEncoder, phpXzEncoderInitStream, hpreset, hinit, Except.toOption,
        Option.map_some]
    have hstart : StreamEncoding L.coder s₀ content (content stream) [] {} (freshCtx s₀ stream true) :=
      ⟨⟨Nat.zero_le _, rfl⟩, rfl, .start, rfl, rfl, (List.append_nil _).symm⟩
    have hbytes : ops.flatMap XziopOp.bytes = chunks.flatten := by rw [flatMap_bytes, hchunks]
    obtain ⟨st, hafter, hcontent⟩ := streamAfter_healthy henc hio fuel ops hstart rfl rfl hops (by
      rw [hbytes, List.nil_append]
      exact hfuel)
    rw [hbytes, List.nil_append] at hcontent
    exact ⟨_, st, hopen, hafter, hcontent⟩

/-- Two chunks, with a flush between them, through the copying coder. -/
theorem encode_paths_agree_copy :
    phpXzEncodeString copyLiblzma 9 [[1, 2], [3]].flatten (castUInt32 6) (castUInt32 XZ_FORMAT_XZ) =
      .ok (some [1, 2, 3]) ∧
    (∃ obj, xzEncodeInit copyLiblzma {} (some XZ_FORMAT_XZ)
        (some fun key => if key = "level" then some 6 else none) = .value obj ∧
      encodeChunks copyLiblzma 9 obj [[1, 2], [3]] = .ok [1, 2, 3]) ∧
    ∃ ctx st, phpXzInitEncoder copyLiblzma (castUInt32 6) ([] : List UInt8) = some ctx ∧
      streamAfter copyLiblzma.coder pipe 9 ctx ([.write [1, 2], .flush, .write [3]] ++ [.close]) =
        some st ∧ id st = id [] ++ [1, 2, 3] := by
  have hpreset : copyLiblzma.lzmaLzmaPreset (castUInt32 6) = some _ := rfl
  have hlevel : (0 : ZendLong) ≤ 6 ∧ (6 : ZendLong) ≤ 9 := by decide
  exact encode_paths_agree hlevel hpreset rfl copyCoder_healthyEncoder pipe_accepts
    [] {} [[1, 2], [3]] [.write [1, 2], .flush, .write [3]] (by decide) rfl 9 (by decide)

end PhpExtXz
