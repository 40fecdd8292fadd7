/-
# PhpExtXz.DecodePaths — the three ways to decode a complete file.

A file can be decoded in one call, chunk by chunk through a context, or by reading a stream to its end.
Each way has its own rule for when to stop. The context calls the decoder for as long as a call fills
its room, so that nothing can stay behind. The one-shot function stops when all input has been taken,
and the stream when in addition its window has been handed out: both leave behind what is then still
inside the decoder.

`decode_paths_agree_iff`: the three hand out the same bytes if and only if nothing is.
-/
import PhpExtXz.ReadFile
import PhpExtXz.ConcreteCoders
import PhpExtXz.XzDecodeContext

namespace PhpExtXz

open FuelLoop XzStreamCtx

variable {σ : Type} {L : Liblzma σ} {s₀ : σ} {f : Feed} {s D data : List UInt8}
  {obj : XzDecodeContext σ} {fuel : Nat}

/-! ## Chunk by chunk -/

/-- `XZ_CONCATENATED`. -/
def XZ_CONCATENATED : ZendLong := 8

/-- Add the chunks one by one, then finish; the results are concatenated. -/
def decodeChunks (L : Liblzma σ) (fuel : Nat) :
    XzDecodeContext σ → List (List UInt8) → Exec MemoryFault (List UInt8)
  | obj, [] => do
    let (ret, _) ← xzDecodeFinish L fuel obj
    pure ret.bytes
  | obj, chunk :: chunks => do
    let (ret, obj') ← xzDecodeAdd L fuel obj chunk
    let rest ← decodeChunks L fuel obj' chunks
    pure (ret.bytes ++ rest)

/-- A context that has been given part of a file, which its decoder has taken. -/
structure XzDecodeContext.OnFile (c : Coder σ) (s₀ : σ) (f : Feed) (obj : XzDecodeContext σ) :
    Prop where
  reaches : Reaches c s₀ f obj.strm.internal
  running : f.finishing = none
  notFailed : f.failed = false
  unfinished : obj.status ≠ .streamEnd

/-- One `LZMA_RUN` call of the loop on part of a file: it fills its room, or it leaves nothing of what
it was given, and nothing of the output once all of the file was given. -/
theorem decodeRun_onFile (hdec : DecodesWhole L.coder s₀ s D) {given : List UInt8}
    (hgiven : given <+: s) :
    CallKeeps L.coder s₀ (decodeSwitch .run) .run given D.length
      (fun f => f.finishing = none ∧ f.failed = false)
      (fun f ret => (f.finishing = none ∧ f.failed = false) ∧ f.taken = given ∧
        (given = s → f.emitted = D) ∧ ret ≠ .streamEnd)
      (fun _ _ => False) := by
  rintro f st input room r ⟨hf, hx⟩ hreach hall hroom hr
  refine ⟨trivial, ?_⟩
  have hinside : f.taken ++ input <+: s := by
    rw [hall]
    exact hgiven
  have htaken : f.taken <+: s := (List.prefix_append _ _).trans hinside
  have hf' : (f.step .run input r).finishing = none := hf
  -- what a call that leaves room has done
  have hleaves : r.emitted.length < room → (f.step .run input r).taken = given ∧
      (given = s → (f.step .run input r).emitted = D) := by
    intro hless
    have htakes := hdec.takes_all hreach hf hx hinside hroom hr hless
    constructor
    · show f.taken ++ input.take r.taken = given
      rw [htakes, List.take_length, hall]
    · intro hwhole
      exact hdec.drained hreach hf hx (hall.trans hwhole) hroom hr hless
  have hret : r.ret = .ok ∨ (r.ret = .bufError ∧ ¬ r.Progress) := by
    by_cases hnil : input = []
    · rw [hnil] at hr
      rcases hdec.run_idle hreach hf hx htaken hroom hr with hok | ⟨hbuf, -, hno⟩
      · exact Or.inl hok
      · exact Or.inr ⟨hbuf, hno⟩
    · exact Or.inl (hdec.run_ok hreach hf hx hinside hroom hnil hr).1
  have hx' : (f.step .run input r).failed = false :=
    Feed.notFailed_step hx (by rcases hret with h | ⟨h, -⟩ <;> rw [h] <;> rfl)
  rcases hret with hok | ⟨hbuf, hno⟩
  · by_cases hfull : room - r.emitted.length = 0
    · simp only [hok, decodeSwitch, if_pos hfull]
      refine ⟨⟨hf', hx'⟩, ?_⟩
      have hstep : (f.step .run input r).taken <+: s :=
        (Feed.taken_step_prefix .run).trans hinside
      exact (hdec.in_order (hreach.run hroom hr) hf' hx' hstep).length_le
    · simp only [hok, decodeSwitch, if_neg hfull]
      obtain ⟨hall', hdrained⟩ := hleaves (by omega)
      exact ⟨⟨hf', hx'⟩, hall', hdrained, by decide⟩
  · have hnone : r.emitted = [] := r.emitted_of_not_progress hno
    obtain ⟨hall', hdrained⟩ := hleaves (by rw [hnone, List.length_nil]; exact hroom)
    simp only [hbuf, decodeSwitch, reduceCtorEq, false_and, if_false]
    exact ⟨⟨hf', hx'⟩, hall', hdrained, by decide⟩

/-- **Adding a chunk of a file.** -/
theorem xzDecodeAdd_onFile (hdec : DecodesWhole L.coder s₀ s D) (hobj : obj.OnFile L.coder s₀ f)
    (hgiven : f.taken ++ data <+: s) (hfuel : D.length < fuel) :
    ∃ ret obj' f', xzDecodeAdd L fuel obj data = .ok (ret, obj') ∧ obj'.OnFile L.coder s₀ f' ∧
      f'.taken = f.taken ++ data ∧ f'.emitted = f.emitted ++ ret.bytes ∧
      (f'.taken = s → f'.emitted = D) := by
  obtain ⟨p, hp, f', hleaves⟩ := contextProcess_returns (decodeSwitch_grow .run)
    (decodeRun_onFile hdec hgiven) ⟨hobj.running, hobj.notFailed⟩ hobj.reaches fuel (by omega)
  rcases hleaves.result with ⟨out, hout, hemitted, ⟨hf', hx'⟩, htaken, hdrained, hend⟩ | ⟨-, hfalse⟩
  · refine ⟨.value out, { obj with strm := p.strm, status := p.status }, f', ?_,
      ⟨hleaves.reaches, hf', hx', hend⟩, htaken, hemitted, ?_⟩
    · simp only [xzDecodeAdd, if_neg hobj.unfinished, phpXzDecodeContextProcess, hp, ok_bind,
        pure_eq_ok, hout, returnStr]
    · rw [htaken]
      exact hdrained
  · exact hfalse.elim

/-- `LZMA_FINISH` once all of the file has been decoded. -/
theorem decodeFinish_onFile (hdec : DecodesWhole L.coder s₀ s D) :
    CallKeeps L.coder s₀ (decodeSwitch .finish) .finish s D.length
      (fun f => (f.finishing = none ∧ f.failed = false) ∧ f.taken = s ∧ f.emitted = D)
      (fun f _ => f.emitted = D) (fun _ _ => False) := by
  rintro f st input room r ⟨⟨hf, hx⟩, htaken, hemitted⟩ hreach hall hroom hr
  obtain rfl : input = [] := by
    rw [htaken] at hall
    exact List.append_cancel_left (hall.trans (List.append_nil s).symm)
  obtain ⟨hend, hnone⟩ := hdec.finish_ends hreach hf hx htaken hemitted hroom hr
  refine ⟨Or.inl hf, ?_⟩
  simp only [hend, decodeSwitch]
  show f.emitted ++ r.emitted = D
  rw [hnone, List.append_nil, hemitted]

/-- **Chunk by chunk.** Whatever the chunks, together they give the rest of the file. -/
theorem decodeChunks_onFile (hdec : DecodesWhole L.coder s₀ s D) (hfuel : D.length < fuel)
    (chunks : List (List UInt8)) :
    ∀ {f obj}, XzDecodeContext.OnFile L.coder s₀ f obj → f.taken ++ chunks.flatten = s →
      (f.taken = s → f.emitted = D) →
      ∃ out, decodeChunks L fuel obj chunks = .ok out ∧ f.emitted ++ out = D := by
  induction chunks with
  | nil =>
    intro f obj hobj hall hdrained
    rw [List.flatten_nil, List.append_nil] at hall
    have hkeeps : CallKeeps L.coder s₀ (decodeSwitch .finish) .finish (f.taken ++ []) D.length
        (fun f => (f.finishing = none ∧ f.failed = false) ∧ f.taken = s ∧ f.emitted = D)
        (fun f _ => f.emitted = D) (fun _ _ => False) := by
      rw [List.append_nil, hall]
      exact decodeFinish_onFile hdec
    obtain ⟨p, hp, f', hleaves⟩ := contextProcess_returns (decodeSwitch_grow .finish) hkeeps
      ⟨⟨hobj.running, hobj.notFailed⟩, hall, hdrained hall⟩ hobj.reaches fuel (by omega)
    rcases hleaves.result with ⟨out, hout, hemitted, hD⟩ | ⟨-, hfalse⟩
    · refine ⟨out, ?_, hemitted.symm.trans hD⟩
      simp only [decodeChunks, xzDecodeFinish, if_neg hobj.unfinished, phpXzDecodeContextProcess, hp,
        ok_bind, pure_eq_ok, hout, returnStr, PhpReturn.bytes_value]
    · exact hfalse.elim
  | cons chunk chunks ih =>
    intro f obj hobj hall _
    rw [List.flatten_cons, ← List.append_assoc] at hall
    have hgiven : f.taken ++ chunk <+: s := by
      rw [← hall]
      exact List.prefix_append _ _
    obtain ⟨ret, obj', f', hadd, hobj', htaken, hemitted, hdrained⟩ :=
      xzDecodeAdd_onFile hdec hobj hgiven hfuel
    rw [← htaken] at hall
    obtain ⟨out, hrest, hout⟩ := ih hobj' hall hdrained
    refine ⟨ret.bytes ++ out, ?_, ?_⟩
    · simp only [decodeChunks, hadd, hrest, ok_bind, pure_eq_ok]
    · rw [← hout, hemitted, List.append_assoc]

/-- A context with `XZ_CONCATENATED` and no memory limit has the decoder of the other two ways. -/
theorem xzDecodeInit_concatenated {ini : Ini} {options : Options}
    (hinit : L.lzmaAutoDecoder UINT64_MAX LZMA_CONCATENATED = .ok s₀)
    (hflags : options "flags" = some XZ_CONCATENATED)
    (hlimit : phpXzOptGetLong (some options) "memory_limit" ini.maxMemory = 0)
    (hobj : xzDecodeInit L ini (some XZ_FORMAT_XZ) (some options) = .value obj) :
    obj.OnFile L.coder s₀ {} := by
  have hfresh := xzDecodeInit_fresh hobj
  have hflags' : phpXzOptGetLong (some options) "flags" 0 = XZ_CONCATENATED := by
    rw [phpXzOptGetLong, hflags]
    rfl
  have hmax : memoryLimitOrMax (castUInt64 0) = UINT64_MAX := by decide
  have hcast : castUInt32 XZ_CONCATENATED = LZMA_CONCATENATED := by decide
  have hraw : ¬ XZ_FORMAT_XZ = XZ_FORMAT_RAW := by decide
  simp only [xzDecodeInit, hflags', hlimit, createDecoder, Option.getD_some, if_neg hraw, hmax, hcast,
    hinit, Except.toOption] at hobj
  have hinternal : obj.strm.internal = s₀ := by
    split at hobj
    · cases hobj
    split at hobj
    · cases hobj
    split at hobj
    · cases hobj
    · cases hobj
      rfl
  refine ⟨?_, rfl, rfl, ?_⟩
  · rw [hinternal]
    exact .start
  · rw [hfresh.2]
    decide

/-! ## Any pieces -/

/-- The pieces in which a file is still to be read. -/
structure Pieces where
  pieces : List (List UInt8)
  nonempty : ∀ p ∈ pieces, p ≠ []

def Pieces.left (st : Pieces) : List UInt8 := st.pieces.flatten

def Pieces.read (st : Pieces) (n : Nat) :
    Option { bytes : List UInt8 // bytes.length ≤ n } × Pieces :=
  match st with
  | ⟨[], h⟩ => (some ⟨[], Nat.zero_le _⟩, ⟨[], h⟩)
  | ⟨p :: ps, h⟩ =>
    if hfit : p.length ≤ n then
      (some ⟨p, hfit⟩, ⟨ps, fun q hq => h q (List.mem_cons_of_mem _ hq)⟩)
    else
      (some ⟨p.take n, List.length_take_le _ _⟩, ⟨p.drop n :: ps, by
        intro q hq
        rcases List.mem_cons.mp hq with rfl | hq
        · rw [ne_eq, List.drop_eq_nil_iff]
          exact hfit
        · exact h q (List.mem_cons_of_mem _ hq)⟩)

/-- A file whose stream hands out the pieces, one a read, as far as they fit, and shows its end with the
last one. -/
def pieceStream : Inner Pieces where
  read := Pieces.read
  write st _ := (none, st)
  flush := id
  eof st := st.pieces.isEmpty

theorem pieceStream_file : FileStream pieceStream Pieces.left where
  read := by
    rintro ⟨ps, h⟩ n hn
    cases ps with
    | nil => exact ⟨_, _, rfl, rfl, fun hne => absurd rfl hne, fun _ => rfl⟩
    | cons p ps =>
      have hp : p ≠ [] := h p List.mem_cons_self
      by_cases hfit : p.length ≤ n
      · exact ⟨_, _, dif_pos hfit, rfl, fun _ => hp, fun hnil => absurd hnil hp⟩
      · have htake : p.take n ≠ [] := by
          rw [ne_eq, List.take_eq_nil_iff]
          rintro (hzero | hnil)
          · omega
          · exact hp hnil
        refine ⟨_, _, dif_neg hfit, ?_, fun _ => htake, fun hnil => absurd hnil htake⟩
        show p ++ ps.flatten = p.take n ++ (p.drop n ++ ps.flatten)
        rw [← List.append_assoc, List.take_append_drop]
  eof := by
    rintro ⟨ps, h⟩ hend
    have hnil : ps = [] := List.isEmpty_iff.mp hend
    show ps.flatten = []
    rw [hnil, List.flatten_nil]

/-- It hands out exactly the pieces. -/
theorem pieceStream_reads {st₀ st : Pieces} {ps : List (List UInt8)}
    (hfit : ∀ p ∈ st₀.pieces, p.length ≤ XZ_BUFFER_SIZE) (h : Reads pieceStream st₀ ps st) :
    ps ++ st.pieces = st₀.pieces := by
  induction h with
  | start => rfl
  | @read ps st st' bytes _ hread hne ih =>
    obtain ⟨rest, hrest⟩ := st
    cases rest with
    | nil =>
      cases hread
      exact absurd rfl hne
    | cons p rest =>
      have hp : p.length ≤ XZ_BUFFER_SIZE := by
        apply hfit
        rw [← ih]
        exact List.mem_append_right _ List.mem_cons_self
      have hread' : Pieces.read ⟨p :: rest, hrest⟩ XZ_BUFFER_SIZE = _ := dif_pos hp
      obtain ⟨hbytes, rfl⟩ := Prod.mk.inj (hread'.symm.trans hread)
      cases hbytes
      rw [← ih]
      show (ps ++ [p]) ++ rest = ps ++ p :: rest
      rw [List.append_assoc, List.singleton_append]

/-- Once nothing is left, no pieces are. -/
theorem Pieces.pieces_of_left {st : Pieces} (h : st.left = []) : st.pieces = [] := by
  by_contra hne
  obtain ⟨p, hp⟩ := List.exists_mem_of_ne_nil _ hne
  exact st.nonempty p hp (List.flatten_eq_nil_iff.mp h p hp)

/-! ## All three -/

/-- The three ways to decode `s` hand out `D`: in one call, through a context in whatever chunks, and
through a stream, however it hands out the file and in reads of whatever sizes. -/
structure DecodePathsAgree (L : Liblzma σ) (fuel : Nat) (s D : List UInt8) : Prop where
  oneShot : phpXzDecodeString L fuel s 0 = .ok (some D)
  chunks : ∀ (ini : Ini) (options : Options) (obj : XzDecodeContext σ),
    options "flags" = some XZ_CONCATENATED →
    phpXzOptGetLong (some options) "memory_limit" ini.maxMemory = 0 →
    xzDecodeInit L ini (some XZ_FORMAT_XZ) (some options) = .value obj →
    ∀ chunks : List (List UInt8), chunks.flatten = s → decodeChunks L fuel obj chunks = .ok D
  stream : ∀ (ι : Type) (io : Inner ι) (left : ι → List UInt8) (st : ι) (ctx : XzStreamCtx σ ι),
    FileStream io left → left st = s → phpXzInitDecoder L 0 st = some ctx →
    ∀ counts : List Nat, ∃ bytes ended, readAll L.coder io fuel ctx counts = .ok (bytes, ended) ∧
      ended ≠ .error ∧ (ended = .eof → bytes = D) ∧ (D.length < counts.sum → ended = .eof)

/-- The one-shot function returns `D` when nothing waits. -/
theorem NothingWaits.oneShot (hwaits : NothingWaits L.coder s₀ s D)
    (hinit : L.lzmaAutoDecoder (memoryLimitOrMax 0) LZMA_CONCATENATED = .ok s₀)
    (hdec : Decodes L.coder s₀ s D) (hfuel : s.length + D.length < fuel) :
    phpXzDecodeString L fuel s 0 = .ok (some D) := by
  obtain ⟨f, st, hfed, hresult⟩ := phpXzDecodeString_spec hinit hdec List.prefix_rfl fuel hfuel
  rw [hresult, hwaits [s] (List.append_nil s) (Or.inl rfl) f st hfed]

/-- What has been read at the end is `D` when nothing waits. -/
theorem NothingWaits.readOut {ι : Type} {io : Inner ι} {left : ι → List UInt8} {st : ι}
    {bytes : List UInt8} (hwaits : NothingWaits L.coder s₀ s D) (hfile : FileStream io left)
    (hleft : left st = s) (hout : ReadOut L.coder s₀ io left st D bytes) : bytes = D := by
  obtain ⟨ps, st₁, f₀, s₁, hreads, hnone, hfed, hbefore, -⟩ := hout.fed
  have hflat : ps.flatten = s := by
    have h := hreads.left_eq hfile
    rw [hnone, List.append_nil, hleft] at h
    exact h.symm
  have hD : f₀.emitted = D := hwaits ps hflat (Or.inr hreads.pieces) f₀ s₁ hfed
  rw [hD] at hbefore
  exact hout.decoded.eq_of_length_le hbefore.length_le

/-- What the one-shot function returns shows what comes out of the file in one piece. -/
theorem DecodePathsAgree.emitted_whole {st : σ} (h : DecodePathsAgree L fuel s D)
    (hinit : L.lzmaAutoDecoder (memoryLimitOrMax 0) LZMA_CONCATENATED = .ok s₀)
    (hdec : Decodes L.coder s₀ s D) (hfuel : s.length + D.length < fuel)
    (hfed : ConsumesAll L.coder {} s₀ [s] f st) : f.emitted = D := by
  obtain ⟨f', st', hfed', hresult⟩ := phpXzDecodeString_spec hinit hdec List.prefix_rfl fuel hfuel
  obtain ⟨rfl, -⟩ := hfed.unique hfed'
  rw [h.oneShot] at hresult
  cases hresult
  rfl

/-- What is read from a stream that hands out the pieces shows what comes out of them. -/
theorem DecodePathsAgree.emitted_pieces {st : σ} {ps : List (List UInt8)}
    (h : DecodePathsAgree L fuel s D)
    (hinit : L.lzmaAutoDecoder (memoryLimitOrMax 0) LZMA_CONCATENATED = .ok s₀)
    (hdec : Decodes L.coder s₀ s D) (hfuel : s.length + D.length + 1 < fuel) (hflat : ps.flatten = s)
    (hpieces : ∀ p ∈ ps, p ≠ [] ∧ p.length ≤ XZ_BUFFER_SIZE)
    (hfed : ConsumesAll L.coder {} s₀ ps f st) : f.emitted = D := by
  let st₀ : Pieces := ⟨ps, fun p hp => (hpieces p hp).1⟩
  have hleft₀ : st₀.left = s := hflat
  obtain ⟨ctx, hopen⟩ : ∃ ctx, phpXzInitDecoder L 0 st₀ = some ctx := by
    simp only [phpXzInitDecoder, phpXzDecoderInitStream, hinit, Except.toOption, Option.map_some]
    exact ⟨_, rfl⟩
  -- one read that asks for more than there is
  obtain ⟨bytes, ended, hread, -, hout, hend⟩ := readAll_file hinit hopen pieceStream_file hdec
    (hleft₀ ▸ List.prefix_rfl) [D.length + 1] fuel hfuel
  obtain ⟨bytes', ended', hread', -, hD, -⟩ :=
    h.stream _ _ _ _ ctx pieceStream_file hleft₀ hopen [D.length + 1]
  obtain ⟨rfl, rfl⟩ := Prod.mk.inj (Except.ok.inj (hread.symm.trans hread'))
  have heof : ended = .eof := hend (by simp)
  -- it has taken exactly the pieces
  obtain ⟨ps', st₁, f₀, s₁, hreads, hnone, hfed', -, hall⟩ := (hout heof).fed
  have hlast : st₁.pieces = [] := Pieces.pieces_of_left hnone
  have hps := pieceStream_reads (fun p hp => (hpieces p hp).2) hreads
  rw [hlast, List.append_nil] at hps
  obtain rfl : ps' = ps := hps
  obtain ⟨rfl, -⟩ := hfed.unique hfed'
  have hshown : pieceStream.eof st₁ = true := List.isEmpty_iff.mpr hlast
  rw [← hall hshown, hD heof]

/-- **The three decode paths.** On a complete file they agree if and only if nothing is still inside the
decoder when it has taken the last byte. -/
theorem decode_paths_agree_iff (hinit : L.lzmaAutoDecoder UINT64_MAX LZMA_CONCATENATED = .ok s₀)
    (hdec : DecodesWhole L.coder s₀ s D) (fuel : Nat) (hfuel : s.length + D.length + 1 < fuel) :
    DecodePathsAgree L fuel s D ↔ NothingWaits L.coder s₀ s D := by
  have hinit' : L.lzmaAutoDecoder (memoryLimitOrMax 0) LZMA_CONCATENATED = .ok s₀ := hinit
  have hshort : s.length + D.length < fuel := by omega
  constructor
  · rintro h ps hflat (rfl | hpieces) f st hfed
    · exact h.emitted_whole hinit' hdec.toDecodes hshort hfed
    · exact h.emitted_pieces hinit' hdec.toDecodes hfuel hflat hpieces hfed
  · intro hwaits
    refine ⟨hwaits.oneShot hinit' hdec.toDecodes hshort, ?_, ?_⟩
    · intro ini options obj hflags hlimit hobj chunks hflat
      have honFile := xzDecodeInit_concatenated hinit hflags hlimit hobj
      have hroom : D.length < fuel := by omega
      have hsome : ({} : Feed).taken = s → ({} : Feed).emitted = D :=
        fun hnil => absurd hnil.symm hdec.nonempty
      obtain ⟨out, hdecode, hout⟩ := decodeChunks_onFile hdec hroom chunks honFile hflat hsome
      rw [hdecode, show out = D from hout]
    · intro ι io left st ctx hfile hleft hopen counts
      obtain ⟨bytes, ended, hread, herror, hout, hend⟩ := readAll_file hinit' hopen hfile
        hdec.toDecodes (hleft ▸ List.prefix_rfl) counts fuel hfuel
      exact ⟨bytes, ended, hread, herror, fun heof => hwaits.readOut hfile hleft (hout heof), hend⟩

/-- A file of the format with marks. -/
theorem decode_paths_agree_iff_marked :
    DecodePathsAgree markLiblzma 8 [1, 7, 1, 8] [7, 8] ↔
      NothingWaits storedCoder markTable.start [1, 7, 1, 8] [7, 8] :=
  decode_paths_agree_iff rfl (markTable_decodesWhole [7, 8] (by decide)) 8 (by decide)

/-! ## A file that the one-shot function cuts off -/

/-- The byte 1 decodes to more than fits into a buffer; everything else is rejected. -/
def burst (x : List UInt8) : List UInt8 := if x = [] then [] else List.replicate 5000 0

theorem burst_mono {x y : List UInt8} (h : x <+: y) : burst x <+: burst y := by
  by_cases hx : x = []
  · rw [hx]
    exact List.nil_prefix
  · have hy : y ≠ [] := by
      rintro rfl
      exact hx (List.prefix_nil.mp h)
    have hsame : burst y = burst x := by rw [burst, burst, if_neg hx, if_neg hy]
    exact hsame ▸ List.prefix_rfl

def burstTable : Table where
  out := burst
  verdict x := if x = [] ∨ x = [1] then .more else .failed
  atEnd x := if x = [1] then .ended else .more
  out_nil := rfl
  out_mono := burst_mono
  verdict_nil := rfl

def burstLiblzma : Liblzma StoredState := tableLiblzma markEncoder burstTable

/-- All input has been taken while decoded bytes wait for room; they are never fetched. -/
theorem long_output_cut_off :
    DecodesWhole storedCoder burstTable.start [1] (burst [1]) ∧
      ¬ DecodePathsAgree burstLiblzma 5003 [1] (burst [1]) := by
  have hdec : DecodesWhole storedCoder burstTable.start [1] (burst [1]) := by
    refine burstTable.decodesWhole (by decide) (fun z hz => if_pos ?_) rfl
    rcases List.prefix_cons_iff.mp hz with hnil | ⟨t, rfl, ht⟩
    · exact Or.inl hnil
    · rw [List.prefix_nil.mp ht]
      exact Or.inr rfl
  refine ⟨hdec, ?_⟩
  intro h
  have hlen : (burst [1]).length = 5000 := List.length_replicate
  have hinit : burstLiblzma.lzmaAutoDecoder (memoryLimitOrMax 0) LZMA_CONCATENATED =
      .ok burstTable.start := rfl
  obtain ⟨f, st, hfed, hresult⟩ := phpXzDecodeString_spec hinit hdec.toDecodes List.prefix_rfl 5003
    (by rw [hlen]; decide)
  -- one call takes the byte and fills the room
  have hcut : ConsumesAll storedCoder {} burstTable.start [[1]] _ _ :=
    .cons (.call (by decide) rfl .done) .nil
  obtain ⟨rfl, -⟩ := hfed.unique hcut
  rw [h.oneShot] at hresult
  have heq : burst [1] = [] ++ (burst [1]).take XZ_BUFFER_SIZE := Option.some.inj (Except.ok.inj hresult)
  have hshort := congrArg List.length heq
  rw [List.nil_append, List.length_take, hlen] at hshort
  exact absurd hshort (by decide)

end PhpExtXz
