/-
# PhpExtXz.Interchange — every way in, every way out.

Streams can be made by `xzencode`, by an encode context and by writing a file, each with its own way of
saying a level; `.xz` files can be put one behind the other. Whatever ways the parts of an archive were
made in, every one of the ways to decode it returns the strings that went in, in order: one call of
`xzdecode`, a context that is given any chunks, and reads of any sizes (`interchange`).

The three ways to encode agree with each other at one and the same level, and so do the three ways to
decode on one file; here the parts come from encoders of different levels, checks and filters, and it is
only the decoder that knows what belongs together.
-/
import PhpExtXz.Files
import PhpExtXz.InitOptions
import PhpExtXz.Members
import PhpExtXz.OptionsHonoured
import PhpExtXz.Xz

namespace PhpExtXz

open FuelLoop Runs CString

variable {σ ι : Type}

/-! ## The ways in -/

/-- A string or `false`. -/
def PhpReturn.toOption : PhpReturn (List UInt8) → Option (List UInt8)
  | .value out => some out
  | _ => none

/-- A way to make a stream. -/
inductive Producer where
  /-- `xzencode(data, level)` -/
  | call (data : List UInt8) (level : Option ZendLong)
  /-- `xz_encode_init(XZ_FORMAT_XZ, options)`, `xz_encode_add` for each chunk, and `xz_encode_finish` -/
  | context (options : Option Options) (chunks : List (List UInt8))
  /-- `xzopen(path, mode, level)`, writes and flushes, and the close -/
  | file (path : List UInt8) (mode : WriteMode) (level : Option ZendLong) (ops : List XziopOp)

namespace Producer

/-- The string that goes in. -/
def data : Producer → List UInt8
  | .call data _ => data
  | .context _ chunks => chunks.flatten
  | .file _ _ _ ops => ops.flatMap (·.bytes)

/-- Only writes and flushes come before the close. -/
def Writes : Producer → Prop
  | .file _ _ _ ops => ∀ op ∈ ops, op.isRead = false ∧ op.isClose = false
  | _ => True

/-- What is asked for is in range, or `xz_encode_init` returns a context. -/
def accepted (L : Liblzma σ) (ini : Ini) : Producer → Bool
  | .call _ level =>
    !decide (BadLevel (if level.getD (-1) = -1 then ini.compressionLevel else level.getD (-1)))
  | .context options _ =>
    match xzEncodeInit L ini none options with
    | .value _ => true
    | _ => false
  | .file _ _ level _ => !decide (BadLevel (level.getD ini.compressionLevel))

/-- What comes out: the string that is returned, the results of the calls one behind the other, or what the
file holds. -/
def produce (L : Liblzma σ) {io : Inner ι} (P : PlainFiles io) (ini : Ini) (fuel : Nat) :
    Producer → Exec MemoryFault (Option (List UInt8))
  | .call data level => do
    let ret ← xzencode L ini fuel data level none
    pure ret.toOption
  | .context options chunks =>
    match xzEncodeInit L ini none options with
    | .value obj => do
      let out ← encodeChunks L fuel obj chunks
      pure (some out)
    | _ => pure none
  | .file path mode level ops =>
    match xzopen L (P.layer fun _ => []) ini path mode.1 level with
    | (none, _) => pure none
    | (some self, _) => do
      let (_, self) ← perform (xziop L.coder io fuel) self (ops ++ [.close])
      pure (some (P.content self.stream))

end Producer

/-- The parts, one behind the other. -/
def archive (parts : List (Option (List UInt8))) : List UInt8 := parts.flatMap (·.getD [])

/-! ## The ways out -/

/-- A way to decode. -/
inductive Consumer where
  /-- `xzdecode(archive)` -/
  | call
  /-- `xz_decode_init(XZ_FORMAT_XZ, ['flags' => XZ_CONCATENATED])`, `xz_decode_add` for each piece that the
  archive is cut into, and `xz_decode_finish` -/
  | context (cut : Cutting)
  /-- `xzopen(path, mode)` on a file that holds the archive, and reads -/
  | file (path : List UInt8) (mode : ReadMode) (counts : List Nat)

namespace Consumer

def consume (L : Liblzma σ) {io : Inner ι} (P : PlainFiles io) (ini : Ini) (fuel : Nat)
    (archive : List UInt8) : Consumer → Exec MemoryFault (Option (List UInt8))
  | .call => do
    let ret ← xzdecode L ini fuel archive none
    pure ret.toOption
  | .context cut =>
    match xzDecodeInit L ini none (some (oneOption "flags" XZ_CONCATENATED)) with
    | .value obj => do
      let out ← decodeChunks L fuel obj (cut.1 archive)
      pure (some out)
    | _ => pure none
  | .file path mode counts =>
    match xzopen L (P.layer fun _ => archive) ini path mode.1 none with
    | (none, _) => pure none
    | (some self, _) => do
      let (rs, _) ← perform (xziop L.coder io fuel) self (counts.map .read)
      pure (some (rs.flatMap (·.bytes)))

/-- What comes out: all of `data`, or as much of it as the reads ask for. An open for reading looks at the
level, too. -/
def Gets (ini : Ini) (data : List UInt8) : Consumer → Option (List UInt8) → Prop
  | .file _ _ counts, r =>
    r = if BadLevel ini.compressionLevel then none else some (data.take counts.sum)
  | _, r => r = some data

end Consumer

/-! ## What belongs together -/

/-- **The coders belong together**: what an encoder of `.xz` streams puts out for a string is a member with
this string, and the decoder decodes members one behind the other. -/
structure ArchiveCoders (L : Liblzma σ) (maxMemory : ZendLong) (Member : List UInt8 → List UInt8 → Prop) :
    Prop where
  /-- the encoders of the levels exist -/
  levels : ∀ level ≤ 9, ∃ s, phpXzEncoderInitStream L level = some s
  encoder : ∀ {filters check s}, L.lzmaStreamEncoder filters check = .ok s →
    ∃ Enc, HealthyEncoder L.coder s Enc ∧ ∀ data, Member (Enc data) data
  decoder : ∃ s, L.lzmaAutoDecoder (memoryLimitOrMax (castUInt64 maxMemory)) LZMA_CONCATENATED = .ok s ∧
    ∀ {members datas}, List.Forall₂ Member members datas → members.flatten ≠ [] →
      DecodesWhole L.coder s members.flatten datas.flatten ∧
        EmitsAll L.coder s members.flatten datas.flatten

/-- What a producer leaves. -/
def Producer.Leaves (L : Liblzma σ) (ini : Ini) (Member : List UInt8 → List UInt8 → Prop) (job : Producer) :
    Option (List UInt8) → Prop
  | none => job.accepted L ini = false
  | some part => job.accepted L ini = true ∧ Member part job.data

section Interchange

variable {L : Liblzma σ} {ini : Ini} {Member : List UInt8 → List UInt8 → Prop} {io : Inner ι}
  {job : Producer}

/-- The encoder of a level. -/
theorem ArchiveCoders.level (h : ArchiveCoders L ini.maxMemory Member) {level : UInt32} (hlevel : level ≤ 9) :
    ∃ preset s Enc, L.lzmaLzmaPreset level = some preset ∧
      L.lzmaStreamEncoder (lzma2Filters preset) LZMA_CHECK_CRC64 = .ok s ∧
      phpXzEncoderInitStream L level = some s ∧ HealthyEncoder L.coder s Enc ∧
      ∀ data, Member (Enc data) data := by
  obtain ⟨s, hs⟩ := h.levels level hlevel
  have hinit := hs
  unfold phpXzEncoderInitStream at hinit
  cases hpreset : L.lzmaLzmaPreset level with
  | none =>
    rw [hpreset] at hinit
    cases hinit
  | some preset =>
    rw [hpreset] at hinit
    have hcreated : L.lzmaStreamEncoder (lzma2Filters preset) LZMA_CHECK_CRC64 = .ok s :=
      toOption_eq_some hinit
    obtain ⟨Enc, henc, hmember⟩ := h.encoder hcreated
    exact ⟨preset, s, Enc, rfl, hcreated, hs, henc, hmember⟩

theorem Producer.leaves_none (h : job.accepted L ini = false) : job.Leaves L ini Member none := h

/-! ## Making a part -/

/-- In one call. -/
theorem produce_call (hcoders : ArchiveCoders L ini.maxMemory Member) (P : PlainFiles io) (data : List UInt8)
    (level : Option ZendLong) :
    Returns (fun fuel => Producer.produce L P ini fuel (.call data level))
      (Producer.Leaves L ini Member (.call data level)) := by
  by_cases hlevel : BadLevel (if level.getD (-1) = -1 then ini.compressionLevel else level.getD (-1))
  · have hrefused : ∀ fuel,
        xzencode L ini fuel data level none = .ok (.valueError 2 "must be between -1 and 9") :=
      fun _ => if_pos hlevel
    simp only [Producer.produce, hrefused]
    exact .ok (Producer.leaves_none (by simp only [Producer.accepted, hlevel, decide_true, Bool.not_true]))
  · obtain ⟨preset, s, Enc, hpreset, hcreated, -, henc, hmember⟩ := hcoders.level (castUInt32_le_nine hlevel)
    refine ⟨data.length + (Enc data).length, some (Enc data), fun fuel hfuel => ?_, ?_, hmember data⟩
    · have hencoded := phpXzEncodeString_spec hpreset hcreated henc data fuel hfuel
      have hformat : ¬ (XZ_FORMAT_XZ ≠ XZ_FORMAT_XZ ∧ XZ_FORMAT_XZ ≠ XZ_FORMAT_RAW) := fun h => h.1 rfl
      have hrange : ¬ ((if level.getD (-1) = -1 then ini.compressionLevel else level.getD (-1)) < 0 ∨
        (if level.getD (-1) = -1 then ini.compressionLevel else level.getD (-1)) > 9) := hlevel
      simp only [Producer.produce, xzencode, Option.getD_none, if_neg hrange, if_neg hformat, hencoded, ok_bind,
        pure_eq_ok, returnStr, PhpReturn.toOption]
    · simp only [Producer.accepted, hlevel, decide_false, Bool.not_false]

/-- Chunk by chunk. -/
theorem produce_context (hcoders : ArchiveCoders L ini.maxMemory Member) (P : PlainFiles io)
    (options : Option Options) (chunks : List (List UInt8)) :
    Returns (fun fuel => Producer.produce L P ini fuel (.context options chunks))
      (Producer.Leaves L ini Member (.context options chunks)) := by
  cases hinit : xzEncodeInit L ini none options with
  | value obj =>
    obtain ⟨-, preset, s, -, hcreated, hstrm, hstatus, -⟩ := xzEncodeInit_value hinit
    have hstream : L.lzmaStreamEncoder _ _ = .ok s := (if_neg (by decide)).symm.trans hcreated
    obtain ⟨Enc, henc, hmember⟩ := hcoders.encoder hstream
    have hlive : obj.Live L.coder s {} := by
      refine ⟨?_, rfl, by rw [hstatus]; decide⟩
      rw [hstrm]
      exact .start
    refine ⟨(Enc chunks.flatten).length, some (Enc chunks.flatten), fun fuel hfuel => ?_, ?_, hmember _⟩
    · obtain ⟨out, hout, hall⟩ := encodeChunks_spec henc fuel chunks hlive hfuel
      obtain rfl : out = Enc chunks.flatten := hall
      simp only [Producer.produce, hinit, hout, ok_bind, pure_eq_ok]
    · simp only [Producer.accepted, hinit]
  | returnFalse warning =>
    simp only [Producer.produce, hinit]
    exact .ok (Producer.leaves_none (by simp only [Producer.accepted, hinit]))
  | valueError arg message =>
    simp only [Producer.produce, hinit]
    exact .ok (Producer.leaves_none (by simp only [Producer.accepted, hinit]))

/-- Through a file. -/
theorem produce_file (hcoders : ArchiveCoders L ini.maxMemory Member) (P : PlainFiles io) (path : List UInt8)
    (mode : WriteMode) (level : Option ZendLong) {ops : List XziopOp}
    (hops : ∀ op ∈ ops, op.isRead = false ∧ op.isClose = false) :
    Returns (fun fuel => Producer.produce L P ini fuel (.file path mode level ops))
      (Producer.Leaves L ini Member (.file path mode level ops)) := by
  by_cases hlevel : BadLevel (level.getD ini.compressionLevel)
  · have hopen := xzopen_badLevel L P (fun _ => []) path level (Or.inl mode.2) hlevel
    simp only [Producer.produce, hopen]
    exact .ok (Producer.leaves_none (by simp only [Producer.accepted, hlevel, decide_true, Bool.not_true]))
  · obtain ⟨preset, s, Enc, -, -, hinit, henc, hmember⟩ := hcoders.level (castUInt32_le_nine hlevel)
    obtain ⟨inner, hempty, hopen⟩ := xzopen_encoder L P (fun _ => []) path mode hlevel
    rw [hinit] at hopen
    obtain ⟨rs, ctx', hrun, hcontent⟩ := perform_writes henc P.accepts ops (freshCtx_encoding hempty s L.coder)
      rfl rfl hops (Nat.lt_succ_self _)
    rw [List.nil_append, List.nil_append] at hcontent
    match hxzopen : xzopen L (P.layer fun _ => []) ini path mode.1 level with
    | (none, ledger) =>
      rw [hxzopen] at hopen
      cases hopen
    | (some self, ledger) =>
      rw [hxzopen] at hopen
      obtain rfl := Option.some.inj hopen
      simp only [Producer.produce, hxzopen]
      apply (returns_of_perform (Q := (· = (rs, ctx'))) hrun rfl).bind
      rintro _ rfl
      refine .ok ⟨?_, ?_⟩
      · simp only [Producer.accepted, hlevel, decide_false, Bool.not_false]
      · rw [hcontent]
        exact hmember _

/-- **A part** is a member with the string that went in, or the producer was refused. -/
theorem produce_leaves (hcoders : ArchiveCoders L ini.maxMemory Member) (P : PlainFiles io) (hjob : job.Writes) :
    Returns (fun fuel => job.produce L P ini fuel) (job.Leaves L ini Member) := by
  cases job with
  | call data level => exact produce_call hcoders P data level
  | context options chunks => exact produce_context hcoders P options chunks
  | file path mode level ops => exact produce_file hcoders P path mode level hjob

/-- Who has left a part. -/
theorem map_isSome_parts {jobs : List Producer} {parts : List (Option (List UInt8))}
    (h : List.Forall₂ (Producer.Leaves L ini Member) jobs parts) :
    parts.map Option.isSome = jobs.map (·.accepted L ini) := by
  induction h with
  | nil => rfl
  | @cons job part jobs parts hleaves _ ih =>
    rw [List.map_cons, List.map_cons, ih]
    cases part with
    | none => exact congrArg (· :: _) (Eq.symm hleaves)
    | some part => exact congrArg (· :: _) hleaves.1.symm

/-- The parts of an archive and the strings that went in. -/
theorem archive_members {jobs : List Producer} {parts : List (Option (List UInt8))}
    (h : List.Forall₂ (Producer.Leaves L ini Member) jobs parts) :
    ∃ members datas, List.Forall₂ Member members datas ∧ members.flatten = archive parts ∧
      datas.flatten = (jobs.filter (·.accepted L ini)).flatMap (·.data) := by
  induction h with
  | nil => exact ⟨[], [], .nil, rfl, rfl⟩
  | @cons job part jobs parts hleaves _ ih =>
    obtain ⟨members, datas, hmembers, hparts, hdatas⟩ := ih
    cases part with
    | none =>
      have hrefused : job.accepted L ini = false := hleaves
      refine ⟨members, datas, hmembers, hparts, ?_⟩
      rw [List.filter_cons_of_neg (by rw [hrefused]; exact Bool.false_ne_true)]
      exact hdatas
    | some part =>
      obtain ⟨haccepted, hmember⟩ : job.accepted L ini = true ∧ Member part job.data := hleaves
      refine ⟨part :: members, job.data :: datas, .cons hmember hmembers, ?_, ?_⟩
      · rw [List.flatten_cons, hparts]
        rfl
      · rw [List.flatten_cons, hdatas, List.filter_cons_of_pos haccepted, List.flatMap_cons]

/-! ## Decoding the parts -/

section Decoding

variable {s : σ} {joined D : List UInt8}
  (hauto : L.lzmaAutoDecoder (memoryLimitOrMax (castUInt64 ini.maxMemory)) LZMA_CONCATENATED = .ok s)

include hauto in
/-- In one call. -/
theorem consume_call (P : PlainFiles io) (hdec : DecodesWhole L.coder s joined D)
    (hall : EmitsAll L.coder s joined D) :
    Returns (fun fuel => Consumer.consume L P ini fuel joined .call) (· = some D) := by
  refine ⟨joined.length + D.length, some D, fun fuel hfuel => ?_, rfl⟩
  obtain ⟨f, st, hfed, hdecoded⟩ := phpXzDecodeString_spec hauto hdec.toDecodes List.prefix_rfl fuel hfuel
  obtain ⟨hreach, hf, htaken⟩ := hfed.reaches .start rfl
  have htaken' : f.taken = joined := htaken.trans (List.append_nil joined)
  have hfine := hfed.notFailed hdec.toDecodes .start rfl rfl (by simp)
  rw [hall f st hreach hf hfine htaken'] at hdecoded
  have hsome : ¬ joined.length = 0 := fun hnil => hdec.nonempty (List.eq_nil_of_length_eq_zero hnil)
  have hlimit : ¬ (-1 : ZendLong) < -1 := by decide
  simp only [Consumer.consume, xzdecode, Option.getD_none, if_neg hsome, if_neg hlimit, if_true, hdecoded, ok_bind,
    pure_eq_ok, returnStr, PhpReturn.toOption]

include hauto in
/-- The context of a consumer has the decoder of the other two. -/
theorem xzDecodeInit_flags :
    ∃ obj, xzDecodeInit L ini none (some (oneOption "flags" XZ_CONCATENATED)) = .value obj ∧
      obj.OnFile L.coder s {} := by
  refine ⟨⟨.init s, .ok, castUInt32 XZ_FORMAT_XZ⟩, ?_, .start, rfl, rfl, nofun⟩
  have hfilter : isValidFilter LZMA_FILTER_LZMA2.toInt64 = true := by decide
  have hparams : xzDecodeValidateLzmaParams (-1) (-1) (-1) 0 = true := by decide
  have hformat : ¬ XZ_FORMAT_XZ = XZ_FORMAT_RAW := by decide
  have hcast : castUInt32 XZ_CONCATENATED = LZMA_CONCATENATED := by decide
  simp [xzDecodeInit, phpXzOptGetLong, oneOption, createDecoder, hfilter, hparams, hformat, hcast, hauto,
    Except.toOption]

include hauto in
/-- Chunk by chunk. -/
theorem consume_context (P : PlainFiles io) (hdec : DecodesWhole L.coder s joined D) (cut : Cutting) :
    Returns (fun fuel => Consumer.consume L P ini fuel joined (.context cut)) (· = some D) := by
  obtain ⟨obj, hinit, hobj⟩ := xzDecodeInit_flags hauto
  refine ⟨D.length, some D, fun fuel hfuel => ?_, rfl⟩
  obtain ⟨out, hout, hD⟩ := decodeChunks_onFile hdec hfuel (cut.1 joined) hobj (cut.2 joined)
    fun hnil => absurd hnil.symm hdec.nonempty
  obtain rfl : out = D := hD
  simp only [Consumer.consume, hinit, hout, ok_bind, pure_eq_ok]

include hauto in
/-- Through a file. -/
theorem consume_file (P : PlainFiles io) (hdec : Decodes L.coder s joined D) (hall : EmitsAll L.coder s joined D)
    (path : List UInt8) (mode : ReadMode) (counts : List Nat) :
    Returns (fun fuel => Consumer.consume L P ini fuel joined (.file path mode counts))
      (Consumer.Gets ini D (.file path mode counts)) := by
  by_cases hlevel : BadLevel ini.compressionLevel
  · have hopen := xzopen_badLevel L P (fun _ => joined) path none (Or.inr mode.2) hlevel
    simp only [Consumer.consume, hopen]
    exact .ok (if_pos hlevel).symm
  · obtain ⟨inner, self, ledger, hopen, hleft, hstart⟩ := xzopen_reader hauto P (fun _ => joined) path mode hlevel
    simp only [Consumer.consume, hopen]
    apply (perform_reads_whole P.file hdec hall hleft counts hstart).bind
    rintro ⟨rs, ctx'⟩ hread
    exact .ok ((congrArg some hread).trans (if_neg hlevel).symm)

end Decoding

/-- **Every way in, every way out.** Every producer returns, and leaves a part unless what it is asked for is
out of range or `xz_encode_init` refuses it. From the archive that the parts make up, every consumer gets
the strings of the producers that left one, in their order. -/
theorem interchange (hcoders : ArchiveCoders L ini.maxMemory Member) (P : PlainFiles io) (jobs : List Producer)
    (hjobs : ∀ job ∈ jobs, job.Writes) :
    Returns (fun fuel => jobs.mapM (Producer.produce L P ini fuel)) fun parts =>
      parts.map Option.isSome = jobs.map (·.accepted L ini) ∧
      (archive parts ≠ [] → ∀ consumer : Consumer,
        Returns (fun fuel => consumer.consume L P ini fuel (archive parts))
          (consumer.Gets ini ((jobs.filter (·.accepted L ini)).flatMap (·.data)))) := by
  obtain ⟨n, parts, hparts, hleaves⟩ := Returns.mapM fun job hmem => produce_leaves hcoders P (hjobs job hmem)
  refine ⟨n, parts, hparts, map_isSome_parts hleaves, fun hne consumer => ?_⟩
  obtain ⟨members, datas, hmembers, harchive, hdatas⟩ := archive_members hleaves
  obtain ⟨s, hauto, hdecodes⟩ := hcoders.decoder
  obtain ⟨hdec, hall⟩ := hdecodes hmembers (harchive ▸ hne)
  rw [harchive, hdatas] at hdec hall
  cases consumer with
  | call => exact consume_call hauto P hdec hall
  | context cut => exact consume_context hauto P hdec cut
  | file path mode counts => exact consume_file hauto P hdec.toDecodes hall path mode counts

end Interchange

/-! ### With the format with marks -/

theorem mark_flatten (datas : List (List UInt8)) : mark datas.flatten = (datas.map mark).flatten := by
  induction datas with
  | nil => rfl
  | cons data datas ih =>
    rw [List.flatten_cons, List.map_cons, List.flatten_cons, ← ih]
    exact List.flatMap_append

theorem markLiblzma_archiveCoders (maxMemory : ZendLong) :
    ArchiveCoders markLiblzma maxMemory fun member data => member = mark data where
  levels level hlevel := by
    obtain ⟨s, hinit, -⟩ := (markLiblzma_fileCoders maxMemory).encoder level hlevel
    exact ⟨s, hinit⟩
  encoder := by
    rintro filters check s hcreated
    cases hcreated
    exact ⟨mark, markEncoder_healthyEncoder, fun _ => rfl⟩
  decoder := by
    refine ⟨markTable.start, rfl, fun {members datas} hmembers hne => ?_⟩
    obtain hsame : members = datas.map mark :=
      List.forall₂_eq_eq_eq ▸ List.forall₂_map_right_iff.mpr hmembers
    rw [hsame, ← mark_flatten] at hne ⊢
    refine ⟨markTable_decodesWhole _ ?_, ?_⟩
    · intro hnil
      rw [hnil] at hne
      exact hne rfl
    · intro f st hreach _ _ htaken
      rw [markTable_emitted hreach, htaken, unmark_mark]

/-- One producer of each kind, and one that is refused. -/
def someJobs : List Producer :=
  [.call [1, 2] (some 9), .file [97] ⟨bytes ['w'], rfl⟩ (some 12) [.write [6]],
    .context (some (oneOption "level" 0)) [[3], [], [4]],
    .file [98] ⟨bytes ['w', 'b'], rfl⟩ none [.flush, .write [5]]]

theorem interchange_someJobs :
    Returns (fun fuel => someJobs.mapM (Producer.produce markLiblzma pipeFiles {} fuel)) fun parts =>
      parts.map Option.isSome = someJobs.map (·.accepted markLiblzma {}) ∧
      (archive parts ≠ [] → ∀ consumer : Consumer,
        Returns (fun fuel => consumer.consume markLiblzma pipeFiles {} fuel (archive parts))
          (consumer.Gets {} ((someJobs.filter (·.accepted markLiblzma {})).flatMap (·.data)))) := by
  have hjobs : ∀ job ∈ someJobs, job.Writes := by
    simp only [someJobs, List.forall_mem_cons, Producer.Writes]
    exact ⟨trivial, ⟨⟨rfl, rfl⟩, nofun⟩, trivial, ⟨⟨rfl, rfl⟩, ⟨rfl, rfl⟩, nofun⟩, nofun⟩
  exact interchange (markLiblzma_archiveCoders _) pipeFiles someJobs hjobs

end PhpExtXz
