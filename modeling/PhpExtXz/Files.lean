/-
# PhpExtXz.Files — xz files are a store.

A program uses xz files through `xzopen`: it opens a file for writing, writes and flushes, and closes
it; it opens a file for reading and reads. Where the files below keep what is written to them
(`PlainFiles`) and the coders belong together (`FileCoders`), a script of such sessions is a script on a
store of strings: a session that reads gets what the last session that wrote to this file has written,
however it was cut into writes and whatever sizes are read (`files_are_a_store`).

A session that writes may also die: the process goes away at some moment, and the file keeps the first
bytes of what it would have had. What is read from such a file is a prefix of what had been written.
-/
import Mathlib.Logic.Function.Basic
import PhpExtXz.EncodePaths
import PhpExtXz.LevelHonoured
import PhpExtXz.Lib.Components
import PhpExtXz.ReadExact

namespace PhpExtXz

open FuelLoop Runs CString XzStreamCtx

variable {σ ι : Type}

/-! ## The files below -/

/-- What each path holds. -/
abbrev Contents : Type := List UInt8 → List UInt8

/-- The stream layer over plain files. A stream opened for writing starts an empty file, which receives
what is written; a stream opened for reading hands out what the file holds. -/
structure PlainFiles (io : Inner ι) where
  layer : Contents → StreamLayer ι
  /-- what a stream opened for writing has received -/
  content : ι → List UInt8
  /-- what a stream opened for reading has not handed out -/
  left : ι → List UInt8
  accepts : Accepts io content
  file : FileStream io left
  write : ∀ files path mode, isWriteMode mode = true → ∃ inner,
    (layer files).openWrapper path mode = some inner ∧ (layer files).castFd inner = true ∧
      (layer files).alloc mode = true ∧ content inner = []
  read : ∀ files path mode, isReadMode mode = true → ∃ inner,
    (layer files).openWrapper path mode = some inner ∧ (layer files).castFd inner = true ∧
      (layer files).alloc mode = true ∧ left inner = files path

/-! ## Sessions -/

/-- A mode that opens for writing, and one that opens for reading. -/
abbrev WriteMode : Type := { mode : List UInt8 // isWriteMode (cString mode) = true }

abbrev ReadMode : Type := { mode : List UInt8 // isReadMode (cString mode) = true }

/-- What a program does with one file. -/
inductive FileSession where
  /-- open it for writing, write and flush, and close it; with `died = some n` the process dies before this
  is done, and the file keeps the first `n` of the bytes it would have had -/
  | put (path : List UInt8) (mode : WriteMode) (level : Option ZendLong) (ops : List XziopOp)
      (died : Option Nat)
  /-- open it for reading, and read -/
  | get (path : List UInt8) (mode : ReadMode) (counts : List Nat)

inductive FileResult where
  | refused
  | done
  | got (bytes : List UInt8)
  deriving DecidableEq, Repr

/-- A session. An open that fails when the file has been opened for writing leaves it empty. -/
def fileSession (L : Liblzma σ) {io : Inner ι} (P : PlainFiles io) (ini : Ini) (fuel : Nat)
    (files : Contents) : FileSession → Exec MemoryFault (FileResult × Contents)
  | .put path mode level ops died =>
    match xzopen L (P.layer files) ini path mode level with
    | (none, ledger) =>
      pure (.refused,
        if .openInner true ∈ ledger then Function.update files (openPath path) [] else files)
    | (some self, _) => do
      let (_, self) ← perform (xziop L.coder io fuel) self (ops ++ [.close])
      let written := P.content self.stream
      pure (.done, Function.update files (openPath path) ((died.map written.take).getD written))
  | .get path mode counts =>
    match xzopen L (P.layer files) ini path mode none with
    | (none, _) => pure (.refused, files)
    | (some self, _) => do
      let (rs, _) ← perform (xziop L.coder io fuel) self (counts.map .read)
      pure (.got (rs.flatMap (·.bytes)), files)

/-! ## The store -/

/-- What a file stands for: the string that was written to it, or the one of which it has the beginning. -/
inductive Held where
  | whole (data : List UInt8)
  | torn (data : List UInt8)

/-- What reading `count` bytes of it may return. -/
def Held.Reads (count : Nat) (bytes : List UInt8) : Held → Prop
  | .whole data => bytes = data.take count
  | .torn data => bytes <+: data.take count

/-- `levelUsed` is checked in every open, also in one for reading. -/
def BadLevel (level : ZendLong) : Prop := level < 0 ∨ level > 9

instance (level : ZendLong) : Decidable (BadLevel level) := inferInstanceAs (Decidable (_ ∨ _))

abbrev FileStore : Type := List UInt8 → Option Held

namespace FileSession

/-- A session on the store. -/
def next (ini : Ini) (store : FileStore) : FileSession → FileStore
  | .put path _ level ops died =>
    if BadLevel (level.getD ini.compressionLevel) then store
    else Function.update store (openPath path) (some
      (if died.isSome then .torn (ops.flatMap (·.bytes)) else .whole (ops.flatMap (·.bytes))))
  | .get _ _ _ => store

/-- Only writes and flushes come before the close, and files that have been written are read. -/
def Pre (store : FileStore) : FileSession → Prop
  | .put _ _ _ ops _ => ∀ op ∈ ops, op.isRead = false ∧ op.isClose = false
  | .get path _ _ => (store (openPath path)).isSome = true

/-- What a session returns. -/
def Post (ini : Ini) (store : FileStore) : FileSession → FileResult → Prop
  | .put _ _ level _ _, r => r = if BadLevel (level.getD ini.compressionLevel) then .refused else .done
  | .get path _ counts, r =>
    if BadLevel ini.compressionLevel then r = .refused
    else ∃ bytes, r = .got bytes ∧ ∀ held, store (openPath path) = some held → held.Reads counts.sum bytes

end FileSession

/-! ## Opening -/

variable {L : Liblzma σ} {layer : StreamLayer ι} {ini : Ini} {path mode : List UInt8}
  {level : Option ZendLong} {inner : ι}

/-- What `xzopen` prints behind a mode that is short. -/
theorem printed_mode (ini : Ini) (hcolon : COLON ∉ cString mode) (hlen : (cString mode).length ≤ 2)
    (level : ZendLong) :
    openMode (cString mode ++ COLON :: decimal level.toInt) = cString mode ∧
      modeLevel ini (cString mode ++ COLON :: decimal level.toInt) = level := by
  have hprinted : cString (cString mode ++ COLON :: decimal level.toInt) =
      cString mode ++ COLON :: decimal level.toInt := by
    apply before_of_not_mem
    rw [List.mem_append, List.mem_cons]
    rintro (h | h | h)
    · exact not_mem_before h
    · exact absurd h (by decide)
    · exact zero_not_mem_decimal _ h
  have hbelow := level.toInt_lt
  have habove := level.le_toInt
  have hwhole : (decimal level.toInt).length ≤ 62 - (cString mode).length := by
    have := length_decimal (n := level.toInt) (by omega)
    omega
  refine ⟨(modeArray_split hprinted hcolon (by omega)).1, ?_⟩
  rw [modeLevel_split hprinted hcolon (by omega), List.take_of_length_le hwhole]
  apply Int64.toInt_inj.mp
  exact toInt_strtoul (leadingInt_decimal _) (by omega) (Or.inl (by omega))

/-- **An `xzopen`** in one of the four modes. -/
theorem xzopen_plain (L : Liblzma σ) (ini : Ini) (level : Option ZendLong)
    (hmode : isWriteMode (cString mode) = true ∨ isReadMode (cString mode) = true)
    (hopen : layer.openWrapper (openPath path) (cString mode) = some inner)
    (hcast : layer.castFd inner = true) (halloc : layer.alloc (cString mode) = true) :
    if BadLevel (level.getD ini.compressionLevel) then
      xzopen L layer ini path mode level = (none, [.report .invalidLevel])
    else (xzopen L layer ini path mode level).1 =
      (initCoder L (cString mode) (level.getD ini.compressionLevel) ini.maxMemory inner).1 := by
  obtain ⟨hcolon, hlen, hboth⟩ : COLON ∉ cString mode ∧ (cString mode).length ≤ 2 ∧
      bothDirections (cString mode) = false := by
    rcases hmode with hmode | hmode
    · rcases of_decide_eq_true hmode with h | h <;> rw [h] <;> decide
    · rcases of_decide_eq_true hmode with h | h <;> rw [h] <;> decide
  obtain ⟨hopened, hlevel⟩ := printed_mode ini hcolon hlen (level.getD ini.compressionLevel)
  by_cases hbad : BadLevel (level.getD ini.compressionLevel)
  · rw [if_pos hbad]
    simp only [xzopen, phpStreamXzopen, hopened, hlevel, hboth, Bool.false_eq_true, if_false]
    exact if_pos hbad
  · rw [if_neg hbad]
    have hfits : ¬ (level.getD ini.compressionLevel < 0 ∨ level.getD ini.compressionLevel > 9) := hbad
    simp only [xzopen, phpStreamXzopen, hopened, hlevel, hboth, Bool.false_eq_true, if_false, if_neg hfits,
      hopen, hcast, halloc, if_true]
    rfl

/-! ## Writing a file -/

variable {c : Coder σ} {io : Inner ι} {s₀ : σ} {Enc : List UInt8 → List UInt8} {content left : ι → List UInt8}
  {base given file D : List UInt8} {f : Feed} {ctx : XzStreamCtx σ ι} {st₀ : ι} {fuel : Nat}

/-- A run that returned returns from then on. -/
theorem returns_of_perform {ops : List XziopOp} {rs : List XziopResult} {ctx' : XzStreamCtx σ ι}
    {Q : List XziopResult × XzStreamCtx σ ι → Prop} (hrun : perform (xziop c io fuel) ctx ops = .ok (rs, ctx'))
    (hQ : Q (rs, ctx')) : Returns (fun fuel => perform (xziop c io fuel) ctx ops) Q :=
  ⟨fuel, _, fun _ hm => perform_mono (fun _ _ _ hop => xziop_mono hop (Nat.le_of_lt hm)) hrun, hQ⟩

/-- Writes, flushes and the close leave the encoding of what was written. -/
theorem perform_writes (henc : HealthyEncoder c s₀ Enc) (hio : Accepts io content) (ops : List XziopOp)
    (h : StreamEncoding c s₀ content base given f ctx) (hrun : f.finishing = none)
    (h0 : ctx.strm.nextIn = 0) (hops : ∀ op ∈ ops, op.isRead = false ∧ op.isClose = false)
    (hfuel : (given ++ ops.flatMap (·.bytes)).length +
      (Enc (given ++ ops.flatMap (·.bytes))).length + 1 < fuel) :
    ∃ rs ctx', perform (xziop c io fuel) ctx (ops ++ [.close]) = .ok (rs, ctx') ∧
      content ctx'.stream = base ++ Enc (given ++ ops.flatMap (·.bytes)) := by
  induction ops generalizing given f ctx with
  | nil =>
    rw [List.flatMap_nil, List.append_nil] at hfuel ⊢
    obtain ⟨ctx', hclose, hcontent⟩ := phpXziopClose_healthy henc hio h hrun fuel (by omega)
    refine ⟨[.close EOF], ctx', perform_cons_eq_ok.mpr ⟨_, ctx', [], ?_, rfl, rfl⟩, hcontent⟩
    exact bind_eq_ok.mpr ⟨_, hclose, rfl⟩
  | cons op ops ih =>
    rw [List.forall_mem_cons] at hops
    rw [List.flatMap_cons, ← List.append_assoc] at hfuel ⊢
    obtain ⟨r, next, f', hop, hnext, hrun', h0'⟩ := xziop_healthy henc hio h hrun h0 hops.1.1 hops.1.2
      (ops.flatMap (·.bytes)) fuel (by
        rw [List.length_append] at hfuel
        omega)
    obtain ⟨rs, ctx', hrest, hcontent⟩ := ih hnext hrun' h0' hops.2 hfuel
    exact ⟨r :: rs, ctx', perform_cons_eq_ok.mpr ⟨r, next, rs, hop, hrest, rfl⟩, hcontent⟩

/-! ## Reading a file -/

/-- A read returns no more than it was asked for. -/
theorem phpXziopRead_length (c : Coder σ) (io : Inner ι) (fuel : Nat) (hw : ctx.Windowed) (count : Nat) :
    Sat (phpXziopRead c io fuel ctx count) (fun p => ∀ bytes, p.1 = some bytes → bytes.length ≤ count)
      fun _ => False := by
  refine loop_sat (fun r : Reading σ ι => r.self.Windowed ∧ r.buf.length + r.toRead ≤ count) ?_ fuel
    ⟨ctx, [], count⟩ ⟨hw, Nat.le_of_eq (Nat.zero_add _)⟩
  rintro r ⟨hwindow, hcount⟩
  obtain ⟨t, hturn, hstep⟩ := readTurn_step c io hwindow
  have hnext := hstep.windowed hwindow
  have hfailure : ∀ {buf bytes : List UInt8}, readFailure buf = some bytes → bytes = buf := by
    intro buf bytes h
    unfold readFailure at h
    split at h
    · cases h
    · exact (Option.some.inj h).symm
  rw [hturn]
  cases hstep with
  | full enough =>
    rintro bytes hbytes
    obtain rfl := Option.some.inj hbytes
    omega
  | fromWindow more short =>
    rintro bytes hbytes
    obtain rfl := Option.some.inj hbytes
    rw [List.length_append, List.length_take]
    omega
  | atEnd _ all =>
    rintro bytes hbytes
    obtain rfl := Option.some.inj hbytes
    rw [List.length_append]
    omega
  | readFailed _ all =>
    rintro bytes hbytes
    obtain rfl := hfailure hbytes
    rw [List.length_append]
    omega
  | decoded _ all =>
    refine ⟨hnext.1, ?_⟩
    show (r.buf ++ r.self.waiting).length + (r.toRead - r.self.waiting.length) ≤ count
    rw [List.length_append]
    omega
  | decodeFailed _ all =>
    rintro bytes hbytes
    obtain rfl := hfailure hbytes
    rw [List.length_append]
    omega

/-- Reads after the end return nothing. -/
theorem perform_atEnd (h : AtEnd io ctx) (c : Coder σ) (hfuel : 0 < fuel) (counts : List Nat) :
    ∃ rs ctx', perform (xziop c io fuel) ctx (counts.map .read) = .ok (rs, ctx') ∧ rs.flatMap (·.bytes) = [] := by
  induction counts generalizing ctx with
  | nil => exact ⟨[], ctx, rfl, rfl⟩
  | cons count counts ih =>
    obtain ⟨next, hread, hnext⟩ := h.read c hfuel count
    obtain ⟨rs, ctx', hrest, hnone⟩ := ih hnext
    refine ⟨.read (some []) :: rs, ctx', perform_cons_eq_ok.mpr ⟨_, next, rs, ?_, hrest, rfl⟩, hnone⟩
    exact bind_eq_ok.mpr ⟨_, hread, rfl⟩

/-- **Reads of a file**, or of the beginning of one, return what is decoded from it: as much as they ask
for, or all of it. -/
theorem perform_reads (hfile : FileStream io left) (hdec : Decodes c s₀ file D) (hpre : left st₀ <+: file)
    (hfuel : file.length + D.length + 1 < fuel) (counts : List Nat)
    (h : ReadingFile c s₀ io left st₀ given f ctx) :
    ∃ rs ctx', perform (xziop c io fuel) ctx (counts.map .read) = .ok (rs, ctx') ∧
      given ++ rs.flatMap (·.bytes) <+: D ∧ (rs.flatMap (·.bytes)).length ≤ counts.sum ∧
      ((rs.flatMap (·.bytes)).length < counts.sum →
        ReadOut c s₀ io left st₀ D (given ++ rs.flatMap (·.bytes))) := by
  induction counts generalizing given f ctx with
  | nil =>
    refine ⟨[], ctx, rfl, ?_, Nat.le_refl _, fun hless => absurd hless (Nat.lt_irrefl _)⟩
    rw [List.flatMap_nil, List.append_nil]
    exact h.decodes hfile hdec hpre
  | cons count counts ih =>
    obtain ⟨⟨ret, next⟩, hread, bytes, hret, hnext⟩ := phpXziopRead_file hfile hdec hpre h count fuel hfuel
    obtain rfl : ret = some bytes := hret
    have hle := (phpXziopRead_length c io fuel h.windowed count).of_ok hread bytes rfl
    have hop : xziop c io fuel ctx (.read count) = .ok (.read (some bytes), next) :=
      bind_eq_ok.mpr ⟨_, hread, rfl⟩
    rcases hnext with ⟨-, hlen, f', hreading⟩ | ⟨heof, hout⟩
    · obtain ⟨rs, ctx', hrest, hdecoded, hshort, hall⟩ := ih hreading
      refine ⟨_, ctx', perform_cons_eq_ok.mpr ⟨_, next, rs, hop, hrest, rfl⟩, ?_⟩
      rw [List.append_assoc] at hdecoded hall
      rw [List.flatMap_cons, List.length_append, List.sum_cons]
      refine ⟨hdecoded, ?_, fun hless => hall ?_⟩
      · show bytes.length + _ ≤ _
        omega
      · change bytes.length + _ < _ at hless
        omega
    · have hend := (phpXziopRead_atEnd c io fuel h.windowed h.notEof count).of_ok hread heof
      obtain ⟨rs, ctx', hrest, hnone⟩ := perform_atEnd hend c (by omega : 0 < fuel) counts
      refine ⟨_, ctx', perform_cons_eq_ok.mpr ⟨_, next, rs, hop, hrest, rfl⟩, ?_⟩
      rw [List.flatMap_cons, hnone, List.append_nil, List.sum_cons]
      refine ⟨hout.decoded, ?_, fun _ => hout⟩
      show bytes.length ≤ _
      omega

/-- From a decoder that holds nothing back they return as much as they ask for, or all of it. -/
theorem perform_reads_whole (hfile : FileStream io left) (hdec : Decodes c s₀ file D)
    (hall : EmitsAll c s₀ file D) (hleft : left st₀ = file) (counts : List Nat)
    (h : ReadingFile c s₀ io left st₀ [] {} ctx) :
    Returns (fun fuel => perform (xziop c io fuel) ctx (counts.map .read))
      fun p => p.1.flatMap (·.bytes) = D.take counts.sum := by
  obtain ⟨rs, ctx', hrun, hpre, hlen, hout⟩ := perform_reads hfile hdec (hleft ▸ List.prefix_rfl)
    (Nat.lt_succ_self _) counts h
  rw [List.nil_append] at hpre hout
  refine returns_of_perform hrun ?_
  by_cases hshort : (rs.flatMap (·.bytes)).length < counts.sum
  · have hdata := (hout hshort).eq_decoded hfile hleft hdec hall
    rw [← hdata, List.take_of_length_le hlen]
  · rw [List.prefix_iff_eq_take.mp hpre, show (rs.flatMap (·.bytes)).length = counts.sum by omega]

/-! ## The store and the files -/

/-- **The coders belong together**: at every level the stream encoder is a healthy encoder, and the decoder of
a stream decodes what it encodes. -/
structure FileCoders (L : Liblzma σ) (maxMemory : ZendLong)
    (Enc : UInt32 → List UInt8 → List UInt8) : Prop where
  encoder : ∀ level ≤ 9, ∃ s, phpXzEncoderInitStream L level = some s ∧ HealthyEncoder L.coder s (Enc level)
  decoder : ∃ s, L.lzmaAutoDecoder (memoryLimitOrMax (castUInt64 maxMemory)) LZMA_CONCATENATED = .ok s ∧
    ∀ level ≤ 9, ∀ data, Decodes L.coder s (Enc level data) data ∧ EmitsAll L.coder s (Enc level data) data

/-- A file is what the store says it is. -/
def Held.In (Enc : UInt32 → List UInt8 → List UInt8) (file : List UInt8) : Held → Prop
  | .whole data => ∃ level ≤ 9, file = Enc level data
  | .torn data => ∃ level ≤ 9, file <+: Enc level data

/-- So is every file that has been written. -/
def StoredIn (Enc : UInt32 → List UInt8 → List UInt8) (store : FileStore) (files : Contents) : Prop :=
  ∀ path held, store path = some held → held.In Enc (files path)

section Store

variable {Enc : UInt32 → List UInt8 → List UInt8} {P : PlainFiles io} {store : FileStore} {files : Contents}
  {died : Option Nat} {ops : List XziopOp} {counts : List Nat}

theorem StoredIn.update {held : Held} {file : List UInt8} (h : StoredIn Enc store files)
    (hheld : held.In Enc file) (path : List UInt8) :
    StoredIn Enc (Function.update store path (some held)) (Function.update files path file) := by
  intro other held' hother
  by_cases hsame : other = path
  · subst hsame
    rw [Function.update_self] at hother ⊢
    obtain rfl := Option.some.inj hother
    exact hheld
  · rw [Function.update_of_ne hsame] at hother ⊢
    exact h other held' hother

/-- An open for writing has the encoder of its level, and an empty file. -/
theorem xzopen_encoder (L : Liblzma σ) (P : PlainFiles io) (files : Contents) (path : List UInt8)
    (mode : WriteMode) (hlevel : ¬ BadLevel (level.getD ini.compressionLevel)) :
    ∃ inner, P.content inner = [] ∧ (xzopen L (P.layer files) ini path mode.1 level).1 =
      (phpXzEncoderInitStream L (castUInt32 (level.getD ini.compressionLevel))).map
        fun s => freshCtx s inner true := by
  obtain ⟨inner, hopen, hcast, halloc, hempty⟩ := P.write files (openPath path) (cString mode.1) mode.2
  have hxzopen := xzopen_plain L ini level (Or.inl mode.2) hopen hcast halloc
  rw [if_neg hlevel] at hxzopen
  refine ⟨inner, hempty, ?_⟩
  rw [hxzopen, initCoder, if_pos mode.2, phpXzInitEncoder]
  cases phpXzEncoderInitStream L (castUInt32 (level.getD ini.compressionLevel)) <;> rfl

/-- Its stream has been given nothing. -/
theorem freshCtx_encoding {inner : ι} (hempty : content inner = []) (s : σ) (c : Coder σ) :
    StreamEncoding c s content [] [] {} (freshCtx s inner true) :=
  ⟨⟨Nat.zero_le _, rfl⟩, rfl, .start, rfl, rfl, hempty⟩

theorem castUInt32_le_nine {level : ZendLong} (h : ¬ BadLevel level) : castUInt32 level ≤ 9 := by
  obtain ⟨⟨-, hnine⟩, hcast⟩ := toNat_castLevel h
  rw [UInt32.le_iff_toNat_le]
  show _ ≤ 9
  omega

/-- An open for writing, -/
theorem xzopen_writer (hcoders : FileCoders L ini.maxMemory Enc) (P : PlainFiles io) (files : Contents)
    (path : List UInt8) (mode : WriteMode) (hlevel : ¬ BadLevel (level.getD ini.compressionLevel)) :
    ∃ lvl ≤ 9, ∃ s self ledger, xzopen L (P.layer files) ini path mode.1 level = (some self, ledger) ∧
      HealthyEncoder L.coder s (Enc lvl) ∧ StreamEncoding L.coder s P.content [] [] {} self ∧
      self.strm.nextIn = 0 := by
  obtain ⟨inner, hempty, hopen⟩ := xzopen_encoder L P files path mode hlevel
  obtain ⟨s, hinit, henc⟩ := hcoders.encoder _ (castUInt32_le_nine hlevel)
  rw [hinit] at hopen
  exact ⟨_, castUInt32_le_nine hlevel, s, freshCtx s inner true, _, Prod.ext hopen rfl, henc,
    freshCtx_encoding hempty s L.coder, rfl⟩

/-- one for reading, -/
theorem xzopen_reader {s : σ}
    (hinit : L.lzmaAutoDecoder (memoryLimitOrMax (castUInt64 ini.maxMemory)) LZMA_CONCATENATED = .ok s)
    (P : PlainFiles io) (files : Contents) (path : List UInt8) (mode : ReadMode)
    (hlevel : ¬ BadLevel ini.compressionLevel) :
    ∃ inner self ledger, xzopen L (P.layer files) ini path mode.1 none = (some self, ledger) ∧
      P.left inner = files (openPath path) ∧ ReadingFile L.coder s io P.left inner [] {} self := by
  obtain ⟨inner, hopen, hcast, halloc, hleft⟩ := P.read files (openPath path) (cString mode.1) mode.2
  have hxzopen := xzopen_plain L ini none (Or.inr mode.2) hopen hcast halloc
  rw [Option.getD_none, if_neg hlevel] at hxzopen
  have hwrite : isWriteMode (cString mode.1) = false := isWriteMode_of_isReadMode mode.2
  obtain ⟨self, hself⟩ : ∃ self, phpXzInitDecoder L (castUInt64 ini.maxMemory) inner = some self := by
    rw [phpXzInitDecoder, phpXzDecoderInitStream, hinit]
    exact ⟨_, rfl⟩
  refine ⟨inner, self, _, Prod.ext ?_ rfl, hleft, phpXzInitDecoder_reading hinit hself⟩
  rw [hxzopen, initCoder, hwrite, if_neg Bool.false_ne_true, if_pos mode.2, hself]

/-- and one with a level that is out of range. -/
theorem xzopen_badLevel (L : Liblzma σ) (P : PlainFiles io) (files : Contents) (path : List UInt8)
    (level : Option ZendLong)
    (hmode : isWriteMode (cString mode) = true ∨ isReadMode (cString mode) = true)
    (hlevel : BadLevel (level.getD ini.compressionLevel)) :
    xzopen L (P.layer files) ini path mode level = (none, [.report .invalidLevel]) := by
  obtain ⟨inner, hopen, hcast, halloc⟩ : ∃ inner,
      (P.layer files).openWrapper (openPath path) (cString mode) = some inner ∧
        (P.layer files).castFd inner = true ∧ (P.layer files).alloc (cString mode) = true := by
    rcases hmode with hmode | hmode
    · obtain ⟨inner, hopen, hcast, halloc, -⟩ := P.write files (openPath path) _ hmode
      exact ⟨inner, hopen, hcast, halloc⟩
    · obtain ⟨inner, hopen, hcast, halloc, -⟩ := P.read files (openPath path) _ hmode
      exact ⟨inner, hopen, hcast, halloc⟩
  have hxzopen := xzopen_plain L ini level hmode hopen hcast halloc
  rwa [if_pos hlevel] at hxzopen

/-- **A session that writes.** -/
theorem fileSession_put (hcoders : FileCoders L ini.maxMemory Enc) (hstored : StoredIn Enc store files)
    (mode : WriteMode) (hops : ∀ op ∈ ops, op.isRead = false ∧ op.isClose = false) :
    Returns (fun fuel => fileSession L P ini fuel files (.put path mode level ops died)) fun p =>
      FileSession.Post ini store (.put path mode level ops died) p.1 ∧
        StoredIn Enc (FileSession.next ini store (.put path mode level ops died)) p.2 := by
  by_cases hlevel : BadLevel (level.getD ini.compressionLevel)
  · have hopen := xzopen_badLevel L P files path level (Or.inl mode.2) hlevel
    simp only [fileSession, hopen, FileSession.Post, FileSession.next, if_pos hlevel]
    exact .ok ⟨rfl, hstored⟩
  · obtain ⟨lvl, hle, s, self, ledger, hopen, henc, hstart, h0⟩ := xzopen_writer hcoders P files path mode hlevel
    simp only [fileSession, hopen, FileSession.Post, FileSession.next, if_neg hlevel]
    obtain ⟨rs, ctx', hrun, hcontent⟩ := perform_writes henc P.accepts ops hstart rfl h0 hops (Nat.lt_succ_self _)
    rw [List.nil_append, List.nil_append] at hcontent
    apply (returns_of_perform (Q := (· = (rs, ctx'))) hrun rfl).bind
    rintro _ rfl
    refine .ok ⟨rfl, hstored.update ?_ _⟩
    rw [hcontent]
    cases died with
    | none => exact ⟨lvl, hle, rfl⟩
    | some n => exact ⟨lvl, hle, List.take_prefix _ _⟩

/-- **A session that reads.** -/
theorem fileSession_get (hcoders : FileCoders L ini.maxMemory Enc) (hstored : StoredIn Enc store files)
    (mode : ReadMode) (hknown : (store (openPath path)).isSome = true) :
    Returns (fun fuel => fileSession L P ini fuel files (.get path mode counts)) fun p =>
      FileSession.Post ini store (.get path mode counts) p.1 ∧
        StoredIn Enc (FileSession.next ini store (.get path mode counts)) p.2 := by
  by_cases hlevel : BadLevel ini.compressionLevel
  · have hopen := xzopen_badLevel L P files path none (Or.inr mode.2) hlevel
    simp only [fileSession, hopen, FileSession.Post, FileSession.next, if_pos hlevel]
    exact .ok ⟨rfl, hstored⟩
  · obtain ⟨s, hinit, hdecodes⟩ := hcoders.decoder
    obtain ⟨inner, self, ledger, hopen, hleft, hstart⟩ := xzopen_reader hinit P files path mode hlevel
    simp only [fileSession, hopen, FileSession.Post, FileSession.next, if_neg hlevel]
    obtain ⟨held, hheld⟩ := Option.isSome_iff_exists.mp hknown
    have hin := hstored _ _ hheld
    cases held with
    | whole data =>
      obtain ⟨lvl, hle, hfile⟩ := hin
      obtain ⟨hdec, hall⟩ := hdecodes lvl hle data
      rw [hfile] at hleft
      apply (perform_reads_whole P.file hdec hall hleft counts hstart).bind
      rintro ⟨rs, ctx'⟩ hread
      refine .ok ⟨⟨_, rfl, fun held' hheld' => ?_⟩, hstored⟩
      obtain rfl := Option.some.inj (hheld.symm.trans hheld')
      exact hread
    | torn data =>
      obtain ⟨lvl, hle, hfile⟩ := hin
      obtain ⟨hdec, -⟩ := hdecodes lvl hle data
      rw [← hleft] at hfile
      obtain ⟨rs, ctx', hrun, hpre, hlen, -⟩ := perform_reads P.file hdec hfile (Nat.lt_succ_self _) counts hstart
      rw [List.nil_append] at hpre
      apply (returns_of_perform (Q := (· = (rs, ctx'))) hrun rfl).bind
      rintro _ rfl
      refine .ok ⟨⟨_, rfl, fun held' hheld' => ?_⟩, hstored⟩
      obtain rfl := Option.some.inj (hheld.symm.trans hheld')
      exact List.prefix_take_iff.mpr ⟨hpre, hlen⟩

/-- **xz files are a store.** In every script of sessions that writes files, with any levels and in any pieces,
perhaps dying in the middle, and reads files that it has written, in any sizes and under any of the names
of a file, every session returns: one that reads has the string of the last session that wrote this file,
or a prefix of it where that one died, and an open with a level that is out of range changes nothing. -/
theorem files_are_a_store (hcoders : FileCoders L ini.maxMemory Enc) (P : PlainFiles io) (files : Contents)
    (script : List FileSession)
    (hscript : Allowed (FileSession.next ini) FileSession.Pre (fun _ => none) script) :
    Returns (fun fuel => perform (fileSession L P ini fuel) files script) fun p =>
      Conforms (FileSession.next ini) (FileSession.Post ini) (fun _ => none) script p.1 ∧
        StoredIn Enc (script.foldl (FileSession.next ini) fun _ => none) p.2 := by
  refine perform_simulates (StoredIn Enc) ?_ ?_ hscript
  · intro store files session hstored hpre
    cases session with
    | put path mode level ops died => exact fileSession_put hcoders hstored mode hpre
    | get path mode counts => exact fileSession_get hcoders hstored mode hpre
  · rintro path held hnone
    cases hnone

end Store

/-! ### Files that are pipes -/

theorem pipe_file : FileStream pipe id where
  read st n hn := by
    refine ⟨⟨st.take n, List.length_take_le _ _⟩, st.drop n, rfl, (List.take_append_drop n st).symm, ?_, ?_⟩
    · intro hne hnil
      rcases List.take_eq_nil_iff.mp hnil with h | h
      · omega
      · exact hne h
    · intro hnil
      rcases List.take_eq_nil_iff.mp hnil with h | h
      · omega
      · rw [h]
        exact congrArg List.isEmpty List.drop_nil
  eof st hend := List.isEmpty_iff.mp hend

/-- Each file is a list of bytes, to which an open stream is a pipe. -/
def pipeFiles : PlainFiles pipe where
  layer files :=
    { openWrapper := fun path mode => some (if isWriteMode mode then [] else files path)
      castFd := fun _ => true
      alloc := fun _ => true }
  content := id
  left := id
  accepts := pipe_accepts
  file := pipe_file
  write files path mode hmode := ⟨[], congrArg some (if_pos hmode), rfl, rfl, rfl⟩
  read files path mode hmode := by
    refine ⟨files path, congrArg some (if_neg ?_), rfl, rfl, rfl⟩
    rw [isWriteMode_of_isReadMode hmode]
    exact Bool.false_ne_true

theorem markLiblzma_fileCoders (maxMemory : ZendLong) : FileCoders markLiblzma maxMemory fun _ => mark where
  encoder level hlevel := by
    refine ⟨markEncoder.start, ?_, markEncoder_healthyEncoder⟩
    rw [phpXzEncoderInitStream, show markLiblzma.lzmaLzmaPreset level = _ from if_pos hlevel]
    rfl
  decoder := by
    refine ⟨markTable.start, rfl, fun level _ data => ⟨markTable_decodes data, ?_⟩⟩
    intro f s hreach _ _ htaken
    rw [markTable_emitted hreach, htaken, unmark_mark]

/-- `a` is written in two pieces and `b` by a process that dies; a level of 12 is refused; and `a` is read
under its other name. -/
def twoFiles : List FileSession :=
  [.put [97] ⟨bytes ['w'], by decide⟩ (some 9) [.write [1, 2], .flush, .write [3]] none,
    .put [98] ⟨bytes ['w', 'b'], by decide⟩ none [.write [4, 5]] (some 1),
    .put [97] ⟨bytes ['w'], by decide⟩ (some 12) [.write [6]] none,
    .get (SCHEME ++ [97]) ⟨bytes ['r'], by decide⟩ [2, 7],
    .get [98] ⟨bytes ['r', 'b'], by decide⟩ [5]]

theorem files_are_a_store_twoFiles :
    Returns (fun fuel => perform (fileSession markLiblzma pipeFiles {} fuel) (fun _ => []) twoFiles) fun p =>
      Conforms (FileSession.next {}) (FileSession.Post {}) (fun _ => none) twoFiles p.1 ∧
        StoredIn (fun _ => mark) (twoFiles.foldl (FileSession.next {}) fun _ => none) p.2 := by
  have hwrites : ∀ op ∈ [XziopOp.write [1, 2], .flush, .write [3]], op.isRead = false ∧ op.isClose = false := by
    decide
  have hwrite : ∀ buf, ∀ op ∈ [XziopOp.write buf], op.isRead = false ∧ op.isClose = false := by
    intro buf op hop
    obtain rfl := List.mem_singleton.mp hop
    exact ⟨rfl, rfl⟩
  have hscript : Allowed (FileSession.next {}) FileSession.Pre (fun _ => none) twoFiles :=
    ⟨hwrites, hwrite _, hwrite _, rfl, rfl, trivial⟩
  exact files_are_a_store (markLiblzma_fileCoders _) pipeFiles (fun _ => []) twoFiles hscript

end PhpExtXz
