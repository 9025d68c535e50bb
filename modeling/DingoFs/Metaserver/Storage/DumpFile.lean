import DingoFs.Lib.LittleEndian
import DingoFs.Lib.Extents

/-!
# The metaserver's dump file

`DumpFile::Save` writes the key-value pairs an iterator yields into one file,

    "DINGOFS" | version | size (v1) | len key | key | len value | value | … | 0 (v2, v3) | checksum

the version one byte, the size eight, each length, the end marker and the checksum four, all
as `memcpy` lays integers out (least significant byte first); the checksum is `CRC32` of
every byte before it, continued write by write. `CRC32` (`utils/crc32.h`) is brpc's
`butil::crc32c::Extend`, which is not part of the repository: the model takes it as the
parameter `crc32`, and nothing below depends on which function it is.

A `DumpFileIterator` reads the file back: `SeekToFirst` checks the header
and loads the first pair, `Next` loads the next one, and `End` reads the checksum and sets the
load status. A reader collects the pairs with `for (SeekToFirst(); Valid(); Next())`
(`DumpFile.loadAll`).

The file is a byte list that `Write` and `Read` access exactly, a read past its end failing.
Loading what a save wrote:

* `loadAll_save_v1`: a v1 file gives back its pairs, and the status `COMPLETE`;
* `loadAll_save_v3`: so does a v3 file whose keys and values are all non-empty;
* `loadAll_save_v2`: a v2 file gives back its pairs up to the first empty key or value, and
  the load always ends `INVALID_PAIRS`. The end marker is the length prefix of an empty
  string, and `Next` takes it for the end of the pairs only when the version is above 2.

Both directions are described by the list of chunks the save writes (`dumpChunks`): the save
writes their concatenation, and the load reads them back one by one, so that the save's and the
load's checksums are the same fold over the same chunks.
-/

namespace DingoFs

namespace Metaserver.Storage

open Lib

/-! ## The format -/

def kDumpFileV1 : UInt8 := 1
def kDumpFileV2 : UInt8 := 2
def kDumpFileV3 : UInt8 := 3

/-- `DumpFile::kVersion_`, the newest version a load accepts. -/
def kVersion : UInt8 := kDumpFileV3

/-- `DumpFile::kDingoFs_`, the bytes of `"DINGOFS"`. -/
def kDingoFs : List UInt8 := [0x44, 0x49, 0x4E, 0x47, 0x4F, 0x46, 0x53]

/-- `DumpFile::kEOF_`, the end marker after the pairs from v2 on. -/
def kEOF : Nat := 0

def kMaxStringLength : Nat := 1024 * 1024 * 1024

/-- The values of `DUMPFILE_ERROR` that a save or a load on an open file can return besides
`OK` (writes and `Fsync` do not fail on the byte-list file). -/
inductive DumpFileError
  | READ_FAILED
  | EXCEED_MAX_STRING_LENGTH
  | ENCOUNTER_EOF
deriving DecidableEq, Repr

inductive DumpFileLoadStatus
  | COMPLETE
  | INCOMPLETE
  | INVALID_FILE
  | INVALID_MAGIC
  | INVALID_VERSION
  | INVALID_SIZE
  | INVALID_PAIRS
  | INVALID_CHECKSUM
deriving DecidableEq, Repr

/-- `DumpFile::CheckDumpFileVersion`. -/
def checkDumpFileVersion (ver : UInt8) : Bool := kDumpFileV1 ≤ ver && ver ≤ kVersion

/-- A dump file: the bytes its descriptor reads and writes, `version_` (the version a save
writes, which `SeekToFirst` replaces with the file's) and `loadStatus_`. -/
structure DumpFile where
  file : List UInt8
  version : UInt8
  loadStatus : DumpFileLoadStatus
deriving DecidableEq, Repr

/-- `DumpFile(pathname, version)` opened on a file that holds `file`. -/
def DumpFile.new (file : List UInt8) (version : UInt8) : DumpFile := ⟨file, version, .INCOMPLETE⟩

variable {crc32 : UInt32 → List UInt8 → UInt32}

/-- The `offset` and `checkSum` that the save and load helpers advance through their pointer
arguments, the checksum computed with `crc32`. -/
structure Cursor (crc32 : UInt32 → List UInt8 → UInt32) where
  offset : Nat
  checkSum : UInt32
deriving DecidableEq, Repr

/-- The cursor moved past `buf`, its bytes folded into the checksum:
`*checkSum = CRC32(*checkSum, buf, length)`. -/
def Cursor.advance (cur : Cursor crc32) (buf : List UInt8) : Cursor crc32 :=
  ⟨cur.offset + buf.length, crc32 cur.checkSum buf⟩

/-! ## Save -/

/-- `DumpFile::Write`: `buffer` written at `offset`, the file growing as needed. -/
def DumpFile.write (file buffer : List UInt8) (offset : Nat) : List UInt8 :=
  writeAt 0 file offset buffer

/-- A save in progress: the file and the cursor. -/
structure SaveState (crc32 : UInt32 → List UInt8 → UInt32) where
  file : List UInt8
  cur : Cursor crc32

/-- `DumpFile::SaveString`: the bytes written at the cursor, which moves past them. -/
def SaveState.saveString (s : SaveState crc32) (str : List UInt8) : SaveState crc32 :=
  ⟨DumpFile.write s.file str s.cur.offset, s.cur.advance str⟩

/-- `DumpFile::SaveInt` for an integer type of `w` bytes. -/
def SaveState.saveInt (s : SaveState crc32) (w num : Nat) : SaveState crc32 :=
  s.saveString (toBytesLE w num)

/-- `DumpFile::SaveEntry`: the entry's size as a `uint32_t`, then its bytes. -/
def SaveState.saveEntry (s : SaveState crc32) (entry : List UInt8) : SaveState crc32 :=
  (s.saveInt 4 entry.length).saveString entry

/-- `DumpFile::Save` of the pairs the iterator `iter` yields, `size` being `iter->Size()`. -/
def DumpFile.save (crc32 : UInt32 → List UInt8 → UInt32) (df : DumpFile)
    (iter : List (List UInt8 × List UInt8)) (size : UInt64) : DumpFile :=
  -- Step1: magic, version, size (only v1)
  let s : SaveState crc32 := (SaveState.saveString ⟨df.file, ⟨0, 0⟩⟩ kDingoFs).saveInt 1 df.version.toNat
  let s := if df.version = kDumpFileV1 then s.saveInt 8 size.toNat else s
  -- Step2: key-value pairs
  let s := iter.foldl (fun s p => (s.saveEntry p.1).saveEntry p.2) s
  -- Step3: EOF (only v2 and v3)
  let s := if df.version > kDumpFileV1 then s.saveInt 4 kEOF else s
  -- Step4: the checksum of everything before it
  let s := s.saveInt 4 s.cur.checkSum.toNat
  { df with file := s.file }

/-! ## Load -/

/-- `DumpFile::Read`: the `length` bytes at `offset`, which fails when fewer are read. -/
def DumpFile.read (df : DumpFile) (offset length : Nat) : Except DumpFileError (List UInt8) :=
  let buf := (df.file.drop offset).take length
  if buf.length = length then .ok buf else .error .READ_FAILED

/-- `DumpFile::LoadInt` for an integer type of `w` bytes. -/
def DumpFile.loadInt (df : DumpFile) (w : Nat) (cur : Cursor crc32) :
    Except DumpFileError Nat × Cursor crc32 :=
  match df.read cur.offset w with
  | .ok buf => (.ok (ofBytesLE buf), cur.advance buf)
  | .error e => (.error e, cur)

def DumpFile.loadString (df : DumpFile) (cur : Cursor crc32) (length : Nat) :
    Except DumpFileError (List UInt8) × Cursor crc32 :=
  if length > kMaxStringLength then (.error .EXCEED_MAX_STRING_LENGTH, cur)
  else
    match df.read cur.offset length with
    | .ok buf => (.ok buf, cur.advance buf)
    | .error e => (.error e, cur)

/-- `DumpFile::LoadEntry`: a length, then that many bytes, where from v2 on a zero length is the
end marker. The cursor stays moved past the length whatever follows. -/
def DumpFile.loadEntry (df : DumpFile) (cur : Cursor crc32) :
    Except DumpFileError (List UInt8) × Cursor crc32 :=
  match df.loadInt 4 cur with
  | (.error e, cur) => (.error e, cur)
  | (.ok length, cur) =>
    if df.version > kDumpFileV1 ∧ length = kEOF then (.error .ENCOUNTER_EOF, cur)
    else df.loadString cur length

/-- A `DumpFileIterator` and the `DumpFile` it reads (`dumpfile_`), whose version and load
status it changes. -/
structure DumpFileIterator (crc32 : UInt32 → List UInt8 → UInt32) where
  dumpfile : DumpFile
  cur : Cursor crc32
  nPairs : UInt64
  size : UInt64
  isValid : Bool
  iter : List UInt8 × List UInt8

/-- `DumpFile::Load`: a fresh iterator over the file. -/
def DumpFile.load (crc32 : UInt32 → List UInt8 → UInt32) (df : DumpFile) :
    DumpFileIterator crc32 :=
  ⟨df, ⟨0, 0⟩, 0, 0, false, ([], [])⟩

/-- The exit of `EXIT_LOAD_IF_UNEXPECT`: the iterator turns invalid and the file records
`status`. -/
def DumpFileIterator.exitLoad (it : DumpFileIterator crc32) (status : DumpFileLoadStatus) :
    DumpFileIterator crc32 :=
  { it with isValid := false, dumpfile := { it.dumpfile with loadStatus := status } }

/-- `DumpFileIterator::End`: the checksum stored after the pairs must be the one computed over
every byte read before it. -/
def DumpFileIterator.endLoad (it : DumpFileIterator crc32) : DumpFileIterator crc32 :=
  let crc4calc := it.cur.checkSum
  match it.dumpfile.loadInt 4 it.cur with
  | (.ok crc4load, cur) =>
    { it with cur }.exitLoad (if crc4load = crc4calc.toNat then .COMPLETE else .INVALID_CHECKSUM)
  | (.error _, cur) => { it with cur }.exitLoad .INVALID_CHECKSUM

/-- `DumpFileIterator::Next`. -/
def DumpFileIterator.next (it : DumpFileIterator crc32) : DumpFileIterator crc32 :=
  if !it.isValid then it
  else if it.dumpfile.version = 1 ∧ it.nPairs = it.size then it.endLoad
  else
    match it.dumpfile.loadEntry it.cur with
    | (.error e, cur) =>
      -- the end marker ends the pairs only above v2
      if it.dumpfile.version > kDumpFileV2 ∧ e = .ENCOUNTER_EOF then { it with cur }.endLoad
      else { it with cur }.exitLoad .INVALID_PAIRS
    | (.ok key, cur) =>
      match it.dumpfile.loadEntry cur with
      | (.error _, cur) => { it with cur }.exitLoad .INVALID_PAIRS
      | (.ok value, cur) =>
        { it with cur, nPairs := it.nPairs + 1, isValid := true, iter := (key, value) }

/-- `DumpFileIterator::SeekToFirst` on an open file: the magic, the version (which replaces the
file's `version_`), the size in v1, and the first pair. -/
def DumpFileIterator.seekToFirst (it : DumpFileIterator crc32) : DumpFileIterator crc32 :=
  match it.dumpfile.loadString it.cur kDingoFs.length with
  | (.error _, cur) => { it with cur }.exitLoad .INVALID_MAGIC
  | (.ok magic, cur) =>
    if magic ≠ kDingoFs then { it with cur }.exitLoad .INVALID_MAGIC
    else
      match it.dumpfile.loadInt 1 cur with
      | (.error _, cur) => { it with cur }.exitLoad .INVALID_VERSION
      | (.ok v, cur) =>
        if !checkDumpFileVersion (UInt8.ofNat v) then { it with cur }.exitLoad .INVALID_VERSION
        else
          let df := { it.dumpfile with version := UInt8.ofNat v }
          if df.version = kDumpFileV1 then
            match df.loadInt 8 cur with
            | (.error _, cur) => { it with dumpfile := df, cur }.exitLoad .INVALID_SIZE
            | (.ok size, cur) =>
              { it with dumpfile := df, cur, size := UInt64.ofNat size, isValid := true }.next
          else { it with dumpfile := df, cur, size := 0, isValid := true }.next

/-- The reader's loop `for (SeekToFirst(); Valid(); Next())` after `SeekToFirst`, collecting
the pair of each round, for at most `fuel` rounds. -/
def DumpFileIterator.collect : Nat → DumpFileIterator crc32 →
    List (List UInt8 × List UInt8) × DumpFileIterator crc32
  | 0, it => ([], it)
  | fuel + 1, it =>
    if it.isValid then
      let r := collect fuel it.next
      (it.iter :: r.1, r.2)
    else ([], it)

/-- A load: the pairs the reader's loop collects, and what `GetLoadStatus` returns after it.
Every round but the last reads two lengths, so the file's length bounds the rounds
(`loadAll_ends`). -/
def DumpFile.loadAll (crc32 : UInt32 → List UInt8 → UInt32) (df : DumpFile) :
    List (List UInt8 × List UInt8) × DumpFileLoadStatus :=
  let r := DumpFileIterator.collect (df.file.length + 1) (df.load crc32).seekToFirst
  (r.1, r.2.dumpfile.loadStatus)

/-! ## What a save writes

A save is a sequence of writes, each at the offset where the one before ended. `dumpChunks`
lists them up to the checksum; `save_file` says the file then starts with their concatenation
and the checksum of it. -/

/-- The two writes of `SaveEntry`. -/
def entryChunks (e : List UInt8) : List (List UInt8) := [toBytesLE 4 e.length, e]

def pairChunks (p : List UInt8 × List UInt8) : List (List UInt8) :=
  entryChunks p.1 ++ entryChunks p.2

/-- The writes of Step1. -/
def headerChunks (version : UInt8) (size : UInt64) : List (List UInt8) :=
  [kDingoFs, toBytesLE 1 version.toNat] ++
    (if version = kDumpFileV1 then [toBytesLE 8 size.toNat] else [])

/-- The write of Step3. -/
def eofChunks (version : UInt8) : List (List UInt8) :=
  if version > kDumpFileV1 then [toBytesLE 4 kEOF] else []

/-- Every write of a save before the checksum's. -/
def dumpChunks (version : UInt8) (size : UInt64) (pairs : List (List UInt8 × List UInt8)) :
    List (List UInt8) :=
  headerChunks version size ++ pairs.flatMap pairChunks ++ eofChunks version

/-- The cursor moved past each chunk in turn. -/
def Cursor.advanceAll (cur : Cursor crc32) (chunks : List (List UInt8)) : Cursor crc32 :=
  chunks.foldl Cursor.advance cur

/-- The checksum a save stores: `crc32` continued over every chunk before it. -/
def dumpCheckSum (crc32 : UInt32 → List UInt8 → UInt32) (version : UInt8) (size : UInt64)
    (pairs : List (List UInt8 × List UInt8)) : UInt32 :=
  ((⟨0, 0⟩ : Cursor crc32).advanceAll (dumpChunks version size pairs)).checkSum

/-- The bytes a save writes from the start of the file. -/
def dumpBytes (crc32 : UInt32 → List UInt8 → UInt32) (version : UInt8) (size : UInt64)
    (pairs : List (List UInt8 × List UInt8)) : List UInt8 :=
  (dumpChunks version size pairs).flatten ++
    toBytesLE 4 (dumpCheckSum crc32 version size pairs).toNat

theorem advanceAll_append (cur : Cursor crc32) (a b : List (List UInt8)) :
    cur.advanceAll (a ++ b) = (cur.advanceAll a).advanceAll b :=
  List.foldl_append

theorem offset_advanceAll (chunks : List (List UInt8)) :
    ∀ cur : Cursor crc32, (cur.advanceAll chunks).offset = cur.offset + chunks.flatten.length := by
  induction chunks with
  | nil => intro cur; rfl
  | cons b chunks ih =>
    intro cur
    rw [Cursor.advanceAll, List.foldl_cons, ← Cursor.advanceAll, ih, List.flatten_cons,
      List.length_append, Cursor.advance, Nat.add_assoc]

@[simp] theorem flatten_entryChunks (e : List UInt8) :
    (entryChunks e).flatten = toBytesLE 4 e.length ++ e := by
  simp [entryChunks]

/-- Every pair takes at least one byte of the file (eight, in fact: its two lengths). -/
theorem length_le_flatten_pairChunks (ps : List (List UInt8 × List UInt8)) :
    ps.length ≤ (ps.flatMap pairChunks).flatten.length := by
  induction ps with
  | nil => simp
  | cons p ps ih =>
    simp only [List.flatMap_cons, List.flatten_append, List.length_append, List.length_cons,
      pairChunks, flatten_entryChunks, length_toBytesLE]
    omega

/-- The chunks written one after the other. -/
def SaveState.saveAll (s : SaveState crc32) (chunks : List (List UInt8)) : SaveState crc32 :=
  chunks.foldl SaveState.saveString s

theorem saveAll_append (s : SaveState crc32) (a b : List (List UInt8)) :
    s.saveAll (a ++ b) = (s.saveAll a).saveAll b :=
  List.foldl_append

/-- Writing chunks from where the bytes `W` written from offset `0` end writes `W` followed by
the chunks, and moves the cursor past them. -/
theorem saveAll_spec (F : List UInt8) (chunks : List (List UInt8)) :
    ∀ (W : List UInt8) (s : SaveState crc32), s.file = writeAt 0 F 0 W → s.cur.offset = W.length →
      (s.saveAll chunks).file = writeAt 0 F 0 (W ++ chunks.flatten) ∧
        (s.saveAll chunks).cur = s.cur.advanceAll chunks := by
  induction chunks with
  | nil => intro W s hf _; simp [SaveState.saveAll, Cursor.advanceAll, hf]
  | cons b chunks ih =>
    intro W s hf ho
    have hf' : (s.saveString b).file = writeAt 0 F 0 (W ++ b) := by
      rw [SaveState.saveString, DumpFile.write, hf, ho, writeAt_writeAt_length]
    have ho' : (s.saveString b).cur.offset = (W ++ b).length := by
      simp [SaveState.saveString, Cursor.advance, ho]
    obtain ⟨hfile, hcur⟩ := ih (W ++ b) (s.saveString b) hf' ho'
    exact ⟨by rw [List.flatten_cons, ← List.append_assoc]; exact hfile, hcur⟩

/-- Step2 writes the chunks of every pair. -/
theorem foldl_saveEntry (pairs : List (List UInt8 × List UInt8)) :
    ∀ s : SaveState crc32, pairs.foldl (fun s p => (s.saveEntry p.1).saveEntry p.2) s =
      s.saveAll (pairs.flatMap pairChunks) := by
  induction pairs with
  | nil => intro s; rfl
  | cons p pairs ih =>
    intro s
    rw [List.foldl_cons, ih, List.flatMap_cons, saveAll_append]
    rfl

/-- A save writes its chunks and then their checksum from the start of the file. -/
theorem save_file (df : DumpFile) (pairs : List (List UInt8 × List UInt8)) (size : UInt64) :
    (df.save crc32 pairs size).file = writeAt 0 df.file 0 (dumpBytes crc32 df.version size pairs) := by
  have hsize : ∀ s : SaveState crc32,
      (if df.version = kDumpFileV1 then s.saveInt 8 size.toNat else s) =
        s.saveAll (if df.version = kDumpFileV1 then [toBytesLE 8 size.toNat] else []) := by
    intro s
    split <;> rfl
  have heof : ∀ s : SaveState crc32,
      (if df.version > kDumpFileV1 then s.saveInt 4 kEOF else s) = s.saveAll (eofChunks df.version) := by
    intro s
    unfold eofChunks
    split <;> rfl
  -- every write before the checksum's is one chunk of `dumpChunks`
  have hchunks : (SaveState.saveString (⟨df.file, ⟨0, 0⟩⟩ : SaveState crc32) kDingoFs).saveInt 1
      df.version.toNat =
        SaveState.saveAll ⟨df.file, ⟨0, 0⟩⟩ [kDingoFs, toBytesLE 1 df.version.toNat] := rfl
  obtain ⟨hfile, hcur⟩ := saveAll_spec df.file (dumpChunks df.version size pairs) []
    (⟨df.file, ⟨0, 0⟩⟩ : SaveState crc32)
    (by rw [writeAt_zero, List.length_nil, List.drop_zero, List.nil_append]) rfl
  simp only [DumpFile.save, hchunks, hsize, foldl_saveEntry, heof, ← saveAll_append]
  rw [SaveState.saveInt, SaveState.saveString, DumpFile.write]
  simp only [dumpChunks, headerChunks] at hfile hcur
  rw [hfile, hcur, List.nil_append, offset_advanceAll, Nat.zero_add, writeAt_writeAt_length,
    dumpBytes, dumpCheckSum, dumpChunks, headerChunks]

/-! ## What a load reads

Each read is stated at a cursor whose offset leaves the chunk to read at the front of the rest
of the file. -/

/-- An entry `LoadEntry` reads back: not longer than `kMaxStringLength`, and from v2 on not
empty, since an empty entry's length is the end marker. -/
def EntryLoads (version : UInt8) (e : List UInt8) : Prop :=
  e.length ≤ kMaxStringLength ∧ (version > kDumpFileV1 → e ≠ [])

def PairLoads (version : UInt8) (p : List UInt8 × List UInt8) : Prop :=
  EntryLoads version p.1 ∧ EntryLoads version p.2

section Load

variable {df : DumpFile} {cur : Cursor crc32} {rest : List UInt8}

theorem read_of_drop {offset : Nat} {buf : List UInt8} (h : df.file.drop offset = buf ++ rest) :
    df.read offset buf.length = .ok buf := by
  simp [DumpFile.read, h]

theorem drop_advance {buf : List UInt8} (h : df.file.drop cur.offset = buf ++ rest) :
    df.file.drop (cur.advance buf).offset = rest := by
  rw [Cursor.advance, ← List.drop_drop, h, List.drop_left]

theorem drop_advanceAll (chunks : List (List UInt8)) :
    ∀ cur : Cursor crc32, df.file.drop cur.offset = chunks.flatten ++ rest →
      df.file.drop (cur.advanceAll chunks).offset = rest := by
  intro cur h
  rw [offset_advanceAll, ← List.drop_drop, h, List.drop_left]

theorem loadInt_of_drop {w n : Nat} (h : df.file.drop cur.offset = toBytesLE w n ++ rest) :
    df.loadInt w cur = (.ok (n % 256 ^ w), cur.advance (toBytesLE w n)) := by
  have hr := read_of_drop h
  rw [length_toBytesLE] at hr
  simp only [DumpFile.loadInt, hr, ofBytesLE_toBytesLE]

theorem loadString_of_drop {str : List UInt8} (h : df.file.drop cur.offset = str ++ rest)
    (hlen : str.length ≤ kMaxStringLength) :
    df.loadString cur str.length = (.ok str, cur.advance str) := by
  simp only [DumpFile.loadString, if_neg (Nat.not_lt.mpr hlen), read_of_drop h]

/-- An entry that loads is read back whole. -/
theorem loadEntry_of_drop {e : List UInt8} (h : df.file.drop cur.offset = toBytesLE 4 e.length ++ e ++ rest)
    (he : EntryLoads df.version e) :
    df.loadEntry cur = (.ok e, cur.advanceAll (entryChunks e)) := by
  rw [List.append_assoc] at h
  have hlen : e.length % 256 ^ 4 = e.length :=
    Nat.mod_eq_of_lt (lt_of_le_of_lt he.1 (by decide))
  have hne : ¬(df.version > kDumpFileV1 ∧ e.length = kEOF) := by
    rintro ⟨hv, hz⟩
    exact he.2 hv (List.length_eq_zero_iff.mp hz)
  rw [DumpFile.loadEntry, loadInt_of_drop h, hlen]
  simp only [if_neg hne]
  rw [loadString_of_drop (drop_advance h) he.1]
  rfl

/-- From v2 on, a zero length is the end marker, and the cursor moves past it. -/
theorem loadEntry_of_eof (h : df.file.drop cur.offset = toBytesLE 4 kEOF ++ rest)
    (hv : df.version > kDumpFileV1) :
    df.loadEntry cur = (.error .ENCOUNTER_EOF, cur.advance (toBytesLE 4 kEOF)) := by
  rw [DumpFile.loadEntry, loadInt_of_drop h]
  simp only [kEOF, Nat.zero_mod]
  rw [if_pos ⟨hv, trivial⟩]

end Load

/-! ## One step of the iterator -/

section Step

variable {it : DumpFileIterator crc32} {rest : List UInt8}

/-- `End` at the checksum of the bytes read so far completes the load. -/
theorem endLoad_of_drop
    (h : it.dumpfile.file.drop it.cur.offset = toBytesLE 4 it.cur.checkSum.toNat ++ rest) :
    it.endLoad =
      { it with cur := it.cur.advance (toBytesLE 4 it.cur.checkSum.toNat) }.exitLoad .COMPLETE := by
  have hcrc : it.cur.checkSum.toNat % 256 ^ 4 = it.cur.checkSum.toNat :=
    Nat.mod_eq_of_lt it.cur.checkSum.toNat_lt
  simp only [DumpFileIterator.endLoad, loadInt_of_drop h, hcrc, if_pos]

/-- `Next` on a valid iterator before a pair that loads moves past the pair and holds it. -/
theorem next_of_pair {p : List UInt8 × List UInt8} (hv : it.isValid = true)
    (hend : ¬(it.dumpfile.version = 1 ∧ it.nPairs = it.size))
    (h : it.dumpfile.file.drop it.cur.offset = (pairChunks p).flatten ++ rest)
    (hp : PairLoads it.dumpfile.version p) :
    it.next =
      { it with
        cur := it.cur.advanceAll (pairChunks p)
        nPairs := it.nPairs + 1
        isValid := true
        iter := p } := by
  have hkey : it.dumpfile.file.drop it.cur.offset =
      toBytesLE 4 p.1.length ++ p.1 ++ (toBytesLE 4 p.2.length ++ p.2 ++ rest) := by
    rw [h, pairChunks, List.flatten_append, flatten_entryChunks, flatten_entryChunks,
      List.append_assoc]
  have hval : it.dumpfile.file.drop (it.cur.advanceAll (entryChunks p.1)).offset =
      toBytesLE 4 p.2.length ++ p.2 ++ rest :=
    drop_advanceAll (entryChunks p.1) it.cur (by rw [hkey, flatten_entryChunks])
  rw [DumpFileIterator.next, if_neg (by simp [hv]), if_neg hend, loadEntry_of_drop hkey hp.1]
  simp only [loadEntry_of_drop hval hp.2, pairChunks, advanceAll_append]

/-- From v2 on, `Next` never takes the v1 exit after `size` pairs. -/
theorem not_v1_end_of_gt (hgt : it.dumpfile.version > kDumpFileV1) :
    ¬(it.dumpfile.version = 1 ∧ it.nPairs = it.size) := by
  rintro ⟨h1, _⟩
  rw [h1] at hgt
  exact absurd hgt (by decide)

/-- From v2 on, `Next` at the end marker ends the load, through `End` only above v2. -/
theorem next_of_eof (hv : it.isValid = true) (hgt : it.dumpfile.version > kDumpFileV1)
    (h : it.dumpfile.file.drop it.cur.offset = toBytesLE 4 kEOF ++ rest) :
    it.next =
      if it.dumpfile.version > kDumpFileV2 then
        { it with cur := it.cur.advance (toBytesLE 4 kEOF) }.endLoad
      else { it with cur := it.cur.advance (toBytesLE 4 kEOF) }.exitLoad .INVALID_PAIRS := by
  rw [DumpFileIterator.next, if_neg (by simp [hv]), if_neg (not_v1_end_of_gt hgt),
    loadEntry_of_eof h hgt]
  simp only [and_true]

/-- From v2 on, `Next` before a key followed by the end marker (an empty value) fails. -/
theorem next_of_key_eof {key : List UInt8} (hv : it.isValid = true)
    (hgt : it.dumpfile.version > kDumpFileV1)
    (h : it.dumpfile.file.drop it.cur.offset =
      toBytesLE 4 key.length ++ key ++ (toBytesLE 4 kEOF ++ rest))
    (hk : EntryLoads it.dumpfile.version key) :
    it.next =
      { it with cur := (it.cur.advanceAll (entryChunks key)).advance (toBytesLE 4 kEOF) }.exitLoad
        .INVALID_PAIRS := by
  have hval : it.dumpfile.file.drop (it.cur.advanceAll (entryChunks key)).offset =
      toBytesLE 4 kEOF ++ rest :=
    drop_advanceAll (entryChunks key) it.cur (by rw [h, flatten_entryChunks, List.append_assoc])
  rw [DumpFileIterator.next, if_neg (by simp [hv]), if_neg (not_v1_end_of_gt hgt),
    loadEntry_of_drop h hk]
  simp only [loadEntry_of_eof hval hgt]

/-- In v1, `Next` after `size` pairs goes to `End`. -/
theorem next_of_size (hv : it.isValid = true) (h1 : it.dumpfile.version = 1)
    (hn : it.nPairs = it.size) : it.next = it.endLoad := by
  rw [DumpFileIterator.next, if_neg (by simp [hv]), if_pos ⟨h1, hn⟩]

theorem collect_of_isValid_false (h : it.isValid = false) :
    ∀ n, it.collect n = ([], it)
  | 0 => rfl
  | n + 1 => by rw [DumpFileIterator.collect, if_neg (by simp [h])]

theorem collect_succ_of_isValid (h : it.isValid = true) (n : Nat) :
    it.collect (n + 1) = (it.iter :: (it.next.collect n).1, (it.next.collect n).2) := by
  rw [DumpFileIterator.collect, if_pos h]

end Step

/-! ## A run of the reader's loop -/

/-- `it'` is `it` moved past the pairs `ps`: valid, on the same file and size, the cursor past
the pairs' bytes, and the pair counter up by their number where that does not wrap. -/
structure LoadedPast (it it' : DumpFileIterator crc32) (ps : List (List UInt8 × List UInt8)) :
    Prop where
  isValid : it'.isValid = true
  dumpfile : it'.dumpfile = it.dumpfile
  size : it'.size = it.size
  cur : it'.cur = it.cur.advanceAll (ps.flatMap pairChunks)
  nPairs : it.nPairs.toNat + ps.length < 2 ^ 64 → it'.nPairs.toNat = it.nPairs.toNat + ps.length

theorem LoadedPast.refl {it : DumpFileIterator crc32} (h : it.isValid = true) : LoadedPast it it [] :=
  ⟨h, rfl, rfl, rfl, fun _ => rfl⟩

/-- The reader's loop over pairs that load: from a valid iterator before their bytes, the loop
collects them in order and then goes on from the iterator past them. The induction is on the
pairs, the iterator generalised; v1 needs the counter below the size before each pair. -/
theorem collect_next_of_pairs (ps : List (List UInt8 × List UInt8)) (rest : List UInt8) (n : Nat) :
    ∀ it : DumpFileIterator crc32, it.isValid = true →
      it.dumpfile.file.drop it.cur.offset = (ps.flatMap pairChunks).flatten ++ rest →
      (∀ p ∈ ps, PairLoads it.dumpfile.version p) →
      (it.dumpfile.version = 1 → it.nPairs.toNat + ps.length ≤ it.size.toNat) →
      ∃ it', LoadedPast it it' ps ∧
        it.next.collect (ps.length + n) = (ps ++ (it'.next.collect n).1, (it'.next.collect n).2) := by
  induction ps with
  | nil =>
    intro it hv _ _ _
    exact ⟨it, LoadedPast.refl hv, by simp⟩
  | cons p ps ih =>
    intro it hv h hps hsize
    have hend : ¬(it.dumpfile.version = 1 ∧ it.nPairs = it.size) := by
      rintro ⟨h1, hn⟩
      have := hsize h1
      rw [hn, List.length_cons] at this
      omega
    have hp : it.dumpfile.file.drop it.cur.offset =
        (pairChunks p).flatten ++ ((ps.flatMap pairChunks).flatten ++ rest) := by
      rw [h, List.flatMap_cons, List.flatten_append, List.append_assoc]
    rw [next_of_pair hv hend hp (hps p List.mem_cons_self)]
    -- the iterator holding `p`, before the rest of the pairs
    let it₁ : DumpFileIterator crc32 :=
      { it with
        cur := it.cur.advanceAll (pairChunks p)
        nPairs := it.nPairs + 1
        isValid := true
        iter := p }
    have hnPairs : it.nPairs.toNat + 1 < 2 ^ 64 → it₁.nPairs.toNat = it.nPairs.toNat + 1 := by
      intro hlt
      simp only [it₁, UInt64.toNat_add, UInt64.toNat_one]
      exact Nat.mod_eq_of_lt hlt
    have hsize₁ : it₁.dumpfile.version = 1 → it₁.nPairs.toNat + ps.length ≤ it₁.size.toNat := by
      intro h1
      have := hsize h1
      rw [List.length_cons] at this
      rw [hnPairs (by have := it.size.toNat_lt; omega)]
      simp only [it₁]
      omega
    obtain ⟨it', hpast, hcol⟩ := ih it₁ rfl (drop_advanceAll (pairChunks p) it.cur hp)
      (fun q hq => hps q (List.mem_cons_of_mem p hq)) hsize₁
    refine ⟨it', ⟨hpast.isValid, hpast.dumpfile, hpast.size, ?_, ?_⟩, ?_⟩
    · rw [hpast.cur, List.flatMap_cons, advanceAll_append]
    · intro hlt
      rw [List.length_cons] at hlt ⊢
      rw [hpast.nPairs (by rw [hnPairs (by omega)]; omega), hnPairs (by omega)]
      omega
    · rw [List.length_cons, show ps.length + 1 + n = ps.length + n + 1 by omega,
        collect_succ_of_isValid rfl, hcol]
      rfl

/-- The iterator after the header of a file, about to load the first pair. -/
def headerIterator (crc32 : UInt32 → List UInt8 → UInt32) (df : DumpFile) (version : UInt8)
    (size : UInt64) : DumpFileIterator crc32 :=
  ⟨{ df with version }, (⟨0, 0⟩ : Cursor crc32).advanceAll (headerChunks version size), 0,
    if version = kDumpFileV1 then size else 0, true, ([], [])⟩

/-- `SeekToFirst` reads a header the save wrote, takes its version and, in v1, its size. -/
theorem seekToFirst_of_header {df : DumpFile} {version : UInt8} {size : UInt64}
    {rest : List UInt8} (h : df.file = (headerChunks version size).flatten ++ rest)
    (hv : checkDumpFileVersion version = true) :
    (df.load crc32).seekToFirst = (headerIterator crc32 df version size).next := by
  have hmagic : (df.load crc32).dumpfile.file.drop (df.load crc32).cur.offset =
      kDingoFs ++ (toBytesLE 1 version.toNat ++
        ((if version = kDumpFileV1 then [toBytesLE 8 size.toNat] else []).flatten ++ rest)) := by
    simp [DumpFile.load, h, headerChunks]
  have hver := drop_advance hmagic
  have hversion : UInt8.ofNat (version.toNat % 256 ^ 1) = version := by
    rw [Nat.mod_eq_of_lt (by have := version.toNat_lt; omega), UInt8.ofNat_toNat]
  rw [DumpFileIterator.seekToFirst, loadString_of_drop hmagic (by decide)]
  simp only [ne_eq, not_true_eq_false, if_false]
  rw [loadInt_of_drop hver]
  simp only [hversion, hv, Bool.not_true, Bool.false_eq_true, if_false]
  by_cases h1 : version = kDumpFileV1
  · have hsz : ({ (df.load crc32).dumpfile with version := version } : DumpFile).file.drop
        (((df.load crc32).cur.advance kDingoFs).advance (toBytesLE 1 version.toNat)).offset =
          toBytesLE 8 size.toNat ++ rest := by
      simpa [h1] using drop_advance hver
    have hsize : UInt64.ofNat (size.toNat % 256 ^ 8) = size := by
      rw [Nat.mod_eq_of_lt (by have := size.toNat_lt; omega), UInt64.ofNat_toNat]
    simp only [if_pos h1, loadInt_of_drop hsz, hsize]
    simp [headerIterator, headerChunks, h1, DumpFile.load, Cursor.advanceAll]
  · simp only [if_neg h1]
    simp [headerIterator, headerChunks, h1, DumpFile.load, Cursor.advanceAll]

/-- A load of a file that starts with a header and pairs that load: the loop collects the pairs,
then goes on from an iterator past them. -/
theorem loadAll_of_pairs (crc32 : UInt32 → List UInt8 → UInt32) {df : DumpFile} {version : UInt8} {size : UInt64}
    {ps : List (List UInt8 × List UInt8)} {rest : List UInt8}
    (h : df.file = (headerChunks version size).flatten ++ ((ps.flatMap pairChunks).flatten ++ rest))
    (hv : checkDumpFileVersion version = true) (hps : ∀ p ∈ ps, PairLoads version p)
    (hsize : version = 1 → ps.length ≤ size.toNat) :
    ∃ it' n, LoadedPast (headerIterator crc32 df version size) it' ps ∧
      df.loadAll crc32 = (ps ++ (it'.next.collect n).1, (it'.next.collect n).2.dumpfile.loadStatus) := by
  have hlen : ps.length ≤ df.file.length := by
    have := length_le_flatten_pairChunks ps
    rw [h, List.length_append, List.length_append]
    omega
  have hstart : (headerIterator crc32 df version size).dumpfile.file.drop
      (headerIterator crc32 df version size).cur.offset = (ps.flatMap pairChunks).flatten ++ rest :=
    drop_advanceAll (headerChunks version size) ⟨0, 0⟩ (by simpa [headerIterator] using h)
  have hcount : version = 1 → (headerIterator crc32 df version size).nPairs.toNat + ps.length ≤
      (headerIterator crc32 df version size).size.toNat := by
    intro h1
    simpa [headerIterator, kDumpFileV1, h1] using hsize h1
  -- the loop's rounds: one per pair, and the rest for the end
  obtain ⟨n, hfuel⟩ : ∃ n, df.file.length + 1 = ps.length + n :=
    ⟨df.file.length + 1 - ps.length, by omega⟩
  obtain ⟨it', hpast, hcol⟩ := collect_next_of_pairs ps rest n (headerIterator crc32 df version size) rfl
    hstart hps hcount
  refine ⟨it', n, hpast, ?_⟩
  rw [DumpFile.loadAll, seekToFirst_of_header (by rw [h, ← List.append_assoc]) hv, hfuel, hcol]

/-! ## The reader's loop ends

A read that succeeds moves the cursor by its length and stays inside the file, and a round of
the loop that leaves the iterator valid has read two lengths. So a file of `L` bytes allows at
most `L + 1` rounds, and `loadAll` never stops early. -/

section Ends

variable {df : DumpFile} {cur cur' : Cursor crc32}

theorem read_ok {off len : Nat} {buf : List UInt8} (hoff : off ≤ df.file.length)
    (h : df.read off len = .ok buf) : buf.length = len ∧ off + len ≤ df.file.length := by
  dsimp only [DumpFile.read] at h
  split at h
  · next hl =>
    cases h
    refine ⟨hl, ?_⟩
    rw [List.length_take, List.length_drop] at hl
    omega
  · cases h

theorem loadInt_ok {w v : Nat} (hoff : cur.offset ≤ df.file.length)
    (h : df.loadInt w cur = (.ok v, cur')) :
    cur'.offset = cur.offset + w ∧ cur'.offset ≤ df.file.length := by
  unfold DumpFile.loadInt at h
  split at h
  · next buf hr =>
    cases h
    obtain ⟨hl, hle⟩ := read_ok hoff hr
    exact ⟨by rw [Cursor.advance, hl], by rw [Cursor.advance, hl]; exact hle⟩
  · cases h

theorem loadString_ok {length : Nat} {str : List UInt8} (hoff : cur.offset ≤ df.file.length)
    (h : df.loadString cur length = (.ok str, cur')) :
    cur'.offset = cur.offset + length ∧ cur'.offset ≤ df.file.length := by
  unfold DumpFile.loadString at h
  split_ifs at h
  · simp at h
  split at h
  · next buf hr =>
    cases h
    obtain ⟨hl, hle⟩ := read_ok hoff hr
    exact ⟨by rw [Cursor.advance, hl], by rw [Cursor.advance, hl]; exact hle⟩
  · cases h

/-- An entry that loads moves the cursor past at least its length, inside the file. -/
theorem loadEntry_ok {e : List UInt8} (hoff : cur.offset ≤ df.file.length)
    (h : df.loadEntry cur = (.ok e, cur')) :
    cur.offset + 4 ≤ cur'.offset ∧ cur'.offset ≤ df.file.length := by
  unfold DumpFile.loadEntry at h
  split at h
  · cases h
  · next length cur₁ hint =>
    obtain ⟨h₁, hle₁⟩ := loadInt_ok hoff hint
    split_ifs at h
    · simp at h
    obtain ⟨h₂, hle₂⟩ := loadString_ok hle₁ h
    omega

@[simp] theorem isValid_exitLoad (it : DumpFileIterator crc32) (status : DumpFileLoadStatus) :
    (it.exitLoad status).isValid = false := rfl

@[simp] theorem isValid_endLoad (it : DumpFileIterator crc32) : it.endLoad.isValid = false := by
  unfold DumpFileIterator.endLoad
  split <;> rfl

/-- A round that leaves the iterator valid loaded a pair: it read two lengths, inside the same
file. -/
theorem next_of_isValid {it : DumpFileIterator crc32} (hoff : it.cur.offset ≤ it.dumpfile.file.length)
    (h : it.next.isValid = true) :
    it.next.dumpfile = it.dumpfile ∧ it.cur.offset + 8 ≤ it.next.cur.offset ∧
      it.next.cur.offset ≤ it.dumpfile.file.length := by
  unfold DumpFileIterator.next at h ⊢
  split_ifs at h ⊢ with hv hend
  · simp_all
  · simp at h
  -- only the branch that loads both entries leaves the iterator valid
  split at h
  · split_ifs at h <;> simp at h
  · next key cur₁ hkey =>
    split at h
    · simp at h
    · next value cur₂ hval =>
      obtain ⟨hk, hle₁⟩ := loadEntry_ok hoff hkey
      obtain ⟨hv₂, hle₂⟩ := loadEntry_ok hle₁ hval
      exact ⟨rfl, by dsimp only; omega, hle₂⟩

/-- From a valid iterator inside the file, `L - offset + 1` rounds end the loop. The induction
is on the rounds; each round that continues moves the cursor by eight bytes at least. -/
theorem collect_isValid_false : ∀ (fuel : Nat) (it : DumpFileIterator crc32),
    it.cur.offset ≤ it.dumpfile.file.length →
    it.dumpfile.file.length - it.cur.offset + 1 ≤ fuel → (it.collect fuel).2.isValid = false
  | 0, _, _, hfuel => absurd hfuel (by omega)
  | fuel + 1, it, hoff, hfuel => by
    rw [DumpFileIterator.collect]
    split
    · next hv =>
      dsimp only
      cases hnext : it.next.isValid
      · rw [collect_of_isValid_false hnext]
        exact hnext
      · obtain ⟨hdf, hstep, hle⟩ := next_of_isValid hoff hnext
        refine collect_isValid_false fuel it.next (by rw [hdf]; exact hle) ?_
        rw [hdf]
        omega
    · next hv => simpa using hv

/-- `SeekToFirst` leaves a valid iterator inside the file it read. -/
theorem seekToFirst_of_isValid (h : (df.load crc32).seekToFirst.isValid = true) :
    (df.load crc32).seekToFirst.dumpfile.file = df.file ∧
      (df.load crc32).seekToFirst.cur.offset ≤ df.file.length := by
  have hstart : (df.load crc32).cur.offset ≤ (df.load crc32).dumpfile.file.length := Nat.zero_le _
  have hnext : ∀ it : DumpFileIterator crc32, it.dumpfile.file = df.file →
      it.cur.offset ≤ df.file.length → it.next.isValid = true →
      it.next.dumpfile.file = df.file ∧ it.next.cur.offset ≤ df.file.length := by
    intro it hfile hoff hv
    obtain ⟨hdf, _, hle⟩ := next_of_isValid (by rw [hfile]; exact hoff) hv
    exact ⟨by rw [hdf, hfile], by rw [← hfile]; exact hle⟩
  unfold DumpFileIterator.seekToFirst at h ⊢
  split at h
  · simp at h
  · next magic cur₁ hmagic =>
    obtain ⟨_, hle₁⟩ := loadString_ok hstart hmagic
    split_ifs at h ⊢
    · simp at h
    split at h
    · simp at h
    · next v cur₂ hver =>
      obtain ⟨_, hle₂⟩ := loadInt_ok hle₁ hver
      dsimp only at h ⊢
      split_ifs at h ⊢
      · simp at h
      · split at h
        · simp at h
        · next size cur₃ hsize =>
          obtain ⟨_, hle₃⟩ := loadInt_ok hle₂ hsize
          exact hnext _ rfl hle₃ h
      · exact hnext _ rfl hle₂ h

/-- The reader's loop always ends within the rounds `loadAll` allows it. -/
theorem loadAll_ends (crc32 : UInt32 → List UInt8 → UInt32) (df : DumpFile) :
    ((df.load crc32).seekToFirst.collect (df.file.length + 1)).2.isValid = false := by
  cases hv : (df.load crc32).seekToFirst.isValid
  · rw [collect_of_isValid_false hv]
    exact hv
  · obtain ⟨hfile, hoff⟩ := seekToFirst_of_isValid hv
    exact collect_isValid_false _ _ (by rw [hfile]; exact hoff) (by rw [hfile]; omega)

end Ends

/-! ## Loading what a save wrote -/

/-- A file reopened after a save holds the chunks the save wrote, their checksum, and what the
file held past them. -/
theorem new_save_file (file : List UInt8) (pairs : List (List UInt8 × List UInt8))
    (size : UInt64) (version version' : UInt8) :
    (DumpFile.new ((DumpFile.new file version).save crc32 pairs size).file version').file =
      (dumpChunks version size pairs).flatten ++ (toBytesLE 4 (dumpCheckSum crc32 version size pairs).toNat ++
        file.drop (dumpBytes crc32 version size pairs).length) := by
  show ((DumpFile.new file version).save crc32 pairs size).file = _
  rw [save_file, writeAt_zero, dumpBytes, List.append_assoc]
  rfl

theorem LoadedPast.cur_eq {df : DumpFile} {version : UInt8} {size : UInt64}
    {ps : List (List UInt8 × List UInt8)} {it' : DumpFileIterator crc32}
    (h : LoadedPast (headerIterator crc32 df version size) it' ps) :
    it'.cur = (Cursor.mk 0 0).advanceAll (headerChunks version size ++ ps.flatMap pairChunks) := by
  rw [h.cur, advanceAll_append]
  rfl

/-- Past the pairs, a load reads what the file holds after their bytes. -/
theorem LoadedPast.drop_cur {df : DumpFile} {version : UInt8} {size : UInt64}
    {ps : List (List UInt8 × List UInt8)} {it' : DumpFileIterator crc32} {tail : List UInt8}
    (h : LoadedPast (headerIterator crc32 df version size) it' ps)
    (hfile : df.file = (headerChunks version size).flatten ++ ((ps.flatMap pairChunks).flatten ++ tail)) :
    it'.dumpfile.file.drop it'.cur.offset = tail := by
  rw [h.dumpfile, h.cur_eq]
  refine drop_advanceAll _ ⟨0, 0⟩ ?_
  show df.file.drop 0 = _
  rw [List.drop_zero, hfile, List.flatten_append, List.append_assoc]

/-- The checksum a save stores, as the cursor past the pairs and the end marker holds it. -/
theorem LoadedPast.dumpCheckSum_eq {df : DumpFile} {version : UInt8} {size : UInt64}
    {ps : List (List UInt8 × List UInt8)} {it' : DumpFileIterator crc32}
    (h : LoadedPast (headerIterator crc32 df version size) it' ps) :
    dumpCheckSum crc32 version size ps = (it'.cur.advanceAll (eofChunks version)).checkSum := by
  rw [h.cur_eq, dumpCheckSum, dumpChunks, advanceAll_append _ (_ ++ _)]

/-- The saved file seen as a header, the pairs `ps`, and the rest. -/
theorem new_save_file_of_append {file : List UInt8} {ps qs : List (List UInt8 × List UInt8)}
    {size : UInt64} {version version' : UInt8} :
    (DumpFile.new ((DumpFile.new file version).save crc32 (ps ++ qs) size).file version').file =
      (headerChunks version size).flatten ++ ((ps.flatMap pairChunks).flatten ++
        ((qs.flatMap pairChunks).flatten ++ (eofChunks version).flatten ++
          (toBytesLE 4 (dumpCheckSum crc32 version size (ps ++ qs)).toNat ++
            file.drop (dumpBytes crc32 version size (ps ++ qs)).length))) := by
  rw [new_save_file, dumpChunks, List.flatMap_append]
  simp only [List.flatten_append, List.append_assoc]

/-- A pair whose strings fit loads in v1, where empty strings are allowed. -/
theorem pairLoads_v1 {p : List UInt8 × List UInt8}
    (h : p.1.length ≤ kMaxStringLength ∧ p.2.length ≤ kMaxStringLength) :
    PairLoads kDumpFileV1 p :=
  ⟨⟨h.1, fun hv => absurd hv (by decide)⟩, ⟨h.2, fun hv => absurd hv (by decide)⟩⟩

/-- A pair of non-empty strings that fit loads in every version. -/
theorem pairLoads_of_ne_nil {version : UInt8} {p : List UInt8 × List UInt8}
    (h : p.1.length ≤ kMaxStringLength ∧ p.2.length ≤ kMaxStringLength)
    (hne : p.1 ≠ [] ∧ p.2 ≠ []) : PairLoads version p :=
  ⟨⟨h.1, fun _ => hne.1⟩, ⟨h.2, fun _ => hne.2⟩⟩

theorem loadAll_save_v1 (crc32 : UInt32 → List UInt8 → UInt32) (file : List UInt8)
    (pairs : List (List UInt8 × List UInt8))
    (size : UInt64) (version : UInt8)
    (hlen : ∀ p ∈ pairs, p.1.length ≤ kMaxStringLength ∧ p.2.length ≤ kMaxStringLength)
    (hsize : size.toNat = pairs.length) :
    (DumpFile.new ((DumpFile.new file kDumpFileV1).save crc32 pairs size).file version).loadAll crc32 =
      (pairs, .COMPLETE) := by
  have hfile := @new_save_file_of_append crc32 file pairs [] size kDumpFileV1 version
  -- v1 writes no end marker: the checksum follows the pairs
  have heof : eofChunks kDumpFileV1 = [] := rfl
  simp only [List.append_nil, List.flatMap_nil, List.flatten_nil, heof, List.nil_append] at hfile
  obtain ⟨it', n, hpast, hload⟩ := loadAll_of_pairs crc32 hfile (by decide)
    (fun p hp => pairLoads_v1 (hlen p hp)) (fun _ => hsize.ge)
  -- after the last pair the counter has reached the size, and `Next` goes to `End`
  have hn : it'.nPairs = it'.size := by
    have hcount := hpast.nPairs (by have := size.toNat_lt; simp [headerIterator]; omega)
    rw [← UInt64.toNat_inj, hpast.size]
    simpa [headerIterator, kDumpFileV1, hsize] using hcount
  have hcrc : it'.dumpfile.file.drop it'.cur.offset = toBytesLE 4 it'.cur.checkSum.toNat ++
      file.drop (dumpBytes crc32 kDumpFileV1 size pairs).length := by
    rw [hpast.drop_cur hfile, hpast.dumpCheckSum_eq, heof]
    rfl
  rw [hload, next_of_size hpast.isValid (by rw [hpast.dumpfile]; rfl) hn, endLoad_of_drop hcrc,
    collect_of_isValid_false rfl]
  simp [DumpFileIterator.exitLoad]

/-- A v1 file with an empty key, saved with its size, loads back. -/
theorem loadAll_save_v1_empty_key :
    ((∀ p ∈ ([([], [0x62])] : List (List UInt8 × List UInt8)),
        p.1.length ≤ kMaxStringLength ∧ p.2.length ≤ kMaxStringLength) ∧
      (1 : UInt64).toNat = ([([], [0x62])] : List (List UInt8 × List UInt8)).length) ∧
    (DumpFile.new ((DumpFile.new [] kDumpFileV1).save (fun crc _ => crc) [([], [0x62])] 1).file kVersion).loadAll (fun crc _ => crc) =
      ([([], [0x62])], .COMPLETE) :=
  ⟨⟨by decide, rfl⟩, loadAll_save_v1 (fun crc _ => crc) [] [([], [0x62])] 1 kVersion (by decide) rfl⟩

theorem loadAll_save_v3 (crc32 : UInt32 → List UInt8 → UInt32) (file : List UInt8)
    (pairs : List (List UInt8 × List UInt8))
    (size : UInt64) (version : UInt8)
    (hlen : ∀ p ∈ pairs, p.1.length ≤ kMaxStringLength ∧ p.2.length ≤ kMaxStringLength)
    (hne : ∀ p ∈ pairs, p.1 ≠ [] ∧ p.2 ≠ []) :
    (DumpFile.new ((DumpFile.new file kDumpFileV3).save crc32 pairs size).file version).loadAll crc32 =
      (pairs, .COMPLETE) := by
  have hfile := @new_save_file_of_append crc32 file pairs [] size kDumpFileV3 version
  have heof : eofChunks kDumpFileV3 = [toBytesLE 4 kEOF] := rfl
  simp only [List.append_nil, List.flatMap_nil, List.flatten_nil, heof, List.nil_append,
    List.flatten_cons] at hfile
  obtain ⟨it', n, hpast, hload⟩ := loadAll_of_pairs crc32 hfile (by decide)
    (fun p hp => pairLoads_of_ne_nil (hlen p hp) (hne p hp)) (fun h => absurd h (by decide))
  have hver : it'.dumpfile.version = kDumpFileV3 := by rw [hpast.dumpfile]; rfl
  -- v3 takes the end marker for the end of the pairs, and `End` finds the checksum after it
  have hdrop := hpast.drop_cur hfile
  have hcrc : it'.dumpfile.file.drop (it'.cur.advance (toBytesLE 4 kEOF)).offset =
      toBytesLE 4 (it'.cur.advance (toBytesLE 4 kEOF)).checkSum.toNat ++
        file.drop (dumpBytes crc32 kDumpFileV3 size pairs).length := by
    rw [drop_advance hdrop, hpast.dumpCheckSum_eq, heof]
    rfl
  rw [hload, next_of_eof hpast.isValid (by rw [hver]; decide) hdrop, hver, if_pos (by decide),
    endLoad_of_drop hcrc, collect_of_isValid_false rfl]
  simp [DumpFileIterator.exitLoad]

theorem loadAll_save_v3_pair :
    ((∀ p ∈ ([([0x61], [0x62])] : List (List UInt8 × List UInt8)),
        p.1.length ≤ kMaxStringLength ∧ p.2.length ≤ kMaxStringLength) ∧
      (∀ p ∈ ([([0x61], [0x62])] : List (List UInt8 × List UInt8)), p.1 ≠ [] ∧ p.2 ≠ [])) ∧
    (DumpFile.new ((DumpFile.new [] kDumpFileV3).save (fun crc _ => crc) [([0x61], [0x62])] 0).file kVersion).loadAll (fun crc _ => crc) =
      ([([0x61], [0x62])], .COMPLETE) :=
  ⟨⟨by decide, by decide⟩, loadAll_save_v3 (fun crc _ => crc) [] [([0x61], [0x62])] 0 kVersion (by decide) (by decide)⟩

/-- An entry of length zero is written as the end marker. -/
theorem toBytesLE_length_nil : toBytesLE 4 ([] : List UInt8).length = toBytesLE 4 kEOF := rfl

theorem loadAll_save_v2 (crc32 : UInt32 → List UInt8 → UInt32) (file : List UInt8)
    (pairs : List (List UInt8 × List UInt8))
    (size : UInt64) (version : UInt8)
    (hlen : ∀ p ∈ pairs, p.1.length ≤ kMaxStringLength ∧ p.2.length ≤ kMaxStringLength) :
    (DumpFile.new ((DumpFile.new file kDumpFileV2).save crc32 pairs size).file version).loadAll crc32 =
      (pairs.takeWhile (fun p => !p.1.isEmpty && !p.2.isEmpty), .INVALID_PAIRS) := by
  -- the pairs before the first empty key or value load; the load stops at what follows them
  have hsplit := (@List.takeWhile_append_dropWhile _ (fun p => !p.1.isEmpty && !p.2.isEmpty)
    pairs).symm
  have hfile := @new_save_file_of_append crc32 file (pairs.takeWhile fun p => !p.1.isEmpty && !p.2.isEmpty)
    (pairs.dropWhile fun p => !p.1.isEmpty && !p.2.isEmpty) size kDumpFileV2 version
  have heof : eofChunks kDumpFileV2 = [toBytesLE 4 kEOF] := rfl
  rw [← hsplit, heof] at hfile
  have hgood : ∀ p ∈ pairs.takeWhile (fun p => !p.1.isEmpty && !p.2.isEmpty),
      PairLoads kDumpFileV2 p := by
    intro p hp
    have hne := List.all_eq_true.mp List.all_takeWhile p hp
    simp only [Bool.and_eq_true, Bool.not_eq_true', List.isEmpty_eq_false_iff] at hne
    exact pairLoads_of_ne_nil (hlen p ((List.takeWhile_sublist _).subset hp)) hne
  obtain ⟨it', n, hpast, hload⟩ := loadAll_of_pairs crc32 hfile (by decide) hgood
    (fun h => absurd h (by decide))
  have hver : it'.dumpfile.version = kDumpFileV2 := by rw [hpast.dumpfile]; rfl
  have hgt : it'.dumpfile.version > kDumpFileV1 := by rw [hver]; decide
  have hdrop := hpast.drop_cur hfile
  -- whatever follows, `Next` meets an end marker, as a key's length or as a value's, and v2
  -- takes it for an invalid pair
  have hnext : it'.next.isValid = false ∧ it'.next.dumpfile.loadStatus = .INVALID_PAIRS := by
    rcases hbad : pairs.dropWhile (fun p => !p.1.isEmpty && !p.2.isEmpty) with _ | ⟨q, qs⟩
    · rw [hbad] at hdrop
      simp only [List.flatMap_nil, List.flatten_nil, List.nil_append, List.flatten_cons,
        List.append_assoc] at hdrop
      rw [next_of_eof hpast.isValid hgt hdrop, hver, if_neg (by decide)]
      exact ⟨rfl, rfl⟩
    · have hq : (!q.1.isEmpty && !q.2.isEmpty) = false := by
        have := @List.head_dropWhile_not _ (fun p => !p.1.isEmpty && !p.2.isEmpty) pairs
          (by rw [hbad]; exact List.cons_ne_nil q qs)
        simpa [hbad] using this
      rw [hbad] at hdrop
      simp only [List.flatMap_cons, pairChunks, List.flatten_append, flatten_entryChunks,
        List.append_assoc] at hdrop
      by_cases hk : q.1 = []
      · rw [hk, toBytesLE_length_nil, List.nil_append] at hdrop
        rw [next_of_eof hpast.isValid hgt hdrop, hver, if_neg (by decide)]
        exact ⟨rfl, rfl⟩
      · have hv : q.2 = [] := by simpa [hk] using hq
        have hmem : q ∈ pairs := by
          have : q ∈ pairs.dropWhile (fun p => !p.1.isEmpty && !p.2.isEmpty) := by
            rw [hbad]; exact List.mem_cons_self
          exact (List.dropWhile_sublist _).subset this
        rw [hv, toBytesLE_length_nil, List.nil_append] at hdrop
        rw [next_of_key_eof hpast.isValid hgt hdrop ⟨(hlen q hmem).1, fun _ => hk⟩]
        exact ⟨rfl, rfl⟩
  rw [hload, collect_of_isValid_false hnext.1, hnext.2, List.append_nil]

/-- A v2 file of one pair loads the pair and ends `INVALID_PAIRS`. -/
theorem loadAll_save_v2_pair :
    (∀ p ∈ ([([0x61], [0x62])] : List (List UInt8 × List UInt8)),
        p.1.length ≤ kMaxStringLength ∧ p.2.length ≤ kMaxStringLength) ∧
    (DumpFile.new ((DumpFile.new [] kDumpFileV2).save (fun crc _ => crc) [([0x61], [0x62])] 0).file kVersion).loadAll (fun crc _ => crc) =
      ([([0x61], [0x62])], .INVALID_PAIRS) :=
  ⟨by decide, loadAll_save_v2 (fun crc _ => crc) [] [([0x61], [0x62])] 0 kVersion (by decide)⟩

end Metaserver.Storage

end DingoFs
