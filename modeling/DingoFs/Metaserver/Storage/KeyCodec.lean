import DingoFs.Lib.LittleEndian
import DingoFs.Metaserver.DentryStorage
import DingoFs.Metaserver.Trash
import Mathlib.Data.List.TakeWhile

/-!
# Storage keys and their parsing: `Key4*::ParseFromString`, `NameGenerator`, `RocksDBStorage`

Every key of the metaserver's tables is its fields printed in decimal and joined by `:`,
after a one-digit key type. `ParseFromString` splits the key at `:` with `SplitString`, which
drops empty pieces, checks the type, and reads each field back with `StringToUl` (a
`uint32_t`) or `StringToUll` (a `uint64_t`). `Key4Dentry` ends in a name, which may be empty
or hold `:`; its parser reads the three numeric fields and cuts the name off after their
printed length.

A key is a byte string. It is modelled as a `String` whose characters stand for its bytes (the
byte `b` as the character of code `b`), so that `:` and the digits are the same characters
either way and a length counts bytes.

For every field value that fits the field's C++ type, each parser reads back exactly what the
serializer wrote (`storage_keys_round_trip`). Each prefix a scan seeks ends in `:`,
so a key carries it exactly when their fields agree, and within one chunk the chunk-info keys
sort by their padded chunk ids (`storage_key_prefixes_and_order`). RocksDB stores a key under
`ordered:name:0:key`; every table name `NameGenerator` makes has the same length, so
`ToUserKey` recovers the key (`toUserKey_toInternalKey`).
-/

namespace DingoFs.Metaserver

open DingoFs.Lib

/-! ## Splitting and reading numbers -/

/-- `SplitString(full, ":")` (`AddSplitStringToResult`): the pieces between the delimiters,
with the empty ones dropped. -/
def splitString (full : String) : List String :=
  ((full.toList.splitOn ':').filter (fun l => !l.isEmpty)).map String.ofList

/-- The blanks `strtoull` skips in the C locale. -/
def isSpace (c : Char) : Bool :=
  c = ' ' || c = '\t' || c = '\n' || c = '\x0b' || c = '\x0c' || c = '\r'

/-- `std::stoull` (and `std::stoul` where `long` has 64 bits) in base 10: blanks, a sign, then
the value of the leading digits, negated modulo `2 ^ 64` after a `-`. `none` is
`std::invalid_argument` (no digit) or `std::out_of_range` (a value past `2 ^ 64 - 1`). -/
def stoull (s : String) : Option Nat :=
  let rest := s.toList.dropWhile isSpace
  let negative := rest.head? = some '-'
  let unsigned := if rest.head? = some '-' ∨ rest.head? = some '+' then rest.tail else rest
  let digits := unsigned.takeWhile Char.isDigit
  if digits = [] then none
  else if digitsValue digits < 2 ^ 64 then
    some (if negative then (2 ^ 64 - digitsValue digits) % 2 ^ 64 else digitsValue digits)
  else none

/-- `StringToUll`. -/
def stringToUll (value : String) : Option Nat := stoull value

/-- `StringToUl`: `std::stoul`, stored into a `uint32_t`. -/
def stringToUl (value : String) : Option Nat := (stoull value).map (· % 2 ^ 32)

/-- `CompareType(str, keyType)`. -/
def compareType (str : String) (keyType : Nat) : Bool :=
  match stringToUl str with
  | some n => n == keyType
  | none => false

/-- The numeric fields of a key after its type, in order, each read with `StringToUl` (`true`)
or `StringToUll` (`false`); `none` when their count differs from the pieces' or one fails. -/
def parseNumbers : List Bool → List String → Option (List Nat)
  | [], [] => some []
  | isUl :: widths, item :: items => do
    let v ← if isUl then stringToUl item else stringToUll item
    let vs ← parseNumbers widths items
    pure (v :: vs)
  | _, _ => none

/-- `ParseFromString` of a key of numeric fields: `items.size()` is one more than the fields,
`CompareType(items[0], keyType)`, then the fields. -/
def parseKey (keyType : Nat) (widths : List Bool) (value : String) : Option (List Nat) :=
  match splitString value with
  | t :: items => if compareType t keyType then parseNumbers widths items else none
  | [] => none

/-! ## The keys -/

/-- `Key4Inode::SerializeToString`, with `kTypeInode = 1`. -/
def Key4Inode.serializeToString (k : Key4Inode) : String :=
  s!"1:{k.fsId}:{k.inodeId}"

/-- `Key4Inode::ParseFromString`. -/
def Key4Inode.parseFromString (value : String) : Option Key4Inode :=
  match parseKey 1 [true, false] value with
  | some [fsId, inodeId] => some ⟨fsId, inodeId⟩
  | _ => none

/-- `Key4S3ChunkInfoList::ParseFromString`, with `kTypeS3ChunkInfo = 2`. -/
def Key4S3ChunkInfoList.parseFromString (value : String) : Option Key4S3ChunkInfoList :=
  match parseKey 2 [true, false, false, false, false, false] value with
  | some [fsId, inodeId, chunkIndex, firstChunkId, lastChunkId, size] =>
    some ⟨fsId, inodeId, chunkIndex, firstChunkId, lastChunkId, size⟩
  | _ => none

/-- `Key4Dentry::ParseFromString`, with `kTypeDentry = 3`: the name is what follows the three
numeric fields and their three delimiters. -/
def Key4Dentry.parseFromString (value : String) : Option Key4Dentry :=
  match splitString value with
  | t :: fs :: parent :: _ =>
    if !compareType t 3 then none
    else
      match stringToUl fs, stringToUll parent with
      | some fsId, some parentInodeId =>
        let prefixLength := t.length + fs.length + parent.length + 3
        if value.length < prefixLength then none
        else some ⟨fsId, parentInodeId, String.ofList (value.toList.drop prefixLength)⟩
      | _, _ => none
  | _ => none

/-- `Key4VolumeExtentSlice`. -/
structure Key4VolumeExtentSlice where
  fsId : Nat
  inodeId : Nat
  offset : Nat
deriving DecidableEq, Repr

/-- `Key4VolumeExtentSlice::SerializeToString`, with `kTypeVolumeExtent = 4`. -/
def Key4VolumeExtentSlice.serializeToString (k : Key4VolumeExtentSlice) : String :=
  s!"4:{k.fsId}:{k.inodeId}:{k.offset}"

/-- `Key4VolumeExtentSlice::ParseFromString`. -/
def Key4VolumeExtentSlice.parseFromString (value : String) : Option Key4VolumeExtentSlice :=
  match parseKey 4 [true, false, false] value with
  | some [fsId, inodeId, offset] => some ⟨fsId, inodeId, offset⟩
  | _ => none

/-- `Prefix4InodeVolumeExtent::SerializeToString`. -/
def prefix4InodeVolumeExtent (fsId inodeId : Nat) : String :=
  s!"4:{fsId}:{inodeId}:"

/-- `Key4InodeAuxInfo::SerializeToString`, with `kTypeInodeAuxInfo = 5`. -/
def Key4InodeAuxInfo.serializeToString (k : Key4InodeAuxInfo) : String :=
  s!"5:{k.fsId}:{k.inodeId}"

/-- `Key4InodeAuxInfo::ParseFromString`. -/
def Key4InodeAuxInfo.parseFromString (value : String) : Option Key4InodeAuxInfo :=
  match parseKey 5 [true, false] value with
  | some [fsId, inodeId] => some ⟨fsId, inodeId⟩
  | _ => none

/-- `Key4FsQuota`. -/
structure Key4FsQuota where
  fsId : Nat
deriving DecidableEq, Repr

/-- `Key4FsQuota::SerializeToString`, with `kTypeFsQuota = 6`. -/
def Key4FsQuota.serializeToString (k : Key4FsQuota) : String :=
  s!"6:{k.fsId}"

/-- `Key4FsQuota::ParseFromString`. -/
def Key4FsQuota.parseFromString (value : String) : Option Key4FsQuota :=
  match parseKey 6 [true] value with
  | some [fsId] => some ⟨fsId⟩
  | _ => none

/-- `Key4DirQuota`. -/
structure Key4DirQuota where
  fsId : Nat
  dirInodeId : Nat
deriving DecidableEq, Repr

/-- `Key4DirQuota::SerializeToString`, with `kTypeDirQuota = 7`. -/
def Key4DirQuota.serializeToString (k : Key4DirQuota) : String :=
  s!"7:{k.fsId}:{k.dirInodeId}"

/-- `Key4DirQuota::ParseFromString`. -/
def Key4DirQuota.parseFromString (value : String) : Option Key4DirQuota :=
  match parseKey 7 [true, false] value with
  | some [fsId, dirInodeId] => some ⟨fsId, dirInodeId⟩
  | _ => none

/-- `Prefix4DirQuotas::SerializeToString`. -/
def prefix4DirQuotas (fsId : Nat) : String :=
  s!"7:{fsId}:"

/-! ## Reading back printed fields -/

/-- A piece that a field of the given width reads back as its value: nonempty, all digits,
and spelling a number the field holds. -/
def FieldFits (isUl : Bool) (p : List Char) : Prop :=
  p ≠ [] ∧ (∀ c ∈ p, c.isDigit = true) ∧ digitsValue p < if isUl then 2 ^ 32 else 2 ^ 64

theorem fieldFits_toDigits {isUl : Bool} {n : Nat} (h : n < if isUl then 2 ^ 32 else 2 ^ 64) :
    FieldFits isUl (Nat.toDigits 10 n) :=
  ⟨Nat.toDigits_ne_nil, fun _ hc => Nat.isDigit_of_mem_toDigits (by decide) (by decide) hc,
    by rw [digitsValue_toDigits]; exact h⟩

theorem fieldFits_zeroPad {w n : Nat} (h : n < 2 ^ 64) :
    FieldFits false (zeroPad w (Nat.toDigits 10 n)) :=
  ⟨fun h => Nat.toDigits_ne_nil (List.append_eq_nil_iff.mp h).2,
    fun _ hc => isDigit_of_mem_zeroPad hc, by rw [digitsValue_zeroPad, digitsValue_toDigits]; exact h⟩

theorem FieldFits.colon_not_mem {isUl : Bool} {p : List Char} (h : FieldFits isUl p) :
    ':' ∉ p := fun hc => by
  have := h.2.1 ':' hc
  revert this
  decide

theorem isSpace_of_isDigit {c : Char} (h : c.isDigit = true) : isSpace c = false := by
  cases hs : isSpace c
  · rfl
  · simp only [isSpace, Bool.or_eq_true, decide_eq_true_eq] at hs
    rcases hs with ((((hc | hc) | hc) | hc) | hc) | hc <;> (subst hc; revert h; decide)

/-- `std::stoull` of a piece of digits is its value. -/
theorem stoull_of_digits {p : List Char} (hne : p ≠ []) (hdig : ∀ c ∈ p, c.isDigit = true)
    (hlt : digitsValue p < 2 ^ 64) : stoull (String.ofList p) = some (digitsValue p) := by
  obtain ⟨d, ds, rfl⟩ := List.exists_cons_of_ne_nil hne
  have hd := hdig d List.mem_cons_self
  -- no blank, no sign: the digits are read from the first character on
  have hdrop : (d :: ds).dropWhile isSpace = d :: ds :=
    List.dropWhile_cons_of_neg (by simp [isSpace_of_isDigit hd])
  have hsign : ¬ (some d = some '-' ∨ some d = some '+') := by
    rintro (h | h) <;> (cases h; revert hd; decide)
  have hminus : ¬ some d = some '-' := fun h => hsign (Or.inl h)
  have htake : (d :: ds).takeWhile Char.isDigit = d :: ds := List.takeWhile_eq_self_iff.mpr hdig
  unfold stoull
  simp only [String.toList_ofList, hdrop, List.head?_cons, if_neg hsign, htake, reduceCtorEq,
    if_false, if_pos hlt, if_neg hminus]

theorem stringToUll_of_fits {p : List Char} (h : FieldFits false p) :
    stringToUll (String.ofList p) = some (digitsValue p) :=
  stoull_of_digits h.1 h.2.1 h.2.2

theorem stringToUl_of_fits {p : List Char} (h : FieldFits true p) :
    stringToUl (String.ofList p) = some (digitsValue p) := by
  have h32 : digitsValue p < 2 ^ 32 := by simpa using h.2.2
  have h64 : digitsValue p < 2 ^ 64 := lt_trans h32 (by decide)
  rw [stringToUl, stoull_of_digits h.1 h.2.1 h64, Option.map_some, Nat.mod_eq_of_lt h32]

theorem exists_fieldFits_of_mem {widths : List Bool} {ps : List (List Char)}
    (h : List.Forall₂ FieldFits widths ps) {p : List Char} (hp : p ∈ ps) :
    ∃ isUl, FieldFits isUl p := by
  induction h with
  | nil => cases hp
  | cons hfit _ ih =>
    rcases List.mem_cons.mp hp with rfl | hp
    · exact ⟨_, hfit⟩
    · exact ih hp

theorem parseNumbers_of_fits :
    ∀ {widths : List Bool} {ps : List (List Char)}, List.Forall₂ FieldFits widths ps →
      parseNumbers widths (ps.map String.ofList) = some (ps.map digitsValue)
  | [], [], .nil => rfl
  | isUl :: widths, p :: ps, .cons hp hps => by
    cases isUl
    · simp only [List.map_cons, parseNumbers, stringToUll_of_fits hp, parseNumbers_of_fits hps]
      rfl
    · simp only [List.map_cons, parseNumbers, stringToUl_of_fits hp, parseNumbers_of_fits hps]
      rfl

theorem splitString_intercalate {ls : List (List Char)} (hc : ∀ l ∈ ls, ':' ∉ l)
    (hne : ∀ l ∈ ls, l ≠ []) (hls : ls ≠ []) :
    splitString (String.ofList ([':'].intercalate ls)) = ls.map String.ofList := by
  rw [splitString, String.toList_ofList, filter_splitOn_intercalate hc hne hls]

/-- A key of numeric fields, printed and joined by `:`, parses back to its fields. -/
theorem parseKey_intercalate {keyType : Nat} {widths : List Bool} {ps : List (List Char)}
    (htype : keyType < 2 ^ 32) (hps : List.Forall₂ FieldFits widths ps) :
    parseKey keyType widths (String.ofList ([':'].intercalate (Nat.toDigits 10 keyType :: ps))) =
      some (ps.map digitsValue) := by
  have hsep : ∀ l ∈ Nat.toDigits 10 keyType :: ps, ':' ∉ l := by
    intro l hl
    rcases List.mem_cons.mp hl with rfl | hl
    · exact colon_not_mem_toDigits keyType
    · obtain ⟨_, hfit⟩ := exists_fieldFits_of_mem hps hl
      exact hfit.colon_not_mem
  have hne : ∀ l ∈ Nat.toDigits 10 keyType :: ps, l ≠ [] := by
    intro l hl
    rcases List.mem_cons.mp hl with rfl | hl
    · exact Nat.toDigits_ne_nil
    · obtain ⟨_, hfit⟩ := exists_fieldFits_of_mem hps hl
      exact hfit.1
  -- the type reads back as itself, and the fields as their values
  have htype' : compareType (String.ofList (Nat.toDigits 10 keyType)) keyType = true := by
    have hfit : FieldFits true (Nat.toDigits 10 keyType) := fieldFits_toDigits (by simpa using htype)
    rw [compareType, stringToUl_of_fits hfit, digitsValue_toDigits]
    exact beq_self_eq_true keyType
  rw [parseKey, splitString_intercalate hsep hne (List.cons_ne_nil _ _), List.map_cons]
  dsimp only
  rw [if_pos htype']
  exact parseNumbers_of_fits hps

/-! ## Every key reads back -/

theorem Key4Inode.serializeToString_eq (k : Key4Inode) :
    k.serializeToString = String.ofList ([':'].intercalate
      [Nat.toDigits 10 1, Nat.toDigits 10 k.fsId, Nat.toDigits 10 k.inodeId]) := by
  apply String.toList_injective
  simp [Key4Inode.serializeToString]
  rfl

theorem Key4Inode.parseFromString_serializeToString (k : Key4Inode) (hfs : k.fsId < 2 ^ 32)
    (hino : k.inodeId < 2 ^ 64) : Key4Inode.parseFromString k.serializeToString = some k := by
  rw [serializeToString_eq, parseFromString, parseKey_intercalate (by decide)
    (.cons (fieldFits_toDigits (by simpa using hfs))
      (.cons (fieldFits_toDigits (by simpa using hino)) .nil))]
  simp [digitsValue_toDigits]

theorem Key4S3ChunkInfoList.serializeToString_eq (k : Key4S3ChunkInfoList) :
    k.serializeToString = String.ofList ([':'].intercalate
      [Nat.toDigits 10 2, Nat.toDigits 10 k.fsId, Nat.toDigits 10 k.inodeId,
        Nat.toDigits 10 k.chunkIndex, zeroPad 20 (Nat.toDigits 10 k.firstChunkId),
        zeroPad 20 (Nat.toDigits 10 k.lastChunkId), Nat.toDigits 10 k.size]) := by
  apply String.toList_injective
  rw [toList_serializeToString, String.toList_ofList]
  simp
  rfl

theorem Key4S3ChunkInfoList.parseFromString_serializeToString (k : Key4S3ChunkInfoList)
    (hfs : k.fsId < 2 ^ 32) (hino : k.inodeId < 2 ^ 64) (hci : k.chunkIndex < 2 ^ 64)
    (hfirst : k.firstChunkId < 2 ^ 64) (hlast : k.lastChunkId < 2 ^ 64) (hsize : k.size < 2 ^ 64) :
    Key4S3ChunkInfoList.parseFromString k.serializeToString = some k := by
  rw [serializeToString_eq, parseFromString, parseKey_intercalate (by decide)
    (.cons (fieldFits_toDigits (by simpa using hfs))
      (.cons (fieldFits_toDigits (by simpa using hino))
        (.cons (fieldFits_toDigits (by simpa using hci))
          (.cons (fieldFits_zeroPad hfirst) (.cons (fieldFits_zeroPad hlast)
            (.cons (fieldFits_toDigits (by simpa using hsize)) .nil))))))]
  simp [digitsValue_toDigits, digitsValue_zeroPad]

theorem Key4Dentry.toList_serializeToString (k : Key4Dentry) :
    k.serializeToString.toList = ['3'] ++ ':' :: (Nat.toDigits 10 k.fsId ++ ':' ::
      (Nat.toDigits 10 k.parentInodeId ++ ':' :: k.name.toList)) := by
  simp [Key4Dentry.serializeToString]
  rfl

/-- The name, whatever it holds, is cut off after the printed numeric fields. -/
theorem Key4Dentry.parseFromString_serializeToString (k : Key4Dentry) (hfs : k.fsId < 2 ^ 32)
    (hpar : k.parentInodeId < 2 ^ 64) : Key4Dentry.parseFromString k.serializeToString = some k := by
  have hfs' : FieldFits true (Nat.toDigits 10 k.fsId) := fieldFits_toDigits (by simpa using hfs)
  have hpar' : FieldFits false (Nat.toDigits 10 k.parentInodeId) :=
    fieldFits_toDigits (by simpa using hpar)
  -- the first three pieces are the numeric fields, whatever the name holds
  have hsplit : splitString k.serializeToString =
      String.ofList ['3'] :: String.ofList (Nat.toDigits 10 k.fsId) ::
        String.ofList (Nat.toDigits 10 k.parentInodeId) ::
          ((k.name.toList.splitOn ':').filter (fun l => !l.isEmpty)).map String.ofList := by
    rw [splitString, Key4Dentry.toList_serializeToString,
      List.splitOn_append_cons_self_of_not_mem (by decide),
      List.splitOn_append_cons_self_of_not_mem (colon_not_mem_toDigits _),
      List.splitOn_append_cons_self_of_not_mem (colon_not_mem_toDigits _)]
    simp [Nat.toDigits_ne_nil]
  have hlen : k.serializeToString.length =
      (1 + (Nat.toDigits 10 k.fsId).length + (Nat.toDigits 10 k.parentInodeId).length + 3) +
        k.name.length := by
    rw [← String.length_toList, Key4Dentry.toList_serializeToString]
    simp only [List.length_append, List.length_cons, List.length_nil, String.length_toList]
    omega
  have hdrop : k.serializeToString.toList.drop
      (1 + (Nat.toDigits 10 k.fsId).length + (Nat.toDigits 10 k.parentInodeId).length + 3) =
        k.name.toList := by
    have happ : ['3'] ++ ':' :: (Nat.toDigits 10 k.fsId ++ ':' ::
        (Nat.toDigits 10 k.parentInodeId ++ ':' :: k.name.toList)) =
          (['3', ':'] ++ Nat.toDigits 10 k.fsId ++ ':' :: Nat.toDigits 10 k.parentInodeId ++ [':']) ++
            k.name.toList := by
      simp
    rw [Key4Dentry.toList_serializeToString, happ, List.drop_left']
    simp only [List.length_append, List.length_cons, List.length_nil]
    omega
  have htype : compareType (String.ofList ['3']) 3 = true := by decide
  rw [parseFromString, hsplit]
  simp only [htype, Bool.not_true, Bool.false_eq_true, if_false, stringToUl_of_fits hfs',
    stringToUll_of_fits hpar', digitsValue_toDigits, String.length_ofList, List.length_singleton]
  rw [if_neg (by omega), hdrop, String.ofList_toList]

theorem Key4VolumeExtentSlice.serializeToString_eq (k : Key4VolumeExtentSlice) :
    k.serializeToString = String.ofList ([':'].intercalate
      [Nat.toDigits 10 4, Nat.toDigits 10 k.fsId, Nat.toDigits 10 k.inodeId,
        Nat.toDigits 10 k.offset]) := by
  apply String.toList_injective
  simp [Key4VolumeExtentSlice.serializeToString]
  rfl

theorem Key4VolumeExtentSlice.parseFromString_serializeToString (k : Key4VolumeExtentSlice)
    (hfs : k.fsId < 2 ^ 32) (hino : k.inodeId < 2 ^ 64) (hoff : k.offset < 2 ^ 64) :
    Key4VolumeExtentSlice.parseFromString k.serializeToString = some k := by
  rw [serializeToString_eq, parseFromString, parseKey_intercalate (by decide)
    (.cons (fieldFits_toDigits (by simpa using hfs))
      (.cons (fieldFits_toDigits (by simpa using hino))
        (.cons (fieldFits_toDigits (by simpa using hoff)) .nil)))]
  simp [digitsValue_toDigits]

theorem Key4InodeAuxInfo.serializeToString_eq (k : Key4InodeAuxInfo) :
    k.serializeToString = String.ofList ([':'].intercalate
      [Nat.toDigits 10 5, Nat.toDigits 10 k.fsId, Nat.toDigits 10 k.inodeId]) := by
  apply String.toList_injective
  simp [Key4InodeAuxInfo.serializeToString]
  rfl

theorem Key4InodeAuxInfo.parseFromString_serializeToString (k : Key4InodeAuxInfo)
    (hfs : k.fsId < 2 ^ 32) (hino : k.inodeId < 2 ^ 64) :
    Key4InodeAuxInfo.parseFromString k.serializeToString = some k := by
  rw [serializeToString_eq, parseFromString, parseKey_intercalate (by decide)
    (.cons (fieldFits_toDigits (by simpa using hfs))
      (.cons (fieldFits_toDigits (by simpa using hino)) .nil))]
  simp [digitsValue_toDigits]

theorem Key4FsQuota.serializeToString_eq (k : Key4FsQuota) :
    k.serializeToString = String.ofList ([':'].intercalate
      [Nat.toDigits 10 6, Nat.toDigits 10 k.fsId]) := by
  apply String.toList_injective
  simp [Key4FsQuota.serializeToString]
  rfl

theorem Key4FsQuota.parseFromString_serializeToString (k : Key4FsQuota) (hfs : k.fsId < 2 ^ 32) :
    Key4FsQuota.parseFromString k.serializeToString = some k := by
  rw [serializeToString_eq, parseFromString, parseKey_intercalate (by decide)
    (.cons (fieldFits_toDigits (by simpa using hfs)) .nil)]
  simp [digitsValue_toDigits]

theorem Key4DirQuota.serializeToString_eq (k : Key4DirQuota) :
    k.serializeToString = String.ofList ([':'].intercalate
      [Nat.toDigits 10 7, Nat.toDigits 10 k.fsId, Nat.toDigits 10 k.dirInodeId]) := by
  apply String.toList_injective
  simp [Key4DirQuota.serializeToString]
  rfl

theorem Key4DirQuota.parseFromString_serializeToString (k : Key4DirQuota)
    (hfs : k.fsId < 2 ^ 32) (hdir : k.dirInodeId < 2 ^ 64) :
    Key4DirQuota.parseFromString k.serializeToString = some k := by
  rw [serializeToString_eq, parseFromString, parseKey_intercalate (by decide)
    (.cons (fieldFits_toDigits (by simpa using hfs))
      (.cons (fieldFits_toDigits (by simpa using hdir)) .nil))]
  simp [digitsValue_toDigits]

/-- Every storage key whose fields fit their C++ types (`uint32_t` fs ids, `uint64_t` for the
rest), and a dentry key with any name, parses back from its serialization to exactly its
fields. -/
theorem storage_keys_round_trip :
    (∀ k : Key4Inode, k.fsId < 2 ^ 32 → k.inodeId < 2 ^ 64 →
      Key4Inode.parseFromString k.serializeToString = some k) ∧
    (∀ k : Key4S3ChunkInfoList, k.fsId < 2 ^ 32 → k.inodeId < 2 ^ 64 →
      k.chunkIndex < 2 ^ 64 → k.firstChunkId < 2 ^ 64 → k.lastChunkId < 2 ^ 64 →
      k.size < 2 ^ 64 → Key4S3ChunkInfoList.parseFromString k.serializeToString = some k) ∧
    (∀ k : Key4Dentry, k.fsId < 2 ^ 32 → k.parentInodeId < 2 ^ 64 →
      Key4Dentry.parseFromString k.serializeToString = some k) ∧
    (∀ k : Key4VolumeExtentSlice, k.fsId < 2 ^ 32 → k.inodeId < 2 ^ 64 → k.offset < 2 ^ 64 →
      Key4VolumeExtentSlice.parseFromString k.serializeToString = some k) ∧
    (∀ k : Key4InodeAuxInfo, k.fsId < 2 ^ 32 → k.inodeId < 2 ^ 64 →
      Key4InodeAuxInfo.parseFromString k.serializeToString = some k) ∧
    (∀ k : Key4FsQuota, k.fsId < 2 ^ 32 →
      Key4FsQuota.parseFromString k.serializeToString = some k) ∧
    (∀ k : Key4DirQuota, k.fsId < 2 ^ 32 → k.dirInodeId < 2 ^ 64 →
      Key4DirQuota.parseFromString k.serializeToString = some k) :=
  ⟨Key4Inode.parseFromString_serializeToString,
    Key4S3ChunkInfoList.parseFromString_serializeToString,
    Key4Dentry.parseFromString_serializeToString,
    Key4VolumeExtentSlice.parseFromString_serializeToString,
    Key4InodeAuxInfo.parseFromString_serializeToString,
    Key4FsQuota.parseFromString_serializeToString,
    Key4DirQuota.parseFromString_serializeToString⟩

/-- A name that is empty, or starts, ends and doubles with `:`, reads back. -/
example : Key4Dentry.parseFromString (⟨1, 2, ""⟩ : Key4Dentry).serializeToString =
      some ⟨1, 2, ""⟩ ∧
    Key4Dentry.parseFromString (⟨1, 2, ":a::b:"⟩ : Key4Dentry).serializeToString =
      some ⟨1, 2, ":a::b:"⟩ := by
  decide

/-! ## Prefixes of the scans -/

theorem toList_prefix4SameParentDentry (fsId parentInodeId : Nat) :
    (prefix4SameParentDentry fsId parentInodeId).toList =
      '3' :: ':' :: (Nat.toDigits 10 fsId ++ ':' :: (Nat.toDigits 10 parentInodeId ++ [':'])) := by
  simp [prefix4SameParentDentry]
  rfl

/-- A dentry key carries a directory's prefix exactly when its entry is in that directory. -/
theorem startWith_prefix4SameParentDentry_iff {k : Key4Dentry} {fsId parentInodeId : Nat} :
    stringStartWith k.serializeToString (prefix4SameParentDentry fsId parentInodeId) = true ↔
      k.fsId = fsId ∧ k.parentInodeId = parentInodeId := by
  unfold stringStartWith
  rw [List.isPrefixOf_iff_prefix, Key4Dentry.toList_serializeToString,
    toList_prefix4SameParentDentry]
  simp only [List.singleton_append, List.cons_prefix_cons, true_and]
  -- one field at a time: each is followed by a separator no digit equals
  rw [sep_isPrefix_iff (colon_not_mem_toDigits _) (colon_not_mem_toDigits _),
    sep_isPrefix_iff (colon_not_mem_toDigits _) (colon_not_mem_toDigits _)]
  constructor
  · rintro ⟨hfs, hpar, -⟩
    exact ⟨toDigits_inj hfs.symm, toDigits_inj hpar.symm⟩
  · rintro ⟨rfl, rfl⟩
    exact ⟨rfl, rfl, List.nil_prefix⟩

theorem toList_prefix4InodeVolumeExtent (fsId inodeId : Nat) :
    (prefix4InodeVolumeExtent fsId inodeId).toList =
      '4' :: ':' :: (Nat.toDigits 10 fsId ++ ':' :: (Nat.toDigits 10 inodeId ++ [':'])) := by
  simp [prefix4InodeVolumeExtent]
  rfl

theorem Key4VolumeExtentSlice.toList_serializeToString (k : Key4VolumeExtentSlice) :
    k.serializeToString.toList = '4' :: ':' :: (Nat.toDigits 10 k.fsId ++ ':' ::
      (Nat.toDigits 10 k.inodeId ++ ':' :: Nat.toDigits 10 k.offset)) := by
  simp [Key4VolumeExtentSlice.serializeToString]
  rfl

/-- A volume-extent key carries an inode's prefix exactly when it is a slice of that inode. -/
theorem startWith_prefix4InodeVolumeExtent_iff {k : Key4VolumeExtentSlice} {fsId inodeId : Nat} :
    stringStartWith k.serializeToString (prefix4InodeVolumeExtent fsId inodeId) = true ↔
      k.fsId = fsId ∧ k.inodeId = inodeId := by
  unfold stringStartWith
  rw [List.isPrefixOf_iff_prefix, Key4VolumeExtentSlice.toList_serializeToString,
    toList_prefix4InodeVolumeExtent]
  simp only [List.cons_prefix_cons, true_and]
  rw [sep_isPrefix_iff (colon_not_mem_toDigits _) (colon_not_mem_toDigits _),
    sep_isPrefix_iff (colon_not_mem_toDigits _) (colon_not_mem_toDigits _)]
  constructor
  · rintro ⟨hfs, hino, -⟩
    exact ⟨toDigits_inj hfs.symm, toDigits_inj hino.symm⟩
  · rintro ⟨rfl, rfl⟩
    exact ⟨rfl, rfl, List.nil_prefix⟩

theorem toList_prefix4DirQuotas (fsId : Nat) :
    (prefix4DirQuotas fsId).toList = '7' :: ':' :: (Nat.toDigits 10 fsId ++ [':']) := by
  simp [prefix4DirQuotas]
  rfl

theorem Key4DirQuota.toList_serializeToString (k : Key4DirQuota) :
    k.serializeToString.toList = '7' :: ':' :: (Nat.toDigits 10 k.fsId ++ ':' ::
      Nat.toDigits 10 k.dirInodeId) := by
  simp [Key4DirQuota.serializeToString]
  rfl

/-- A directory-quota key carries a file system's prefix exactly when it is of that system. -/
theorem startWith_prefix4DirQuotas_iff {k : Key4DirQuota} {fsId : Nat} :
    stringStartWith k.serializeToString (prefix4DirQuotas fsId) = true ↔ k.fsId = fsId := by
  unfold stringStartWith
  rw [List.isPrefixOf_iff_prefix, Key4DirQuota.toList_serializeToString, toList_prefix4DirQuotas]
  simp only [List.cons_prefix_cons, true_and]
  rw [sep_isPrefix_iff (colon_not_mem_toDigits _) (colon_not_mem_toDigits _)]
  constructor
  · rintro ⟨hfs, -⟩
    exact toDigits_inj hfs.symm
  · rintro rfl
    exact ⟨rfl, List.nil_prefix⟩

/-! ## Order of the chunk-info keys of one chunk -/

section ChunkOrder

variable {k k' : Key4S3ChunkInfoList}

/-- Two lists of one chunk with one first chunk id: the key with the smaller last chunk id sorts
first, for ids of 64 bits. -/
theorem serializeToString_lt_of_lastChunkId_lt (hfs : k.fsId = k'.fsId)
    (hino : k.inodeId = k'.inodeId) (hci : k.chunkIndex = k'.chunkIndex)
    (hfirst : k.firstChunkId = k'.firstChunkId) (hlt : k.lastChunkId < k'.lastChunkId)
    (h64 : k'.lastChunkId < 2 ^ 64) : k.serializeToString < k'.serializeToString := by
  have h20 : k'.lastChunkId < 10 ^ 20 := lt_trans h64 (by decide)
  rw [String.lt_iff_toList_lt, toList_serializeToString, toList_serializeToString, hfs, hino,
    hci, hfirst, zeroPad_toDigits (by decide) (lt_trans hlt h20), zeroPad_toDigits (by decide) h20]
  -- the keys agree up to the last chunk id, which is padded to twenty digits
  refine List.cons_lt_cons_iff.mpr (Or.inr ⟨rfl, List.cons_lt_cons_iff.mpr (Or.inr ⟨rfl, ?_⟩)⟩)
  refine List.append_left_lt (List.cons_lt_cons_iff.mpr (Or.inr ⟨rfl, ?_⟩))
  refine List.append_left_lt (List.cons_lt_cons_iff.mpr (Or.inr ⟨rfl, ?_⟩))
  refine List.append_left_lt (List.cons_lt_cons_iff.mpr (Or.inr ⟨rfl, ?_⟩))
  refine List.append_left_lt (List.cons_lt_cons_iff.mpr (Or.inr ⟨rfl, ?_⟩))
  exact padDigits_append_lt hlt h20 _ _

/-- Two lists of one chunk: the key with the smaller pair of chunk ids, first id first, sorts
first. -/
theorem serializeToString_lt_of_chunkIds_lt (hfs : k.fsId = k'.fsId)
    (hino : k.inodeId = k'.inodeId) (hci : k.chunkIndex = k'.chunkIndex)
    (h₁ : k'.firstChunkId < 2 ^ 64) (h₂ : k'.lastChunkId < 2 ^ 64)
    (hlt : k.firstChunkId < k'.firstChunkId ∨
      (k.firstChunkId = k'.firstChunkId ∧ k.lastChunkId < k'.lastChunkId)) :
    k.serializeToString < k'.serializeToString := by
  rcases hlt with hlt | ⟨heq, hlt⟩
  · exact serializeToString_lt_of_firstChunkId_lt hfs hino hci hlt h₁
  · exact serializeToString_lt_of_lastChunkId_lt hfs hino hci heq hlt h₂

/-- Within one chunk, keys whose pairs of chunk ids differ sort as the pairs do. -/
theorem serializeToString_lt_iff (hfs : k.fsId = k'.fsId) (hino : k.inodeId = k'.inodeId)
    (hci : k.chunkIndex = k'.chunkIndex) (h₁ : k.firstChunkId < 2 ^ 64)
    (h₂ : k.lastChunkId < 2 ^ 64) (h₁' : k'.firstChunkId < 2 ^ 64) (h₂' : k'.lastChunkId < 2 ^ 64)
    (hne : (k.firstChunkId, k.lastChunkId) ≠ (k'.firstChunkId, k'.lastChunkId)) :
    k.serializeToString < k'.serializeToString ↔
      k.firstChunkId < k'.firstChunkId ∨
        (k.firstChunkId = k'.firstChunkId ∧ k.lastChunkId < k'.lastChunkId) := by
  constructor
  · intro hlt
    by_contra hnot
    -- otherwise the pairs, being different, sort the other way, and so do the keys
    have hrev : k'.firstChunkId < k.firstChunkId ∨
        (k'.firstChunkId = k.firstChunkId ∧ k'.lastChunkId < k.lastChunkId) := by
      have hne' : k.firstChunkId ≠ k'.firstChunkId ∨ k.lastChunkId ≠ k'.lastChunkId := by
        by_contra h
        simp only [not_or, not_not] at h
        exact hne (Prod.ext h.1 h.2)
      omega
    exact lt_asymm hlt
      (serializeToString_lt_of_chunkIds_lt hfs.symm hino.symm hci.symm h₁ h₂ hrev)
  · exact serializeToString_lt_of_chunkIds_lt hfs hino hci h₁' h₂'

end ChunkOrder

/-- Two lists of one chunk with the same chunk ids and sizes 10 and 5: the size is printed
unpadded, so the key of size 10 sorts first. -/
theorem chunk_info_keys_with_equal_ids_sort_by_size_text :
    (⟨1, 1, 0, 1, 1, 10⟩ : Key4S3ChunkInfoList).serializeToString <
        (⟨1, 1, 0, 1, 1, 5⟩ : Key4S3ChunkInfoList).serializeToString ∧
      ¬ (⟨1, 1, 0, 1, 1, 5⟩ : Key4S3ChunkInfoList).serializeToString <
        (⟨1, 1, 0, 1, 1, 10⟩ : Key4S3ChunkInfoList).serializeToString := by
  decide

/-! ## Table names and RocksDB keys -/

/-- `NameGenerator::Format(type, partitionId)`: the type in decimal, `:`, and the four bytes
`memcpy` copies out of the `uint32_t` partition id. -/
def NameGenerator.format (type partitionId : Nat) : String :=
  String.ofList (Nat.toDigits 10 type ++ ':' ::
    (toBytesLE 4 partitionId).map fun b => Char.ofNat b.toNat)

/-- The table names of a `NameGenerator`. -/
structure NameGenerator where
  tableName4Inode : String
  tableName4S3ChunkInfo : String
  tableName4Dentry : String
  tableName4VolumeExtent : String
  tableName4InodeAuxInfo : String
  tableName4FsQuota : String
  tableName4DirQuota : String

namespace NameGenerator

/-- The constructor `NameGenerator(partitionId)`. -/
def ofPartition (partitionId : Nat) : NameGenerator :=
  ⟨format 1 partitionId, format 2 partitionId, format 3 partitionId, format 4 partitionId,
    format 5 partitionId, format 6 0, format 7 0⟩

/-- The names `GetInodeTableName` to `GetDirQuotaTableName` return. -/
def tableNames (g : NameGenerator) : List String :=
  [g.tableName4Inode, g.tableName4S3ChunkInfo, g.tableName4Dentry, g.tableName4VolumeExtent,
    g.tableName4InodeAuxInfo, g.tableName4FsQuota, g.tableName4DirQuota]

/-- `NameGenerator::GetFixedLength`: `sizeof(kTypeInode) + sizeof(uint32_t) + strlen(":")`, the
type being an `unsigned char`. -/
def getFixedLength : Nat := 1 + 4 + 1

/-- A name of a one-digit type has the fixed length, whatever bytes the partition id has. -/
theorem length_format {type : Nat} (htype : type < 10) (partitionId : Nat) :
    (format type partitionId).length = getFixedLength := by
  rw [format, String.length_ofList, List.length_append, Nat.toDigits_of_lt_base htype]
  simp [getFixedLength]

theorem length_of_mem_tableNames {partitionId : Nat} {name : String}
    (h : name ∈ (ofPartition partitionId).tableNames) : name.length = getFixedLength := by
  simp only [tableNames, ofPartition, List.mem_cons, List.not_mem_nil, or_false] at h
  rcases h with rfl | rfl | rfl | rfl | rfl | rfl | rfl <;> exact length_format (by decide) _

end NameGenerator

/-- `RocksDBStorage::ToInternalName`; `ordered` is printed as `1` or `0`. -/
def toInternalName (name : String) (ordered start : Bool) : String :=
  (if ordered then "1" else "0") ++ ":" ++ name ++ ":" ++ (if start then "0" else "1")

/-- `RocksDBStorage::ToInternalKey`. -/
def toInternalKey (name key : String) (ordered : Bool) : String :=
  toInternalName name ordered true ++ ":" ++ key

/-- `RocksDBStorage::GetKeyPrefixLength`: the length of the internal name of a name of the fixed
length. -/
def getKeyPrefixLength : Nat :=
  (toInternalName (String.ofList (List.replicate NameGenerator.getFixedLength '0')) true true).length

/-- `RocksDBStorage::ToUserKey`: what follows the prefix and its delimiter. -/
def toUserKey (ikey : String) : String :=
  String.ofList (ikey.toList.drop (getKeyPrefixLength + 1))

theorem getKeyPrefixLength_eq : getKeyPrefixLength = NameGenerator.getFixedLength + 4 := by
  decide

/-- `ToUserKey` recovers the key of a table name of the fixed length. -/
theorem toUserKey_toInternalKey {name : String} (hname : name.length = NameGenerator.getFixedLength)
    (key : String) (ordered : Bool) : toUserKey (toInternalKey name key ordered) = key := by
  have hsplit : (toInternalKey name key ordered).toList =
      ((if ordered then "1" else "0").toList ++ [':'] ++ name.toList ++ [':', '0', ':']) ++
        key.toList := by
    cases ordered <;> simp [toInternalKey, toInternalName]
  have hlen : ((if ordered then "1" else "0").toList ++ [':'] ++ name.toList ++
      [':', '0', ':']).length = getKeyPrefixLength + 1 := by
    rw [getKeyPrefixLength_eq]
    cases ordered <;> simp [String.length_toList, hname, NameGenerator.getFixedLength]
  rw [toUserKey, hsplit, ← hlen, List.drop_left, String.ofList_toList]

/-- Partition 58 puts a raw ':' into its names, which the fixed length steps over. -/
example : toUserKey (toInternalKey (NameGenerator.ofPartition 58).tableName4Dentry "3:1:2:a" true) =
    "3:1:2:a" := by decide

/-! ## The keys of the scans -/

/-- Scans by prefix find exactly the keys of their directory, inode, chunk or file system; the
lists of one chunk whose pairs of chunk ids differ sort as the pairs do; and the user key comes
back out of the internal key of every generated table name. -/
theorem storage_key_prefixes_and_order :
    (∀ (k : Key4Dentry) (fsId parentInodeId : Nat),
      stringStartWith k.serializeToString (prefix4SameParentDentry fsId parentInodeId) = true ↔
        k.fsId = fsId ∧ k.parentInodeId = parentInodeId) ∧
    (∀ (k : Key4S3ChunkInfoList) (fsId inodeId : Nat),
      stringStartWith k.serializeToString (prefix4InodeS3ChunkInfoList fsId inodeId) = true ↔
        k.fsId = fsId ∧ k.inodeId = inodeId) ∧
    (∀ (k : Key4S3ChunkInfoList) (fsId inodeId chunkIndex : Nat),
      stringStartWith k.serializeToString
          (prefix4ChunkIndexS3ChunkInfoList fsId inodeId chunkIndex) = true ↔
        k.fsId = fsId ∧ k.inodeId = inodeId ∧ k.chunkIndex = chunkIndex) ∧
    (∀ (k : Key4VolumeExtentSlice) (fsId inodeId : Nat),
      stringStartWith k.serializeToString (prefix4InodeVolumeExtent fsId inodeId) = true ↔
        k.fsId = fsId ∧ k.inodeId = inodeId) ∧
    (∀ (k : Key4DirQuota) (fsId : Nat),
      stringStartWith k.serializeToString (prefix4DirQuotas fsId) = true ↔ k.fsId = fsId) ∧
    (∀ k k' : Key4S3ChunkInfoList, k.fsId = k'.fsId → k.inodeId = k'.inodeId →
      k.chunkIndex = k'.chunkIndex → k.firstChunkId < 2 ^ 64 → k.lastChunkId < 2 ^ 64 →
      k'.firstChunkId < 2 ^ 64 → k'.lastChunkId < 2 ^ 64 →
      (k.firstChunkId, k.lastChunkId) ≠ (k'.firstChunkId, k'.lastChunkId) →
      (k.serializeToString < k'.serializeToString ↔
        k.firstChunkId < k'.firstChunkId ∨
          (k.firstChunkId = k'.firstChunkId ∧ k.lastChunkId < k'.lastChunkId))) ∧
    (∀ (partitionId : Nat) (name key : String) (ordered : Bool),
      name ∈ (NameGenerator.ofPartition partitionId).tableNames →
        toUserKey (toInternalKey name key ordered) = key) := by
  refine ⟨?dentry, ?inode, ?chunk, ?extent, ?quota, ?order, ?userKey⟩
  case dentry => exact fun _ _ _ => startWith_prefix4SameParentDentry_iff
  case inode => exact fun _ _ _ => startWith_prefix4Inode_iff
  case chunk => exact fun _ _ _ _ => startWith_prefix4ChunkIndex_iff
  case extent => exact fun _ _ _ => startWith_prefix4InodeVolumeExtent_iff
  case quota => exact fun _ _ => startWith_prefix4DirQuotas_iff
  case order =>
    intro k k' hfs hino hci h₁ h₂ h₁' h₂' hne
    exact serializeToString_lt_iff hfs hino hci h₁ h₂ h₁' h₂' hne
  case userKey =>
    -- every generated name has the fixed length the prefix length is computed from
    intro partitionId name key ordered hname
    exact toUserKey_toInternalKey (NameGenerator.length_of_mem_tableNames hname) key ordered

end DingoFs.Metaserver
