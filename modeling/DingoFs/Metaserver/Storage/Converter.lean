import DingoFs.Lib.Decimal

/-!
# Keys of the chunk-info table: `storage/converter.cpp`

A list of chunk infos is stored under
`kTypeS3ChunkInfo:fsId:inodeId:chunkIndex:firstChunkId:lastChunkId:size`, with
`kTypeS3ChunkInfo = 2`, the two chunk ids printed with `%020` and the other numbers plain.
The scans of `InodeStorage` seek the prefixes `2:fsId:inodeId:` (an inode) and
`2:fsId:inodeId:chunkIndex:` (one chunk of it).

Each prefix ends in a separator, so a key carries it exactly when its fields agree
(`startWith_prefix4Inode_iff`, `startWith_prefix4ChunkIndex_iff`): the prefix of chunk 1 is
no prefix of the keys of chunk 10. Within one chunk the keys sort by their first chunk id,
since the ids are padded to one width (`serializeToString_lt_of_firstChunkId_lt`): chunk id 10
sorts after chunk id 9.
-/

namespace DingoFs.Metaserver

open DingoFs.Lib

/-- `StringStartWith`. -/
def stringStartWith (value starting : String) : Bool :=
  starting.toList.isPrefixOf value.toList

/-- `Key4S3ChunkInfoList`: one stored list of a chunk of an inode, named by the ids of its
first and last chunk info and its length. -/
structure Key4S3ChunkInfoList where
  fsId : Nat
  inodeId : Nat
  chunkIndex : Nat
  firstChunkId : Nat
  lastChunkId : Nat
  size : Nat
deriving DecidableEq, Repr

/-- `absl::StrFormat("%020" PRIu64, n)`. -/
def formatChunkId (n : Nat) : String :=
  String.ofList (zeroPad 20 (Nat.toDigits 10 n))

/-- `Key4S3ChunkInfoList::SerializeToString`. -/
def Key4S3ChunkInfoList.serializeToString (k : Key4S3ChunkInfoList) : String :=
  s!"2:{k.fsId}:{k.inodeId}:{k.chunkIndex}:" ++ formatChunkId k.firstChunkId ++ ":" ++
    formatChunkId k.lastChunkId ++ s!":{k.size}"

/-- `Prefix4ChunkIndexS3ChunkInfoList::SerializeToString`. -/
def prefix4ChunkIndexS3ChunkInfoList (fsId inodeId chunkIndex : Nat) : String :=
  s!"2:{fsId}:{inodeId}:{chunkIndex}:"

/-- `Prefix4InodeS3ChunkInfoList::SerializeToString`. -/
def prefix4InodeS3ChunkInfoList (fsId inodeId : Nat) : String :=
  s!"2:{fsId}:{inodeId}:"

/-! ## The characters of a key -/

theorem toList_serializeToString (k : Key4S3ChunkInfoList) :
    k.serializeToString.toList =
      '2' :: ':' :: (Nat.toDigits 10 k.fsId ++ ':' :: (Nat.toDigits 10 k.inodeId ++ ':' ::
        (Nat.toDigits 10 k.chunkIndex ++ ':' :: (zeroPad 20 (Nat.toDigits 10 k.firstChunkId) ++
          ':' :: (zeroPad 20 (Nat.toDigits 10 k.lastChunkId) ++ ':' ::
            Nat.toDigits 10 k.size))))) := by
  simp [Key4S3ChunkInfoList.serializeToString, formatChunkId]
  rfl

theorem toList_prefix4ChunkIndexS3ChunkInfoList (fsId inodeId chunkIndex : Nat) :
    (prefix4ChunkIndexS3ChunkInfoList fsId inodeId chunkIndex).toList =
      '2' :: ':' :: (Nat.toDigits 10 fsId ++ ':' :: (Nat.toDigits 10 inodeId ++ ':' ::
        (Nat.toDigits 10 chunkIndex ++ ':' :: []))) := by
  simp [prefix4ChunkIndexS3ChunkInfoList]
  rfl

theorem toList_prefix4InodeS3ChunkInfoList (fsId inodeId : Nat) :
    (prefix4InodeS3ChunkInfoList fsId inodeId).toList =
      '2' :: ':' :: (Nat.toDigits 10 fsId ++ ':' :: (Nat.toDigits 10 inodeId ++ ':' :: [])) := by
  simp [prefix4InodeS3ChunkInfoList]
  rfl

/-! ## Prefixes and order -/

variable {k k' : Key4S3ChunkInfoList}

/-- The key of a list carries an inode's prefix exactly when it is a list of that inode. -/
theorem startWith_prefix4Inode_iff {fsId inodeId : Nat} :
    stringStartWith k.serializeToString (prefix4InodeS3ChunkInfoList fsId inodeId) = true ↔
      k.fsId = fsId ∧ k.inodeId = inodeId := by
  unfold stringStartWith
  rw [List.isPrefixOf_iff_prefix, toList_serializeToString, toList_prefix4InodeS3ChunkInfoList]
  simp only [List.cons_prefix_cons, true_and]
  -- one field at a time: each is followed by a separator no digit equals
  rw [sep_isPrefix_iff (colon_not_mem_toDigits _) (colon_not_mem_toDigits _),
    sep_isPrefix_iff (colon_not_mem_toDigits _) (colon_not_mem_toDigits _)]
  constructor
  · rintro ⟨hfs, hino, -⟩
    exact ⟨toDigits_inj hfs.symm, toDigits_inj hino.symm⟩
  · rintro ⟨rfl, rfl⟩
    exact ⟨rfl, rfl, List.nil_prefix⟩

/-- The key of a list carries the prefix of a chunk exactly when it is a list of that chunk. -/
theorem startWith_prefix4ChunkIndex_iff {fsId inodeId chunkIndex : Nat} :
    stringStartWith k.serializeToString
        (prefix4ChunkIndexS3ChunkInfoList fsId inodeId chunkIndex) = true ↔
      k.fsId = fsId ∧ k.inodeId = inodeId ∧ k.chunkIndex = chunkIndex := by
  unfold stringStartWith
  rw [List.isPrefixOf_iff_prefix, toList_serializeToString,
    toList_prefix4ChunkIndexS3ChunkInfoList]
  simp only [List.cons_prefix_cons, true_and]
  rw [sep_isPrefix_iff (colon_not_mem_toDigits _) (colon_not_mem_toDigits _),
    sep_isPrefix_iff (colon_not_mem_toDigits _) (colon_not_mem_toDigits _),
    sep_isPrefix_iff (colon_not_mem_toDigits _) (colon_not_mem_toDigits _)]
  constructor
  · rintro ⟨hfs, hino, hci, -⟩
    exact ⟨toDigits_inj hfs.symm, toDigits_inj hino.symm, toDigits_inj hci.symm⟩
  · rintro ⟨rfl, rfl, rfl⟩
    exact ⟨rfl, rfl, rfl, List.nil_prefix⟩

/-- Two lists of one chunk: the key with the smaller first chunk id sorts first, for ids of
64 bits. -/
theorem serializeToString_lt_of_firstChunkId_lt (hfs : k.fsId = k'.fsId)
    (hino : k.inodeId = k'.inodeId) (hci : k.chunkIndex = k'.chunkIndex)
    (hlt : k.firstChunkId < k'.firstChunkId) (h64 : k'.firstChunkId < 2 ^ 64) :
    k.serializeToString < k'.serializeToString := by
  have h20 : k'.firstChunkId < 10 ^ 20 := lt_trans h64 (by decide)
  rw [String.lt_iff_toList_lt, toList_serializeToString, toList_serializeToString, hfs, hino,
    hci, zeroPad_toDigits (by decide) (lt_trans hlt h20), zeroPad_toDigits (by decide) h20]
  -- the keys agree up to the first chunk id, which is padded to twenty digits
  refine List.cons_lt_cons_iff.mpr (Or.inr ⟨rfl, List.cons_lt_cons_iff.mpr (Or.inr ⟨rfl, ?_⟩)⟩)
  refine List.append_left_lt (List.cons_lt_cons_iff.mpr (Or.inr ⟨rfl, ?_⟩))
  refine List.append_left_lt (List.cons_lt_cons_iff.mpr (Or.inr ⟨rfl, ?_⟩))
  refine List.append_left_lt (List.cons_lt_cons_iff.mpr (Or.inr ⟨rfl, ?_⟩))
  exact padDigits_append_lt hlt h20 _ _

end DingoFs.Metaserver
