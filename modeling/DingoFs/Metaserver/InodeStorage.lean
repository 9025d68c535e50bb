import DingoFs.Lib.Word
import DingoFs.Metaserver.Messages
import DingoFs.Metaserver.Storage.Converter
import Mathlib.Data.List.AList

/-!
# Chunk-info updates: `InodeStorage` and `InodeManager::GetOrModifyS3ChunkInfo`

An inode's chunk infos are kept in the s3 chunk-info table, one record per list that a client
or a compaction appended, keyed by the chunk index and the ids of the list's first and last
chunk info; the inode's aux-info record counts them in `s3metasize`.
`ModifyInodeS3ChunkInfoList` replaces the lists of one chunk index inside one storage
transaction, and `GetOrModifyS3ChunkInfo` calls it once per chunk index of its two maps.

The storage is one of two backends (`StorageBackend`). On RocksDB a transaction collects its
writes and applies them all on a successful `Commit`; on `MemoryStorage` the transaction is the
storage itself, so each write lands when it is issued and `Rollback` undoes nothing. Every
storage call whose status the code checks may fail; which ones do is an argument of each
transaction (`StorageCall → Bool`).
-/

namespace DingoFs.Metaserver

open DingoFs.Lib

/-- `Key4InodeAuxInfo`. -/
structure Key4InodeAuxInfo where
  fsId : Nat
  inodeId : Nat
deriving DecidableEq, Repr

/-- `InodeAuxInfo`, with the one field the chunk-info path reads and writes. -/
structure InodeAuxInfo where
  s3metasize : Nat
deriving DecidableEq, Repr

/-- The storage calls of the chunk-info path whose status the code checks. -/
inductive StorageCall
  | beginTransaction
  | sSeek
  | sSet
  | sDel
  | hGet
  | hSet
  | commit
  | rollback
deriving DecidableEq, Repr

/-- The `KVStorage` under `InodeStorage`. `RocksDBStorage::BeginTransaction` opens a
transaction whose writes reach the tables on `Commit`; `MemoryStorage::BeginTransaction`
returns the storage itself, and its `Commit` and `Rollback` return OK and do nothing. -/
inductive StorageBackend
  | rocksdb
  | memory
deriving DecidableEq, Repr

/-- The two tables of `InodeStorage` that chunk-info updates touch. -/
structure InodeStorage where
  table4S3ChunkInfo : AList (fun _ : Key4S3ChunkInfoList => S3ChunkInfoList)
  table4InodeAuxInfo : AList (fun _ : Key4InodeAuxInfo => InodeAuxInfo)

/-- A write a transaction issues. -/
inductive StorageWrite
  | sSet (key : Key4S3ChunkInfoList) (list : S3ChunkInfoList)
  | sDel (key : Key4S3ChunkInfoList)
  | hSet (key : Key4InodeAuxInfo) (aux : InodeAuxInfo)

namespace InodeStorage

/-- One write applied to the tables. -/
def write (s : InodeStorage) : StorageWrite → InodeStorage
  | .sSet key list => { s with table4S3ChunkInfo := s.table4S3ChunkInfo.insert key list }
  | .sDel key => { s with table4S3ChunkInfo := s.table4S3ChunkInfo.erase key }
  | .hSet key aux => { s with table4InodeAuxInfo := s.table4InodeAuxInfo.insert key aux }

/-- The writes of a committed transaction, applied in the order they were issued. -/
def writeAll (s : InodeStorage) (ws : List StorageWrite) : InodeStorage :=
  ws.foldl write s

/-- The keys a `Prefix4ChunkIndexS3ChunkInfoList` seek visits: those of one chunk of one
inode. The serialized prefix ends in a separator, so it matches no other chunk index. -/
def chunkKeys (s : InodeStorage) (fsId inodeId chunkIndex : Nat) : List Key4S3ChunkInfoList :=
  s.table4S3ChunkInfo.keys.filter
    (fun key => key.fsId = fsId ∧ key.inodeId = inodeId ∧ key.chunkIndex = chunkIndex)

@[simp] theorem writeAll_nil (s : InodeStorage) : s.writeAll [] = s := rfl

@[simp] theorem writeAll_cons (s : InodeStorage) (w : StorageWrite) (ws : List StorageWrite) :
    s.writeAll (w :: ws) = (s.write w).writeAll ws := rfl

@[simp] theorem writeAll_append (s : InodeStorage) (ws ws' : List StorageWrite) :
    s.writeAll (ws ++ ws') = (s.writeAll ws).writeAll ws' := List.foldl_append

end InodeStorage

/-- The keys of one chunk's lists that a delete list spanning chunk ids
`[delFirstChunkId, delLastChunkId]` removes: a list inside the span goes, a list wholly after
it stays, and any other list is a "wrong delete list range". -/
def collectKey2del (delFirstChunkId delLastChunkId : Nat) :
    List Key4S3ChunkInfoList → Except MetaStatusCode (List Key4S3ChunkInfoList)
  | [] => .ok []
  | key :: keys =>
    if delFirstChunkId ≤ key.firstChunkId ∧ delLastChunkId ≥ key.lastChunkId then
      (key :: ·) <$> collectKey2del delFirstChunkId delLastChunkId keys
    else if delLastChunkId < key.firstChunkId then
      collectKey2del delFirstChunkId delLastChunkId keys
    else .error .STORAGE_INTERNAL_ERROR

/-- `InodeStorage::DelS3ChunkInfoList`: the deletes of the lists of chunk `chunkIndex` that
`list2del` spans. The seek reads the table as it was when the transaction began. -/
def delS3ChunkInfoList (s : InodeStorage) (ok : StorageCall → Bool)
    (fsId inodeId chunkIndex : Nat) (list2del : Option S3ChunkInfoList) :
    Except MetaStatusCode (List StorageWrite) :=
  match list2del with
  | none | some [] => .ok []
  | some (first :: more) =>
    let delLastChunkId := ((first :: more).getLast (List.cons_ne_nil first more)).chunkid
    if !ok .sSeek then .error .STORAGE_INTERNAL_ERROR
    else do
      let key2del ← collectKey2del first.chunkid delLastChunkId
        (s.chunkKeys fsId inodeId chunkIndex)
      key2del.mapM fun skey =>
        if ok .sDel then pure (.sDel skey) else throw .STORAGE_INTERNAL_ERROR

/-- `InodeStorage::AddS3ChunkInfoList`: the list `list2add` stored under a key of its own. -/
def addS3ChunkInfoList (ok : StorageCall → Bool) (fsId inodeId chunkIndex : Nat)
    (list2add : Option S3ChunkInfoList) : Except MetaStatusCode (List StorageWrite) :=
  match list2add with
  | none | some [] => .ok []
  | some (first :: more) =>
    let key : Key4S3ChunkInfoList :=
      ⟨fsId, inodeId, chunkIndex, first.chunkid,
        ((first :: more).getLast (List.cons_ne_nil first more)).chunkid, more.length + 1⟩
    if ok .sSet then .ok [.sSet key (first :: more)] else .error .STORAGE_INTERNAL_ERROR

/-- `InodeStorage::UpdateInodeS3MetaSize`: `s3metasize` grows by `size4add` and shrinks by
`size4del`; a missing aux record counts as size 0, and a size that would go below zero is an
error. -/
def updateInodeS3MetaSize (s : InodeStorage) (ok : StorageCall → Bool)
    (fsId inodeId size4add size4del : Nat) : Except MetaStatusCode (List StorageWrite) :=
  let key : Key4InodeAuxInfo := ⟨fsId, inodeId⟩
  -- a failed `HGet` that is not `NotFound`
  if !ok .hGet then .error .STORAGE_INTERNAL_ERROR
  else
    let out := (s.table4InodeAuxInfo.lookup key).getD ⟨0⟩
    let size := add64 out.s3metasize size4add
    if size < size4del then .error .STORAGE_INTERNAL_ERROR
    else if !ok .hSet then .error .STORAGE_INTERNAL_ERROR
    else .ok [.hSet key { out with s3metasize := size - size4del }]

/-- The writes of the transaction of `ModifyInodeS3ChunkInfoList`, or the status of the step
that failed. Each step reads the tables as they were when the transaction began: the seek of
`DelS3ChunkInfoList` comes before any write, and the aux-info record that
`UpdateInodeS3MetaSize` reads is written by no step before it. -/
def modifyInodeS3ChunkInfoListTxn (s : InodeStorage) (ok : StorageCall → Bool)
    (fsId inodeId chunkIndex : Nat) (list2add list2del : Option S3ChunkInfoList) :
    Except MetaStatusCode (List StorageWrite) := do
  let delWrites ← delS3ChunkInfoList s ok fsId inodeId chunkIndex list2del
  let addWrites ← addS3ChunkInfoList ok fsId inodeId chunkIndex list2add
  let sizeWrites ← updateInodeS3MetaSize s ok fsId inodeId
    ((list2add.map List.length).getD 0) ((list2del.map List.length).getD 0)
  return delWrites ++ addWrites ++ sizeWrites

/-- The writes the steps of that transaction issue before the first step that fails, all of
them when none fails. A step that fails issues none: each of its writes is a call of one kind,
and the first of them fails. -/
def modifyInodeS3ChunkInfoListIssued (s : InodeStorage) (ok : StorageCall → Bool)
    (fsId inodeId chunkIndex : Nat) (list2add list2del : Option S3ChunkInfoList) :
    List StorageWrite :=
  match delS3ChunkInfoList s ok fsId inodeId chunkIndex list2del with
  | .error _ => []
  | .ok delWrites =>
    match addS3ChunkInfoList ok fsId inodeId chunkIndex list2add with
    | .error _ => delWrites
    | .ok addWrites =>
      match updateInodeS3MetaSize s ok fsId inodeId ((list2add.map List.length).getD 0)
          ((list2del.map List.length).getD 0) with
      | .error _ => delWrites ++ addWrites
      | .ok sizeWrites => delWrites ++ addWrites ++ sizeWrites

/-- `InodeStorage::ModifyInodeS3ChunkInfoList`: one transaction that deletes the lists
`list2del` spans, adds `list2add` and updates `s3metasize`; it is committed when every step
succeeds and rolled back otherwise. On RocksDB nothing reaches the tables unless the commit
succeeds. On `MemoryStorage` the transaction cannot fail to begin, and the writes issued before
a failed step stay after the rollback. -/
def modifyInodeS3ChunkInfoList (backend : StorageBackend) (s : InodeStorage)
    (ok : StorageCall → Bool) (fsId inodeId chunkIndex : Nat)
    (list2add list2del : Option S3ChunkInfoList) : InodeStorage × MetaStatusCode :=
  match backend with
  | .rocksdb =>
    if !ok .beginTransaction then (s, .STORAGE_INTERNAL_ERROR)
    else
      match modifyInodeS3ChunkInfoListTxn s ok fsId inodeId chunkIndex list2add list2del with
      | .error rc => (s, if ok .rollback then rc else .STORAGE_INTERNAL_ERROR)
      | .ok ws => if ok .commit then (s.writeAll ws, .OK) else (s, .STORAGE_INTERNAL_ERROR)
  | .memory =>
    (s.writeAll (modifyInodeS3ChunkInfoListIssued s ok fsId inodeId chunkIndex list2add list2del),
      match modifyInodeS3ChunkInfoListTxn s ok fsId inodeId chunkIndex list2add list2del with
      | .error rc => rc
      | .ok _ => .OK)

/-- The `ModifyInodeS3ChunkInfoList` calls of `GetOrModifyS3ChunkInfo`, in order: one per
chunk index of `map2add`, with `map2del`'s list of the same index; then one per index that
only `map2del` has (the first loop has put every index of `map2add` in `deleted` by then). -/
def modifyCalls (map2add map2del : S3ChunkInfoMap) :
    List (Nat × Option S3ChunkInfoList × Option S3ChunkInfoList) :=
  map2add.entries.map (fun item => (item.1, some item.2, map2del.lookup item.1)) ++
    (map2del.entries.filter (fun item => item.1 ∉ map2add.keys)).map
      (fun item => (item.1, none, some item.2))

/-- The loops of `GetOrModifyS3ChunkInfo`: the calls one after another, returning at the
first that fails. The calls on chunk index `i` see the storage faults `ok i`. -/
def runModifyCalls (backend : StorageBackend) (ok : Nat → StorageCall → Bool)
    (fsId inodeId : Nat) :
    List (Nat × Option S3ChunkInfoList × Option S3ChunkInfoList) → InodeStorage →
      InodeStorage × MetaStatusCode
  | [], s => (s, .OK)
  | (chunkIndex, list2add, list2del) :: calls, s =>
    let (s', rc) := modifyInodeS3ChunkInfoList backend s (ok chunkIndex) fsId inodeId chunkIndex
      list2add list2del
    if rc ≠ .OK then (s', rc) else runModifyCalls backend ok fsId inodeId calls s'

/-- The lists `GetInodeS3ChunkInfoList` iterates: every list of the inode. -/
def InodeStorage.inodeS3ChunkInfoList (s : InodeStorage) (fsId inodeId : Nat) :
    List (Key4S3ChunkInfoList × S3ChunkInfoList) :=
  (s.table4S3ChunkInfo.entries.filter
    (fun item => item.1.fsId = fsId ∧ item.1.inodeId = inodeId)).map (fun item => (item.1, item.2))

/-- `InodeManager::GetOrModifyS3ChunkInfo`, under the inode's name lock: the storage after the
call, the status, and the lists of the inode when `returnS3ChunkInfoMap` asks for them
(`iterOk`: the status of that iterator). -/
def getOrModifyS3ChunkInfo (backend : StorageBackend) (s : InodeStorage)
    (ok : Nat → StorageCall → Bool) (iterOk : Bool) (fsId inodeId : Nat)
    (map2add map2del : S3ChunkInfoMap) (returnS3ChunkInfoMap : Bool) :
    InodeStorage × MetaStatusCode × Option (List (Key4S3ChunkInfoList × S3ChunkInfoList)) :=
  let (s', rc) := runModifyCalls backend ok fsId inodeId (modifyCalls map2add map2del) s
  if rc ≠ .OK then (s', rc, none)
  else if returnS3ChunkInfoMap then
    if iterOk then (s', .OK, some (s'.inodeS3ChunkInfoList fsId inodeId))
    else (s', .STORAGE_INTERNAL_ERROR, none)
  else (s', .OK, none)

/-! ## A failed later chunk index leaves the earlier ones committed -/

/-- A chunk info of chunk `chunkid` covering `len` bytes from file offset `offset`. -/
def dataInfo (chunkid offset len : Nat) : S3ChunkInfo :=
  ⟨chunkid, 0, offset, len, len, false⟩

/-- An inode with one stored list of chunk 1, of the chunk infos with ids 3 and 7. -/
def partialStorage : InodeStorage where
  table4S3ChunkInfo :=
    AList.singleton ⟨1, 1, 1, 3, 7, 2⟩ [dataInfo 3 4096 1, dataInfo 7 4097 1]
  table4InodeAuxInfo := AList.singleton ⟨1, 1⟩ ⟨2⟩

/-- A new list for chunk 0, and a delete list for chunk 1 that names only chunk id 5. -/
def partialMap2add : S3ChunkInfoMap := AList.singleton 0 [dataInfo 10 0 1]

def partialMap2del : S3ChunkInfoMap := AList.singleton 1 [dataInfo 5 4096 1]

theorem getOrModifyS3ChunkInfo_not_atomic :
    match getOrModifyS3ChunkInfo .rocksdb partialStorage (fun _ _ => true) true 1 1
        partialMap2add partialMap2del false with
    | (s', rc, _) =>
      rc = .STORAGE_INTERNAL_ERROR ∧
        partialStorage.table4S3ChunkInfo.lookup ⟨1, 1, 0, 10, 10, 1⟩ = none ∧
        s'.table4S3ChunkInfo.lookup ⟨1, 1, 0, 10, 10, 1⟩ = some [dataInfo 10 0 1] ∧
        partialStorage.table4InodeAuxInfo.lookup ⟨1, 1⟩ = some ⟨2⟩ ∧
        s'.table4InodeAuxInfo.lookup ⟨1, 1⟩ = some ⟨3⟩ := by
  decide

/-! ## One transaction is all-or-nothing; the loop over chunk indices is not -/

/-- A transaction whose steps all succeed issues every write of it. -/
theorem modifyInodeS3ChunkInfoListIssued_of_ok {s : InodeStorage} {ok : StorageCall → Bool}
    {fsId inodeId chunkIndex : Nat} {list2add list2del : Option S3ChunkInfoList}
    {ws : List StorageWrite}
    (h : modifyInodeS3ChunkInfoListTxn s ok fsId inodeId chunkIndex list2add list2del = .ok ws) :
    modifyInodeS3ChunkInfoListIssued s ok fsId inodeId chunkIndex list2add list2del = ws := by
  unfold modifyInodeS3ChunkInfoListTxn at h
  unfold modifyInodeS3ChunkInfoListIssued
  -- the issued writes and the transaction's follow the same three steps
  cases hdel : delS3ChunkInfoList s ok fsId inodeId chunkIndex list2del with
  | error rc => rw [hdel] at h; cases h
  | ok delWrites =>
    rw [hdel] at h
    cases hadd : addS3ChunkInfoList ok fsId inodeId chunkIndex list2add with
    | error rc => rw [hadd] at h; cases h
    | ok addWrites =>
      rw [hadd] at h
      cases hsize : updateInodeS3MetaSize s ok fsId inodeId ((list2add.map List.length).getD 0)
          ((list2del.map List.length).getD 0) with
      | error rc => rw [hsize] at h; cases h
      | ok sizeWrites =>
        rw [hsize] at h
        cases h
        rfl

/-- Without a fault in beginning or committing it, a transaction whose steps all succeed commits
every write of it on either backend. -/
theorem modifyInodeS3ChunkInfoList_of_ok (backend : StorageBackend) {s : InodeStorage}
    {ok : StorageCall → Bool} {fsId inodeId chunkIndex : Nat}
    {list2add list2del : Option S3ChunkInfoList} {ws : List StorageWrite}
    (hbegin : ok .beginTransaction = true) (hcommit : ok .commit = true)
    (h : modifyInodeS3ChunkInfoListTxn s ok fsId inodeId chunkIndex list2add list2del = .ok ws) :
    modifyInodeS3ChunkInfoList backend s ok fsId inodeId chunkIndex list2add list2del =
      (s.writeAll ws, .OK) := by
  cases backend with
  | rocksdb => simp only [modifyInodeS3ChunkInfoList, hbegin, h, hcommit, Bool.not_true,
      Bool.false_eq_true, if_false, if_true]
  | memory => simp only [modifyInodeS3ChunkInfoList, modifyInodeS3ChunkInfoListIssued_of_ok h, h]

/-- `InodeStorage::GetInodeS3MetaSize`: the inode's `s3metasize`, 0 without an aux record and
the largest `uint64_t` when the read fails. -/
def InodeStorage.getInodeS3MetaSize (s : InodeStorage) (ok : StorageCall → Bool)
    (fsId inodeId : Nat) : Nat :=
  if !ok .hGet then 2 ^ 64 - 1
  else ((s.table4InodeAuxInfo.lookup ⟨fsId, inodeId⟩).map (·.s3metasize)).getD 0

/-- The number of chunk infos the lists of an inode hold. -/
def InodeStorage.s3ChunkInfoCount (s : InodeStorage) (fsId inodeId : Nat) : Nat :=
  ((s.inodeS3ChunkInfoList fsId inodeId).map (·.2.length)).sum

/-- The tables of a new partition. -/
def InodeStorage.empty : InodeStorage := ⟨∅, ∅⟩

/-- A new partition after one list of one chunk info was added to chunk 0 of inode 1. -/
def addedOnce : InodeStorage :=
  (modifyInodeS3ChunkInfoList .rocksdb InodeStorage.empty (fun _ => true) 1 1 0
    (some [dataInfo 1 0 1]) none).1

/-- The same add sent again, as a client does when its first request timed out, succeeds: it
stores the list under the key it already had, and counts its info a second time. -/
theorem retried_add_counts_twice :
    (modifyInodeS3ChunkInfoList .rocksdb InodeStorage.empty (fun _ => true) 1 1 0
        (some [dataInfo 1 0 1]) none).2 = .OK ∧
      (modifyInodeS3ChunkInfoList .rocksdb addedOnce (fun _ => true) 1 1 0 (some [dataInfo 1 0 1])
        none).2 = .OK ∧
      (modifyInodeS3ChunkInfoList .rocksdb addedOnce (fun _ => true) 1 1 0 (some [dataInfo 1 0 1])
        none).1.getInodeS3MetaSize (fun _ => true) 1 1 = 2 ∧
      (modifyInodeS3ChunkInfoList .rocksdb addedOnce (fun _ => true) 1 1 0 (some [dataInfo 1 0 1])
        none).1.s3ChunkInfoCount 1 1 = 1 := by
  decide

/-! ## The memory backend

On `MemoryStorage` the writes of the steps before a failed one stay: a failed call is not
all-or-nothing there. -/

/-- An inode with one list of chunk 0, of the one chunk info with id 1, counted in its aux
record. -/
def oneListStorage : InodeStorage where
  table4S3ChunkInfo := AList.singleton ⟨1, 1, 0, 1, 1, 1⟩ [dataInfo 1 0 1]
  table4InodeAuxInfo := AList.singleton ⟨1, 1⟩ ⟨1⟩

/-- A delete list spanning chunk ids 1 to 2 covers the stored list, but its two infos are more
than `s3metasize` holds: on `MemoryStorage` the call fails after deleting the list, where on
RocksDB it leaves both tables as they were. -/
theorem memory_failed_modify_keeps_deletes :
    (modifyInodeS3ChunkInfoList .memory oneListStorage (fun _ => true) 1 1 0 none
        (some [dataInfo 1 0 1, dataInfo 2 1 1])).2 = .STORAGE_INTERNAL_ERROR ∧
      oneListStorage.table4S3ChunkInfo.lookup ⟨1, 1, 0, 1, 1, 1⟩ = some [dataInfo 1 0 1] ∧
      (modifyInodeS3ChunkInfoList .memory oneListStorage (fun _ => true) 1 1 0 none
        (some [dataInfo 1 0 1, dataInfo 2 1 1])).1.table4S3ChunkInfo.lookup
          ⟨1, 1, 0, 1, 1, 1⟩ = none ∧
      (modifyInodeS3ChunkInfoList .rocksdb oneListStorage (fun _ => true) 1 1 0 none
        (some [dataInfo 1 0 1, dataInfo 2 1 1])).2 = .STORAGE_INTERNAL_ERROR ∧
      (modifyInodeS3ChunkInfoList .rocksdb oneListStorage (fun _ => true) 1 1 0 none
        (some [dataInfo 1 0 1, dataInfo 2 1 1])).1.table4S3ChunkInfo.lookup
          ⟨1, 1, 0, 1, 1, 1⟩ = some [dataInfo 1 0 1] := by
  decide

/-! ## Padding an inode's chunk infos

`MemoryStorage` keeps a table as a `std::map` of serialized keys: `SSeek(prefix)` starts at the
first key not below the prefix, and its iterator stays valid while the keys carry the prefix.
`PaddingInodeS3ChunkInfo` walks the lists of an inode so and appends each to the map entry of
its chunk index. The keys of one chunk sort by their first chunk id
(`serializeToString_lt_of_firstChunkId_lt`), so each entry holds the chunk's lists in that
order (`paddingInodeS3ChunkInfoSeek_spec`). -/

/-- The chunk-info table as the `std::map` of `MemoryStorage` holds it: its lists in the order
of their serialized keys. -/
def InodeStorage.sortedLists (s : InodeStorage) : List (Key4S3ChunkInfoList × S3ChunkInfoList) :=
  (s.table4S3ChunkInfo.entries.map fun e => (e.1, e.2)).insertionSort
    (fun a b => a.1.serializeToString ≤ b.1.serializeToString)

/-- `MemoryStorage::SSeek` on the chunk-info table: the lists from the first key not below
`sprefix`. -/
def InodeStorage.sSeek (s : InodeStorage) ( sprefix : String) :
    List (Key4S3ChunkInfoList × S3ChunkInfoList) :=
  s.sortedLists.dropWhile (fun e => decide (e.1.serializeToString < sprefix))

/-- The loop of `PaddingInodeS3ChunkInfo`, while the iterator carries the prefix: each list is
added to the map under its chunk index, after what the map holds there. -/
def paddingLoop ( sprefix : String) :
    S3ChunkInfoMap → List (Key4S3ChunkInfoList × S3ChunkInfoList) → S3ChunkInfoMap
  | m, [] => m
  | m, (key, list) :: rest =>
    if !stringStartWith key.serializeToString sprefix then m
    else
      match m.lookup key.chunkIndex with
      | none => paddingLoop sprefix (m.insert key.chunkIndex list) rest
      | some merged => paddingLoop sprefix (m.insert key.chunkIndex (merged ++ list)) rest

/-- `InodeStorage::PaddingInodeS3ChunkInfo` with its seek: the status and the map `m` with the
inode's lists added in key order, unless a nonzero `limit` is below the inode's `s3metasize` or
the iterator fails. (The trash scan uses `InodeStorage.paddingInodeS3ChunkInfo`, the same merge
without the limit, over the table in its own order.) -/
def InodeStorage.paddingInodeS3ChunkInfoSeek (s : InodeStorage) (ok : StorageCall → Bool)
    (fsId inodeId : Nat) (m : S3ChunkInfoMap) (limit : Nat) : MetaStatusCode × S3ChunkInfoMap :=
  if limit ≠ 0 ∧ s.getInodeS3MetaSize ok fsId inodeId > limit then (.INODE_S3_META_TOO_LARGE, m)
  else if !ok .sSeek then (.STORAGE_INTERNAL_ERROR, m)
  else
    (.OK, paddingLoop (prefix4InodeS3ChunkInfoList fsId inodeId) m
      (s.sSeek (prefix4InodeS3ChunkInfoList fsId inodeId)))

/-- The lists of chunk `chunkIndex` of an inode, in the table's own order. -/
def InodeStorage.chunkLists (s : InodeStorage) (fsId inodeId chunkIndex : Nat) :
    List (Key4S3ChunkInfoList × S3ChunkInfoList) :=
  (s.table4S3ChunkInfo.entries.map fun e => (e.1, e.2)).filter
    fun e => e.1.fsId = fsId ∧ e.1.inodeId = inodeId ∧ e.1.chunkIndex = chunkIndex

section Padding

theorem InodeStorage.mem_keys_of_mem_sortedLists {s : InodeStorage}
    {e : Key4S3ChunkInfoList × S3ChunkInfoList} (he : e ∈ s.sortedLists) :
    e.1 ∈ s.table4S3ChunkInfo.keys := by
  obtain ⟨e', he', rfl⟩ := List.mem_map.mp ((List.perm_insertionSort _ _).subset he)
  exact List.mem_map.mpr ⟨e', he', rfl⟩

theorem InodeStorage.pairwise_sortedLists (s : InodeStorage) :
    s.sortedLists.Pairwise fun a b => ¬ b.1.serializeToString.toList < a.1.serializeToString.toList := by
  have htotal : Std.Total fun a b : Key4S3ChunkInfoList × S3ChunkInfoList =>
      a.1.serializeToString ≤ b.1.serializeToString := ⟨fun a b => le_total _ _⟩
  have htrans : IsTrans (Key4S3ChunkInfoList × S3ChunkInfoList) fun a b =>
      a.1.serializeToString ≤ b.1.serializeToString := ⟨fun a b c => le_trans⟩
  refine (List.pairwise_insertionSort _ _).imp fun {a b} hab => ?_
  exact fun h => hab (String.lt_iff_toList_lt.mpr h)

/-- The seek of an inode's prefix visits, in key order, exactly the inode's lists. -/
theorem InodeStorage.takeWhile_sSeek (s : InodeStorage) (fsId inodeId : Nat) :
    (s.sSeek (prefix4InodeS3ChunkInfoList fsId inodeId)).takeWhile
        (fun e => stringStartWith e.1.serializeToString (prefix4InodeS3ChunkInfoList fsId inodeId)) =
      s.sortedLists.filter fun e => e.1.fsId = fsId ∧ e.1.inodeId = inodeId := by
  have hdrop : (fun e : Key4S3ChunkInfoList × S3ChunkInfoList =>
      decide (e.1.serializeToString < prefix4InodeS3ChunkInfoList fsId inodeId)) =
      fun e => decide (e.1.serializeToString.toList <
        (prefix4InodeS3ChunkInfoList fsId inodeId).toList) := by
    funext e
    exact decide_eq_decide.mpr String.lt_iff_toList_lt
  unfold InodeStorage.sSeek
  rw [hdrop]
  refine (@takeWhile_dropWhile_eq_filter (prefix4InodeS3ChunkInfoList fsId inodeId).toList _
    (fun e : Key4S3ChunkInfoList × S3ChunkInfoList => e.1.serializeToString.toList) _
    s.pairwise_sortedLists).trans
    (List.filter_congr fun e _ => ?_)
  -- a key carries the inode's prefix exactly when it names the inode
  exact Bool.eq_iff_iff.mpr ((@startWith_prefix4Inode_iff e.1 fsId inodeId).trans
    decide_eq_true_iff.symm)

/-- The loop stops at the first key without the prefix. -/
theorem paddingLoop_takeWhile ( sprefix : String) :
    ∀ (m : S3ChunkInfoMap) (l : List (Key4S3ChunkInfoList × S3ChunkInfoList)),
      paddingLoop sprefix m l =
        paddingLoop sprefix m (l.takeWhile fun e => stringStartWith e.1.serializeToString sprefix)
  | m, [] => rfl
  | m, (key, list) :: rest => by
    rw [List.takeWhile_cons]
    by_cases hk : stringStartWith key.serializeToString sprefix = true
    · rw [if_pos hk]
      simp only [paddingLoop, hk, Bool.not_true, Bool.false_eq_true, if_false]
      cases m.lookup key.chunkIndex <;> exact paddingLoop_takeWhile sprefix _ rest
    · rw [if_neg hk]
      simp [paddingLoop, hk]

/-- What the loop leaves under chunk index `ci`, over lists that all carry the prefix: what the
map held, then the lists of `ci` in the order they come. -/
theorem lookup_paddingLoop ( sprefix : String) (ci : Nat) :
    ∀ (m : S3ChunkInfoMap) (l : List (Key4S3ChunkInfoList × S3ChunkInfoList)),
      (∀ e ∈ l, stringStartWith e.1.serializeToString sprefix = true) →
      (paddingLoop sprefix m l).lookup ci =
        if l.filter (fun e => e.1.chunkIndex = ci) = [] then m.lookup ci
        else some ((m.lookup ci).getD [] ++ (l.filter fun e => e.1.chunkIndex = ci).flatMap (·.2))
  | m, [], _ => rfl
  | m, (key, list) :: rest, hl => by
    have hk := hl (key, list) List.mem_cons_self
    -- both branches of the `find` put the merged list under the key's chunk index
    have hstep : paddingLoop sprefix m ((key, list) :: rest) = paddingLoop sprefix
        (m.insert key.chunkIndex ((m.lookup key.chunkIndex).getD [] ++ list)) rest := by
      simp only [paddingLoop, hk, Bool.not_true, Bool.false_eq_true, if_false]
      cases m.lookup key.chunkIndex <;> rfl
    rw [hstep, lookup_paddingLoop sprefix ci _ rest fun e he => hl e (List.mem_cons_of_mem _ he)]
    by_cases hci : key.chunkIndex = ci
    · subst hci
      rw [AList.lookup_insert, List.filter_cons_of_pos (by simp)]
      by_cases hrest : rest.filter (fun e => e.1.chunkIndex = key.chunkIndex) = []
      · simp [hrest]
      · simp [hrest]
    · rw [AList.lookup_insert_ne (Ne.symm hci), List.filter_cons_of_neg (by simpa using hci)]

/-- What `PaddingInodeS3ChunkInfo` into an empty map, without a limit and without faults,
returns for an inode: `OK`, and under each chunk index the concatenation of the chunk's lists
in ascending first chunk id. -/
structure PaddedInOrder (s : InodeStorage) (fsId inodeId : Nat) : Prop where
  ok : (s.paddingInodeS3ChunkInfoSeek (fun _ => true) fsId inodeId ∅ 0).1 = .OK
  lists : ∀ chunkIndex, ∃ L, L.Perm (s.chunkLists fsId inodeId chunkIndex) ∧
    L.Pairwise (fun a b => a.1.firstChunkId ≤ b.1.firstChunkId) ∧
    (s.paddingInodeS3ChunkInfoSeek (fun _ => true) fsId inodeId ∅ 0).2.lookup chunkIndex =
      if L = [] then none else some (L.flatMap (·.2))

/-- The padding of every inode is in order, for ids of 64 bits. -/
theorem paddingInodeS3ChunkInfoSeek_spec (s : InodeStorage) (fsId inodeId : Nat)
    (h64 : ∀ k ∈ s.table4S3ChunkInfo.keys, k.firstChunkId < 2 ^ 64) :
    PaddedInOrder s fsId inodeId := by
  refine ⟨rfl, fun chunkIndex => ?_⟩
  unfold InodeStorage.paddingInodeS3ChunkInfoSeek
  simp only [ne_eq, not_true_eq_false, false_and, if_false, Bool.not_true, Bool.false_eq_true]
  -- the chunk's lists as the scan meets them
  refine ⟨(s.sortedLists.filter fun e => e.1.fsId = fsId ∧ e.1.inodeId = inodeId).filter
    fun e => e.1.chunkIndex = chunkIndex, ?_, ?_, ?_⟩
  · rw [List.filter_filter, InodeStorage.chunkLists]
    refine ((List.perm_insertionSort _ _).filter _).trans (List.Perm.of_eq ?_)
    refine List.filter_congr fun e _ => Bool.eq_iff_iff.mpr ?_
    simp only [Bool.and_eq_true, decide_eq_true_eq]
    tauto
  · -- a later key of the same chunk is not smaller, so neither is its first chunk id
    refine (s.pairwise_sortedLists.sublist ((List.filter_sublist).trans List.filter_sublist)).imp_of_mem
      fun {a b} ha hb hab => ?_
    simp only [List.mem_filter, decide_eq_true_eq] at ha hb
    refine Nat.not_lt.mp fun hlt => hab ?_
    rw [← String.lt_iff_toList_lt]
    have hmema := InodeStorage.mem_keys_of_mem_sortedLists ha.1.1
    exact serializeToString_lt_of_firstChunkId_lt (hb.1.2.1.trans ha.1.2.1.symm)
      (hb.1.2.2.trans ha.1.2.2.symm) (hb.2.trans ha.2.symm) hlt (h64 _ hmema)
  · rw [paddingLoop_takeWhile, s.takeWhile_sSeek,
      lookup_paddingLoop _ _ _ _ fun e he => ?_]
    · simp
    · simp only [List.mem_filter, decide_eq_true_eq] at he
      exact startWith_prefix4Inode_iff.mpr he.2

end Padding

/-! ## Compaction's swap of a chunk's lists

Compaction reads a chunk's lists with `PaddingInodeS3ChunkInfo`, merges a prefix of them in
key order into one new list, and calls `ModifyInodeS3ChunkInfoList` with the merged list to add
and the prefix's concatenation to delete. When the lists of the chunk lie one after another
and each starts and ends with the ids its key names, the delete list's span covers exactly
the prefix and every later list lies wholly after it (`delS3ChunkInfoList_take`), so the
transaction removes the prefix, stores the new list, and commits. -/

section Swap

theorem InodeStorage.chunkKeys_eq_map (s : InodeStorage) (fsId inodeId chunkIndex : Nat) :
    s.chunkKeys fsId inodeId chunkIndex = (s.chunkLists fsId inodeId chunkIndex).map Prod.fst := by
  simp [InodeStorage.chunkKeys, InodeStorage.chunkLists, AList.keys, List.keys, List.filter_map,
    Function.comp_def]

/-- When every key is in the delete span or wholly after it, the scan collects the keys in the
span. -/
theorem collectKey2del_of_in_or_after {lo hi : Nat} :
    ∀ {keys : List Key4S3ChunkInfoList},
      (∀ k ∈ keys, (lo ≤ k.firstChunkId ∧ hi ≥ k.lastChunkId) ∨ hi < k.firstChunkId) →
      collectKey2del lo hi keys =
        .ok (keys.filter fun k => lo ≤ k.firstChunkId ∧ hi ≥ k.lastChunkId)
  | [], _ => rfl
  | k :: keys, h => by
    have ih := collectKey2del_of_in_or_after fun k' hk' => h k' (List.mem_cons_of_mem k hk')
    rw [collectKey2del]
    by_cases hin : lo ≤ k.firstChunkId ∧ hi ≥ k.lastChunkId
    · rw [if_pos hin, ih, List.filter_cons, if_pos (by simpa using hin)]
      rfl
    · have hafter := (h k List.mem_cons_self).resolve_left hin
      rw [if_neg hin, if_pos hafter, ih, List.filter_cons, if_neg (by simpa using hin)]

theorem mapM_sDel (keys : List Key4S3ChunkInfoList) :
    (keys.mapM fun skey =>
      if (fun _ => true : StorageCall → Bool) .sDel then pure (StorageWrite.sDel skey)
      else (throw .STORAGE_INTERNAL_ERROR : Except MetaStatusCode StorageWrite)) =
      .ok (keys.map .sDel) := by
  simp only [if_true]
  exact List.mapM_pure

theorem InodeStorage.lookup_writeAll_sDel (k : Key4S3ChunkInfoList) :
    ∀ (s : InodeStorage) (keys : List Key4S3ChunkInfoList),
      (s.writeAll (keys.map .sDel)).table4S3ChunkInfo.lookup k =
        if k ∈ keys then none else s.table4S3ChunkInfo.lookup k
  | s, [] => by simp
  | s, k' :: keys => by
    rw [List.map_cons, InodeStorage.writeAll_cons, InodeStorage.lookup_writeAll_sDel k _ keys]
    by_cases hk : k = k'
    · subst hk
      simp [InodeStorage.write, AList.lookup_erase]
    · simp [InodeStorage.write, AList.lookup_erase_ne hk, hk]

theorem InodeStorage.of_mem_chunkLists {s : InodeStorage} {fsId inodeId chunkIndex : Nat}
    {e : Key4S3ChunkInfoList × S3ChunkInfoList} (he : e ∈ s.chunkLists fsId inodeId chunkIndex) :
    e.1 ∈ s.table4S3ChunkInfo.keys ∧
      e.1.fsId = fsId ∧ e.1.inodeId = inodeId ∧ e.1.chunkIndex = chunkIndex := by
  simp only [InodeStorage.chunkLists, List.mem_filter, List.mem_map, decide_eq_true_eq] at he
  obtain ⟨⟨e', he', rfl⟩, hid⟩ := he
  exact ⟨List.mem_map.mpr ⟨e', he', rfl⟩, hid⟩

/-- Lists of one chunk in key order whose spans are apart lie one after another: each ends
before the next begins. -/
theorem InodeStorage.pairwise_lastChunkId_lt {s : InodeStorage} {fsId inodeId chunkIndex : Nat}
    {L : List (Key4S3ChunkInfoList × S3ChunkInfoList)}
    (hL : L.Perm (s.chunkLists fsId inodeId chunkIndex))
    (hkey : L.Pairwise fun a b => a.1.serializeToString < b.1.serializeToString)
    (hrange : ∀ e ∈ L, e.1.firstChunkId ≤ e.1.lastChunkId)
    (hdisj : (s.chunkLists fsId inodeId chunkIndex).Pairwise fun a b =>
      a.1.lastChunkId < b.1.firstChunkId ∨ b.1.lastChunkId < a.1.firstChunkId)
    (h64 : ∀ k ∈ s.table4S3ChunkInfo.keys, k.firstChunkId < 2 ^ 64) :
    L.Pairwise fun a b => a.1.lastChunkId < b.1.firstChunkId := by
  have hapart : L.Pairwise fun a b =>
      a.1.lastChunkId < b.1.firstChunkId ∨ b.1.lastChunkId < a.1.firstChunkId :=
    (hL.pairwise_iff fun h => h.symm).mpr hdisj
  refine (hapart.and hkey).imp_of_mem fun {a b} ha hb hab => hab.1.resolve_right fun hba => ?_
  -- a list that ends before another begins has the smaller key, against the key order
  obtain ⟨hka, hfa, hia, hca⟩ := InodeStorage.of_mem_chunkLists (hL.subset ha)
  obtain ⟨-, hfb, hib, hcb⟩ := InodeStorage.of_mem_chunkLists (hL.subset hb)
  have hlt : b.1.serializeToString < a.1.serializeToString :=
    serializeToString_lt_of_firstChunkId_lt (hfb.trans hfa.symm) (hib.trans hia.symm)
      (hcb.trans hca.symm) (lt_of_le_of_lt (hrange b hb) hba) (h64 _ hka)
  exact lt_asymm hab.2 hlt

/-- In a nonempty run of lists one after another, every list lies inside the span from the
first list's first chunk id to the last list's last chunk id. -/
theorem mem_span_of_pairwise {P : List (Key4S3ChunkInfoList × S3ChunkInfoList)} (hP : P ≠ [])
    (hord : P.Pairwise fun a b => a.1.lastChunkId < b.1.firstChunkId)
    (hrange : ∀ e ∈ P, e.1.firstChunkId ≤ e.1.lastChunkId) :
    ∀ e ∈ P, (P.head hP).1.firstChunkId ≤ e.1.firstChunkId ∧
      e.1.lastChunkId ≤ (P.getLast hP).1.lastChunkId := by
  intro e he
  constructor
  · -- the head comes before every other list
    obtain ⟨p, P', rfl⟩ := List.exists_cons_of_ne_nil hP
    rcases List.mem_cons.mp he with rfl | hmem
    · exact le_refl _
    · exact (hrange _ List.mem_cons_self).trans (List.rel_of_pairwise_cons hord hmem).le
  · -- and the last list after every other
    have hsplit := List.dropLast_append_getLast hP
    rw [← hsplit] at hord he
    rcases List.mem_append.mp he with hmem | hlast
    · exact (List.pairwise_append.mp hord).2.2 _ hmem _ List.mem_cons_self |>.le.trans
        (hrange _ (List.getLast_mem hP))
    · rw [List.mem_singleton.mp hlast]

/-- `DelS3ChunkInfoList` of a delete list from chunk id `lo` to chunk id `hi`, when every list
of the chunk is inside that span or wholly after it: the deletes of the lists inside. -/
theorem delS3ChunkInfoList_of_span {s : InodeStorage} {fsId inodeId chunkIndex lo hi : Nat}
    {list2del : S3ChunkInfoList} (hhead : list2del.head?.map (·.chunkid) = some lo)
    (hlast : list2del.getLast?.map (·.chunkid) = some hi)
    (hcover : ∀ k ∈ s.chunkKeys fsId inodeId chunkIndex,
      (lo ≤ k.firstChunkId ∧ hi ≥ k.lastChunkId) ∨ hi < k.firstChunkId) :
    delS3ChunkInfoList s (fun _ => true) fsId inodeId chunkIndex (some list2del) =
      .ok (((s.chunkKeys fsId inodeId chunkIndex).filter
        fun k => lo ≤ k.firstChunkId ∧ hi ≥ k.lastChunkId).map .sDel) := by
  cases list2del with
  | nil => cases hhead
  | cons first more =>
    have hlo : first.chunkid = lo := by simpa using hhead
    have hhi : ((first :: more).getLast (List.cons_ne_nil first more)).chunkid = hi := by
      simpa [List.getLast?_eq_some_getLast (List.cons_ne_nil first more)] using hlast
    simp only [delS3ChunkInfoList, hlo, hhi, Bool.not_true, Bool.false_eq_true, if_false]
    rw [collectKey2del_of_in_or_after hcover]
    exact mapM_sDel _

theorem head?_flatMap_of_head {α β : Type} (f : α → List β) {P : List α} (hP : P ≠ [])
    (hne : f (P.head hP) ≠ []) : (P.flatMap f).head? = (f (P.head hP)).head? := by
  cases P with
  | nil => exact absurd rfl hP
  | cons p P' =>
    obtain ⟨x, xs, hx⟩ := List.exists_cons_of_ne_nil hne
    simp only [List.head_cons] at hx
    simp [List.flatMap_cons, hx]

theorem getLast?_flatMap_of_getLast {α β : Type} (f : α → List β) {P : List α} (hP : P ≠ [])
    (hne : f (P.getLast hP) ≠ []) : (P.flatMap f).getLast? = (f (P.getLast hP)).getLast? := by
  conv_lhs => rw [← List.dropLast_append_getLast hP]
  rw [List.flatMap_append, List.flatMap_singleton, List.getLast?_append_of_ne_nil _ hne]

/-- Compaction's delete list, the lists `L.take n` of a chunk concatenated in key order: the
deletes of exactly those lists. -/
theorem delS3ChunkInfoList_take {s : InodeStorage} {fsId inodeId chunkIndex : Nat}
    {L : List (Key4S3ChunkInfoList × S3ChunkInfoList)} (n : Nat)
    (hL : L.Perm (s.chunkLists fsId inodeId chunkIndex))
    (hord : L.Pairwise fun a b => a.1.lastChunkId < b.1.firstChunkId)
    (hrange : ∀ e ∈ L, e.1.firstChunkId ≤ e.1.lastChunkId)
    (hstored : ∀ e ∈ L, e.2.head?.map (·.chunkid) = some e.1.firstChunkId ∧
      e.2.getLast?.map (·.chunkid) = some e.1.lastChunkId) :
    ∃ D : List Key4S3ChunkInfoList, (∀ k, k ∈ D ↔ k ∈ (L.take n).map Prod.fst) ∧
      delS3ChunkInfoList s (fun _ => true) fsId inodeId chunkIndex
        (some ((L.take n).flatMap (·.2))) = .ok (D.map .sDel) := by
  by_cases hP : L.take n = []
  · exact ⟨[], by simp [hP], by rw [hP]; rfl⟩
  -- the lists deleted come before the lists kept
  have hsplit := List.take_append_drop n L
  have hmemL : ∀ e, e ∈ L ↔ e ∈ L.take n ∨ e ∈ L.drop n := fun e => by
    rw [← List.mem_append, hsplit]
  obtain ⟨hPord, -, hcross⟩ := List.pairwise_append.mp (hsplit.symm ▸ hord)
  have hspan := mem_span_of_pairwise hP hPord fun e he => hrange e (List.mem_of_mem_take he)
  have hafter : ∀ e ∈ L.drop n, ((L.take n).getLast hP).1.lastChunkId < e.1.firstChunkId :=
    fun e he => hcross _ (List.getLast_mem hP) e he
  -- the delete list runs from the first list's first id to the last list's last id
  have hne : ∀ e ∈ L, e.2 ≠ [] := fun e he h => by simpa [h] using (hstored e he).1
  have hheadL := List.mem_of_mem_take (List.head_mem hP)
  have hlastL := List.mem_of_mem_take (List.getLast_mem hP)
  have hhead : ((L.take n).flatMap (·.2)).head?.map (·.chunkid) =
      some ((L.take n).head hP).1.firstChunkId := by
    rw [head?_flatMap_of_head (·.2) hP (hne _ hheadL)]
    exact (hstored _ hheadL).1
  have hlast : ((L.take n).flatMap (·.2)).getLast?.map (·.chunkid) =
      some ((L.take n).getLast hP).1.lastChunkId := by
    rw [getLast?_flatMap_of_getLast (·.2) hP (hne _ hlastL)]
    exact (hstored _ hlastL).2
  -- every list of the chunk is one of `L`: inside the span if deleted, after it if kept
  have hkeys : ∀ k ∈ s.chunkKeys fsId inodeId chunkIndex, ∃ e ∈ L, e.1 = k := by
    intro k hk
    rw [InodeStorage.chunkKeys_eq_map] at hk
    obtain ⟨e, he, rfl⟩ := List.mem_map.mp hk
    exact ⟨e, hL.symm.subset he, rfl⟩
  have hcover : ∀ k ∈ s.chunkKeys fsId inodeId chunkIndex,
      (((L.take n).head hP).1.firstChunkId ≤ k.firstChunkId ∧
        ((L.take n).getLast hP).1.lastChunkId ≥ k.lastChunkId) ∨
      ((L.take n).getLast hP).1.lastChunkId < k.firstChunkId := by
    intro k hk
    obtain ⟨e, he, rfl⟩ := hkeys k hk
    rcases (hmemL e).mp he with hin | hout
    · exact Or.inl (hspan e hin)
    · exact Or.inr (hafter e hout)
  refine ⟨_, fun k => ?_, delS3ChunkInfoList_of_span hhead hlast hcover⟩
  simp only [List.mem_filter, decide_eq_true_eq, List.mem_map]
  constructor
  · rintro ⟨hk, -, hhi⟩
    obtain ⟨e, he, rfl⟩ := hkeys k hk
    rcases (hmemL e).mp he with hin | hout
    · exact ⟨e, hin, rfl⟩
    · exact absurd (lt_of_lt_of_le (hafter e hout) (hrange e he)) (not_lt.mpr hhi)
  · rintro ⟨e, hin, rfl⟩
    refine ⟨?_, hspan e hin⟩
    rw [InodeStorage.chunkKeys_eq_map]
    exact List.mem_map.mpr ⟨e, hL.subset (List.mem_of_mem_take hin), rfl⟩

/-- The key `AddS3ChunkInfoList` stores a nonempty list under. -/
def listKey (fsId inodeId chunkIndex : Nat) (first : S3ChunkInfo) (more : S3ChunkInfoList) :
    Key4S3ChunkInfoList :=
  ⟨fsId, inodeId, chunkIndex, first.chunkid,
    ((first :: more).getLast (List.cons_ne_nil first more)).chunkid, more.length + 1⟩

/-- `ModifyInodeS3ChunkInfoList` without faults, once `DelS3ChunkInfoList` has given its
deletes and `s3metasize` stays in range: the deletes, the new list and the new size,
committed, on either backend. -/
theorem modifyInodeS3ChunkInfoList_of_del (backend : StorageBackend) {s : InodeStorage}
    {fsId inodeId chunkIndex : Nat}
    {add : S3ChunkInfo} {more list2del : S3ChunkInfoList} {D : List Key4S3ChunkInfoList}
    (hdel : delS3ChunkInfoList s (fun _ => true) fsId inodeId chunkIndex (some list2del) =
      .ok (D.map .sDel))
    (hsize : list2del.length ≤ s.getInodeS3MetaSize (fun _ => true) fsId inodeId + (more.length + 1))
    (hsize64 : s.getInodeS3MetaSize (fun _ => true) fsId inodeId + (more.length + 1) < 2 ^ 64) :
    modifyInodeS3ChunkInfoList backend s (fun _ => true) fsId inodeId chunkIndex
        (some (add :: more)) (some list2del) =
      (s.writeAll (D.map .sDel ++ [.sSet (listKey fsId inodeId chunkIndex add more) (add :: more)] ++
        [.hSet ⟨fsId, inodeId⟩ ⟨s.getInodeS3MetaSize (fun _ => true) fsId inodeId +
          (more.length + 1) - list2del.length⟩]), .OK) := by
  -- the size `UpdateInodeS3MetaSize` reads is the one `GetInodeS3MetaSize` returns
  have hget : ((s.table4InodeAuxInfo.lookup ⟨fsId, inodeId⟩).getD ⟨0⟩).s3metasize =
      s.getInodeS3MetaSize (fun _ => true) fsId inodeId := by
    simp only [InodeStorage.getInodeS3MetaSize, Bool.not_true, Bool.false_eq_true, if_false]
    cases s.table4InodeAuxInfo.lookup ⟨fsId, inodeId⟩ <;> rfl
  apply modifyInodeS3ChunkInfoList_of_ok backend rfl rfl
  simp only [modifyInodeS3ChunkInfoListTxn, hdel, addS3ChunkInfoList, updateInodeS3MetaSize, hget,
    add64_of_lt hsize64, List.length_cons, Option.map_some, Option.getD_some, Bool.not_true,
    Bool.false_eq_true, if_false, if_neg (not_lt.mpr hsize)]
  rfl

/-- The chunk-info table after a swap's writes: the new list under its key, the deleted keys
gone, every other key as it was. -/
theorem InodeStorage.lookup_writeAll_swap (s : InodeStorage) (D : List Key4S3ChunkInfoList)
    (key : Key4S3ChunkInfoList) (list : S3ChunkInfoList) (auxKey : Key4InodeAuxInfo)
    (aux : InodeAuxInfo) (k : Key4S3ChunkInfoList) :
    (s.writeAll (D.map .sDel ++ [.sSet key list] ++ [.hSet auxKey aux])).table4S3ChunkInfo.lookup k =
      if k = key then some list else if k ∈ D then none else s.table4S3ChunkInfo.lookup k := by
  rw [InodeStorage.writeAll_append, InodeStorage.writeAll_append]
  by_cases hk : k = key
  · subst hk
    simp [InodeStorage.write, AList.lookup_insert]
  · simp [InodeStorage.write, AList.lookup_insert_ne hk, hk,
      InodeStorage.lookup_writeAll_sDel]

/-- A key of the table after a swap was a key before, or is the new list's. -/
theorem InodeStorage.mem_keys_writeAll_swap {s : InodeStorage} {D : List Key4S3ChunkInfoList}
    {key k : Key4S3ChunkInfoList} {list : S3ChunkInfoList} {auxKey : Key4InodeAuxInfo}
    {aux : InodeAuxInfo}
    (hk : k ∈ (s.writeAll (D.map .sDel ++ [.sSet key list] ++ [.hSet auxKey aux])).table4S3ChunkInfo.keys) :
    k = key ∨ k ∈ s.table4S3ChunkInfo.keys := by
  rw [← AList.mem_keys, ← AList.lookup_isSome, InodeStorage.lookup_writeAll_swap] at hk
  by_cases hkey : k = key
  · exact Or.inl hkey
  · rw [if_neg hkey] at hk
    by_cases hD : k ∈ D
    · simp [hD] at hk
    · rw [if_neg hD] at hk
      exact Or.inr (AList.mem_keys.mp (AList.lookup_isSome.mp hk))

/-- What a call of compaction's swap leaves in the chunk-info table: it returns `OK`, the
lists `deleted` are gone (but for a key the new list takes again), `list2add` is stored under
`addKey`, and every other key holds what it held. -/
structure SwapsLists (s : InodeStorage) (r : InodeStorage × MetaStatusCode)
    (deleted : List Key4S3ChunkInfoList) (addKey : Key4S3ChunkInfoList)
    (list2add : S3ChunkInfoList) : Prop where
  ok : r.2 = .OK
  removed : ∀ k ∈ deleted, k ≠ addKey → r.1.table4S3ChunkInfo.lookup k = none
  stored : r.1.table4S3ChunkInfo.lookup addKey = some list2add
  unchanged : ∀ k, k ∉ deleted → k ≠ addKey →
    r.1.table4S3ChunkInfo.lookup k = s.table4S3ChunkInfo.lookup k

/-- Compaction's swap without storage faults, for ids and sizes of 64 bits: `L` holds the lists
of chunk `chunkIndex` in key order, the call deletes the concatenation of `L.take n` and adds
the nonempty list `add :: more`. When the chunk's lists are proper ranges that lie apart, each
starting and ending with the ids its key names, and `s3metasize` holds at least the infos the
call deletes, the call swaps the lists, on either backend, and the padding of the inode
afterwards is in order. -/
theorem modifyInodeS3ChunkInfoList_swaps_prefix (backend : StorageBackend) (s : InodeStorage)
    (fsId inodeId chunkIndex n : Nat) (L : List (Key4S3ChunkInfoList × S3ChunkInfoList))
    (add : S3ChunkInfo) (more : S3ChunkInfoList)
    (h64 : ∀ k ∈ s.table4S3ChunkInfo.keys, k.firstChunkId < 2 ^ 64)
    (hadd64 : add.chunkid < 2 ^ 64)
    (hrange : ∀ e ∈ s.chunkLists fsId inodeId chunkIndex, e.1.firstChunkId ≤ e.1.lastChunkId)
    (hdisj : (s.chunkLists fsId inodeId chunkIndex).Pairwise fun a b =>
      a.1.lastChunkId < b.1.firstChunkId ∨ b.1.lastChunkId < a.1.firstChunkId)
    (hstored : ∀ e ∈ s.chunkLists fsId inodeId chunkIndex,
      e.2.head?.map (·.chunkid) = some e.1.firstChunkId ∧
        e.2.getLast?.map (·.chunkid) = some e.1.lastChunkId)
    (hL : L.Perm (s.chunkLists fsId inodeId chunkIndex))
    (hkey : L.Pairwise fun a b => a.1.serializeToString < b.1.serializeToString)
    (hsize : ((L.take n).flatMap (·.2)).length ≤
      s.getInodeS3MetaSize (fun _ => true) fsId inodeId + (more.length + 1))
    (hsize64 : s.getInodeS3MetaSize (fun _ => true) fsId inodeId + (more.length + 1) < 2 ^ 64) :
    SwapsLists s (modifyInodeS3ChunkInfoList backend s (fun _ => true) fsId inodeId chunkIndex
        (some (add :: more)) (some ((L.take n).flatMap (·.2))))
      ((L.take n).map Prod.fst) (listKey fsId inodeId chunkIndex add more) (add :: more) ∧
    PaddedInOrder (modifyInodeS3ChunkInfoList backend s (fun _ => true) fsId inodeId chunkIndex
        (some (add :: more)) (some ((L.take n).flatMap (·.2)))).1 fsId inodeId := by
  have hmem : ∀ e ∈ L, e ∈ s.chunkLists fsId inodeId chunkIndex := fun e he => hL.subset he
  -- in key order the lists of the chunk lie one after another
  have hord := InodeStorage.pairwise_lastChunkId_lt hL hkey
    (fun e he => hrange e (hmem e he)) hdisj h64
  obtain ⟨D, hD, hdel⟩ := delS3ChunkInfoList_take n hL hord
    (fun e he => hrange e (hmem e he)) (fun e he => hstored e (hmem e he))
  rw [modifyInodeS3ChunkInfoList_of_del backend hdel hsize hsize64]
  refine ⟨⟨rfl, fun k hk hne => ?_, ?_, fun k hk hne => ?_⟩,
    paddingInodeS3ChunkInfoSeek_spec _ _ _ fun k hk => ?_⟩
  · rw [InodeStorage.lookup_writeAll_swap, if_neg hne, if_pos ((hD k).mpr hk)]
  · rw [InodeStorage.lookup_writeAll_swap, if_pos rfl]
  · rw [InodeStorage.lookup_writeAll_swap, if_neg hne, if_neg fun h => hk ((hD k).mp h)]
  · -- the one new key starts at the new list's first id
    rcases InodeStorage.mem_keys_writeAll_swap hk with rfl | hold
    · exact hadd64
    · exact h64 k hold

/-- Two lists of chunk 0 of inode 1, of chunk ids 1 and 2 and of chunk id 3, a list of chunk
10, and the four infos counted in the aux record. -/
def compactStorage : InodeStorage where
  table4S3ChunkInfo :=
    ((AList.singleton (⟨1, 1, 0, 1, 2, 2⟩ : Key4S3ChunkInfoList)
      [dataInfo 1 0 1, dataInfo 2 1 1]).insert
      (⟨1, 1, 0, 3, 3, 1⟩ : Key4S3ChunkInfoList) [dataInfo 3 2 1]).insert
      (⟨1, 1, 10, 4, 4, 1⟩ : Key4S3ChunkInfoList) [dataInfo 4 0 1]
  table4InodeAuxInfo := AList.singleton ⟨1, 1⟩ ⟨4⟩

/-- The lists of chunk 0 of `compactStorage` in key order. -/
def compactLists : List (Key4S3ChunkInfoList × S3ChunkInfoList) :=
  [(⟨1, 1, 0, 1, 2, 2⟩, [dataInfo 1 0 1, dataInfo 2 1 1]), (⟨1, 1, 0, 3, 3, 1⟩, [dataInfo 3 2 1])]

/-- Compaction merges the first list of chunk 0 into one info, on RocksDB. -/
theorem modifyInodeS3ChunkInfoList_swaps_first_list :
    SwapsLists compactStorage (modifyInodeS3ChunkInfoList .rocksdb compactStorage (fun _ => true)
        1 1 0 (some [dataInfo 5 0 2]) (some ((compactLists.take 1).flatMap (·.2))))
      ((compactLists.take 1).map Prod.fst) (listKey 1 1 0 (dataInfo 5 0 2) []) [dataInfo 5 0 2] ∧
    PaddedInOrder (modifyInodeS3ChunkInfoList .rocksdb compactStorage (fun _ => true) 1 1 0
        (some [dataInfo 5 0 2]) (some ((compactLists.take 1).flatMap (·.2)))).1 1 1 :=
  modifyInodeS3ChunkInfoList_swaps_prefix .rocksdb compactStorage 1 1 0 1 compactLists
    (dataInfo 5 0 2) []
    (by decide) (by decide) (by decide) (by decide) (by decide) (by decide)
    (List.pairwise_pair.mpr
      (serializeToString_lt_of_firstChunkId_lt rfl rfl rfl (by decide) (by decide)))
    (by decide) (by decide)

/-- Two lists of chunk 0 of inode 1, of chunk id 1 and of chunk id 2, with no aux record. -/
def uncountedStorage : InodeStorage where
  table4S3ChunkInfo :=
    (AList.singleton (⟨1, 1, 0, 1, 1, 1⟩ : Key4S3ChunkInfoList) [dataInfo 1 0 1]).insert
      (⟨1, 1, 0, 2, 2, 1⟩ : Key4S3ChunkInfoList) [dataInfo 2 1 1]
  table4InodeAuxInfo := ∅

/-- The lists of chunk 0 of `uncountedStorage` in key order. -/
def uncountedLists : List (Key4S3ChunkInfoList × S3ChunkInfoList) :=
  [(⟨1, 1, 0, 1, 1, 1⟩, [dataInfo 1 0 1]), (⟨1, 1, 0, 2, 2, 1⟩, [dataInfo 2 1 1])]

/-- Swapping both lists of a chunk whose infos the aux record does not count: `s3metasize`, 0
without a record, plus the one info added is below the two infos deleted, so the call fails. -/
theorem modifyInodeS3ChunkInfoList_uncounted_fails :
    uncountedLists.Perm (uncountedStorage.chunkLists 1 1 0) ∧
      (uncountedLists.Pairwise fun a b => a.1.serializeToString < b.1.serializeToString) ∧
      ((uncountedStorage.chunkLists 1 1 0).Pairwise fun a b =>
        a.1.lastChunkId < b.1.firstChunkId ∨ b.1.lastChunkId < a.1.firstChunkId) ∧
      (modifyInodeS3ChunkInfoList .rocksdb uncountedStorage (fun _ => true) 1 1 0
        (some [dataInfo 3 0 2]) (some (uncountedLists.flatMap (·.2)))).2 =
        .STORAGE_INTERNAL_ERROR :=
  ⟨by decide,
    List.pairwise_pair.mpr
      (serializeToString_lt_of_firstChunkId_lt rfl rfl rfl (by decide) (by decide)),
    by decide, by decide⟩

end Swap

end DingoFs.Metaserver
