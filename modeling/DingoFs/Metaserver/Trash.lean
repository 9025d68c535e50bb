import DingoFs.Metaserver.InodeStorage
import DingoFs.Lib.ChildLinks

/-!
# Reclaiming unlinked inodes: `TrashImpl` and the link count path of `InodeManager`

An inode whose link count drops to zero is put in its partition's trash list, which lives in
memory only. `ScanTrash` takes each item whose time has come and calls `DeleteInodeAndData`,
which deletes an s3 inode's objects and then its record; an item is dropped when that
succeeds or returns `NOT_FOUND`, and kept for the next scan otherwise. A restart from a
snapshot rebuilds the partition: from an old dump file by `InsertInode`, which puts every
unlinked inode back into the trash, or (the format this code saves) by recovering the storage
checkpoint, which leaves the new trash list empty.

The world is one partition: its inode table, its chunk-info tables, its trash list, and the
ghost list `s3Deleted` of the inodes whose objects were deleted, in order.
-/

namespace DingoFs.Metaserver

open DingoFs.Lib

/-- `Key4Inode`. -/
structure Key4Inode where
  fsId : Nat
  inodeId : Nat
deriving DecidableEq, Repr

/-- `TrashItem`. -/
structure TrashItem where
  fsId : Nat
  inodeId : Nat
  dtime : Nat
deriving DecidableEq, Repr

/-- `TrashOption`, with the field the scan reads. -/
structure TrashOption where
  expiredAfterSec : Nat

/-- `storage::kDumpFileV2`: dump files up to this version hold the inodes themselves. -/
def kDumpFileV2 : Nat := 2

/-- `FsInfo`, with the field the trash reads: `recycleTimeHour`, 0 when the info has none. -/
structure FsInfo where
  recycleTimeHour : Nat
deriving DecidableEq, Repr

/-- One partition's inodes, chunk infos and trash, with the trash's `fsInfoMap_`, the infos of
the file systems it has fetched from the MDS. -/
structure TrashWorld where
  inodes : AList (fun _ : Key4Inode => Inode)
  chunkInfo : InodeStorage
  trashItems : List TrashItem
  fsInfoMap : AList (fun _ : Nat => FsInfo)
  s3Deleted : List Key4Inode

/-- What the environment answers while `ScanTrash` handles one item, call by call: the clock
`NeedDelete` reads; whether the `InodeStorage::Get` of `NeedDelete`, and then that of
`DeleteInodeAndData`, reads without a storage error; the MDS's answer to `GetFsInfo` for a file
system, in `GetFsRecycleTimeHour` and then in `DeleteInodeAndData` (`none` when the call fails);
and whether padding the chunk infos, the s3 delete and `InodeStorage::Delete` succeed. -/
structure ItemEnv where
  now : Nat
  needDeleteGetOk : Bool
  recycleFsInfo : Nat → Option FsInfo
  deleteGetOk : Bool
  deleteFsInfo : Nat → Option FsInfo
  paddingOk : Bool
  s3DeleteOk : Bool
  deleteOk : Bool

/-- The item's calls all succeed. -/
structure ItemEnv.CallsSucceed (e : ItemEnv) : Prop where
  needDeleteGet : e.needDeleteGetOk = true
  deleteGet : e.deleteGetOk = true
  padding : e.paddingOk = true
  s3Delete : e.s3DeleteOk = true
  delete : e.deleteOk = true

/-- The environment of an item at clock `now` in which every call succeeds and the MDS answers
with `fsInfo`. -/
def ItemEnv.succeeding (now : Nat) (fsInfo : FsInfo) : ItemEnv :=
  ⟨now, true, fun _ => some fsInfo, true, fun _ => some fsInfo, true, true, true⟩

/-- `InodeStorage::PaddingInodeS3ChunkInfo` without a size limit: every stored list of the
inode merged into `m` by chunk index, appended to the list `m` already has for it. -/
def InodeStorage.paddingInodeS3ChunkInfo (s : InodeStorage) (fsId inodeId : Nat)
    (m : S3ChunkInfoMap) : S3ChunkInfoMap :=
  (s.inodeS3ChunkInfoList fsId inodeId).foldl
    (fun m item =>
      match m.lookup item.1.chunkIndex with
      | none => m.insert item.1.chunkIndex item.2
      | some list => m.insert item.1.chunkIndex (list ++ item.2))
    m

namespace TrashWorld

/-- `TrashImpl::Add`. -/
def add (w : TrashWorld) (fsId inodeId dtime : Nat) : TrashWorld :=
  { w with trashItems := w.trashItems ++ [⟨fsId, inodeId, dtime⟩] }

/-- `InodeManager::CreateInode`: a directory starts with two links, anything else with one. -/
def createInode (w : TrashWorld) (fsId inodeId : Nat) (type : FsFileType) :
    TrashWorld × MetaStatusCode :=
  let key : Key4Inode := ⟨fsId, inodeId⟩
  if key ∈ w.inodes.keys then (w, .INODE_EXIST)
  else
    let nlink := if type = .TYPE_DIRECTORY then 2 else 1
    ({ w with inodes := w.inodes.insert key ⟨fsId, inodeId, type, nlink, 0, ∅⟩ }, .OK)

/-- `InodeManager::InsertInode`: an inode inserted already unlinked goes to the trash. -/
def insertInode (w : TrashWorld) (inode : Inode) : TrashWorld × MetaStatusCode :=
  let key : Key4Inode := ⟨inode.fsid, inode.inodeid⟩
  if key ∈ w.inodes.keys then (w, .INODE_EXIST)
  else
    let w := { w with inodes := w.inodes.insert key inode }
    (if inode.nlink = 0 then w.add inode.fsid inode.inodeid inode.dtime else w, .OK)

/-- The link count part of `InodeManager::UpdateInode`: a count that drops from nonzero to zero
stamps `dtime` and puts the inode in the trash. -/
def updateInodeNlink (w : TrashWorld) (fsId inodeId nlink now : Nat) :
    TrashWorld × MetaStatusCode :=
  let key : Key4Inode := ⟨fsId, inodeId⟩
  match w.inodes.lookup key with
  | none => (w, .NOT_FOUND)
  | some old =>
    let needAddTrash := old.nlink ≠ 0 ∧ nlink = 0
    let old := if needAddTrash then { old with dtime := now } else old
    let w := { w with inodes := w.inodes.insert key { old with nlink := nlink } }
    (if needAddTrash then w.add old.fsid old.inodeid old.dtime else w, .OK)

/-- `InodeManager::GetOrModifyS3ChunkInfo` on this partition's chunk-info tables, kept by
`backend`. -/
def modifyS3ChunkInfo (w : TrashWorld) (backend : StorageBackend) (ok : Nat → StorageCall → Bool)
    (fsId inodeId : Nat) (map2add map2del : S3ChunkInfoMap) : TrashWorld × MetaStatusCode :=
  let r := getOrModifyS3ChunkInfo backend w.chunkInfo ok true fsId inodeId map2add map2del false
  ({ w with chunkInfo := r.1 }, r.2.1)

/-- The lookup of a file system's info that `GetFsRecycleTimeHour` and `DeleteInodeAndData`
share: the info in `fsInfoMap_`, or else the MDS's answer, which is then cached; `none` when it
is not cached and the MDS call fails. -/
def fetchFsInfo (w : TrashWorld) (fsId : Nat) (answer : Option FsInfo) :
    Option (TrashWorld × FsInfo) :=
  match w.fsInfoMap.lookup fsId with
  | some fsInfo => some (w, fsInfo)
  | none => answer.map fun fsInfo => ({ w with fsInfoMap := w.fsInfoMap.insert fsId fsInfo }, fsInfo)

/-- `TrashImpl::GetFsRecycleTimeHour`: 0 when the info cannot be had. -/
def getFsRecycleTimeHour (w : TrashWorld) (fsId : Nat) (answer : Option FsInfo) :
    TrashWorld × Nat :=
  match w.fetchFsInfo fsId answer with
  | some (w', fsInfo) => (w', fsInfo.recycleTimeHour)
  | none => (w, 0)

/-- `TrashImpl::NeedDelete`, at the clock reading `env.now`: an item whose inode is gone is due
at once and one whose inode cannot be read is not; otherwise it is due when its file system
keeps no recycle bin (`recycleTimeHour = 0`) and `expiredAfterSec` have passed since `dtime`,
in `uint32_t` arithmetic. -/
def needDelete (w : TrashWorld) (option : TrashOption) (env : ItemEnv) (item : TrashItem) :
    TrashWorld × Bool :=
  if !env.needDeleteGetOk then (w, false)
  else
    match w.inodes.lookup ⟨item.fsId, item.inodeId⟩ with
    | none => (w, true)
    | some _ =>
      let r := w.getFsRecycleTimeHour item.fsId (env.recycleFsInfo item.fsId)
      if r.2 = 0 then (r.1, decide (sub32 env.now item.dtime ≥ option.expiredAfterSec))
      else (r.1, true)

/-- The s3 part of `TrashImpl::DeleteInodeAndData`: the file system's info, the inode's chunk
infos padded from storage, and the delete of its objects. An s3 inode without chunk infos
reports `NOT_FOUND`. -/
def deleteS3Data (w : TrashWorld) (env : ItemEnv) (item : TrashItem) (inode : Inode) :
    TrashWorld × MetaStatusCode :=
  match w.fetchFsInfo item.fsId (env.deleteFsInfo item.fsId) with
  | none => (w, .S3_DELETE_ERR)
  | some (w, _) =>
    if !env.paddingOk then (w, .STORAGE_INTERNAL_ERROR)
    else if (w.chunkInfo.paddingInodeS3ChunkInfo item.fsId item.inodeId
        inode.s3chunkinfomap).entries = [] then (w, .NOT_FOUND)
    else if !env.s3DeleteOk then (w, .S3_DELETE_ERR)
    else ({ w with s3Deleted := w.s3Deleted ++ [⟨item.fsId, item.inodeId⟩] }, .OK)

/-- `TrashImpl::DeleteInodeAndData`: an s3 inode's objects are deleted before its record. A
storage error of `InodeStorage::Get` or `InodeStorage::Delete` is `STORAGE_INTERNAL_ERROR`
(`STORAGE_CLOSED` goes the same way through `ScanTrash`). -/
def deleteInodeAndData (w : TrashWorld) (env : ItemEnv) (item : TrashItem) :
    TrashWorld × MetaStatusCode :=
  let key : Key4Inode := ⟨item.fsId, item.inodeId⟩
  if !env.deleteGetOk then (w, .STORAGE_INTERNAL_ERROR)
  else
    match w.inodes.lookup key with
    | none => (w, .NOT_FOUND)
    | some inode =>
      -- a volume or other inode has no s3 data to delete first
      let r := if inode.type = .TYPE_S3 then w.deleteS3Data env item inode else (w, .OK)
      if r.2 ≠ .OK then r
      else if !env.deleteOk then (r.1, .STORAGE_INTERNAL_ERROR)
      else ({ r.1 with inodes := r.1.inodes.erase key }, .OK)

/-- The loop of `TrashImpl::ScanTrash` over the items taken out of the list, the item at place
`i` with the environment `env i`: the world after it and the items kept, in order. An item is
dropped when it was due and its deletion returned `OK` or `NOT_FOUND`. -/
def scanItems (option : TrashOption) (env : Nat → ItemEnv) :
    Nat → TrashWorld → List TrashItem → TrashWorld × List TrashItem
  | _, w, [] => (w, [])
  | i, w, item :: items =>
    let due := w.needDelete option (env i) item
    if due.2 then
      let r := due.1.deleteInodeAndData (env i) item
      let rest := scanItems option env (i + 1) r.1 items
      (rest.1, if r.2 = .NOT_FOUND ∨ r.2 = .OK then rest.2 else item :: rest.2)
    else
      let rest := scanItems option env (i + 1) due.1 items
      (rest.1, item :: rest.2)

/-- `TrashImpl::ScanTrash`: the kept items go back to the list. -/
def scanTrash (w : TrashWorld) (option : TrashOption) (env : Nat → ItemEnv) : TrashWorld :=
  let r := scanItems option env 0 w w.trashItems
  { r.1 with trashItems := r.2 }

/-- A restart from a snapshot of this partition in dump format `version`
(`MetaStoreImpl::Load`): an old dump is loaded inode by inode through `InsertInode`, which
puts every unlinked inode in the new trash; a newer one recovers the storage checkpoint. The
new `TrashImpl` starts with no items and no cached file-system infos. -/
def restart (w : TrashWorld) (version : Nat) : TrashWorld :=
  if version ≤ kDumpFileV2 then
    (w.inodes.entries.foldl (fun w e => (w.insertInode e.2).1)
      { w with inodes := ∅, trashItems := [], fsInfoMap := ∅ })
  else { w with trashItems := [], fsInfoMap := ∅ }

end TrashWorld

/-- The events of a partition's life that touch inodes and the trash. -/
inductive TrashEvent
  | createInode (fsId inodeId : Nat) (type : FsFileType)
  | updateInodeNlink (fsId inodeId nlink now : Nat)
  | modifyS3ChunkInfo (backend : StorageBackend) (ok : Nat → StorageCall → Bool)
      (fsId inodeId : Nat) (map2add map2del : S3ChunkInfoMap)
  | scanTrash (env : Nat → ItemEnv)
  | restart (version : Nat)

namespace TrashWorld

def step (option : TrashOption) (w : TrashWorld) : TrashEvent → TrashWorld
  | .createInode fsId inodeId type => (w.createInode fsId inodeId type).1
  | .updateInodeNlink fsId inodeId nlink now => (w.updateInodeNlink fsId inodeId nlink now).1
  | .modifyS3ChunkInfo backend ok fsId inodeId map2add map2del =>
    (w.modifyS3ChunkInfo backend ok fsId inodeId map2add map2del).1
  | .scanTrash env => w.scanTrash option env
  | .restart version => w.restart version

def run (option : TrashOption) (w : TrashWorld) (es : List TrashEvent) : TrashWorld :=
  es.foldl (step option) w

/-- An empty partition. -/
def empty : TrashWorld := ⟨∅, ⟨∅, ∅⟩, [], ∅, []⟩

end TrashWorld

namespace TrashEvent

def isScanTrash : TrashEvent → Bool
  | .scanTrash .. => true
  | _ => false

end TrashEvent

namespace TrashWorld

variable {option : TrashOption}

/-- A scan of an empty trash list does nothing. -/
theorem scanTrash_of_trashItems_nil {w : TrashWorld} (h : w.trashItems = [])
    (env : Nat → ItemEnv) : w.scanTrash option env = w := by
  unfold scanTrash
  rw [h]
  simp only [scanItems]
  rw [← h]

/-- So once an unlinked inode has left an empty trash list, no number of scans reclaims it. -/
theorem run_scans_of_trashItems_nil {w : TrashWorld} (h : w.trashItems = []) :
    ∀ es : List TrashEvent, (∀ e ∈ es, e.isScanTrash = true) → w.run option es = w
  | [], _ => rfl
  | e :: es, hs => by
    have hscan : w.step option e = w := by
      cases e with
      | scanTrash env => exact scanTrash_of_trashItems_nil h env
      | _ => simp [TrashEvent.isScanTrash] at hs
    show (w.step option e).run option es = w
    rw [hscan]
    exact run_scans_of_trashItems_nil h es (fun e' he' => hs e' (List.mem_cons_of_mem e he'))

end TrashWorld

/-! ## What a scan does

A scan only caches file-system infos, records objects deleted and erases inode records, an s3
inode's record only once its objects are recorded deleted (`ScanFrame`); `NeedDelete` only
caches (`needDelete_fst`), and `deleteInodeAndData_cases` says everything `DeleteInodeAndData`
can do. So an item leaves the list only when its inode is gone or is an s3 inode without chunk
infos (`scanTrash_drops_only_gone_or_empty`), and a due item whose inode has data, in a scan
whose calls for it succeed, leaves its inode deleted with its objects (`scanTrash_reclaims`). -/

namespace TrashWorld

/-- The inode of `item` is gone, or is an s3 inode with no chunk infos. -/
def InodeGoneOrEmptyS3 (w : TrashWorld) (item : TrashItem) : Prop :=
  match w.inodes.lookup ⟨item.fsId, item.inodeId⟩ with
  | none => True
  | some inode =>
    inode.type = .TYPE_S3 ∧
      (w.chunkInfo.paddingInodeS3ChunkInfo item.fsId item.inodeId inode.s3chunkinfomap).entries
        = []

/-- What a scan may do to a partition: erase inode records, an s3 inode's only with its key
recorded in `s3Deleted`, and record more keys. -/
structure ScanFrame (w w' : TrashWorld) : Prop where
  chunkInfo : w'.chunkInfo = w.chunkInfo
  inodes : ∀ key, w'.inodes.lookup key = w.inodes.lookup key ∨
    (w'.inodes.lookup key = none ∧
      ∀ inode, w.inodes.lookup key = some inode → inode.type = .TYPE_S3 → key ∈ w'.s3Deleted)
  s3Deleted : ∀ key ∈ w.s3Deleted, key ∈ w'.s3Deleted

theorem ScanFrame.refl (w : TrashWorld) : ScanFrame w w :=
  ⟨rfl, fun _ => .inl rfl, fun _ h => h⟩

theorem ScanFrame.trans {w₁ w₂ w₃ : TrashWorld} (h₁ : ScanFrame w₁ w₂) (h₂ : ScanFrame w₂ w₃) :
    ScanFrame w₁ w₃ where
  chunkInfo := h₂.chunkInfo.trans h₁.chunkInfo
  inodes key := by
    rcases h₁.inodes key with e₁ | ⟨n₁, d₁⟩
    · rcases h₂.inodes key with e₂ | ⟨n₂, d₂⟩
      · exact .inl (e₂.trans e₁)
      · exact .inr ⟨n₂, fun inode hi ht => d₂ inode (e₁ ▸ hi) ht⟩
    · -- erased in the first part: it stays erased, and its record stays recorded
      rcases h₂.inodes key with e₂ | ⟨n₂, -⟩
      · exact .inr ⟨e₂.trans n₁, fun inode hi ht => h₂.s3Deleted key (d₁ inode hi ht)⟩
      · exact .inr ⟨n₂, fun inode hi ht => h₂.s3Deleted key (d₁ inode hi ht)⟩
  s3Deleted key hk := h₂.s3Deleted key (h₁.s3Deleted key hk)

theorem ScanFrame.inodeGoneOrEmptyS3 {w w' : TrashWorld} (h : ScanFrame w w')
    {item : TrashItem} (hg : w.InodeGoneOrEmptyS3 item) : w'.InodeGoneOrEmptyS3 item := by
  unfold InodeGoneOrEmptyS3 at hg ⊢
  rcases h.inodes ⟨item.fsId, item.inodeId⟩ with e | ⟨n, -⟩
  · rw [e, h.chunkInfo]
    exact hg
  · rw [n]
    trivial

/-- Caching infos and recording keys is a scan's kind of change. -/
theorem scanFrame_record (w : TrashWorld) (m : AList fun _ : Nat => FsInfo)
    (deleted : List Key4Inode) :
    ScanFrame w { w with fsInfoMap := m, s3Deleted := w.s3Deleted ++ deleted } :=
  ⟨rfl, fun _ => .inl rfl, fun _ h => List.mem_append_left _ h⟩

/-- Erasing a record, with the keys whose objects were deleted, is a scan's kind of change
when an s3 record's key is among them. -/
theorem scanFrame_erase (w : TrashWorld) (m : AList fun _ : Nat => FsInfo) (key : Key4Inode)
    (deleted : List Key4Inode)
    (hdel : ∀ inode, w.inodes.lookup key = some inode → inode.type = .TYPE_S3 →
      key ∈ deleted) :
    ScanFrame w { w with fsInfoMap := m, inodes := w.inodes.erase key,
                         s3Deleted := w.s3Deleted ++ deleted } where
  chunkInfo := rfl
  inodes key' := by
    by_cases hk : key' = key
    · subst hk
      exact .inr ⟨AList.lookup_erase _ _,
        fun inode hi ht => List.mem_append_right _ (hdel inode hi ht)⟩
    · exact .inl (AList.lookup_erase_ne hk)
  s3Deleted _ hk := List.mem_append_left _ hk

/-! ### The file-system info cache -/

/-- A fetch changes nothing but the cache. -/
theorem fetchFsInfo_fst {w w' : TrashWorld} {fsId : Nat} {answer : Option FsInfo}
    {fsInfo : FsInfo} (h : w.fetchFsInfo fsId answer = some (w', fsInfo)) :
    ∃ m, w' = { w with fsInfoMap := m } := by
  unfold fetchFsInfo at h
  split at h
  · simp only [Option.some.injEq, Prod.mk.injEq] at h
    obtain ⟨rfl, -⟩ := h
    exact ⟨w.fsInfoMap, rfl⟩
  · obtain ⟨fi, -, hfi⟩ := Option.map_eq_some_iff.mp h
    simp only [Prod.mk.injEq] at hfi
    obtain ⟨rfl, -⟩ := hfi
    exact ⟨_, rfl⟩

/-- A fetch gives the cached info, or else the answer. -/
theorem fetchFsInfo_snd {w w' : TrashWorld} {fsId : Nat} {answer : Option FsInfo}
    {fsInfo : FsInfo} (h : w.fetchFsInfo fsId answer = some (w', fsInfo)) :
    w.fsInfoMap.lookup fsId = some fsInfo ∨ answer = some fsInfo := by
  unfold fetchFsInfo at h
  split at h
  · next c hc =>
    simp only [Option.some.injEq, Prod.mk.injEq] at h
    exact .inl (h.2 ▸ hc)
  · obtain ⟨fi, hfi, hmk⟩ := Option.map_eq_some_iff.mp h
    simp only [Prod.mk.injEq] at hmk
    exact .inr (hmk.2 ▸ hfi)

/-- After a fetch the cache holds for `f` what it held, or the answer of a fetch for `f`. -/
theorem lookup_fetchFsInfo {w w' : TrashWorld} {fsId f : Nat} {answer : Option FsInfo}
    {fsInfo c : FsInfo} (h : w.fetchFsInfo fsId answer = some (w', fsInfo))
    (hc : w'.fsInfoMap.lookup f = some c) :
    w.fsInfoMap.lookup f = some c ∨ (f = fsId ∧ answer = some c) := by
  unfold fetchFsInfo at h
  split at h
  · simp only [Option.some.injEq, Prod.mk.injEq] at h
    obtain ⟨rfl, -⟩ := h
    exact .inl hc
  · obtain ⟨fi, hfi, hmk⟩ := Option.map_eq_some_iff.mp h
    simp only [Prod.mk.injEq] at hmk
    obtain ⟨rfl, rfl⟩ := hmk
    rw [lookup_insert_eq_some] at hc
    rcases hc with ⟨rfl, rfl⟩ | ⟨-, hc⟩
    · exact .inr ⟨rfl, hfi⟩
    · exact .inl hc

/-- A fetch fails only when nothing is cached and the MDS call fails. -/
theorem fetchFsInfo_ne_none {w : TrashWorld} {fsId : Nat} {answer : Option FsInfo}
    (h : w.fsInfoMap.lookup fsId ≠ none ∨ answer ≠ none) : w.fetchFsInfo fsId answer ≠ none := by
  unfold fetchFsInfo
  split
  · exact Option.some_ne_none _
  · next hc =>
    rcases h with h | h
    · exact absurd hc h
    · simpa using h

theorem getFsRecycleTimeHour_fst (w : TrashWorld) (fsId : Nat) (answer : Option FsInfo) :
    ∃ m, (w.getFsRecycleTimeHour fsId answer).1 = { w with fsInfoMap := m } := by
  unfold getFsRecycleTimeHour
  split
  · next w' fsInfo hf => exact fetchFsInfo_fst hf
  · exact ⟨w.fsInfoMap, rfl⟩

/-- `NeedDelete` changes nothing but the cache. -/
theorem needDelete_fst (w : TrashWorld) (option : TrashOption) (env : ItemEnv)
    (item : TrashItem) : ∃ m, (w.needDelete option env item).1 = { w with fsInfoMap := m } := by
  unfold needDelete
  split
  · exact ⟨w.fsInfoMap, rfl⟩
  · split
    · exact ⟨w.fsInfoMap, rfl⟩
    · obtain ⟨m, hm⟩ := getFsRecycleTimeHour_fst w item.fsId (env.recycleFsInfo item.fsId)
      dsimp only
      split_ifs <;> exact ⟨m, hm⟩

/-! ### What one deletion does -/

/-- Everything the s3 part of `DeleteInodeAndData` can do: fail, or find no chunk infos, with
only the cache changed; or delete the inode's objects and record it. -/
theorem deleteS3Data_cases (w : TrashWorld) (env : ItemEnv) (item : TrashItem) (inode : Inode) :
    (∃ m, (w.deleteS3Data env item inode).1 = { w with fsInfoMap := m } ∧
      (w.deleteS3Data env item inode).2 ≠ .OK ∧
      ((w.deleteS3Data env item inode).2 = .NOT_FOUND →
        (w.chunkInfo.paddingInodeS3ChunkInfo item.fsId item.inodeId
          inode.s3chunkinfomap).entries = [])) ∨
    ∃ m, w.deleteS3Data env item inode =
      ({ w with fsInfoMap := m, s3Deleted := w.s3Deleted ++ [⟨item.fsId, item.inodeId⟩] }, .OK) := by
  unfold deleteS3Data
  split
  · exact .inl ⟨w.fsInfoMap, rfl, by simp, by simp⟩
  · next w' fsInfo hfetch =>
    obtain ⟨m, rfl⟩ := fetchFsInfo_fst hfetch
    split_ifs with hpad hempty hs3
    · exact .inl ⟨m, rfl, by simp, by simp⟩
    · exact .inl ⟨m, rfl, by simp, fun _ => hempty⟩
    · exact .inl ⟨m, rfl, by simp, by simp⟩
    · exact .inr ⟨m, rfl⟩

/-- Everything `DeleteInodeAndData` can do. It fails, or finds the inode gone or an s3 inode
without chunk infos, with only the cache changed; or it deletes an s3 inode's objects and then
fails to delete the record; or it erases the record, an s3 inode's once its objects are
recorded deleted. -/
theorem deleteInodeAndData_cases (w : TrashWorld) (env : ItemEnv) (item : TrashItem) :
    (∃ m, (w.deleteInodeAndData env item).1 = { w with fsInfoMap := m } ∧
      (w.deleteInodeAndData env item).2 ≠ .OK ∧
      ((w.deleteInodeAndData env item).2 = .NOT_FOUND → w.InodeGoneOrEmptyS3 item)) ∨
    (∃ m, w.deleteInodeAndData env item =
      ({ w with fsInfoMap := m, s3Deleted := w.s3Deleted ++ [⟨item.fsId, item.inodeId⟩] },
        .STORAGE_INTERNAL_ERROR)) ∨
    ∃ m deleted, w.deleteInodeAndData env item =
      ({ w with fsInfoMap := m, inodes := w.inodes.erase ⟨item.fsId, item.inodeId⟩,
                s3Deleted := w.s3Deleted ++ deleted }, .OK) ∧
      ∀ inode, w.inodes.lookup ⟨item.fsId, item.inodeId⟩ = some inode →
        inode.type = .TYPE_S3 → ⟨item.fsId, item.inodeId⟩ ∈ deleted := by
  unfold deleteInodeAndData
  dsimp only
  split
  · exact .inl ⟨w.fsInfoMap, rfl, by simp, by simp⟩
  · cases hl : w.inodes.lookup ⟨item.fsId, item.inodeId⟩ with
    | none =>
      refine .inl ⟨w.fsInfoMap, rfl, by simp, fun _ => ?_⟩
      simp only [InodeGoneOrEmptyS3, hl]
    | some inode =>
      dsimp only
      by_cases hs3 : inode.type = .TYPE_S3
      · rw [if_pos hs3]
        rcases deleteS3Data_cases w env item inode with ⟨m, hw, hret, hempty⟩ | ⟨m, hdel⟩
        · -- the objects stay: the call reports the s3 part's failure or `NOT_FOUND`
          rw [if_pos hret]
          refine .inl ⟨m, hw, hret, fun hnf => ?_⟩
          simp only [InodeGoneOrEmptyS3, hl]
          exact ⟨hs3, hempty hnf⟩
        · rw [hdel]
          dsimp only
          rw [if_neg (by simp)]
          split
          · exact .inr (.inl ⟨m, rfl⟩)
          · exact .inr (.inr ⟨m, _, rfl, fun _ _ _ => List.mem_singleton_self _⟩)
      · -- a record without s3 objects goes with nothing recorded
        rw [if_neg hs3]
        dsimp only
        rw [if_neg (by simp)]
        split
        · exact .inl ⟨w.fsInfoMap, rfl, by simp, by simp⟩
        · refine .inr (.inr ⟨w.fsInfoMap, [], by rw [List.append_nil], ?_⟩)
          intro inode' hi ht
          rw [Option.some.injEq] at hi
          exact absurd (hi ▸ ht) hs3

theorem deleteInodeAndData_frame (w : TrashWorld) (env : ItemEnv) (item : TrashItem) :
    ScanFrame w (w.deleteInodeAndData env item).1 := by
  rcases deleteInodeAndData_cases w env item with ⟨m, hw, -⟩ | ⟨m, hw⟩ | ⟨m, deleted, hw, hdel⟩
  · rw [hw]
    exact ⟨rfl, fun _ => .inl rfl, fun _ h => h⟩
  · rw [hw]
    exact scanFrame_record w m _
  · rw [hw]
    exact scanFrame_erase w m _ deleted hdel

/-- A deletion that reports `OK` or `NOT_FOUND` leaves the inode gone or an empty s3 inode. -/
theorem deleteInodeAndData_inodeGoneOrEmptyS3 (w : TrashWorld) (env : ItemEnv) (item : TrashItem)
    (hret : (w.deleteInodeAndData env item).2 = .NOT_FOUND ∨
      (w.deleteInodeAndData env item).2 = .OK) :
    (w.deleteInodeAndData env item).1.InodeGoneOrEmptyS3 item := by
  rcases deleteInodeAndData_cases w env item with ⟨m, hw, hne, hnf⟩ | ⟨m, hw⟩ | ⟨m, deleted, hw, -⟩
  · -- only the cache changed, and the call reported `NOT_FOUND`
    rw [hw]
    exact hnf (hret.resolve_right hne)
  · rw [hw] at hret
    simp at hret
  · rw [hw]
    simp [InodeGoneOrEmptyS3, AList.lookup_erase]

/-! ### The loop -/

theorem scanItems_frame (option : TrashOption) (env : Nat → ItemEnv) :
    ∀ (items : List TrashItem) (i : Nat) (w : TrashWorld),
      ScanFrame w (scanItems option env i w items).1
  | [], _, w => ScanFrame.refl w
  | item :: items, i, w => by
    simp only [scanItems]
    obtain ⟨m, hm⟩ := needDelete_fst w option (env i) item
    -- `NeedDelete` only caches; what follows is a deletion and the rest of the loop
    have hnd : ScanFrame w (w.needDelete option (env i) item).1 := by
      rw [hm]
      exact ⟨rfl, fun _ => .inl rfl, fun _ h => h⟩
    split
    · exact hnd.trans ((deleteInodeAndData_frame _ (env i) item).trans
        (scanItems_frame option env items _ _))
    · exact hnd.trans (scanItems_frame option env items _ _)

/-- An item leaves the loop's list only with its inode gone or an empty s3 inode. -/
theorem scanItems_dropped (option : TrashOption) (env : Nat → ItemEnv) (item : TrashItem) :
    ∀ (items : List TrashItem) (i : Nat) (w : TrashWorld), item ∈ items →
      item ∉ (scanItems option env i w items).2 →
      (scanItems option env i w items).1.InodeGoneOrEmptyS3 item
  | [], _, _, hin, _ => absurd hin List.not_mem_nil
  | item' :: items, i, w, hin, hout => by
    simp only [scanItems] at hout ⊢
    generalize hnd : w.needDelete option (env i) item' = nd at hout ⊢
    obtain ⟨w₁, due⟩ := nd
    dsimp only at hout ⊢
    split at hout
    · -- the item's turn came: it was dropped iff its deletion reported OK or NOT_FOUND
      rename_i hdue
      rw [if_pos hdue]
      have hframe := scanItems_frame option env items (i + 1)
        (w₁.deleteInodeAndData (env i) item').1
      by_cases hlater : item ∈ items ∧ item ∉ (scanItems option env (i + 1)
          (w₁.deleteInodeAndData (env i) item').1 items).2
      · exact scanItems_dropped option env item items _ _ hlater.1 hlater.2
      · have hitem : item = item' := by
          rcases List.mem_cons.mp hin with h | h
          · exact h
          · split_ifs at hout with hret
            · exact absurd ⟨h, hout⟩ hlater
            · exact absurd ⟨h, fun hk => hout (List.mem_cons_of_mem _ hk)⟩ hlater
        subst hitem
        split_ifs at hout with hret
        · exact hframe.inodeGoneOrEmptyS3
            (deleteInodeAndData_inodeGoneOrEmptyS3 w₁ (env i) item hret)
        · exact absurd List.mem_cons_self hout
    · -- not due: the item is kept, so the dropped one is later in the list
      rename_i hdue
      rw [if_neg hdue]
      have hne : item ≠ item' := fun h => hout (h ▸ List.mem_cons_self)
      exact scanItems_dropped option env item items (i + 1) w₁
        ((List.mem_cons.mp hin).resolve_left hne)
        (fun hk => hout (List.mem_cons_of_mem _ hk))

end TrashWorld

namespace TrashWorld

/-- The inode of `item` is gone from `w'` and, if it was an s3 inode in `w`, its objects were
deleted. -/
def Reclaimed (w w' : TrashWorld) (item : TrashItem) : Prop :=
  w'.inodes.lookup ⟨item.fsId, item.inodeId⟩ = none ∧
    ∀ inode ∈ w.inodes.lookup ⟨item.fsId, item.inodeId⟩, inode.type = .TYPE_S3 →
      ⟨item.fsId, item.inodeId⟩ ∈ w'.s3Deleted

theorem ScanFrame.reclaimed {w w' w'' : TrashWorld} {item : TrashItem}
    (h : ScanFrame w' w'') (hr : Reclaimed w w' item) : Reclaimed w w'' item := by
  refine ⟨?_, fun inode hi ht => h.s3Deleted _ (hr.2 inode hi ht)⟩
  rcases h.inodes ⟨item.fsId, item.inodeId⟩ with e | ⟨n, -⟩
  · exact e.trans hr.1
  · exact n

/-- The cache holds `fsInfo` for `fsId`, if anything. -/
def CachedAs (w : TrashWorld) (fsId : Nat) (fsInfo : FsInfo) : Prop :=
  ∀ c, w.fsInfoMap.lookup fsId = some c → c = fsInfo

/-- A fetch whose answers for `f` are `fsInfo` keeps the cache of `f` at `fsInfo`. -/
theorem CachedAs.fetch {w w' : TrashWorld} {f fsId : Nat} {fsInfo fi : FsInfo}
    {answer : Option FsInfo} (hc : w.CachedAs f fsInfo)
    (hans : fsId = f → ∀ c, answer = some c → c = fsInfo)
    (h : w.fetchFsInfo fsId answer = some (w', fi)) : w'.CachedAs f fsInfo := by
  intro c hlook
  rcases lookup_fetchFsInfo h hlook with hold | ⟨rfl, hnew⟩
  · exact hc c hold
  · exact hans rfl c hnew

/-- With the cache of its file system at `fsInfo` and the MDS answering `fsInfo`, a fetch for
the item's file system gives `fsInfo`. -/
theorem fetchFsInfo_cachedAs {w : TrashWorld} {fsId : Nat} {fsInfo : FsInfo}
    (hc : w.CachedAs fsId fsInfo) :
    ∃ w', w.fetchFsInfo fsId (some fsInfo) = some (w', fsInfo) := by
  cases hf : w.fetchFsInfo fsId (some fsInfo) with
  | none => exact absurd hf (fetchFsInfo_ne_none (.inr (Option.some_ne_none _)))
  | some r =>
    obtain ⟨w', fi⟩ := r
    rcases fetchFsInfo_snd hf with hold | hnew
    · exact ⟨w', by rw [hc fi hold]⟩
    · rw [Option.some.injEq] at hnew
      exact ⟨w', by rw [hnew]⟩

section Reclaim

variable {w : TrashWorld} {option : TrashOption} {env : ItemEnv} {item : TrashItem}
  {fsInfo : FsInfo}

theorem getFsRecycleTimeHour_cachedAs {f fsId : Nat} {answer : Option FsInfo}
    (hc : w.CachedAs f fsInfo) (hans : fsId = f → ∀ c, answer = some c → c = fsInfo) :
    (w.getFsRecycleTimeHour fsId answer).1.CachedAs f fsInfo := by
  unfold getFsRecycleTimeHour
  split
  · next w' fi hf => exact hc.fetch hans hf
  · exact hc

/-- With the cache at `fsInfo` and the MDS answering `fsInfo`, the recycle bin read is
`fsInfo`'s. -/
theorem getFsRecycleTimeHour_of_cachedAs {fsId : Nat} (hc : w.CachedAs fsId fsInfo) :
    (w.getFsRecycleTimeHour fsId (some fsInfo)).2 = fsInfo.recycleTimeHour := by
  obtain ⟨w', hf⟩ := fetchFsInfo_cachedAs hc
  unfold getFsRecycleTimeHour
  rw [hf]

/-- `NeedDelete` keeps the cache of `f` at `fsInfo` when its answer for `f` is `fsInfo`. -/
theorem needDelete_cachedAs {f : Nat} (hc : w.CachedAs f fsInfo)
    (hans : item.fsId = f → ∀ c, env.recycleFsInfo item.fsId = some c → c = fsInfo) :
    (w.needDelete option env item).1.CachedAs f fsInfo := by
  unfold needDelete
  split
  · exact hc
  · split
    · exact hc
    · have hr := getFsRecycleTimeHour_cachedAs hc hans
      dsimp only
      split_ifs <;> exact hr

theorem deleteS3Data_cachedAs {f : Nat} {inode : Inode} (hc : w.CachedAs f fsInfo)
    (hans : item.fsId = f → ∀ c, env.deleteFsInfo item.fsId = some c → c = fsInfo) :
    (w.deleteS3Data env item inode).1.CachedAs f fsInfo := by
  unfold deleteS3Data
  split
  · exact hc
  · next w' fi hf =>
    have hw' := hc.fetch hans hf
    split_ifs <;> exact hw'

/-- `DeleteInodeAndData` keeps the cache of `f` at `fsInfo` when its answer for `f` is
`fsInfo`. -/
theorem deleteInodeAndData_cachedAs {f : Nat} (hc : w.CachedAs f fsInfo)
    (hans : item.fsId = f → ∀ c, env.deleteFsInfo item.fsId = some c → c = fsInfo) :
    (w.deleteInodeAndData env item).1.CachedAs f fsInfo := by
  unfold deleteInodeAndData
  dsimp only
  split
  · exact hc
  · split
    · exact hc
    · split_ifs <;> first | exact deleteS3Data_cachedAs hc hans | exact hc

/-- An item whose file system keeps a recycle bin, or whose time has passed, is due when its
inode can be read; `NeedDelete` keeps the cache of its file system at `fsInfo`. -/
theorem needDelete_of_due (hc : w.CachedAs item.fsId fsInfo) (hget : env.needDeleteGetOk = true)
    (hans : env.recycleFsInfo item.fsId = some fsInfo)
    (hdue : fsInfo.recycleTimeHour ≠ 0 ∨ option.expiredAfterSec ≤ sub32 env.now item.dtime) :
    (w.needDelete option env item).2 = true ∧
      (w.needDelete option env item).1.CachedAs item.fsId fsInfo := by
  have hc' : (w.needDelete option env item).1.CachedAs item.fsId fsInfo :=
    needDelete_cachedAs hc (fun _ c h => by rw [hans, Option.some.injEq] at h; exact h.symm)
  refine ⟨?_, hc'⟩
  unfold needDelete
  rw [hget, hans]
  simp only [Bool.not_true, Bool.false_eq_true, if_false]
  split
  · rfl
  · have hhour := getFsRecycleTimeHour_of_cachedAs (w := w) hc
    split_ifs with h0
    · -- no recycle bin: the time has passed
      exact decide_eq_true (hdue.resolve_left (by omega))
    · rfl

/-- With every call succeeding and the file system's info at hand, deleting an item whose inode
had data in `w₀`, from a world a scan has made of `w₀`, reclaims it. -/
theorem deleteInodeAndData_reclaimed {w₀ : TrashWorld} (h₀ : ScanFrame w₀ w)
    (hc : w.CachedAs item.fsId fsInfo) (hok : env.CallsSucceed)
    (hans : env.deleteFsInfo item.fsId = some fsInfo)
    (hdata : ∀ inode ∈ w₀.inodes.lookup ⟨item.fsId, item.inodeId⟩, inode.type = .TYPE_S3 →
      (w₀.chunkInfo.paddingInodeS3ChunkInfo item.fsId item.inodeId inode.s3chunkinfomap).entries
        ≠ []) :
    Reclaimed w₀ (w.deleteInodeAndData env item).1 item := by
  unfold deleteInodeAndData
  rw [hok.deleteGet]
  dsimp only [Bool.not_true, Bool.false_eq_true, if_false]
  rcases h₀.inodes ⟨item.fsId, item.inodeId⟩ with e | ⟨n, d⟩
  · -- the record is as it was in `w₀`
    cases hl : w₀.inodes.lookup ⟨item.fsId, item.inodeId⟩ with
    | none =>
      rw [e, hl]
      exact ⟨e.trans hl, fun inode hi => by simp [hl] at hi⟩
    | some inode =>
      rw [e, hl]
      dsimp only
      by_cases hs3 : inode.type = .TYPE_S3
      · -- the s3 part finds the info and the chunk infos and deletes the objects
        have hne := hdata inode (by simp [hl]) hs3
        rw [← h₀.chunkInfo] at hne
        obtain ⟨w', hf⟩ := fetchFsInfo_cachedAs hc
        obtain ⟨m, rfl⟩ := fetchFsInfo_fst hf
        have hs3data : w.deleteS3Data env item inode =
            ({ w with fsInfoMap := m, s3Deleted := w.s3Deleted ++ [⟨item.fsId, item.inodeId⟩] },
              .OK) := by
          unfold deleteS3Data
          rw [hans, hf]
          simp only [hok.padding, hok.s3Delete, Bool.not_true, Bool.false_eq_true, if_false,
            if_neg hne]
        rw [if_pos hs3, hs3data]
        dsimp only
        rw [if_neg (by simp), hok.delete]
        exact ⟨AList.lookup_erase _ _, fun _ _ _ => List.mem_append_right _ List.mem_cons_self⟩
      · rw [if_neg hs3]
        dsimp only
        rw [if_neg (by simp), hok.delete]
        refine ⟨AList.lookup_erase _ _, fun inode' hi ht => ?_⟩
        rw [hl, Option.mem_def, Option.some.injEq] at hi
        exact absurd (hi ▸ ht) hs3
  · -- an earlier item of the same inode already reclaimed it
    rw [n]
    exact ⟨n, fun inode hi ht => d inode hi ht⟩

end Reclaim

/-- The item at place `i` of the loop, due, with its calls succeeding and its file system's info
`fsInfo` at hand wherever the scan asks for it, is reclaimed; the cache of its file system stays
at `fsInfo` through the items before it. -/
theorem scanItems_reclaims (option : TrashOption) (env : Nat → ItemEnv)
    (mds : Nat → Option FsInfo) (hmds : ∀ j, (env j).recycleFsInfo = mds ∧ (env j).deleteFsInfo = mds)
    (item : TrashItem) (fsInfo : FsInfo) (hfs : mds item.fsId = some fsInfo) (i : Nat)
    (hok : (env i).CallsSucceed)
    (hdue : fsInfo.recycleTimeHour ≠ 0 ∨ option.expiredAfterSec ≤ sub32 (env i).now item.dtime)
    (w₀ : TrashWorld)
    (hdata : ∀ inode ∈ w₀.inodes.lookup ⟨item.fsId, item.inodeId⟩, inode.type = .TYPE_S3 →
      (w₀.chunkInfo.paddingInodeS3ChunkInfo item.fsId item.inodeId inode.s3chunkinfomap).entries
        ≠ []) :
    ∀ (items : List TrashItem) (k : Nat) (w : TrashWorld), ScanFrame w₀ w →
      w.CachedAs item.fsId fsInfo → k ≤ i → items[i - k]? = some item →
      Reclaimed w₀ (scanItems option env k w items).1 item
  | [], _, _, _, _, _, hin => by simp at hin
  | item' :: items, k, w, h₀, hc, hk, hin => by
    simp only [scanItems]
    -- every fetch of the scan answers for the item's file system with `fsInfo`
    have hans : ∀ j c, (env j).recycleFsInfo item.fsId = some c → c = fsInfo := fun j c h => by
      rw [(hmds j).1, hfs, Option.some.injEq] at h
      exact h.symm
    by_cases hki : k = i
    · -- the item's turn: it is due, and its deletion reclaims it
      subst hki
      rw [Nat.sub_self, List.getElem?_cons_zero, Option.some.injEq] at hin
      subst hin
      have hrec : (env k).recycleFsInfo item'.fsId = some fsInfo := by rw [(hmds k).1, hfs]
      have hdel : (env k).deleteFsInfo item'.fsId = some fsInfo := by rw [(hmds k).2, hfs]
      obtain ⟨hdue', hc'⟩ := needDelete_of_due hc hok.needDeleteGet hrec hdue
      obtain ⟨m, hm⟩ := needDelete_fst w option (env k) item'
      have h₁ : ScanFrame w₀ (w.needDelete option (env k) item').1 := by
        rw [hm]
        exact h₀.trans ⟨rfl, fun _ => .inl rfl, fun _ h => h⟩
      rw [hdue', if_pos rfl]
      exact (scanItems_frame option env items _ _).reclaimed
        (deleteInodeAndData_reclaimed h₁ hc' hok hdel hdata)
    · -- an earlier item: the scan goes on with the cache of the item's file system intact
      have hlt : k < i := lt_of_le_of_ne hk hki
      have hin' : items[i - (k + 1)]? = some item := by
        rw [show i - k = (i - (k + 1)) + 1 by omega, List.getElem?_cons_succ] at hin
        exact hin
      obtain ⟨m, hm⟩ := needDelete_fst w option (env k) item'
      have h₁ : ScanFrame w₀ (w.needDelete option (env k) item').1 := by
        rw [hm]
        exact h₀.trans ⟨rfl, fun _ => .inl rfl, fun _ h => h⟩
      have hc₁ : (w.needDelete option (env k) item').1.CachedAs item.fsId fsInfo :=
        needDelete_cachedAs hc (fun heq c h => hans k c (heq ▸ h))
      split
      · exact scanItems_reclaims option env mds hmds item fsInfo hfs i hok hdue w₀ hdata items
          (k + 1) _ (h₁.trans (deleteInodeAndData_frame _ (env k) item'))
          (deleteInodeAndData_cachedAs hc₁ (fun heq c h => by
            rw [(hmds k).2, heq, hfs, Option.some.injEq] at h
            exact h.symm)) hlt hin'
      · exact scanItems_reclaims option env mds hmds item fsInfo hfs i hok hdue w₀ hdata items
          (k + 1) _ h₁ hc₁ hlt hin'

end TrashWorld

/-! ## Unlinked inodes that no scan reclaims -/

/-- The shipped trash option: items expire after a week. -/
def trashOption : TrashOption := ⟨604800⟩

/-- A scan at clock `now` in which every call succeeds and the MDS reports no recycle bin. -/
def succeedingScan (now : Nat) : TrashEvent :=
  .scanTrash fun _ => ItemEnv.succeeding now ⟨0⟩

/-- An s3 file created and unlinked without ever being written, then a scan a week later. -/
def emptyS3Run : List TrashEvent :=
  [.createInode 1 1 .TYPE_S3,
   .updateInodeNlink 1 1 0 100,
   succeedingScan (100 + 604800)]

/-- An s3 file written once and unlinked. -/
def writtenUnlinkRun : List TrashEvent :=
  [.createInode 1 1 .TYPE_S3,
   .modifyS3ChunkInfo .rocksdb (fun _ _ => true) 1 1 (AList.singleton 0 [dataInfo 10 0 1]) ∅,
   .updateInodeNlink 1 1 0 100]

/-- The same, then a restart from a snapshot in the current dump format. -/
def v3RestartRun : List TrashEvent := writtenUnlinkRun ++ [.restart 3]

theorem trash_loses_unlinked_inode :
    ((TrashWorld.empty.run trashOption emptyS3Run).inodes.lookup ⟨1, 1⟩).map (·.nlink) =
        some 0 ∧
      (TrashWorld.empty.run trashOption emptyS3Run).trashItems = [] ∧
      ((TrashWorld.empty.run trashOption v3RestartRun).inodes.lookup ⟨1, 1⟩).map (·.nlink) =
        some 0 ∧
      (TrashWorld.empty.run trashOption v3RestartRun).trashItems = [] ∧
      ∀ es : List TrashEvent, (∀ e ∈ es, e.isScanTrash = true) →
        (TrashWorld.empty.run trashOption emptyS3Run).run trashOption es =
            TrashWorld.empty.run trashOption emptyS3Run ∧
          (TrashWorld.empty.run trashOption v3RestartRun).run trashOption es =
            TrashWorld.empty.run trashOption v3RestartRun := by
  have hempty : (TrashWorld.empty.run trashOption emptyS3Run).trashItems = [] := by decide
  have hv3 : (TrashWorld.empty.run trashOption v3RestartRun).trashItems = [] := by decide
  refine ⟨by decide, hempty, by decide, hv3, fun es hs => ⟨?_, ?_⟩⟩
  · exact TrashWorld.run_scans_of_trashItems_nil hempty es hs
  · exact TrashWorld.run_scans_of_trashItems_nil hv3 es hs

/-! ## What a scan reclaims -/

/-- `ScanTrash` drops an item from the trash list only when, after the scan, the item's inode
record is gone or is an s3 inode without chunk infos, whatever the clock and the calls answer. -/
theorem scanTrash_drops_only_gone_or_empty (w : TrashWorld) (option : TrashOption)
    (env : Nat → ItemEnv) (item : TrashItem) (hin : item ∈ w.trashItems)
    (hout : item ∉ (w.scanTrash option env).trashItems) :
    (w.scanTrash option env).InodeGoneOrEmptyS3 item := by
  have h := TrashWorld.scanItems_dropped option env item w.trashItems 0 w hin hout
  unfold TrashWorld.InodeGoneOrEmptyS3 at h ⊢
  exact h

theorem scanTrash_drops_unwritten_file :
    ((TrashWorld.empty.run trashOption (emptyS3Run.take 2)).scanTrash trashOption
      (fun _ => ItemEnv.succeeding (100 + 604800) ⟨0⟩)).InodeGoneOrEmptyS3 ⟨1, 1, 100⟩ :=
  scanTrash_drops_only_gone_or_empty _ trashOption _ ⟨1, 1, 100⟩ (by decide) (by decide)

/-- In a scan whose `GetFsInfo` calls all answer with the MDS's infos `mds`, the trash item at
place `i` is reclaimed when its calls succeed, its file system's info `fsInfo` is the MDS's and
the cache holds no other, the item is due (the file system keeps a recycle bin, or
`expiredAfterSec` have passed since `dtime` at the clock of its turn), and its inode is not an s3
inode without chunk infos: afterwards its inode record is gone, and if it was an s3 inode its
objects were deleted (before the record, as `s3Deleted` records). -/
theorem scanTrash_reclaims (w : TrashWorld) (option : TrashOption) (env : Nat → ItemEnv)
    (mds : Nat → Option FsInfo) (i : Nat) (item : TrashItem) (fsInfo : FsInfo)
    (hin : w.trashItems[i]? = some item)
    (hmds : ∀ j, (env j).recycleFsInfo = mds ∧ (env j).deleteFsInfo = mds)
    (hfs : mds item.fsId = some fsInfo) (hcached : w.CachedAs item.fsId fsInfo)
    (hok : (env i).CallsSucceed)
    (hdue : fsInfo.recycleTimeHour ≠ 0 ∨ option.expiredAfterSec ≤ sub32 (env i).now item.dtime)
    (hdata : ∀ inode ∈ w.inodes.lookup ⟨item.fsId, item.inodeId⟩, inode.type = .TYPE_S3 →
      (w.chunkInfo.paddingInodeS3ChunkInfo item.fsId item.inodeId inode.s3chunkinfomap).entries
        ≠ []) :
    TrashWorld.Reclaimed w (w.scanTrash option env) item := by
  have h := TrashWorld.scanItems_reclaims option env mds hmds item fsInfo hfs i hok hdue w hdata
    w.trashItems 0 w (TrashWorld.ScanFrame.refl w) hcached (Nat.zero_le i)
    (by rw [Nat.sub_zero]; exact hin)
  exact h

theorem scanTrash_reclaims_written_file :
    TrashWorld.Reclaimed (TrashWorld.empty.run trashOption writtenUnlinkRun)
      ((TrashWorld.empty.run trashOption writtenUnlinkRun).scanTrash trashOption
        (fun _ => ItemEnv.succeeding (100 + 604800) ⟨0⟩)) ⟨1, 1, 100⟩ :=
  scanTrash_reclaims _ trashOption _ (fun _ => some ⟨0⟩) 0 ⟨1, 1, 100⟩ ⟨0⟩ (by decide)
    (fun _ => ⟨rfl, rfl⟩) rfl
    (fun c h => by
      rw [(by decide : (TrashWorld.empty.run trashOption writtenUnlinkRun).fsInfoMap.lookup 1 =
        none)] at h
      cases h)
    ⟨rfl, rfl, rfl, rfl, rfl⟩
    (.inr (by decide)) (by decide)

end DingoFs.Metaserver
