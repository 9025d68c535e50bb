import DingoFs.Lib.Word
import Mathlib

/-!
# Partition inode ranges of the MDS topology

A file system's inodes are spread over partitions; the `index`-th partition created for a
file system owns the inode ids `[index * idNumberInPartition, (index + 1) *
idNumberInPartition - 1]`. The index comes from `ClusterInformation`, which counts the
partitions ever created for each file system. `TopologyManager::CreatePartitionOnCopyset`
reads it, and `TopologyImpl::AddPartition` stores the partition and then increments the count
in memory and stores it with a second, separate write. A restart rebuilds the topology with
`TopologyImpl::Init`, which repairs each count to at least the number of live partitions.

The model is the world of the MDS's memory and its etcd storage, driven by events: creating a
partition (with the outcome of the metaserver call and of both storage writes), removing one,
and restarting. `persisted` is ghost state: every partition ever written to storage.
-/

namespace DingoFs.Mds.Topology

open DingoFs.Lib

/-- The `TopoStatusCode`s of the modelled paths. -/
inductive TopoStatusCode
  | TOPO_OK
  | TOPO_ID_DUPLICATED
  | TOPO_PARTITION_NOT_FOUND
  | TOPO_STORGE_FAIL
  | TOPO_ALLOCATE_ID_FAIL
  | TOPO_CREATE_PARTITION_FAIL
  | TOPO_SERVER_NOT_FOUND
  | TOPO_METASERVER_NOT_FOUND
deriving DecidableEq, Repr

/-- `UNINITIALIZE_ID`, which an exhausted id generator returns. -/
def UNINITIALIZE_ID : Nat := 0

/-- A partition record, with the fields that locate it and the inode range it owns. -/
structure Partition where
  fsId : Nat
  poolId : Nat
  copysetId : Nat
  partitionId : Nat
  idStart : Nat
  idEnd : Nat
deriving DecidableEq, Repr

/-- `ClusterInformation::partitionIndexs`: per file system, the number of partitions created
for it; a `std::map` read with `operator[]`, so a file system not in it reads as 0. -/
structure ClusterInformation where
  partitionIndexs : Nat → Nat

namespace ClusterInformation

/-- A cluster without partitions, as `LoadClusterInfo` creates it on an empty storage. -/
def empty : ClusterInformation := ⟨fun _ => 0⟩

def getPartitionIndexOfFS (c : ClusterInformation) (fsId : Nat) : Nat :=
  c.partitionIndexs fsId

/-- Raises the count of `fsId` to `number` when that is larger. -/
def updatePartitionIndexOfFs (c : ClusterInformation) (fsId number : Nat) : ClusterInformation :=
  if number > c.partitionIndexs fsId then ⟨Function.update c.partitionIndexs fsId number⟩ else c

/-- `partitionIndexs[fsId]++` on a `uint32_t`. -/
def addPartitionIndexOfFs (c : ClusterInformation) (fsId : Nat) : ClusterInformation :=
  ⟨Function.update c.partitionIndexs fsId ((c.partitionIndexs fsId + 1) % 2 ^ 32)⟩

end ClusterInformation

/-- What etcd holds of the topology: the partition records and the cluster information. -/
structure TopologyStorage where
  partitions : AList (fun _ : Nat => Partition)
  clusterInfo : Option ClusterInformation

/-- The MDS's topology with its storage. `partitionIdMax` is the partition id generator;
`persisted` is ghost state, every partition `StoragePartition` ever wrote. -/
structure TopologyWorld where
  clusterInfo : ClusterInformation
  partitionMap : AList (fun _ : Nat => Partition)
  partitionIdMax : Nat
  storage : TopologyStorage
  persisted : List Partition

/-- The first inode id of the `index`-th partition of a file system:
`index * idNumberInPartition` as a `uint64_t`. -/
def idStartOfIndex (idNumberInPartition index : Nat) : Nat :=
  index * idNumberInPartition % 2 ^ 64

/-- The last inode id of the `index`-th partition, `(index + 1) * idNumberInPartition - 1`:
`index` is a `uint32_t`, so `index + 1` wraps before it is widened to `uint64_t`. -/
def idEndOfIndex (idNumberInPartition index : Nat) : Nat :=
  sub64 ((index + 1) % 2 ^ 32 * idNumberInPartition % 2 ^ 64) 1

namespace TopologyWorld

/-- `TopologyImpl::AddPartition` of a partition whose pool and copyset exist, with the
outcomes of its two storage writes: the partition record, then the cluster information. -/
def addPartition (w : TopologyWorld) (data : Partition)
    (storagePartitionOk storageClusterInfoOk : Bool) : TopologyWorld × TopoStatusCode :=
  if data.partitionId ∈ w.partitionMap.keys then (w, .TOPO_ID_DUPLICATED)
  else if !storagePartitionOk then (w, .TOPO_STORGE_FAIL)
  else
    -- the count is incremented in memory whether or not the second write succeeds
    let clusterInfo := w.clusterInfo.addPartitionIndexOfFs data.fsId
    let w' : TopologyWorld :=
      { clusterInfo := clusterInfo
        partitionMap := w.partitionMap.insert data.partitionId data
        partitionIdMax := w.partitionIdMax
        storage :=
          { partitions := w.storage.partitions.insert data.partitionId data
            clusterInfo :=
              if storageClusterInfoOk then some clusterInfo else w.storage.clusterInfo }
        persisted := w.persisted ++ [data] }
    (w', if storageClusterInfoOk then .TOPO_OK else .TOPO_STORGE_FAIL)

/-- `TopologyManager::CreatePartitionOnCopyset` on copyset `copysetId` of pool `poolId`:
the range from the file system's count, a fresh partition id, the metaserver's
`CreatePartition` (`createOk`), then `AddPartition`. -/
def createPartitionOnCopyset (w : TopologyWorld) (idNumberInPartition : Nat)
    (fsId poolId copysetId : Nat) (createOk storagePartitionOk storageClusterInfoOk : Bool) :
    TopologyWorld × TopoStatusCode :=
  let index := w.clusterInfo.getPartitionIndexOfFS fsId
  let idStart := idStartOfIndex idNumberInPartition index
  let idEnd := idEndOfIndex idNumberInPartition index
  let partitionId := (w.partitionIdMax + 1) % 2 ^ 32
  let w := { w with partitionIdMax := partitionId }
  if partitionId = UNINITIALIZE_ID then (w, .TOPO_ALLOCATE_ID_FAIL)
  else if !createOk then (w, .TOPO_CREATE_PARTITION_FAIL)
  else
    w.addPartition ⟨fsId, poolId, copysetId, partitionId, idStart, idEnd⟩
      storagePartitionOk storageClusterInfoOk

/-- `TopologyImpl::RemovePartition`, with the outcome of `DeletePartition` in storage. -/
def removePartition (w : TopologyWorld) (id : Nat) (deleteOk : Bool) :
    TopologyWorld × TopoStatusCode :=
  match w.partitionMap.lookup id with
  | none => (w, .TOPO_PARTITION_NOT_FOUND)
  | some _ =>
    if !deleteOk then (w, .TOPO_STORGE_FAIL)
    else
      ({ w with
          partitionMap := w.partitionMap.erase id
          storage := { w.storage with partitions := w.storage.partitions.erase id } },
        .TOPO_OK)

end TopologyWorld

/-- The number of partitions of `fsId` in a partition map. -/
def partitionNumOfFs (partitionMap : AList (fun _ : Nat => Partition)) (fsId : Nat) : Nat :=
  (partitionMap.entries.filter (fun item => item.2.fsId = fsId)).length

/-- `TopologyImpl::RefreshPartitionIndexOfFS`: each file system's count is raised to the
number of its live partitions. A file system without partitions is not in the counting map
and keeps its count, as raising it to 0 would. -/
def refreshPartitionIndexOfFS (c : ClusterInformation)
    (partitionMap : AList (fun _ : Nat => Partition)) : ClusterInformation :=
  ⟨fun fsId => (c.updatePartitionIndexOfFs fsId (partitionNumOfFs partitionMap fsId)).partitionIndexs
    fsId⟩

/-- The largest id of the loaded partitions, 0 for none (`LoadPartition`'s `maxPartitionId`). -/
def maxPartitionId (partitions : AList (fun _ : Nat => Partition)) : Nat :=
  partitions.keys.foldl max 0

namespace TopologyStorage

/-- `TopologyImpl::Init` on what storage holds: `LoadClusterInfo` (a new empty cluster
information when none is stored), `LoadPartition`, the partition id generator from the
largest loaded id, and `RefreshPartitionIndexOfFS`, whose result is stored. The ghost history
survives the restart. -/
def init (st : TopologyStorage) (persisted : List Partition) : TopologyWorld :=
  let clusterInfo := refreshPartitionIndexOfFS (st.clusterInfo.getD .empty) st.partitions
  { clusterInfo := clusterInfo
    partitionMap := st.partitions
    partitionIdMax := maxPartitionId st.partitions
    storage := { st with clusterInfo := some clusterInfo }
    persisted := persisted }

end TopologyStorage

/-- The events of the topology's life: partition creation on a copyset, with the outcomes of
the metaserver call and of the two storage writes; removal, with the outcome of the storage
delete; and a restart. -/
inductive TopologyEvent
  | createPartition (fsId poolId copysetId : Nat)
      (createOk storagePartitionOk storageClusterInfoOk : Bool)
  | removePartition (id : Nat) (deleteOk : Bool)
  | restart

namespace TopologyWorld

def step (idNumberInPartition : Nat) (w : TopologyWorld) : TopologyEvent → TopologyWorld
  | .createPartition fsId poolId copysetId createOk storagePartitionOk storageClusterInfoOk =>
    (w.createPartitionOnCopyset idNumberInPartition fsId poolId copysetId createOk
      storagePartitionOk storageClusterInfoOk).1
  | .removePartition id deleteOk => (w.removePartition id deleteOk).1
  | .restart => w.storage.init w.persisted

def run (idNumberInPartition : Nat) (w : TopologyWorld) (es : List TopologyEvent) :
    TopologyWorld :=
  es.foldl (step idNumberInPartition) w

/-- A fresh cluster: `Init` on an empty etcd. -/
def init : TopologyWorld := TopologyStorage.init ⟨∅, none⟩ []

end TopologyWorld

/-- The inode ids of a partition. -/
def Partition.range (p : Partition) : Set Nat := Set.Icc p.idStart p.idEnd

/-- The partitions of file system `fsId` in a list. -/
def partitionsOfFs (fsId : Nat) (ps : List Partition) : List Partition :=
  ps.filter (fun p => p.fsId = fsId)

/-- The ranges of a file system's partitions in a list are pairwise disjoint. -/
def RangesDisjointOfFs (fsId : Nat) (ps : List Partition) : Prop :=
  (partitionsOfFs fsId ps).Pairwise (fun p q => Disjoint p.range q.range)

/-! ## A lost count write lets a later partition take a live partition's range -/

/-- Two partitions of file system 1 whose count writes fail, the first of them removed, a
restart, and one more partition. -/
def rangeReuseRun : List TopologyEvent :=
  [.createPartition 1 1 1 true true false,
   .createPartition 1 1 1 true true false,
   .removePartition 1 true,
   .restart,
   .createPartition 1 1 1 true true true]

theorem createPartitionOnCopyset_overlaps :
    (TopologyWorld.init.run 1048576 rangeReuseRun).partitionMap.entries.map (·.2) =
        [⟨1, 1, 1, 3, 1048576, 2097151⟩, ⟨1, 1, 1, 2, 1048576, 2097151⟩] ∧
      (TopologyWorld.init.run 1048576 rangeReuseRun).storage.partitions.entries.map (·.2) =
        [⟨1, 1, 1, 3, 1048576, 2097151⟩, ⟨1, 1, 1, 2, 1048576, 2097151⟩] ∧
      ¬ RangesDisjointOfFs 1
        ((TopologyWorld.init.run 1048576 rangeReuseRun).partitionMap.entries.map (·.2)) := by
  have hmap : (TopologyWorld.init.run 1048576 rangeReuseRun).partitionMap.entries.map (·.2) =
      [⟨1, 1, 1, 3, 1048576, 2097151⟩, ⟨1, 1, 1, 2, 1048576, 2097151⟩] := by decide
  have hstored :
      (TopologyWorld.init.run 1048576 rangeReuseRun).storage.partitions.entries.map (·.2) =
        [⟨1, 1, 1, 3, 1048576, 2097151⟩, ⟨1, 1, 1, 2, 1048576, 2097151⟩] := by decide
  refine ⟨hmap, hstored, ?_⟩
  rw [hmap]
  intro hd
  -- partitions 3 and 2 both own inode 1048576
  have h32 : Disjoint (Set.Icc 1048576 2097151 : Set Nat) (Set.Icc 1048576 2097151) := by
    simp only [RangesDisjointOfFs, partitionsOfFs, List.filter_cons, decide_true, if_true, List.filter_nil,
      List.pairwise_cons, List.mem_singleton, forall_eq, List.not_mem_nil, IsEmpty.forall_iff,
      implies_true, List.Pairwise.nil, and_true] at hd
    exact hd
  have hmem : (1048576 : Nat) ∈ (Set.Icc 1048576 2097151 : Set Nat) := by simp
  exact Set.disjoint_left.mp h32 hmem hmem

/-! ## With every count write stored, ranges never meet

`CountInv` is the invariant of a topology whose cluster-information writes all succeeded:
memory and storage agree, every live partition was persisted, each file system's count is the
number of partitions ever persisted for it, and the `k`-th of them owns the `k`-th range.
Each event keeps it (`CountInv.step`), so every run from a fresh cluster does, and distinct
indices give disjoint ranges as long as no index or range wraps. -/

namespace ClusterInformation

@[simp] theorem addPartitionIndexOfFs_apply (c : ClusterInformation) (fsId fsId' : Nat) :
    (c.addPartitionIndexOfFs fsId).partitionIndexs fsId' =
      if fsId' = fsId then (c.partitionIndexs fsId + 1) % 2 ^ 32 else c.partitionIndexs fsId' := by
  simp [addPartitionIndexOfFs, Function.update_apply]

@[simp] theorem updatePartitionIndexOfFs_self (c : ClusterInformation) (fsId number : Nat) :
    (c.updatePartitionIndexOfFs fsId number).partitionIndexs fsId =
      max (c.partitionIndexs fsId) number := by
  unfold updatePartitionIndexOfFs
  split_ifs with h
  · simp only [Function.update_self]
    omega
  · omega

end ClusterInformation

/-- A refresh changes no count that already covers the live partitions. -/
theorem refreshPartitionIndexOfFS_of_le {c : ClusterInformation}
    {partitionMap : AList (fun _ : Nat => Partition)}
    (h : ∀ fsId, partitionNumOfFs partitionMap fsId ≤ c.partitionIndexs fsId) :
    (refreshPartitionIndexOfFS c partitionMap).partitionIndexs = c.partitionIndexs := by
  funext fsId
  simp only [refreshPartitionIndexOfFS, ClusterInformation.updatePartitionIndexOfFs_self]
  exact max_eq_left (h fsId)

theorem partitionsOfFs_append_singleton (fsId : Nat) (ps : List Partition) (p : Partition) :
    partitionsOfFs fsId (ps ++ [p]) =
      partitionsOfFs fsId ps ++ if p.fsId = fsId then [p] else [] := by
  simp only [partitionsOfFs, List.filter_append, List.filter_singleton]
  split_ifs with hp <;> simp [hp]

namespace TopologyWorld

/-- Everything one partition creation can do: nothing but advance the id generator, or
persist one new partition of `fsId` under a fresh id, with the range of the file system's
current count, and increment that count. -/
theorem createPartitionOnCopyset_cases (w : TopologyWorld) (idNumberInPartition : Nat)
    (fsId poolId copysetId : Nat) (createOk storagePartitionOk storageClusterInfoOk : Bool) :
    let w' := (w.createPartitionOnCopyset idNumberInPartition fsId poolId copysetId createOk
      storagePartitionOk storageClusterInfoOk).1
    (w'.clusterInfo = w.clusterInfo ∧ w'.partitionMap = w.partitionMap ∧
        w'.storage = w.storage ∧ w'.persisted = w.persisted) ∨
      ∃ data : Partition, data.fsId = fsId ∧ data.partitionId ∉ w.partitionMap.keys ∧
        data.idStart = idStartOfIndex idNumberInPartition (w.clusterInfo.partitionIndexs fsId) ∧
        data.idEnd = idEndOfIndex idNumberInPartition (w.clusterInfo.partitionIndexs fsId) ∧
        w'.clusterInfo = w.clusterInfo.addPartitionIndexOfFs fsId ∧
        w'.partitionMap = w.partitionMap.insert data.partitionId data ∧
        w'.storage =
          { partitions := w.storage.partitions.insert data.partitionId data
            clusterInfo := if storageClusterInfoOk then
              some (w.clusterInfo.addPartitionIndexOfFs fsId) else w.storage.clusterInfo } ∧
        w'.persisted = w.persisted ++ [data] := by
  intro w'
  simp only [w', createPartitionOnCopyset, addPartition]
  -- the id allocation, the metaserver call, a duplicate id and the partition write can each
  -- stop the creation before anything is stored
  by_cases hid : (w.partitionIdMax + 1) % 2 ^ 32 = UNINITIALIZE_ID
  · rw [if_pos hid]
    exact .inl ⟨rfl, rfl, rfl, rfl⟩
  rw [if_neg hid]
  by_cases hcreate : (!createOk) = true
  · rw [if_pos hcreate]
    exact .inl ⟨rfl, rfl, rfl, rfl⟩
  rw [if_neg hcreate]
  by_cases hdup : (w.partitionIdMax + 1) % 2 ^ 32 ∈ w.partitionMap.keys
  · rw [if_pos hdup]
    exact .inl ⟨rfl, rfl, rfl, rfl⟩
  rw [if_neg hdup]
  by_cases hstore : (!storagePartitionOk) = true
  · rw [if_pos hstore]
    exact .inl ⟨rfl, rfl, rfl, rfl⟩
  rw [if_neg hstore]
  exact .inr ⟨⟨fsId, poolId, copysetId, (w.partitionIdMax + 1) % 2 ^ 32,
    idStartOfIndex idNumberInPartition (w.clusterInfo.partitionIndexs fsId),
    idEndOfIndex idNumberInPartition (w.clusterInfo.partitionIndexs fsId)⟩,
    rfl, hdup, rfl, rfl, rfl, rfl, rfl, rfl⟩

end TopologyWorld

/-- The invariant of a topology whose cluster-information writes all succeeded. -/
structure CountInv (idNumberInPartition : Nat) (w : TopologyWorld) : Prop where
  stored : w.storage.clusterInfo = some w.clusterInfo
  live : w.storage.partitions = w.partitionMap
  key_eq : ∀ e ∈ w.partitionMap.entries, e.1 = e.2.partitionId
  live_persisted : ∀ e ∈ w.partitionMap.entries, e.2 ∈ w.persisted
  count : ∀ fsId, w.clusterInfo.partitionIndexs fsId = (partitionsOfFs fsId w.persisted).length
  range : ∀ fsId k p, (partitionsOfFs fsId w.persisted)[k]? = some p →
    p.idStart = idStartOfIndex idNumberInPartition k ∧
      p.idEnd = idEndOfIndex idNumberInPartition k

namespace CountInv

variable {idNumberInPartition : Nat} {w : TopologyWorld}

theorem init : CountInv idNumberInPartition TopologyWorld.init where
  stored := rfl
  live := rfl
  key_eq := by simp [TopologyWorld.init, TopologyStorage.init, AList.empty_entries]
  live_persisted := by simp [TopologyWorld.init, TopologyStorage.init, AList.empty_entries]
  count := by
    intro fsId
    simp [TopologyWorld.init, TopologyStorage.init, refreshPartitionIndexOfFS,
      ClusterInformation.empty, partitionNumOfFs, AList.empty_entries, partitionsOfFs]
  range := by simp [TopologyWorld.init, TopologyStorage.init, partitionsOfFs]

/-- The live partitions of a file system are distinct partitions that were all persisted. -/
theorem live_subperm (h : CountInv idNumberInPartition w) (fsId : Nat) :
    (partitionsOfFs fsId (w.partitionMap.entries.map (·.2))).Subperm
      (partitionsOfFs fsId w.persisted) := by
  -- distinct keys are the partitions' own ids, so the partitions are distinct
  have hnodup : (w.partitionMap.entries.map (·.2)).Nodup := by
    apply List.Nodup.of_map Partition.partitionId
    have hkeys : (w.partitionMap.entries.map (·.2)).map Partition.partitionId =
        w.partitionMap.keys := by
      simp only [List.map_map, AList.keys, List.keys]
      exact List.map_congr_left (fun e he => (h.key_eq e he).symm)
    rw [hkeys]
    exact w.partitionMap.keys_nodup
  have hsub : partitionsOfFs fsId (w.partitionMap.entries.map (·.2)) ⊆
      partitionsOfFs fsId w.persisted := by
    intro p hp
    simp only [partitionsOfFs, List.mem_filter, List.mem_map] at hp ⊢
    obtain ⟨⟨e, he, rfl⟩, hfs⟩ := hp
    exact ⟨h.live_persisted e he, hfs⟩
  exact List.Nodup.subperm (hnodup.filter _) hsub

/-- So there are no more live partitions of a file system than its count. -/
theorem partitionNumOfFs_le (h : CountInv idNumberInPartition w) (fsId : Nat) :
    partitionNumOfFs w.partitionMap fsId ≤ w.clusterInfo.partitionIndexs fsId := by
  have hnum : partitionNumOfFs w.partitionMap fsId =
      (partitionsOfFs fsId (w.partitionMap.entries.map (·.2))).length := by
    simp only [partitionNumOfFs, partitionsOfFs, List.filter_map, List.length_map]
    rfl
  rw [hnum, h.count fsId]
  exact (h.live_subperm fsId).length_le

theorem restart (h : CountInv idNumberInPartition w) :
    CountInv idNumberInPartition (w.step idNumberInPartition .restart) := by
  -- the refresh finds every count already covering the live partitions
  have hrefresh : refreshPartitionIndexOfFS (w.storage.clusterInfo.getD .empty)
      w.storage.partitions = w.clusterInfo := by
    rw [h.stored, h.live, Option.getD_some]
    exact congrArg ClusterInformation.mk (refreshPartitionIndexOfFS_of_le h.partitionNumOfFs_le)
  simp only [TopologyWorld.step, TopologyStorage.init, hrefresh]
  exact ⟨rfl, rfl, h.live ▸ h.key_eq, h.live ▸ h.live_persisted, h.count, h.range⟩

theorem removePartition (h : CountInv idNumberInPartition w) (id : Nat) (deleteOk : Bool) :
    CountInv idNumberInPartition (w.step idNumberInPartition (.removePartition id deleteOk)) := by
  simp only [TopologyWorld.step, TopologyWorld.removePartition]
  split
  · exact h
  · split
    · exact h
    · -- the partition leaves memory and storage together; the history keeps it
      have hsub : ∀ e ∈ (w.partitionMap.erase id).entries, e ∈ w.partitionMap.entries :=
        fun e he => (List.kerase_sublist id _).subset he
      refine ⟨h.stored, by simp [h.live], fun e he => h.key_eq e (hsub e he),
        fun e he => h.live_persisted e (hsub e he), h.count, h.range⟩

theorem createPartition (h : CountInv idNumberInPartition w)
    (hbound : w.persisted.length + 1 < 2 ^ 32) (fsId poolId copysetId : Nat)
    (createOk storagePartitionOk : Bool) :
    CountInv idNumberInPartition (w.step idNumberInPartition
      (.createPartition fsId poolId copysetId createOk storagePartitionOk true)) := by
  simp only [TopologyWorld.step]
  rcases TopologyWorld.createPartitionOnCopyset_cases w idNumberInPartition fsId poolId
      copysetId createOk storagePartitionOk true with
    ⟨hci, hmap, hst, hpers⟩ |
      ⟨data, hfs, -, hstart, hend, hci, hmap, hst, hpers⟩
  · -- nothing was stored
    refine ⟨?_, ?_, ?_, ?_, ?_, ?_⟩
    · rw [hst, hci]; exact h.stored
    · rw [hst, hmap]; exact h.live
    · rw [hmap]; exact h.key_eq
    · rw [hmap, hpers]; exact h.live_persisted
    · rw [hci, hpers]; exact h.count
    · rw [hpers]; exact h.range
  · -- one partition was stored, with the index its file system's count gave it
    have hlen : (partitionsOfFs fsId w.persisted).length + 1 < 2 ^ 32 :=
      lt_of_le_of_lt (Nat.add_le_add_right (List.length_filter_le _ _) 1) hbound
    have hmem : ∀ e ∈ (w.partitionMap.insert data.partitionId data).entries,
        e = ⟨data.partitionId, data⟩ ∨ e ∈ w.partitionMap.entries := by
      intro e he
      rw [AList.entries_insert, List.mem_cons] at he
      exact he.imp id (fun he => (List.kerase_sublist _ _).subset he)
    refine ⟨?_, ?_, ?_, ?_, ?_, ?_⟩
    · rw [hst, hci]; rfl
    · rw [hst, hmap, h.live]
    · rw [hmap]
      intro e he
      rcases hmem e he with rfl | he
      · rfl
      · exact h.key_eq e he
    · rw [hmap, hpers]
      intro e he
      rcases hmem e he with rfl | he
      · exact List.mem_append_right _ (List.mem_singleton_self _)
      · exact List.mem_append_left _ (h.live_persisted e he)
    · intro fsId'
      rw [hci, hpers, partitionsOfFs_append_singleton, ClusterInformation.addPartitionIndexOfFs_apply]
      by_cases hf : fsId' = fsId
      · subst hf
        rw [if_pos rfl, if_pos hfs, h.count, List.length_append, List.length_singleton]
        exact Nat.mod_eq_of_lt hlen
      · rw [if_neg hf, if_neg (fun e => hf (hfs ▸ e.symm)), List.append_nil]
        exact h.count fsId'
    · intro fsId' k p hp
      rw [hpers, partitionsOfFs_append_singleton] at hp
      by_cases hf : data.fsId = fsId'
      · rw [if_pos hf] at hp
        -- the new partition is the last of its file system, at the index of the old count
        rcases Nat.lt_or_ge k (partitionsOfFs fsId' w.persisted).length with hk | hk
        · rw [List.getElem?_append_left hk] at hp
          exact h.range fsId' k p hp
        · rw [List.getElem?_append_right hk, List.getElem?_singleton] at hp
          split_ifs at hp with hk0
          cases hp
          have hidx : k = w.clusterInfo.partitionIndexs fsId := by
            rw [h.count, ← hfs, hf]; omega
          rw [hidx]
          exact ⟨hstart, hend⟩
      · rw [if_neg hf, List.append_nil] at hp
        exact h.range fsId' k p hp

end CountInv

namespace TopologyEvent

/-- Whether an event's cluster-information write, if it makes one, succeeds. -/
def clusterInfoWriteOk : TopologyEvent → Bool
  | .createPartition _ _ _ _ _ storageClusterInfoOk => storageClusterInfoOk
  | .removePartition _ _ => true
  | .restart => true

end TopologyEvent

/-- An event persists at most one partition. -/
theorem TopologyWorld.persisted_length_step_le (idNumberInPartition : Nat) (w : TopologyWorld)
    (e : TopologyEvent) :
    (w.step idNumberInPartition e).persisted.length ≤ w.persisted.length + 1 := by
  cases e with
  | createPartition fsId poolId copysetId createOk storagePartitionOk storageClusterInfoOk =>
    rcases TopologyWorld.createPartitionOnCopyset_cases w idNumberInPartition fsId poolId
        copysetId createOk storagePartitionOk storageClusterInfoOk with
      ⟨-, -, -, hpers⟩ | ⟨data, -, -, -, -, -, -, -, hpers⟩
    · simp only [TopologyWorld.step, hpers]
      omega
    · simp only [TopologyWorld.step, hpers, List.length_append, List.length_singleton]
      omega
  | removePartition id deleteOk =>
    -- a removal never touches the history
    simp only [TopologyWorld.step, TopologyWorld.removePartition]
    split
    · simp
    · split <;> simp
  | restart => simp [TopologyWorld.step, TopologyStorage.init]

/-- A run persists at most one partition an event. -/
theorem TopologyWorld.persisted_length_run_le (idNumberInPartition : Nat) :
    ∀ (w : TopologyWorld) (es : List TopologyEvent),
      (w.run idNumberInPartition es).persisted.length ≤ w.persisted.length + es.length
  | _, [] => by simp [TopologyWorld.run]
  | w, e :: es => by
    have hstep := TopologyWorld.persisted_length_step_le idNumberInPartition w e
    have hrun := TopologyWorld.persisted_length_run_le idNumberInPartition
      (w.step idNumberInPartition e) es
    simp only [TopologyWorld.run, List.foldl_cons, List.length_cons] at hrun ⊢
    omega

namespace CountInv

variable {idNumberInPartition : Nat} {w : TopologyWorld}

theorem step (h : CountInv idNumberInPartition w) (hbound : w.persisted.length + 1 < 2 ^ 32)
    (e : TopologyEvent) (hok : e.clusterInfoWriteOk = true) :
    CountInv idNumberInPartition (w.step idNumberInPartition e) := by
  cases e with
  | createPartition fsId poolId copysetId createOk storagePartitionOk storageClusterInfoOk =>
    simp only [TopologyEvent.clusterInfoWriteOk] at hok
    subst hok
    exact h.createPartition hbound fsId poolId copysetId createOk storagePartitionOk
  | removePartition id deleteOk => exact h.removePartition id deleteOk
  | restart => exact h.restart

/-- A run whose cluster-information writes succeed keeps the invariant, as long as it cannot
persist `2 ^ 32 - 1` partitions. -/
theorem run : ∀ (es : List TopologyEvent) (w : TopologyWorld), CountInv idNumberInPartition w →
    (∀ e ∈ es, e.clusterInfoWriteOk = true) → w.persisted.length + es.length + 1 < 2 ^ 32 →
      CountInv idNumberInPartition (w.run idNumberInPartition es)
  | [], _, h, _, _ => h
  | e :: es, w, h, hok, hlen => by
    have hlen' : w.persisted.length + 1 + es.length + 1 < 2 ^ 32 := by
      simp only [List.length_cons] at hlen
      omega
    have hstep := h.step (by omega) e (hok e List.mem_cons_self)
    have hle := TopologyWorld.persisted_length_step_le idNumberInPartition w e
    exact run es (w.step idNumberInPartition e) hstep
      (fun e' he' => hok e' (List.mem_cons_of_mem e he')) (by omega)

end CountInv

section Ranges

variable {idNumberInPartition : Nat}

theorem idStartOfIndex_of_lt (hN32 : idNumberInPartition ≤ 2 ^ 32) {k : Nat} (hk : k < 2 ^ 32) :
    idStartOfIndex idNumberInPartition k = k * idNumberInPartition := by
  have hmul : k * idNumberInPartition < 2 ^ 32 * 2 ^ 32 :=
    Nat.mul_lt_mul_of_lt_of_le hk hN32 (by norm_num)
  exact Nat.mod_eq_of_lt (by simpa using hmul)

theorem idEndOfIndex_of_lt (hN : 0 < idNumberInPartition) (hN32 : idNumberInPartition ≤ 2 ^ 32)
    {k : Nat} (hk : k + 1 < 2 ^ 32) :
    idEndOfIndex idNumberInPartition k = (k + 1) * idNumberInPartition - 1 := by
  have hmul : (k + 1) * idNumberInPartition < 2 ^ 64 := by
    have := Nat.mul_lt_mul_of_lt_of_le hk hN32 (by norm_num)
    simpa using this
  have hpos : 0 < (k + 1) * idNumberInPartition := Nat.mul_pos (Nat.succ_pos k) hN
  unfold idEndOfIndex
  rw [Nat.mod_eq_of_lt hk, Nat.mod_eq_of_lt hmul]
  exact sub64_of_le hpos hmul

/-- The partitions at indices `j < k` own disjoint ranges when neither index nor range wraps:
the `j`-th range ends below `(j + 1) * idNumberInPartition`, where the `k`-th begins at the
earliest. -/
theorem disjoint_range_of_index_lt (hN : 0 < idNumberInPartition)
    (hN32 : idNumberInPartition ≤ 2 ^ 32) {j k : Nat} (hjk : j < k) (hk : k + 1 < 2 ^ 32)
    {p q : Partition} (hp : p.idEnd = idEndOfIndex idNumberInPartition j)
    (hq : q.idStart = idStartOfIndex idNumberInPartition k) :
    Disjoint p.range q.range := by
  have hend : p.idEnd = (j + 1) * idNumberInPartition - 1 := by
    rw [hp, idEndOfIndex_of_lt hN hN32 (by omega)]
  have hstart : q.idStart = k * idNumberInPartition := by
    rw [hq, idStartOfIndex_of_lt hN32 (by omega)]
  have hle : (j + 1) * idNumberInPartition ≤ k * idNumberInPartition :=
    Nat.mul_le_mul_right _ hjk
  have hpos : 0 < (j + 1) * idNumberInPartition := Nat.mul_pos (Nat.succ_pos j) hN
  rw [Set.disjoint_left]
  intro x hxp hxq
  simp only [Partition.range, Set.mem_Icc] at hxp hxq
  omega

namespace CountInv

variable {w : TopologyWorld}

/-- Every partition a file system ever persisted owns a range of its own. -/
theorem rangesDisjoint_persisted (h : CountInv idNumberInPartition w)
    (hN : 0 < idNumberInPartition) (hN32 : idNumberInPartition ≤ 2 ^ 32)
    (hlen : w.persisted.length + 1 < 2 ^ 32) (fsId : Nat) :
    RangesDisjointOfFs fsId w.persisted := by
  unfold RangesDisjointOfFs
  rw [List.pairwise_iff_getElem]
  intro j k hj hk hjk
  -- the `j`-th and `k`-th partitions of the file system own the `j`-th and `k`-th ranges
  have hrj := h.range fsId j _ (List.getElem?_eq_getElem hj)
  have hrk := h.range fsId k _ (List.getElem?_eq_getElem hk)
  have hk' : k + 1 < 2 ^ 32 := by
    have := List.length_filter_le (fun p => decide (p.fsId = fsId)) w.persisted
    simp only [partitionsOfFs] at hk
    omega
  exact disjoint_range_of_index_lt hN hN32 hjk hk' hrj.2 hrk.1

/-- The live partitions are among the persisted ones, so their ranges are disjoint too. -/
theorem rangesDisjoint_live (h : CountInv idNumberInPartition w) {fsId : Nat}
    (hd : RangesDisjointOfFs fsId w.persisted) :
    RangesDisjointOfFs fsId (w.partitionMap.entries.map (·.2)) := by
  obtain ⟨l, hperm, hsub⟩ := h.live_subperm fsId
  exact (hd.sublist hsub).perm hperm (fun hpq => hpq.symm)

end CountInv

end Ranges

/-- With every cluster-information write stored, a run from a fresh cluster keeps the ranges of
each file system's partitions pairwise disjoint: those of every partition it ever persisted,
so that no new partition meets a range persisted before, and those of its live partitions in
memory and in storage. The bounds keep indices and ranges from wrapping. -/
theorem ranges_disjoint_of_clusterInfo_writes_ok {idNumberInPartition : Nat}
    (hN : 0 < idNumberInPartition) (hN32 : idNumberInPartition ≤ 2 ^ 32)
    (es : List TopologyEvent) (hok : ∀ e ∈ es, e.clusterInfoWriteOk = true)
    (hfew : es.length + 1 < 2 ^ 32) (fsId : Nat) :
    RangesDisjointOfFs fsId (TopologyWorld.init.run idNumberInPartition es).persisted ∧
      RangesDisjointOfFs fsId
        ((TopologyWorld.init.run idNumberInPartition es).partitionMap.entries.map (·.2)) ∧
      RangesDisjointOfFs fsId
        ((TopologyWorld.init.run idNumberInPartition es).storage.partitions.entries.map
          (·.2)) := by
  have hinit : TopologyWorld.init.persisted.length = 0 := rfl
  have hinv := CountInv.run es TopologyWorld.init
    (CountInv.init : CountInv idNumberInPartition TopologyWorld.init) hok (by omega)
  have hlen : (TopologyWorld.init.run idNumberInPartition es).persisted.length + 1 < 2 ^ 32 :=
    lt_of_le_of_lt (Nat.add_le_add_right (TopologyWorld.persisted_length_run_le _ _ _) 1)
      (by omega)
  have hpersisted := hinv.rangesDisjoint_persisted hN hN32 hlen fsId
  refine ⟨hpersisted, hinv.rangesDisjoint_live hpersisted, ?_⟩
  rw [hinv.live]
  exact hinv.rangesDisjoint_live hpersisted

/-- `rangeReuseRun` with both count writes stored. -/
def storedCountRun : List TopologyEvent :=
  [.createPartition 1 1 1 true true true,
   .createPartition 1 1 1 true true true,
   .removePartition 1 true,
   .restart,
   .createPartition 1 1 1 true true true]

theorem ranges_disjoint_storedCountRun :
    RangesDisjointOfFs 1 (TopologyWorld.init.run 1048576 storedCountRun).persisted ∧
      RangesDisjointOfFs 1
        ((TopologyWorld.init.run 1048576 storedCountRun).partitionMap.entries.map (·.2)) ∧
      RangesDisjointOfFs 1
        ((TopologyWorld.init.run 1048576 storedCountRun).storage.partitions.entries.map (·.2)) :=
  ranges_disjoint_of_clusterInfo_writes_ok (by norm_num) (by norm_num) storedCountRun
    (by decide) (by decide) 1

end DingoFs.Mds.Topology
