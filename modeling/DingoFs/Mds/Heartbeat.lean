import DingoFs.Mds.Topology
import Mathlib.Data.Finset.Basic

/-!
# Heartbeats of metaservers: `HeartbeatManager::MetaServerHeartbeat`

A metaserver's heartbeat reports, for each copyset it serves, the copyset's configuration
(leader, epoch, members, candidate) and the partitions it holds. For a copyset the reporter
leads, `TopoUpdater::UpdateCopysetTopo` compares the report with the record under the
copyset's key `(poolId, copysetId)` and overwrites the record when the report is newer, and
`TopoUpdater::UpdatePartitionTopo` removes the `DELETING` partitions the report omits and
takes the reported statistics of the others.

Copyset ids are allocated per pool, so two pools can each have a copyset with the same id.
`UpdatePartitionTopo` collects the partitions "in the copyset" with
`GetPartitionInfosInCopyset(copysetId)`, which filters on the id alone: a heartbeat about one
copyset removes a `DELETING` partition of the copyset with the same id in another pool
(`metaServerHeartbeat_removes_other_pool_partition`).

`UpdateCopysetTopo` reads the record and decides without a lock, and the write
`TopologyImpl::UpdateCopySetTopo` checks no epoch. Two heartbeats about one copyset that both
read before either writes can write in the other order, and the recorded epoch goes back
(`interleaved_updates_lower_epoch`).
-/

namespace DingoFs.Mds.Heartbeat

/-- `PartitionStatus`. -/
inductive PartitionStatus
  | READWRITE
  | READONLY
  | DELETING
deriving DecidableEq, Repr

/-- A `Partition` record, with the fields the heartbeat reads and writes. -/
structure Partition where
  partitionId : Nat
  poolId : Nat
  copysetId : Nat
  status : PartitionStatus
  inodeNum : Nat
  dentryNum : Nat
  fileType2InodeNum : List (Nat × Nat)
  idNext : Nat
deriving DecidableEq, Repr

/-- A `CopySetInfo` record: its key, configuration, the ids of its partitions (a set kept in
memory only), and the dirty flag that schedules its write to storage. -/
structure CopySetInfo where
  poolId : Nat
  copysetId : Nat
  leader : Nat
  epoch : Nat
  members : Finset Nat
  candidate : Option Nat
  partitionIds : Finset Nat
  dirty : Bool
deriving DecidableEq

/-- `CopySetInfo::GetCopySetKey`. -/
def CopySetInfo.key (c : CopySetInfo) : Nat × Nat := (c.poolId, c.copysetId)

/-- The storage writes of the modelled paths, whose outcomes are an argument. -/
inductive TopoStorageCall
  | deletePartition (id : Nat)
  | updatePartition (id : Nat)
deriving DecidableEq

/-- `PartitionStatistic`. -/
structure PartitionStatistic where
  status : PartitionStatus
  inodeNum : Nat
  dentryNum : Nat
  fileType2InodeNum : List (Nat × Nat)
  nextId : Nat

/-- What `TopologyImpl` holds of copysets and partitions: `copySetMap_` by key and
`partitionMap_` by partition id. -/
structure TopologyImpl where
  copySetMap : AList (fun _ : Nat × Nat => CopySetInfo)
  partitionMap : AList (fun _ : Nat => Partition)

namespace TopologyImpl

/-- `GetCopySet`. -/
def getCopySet (t : TopologyImpl) (key : Nat × Nat) : Option CopySetInfo := t.copySetMap.lookup key

/-- `GetPartition`. -/
def getPartition (t : TopologyImpl) (id : Nat) : Option Partition := t.partitionMap.lookup id

/-- `TopologyImpl::UpdateCopySetTopo`: the record under the report's key takes the report's
leader, epoch, members and candidate and is marked dirty; a missing record leaves the topology
as it is (`TOPO_COPYSET_NOT_FOUND`). -/
def updateCopySetTopo (t : TopologyImpl) (data : CopySetInfo) : TopologyImpl :=
  match t.copySetMap.lookup data.key with
  | none => t
  | some c =>
    let record := { c with leader := data.leader, epoch := data.epoch, members := data.members,
                           dirty := true, candidate := data.candidate }
    { t with copySetMap := t.copySetMap.insert data.key record }

/-- `GetPartitionInfosInCopyset(copysetId)`: the partitions whose copyset id is `copysetId`, in
whatever pool. -/
def getPartitionInfosInCopyset (t : TopologyImpl) (copysetId : Nat) : List Partition :=
  (t.partitionMap.entries.map (·.2)).filter (·.copysetId = copysetId)

/-- `RemovePartition`: the record deleted from storage and memory, and its id dropped from its
copyset's partition ids. -/
def removePartition (ok : TopoStorageCall → Bool) (t : TopologyImpl) (id : Nat) :
    Topology.TopoStatusCode × TopologyImpl :=
  match t.partitionMap.lookup id with
  | none => (.TOPO_PARTITION_NOT_FOUND, t)
  | some p =>
    if ok (.deletePartition id) then
      let copySetMap := match t.copySetMap.lookup (p.poolId, p.copysetId) with
        | none => t.copySetMap
        | some c => t.copySetMap.insert (p.poolId, p.copysetId)
            { c with partitionIds := c.partitionIds.erase id }
      (.TOPO_OK, ⟨copySetMap, t.partitionMap.erase id⟩)
    else (.TOPO_STORGE_FAIL, t)

/-- `UpdatePartitionStatistic`: the record takes the statistic, written to storage first. -/
def updatePartitionStatistic (ok : TopoStorageCall → Bool) (t : TopologyImpl) (id : Nat)
    (statistic : PartitionStatistic) : Topology.TopoStatusCode × TopologyImpl :=
  match t.partitionMap.lookup id with
  | none => (.TOPO_PARTITION_NOT_FOUND, t)
  | some p =>
    if ok (.updatePartition id) then
      let temp := { p with status := statistic.status, inodeNum := statistic.inodeNum,
                           dentryNum := statistic.dentryNum,
                           fileType2InodeNum := statistic.fileType2InodeNum,
                           idNext := statistic.nextId }
      (.TOPO_OK, { t with partitionMap := t.partitionMap.insert id temp })
    else (.TOPO_STORGE_FAIL, t)

end TopologyImpl

/-- Whether `UpdateCopysetTopo` writes a report over the record: a newer epoch, or at the same
epoch and the same members a different leader or candidate. An older epoch, or other members
at the same epoch, is an alarm and nothing is written. -/
def needUpdate (record report : CopySetInfo) : Bool :=
  if record.epoch < report.epoch then true
  else if record.epoch = report.epoch then
    if report.members ≠ record.members then false
    else
      let needUpdate := decide (report.leader ≠ record.leader)
      match report.candidate, record.candidate with
      | none, some _ => true
      | none, none => needUpdate
      | some _, none => true
      | some a, some b => if a ≠ b then true else needUpdate
  else false

/-- `TopoUpdater::UpdateCopysetTopo` of a report. -/
def updateCopysetTopo (t : TopologyImpl) (report : CopySetInfo) : TopologyImpl :=
  match t.getCopySet report.key with
  | none => t
  | some record => if needUpdate record report then t.updateCopySetTopo report else t

/-- `TopoUpdater::CanPartitionStatusChange`. -/
def canPartitionStatusChange (statusInTopo statusInHeartbeat : PartitionStatus) : Bool :=
  match statusInHeartbeat with
  | .READWRITE => statusInTopo == .READWRITE
  | .READONLY => statusInTopo != .DELETING
  | .DELETING => true

/-- The first loop of `UpdatePartitionTopo`, over the partitions it collected: one that is
`DELETING` and missing from the report is removed. -/
def removeUnreported (ok : TopoStorageCall → Bool) (partitionList : List Partition)
    (t : TopologyImpl) (p : Partition) : TopologyImpl :=
  if !(partitionList.any (·.partitionId == p.partitionId)) && p.status == .DELETING then
    (t.removePartition ok p.partitionId).2
  else t

/-- The second loop of `UpdatePartitionTopo`, over the reported partitions: a partition the
topology has takes the reported statistics when they differ and its status may change so. -/
def updateReported (ok : TopoStorageCall → Bool) (t : TopologyImpl) (it : Partition) :
    TopologyImpl :=
  match t.getPartition it.partitionId with
  | none => t
  | some partitionInTopo =>
    let statisticChange := partitionInTopo.status != it.status ||
      partitionInTopo.inodeNum != it.inodeNum || partitionInTopo.dentryNum != it.dentryNum ||
      partitionInTopo.idNext != it.idNext
    if canPartitionStatusChange partitionInTopo.status it.status && statisticChange then
      (t.updatePartitionStatistic ok it.partitionId
        ⟨it.status, it.inodeNum, it.dentryNum, it.fileType2InodeNum, it.idNext⟩).2
    else t

/-- `TopoUpdater::UpdatePartitionTopo(copySetId, partitionList)`. -/
def updatePartitionTopo (ok : TopoStorageCall → Bool) (t : TopologyImpl) (copySetId : Nat)
    (partitionList : List Partition) : TopologyImpl :=
  partitionList.foldl (updateReported ok)
    ((t.getPartitionInfosInCopyset copySetId).foldl (removeUnreported ok partitionList) t)

/-- One copyset of a heartbeat, converted to the topology's form: the copyset, its partitions,
and `iscopysetloading` when the report has it. -/
structure CopySetReport where
  info : CopySetInfo
  partitions : List Partition
  isCopysetLoading : Option Bool

/-- The body of the copyset loop of `HeartbeatManager::MetaServerHeartbeat` from metaserver
`metaServerId`: for a copyset it leads, `UpdateCopysetTopo`, and `UpdatePartitionTopo` unless
the copyset is loading. -/
def heartbeatCopyset (ok : TopoStorageCall → Bool) (metaServerId : Nat) (t : TopologyImpl)
    (r : CopySetReport) : TopologyImpl :=
  if metaServerId = r.info.leader then
    let t := updateCopysetTopo t r.info
    if r.isCopysetLoading ≠ some true then updatePartitionTopo ok t r.info.copysetId r.partitions
    else t
  else t

/-- The copyset part of `HeartbeatManager::MetaServerHeartbeat`. -/
def metaServerHeartbeat (ok : TopoStorageCall → Bool) (t : TopologyImpl) (metaServerId : Nat)
    (copysetInfos : List CopySetReport) : TopologyImpl :=
  copysetInfos.foldl (heartbeatCopyset ok metaServerId) t

/-! ## A heartbeat removes a partition of another pool

No step of a heartbeat adds a partition record, and the first loop of `UpdatePartitionTopo`
removes each collected `DELETING` partition the report omits, whatever its pool. -/

section Frame

variable {ok : TopoStorageCall → Bool} {t : TopologyImpl}

/-- A left fold keeps what each of its steps keeps. -/
theorem foldl_keeps {σ α : Type*} (P : σ → Prop) (f : σ → α → σ)
    (hf : ∀ s a, P s → P (f s a)) : ∀ (l : List α) (s : σ), P s → P (l.foldl f s)
  | [], _, hs => hs
  | a :: l, s, hs => foldl_keeps P f hf l (f s a) (hf s a hs)

@[simp]
theorem TopologyImpl.updateCopySetTopo_partitionMap (data : CopySetInfo) :
    (t.updateCopySetTopo data).partitionMap = t.partitionMap := by
  unfold TopologyImpl.updateCopySetTopo
  split <;> rfl

@[simp]
theorem updateCopysetTopo_partitionMap (report : CopySetInfo) :
    (updateCopysetTopo t report).partitionMap = t.partitionMap := by
  unfold updateCopysetTopo
  split
  · rfl
  · split_ifs <;> simp

/-- The partitions collected for a copyset id are read from the partition records alone. -/
theorem getPartitionInfosInCopyset_congr {t' : TopologyImpl} (h : t'.partitionMap = t.partitionMap)
    (copysetId : Nat) :
    t'.getPartitionInfosInCopyset copysetId = t.getPartitionInfosInCopyset copysetId := by
  simp only [TopologyImpl.getPartitionInfosInCopyset, h]

theorem mem_getPartitionInfosInCopyset {k : Nat} {p : Partition}
    (hp : t.partitionMap.lookup k = some p) :
    p ∈ t.getPartitionInfosInCopyset p.copysetId := by
  have hmem : (⟨k, p⟩ : Sigma fun _ : Nat => Partition) ∈ t.partitionMap.entries :=
    AList.mem_lookup_iff.mp hp
  simp only [TopologyImpl.getPartitionInfosInCopyset, List.mem_filter, List.mem_map,
    decide_true, and_true]
  exact ⟨_, hmem, rfl⟩

theorem TopologyImpl.removePartition_lookup_none {k : Nat} (id : Nat)
    (h : t.partitionMap.lookup k = none) : (t.removePartition ok id).2.partitionMap.lookup k = none := by
  unfold TopologyImpl.removePartition
  split
  · exact h
  · split_ifs
    · by_cases hk : k = id
      · subst hk; exact AList.lookup_erase _ _
      · rw [AList.lookup_erase_ne hk]; exact h
    · exact h

/-- A successful storage delete removes the record. -/
theorem TopologyImpl.removePartition_removes {id : Nat} (hok : ok (.deletePartition id) = true) :
    (t.removePartition ok id).2.partitionMap.lookup id = none := by
  unfold TopologyImpl.removePartition
  split
  · assumption
  · rw [if_pos hok]; exact AList.lookup_erase _ _

theorem TopologyImpl.updatePartitionStatistic_lookup_none {k : Nat} (id : Nat)
    (statistic : PartitionStatistic) (h : t.partitionMap.lookup k = none) :
    (t.updatePartitionStatistic ok id statistic).2.partitionMap.lookup k = none := by
  unfold TopologyImpl.updatePartitionStatistic
  split
  · exact h
  · next p hid =>
    split_ifs
    · -- the record written is the one found, so its key is not the missing one
      have hk : k ≠ id := by rintro rfl; simp [h] at hid
      exact AList.lookup_insert_eq_none.mpr ⟨hk, h⟩
    · exact h

theorem removeUnreported_lookup_none {k : Nat} (partitionList : List Partition) (p : Partition)
    (h : t.partitionMap.lookup k = none) :
    (removeUnreported ok partitionList t p).partitionMap.lookup k = none := by
  unfold removeUnreported
  split_ifs
  · exact TopologyImpl.removePartition_lookup_none _ h
  · exact h

theorem updateReported_lookup_none {k : Nat} (it : Partition)
    (h : t.partitionMap.lookup k = none) : (updateReported ok t it).partitionMap.lookup k = none := by
  unfold updateReported
  split
  · exact h
  · dsimp only
    split_ifs
    · exact TopologyImpl.updatePartitionStatistic_lookup_none _ _ h
    · exact h

theorem heartbeatCopyset_lookup_none {k : Nat} (metaServerId : Nat) (r : CopySetReport)
    (h : t.partitionMap.lookup k = none) :
    (heartbeatCopyset ok metaServerId t r).partitionMap.lookup k = none := by
  unfold heartbeatCopyset updatePartitionTopo
  split_ifs
  · refine foldl_keeps (fun t : TopologyImpl => t.partitionMap.lookup k = none) _
      (fun _ _ => updateReported_lookup_none _) _ _ ?_
    refine foldl_keeps (fun t : TopologyImpl => t.partitionMap.lookup k = none) _
      (fun _ _ => removeUnreported_lookup_none _ _) _ _ ?_
    simpa using h
  · simpa using h
  · exact h

/-- The first loop of `UpdatePartitionTopo` removes a collected `DELETING` partition that the
report omits, when its storage delete succeeds. -/
theorem foldl_removeUnreported_removes {partitionList : List Partition} {p : Partition}
    (hdel : p.status = .DELETING) (homit : ∀ q ∈ partitionList, q.partitionId ≠ p.partitionId)
    (hok : ok (.deletePartition p.partitionId) = true) :
    ∀ (l : List Partition) (t : TopologyImpl), p ∈ l →
      (l.foldl (removeUnreported ok partitionList) t).partitionMap.lookup p.partitionId = none
  | q :: l, t, hp => by
    rw [List.foldl_cons]
    rcases List.mem_cons.mp hp with rfl | hl
    · -- the step at the partition removes it, and the later steps add nothing
      refine foldl_keeps (fun t : TopologyImpl => t.partitionMap.lookup p.partitionId = none) _
        (fun _ _ => removeUnreported_lookup_none _ _) _ _ ?_
      have hcond : (!(partitionList.any (·.partitionId == p.partitionId)) &&
          p.status == .DELETING) = true := by
        simpa [hdel] using homit
      simp only [removeUnreported, hcond, if_true]
      exact TopologyImpl.removePartition_removes hok
    · exact foldl_removeUnreported_removes hdel homit hok l _ hl

end Frame

/-- A heartbeat whose first report is of a copyset the reporter leads and that is not loading,
over a topology with a `DELETING` partition of another pool under the same copyset id that the
report omits: the partition lies outside the reporter's copyset key, and when its storage
delete succeeds, its record is gone. -/
theorem metaServerHeartbeat_removes_other_pool_partition (ok : TopoStorageCall → Bool)
    (t : TopologyImpl) (metaServerId : Nat) (r : CopySetReport) (rest : List CopySetReport)
    (p : Partition) (hleader : metaServerId = r.info.leader)
    (hloading : r.isCopysetLoading ≠ some true) (hp : t.getPartition p.partitionId = some p)
    (hpool : p.poolId ≠ r.info.poolId) (hcs : p.copysetId = r.info.copysetId)
    (hdel : p.status = .DELETING) (homit : ∀ q ∈ r.partitions, q.partitionId ≠ p.partitionId)
    (hok : ok (.deletePartition p.partitionId) = true) :
    (p.poolId, p.copysetId) ≠ r.info.key ∧
      (metaServerHeartbeat ok t metaServerId (r :: rest)).getPartition p.partitionId = none := by
  refine ⟨fun h => hpool (Prod.ext_iff.mp h).1, ?_⟩
  -- `UpdateCopysetTopo` leaves the partitions, so `UpdatePartitionTopo` collects this one
  have hcollected :
      p ∈ (updateCopysetTopo t r.info).getPartitionInfosInCopyset r.info.copysetId := by
    rw [getPartitionInfosInCopyset_congr (updateCopysetTopo_partitionMap _), ← hcs]
    exact mem_getPartitionInfosInCopyset hp
  have hfirst :
      (heartbeatCopyset ok metaServerId t r).partitionMap.lookup p.partitionId = none := by
    rw [heartbeatCopyset, if_pos hleader]
    dsimp only
    rw [if_pos hloading, updatePartitionTopo]
    refine foldl_keeps (fun t : TopologyImpl => t.partitionMap.lookup p.partitionId = none) _
      (fun _ _ => updateReported_lookup_none _) _ _ ?_
    exact foldl_removeUnreported_removes hdel homit hok _ _ hcollected
  -- the later reports add no record
  rw [metaServerHeartbeat, List.foldl_cons]
  exact foldl_keeps (fun t : TopologyImpl => t.partitionMap.lookup p.partitionId = none) _
    (fun _ _ => heartbeatCopyset_lookup_none _ _) rest _ hfirst

/-- Copyset 1 of pool 1, led by metaserver 10. -/
def copysetOfPoolOne : CopySetInfo := ⟨1, 1, 10, 1, {10}, none, ∅, false⟩

/-- Partition 7, being deleted, of copyset 1 of pool 2. -/
def partitionOfPoolTwo : Partition := ⟨7, 2, 1, .DELETING, 0, 0, [], 0⟩

/-- Two pools, each with a copyset of id 1; partition 7 belongs to the one of pool 2. -/
def twoPools : TopologyImpl :=
  ⟨((∅ : AList fun _ : Nat × Nat => CopySetInfo).insert (1, 1) copysetOfPoolOne).insert (2, 1)
      ⟨2, 1, 20, 1, {20}, none, {7}, false⟩,
    (∅ : AList fun _ : Nat => Partition).insert 7 partitionOfPoolTwo⟩

/-- Metaserver 10 reports copyset 1 of pool 1 with no partitions, and partition 7 of pool 2 is
removed. -/
theorem heartbeat_of_pool_one_removes_partition_of_pool_two :
    twoPools.getPartition 7 = some partitionOfPoolTwo ∧ (2, 1) ≠ copysetOfPoolOne.key ∧
      (metaServerHeartbeat (fun _ => true) twoPools 10 [⟨copysetOfPoolOne, [], none⟩]).getPartition
        7 = none :=
  ⟨rfl, metaServerHeartbeat_removes_other_pool_partition (fun _ => true) twoPools 10
    ⟨copysetOfPoolOne, [], none⟩ [] partitionOfPoolTwo rfl (by decide) rfl (by decide) rfl rfl
    (by decide) rfl⟩

/-- The heartbeat also drops the partition from the copyset of pool 2. -/
example : ((metaServerHeartbeat (fun _ => true) twoPools 10
    [⟨copysetOfPoolOne, [], none⟩]).getCopySet (2, 1)).map (·.partitionIds) = some ∅ := by
  decide

/-! ## Concurrent heartbeats about one copyset

`UpdateCopysetTopo` holds no lock between its read of the record (`GetCopySet` returns a copy)
and its write (`TopologyImpl::UpdateCopySetTopo`), so the calls of concurrent heartbeats
interleave there. A call is modelled by these two halves, and the halves of the calls run in
any order that keeps each call's read before its write. -/

/-- The read half of `UpdateCopysetTopo`: whether, by the record it reads, the report is to be
written. -/
def readNeedUpdate (t : TopologyImpl) (report : CopySetInfo) : Bool :=
  match t.getCopySet report.key with
  | none => false
  | some record => needUpdate record report

/-- Where a call of `UpdateCopysetTopo` is: before its read, between read and write with its
decision, or finished. -/
inductive CallPhase
  | reading
  | writing (needUpdate : Bool)
  | finished
deriving DecidableEq, Repr

/-- Concurrent calls of `UpdateCopysetTopo`, the `i`-th with report `reports[i]`, over one
topology. -/
structure Calls where
  topo : TopologyImpl
  reports : List CopySetInfo
  phase : Nat → CallPhase

/-- The calls before any of them has read. -/
def Calls.init (t : TopologyImpl) (reports : List CopySetInfo) : Calls :=
  ⟨t, reports, fun _ => .reading⟩

/-- A half of one call. -/
inductive CallEvent
  | read (i : Nat)
  | write (i : Nat)
deriving DecidableEq, Repr

/-- One half of one call; `none` when that call is not at that half. -/
def Calls.step (s : Calls) : CallEvent → Option Calls
  | .read i =>
    match s.reports[i]?, s.phase i with
    | some report, .reading =>
      some { s with phase := Function.update s.phase i (.writing (readNeedUpdate s.topo report)) }
    | _, _ => none
  | .write i =>
    match s.reports[i]?, s.phase i with
    | some report, .writing w =>
      some { s with topo := if w then s.topo.updateCopySetTopo report else s.topo,
                    phase := Function.update s.phase i .finished }
    | _, _ => none

/-- An interleaving of halves, run in order. -/
def Calls.run (s : Calls) : List CallEvent → Option Calls
  | [] => some s
  | e :: es => (s.step e).bind fun s => s.run es

/-- The epoch recorded for a copyset key. -/
def epochOf (t : TopologyImpl) (key : Nat × Nat) : Option Nat := (t.getCopySet key).map (·.epoch)

section Epoch

variable {t : TopologyImpl}

theorem needUpdate_of_epoch_lt {record report : CopySetInfo} (h : record.epoch < report.epoch) :
    needUpdate record report = true := by
  simp [needUpdate, h]

theorem readNeedUpdate_of_epoch_lt {record report : CopySetInfo}
    (hrecord : t.getCopySet report.key = some record) (h : record.epoch < report.epoch) :
    readNeedUpdate t report = true := by
  simp only [readNeedUpdate, hrecord, needUpdate_of_epoch_lt h]

/-- The write sets the recorded epoch to the report's. -/
theorem epochOf_updateCopySetTopo {data c : CopySetInfo} (h : t.getCopySet data.key = some c) :
    epochOf (t.updateCopySetTopo data) data.key = some data.epoch := by
  simp only [TopologyImpl.getCopySet] at h
  simp [epochOf, TopologyImpl.updateCopySetTopo, TopologyImpl.getCopySet, h, AList.lookup_insert]

theorem getCopySet_updateCopySetTopo_isSome {data c : CopySetInfo}
    (h : t.getCopySet data.key = some c) :
    ∃ c', (t.updateCopySetTopo data).getCopySet data.key = some c' := by
  simp only [TopologyImpl.getCopySet] at h
  simp [TopologyImpl.updateCopySetTopo, TopologyImpl.getCopySet, h, AList.lookup_insert]

@[simp]
theorem epochOf_removePartition (ok : TopoStorageCall → Bool) (id : Nat) (key : Nat × Nat) :
    epochOf (t.removePartition ok id).2 key = epochOf t key := by
  unfold TopologyImpl.removePartition
  cases t.partitionMap.lookup id with
  | none => rfl
  | some p =>
    dsimp only
    split_ifs
    · -- the copyset of the removed partition loses only a partition id
      cases hc : t.copySetMap.lookup (p.poolId, p.copysetId) with
      | none => rfl
      | some c =>
        by_cases hk : key = (p.poolId, p.copysetId)
        · subst hk
          simp [epochOf, TopologyImpl.getCopySet, hc]
        · simp [epochOf, TopologyImpl.getCopySet, AList.lookup_insert_ne hk]
    · rfl

@[simp]
theorem epochOf_updatePartitionStatistic (ok : TopoStorageCall → Bool) (id : Nat)
    (statistic : PartitionStatistic) (key : Nat × Nat) :
    epochOf (t.updatePartitionStatistic ok id statistic).2 key = epochOf t key := by
  unfold TopologyImpl.updatePartitionStatistic
  split
  · rfl
  · split_ifs <;> rfl

end Epoch

/-- Two calls about a copyset whose reports both carry a later epoch than the record, the second
later than the first: when both read before either writes and the second writes first, the
recorded epoch rises to the second report's and then falls back to the first's. -/
theorem interleaved_updates_lower_epoch (t : TopologyImpl) (key : Nat × Nat)
    (record r₁ r₂ : CopySetInfo) (hrecord : t.getCopySet key = some record)
    (h₁ : r₁.key = key) (h₂ : r₂.key = key) (he₁ : record.epoch < r₁.epoch)
    (he₂ : r₁.epoch < r₂.epoch) :
    ∃ s s', (Calls.init t [r₁, r₂]).run [.read 0, .read 1, .write 1] = some s ∧
      s.step (.write 0) = some s' ∧
      epochOf s.topo key = some r₂.epoch ∧ epochOf s'.topo key = some r₁.epoch := by
  have hrecord₁ : t.getCopySet r₁.key = some record := h₁ ▸ hrecord
  have hrecord₂ : t.getCopySet r₂.key = some record := h₂ ▸ hrecord
  -- both calls read the old record, so both decide to write
  have hr₁ : readNeedUpdate t r₁ = true := readNeedUpdate_of_epoch_lt hrecord₁ he₁
  have hr₂ : readNeedUpdate t r₂ = true := readNeedUpdate_of_epoch_lt hrecord₂ (he₁.trans he₂)
  refine ⟨⟨t.updateCopySetTopo r₂, [r₁, r₂], _⟩,
    ⟨(t.updateCopySetTopo r₂).updateCopySetTopo r₁, [r₁, r₂], _⟩,
    by simp [Calls.run, Calls.step, Calls.init, hr₁, hr₂]; rfl,
    by simp [Calls.step, Function.update]; rfl, ?_, ?_⟩
  · -- the second report's write finds the old record
    rw [← h₂]
    exact epochOf_updateCopySetTopo hrecord₂
  · -- the first report's write finds the record the second wrote, and overwrites it
    obtain ⟨c, hc⟩ := getCopySet_updateCopySetTopo_isSome hrecord₂
    rw [← h₁]
    exact epochOf_updateCopySetTopo ((h₁.trans h₂.symm) ▸ hc)

/-- Metaserver 20 reports copyset 1 of pool 1 at epoch 2 and metaserver 10, its new leader, at
epoch 3, over the record at epoch 1. -/
theorem interleaved_updates_of_pool_one_lower_epoch :
    ∃ s s', (Calls.init twoPools [⟨1, 1, 20, 2, {10, 20}, none, ∅, false⟩,
        ⟨1, 1, 10, 3, {10}, none, ∅, false⟩]).run [.read 0, .read 1, .write 1] = some s ∧
      s.step (.write 0) = some s' ∧
      epochOf s.topo (1, 1) = some 3 ∧ epochOf s'.topo (1, 1) = some 2 :=
  interleaved_updates_lower_epoch twoPools (1, 1) copysetOfPoolOne _ _ rfl rfl rfl
    (by decide) (by decide)

end DingoFs.Mds.Heartbeat
