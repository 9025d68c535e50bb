import DingoFs.Mds.Topology
import DingoFs.Lib.OrderedSet
import DingoFs.Lib.Interleave
import Mathlib.Data.List.GetD

/-!
# Copyset placement in one pool: `TopologyImpl::GenCopysetAddrBatchForPool`

`TopologyManager::CreateEnoughCopyset` asks the topology for the addresses of new copysets,
and `GenCopysetAddrBatch` (`DingoFs.Mds.CopysetBatch`) asks the pools one after another.
`GenCopysetAddrBatchForPool` lists the pool's candidates, the metaservers that are online,
have disk to spare and hold fewer than `maxCopysetNumInMetaserver` copysets, by zone; it then
lays the candidates out row by row over shuffled zones and cuts the layout into runs of
`replicaNum`, round after round, until it has `min_size * replicaNum` copysets.

The shuffles are `std::shuffle` with a thread's generator: the model takes their outcomes as a
`Shuffler`, the permutation each call makes, and every result holds for every `Shuffler`.
A loop of the source that never ends is `none`: each loop has a fuel argument, and the results
say what fuel is enough.

`genCopysetAddrBatchForPool_spec`: for every topology and `replicaNum ≥ 1` the call ends; it
fails when a metaserver's server is missing or fewer than `replicaNum` zones have a candidate,
and otherwise returns at least `min_size * replicaNum` copysets, each `Placed`: `replicaNum`
candidates of the pool in pairwise distinct zones. The proof follows the loop. The candidate
map holds each zone's candidates (`genCandidateMapUnlock_spec`); every round keeps them up to
order (`Shuffled`); a round's layout is its zones row after row, so a run of at most as many
places as zones has no zone twice (`DingoFs.Lib.nodup_take_drop_flatten_replicate`); and every
round adds a copyset.
-/

namespace DingoFs.Mds.CopysetPlacement

open DingoFs.Lib DingoFs.Mds.Topology

/-- `OnlineState` of a metaserver. -/
inductive OnlineState
  | ONLINE
  | OFFLINE
  | UNSTABLE
deriving DecidableEq, Repr

/-- `MetaServerSpace`: the disk a metaserver may use, uses, and needs for a copyset. -/
structure MetaServerSpace where
  diskThresholdByte : Nat
  diskCopysetMinRequireByte : Nat
  diskUsedByte : Nat
deriving DecidableEq, Repr

/-- `MetaServerSpace::IsMetaserverResourceAvailable`: room for one more copyset. The fields are
`uint64_t`, and so is their sum. -/
def MetaServerSpace.isMetaserverResourceAvailable (s : MetaServerSpace) : Bool :=
  !(decide (s.diskThresholdByte ≤ s.diskUsedByte) ||
    decide (s.diskThresholdByte < (s.diskCopysetMinRequireByte + s.diskUsedByte) % 2 ^ 64))

/-- `MetaServer`, under its id in `metaServerMap_`. -/
structure MetaServer where
  serverId : Nat
  onlineState : OnlineState
  space : MetaServerSpace
deriving DecidableEq, Repr

/-- `Server`, under its id in `serverMap_`: its zone and its pool. -/
structure Server where
  zoneId : Nat
  poolId : Nat
deriving DecidableEq, Repr

/-- `Zone`, under its id in `zoneMap_`. -/
structure Zone where
  poolId : Nat
deriving DecidableEq, Repr

/-- `Pool`, under its id in `poolMap_`. -/
structure Pool where
  replicaNum : Nat
deriving DecidableEq, Repr

/-- `CopySetInfo`, under `(poolId, copysetId)` in `copySetMap_`: its members. -/
structure CopySetInfo where
  members : List Nat
deriving DecidableEq, Repr

/-- The maps of `TopologyImpl` placement reads, and `option_.maxCopysetNumInMetaserver`. -/
structure TopologyImpl where
  poolMap : AList (fun _ : Nat => Pool)
  zoneMap : AList (fun _ : Nat => Zone)
  serverMap : AList (fun _ : Nat => Server)
  metaServerMap : AList (fun _ : Nat => MetaServer)
  copySetMap : AList (fun _ : Nat × Nat => CopySetInfo)
  maxCopysetNumInMetaserver : Nat

/-- `CopysetCreateInfo`: the pool, the copyset id (assigned later) and the set of
metaservers, a `std::set` kept sorted. -/
structure CopysetCreateInfo where
  poolId : Nat
  copysetId : Nat
  metaServerIds : List Nat
deriving DecidableEq, Repr

/-- The outcomes of `std::shuffle` with the thread's generator: call `n` permutes its range. -/
structure Shuffler where
  shuffle : Nat → List Nat → List Nat
  perm : ∀ n l, (shuffle n l).Perm l

/-- `for (auto& it : candidate_map) std::shuffle(it.second.begin(), it.second.end(), ...)`:
the zone at place `j` in key order takes call `n + j`. -/
def Shuffler.shuffleEach (rng : Shuffler) (n : Nat) (candidateMap : List (Nat × List Nat)) :
    List (Nat × List Nat) :=
  candidateMap.mapIdx fun j e => (e.1, rng.shuffle (n + j) e.2)

/-- `UINT32_MAX`, where `min_size` starts. -/
def UINT32_MAX : Nat := 2 ^ 32 - 1

namespace TopologyImpl

variable (t : TopologyImpl)

/-- `GetCopysetNumInMetaserver`: the copysets having the metaserver as a member. -/
def getCopysetNumInMetaserver (id : Nat) : Nat :=
  (t.copySetMap.entries.filter fun e => decide (id ∈ e.2.members)).length

/-- `GetAvailableMetaserversUnlock`: online, with disk to spare, below the copyset limit. -/
def getAvailableMetaserversUnlock : List (Σ _ : Nat, MetaServer) :=
  t.metaServerMap.entries.filter fun e =>
    decide (e.2.onlineState = .ONLINE) && e.2.space.isMetaserverResourceAvailable &&
      decide (t.getCopysetNumInMetaserver e.1 < t.maxCopysetNumInMetaserver)

/-- One pass of the loop of `GenCandidateMapUnlock`: a metaserver on a server of the pool goes
to the back of its zone's list, `(*candidate_map)[zone_id].push_back(it->GetId())`. -/
def addCandidate (poolId : Nat) (candidateMap : List (Nat × List Nat))
    (ms : Σ _ : Nat, MetaServer) : Except TopoStatusCode (List (Nat × List Nat)) :=
  match t.serverMap.lookup ms.2.serverId with
  | none => .error .TOPO_SERVER_NOT_FOUND
  | some server =>
    if poolId ≠ server.poolId then pure candidateMap
    else pure (orderedMapAssign server.zoneId
      (((candidateMap.lookup server.zoneId).getD []) ++ [ms.1]) candidateMap)

/-- `GenCandidateMapUnlock`: the available metaservers on servers of the pool, by zone, the
`std::map` kept as its entries in zone order. -/
def genCandidateMapUnlock (poolId : Nat) : Except TopoStatusCode (List (Nat × List Nat)) :=
  t.getAvailableMetaserversUnlock.foldlM (t.addCandidate poolId) []

end TopologyImpl

/-- The candidates of one round, row by row: for each `i < min_size`, the `i`-th candidate of
every zone, in the order of `zoneIds` (`candidate_map[zone_id][i]`). -/
def layOut (candidateMap : List (Nat × List Nat)) (zoneIds : List Nat) (minSize : Nat) :
    List Nat :=
  (List.range minSize).flatMap fun i =>
    zoneIds.map fun zoneId => ((candidateMap.lookup zoneId).getD []).getD i 0

/-- The copysets of one round: the layout cut into runs of `replicaNum`, each inserted into a
`std::set`; a shorter rest is dropped. -/
def copysetsOfRound (poolId replicaNum : Nat) (msIds : List Nat) : List CopysetCreateInfo :=
  (List.range (msIds.length / replicaNum)).map fun i =>
    ⟨poolId, UNINITIALIZE_ID, ((msIds.drop (i * replicaNum)).take replicaNum).foldl
      (fun metaServerIds id => orderedSetInsert (fun a b => decide (a < b)) id metaServerIds) []⟩

/-- Step 4 of `GenCopysetAddrBatchForPool`, `while (create_count < min_size * replica_num)`,
from call `n` of the generator: each round shuffles every zone's candidates, then the zones,
and adds the round's copysets. -/
def forPoolLoop (rng : Shuffler) (poolId replicaNum minSize : Nat) :
    (fuel n createCount : Nat) → List (Nat × List Nat) → List Nat → List CopysetCreateInfo →
      Option (Nat × List CopysetCreateInfo)
  | fuel, n, createCount, candidateMap, zoneIds, copysetList =>
    if createCount < minSize * replicaNum then
      match fuel with
      | 0 => none
      | fuel + 1 =>
        let candidateMap' := rng.shuffleEach n candidateMap
        let zoneIds' := rng.shuffle (n + candidateMap.length) zoneIds
        let created := copysetsOfRound poolId replicaNum (layOut candidateMap' zoneIds' minSize)
        forPoolLoop rng poolId replicaNum minSize fuel (n + candidateMap.length + 1)
          (createCount + created.length) candidateMap' zoneIds' (copysetList ++ created)
    else some (n, copysetList)

namespace TopologyImpl

variable (t : TopologyImpl)

/-- `GenCopysetAddrBatchForPool` from call `n` of the generator: the next call and the result.
Each round makes `min_size * zones / replica_num` copysets, at least one once the zone check
passed, so `min_size * replica_num` rounds are enough. -/
def genCopysetAddrBatchForPool (rng : Shuffler) (n poolId replicaNum : Nat) :
    Option (Nat × Except TopoStatusCode (List CopysetCreateInfo)) :=
  match t.genCandidateMapUnlock poolId with
  | .error ret => some (n, .error ret)
  | .ok candidateMap =>
    if candidateMap.length < replicaNum then some (n, .error .TOPO_METASERVER_NOT_FOUND)
    else
      let minSize := (candidateMap.map (·.2.length)).foldl min UINT32_MAX
      (forPoolLoop rng poolId replicaNum minSize (minSize * replicaNum) n 0 candidateMap
        (candidateMap.map (·.1)) []).map fun r => (r.1, .ok r.2)

end TopologyImpl

/-! ### The shuffles -/

namespace Shuffler

variable (rng : Shuffler)

theorem length_shuffle (n : Nat) (l : List Nat) : (rng.shuffle n l).length = l.length :=
  (rng.perm n l).length_eq

/-- A zone of one candidate, or a pool of one zone, has one order. -/
theorem shuffle_singleton (n a : Nat) : rng.shuffle n [a] = [a] :=
  List.perm_singleton.mp (rng.perm n [a])

theorem shuffleEach_nil (n : Nat) : rng.shuffleEach n [] = [] := rfl

theorem shuffleEach_cons (n : Nat) (e : Nat × List Nat) (l : List (Nat × List Nat)) :
    rng.shuffleEach n (e :: l) = (e.1, rng.shuffle n e.2) :: rng.shuffleEach (n + 1) l := by
  simp only [shuffleEach, List.mapIdx_cons, Nat.add_zero, Nat.add_assoc, Nat.add_comm 1]

/-- Each zone keeps its candidates, in some order. -/
theorem lookup_shuffleEach_perm (z : Nat) : ∀ (n : Nat) (l : List (Nat × List Nat)),
    (((rng.shuffleEach n l).lookup z).getD []).Perm ((l.lookup z).getD [])
  | _, [] => List.Perm.refl _
  | n, e :: l => by
    rw [shuffleEach_cons, lookup_cons_eq_ite, lookup_cons_eq_ite]
    split_ifs
    · exact rng.perm n e.2
    · exact lookup_shuffleEach_perm z (n + 1) l

end Shuffler

/-! ### The candidates -/

namespace TopologyImpl

variable (t : TopologyImpl)

/-- What the copysets of a pool take as members: a metaserver that is online, has disk to
spare and holds fewer than `maxCopysetNumInMetaserver` copysets, on a server of the pool. -/
def Candidate (poolId id : Nat) : Prop :=
  ∃ ms, t.metaServerMap.lookup id = some ms ∧ ms.onlineState = .ONLINE ∧
    ms.space.isMetaserverResourceAvailable = true ∧
    t.getCopysetNumInMetaserver id < t.maxCopysetNumInMetaserver ∧
    ∃ server, t.serverMap.lookup ms.serverId = some server ∧ server.poolId = poolId

/-- The zone of a metaserver: the zone of its server. -/
def zoneOf (id : Nat) : Option Nat :=
  (t.metaServerMap.lookup id).bind fun ms => (t.serverMap.lookup ms.serverId).map (·.zoneId)

/-- The metaserver `ms` is on a server of pool `poolId` in zone `zoneId`. -/
def onServerIn (poolId zoneId : Nat) (ms : Σ _ : Nat, MetaServer) : Bool :=
  (t.serverMap.lookup ms.2.serverId).any fun s => decide (s.poolId = poolId ∧ s.zoneId = zoneId)

/-- The ids of the metaservers of `l` on servers of the pool in zone `zoneId`, in order. -/
def candidatesIn (l : List (Σ _ : Nat, MetaServer)) (poolId zoneId : Nat) : List Nat :=
  (l.filter (t.onServerIn poolId zoneId)).map (·.1)

theorem onServerIn_eq_true {poolId zoneId : Nat} {ms : Σ _ : Nat, MetaServer} :
    t.onServerIn poolId zoneId ms = true ↔
      ∃ s, t.serverMap.lookup ms.2.serverId = some s ∧ s.poolId = poolId ∧ s.zoneId = zoneId := by
  simp [onServerIn, Option.any_eq_true]

theorem candidatesIn_append_singleton (l : List (Σ _ : Nat, MetaServer))
    (ms : Σ _ : Nat, MetaServer) (poolId zoneId : Nat) :
    t.candidatesIn (l ++ [ms]) poolId zoneId =
      t.candidatesIn l poolId zoneId ++ if t.onServerIn poolId zoneId ms then [ms.1] else [] := by
  unfold candidatesIn
  rw [List.filter_append, List.map_append, List.filter_singleton]
  cases t.onServerIn poolId zoneId ms <;> rfl

/-- A candidate listed for a zone is a `Candidate` of the pool, in that zone. -/
theorem candidate_of_mem_candidatesIn {poolId zoneId id : Nat}
    (h : id ∈ t.candidatesIn t.getAvailableMetaserversUnlock poolId zoneId) :
    t.Candidate poolId id ∧ t.zoneOf id = some zoneId := by
  obtain ⟨ms, hms, rfl⟩ := List.mem_map.mp h
  obtain ⟨havail, hon⟩ := List.mem_filter.mp hms
  obtain ⟨hentry, hok⟩ := List.mem_filter.mp havail
  obtain ⟨s, hs, hpool, hzone⟩ := (t.onServerIn_eq_true).mp hon
  have hlookup : t.metaServerMap.lookup ms.1 = some ms.2 := AList.mem_lookup_iff.mpr hentry
  simp only [Bool.and_eq_true, decide_eq_true_eq] at hok
  refine ⟨⟨ms.2, hlookup, hok.1.1, hok.1.2, hok.2, s, hs, hpool⟩, ?_⟩
  simp [zoneOf, hlookup, hs, hzone]

/-- What the loop of `GenCandidateMapUnlock` builds from the metaservers `l` it went over: a
`std::map` in key order, whose zones each have a candidate and list exactly their candidates
of `l`, in the order of `l`. -/
structure CandidateMap (l : List (Σ _ : Nat, MetaServer)) (poolId : Nat)
    (candidateMap : List (Nat × List Nat)) : Prop where
  sorted : candidateMap.Pairwise fun a b => a.1 < b.1
  nonempty : ∀ e ∈ candidateMap, e.2 ≠ []
  lookup_eq : ∀ zoneId, (candidateMap.lookup zoneId).getD [] = t.candidatesIn l poolId zoneId

theorem candidateMap_nil (poolId : Nat) : t.CandidateMap [] poolId [] :=
  ⟨List.Pairwise.nil, fun _ h => absurd h List.not_mem_nil, fun _ => rfl⟩

/-- One pass of the loop: a metaserver whose server is missing stops it; any other keeps the
map a `CandidateMap`. -/
theorem addCandidate_spec {l : List (Σ _ : Nat, MetaServer)} {poolId : Nat}
    {candidateMap : List (Nat × List Nat)} (h : t.CandidateMap l poolId candidateMap)
    (ms : Σ _ : Nat, MetaServer) :
    (t.serverMap.lookup ms.2.serverId = none ∧
        t.addCandidate poolId candidateMap ms = .error .TOPO_SERVER_NOT_FOUND) ∨
      ∃ candidateMap', t.addCandidate poolId candidateMap ms = .ok candidateMap' ∧
        t.CandidateMap (l ++ [ms]) poolId candidateMap' := by
  unfold addCandidate
  cases hs : t.serverMap.lookup ms.2.serverId with
  | none => exact .inl ⟨rfl, rfl⟩
  | some server =>
    have hon : ∀ z,
        t.onServerIn poolId z ms = decide (server.poolId = poolId ∧ server.zoneId = z) := by
      intro z
      simp [onServerIn, hs]
    refine .inr ?_
    dsimp only
    split_ifs with hpool
    · -- a server of another pool: the metaserver is no candidate
      refine ⟨candidateMap, rfl, h.sorted, h.nonempty, fun z => ?_⟩
      rw [candidatesIn_append_singleton, hon, h.lookup_eq]
      simp [Ne.symm hpool]
    · -- the metaserver goes to the back of its zone
      refine ⟨_, rfl, pairwise_orderedMapAssign h.sorted, ?_, fun z => ?_⟩
      · intro e he
        rcases mem_orderedMapAssign he with rfl | he
        · simp
        · exact h.nonempty e he
      · rw [lookup_orderedMapAssign, candidatesIn_append_singleton, hon, ← h.lookup_eq]
        by_cases hz : z = server.zoneId
        · subst hz
          simp [not_not.mp hpool]
        · simp [hz, Ne.symm hz]

/-- The loop over the metaservers `l`, after those of `pre`. -/
theorem foldlM_addCandidate_spec (poolId : Nat) :
    ∀ (l pre : List (Σ _ : Nat, MetaServer)) (candidateMap : List (Nat × List Nat)),
      t.CandidateMap pre poolId candidateMap →
      (l.foldlM (t.addCandidate poolId) candidateMap = .error .TOPO_SERVER_NOT_FOUND ∧
          ∃ ms ∈ l, t.serverMap.lookup ms.2.serverId = none) ∨
        ∃ candidateMap', l.foldlM (t.addCandidate poolId) candidateMap = .ok candidateMap' ∧
          t.CandidateMap (pre ++ l) poolId candidateMap'
  | [], pre, candidateMap, h => .inr ⟨candidateMap, rfl, by rwa [List.append_nil]⟩
  | ms :: l, pre, candidateMap, h => by
    rw [List.foldlM_cons]
    rcases t.addCandidate_spec h ms with ⟨hs, he⟩ | ⟨candidateMap', he, h'⟩
    · exact .inl ⟨by rw [he]; rfl, ms, List.mem_cons_self, hs⟩
    · rw [he]
      rcases foldlM_addCandidate_spec poolId l (pre ++ [ms]) candidateMap' h' with
        ⟨herr, ms', hms', hs⟩ | ⟨candidateMap'', hok, h''⟩
      · exact .inl ⟨herr, ms', List.mem_cons_of_mem ms hms', hs⟩
      · refine .inr ⟨candidateMap'', hok, ?_⟩
        rwa [List.append_assoc, List.singleton_append] at h''

/-- `GenCandidateMapUnlock` fails only on an available metaserver whose server is missing, and
otherwise groups the candidates of the pool by zone. -/
theorem genCandidateMapUnlock_spec (poolId : Nat) :
    (t.genCandidateMapUnlock poolId = .error .TOPO_SERVER_NOT_FOUND ∧
        ∃ ms ∈ t.getAvailableMetaserversUnlock, t.serverMap.lookup ms.2.serverId = none) ∨
      ∃ candidateMap, t.genCandidateMapUnlock poolId = .ok candidateMap ∧
        t.CandidateMap t.getAvailableMetaserversUnlock poolId candidateMap :=
  t.foldlM_addCandidate_spec poolId _ [] [] (t.candidateMap_nil poolId)

/-- The zones of a candidate map are distinct. -/
theorem CandidateMap.nodup_keys {l : List (Σ _ : Nat, MetaServer)} {poolId : Nat}
    {candidateMap : List (Nat × List Nat)} (h : t.CandidateMap l poolId candidateMap) :
    (candidateMap.map (·.1)).Nodup :=
  List.pairwise_map.mpr (h.sorted.imp ne_of_lt)

/-- Every zone of a candidate map has a candidate, so `min_size` is positive. -/
theorem CandidateMap.foldl_min_pos {l : List (Σ _ : Nat, MetaServer)} {poolId : Nat}
    {candidateMap : List (Nat × List Nat)} (h : t.CandidateMap l poolId candidateMap) :
    0 < (candidateMap.map (·.2.length)).foldl min UINT32_MAX := by
  show 1 ≤ _
  apply le_foldl_min _ _ (by decide)
  intro x hx
  obtain ⟨e, he, rfl⟩ := List.mem_map.mp hx
  exact List.length_pos_of_ne_nil (h.nonempty e he)

theorem candidateMap_of_genCandidateMapUnlock {poolId : Nat}
    {candidateMap : List (Nat × List Nat)}
    (hok : t.genCandidateMapUnlock poolId = .ok candidateMap) :
    t.CandidateMap t.getAvailableMetaserversUnlock poolId candidateMap := by
  rcases t.genCandidateMapUnlock_spec poolId with ⟨he, -⟩ | ⟨candidateMap', hok', h⟩
  · rw [he] at hok
    cases hok
  · rw [hok] at hok'
    cases hok'
    exact h

end TopologyImpl

/-! ### A round -/

theorem length_layOut (candidateMap : List (Nat × List Nat)) (zoneIds : List Nat)
    (minSize : Nat) : (layOut candidateMap zoneIds minSize).length = minSize * zoneIds.length := by
  simp [layOut, List.length_flatMap]

/-- Where every zone has `minSize` candidates, a map that is constant on each zone's candidates
sends the layout to the zones, row after row. -/
theorem map_layOut {β : Type*} (f : Nat → β) (g : Nat → β)
    {candidateMap : List (Nat × List Nat)} {zoneIds : List Nat} {minSize : Nat}
    (hcol : ∀ z ∈ zoneIds, minSize ≤ ((candidateMap.lookup z).getD []).length ∧
      ∀ id ∈ (candidateMap.lookup z).getD [], f id = g z) :
    (layOut candidateMap zoneIds minSize).map f =
      (List.replicate minSize (zoneIds.map g)).flatten := by
  unfold layOut
  rw [List.flatMap, List.map_flatten, List.map_map]
  congr 1
  apply List.eq_replicate_iff.mpr
  refine ⟨by simp, fun row hrow => ?_⟩
  obtain ⟨i, hi, rfl⟩ := List.mem_map.mp hrow
  rw [List.mem_range] at hi
  rw [Function.comp_apply, List.map_map]
  apply List.map_congr_left
  intro z hz
  obtain ⟨hlen, hf⟩ := hcol z hz
  rw [Function.comp_apply, List.getD_eq_getElem _ _ (by omega)]
  exact hf _ (List.getElem_mem _)

theorem exists_of_mem_layOut {candidateMap : List (Nat × List Nat)} {zoneIds : List Nat}
    {minSize id : Nat} (h : id ∈ layOut candidateMap zoneIds minSize)
    (hcol : ∀ z ∈ zoneIds, minSize ≤ ((candidateMap.lookup z).getD []).length) :
    ∃ z ∈ zoneIds, id ∈ (candidateMap.lookup z).getD [] := by
  obtain ⟨i, hi, hrow⟩ := List.mem_flatMap.mp h
  obtain ⟨z, hz, rfl⟩ := List.mem_map.mp hrow
  rw [List.mem_range] at hi
  refine ⟨z, hz, ?_⟩
  rw [List.getD_eq_getElem _ _ (by have := hcol z hz; omega)]
  exact List.getElem_mem _

theorem length_copysetsOfRound (poolId replicaNum : Nat) (msIds : List Nat) :
    (copysetsOfRound poolId replicaNum msIds).length = msIds.length / replicaNum := by
  simp [copysetsOfRound]

/-- The `std::set` filled from distinct ids holds those ids. -/
theorem perm_foldl_orderedSetInsert {w : List Nat} (hw : w.Nodup) :
    (w.foldl (fun s id => orderedSetInsert (fun a b => decide (a < b)) id s) []).Perm w := by
  have h := @foldl_orderedSetInsert Nat (fun a b => decide (a < b)) id (fun _ => True)
    (fun _ _ _ _ => rfl) (fun _ => True) _ w [] (fun _ _ => trivial) (by simpa using hw)
    List.Pairwise.nil
  simpa using h.1

/-- Copyset `i` of a round is filled from the run of places `i * replicaNum` on. -/
theorem mem_copysetsOfRound {poolId replicaNum : Nat} {msIds : List Nat} {c : CopysetCreateInfo}
    (hR : 0 < replicaNum) (h : c ∈ copysetsOfRound poolId replicaNum msIds) :
    c.poolId = poolId ∧ ∃ i, (i + 1) * replicaNum ≤ msIds.length ∧
      c.metaServerIds = ((msIds.drop (i * replicaNum)).take replicaNum).foldl
        (fun s id => orderedSetInsert (fun a b => decide (a < b)) id s) [] := by
  obtain ⟨i, hi, rfl⟩ := List.mem_map.mp h
  rw [List.mem_range] at hi
  exact ⟨rfl, i, (Nat.le_div_iff_mul_le hR).mp hi, rfl⟩

/-- What the rounds of step 4 keep of the candidate map `candidateMap₀` they start from: each
zone's candidates up to order, and the zones up to order. -/
structure Shuffled (candidateMap₀ candidateMap : List (Nat × List Nat)) (zoneIds : List Nat) :
    Prop where
  perm : ∀ z, ((candidateMap.lookup z).getD []).Perm ((candidateMap₀.lookup z).getD [])
  zoneIds_perm : zoneIds.Perm (candidateMap₀.map (·.1))

theorem Shuffled.refl (candidateMap : List (Nat × List Nat)) :
    Shuffled candidateMap candidateMap (candidateMap.map (·.1)) :=
  ⟨fun _ => List.Perm.refl _, List.Perm.refl _⟩

/-- The shuffles of a round keep `Shuffled`. -/
theorem Shuffled.shuffle {candidateMap₀ candidateMap : List (Nat × List Nat)} {zoneIds : List Nat}
    (h : Shuffled candidateMap₀ candidateMap zoneIds) (rng : Shuffler) (n m : Nat) :
    Shuffled candidateMap₀ (rng.shuffleEach n candidateMap) (rng.shuffle m zoneIds) :=
  ⟨fun z => (rng.lookup_shuffleEach_perm z n candidateMap).trans (h.perm z),
    (rng.perm m zoneIds).trans h.zoneIds_perm⟩

/-- Step 4 stops once it has `min_size * replicaNum` copysets. -/
theorem forPoolLoop_of_le (rng : Shuffler) {poolId replicaNum minSize fuel n createCount : Nat}
    {candidateMap : List (Nat × List Nat)} {zoneIds : List Nat}
    {copysetList : List CopysetCreateInfo} (h : minSize * replicaNum ≤ createCount) :
    forPoolLoop rng poolId replicaNum minSize fuel n createCount candidateMap zoneIds
      copysetList = some (n, copysetList) := by
  cases fuel <;> rw [forPoolLoop, if_neg (not_lt.mpr h)]

namespace TopologyImpl

variable (t : TopologyImpl)

/-- A copyset as placement means it: `replicaNum` candidates of the pool, in pairwise
distinct zones. -/
structure Placed (poolId replicaNum : Nat) (c : CopysetCreateInfo) : Prop where
  poolId_eq : c.poolId = poolId
  length_eq : c.metaServerIds.length = replicaNum
  candidate : ∀ id ∈ c.metaServerIds, t.Candidate poolId id
  zones_nodup : (c.metaServerIds.map t.zoneOf).Nodup

/-- A round's copysets are placed where its layout has candidates only and no zone twice in a
run of `replicaNum` places. -/
theorem placed_of_mem_copysetsOfRound {poolId replicaNum : Nat} {msIds : List Nat}
    (hR : 0 < replicaNum) (hcand : ∀ id ∈ msIds, t.Candidate poolId id)
    (hruns : ∀ i, (((msIds.map t.zoneOf).drop (i * replicaNum)).take replicaNum).Nodup) :
    ∀ c ∈ copysetsOfRound poolId replicaNum msIds, t.Placed poolId replicaNum c := by
  intro c hc
  obtain ⟨hpool, i, hi, hc⟩ := mem_copysetsOfRound hR hc
  -- the run of the layout that `c` was filled from
  have hrun : (((msIds.drop (i * replicaNum)).take replicaNum).map t.zoneOf).Nodup := by
    rw [List.map_take, List.map_drop]
    exact hruns i
  have hperm := perm_foldl_orderedSetInsert hrun.of_map
  rw [← hc] at hperm
  refine ⟨hpool, ?_, ?_, ?_⟩
  · rw [hperm.length_eq, List.length_take, List.length_drop]
    rw [Nat.add_mul, Nat.one_mul] at hi
    omega
  · intro id hid
    exact hcand id (List.mem_of_mem_drop (List.mem_of_mem_take (hperm.subset hid)))
  · exact (hperm.map t.zoneOf).nodup_iff.mpr hrun

variable {poolId replicaNum minSize : Nat} {candidateMap₀ : List (Nat × List Nat)}

/-- In a round, every zone has `minSize` candidates, each a candidate of the pool in that
zone. -/
theorem zone_of_shuffled
    (hcm : t.CandidateMap t.getAvailableMetaserversUnlock poolId candidateMap₀)
    {candidateMap : List (Nat × List Nat)} {zoneIds : List Nat}
    (hS : Shuffled candidateMap₀ candidateMap zoneIds)
    (hmin : ∀ e ∈ candidateMap₀, minSize ≤ e.2.length) :
    ∀ z ∈ zoneIds, minSize ≤ ((candidateMap.lookup z).getD []).length ∧
      ∀ id ∈ (candidateMap.lookup z).getD [], t.Candidate poolId id ∧ t.zoneOf id = some z := by
  intro z hz
  obtain ⟨e, he, rfl⟩ := List.mem_map.mp (hS.zoneIds_perm.subset hz)
  have hlookup : candidateMap₀.lookup e.1 = some e.2 := lookup_of_mem hcm.sorted he
  refine ⟨?_, fun id hid => ?_⟩
  · rw [(hS.perm e.1).length_eq, hlookup]
    exact hmin e he
  · apply t.candidate_of_mem_candidatesIn
    rw [← hcm.lookup_eq]
    exact (hS.perm e.1).subset hid

/-- A round over `replicaNum ≤` zones makes `min_size * zones / replicaNum` placed copysets. -/
theorem round_spec (hcm : t.CandidateMap t.getAvailableMetaserversUnlock poolId candidateMap₀)
    {candidateMap : List (Nat × List Nat)} {zoneIds : List Nat}
    (hS : Shuffled candidateMap₀ candidateMap zoneIds) (hR : 0 < replicaNum)
    (hRz : replicaNum ≤ candidateMap₀.length)
    (hmin : ∀ e ∈ candidateMap₀, minSize ≤ e.2.length) :
    (∀ c ∈ copysetsOfRound poolId replicaNum (layOut candidateMap zoneIds minSize),
        t.Placed poolId replicaNum c) ∧
      (copysetsOfRound poolId replicaNum (layOut candidateMap zoneIds minSize)).length =
        minSize * candidateMap₀.length / replicaNum := by
  have hcol := t.zone_of_shuffled hcm hS hmin
  have hlen : zoneIds.length = candidateMap₀.length := by
    rw [hS.zoneIds_perm.length_eq, List.length_map]
  refine ⟨t.placed_of_mem_copysetsOfRound hR ?_ ?_, ?_⟩
  · intro id hid
    obtain ⟨z, hz, hid⟩ := exists_of_mem_layOut hid fun z hz => (hcol z hz).1
    exact ((hcol z hz).2 id hid).1
  · -- the zones of the layout are the round's zones row after row
    intro i
    rw [map_layOut t.zoneOf some fun z hz =>
      ⟨(hcol z hz).1, fun id hid => ((hcol z hz).2 id hid).2⟩]
    apply nodup_take_drop_flatten_replicate
    · exact (hS.zoneIds_perm.nodup_iff.mpr hcm.nodup_keys).map (Option.some_injective Nat)
    · rw [List.length_map, hlen]
      exact hRz
  · rw [length_copysetsOfRound, length_layOut, hlen]

/-! ### The loop and the pool -/

/-- Step 4 ends with `min_size * replicaNum` placed copysets once the fuel covers the copysets
still missing: each round adds at least one, since `replicaNum` is at most the zone count and
every zone has `min_size ≥ 1` candidates. The induction is on the fuel, with `Shuffled` as the
invariant of the rounds. -/
theorem forPoolLoop_spec (rng : Shuffler)
    (hcm : t.CandidateMap t.getAvailableMetaserversUnlock poolId candidateMap₀)
    (hR : 0 < replicaNum) (hRz : replicaNum ≤ candidateMap₀.length) (hmin₀ : 0 < minSize)
    (hmin : ∀ e ∈ candidateMap₀, minSize ≤ e.2.length) :
    ∀ (fuel n : Nat) (candidateMap : List (Nat × List Nat)) (zoneIds : List Nat)
      (copysetList : List CopysetCreateInfo), Shuffled candidateMap₀ candidateMap zoneIds →
      minSize * replicaNum ≤ copysetList.length + fuel →
      (∀ c ∈ copysetList, t.Placed poolId replicaNum c) →
      ∃ n' copysetList', forPoolLoop rng poolId replicaNum minSize fuel n copysetList.length
          candidateMap zoneIds copysetList = some (n', copysetList') ∧
        minSize * replicaNum ≤ copysetList'.length ∧
        ∀ c ∈ copysetList', t.Placed poolId replicaNum c := by
  intro fuel
  induction fuel with
  | zero =>
    intro n candidateMap zoneIds copysetList _ hfuel hplaced
    exact ⟨n, copysetList, forPoolLoop_of_le rng hfuel, hfuel, hplaced⟩
  | succ fuel ih =>
    intro n candidateMap zoneIds copysetList hS hfuel hplaced
    rw [forPoolLoop]
    split_ifs with hlt
    · dsimp only
      have hS' := hS.shuffle rng n (n + candidateMap.length)
      obtain ⟨hround, hcount⟩ := t.round_spec hcm hS' hR hRz hmin
      -- the round adds a copyset
      have hpos : 0 < minSize * candidateMap₀.length / replicaNum :=
        Nat.div_pos (hRz.trans (Nat.le_mul_of_pos_left _ hmin₀)) hR
      have h := ih (n + candidateMap.length + 1) _ _ (copysetList ++ _) hS'
        (by rw [List.length_append, hcount]; omega)
        (fun c hc => (List.mem_append.mp hc).elim (hplaced c) (hround c))
      rwa [List.length_append] at h
    · exact ⟨n, copysetList, rfl, not_lt.mp hlt, hplaced⟩

/-- With a candidate map over `replicaNum ≥ 1` zones, the pool gives at least
`min_size * replicaNum` placed copysets. -/
theorem genCopysetAddrBatchForPool_of_ok (rng : Shuffler) (n : Nat)
    {candidateMap : List (Nat × List Nat)}
    (hok : t.genCandidateMapUnlock poolId = .ok candidateMap) (hR : 1 ≤ replicaNum)
    (hRz : replicaNum ≤ candidateMap.length) :
    ∃ n' l, t.genCopysetAddrBatchForPool rng n poolId replicaNum = some (n', .ok l) ∧
      (candidateMap.map (·.2.length)).foldl min UINT32_MAX * replicaNum ≤ l.length ∧
      ∀ c ∈ l, t.Placed poolId replicaNum c := by
  have hcm := t.candidateMap_of_genCandidateMapUnlock hok
  have hmin : ∀ e ∈ candidateMap,
      (candidateMap.map (·.2.length)).foldl min UINT32_MAX ≤ e.2.length :=
    fun e he => foldl_min_le (List.mem_map_of_mem he) _
  obtain ⟨n', l, hloop, hlen, hplaced⟩ := t.forPoolLoop_spec rng hcm hR hRz hcm.foldl_min_pos
    hmin _ n candidateMap _ [] (Shuffled.refl candidateMap) (Nat.le_add_left _ _) (by simp)
  refine ⟨n', l, ?_, hlen, hplaced⟩
  rw [genCopysetAddrBatchForPool, hok]
  dsimp only
  rw [if_neg (not_lt.mpr hRz), ← List.length_nil, hloop]
  rfl

/-- `GenCopysetAddrBatchForPool` with `replicaNum ≥ 1` ends on every topology: it fails with
`TOPO_SERVER_NOT_FOUND` on an available metaserver whose server is missing, with
`TOPO_METASERVER_NOT_FOUND` when fewer than `replicaNum` zones have a candidate (the zones of
the `CandidateMap`), and otherwise returns at least `min_size * replicaNum` placed copysets. -/
theorem genCopysetAddrBatchForPool_spec (rng : Shuffler) (n poolId replicaNum : Nat)
    (hR : 1 ≤ replicaNum) :
    ∃ n' r, t.genCopysetAddrBatchForPool rng n poolId replicaNum = some (n', r) ∧
      ((r = .error .TOPO_SERVER_NOT_FOUND ∧
          ∃ ms ∈ t.getAvailableMetaserversUnlock, t.serverMap.lookup ms.2.serverId = none) ∨
        (∃ candidateMap, t.genCandidateMapUnlock poolId = .ok candidateMap ∧
          t.CandidateMap t.getAvailableMetaserversUnlock poolId candidateMap ∧
          candidateMap.length < replicaNum ∧ r = .error .TOPO_METASERVER_NOT_FOUND) ∨
        ∃ candidateMap l, t.genCandidateMapUnlock poolId = .ok candidateMap ∧
          t.CandidateMap t.getAvailableMetaserversUnlock poolId candidateMap ∧ r = .ok l ∧
          (candidateMap.map (·.2.length)).foldl min UINT32_MAX * replicaNum ≤ l.length ∧
          ∀ c ∈ l, t.Placed poolId replicaNum c) := by
  rcases t.genCandidateMapUnlock_spec poolId with ⟨he, hmissing⟩ | ⟨candidateMap, hok, hcm⟩
  · refine ⟨n, _, ?_, .inl ⟨rfl, hmissing⟩⟩
    rw [genCopysetAddrBatchForPool, he]
  · by_cases hlt : candidateMap.length < replicaNum
    · refine ⟨n, _, ?_, .inr (.inl ⟨candidateMap, hok, hcm, hlt, rfl⟩)⟩
      rw [genCopysetAddrBatchForPool, hok]
      dsimp only
      rw [if_pos hlt]
    · obtain ⟨n', l, h, hlen, hplaced⟩ :=
        t.genCopysetAddrBatchForPool_of_ok rng n hok hR (not_lt.mp hlt)
      exact ⟨n', _, h, .inr (.inr ⟨candidateMap, l, hok, hcm, rfl, hlen, hplaced⟩)⟩

/-- With `replicaNum` 0 step 4 does not run: the pool gives nothing, and no shuffle is made. -/
theorem genCopysetAddrBatchForPool_zero (rng : Shuffler) (n : Nat)
    {candidateMap : List (Nat × List Nat)}
    (hok : t.genCandidateMapUnlock poolId = .ok candidateMap) :
    t.genCopysetAddrBatchForPool rng n poolId 0 = some (n, .ok []) := by
  rw [genCopysetAddrBatchForPool, hok]
  dsimp only
  rw [if_neg (Nat.not_lt_zero _), forPoolLoop_of_le rng (by simp)]
  rfl

/-! ### What the batch needs of a pool -/

/-- A pool every call of `GenCopysetAddrBatchForPool` gives copysets: a positive `replicaNum`,
and candidates in at least that many zones. Nothing here depends on the generator. -/
def Producer (poolId replicaNum : Nat) : Prop :=
  1 ≤ replicaNum ∧
    ∃ candidateMap, t.genCandidateMapUnlock poolId = .ok candidateMap ∧
      replicaNum ≤ candidateMap.length

theorem exists_ok_of_producer (rng : Shuffler) (n : Nat) (h : t.Producer poolId replicaNum) :
    ∃ n' l, t.genCopysetAddrBatchForPool rng n poolId replicaNum = some (n', .ok l) ∧ l ≠ [] := by
  obtain ⟨hR, candidateMap, hok, hRz⟩ := h
  obtain ⟨n', l, h, hlen, -⟩ := t.genCopysetAddrBatchForPool_of_ok rng n hok hR hRz
  have hpos := (t.candidateMap_of_genCandidateMapUnlock hok).foldl_min_pos
  refine ⟨n', l, h, List.ne_nil_of_length_pos ?_⟩
  exact lt_of_lt_of_le (Nat.mul_pos hpos hR) hlen

/-- Every call of `GenCopysetAddrBatchForPool` ends, for any `replicaNum`; one that gives a
copyset is a call on a `Producer`. -/
theorem genCopysetAddrBatchForPool_cases (rng : Shuffler) (n poolId replicaNum : Nat) :
    ∃ n' r, t.genCopysetAddrBatchForPool rng n poolId replicaNum = some (n', r) ∧
      ∀ l, r = .ok l → l ≠ [] → t.Producer poolId replicaNum := by
  by_cases hP : t.Producer poolId replicaNum
  · obtain ⟨n', l, h, -⟩ := t.exists_ok_of_producer rng n hP
    exact ⟨n', _, h, fun _ _ _ => hP⟩
  · -- a failed candidate map, too few zones, or `replicaNum = 0`, where step 4 does not run
    cases hok : t.genCandidateMapUnlock poolId with
    | error e =>
      refine ⟨n, .error e, ?_, fun l h => by cases h⟩
      rw [genCopysetAddrBatchForPool, hok]
    | ok candidateMap =>
      by_cases hlt : candidateMap.length < replicaNum
      · refine ⟨n, .error .TOPO_METASERVER_NOT_FOUND, ?_, fun l h => by cases h⟩
        rw [genCopysetAddrBatchForPool, hok]
        dsimp only
        rw [if_pos hlt]
      · have hR : replicaNum = 0 := by
          by_contra hR
          exact hP ⟨Nat.one_le_iff_ne_zero.mpr hR, candidateMap, hok, not_lt.mp hlt⟩
        subst hR
        refine ⟨n, .ok [], t.genCopysetAddrBatchForPool_zero rng n hok, fun l h hl => ?_⟩
        cases h
        exact absurd rfl hl

end TopologyImpl

end DingoFs.Mds.CopysetPlacement
