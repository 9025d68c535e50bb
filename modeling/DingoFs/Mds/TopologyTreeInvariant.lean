import DingoFs.Mds.TopologyTree
import Mathlib

/-!
# What every run of the topology registry keeps

`TopoInv` is what holds of every topology a run of calls reaches from that of a new cluster:
the three levels are linked both ways with no id listed twice (`Linked`), a server's pool is
its zone's, and each pool's `diskCapacity_` is the sum, in `uint64_t`, of the disk thresholds
of the metaservers whose server is in that pool (`poolThreshold`).

Each call keeps `TopoInv` by one lemma that cites the call's inversion lemma and the update
lemmas of `Linked` and `entrySum`; `TopoStep.topoInv` takes one case per call, and the run
lemma is an induction over the run. From `TopoInv`: `RemoveMetaServer` never reads through the
end iterator, and the three calls that could report `TOPO_POOL_NOT_FOUND` after changing the
topology never do.
-/

namespace DingoFs.Mds.TopologyTree

open DingoFs.Lib

namespace TopologyImpl

/-- The pool of a metaserver: its server's, as `GetPoolIdByMetaserverId` finds it. -/
def poolOf (t : TopologyImpl) (metaserver : MetaServer) : Option Nat :=
  (t.serverMap.lookup metaserver.serverId).map Server.poolId

/-- A metaserver's disk threshold if it is in pool `poolId`, and nothing otherwise. -/
def thresholdIn (t : TopologyImpl) (poolId : Nat) (metaserver : MetaServer) : UInt64 :=
  if t.poolOf metaserver = some poolId then metaserver.space.diskThresholdByte else 0

/-- The sum of the disk thresholds of the metaservers of pool `poolId`, in `uint64_t`. -/
def poolThreshold (t : TopologyImpl) (poolId : Nat) : UInt64 :=
  entrySum t.metaServerMap fun _ metaserver => t.thresholdIn poolId metaserver

end TopologyImpl

/-- What every reachable topology satisfies. -/
structure TopoInv (t : TopologyImpl) : Prop where
  zones : Linked Pool.zoneList Zone.poolId t.poolMap t.zoneMap
  servers : Linked Zone.serverList Server.zoneId t.zoneMap t.serverMap
  metaServers : Linked Server.metaServerList MetaServer.serverId t.serverMap t.metaServerMap
  serverPool : ∀ {s server}, t.serverMap.lookup s = some server →
    (t.zoneMap.lookup server.zoneId).map Zone.poolId = some server.poolId
  capacity : ∀ {p pool}, t.poolMap.lookup p = some pool → pool.diskCapacity = t.poolThreshold p

theorem topoInv_empty : TopoInv TopologyImpl.empty where
  zones := linked_empty
  servers := linked_empty
  metaServers := linked_empty
  serverPool h := by simp [TopologyImpl.empty] at h
  capacity h := by simp [TopologyImpl.empty] at h

/-! ## Pool sums under updates of the metaservers -/

section Threshold

variable {t t' : TopologyImpl} {m q : Nat} {metaserver metaserver' : MetaServer}

/-- Metaservers whose pools are as they were keep every pool's sum. -/
theorem poolThreshold_congr (hmap : t'.metaServerMap = t.metaServerMap)
    (hpool : ∀ m ms, t.metaServerMap.lookup m = some ms → t'.poolOf ms = t.poolOf ms) :
    t'.poolThreshold q = t.poolThreshold q := by
  unfold TopologyImpl.poolThreshold
  rw [hmap]
  apply entrySum_congr
  intro m ms hms
  unfold TopologyImpl.thresholdIn
  rw [hpool m ms hms]

/-- The sum over every metaserver but `m` is as it was when the others' pools are. -/
theorem entrySum_erase_thresholdIn
    (hpool : ∀ m ms, t.metaServerMap.lookup m = some ms → t'.poolOf ms = t.poolOf ms) :
    entrySum (t.metaServerMap.erase m) (fun _ ms => t'.thresholdIn q ms) =
      entrySum (t.metaServerMap.erase m) (fun _ ms => t.thresholdIn q ms) := by
  apply entrySum_congr
  intro m' ms hms
  have hne : m' ≠ m := by
    rintro rfl
    simp at hms
  rw [AList.lookup_erase_ne hne] at hms
  unfold TopologyImpl.thresholdIn
  rw [hpool m' ms hms]

/-- A new metaserver adds its threshold to its pool's sum. -/
theorem poolThreshold_insert_of_notMem (hm : m ∉ t.metaServerMap)
    (hmap : t'.metaServerMap = t.metaServerMap.insert m metaserver)
    (hpool : ∀ m ms, t.metaServerMap.lookup m = some ms → t'.poolOf ms = t.poolOf ms) :
    t'.poolThreshold q = t'.thresholdIn q metaserver + t.poolThreshold q := by
  unfold TopologyImpl.poolThreshold
  rw [hmap, entrySum_insert, entrySum_erase_thresholdIn hpool, erase_of_notMem hm]

/-- A metaserver rewritten under an unchanged server map: its old threshold leaves its pool's
sum and its new one joins. -/
theorem poolThreshold_insert_of_lookup (hm : t.metaServerMap.lookup m = some metaserver)
    (hmap : t'.metaServerMap = t.metaServerMap.insert m metaserver')
    (hservers : t'.serverMap = t.serverMap) :
    t'.poolThreshold q + t.thresholdIn q metaserver =
      t.thresholdIn q metaserver' + t.poolThreshold q := by
  have hpool : ∀ ms, t'.poolOf ms = t.poolOf ms := by
    intro ms
    unfold TopologyImpl.poolOf
    rw [hservers]
  have hthr : t'.thresholdIn q metaserver' = t.thresholdIn q metaserver' := by
    unfold TopologyImpl.thresholdIn
    rw [hpool]
  unfold TopologyImpl.poolThreshold
  rw [hmap, entrySum_insert, entrySum_erase_thresholdIn fun _ ms _ => hpool ms,
    entrySum_eq_add_erase hm, hthr]
  abel

/-- A removed metaserver takes its threshold from its pool's sum. -/
theorem poolThreshold_erase (hm : t.metaServerMap.lookup m = some metaserver)
    (hmap : t'.metaServerMap = t.metaServerMap.erase m)
    (hpool : ∀ m ms, t.metaServerMap.lookup m = some ms → t'.poolOf ms = t.poolOf ms) :
    t'.poolThreshold q + t.thresholdIn q metaserver = t.poolThreshold q := by
  unfold TopologyImpl.poolThreshold
  rw [hmap, entrySum_erase_thresholdIn hpool, entrySum_eq_add_erase hm, add_comm]

/-- A server rewritten with its pool as it was leaves every metaserver's pool as it was. -/
theorem poolOf_set_server {s : Nat} {server server' : Server}
    (hs : t.serverMap.lookup s = some server) (hpool : server'.poolId = server.poolId)
    (ms : MetaServer) :
    ({ t with serverMap := t.serverMap.insert s server' } : TopologyImpl).poolOf ms =
      t.poolOf ms :=
  map_lookup_insert_of_map_eq Server.poolId hs hpool

theorem thresholdIn_of_poolOf {p : Nat} (hp : t.poolOf metaserver = some p) :
    t.thresholdIn q metaserver = if q = p then metaserver.space.diskThresholdByte else 0 := by
  simp only [TopologyImpl.thresholdIn, hp, Option.some.injEq, @eq_comm _ p q]

variable {server : Server}

/-- `AddMetaServer`'s update: the new metaserver's threshold joins its server's pool's sum. -/
theorem poolThreshold_addMetaServer (hm : m ∉ t.metaServerMap)
    (hs : t.serverMap.lookup metaserver.serverId = some server) :
    ({ t with
      serverMap := t.serverMap.insert metaserver.serverId (server.addMetaServer m)
      metaServerMap := t.metaServerMap.insert m metaserver } : TopologyImpl).poolThreshold q =
      t.poolThreshold q + if q = server.poolId then metaserver.space.diskThresholdByte else 0 := by
  set t' : TopologyImpl := { t with
    serverMap := t.serverMap.insert metaserver.serverId (server.addMetaServer m)
    metaServerMap := t.metaServerMap.insert m metaserver }
  have hpoolOf : ∀ ms, t'.poolOf ms = t.poolOf ms :=
    poolOf_set_server hs (Server.addMetaServer_poolId server m)
  rw [poolThreshold_insert_of_notMem hm (rfl : t'.metaServerMap = _) fun _ ms _ => hpoolOf ms,
    add_comm]
  congr 1
  apply thresholdIn_of_poolOf
  refine (hpoolOf metaserver).trans ?_
  unfold TopologyImpl.poolOf
  rw [hs, Option.map_some]
/-- `RemoveMetaServer`'s update: the metaserver's threshold leaves its server's pool's sum. -/
theorem poolThreshold_removeMetaServer (hm : t.metaServerMap.lookup m = some metaserver)
    (hs : t.serverMap.lookup metaserver.serverId = some server) :
    ({ t with
      serverMap := t.serverMap.insert metaserver.serverId (server.removeMetaServer m)
      metaServerMap := t.metaServerMap.erase m } : TopologyImpl).poolThreshold q =
      t.poolThreshold q + if q = server.poolId then -metaserver.space.diskThresholdByte else 0 := by
  set t' : TopologyImpl := { t with
    serverMap := t.serverMap.insert metaserver.serverId (server.removeMetaServer m)
    metaServerMap := t.metaServerMap.erase m }
  have hpoolOf : ∀ ms, t'.poolOf ms = t.poolOf ms :=
    poolOf_set_server hs (Server.removeMetaServer_poolId server m)
  have hsum := poolThreshold_erase (q := q) hm (rfl : t'.metaServerMap = _)
    fun _ ms _ => hpoolOf ms
  have hthr : t.thresholdIn q metaserver =
      if q = server.poolId then metaserver.space.diskThresholdByte else 0 := by
    apply thresholdIn_of_poolOf
    unfold TopologyImpl.poolOf
    rw [hs, Option.map_some]
  rw [hthr] at hsum
  rw [← hsum]
  split_ifs <;> abel

/-- A metaserver rewritten under the same server: its pool's sum moves by the change of its
threshold. -/
theorem poolThreshold_setMetaServer {p : Nat} (hm : t.metaServerMap.lookup m = some metaserver)
    (hserver : metaserver'.serverId = metaserver.serverId) (hp : t.poolOf metaserver = some p) :
    ({ t with metaServerMap := t.metaServerMap.insert m metaserver' } : TopologyImpl).poolThreshold q =
      t.poolThreshold q + if q = p then
        metaserver'.space.diskThresholdByte - metaserver.space.diskThresholdByte else 0 := by
  have hp' : t.poolOf metaserver' = some p := by
    unfold TopologyImpl.poolOf at hp ⊢
    rw [hserver, hp]
  set t' : TopologyImpl := { t with metaServerMap := t.metaServerMap.insert m metaserver' }
  have hsum := poolThreshold_insert_of_lookup (q := q) hm (rfl : t'.metaServerMap = _) rfl
  rw [thresholdIn_of_poolOf hp, thresholdIn_of_poolOf hp'] at hsum
  rw [eq_sub_of_add_eq hsum]
  split_ifs <;> abel

end Threshold

/-! ## What the invariant gives -/

namespace TopoInv

variable {t t' : TopologyImpl} (inv : TopoInv t)
include inv

/-- A server's pool is in the topology. -/
theorem pool_mem_of_server {s : Nat} {server : Server} (hs : t.serverMap.lookup s = some server) :
    server.poolId ∈ t.poolMap := by
  obtain ⟨zone, hz, hpool⟩ := Option.map_eq_some_iff.mp (inv.serverPool hs)
  rw [← hpool]
  exact inv.zones.parent_mem hz

/-- A pool the topology has not got has no metaservers, so its sum is zero. -/
theorem poolThreshold_eq_zero {p : Nat} (hp : p ∉ t.poolMap) : t.poolThreshold p = 0 := by
  apply entrySum_eq_zero
  intro m ms hms
  obtain ⟨pr, hs, -⟩ := inv.metaServers.up hms
  have hne : pr.poolId ≠ p := by
    rintro rfl
    exact hp (inv.pool_mem_of_server hs)
  simp only [TopologyImpl.thresholdIn, TopologyImpl.poolOf, hs, Option.map_some,
    Option.some.injEq, hne, if_false]

/-- A pool record rewritten with its capacity as it was keeps the sums. -/
theorem capacity_set {p : Nat} {pool pool' : Pool} (hp : t.poolMap.lookup p = some pool)
    (hcap : pool'.diskCapacity = pool.diskCapacity) {q : Nat} {pq : Pool}
    (hq : (t.poolMap.insert p pool').lookup q = some pq) : pq.diskCapacity = t.poolThreshold q := by
  rcases lookup_insert_eq_some.mp hq with ⟨rfl, rfl⟩ | ⟨-, hq⟩
  · rw [hcap]
    exact inv.capacity hp
  · exact inv.capacity hq

/-- Pool `p`'s capacity moved by `d`, and its sum with it, while every other pool's sum is as
it was. -/
theorem capacity_shift {p : Nat} {pool pool' : Pool} {d : UInt64}
    (hp : t.poolMap.lookup p = some pool) (hcap : pool'.diskCapacity = pool.diskCapacity + d)
    (hsum : ∀ q, t'.poolThreshold q = t.poolThreshold q + if q = p then d else 0) {q : Nat}
    {pq : Pool} (hq : (t.poolMap.insert p pool').lookup q = some pq) :
    pq.diskCapacity = t'.poolThreshold q := by
  rcases lookup_insert_eq_some.mp hq with ⟨rfl, rfl⟩ | ⟨hne, hq⟩
  · rw [hsum, if_pos rfl, hcap, inv.capacity hp]
  · rw [hsum, if_neg hne, add_zero]
    exact inv.capacity hq

/-- The links of a server rewritten with its zone and pool as they were. -/
theorem serverPool_set_server {s : Nat} {server server' : Server}
    (hs : t.serverMap.lookup s = some server) (hzone : server'.zoneId = server.zoneId)
    (hpool : server'.poolId = server.poolId) {s' : Nat} {sv : Server}
    (hs' : (t.serverMap.insert s server').lookup s' = some sv) :
    (t.zoneMap.lookup sv.zoneId).map Zone.poolId = some sv.poolId := by
  rcases lookup_insert_eq_some.mp hs' with ⟨-, rfl⟩ | ⟨-, hs'⟩
  · rw [hzone, hpool]
    exact inv.serverPool hs
  · exact inv.serverPool hs'

end TopoInv

/-! ## Each call keeps the invariant -/

section Calls

variable {t t' : TopologyImpl} {code : TopoStatusCode} {id : Nat} {stored : Bool}

/-- `AddPool` of a pool with no zones and no capacity, as `CreatePool` builds it. -/
theorem TopoInv.addPool {data : Pool} (inv : TopoInv t) (hzones : data.zoneList = [])
    (hcap : data.diskCapacity = 0) (h : t.addPool id data stored = (code, t')) : TopoInv t' := by
  rcases TopologyImpl.addPool_cases h with ⟨-, hfresh, rfl⟩ | ⟨-, rfl⟩
  · refine ⟨inv.zones.insert_parent hfresh hzones, inv.servers, inv.metaServers,
      inv.serverPool, ?_⟩
    intro q pool hq
    rcases lookup_insert_eq_some.mp hq with ⟨rfl, rfl⟩ | ⟨-, hq⟩
    · rw [hcap]
      exact (inv.poolThreshold_eq_zero hfresh).symm
    · exact inv.capacity hq
  · exact inv

/-- `AddZone` of a zone with no servers, as `CreateZone` builds it. -/
theorem TopoInv.addZone {data : Zone} (inv : TopoInv t) (hservers : data.serverList = [])
    (h : t.addZone id data stored = (code, t')) : TopoInv t' := by
  rcases TopologyImpl.addZone_cases h with ⟨-, pool, hp, hfresh, rfl⟩ | ⟨-, rfl⟩
  · refine ⟨inv.zones.insert_child hp hfresh (Pool.addZone_zoneList pool id),
      inv.servers.insert_parent hfresh hservers, inv.metaServers, ?_,
      fun hq => inv.capacity_set hp (Pool.addZone_diskCapacity pool id) hq⟩
    intro s server hs
    dsimp only at hs ⊢
    rw [AList.lookup_insert_ne (inv.servers.parent_ne_of_notMem hfresh hs)]
    exact inv.serverPool hs
  · exact inv

/-- `AddServer` of a server with no metaservers under a zone of the pool it names, as
`RegistServer` builds it. -/
theorem TopoInv.addServer {data : Server} (inv : TopoInv t)
    (hmetaservers : data.metaServerList = [])
    (hzone : ∀ zone, t.zoneMap.lookup data.zoneId = some zone → zone.poolId = data.poolId)
    (h : t.addServer id data stored = (code, t')) : TopoInv t' := by
  rcases TopologyImpl.addServer_cases h with ⟨-, zone, hz, hfresh, rfl⟩ | ⟨-, rfl⟩
  · refine ⟨inv.zones.set_child hz (Zone.addServer_poolId zone id),
      inv.servers.insert_child hz hfresh (Zone.addServer_serverList zone id),
      inv.metaServers.insert_parent hfresh hmetaservers, ?_, ?_⟩
    · intro s server hs
      dsimp only at hs ⊢
      rw [map_lookup_insert_of_map_eq Zone.poolId hz (Zone.addServer_poolId zone id)]
      rcases lookup_insert_eq_some.mp hs with ⟨-, rfl⟩ | ⟨-, hs⟩
      · rw [hz, Option.map_some, hzone zone hz]
      · exact inv.serverPool hs
    · -- the new server has no metaservers, so no metaserver's pool moves
      intro q pool hq
      rw [inv.capacity hq]
      symm
      refine poolThreshold_congr rfl fun m ms hms => ?_
      unfold TopologyImpl.poolOf
      rw [AList.lookup_insert_ne (inv.metaServers.parent_ne_of_notMem hfresh hms)]
  · exact inv

theorem TopoInv.addMetaServer {data : MetaServer} (inv : TopoInv t)
    (h : t.addMetaServer id data stored = (code, t')) : TopoInv t' := by
  rcases TopologyImpl.addMetaServer_cases h with
    ⟨server, hs, hfresh, ⟨-, pool, hp, rfl⟩ | ⟨-, hp, -⟩⟩ | ⟨-, rfl⟩
  · -- the metaserver is in, and its pool's capacity and sum have both grown by its threshold
    refine ⟨inv.zones.set_parent hp (Pool.setDiskThreshold_zoneList _ _),
      inv.servers.set_child hs (Server.addMetaServer_zoneId server id),
      inv.metaServers.insert_child hs hfresh (Server.addMetaServer_metaServerList server id),
      inv.serverPool_set_server hs (Server.addMetaServer_zoneId server id)
        (Server.addMetaServer_poolId server id), ?_⟩
    intro q pq hq
    exact inv.capacity_shift hp (Pool.setDiskThreshold_diskCapacity _ _)
      (fun q => poolThreshold_addMetaServer hfresh hs) hq
  · exact absurd (AList.lookup_eq_none.mp hp) (not_not.mpr (inv.pool_mem_of_server hs))
  · exact inv

theorem TopoInv.removeMetaServer (inv : TopoInv t)
    (h : t.removeMetaServer id stored = some (code, t')) : TopoInv t' := by
  rcases TopologyImpl.removeMetaServer_cases h with
    ⟨metaserver, server, hm, hs, ⟨-, pool, hp, rfl⟩ | ⟨-, hp, -⟩⟩ | ⟨-, rfl⟩
  · -- the metaserver is out, and its pool's capacity and sum have both shrunk by its threshold
    refine ⟨inv.zones.set_parent hp (Pool.setDiskThreshold_zoneList _ _),
      inv.servers.set_child hs (Server.removeMetaServer_zoneId server id),
      inv.metaServers.erase_child hm hs (Server.removeMetaServer_metaServerList server id),
      inv.serverPool_set_server hs (Server.removeMetaServer_zoneId server id)
        (Server.removeMetaServer_poolId server id), ?_⟩
    intro q pq hq
    exact inv.capacity_shift hp ((Pool.setDiskThreshold_diskCapacity _ _).trans (sub_eq_add_neg _ _))
      (fun q => poolThreshold_removeMetaServer hm hs) hq
  · exact absurd (AList.lookup_eq_none.mp hp) (not_not.mpr (inv.pool_mem_of_server hs))
  · exact inv

theorem TopoInv.removeServer (inv : TopoInv t) (h : t.removeServer id stored = (code, t')) :
    TopoInv t' := by
  rcases TopologyImpl.removeServer_cases h with
    ⟨-, server, hs, hkids, ⟨zone, hz, rfl⟩ | ⟨hz, -⟩⟩ | ⟨-, rfl⟩
  · refine ⟨inv.zones.set_child hz (Zone.removeServer_poolId zone id),
      inv.servers.erase_child hs hz (Zone.removeServer_serverList zone id),
      inv.metaServers.erase_parent hs hkids, ?_, ?_⟩
    · intro s sv hs'
      dsimp only at hs' ⊢
      have hne : s ≠ id := by
        rintro rfl
        simp at hs'
      rw [AList.lookup_erase_ne hne] at hs'
      rw [map_lookup_insert_of_map_eq Zone.poolId hz (Zone.removeServer_poolId zone id)]
      exact inv.serverPool hs'
    · -- no metaserver names the server, so none loses its pool
      intro q pool hq
      rw [inv.capacity hq]
      symm
      refine poolThreshold_congr rfl fun m ms hms => ?_
      unfold TopologyImpl.poolOf
      rw [AList.lookup_erase_ne (inv.metaServers.parent_ne_of_kids_eq_nil hs hkids hms)]
  · obtain ⟨zone, hz', -⟩ := inv.servers.up hs
    rw [hz] at hz'
    cases hz'
  · exact inv

theorem TopoInv.removeZone (inv : TopoInv t) (h : t.removeZone id stored = (code, t')) :
    TopoInv t' := by
  rcases TopologyImpl.removeZone_cases h with
    ⟨-, zone, hz, hkids, ⟨pool, hp, rfl⟩ | ⟨hp, -⟩⟩ | ⟨-, rfl⟩
  · refine ⟨inv.zones.erase_child hz hp (Pool.removeZone_zoneList pool id),
      inv.servers.erase_parent hz hkids, inv.metaServers, ?_,
      fun hq => inv.capacity_set hp (Pool.removeZone_diskCapacity pool id) hq⟩
    intro s server hs
    dsimp only at hs ⊢
    rw [AList.lookup_erase_ne (inv.servers.parent_ne_of_kids_eq_nil hz hkids hs)]
    exact inv.serverPool hs
  · obtain ⟨pool, hp', -⟩ := inv.zones.up hz
    rw [hp] at hp'
    cases hp'
  · exact inv

theorem TopoInv.removePool (inv : TopoInv t) (h : t.removePool id stored = (code, t')) :
    TopoInv t' := by
  rcases TopologyImpl.removePool_cases h with ⟨-, pool, hp, hkids, rfl⟩ | ⟨-, rfl⟩
  · refine ⟨inv.zones.erase_parent hp hkids, inv.servers, inv.metaServers, inv.serverPool, ?_⟩
    intro q pq hq
    dsimp only at hq
    have hne : q ≠ id := by
      rintro rfl
      simp at hq
    rw [AList.lookup_erase_ne hne] at hq
    exact inv.capacity hq
  · exact inv

/-- The pool of every metaserver is in the topology. -/
theorem TopoInv.poolOf_eq_some (inv : TopoInv t) {metaserver : MetaServer}
    (hm : t.metaServerMap.lookup id = some metaserver) :
    ∃ server, t.serverMap.lookup metaserver.serverId = some server ∧
      t.poolOf metaserver = some server.poolId := by
  obtain ⟨server, hs, -⟩ := inv.metaServers.up hm
  refine ⟨server, hs, ?_⟩
  unfold TopologyImpl.poolOf
  rw [hs, Option.map_some]

/-- A metaserver rewritten with its server and threshold as they were keeps every sum. -/
theorem TopoInv.set_metaServer (inv : TopoInv t) {metaserver metaserver' : MetaServer}
    (hm : t.metaServerMap.lookup id = some metaserver)
    (hserver : metaserver'.serverId = metaserver.serverId)
    (hthr : metaserver'.space.diskThresholdByte = metaserver.space.diskThresholdByte) :
    TopoInv { t with metaServerMap := t.metaServerMap.insert id metaserver' } := by
  refine ⟨inv.zones, inv.servers, inv.metaServers.set_child hm hserver, inv.serverPool, ?_⟩
  intro q pool hq
  obtain ⟨server, -, hp⟩ := inv.poolOf_eq_some hm
  rw [inv.capacity hq, poolThreshold_setMetaServer hm hserver hp, hthr, sub_self]
  simp

theorem TopoInv.updateMetaServerOnlineState (inv : TopoInv t) {onlineState : OnlineState}
    (h : t.updateMetaServerOnlineState onlineState id = (code, t')) : TopoInv t' := by
  rcases TopologyImpl.updateMetaServerOnlineState_cases h with rfl | ⟨metaserver, hm, rfl⟩
  · exact inv
  · exact inv.set_metaServer hm rfl rfl

theorem TopoInv.updateMetaServerSpace (inv : TopoInv t) {space : MetaServerSpace}
    (h : t.updateMetaServerSpace space id = (code, t')) : TopoInv t' := by
  rcases TopologyImpl.updateMetaServerSpace_cases h with
    rfl | ⟨metaserver, server, hm, hs, ⟨-, hthr, rfl⟩ | ⟨-, pool, hp, rfl⟩ | ⟨-, hp, -⟩⟩
  · exact inv
  · exact inv.set_metaServer hm rfl hthr
  · -- the new space is in, and the pool's capacity and sum have both moved by the change
    have hpoolOf : t.poolOf metaserver = some server.poolId := by
      unfold TopologyImpl.poolOf
      rw [hs, Option.map_some]
    refine ⟨inv.zones.set_parent hp (Pool.setDiskThreshold_zoneList _ _), inv.servers,
      inv.metaServers.set_child hm rfl, inv.serverPool, ?_⟩
    intro q pq hq
    refine inv.capacity_shift hp (Pool.setDiskThreshold_diskCapacity _ _) ?_ hq
    intro q
    exact poolThreshold_setMetaServer hm rfl hpoolOf
  · exact absurd (AList.lookup_eq_none.mp hp) (not_not.mpr (inv.pool_mem_of_server hs))

end Calls

/-! ## Runs -/

/-- One call by the manager or the heartbeat keeps the invariant. -/
theorem TopoStep.topoInv {t t' : TopologyImpl} (hstep : TopoStep t t') (inv : TopoInv t) :
    TopoInv t' := by
  cases hstep with
  | createPool id stored => exact inv.addPool rfl rfl rfl
  | createZone id poolId stored => exact inv.addZone rfl rfl
  | registServer id zoneId poolId stored hzone => exact inv.addServer rfl hzone rfl
  | registMetaServer id data stored => exact inv.addMetaServer rfl
  | deleteMetaServer id stored h => exact inv.removeMetaServer h
  | deleteServer id stored => exact inv.removeServer rfl
  | deleteZone id stored => exact inv.removeZone rfl
  | deletePool id stored => exact inv.removePool rfl
  | updateOnlineState onlineState id => exact inv.updateMetaServerOnlineState rfl
  | updateSpace space id => exact inv.updateMetaServerSpace rfl

theorem Reachable.topoInv {t : TopologyImpl} (h : Reachable t) : TopoInv t := by
  induction h with
  | refl => exact topoInv_empty
  | tail _ hstep ih => exact hstep.topoInv ih

/-! ## What a maintainer reads off the invariant -/

/-- A cluster with one pool, zone, server and metaserver of disk threshold 100, registered
call by call. -/
def sampleTopology : TopologyImpl :=
  ((((TopologyImpl.empty.addPool 1 ⟨[], 0⟩ true).2.addZone 1 ⟨1, []⟩ true).2.addServer 1
    ⟨1, 1, []⟩ true).2.addMetaServer 1 ⟨1, .ONLINE, ⟨100, 0, 0, 0, 0, 0⟩, false⟩ true).2

theorem sampleTopology_reachable : Reachable sampleTopology := by
  have hzone : ∀ zone, ((TopologyImpl.empty.addPool 1 ⟨[], 0⟩ true).2.addZone 1 ⟨1, []⟩
      true).2.zoneMap.lookup 1 = some zone → zone.poolId = 1 := by
    intro zone hz
    have hlook : ((TopologyImpl.empty.addPool 1 ⟨[], 0⟩ true).2.addZone 1 ⟨1, []⟩
        true).2.zoneMap.lookup 1 = some ⟨1, []⟩ := by decide
    rw [hlook, Option.some.injEq] at hz
    rw [← hz]
  exact .tail (.tail (.tail (.tail .refl (.createPool _ 1 true)) (.createZone _ 1 1 true))
    (.registServer _ 1 1 1 true hzone)) (.registMetaServer _ 1 _ true)

/-- In every topology a run of calls reaches, each pool lists exactly the zones that name it,
each zone exactly the servers that name it, each server exactly the metaservers that name it,
no list holds an id twice, and a server names the pool of its zone. -/
theorem topology_links_consistent {t : TopologyImpl} (h : Reachable t) :
    Linked Pool.zoneList Zone.poolId t.poolMap t.zoneMap ∧
    Linked Zone.serverList Server.zoneId t.zoneMap t.serverMap ∧
    Linked Server.metaServerList MetaServer.serverId t.serverMap t.metaServerMap ∧
    ∀ s server, t.serverMap.lookup s = some server →
      (t.zoneMap.lookup server.zoneId).map Zone.poolId = some server.poolId := by
  have inv := h.topoInv
  exact ⟨inv.zones, inv.servers, inv.metaServers, fun _ _ hs => inv.serverPool hs⟩

theorem topology_links_consistent_sample :
    Reachable sampleTopology ∧
      Linked Server.metaServerList MetaServer.serverId sampleTopology.serverMap
        sampleTopology.metaServerMap :=
  ⟨sampleTopology_reachable, (topology_links_consistent sampleTopology_reachable).2.2.1⟩

/-- In every topology a run of calls reaches, a pool's `diskCapacity_` is the sum, in
`uint64_t`, of the disk thresholds of the metaservers whose server is in the pool. -/
theorem pool_diskCapacity_eq_poolThreshold {t : TopologyImpl} (h : Reachable t) {p : Nat}
    {pool : Pool} (hp : t.poolMap.lookup p = some pool) : pool.diskCapacity = t.poolThreshold p :=
  h.topoInv.capacity hp

theorem pool_diskCapacity_eq_poolThreshold_sample :
    Reachable sampleTopology ∧ sampleTopology.poolMap.lookup 1 = some ⟨[1], 100⟩ ∧
      (100 : UInt64) = sampleTopology.poolThreshold 1 := by
  have hlook : sampleTopology.poolMap.lookup 1 = some ⟨[1], 100⟩ := by decide
  exact ⟨sampleTopology_reachable, hlook,
    pool_diskCapacity_eq_poolThreshold sampleTopology_reachable hlook⟩

/-- In every topology a run of calls reaches, `RemoveMetaServer` always finds the server of the
metaserver it removes, and none of `AddMetaServer`, `RemoveMetaServer` and
`UpdateMetaServerSpace` reports a failure after changing the topology. -/
theorem metaServer_calls_fail_cleanly {t : TopologyImpl} (h : Reachable t) :
    (∀ id stored, t.removeMetaServer id stored ≠ none) ∧
    (∀ id data stored,
      (t.addMetaServer id data stored).1 = .TOPO_OK ∨ (t.addMetaServer id data stored).2 = t) ∧
    (∀ id stored code t', t.removeMetaServer id stored = some (code, t') →
      code = .TOPO_OK ∨ t' = t) ∧
    (∀ space id, (t.updateMetaServerSpace space id).1 = .TOPO_OK ∨
      (t.updateMetaServerSpace space id).2 = t) := by
  have inv := h.topoInv
  -- the pool of a server that is there is there
  have hpool : ∀ {s server}, t.serverMap.lookup s = some server →
      t.poolMap.lookup server.poolId ≠ none := fun hs hp =>
    AList.lookup_eq_none.mp hp (inv.pool_mem_of_server hs)
  refine ⟨?_, ?_, ?_, ?_⟩
  · intro id stored hnone
    obtain ⟨metaserver, hm, -, hs⟩ := TopologyImpl.removeMetaServer_eq_none.mp hnone
    obtain ⟨server, hs', -⟩ := inv.metaServers.up hm
    rw [hs] at hs'
    cases hs'
  · intro id data stored
    rcases TopologyImpl.addMetaServer_cases (Prod.mk.eta (p := t.addMetaServer id data stored)).symm
      with ⟨server, hs, -, ⟨hok, -⟩ | ⟨-, hp, -⟩⟩ | ⟨-, hsame⟩
    · exact .inl hok
    · exact absurd hp (hpool hs)
    · exact .inr hsame
  · intro id stored code t' hrem
    rcases TopologyImpl.removeMetaServer_cases hrem with
      ⟨_, server, -, hs, ⟨hok, -⟩ | ⟨-, hp, -⟩⟩ | ⟨-, hsame⟩
    · exact .inl hok
    · exact absurd hp (hpool hs)
    · exact .inr hsame
  · intro space id
    rcases TopologyImpl.updateMetaServerSpace_cases
        (Prod.mk.eta (p := t.updateMetaServerSpace space id)).symm with
      hsame | ⟨_, server, -, hs, ⟨hok, -⟩ | ⟨hok, -⟩ | ⟨-, hp, -⟩⟩
    · exact .inr hsame
    · exact .inl hok
    · exact .inl hok
    · exact absurd hp (hpool hs)

theorem metaServer_calls_fail_cleanly_sample :
    Reachable sampleTopology ∧ sampleTopology.removeMetaServer 1 true ≠ none :=
  ⟨sampleTopology_reachable, (metaServer_calls_fail_cleanly sampleTopology_reachable).1 1 true⟩

end DingoFs.Mds.TopologyTree
