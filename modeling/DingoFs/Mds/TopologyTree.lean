import DingoFs.Lib.ChildLinks
import Mathlib

/-!
# The pool, zone, server and metaserver registry of the MDS topology

`TopologyImpl` keeps its records in four maps, each record under its id: pools, zones,
servers and metaservers. A pool lists its zones, a zone its servers and a server its
metaservers, and each record names the one above it; a server also names its pool. A pool's
`diskCapacity_` stands for the disk thresholds of the metaservers under it: `AddMetaServer`
adds a new metaserver's threshold, `RemoveMetaServer` subtracts it, and
`UpdateMetaServerSpace`, on each metaserver heartbeat, adds the change, all in `uint64_t`.

Each `TopologyImpl` call is a function from the topology to its status and the topology after
it, with the result of the storage write as an argument (`stored`). `AddZone` and `AddServer`
share one body (`addChild`), which is also the first half of `AddMetaServer`; `RemoveZone`
and `RemoveServer` share another (`removeChild`). `RemoveMetaServer` reads the pool through
the iterator of the server it looked up even when that lookup found nothing: that branch is
the model's `none`. The records keep the fields these calls read and write: names, addresses,
policies and times are left out, and so is the id a record carries, which is its key.

`TopoStep` is one call as `TopologyManager` and the heartbeat make it: a new pool or zone has
no children, a server registers under a zone of the pool it names, and a server is deleted by
deleting its metaservers one by one before it.
-/

namespace DingoFs.Mds.TopologyTree

open DingoFs.Lib

/-- The `TopoStatusCode`s these calls return. -/
inductive TopoStatusCode
  | TOPO_OK
  | TOPO_ID_DUPLICATED
  | TOPO_STORGE_FAIL
  | TOPO_POOL_NOT_FOUND
  | TOPO_ZONE_NOT_FOUND
  | TOPO_SERVER_NOT_FOUND
  | TOPO_METASERVER_NOT_FOUND
  | TOPO_CANNOT_REMOVE_WHEN_NOT_EMPTY
deriving DecidableEq, Repr

/-- `OnlineState` of a metaserver. -/
inductive OnlineState
  | ONLINE
  | OFFLINE
  | UNSTABLE
deriving DecidableEq, Repr

/-- `MetaServerSpace`: what a metaserver's heartbeat reports of its disk and memory. -/
structure MetaServerSpace where
  diskThresholdByte : UInt64
  diskUsedByte : UInt64
  diskCopysetMinRequireByte : UInt64
  memoryThresholdByte : UInt64
  memoryUsedByte : UInt64
  memoryCopySetMinRequireByte : UInt64
deriving DecidableEq, Repr

/-- `MetaServer`, under its id in `metaServerMap_`. -/
structure MetaServer where
  serverId : Nat
  onlineState : OnlineState
  space : MetaServerSpace
  dirtyFlag : Bool
deriving DecidableEq, Repr

/-- `Server`, under its id in `serverMap_`: its zone, its pool and its metaservers. -/
structure Server where
  zoneId : Nat
  poolId : Nat
  metaServerList : List Nat
deriving DecidableEq, Repr

/-- `Zone`, under its id in `zoneMap_`: its pool and its servers. -/
structure Zone where
  poolId : Nat
  serverList : List Nat
deriving DecidableEq, Repr

/-- `Pool`, under its id in `poolMap_`: its zones and `diskCapacity_`. -/
structure Pool where
  zoneList : List Nat
  diskCapacity : UInt64
deriving DecidableEq, Repr

/-- `Pool::AddZone`: `push_back`. -/
def Pool.addZone (p : Pool) (id : Nat) : Pool := { p with zoneList := p.zoneList ++ [id] }

/-- `Pool::RemoveZone`: `std::list::remove`, which takes out every copy. -/
def Pool.removeZone (p : Pool) (id : Nat) : Pool :=
  { p with zoneList := p.zoneList.filter (· != id) }

/-- `Pool::SetDiskThreshold`. -/
def Pool.setDiskThreshold (p : Pool) (diskThreshold : UInt64) : Pool :=
  { p with diskCapacity := diskThreshold }

/-- `Zone::AddServer`. -/
def Zone.addServer (z : Zone) (id : Nat) : Zone := { z with serverList := z.serverList ++ [id] }

/-- `Zone::RemoveServer`. -/
def Zone.removeServer (z : Zone) (id : Nat) : Zone :=
  { z with serverList := z.serverList.filter (· != id) }

/-- `Server::AddMetaServer`. -/
def Server.addMetaServer (s : Server) (id : Nat) : Server :=
  { s with metaServerList := s.metaServerList ++ [id] }

/-- `Server::RemoveMetaServer`. -/
def Server.removeMetaServer (s : Server) (id : Nat) : Server :=
  { s with metaServerList := s.metaServerList.filter (· != id) }

section RecordLemmas

variable (p : Pool) (z : Zone) (s : Server) (id : Nat) (diskThreshold : UInt64)

@[simp] theorem Pool.addZone_zoneList : (p.addZone id).zoneList = p.zoneList ++ [id] := rfl
@[simp] theorem Pool.addZone_diskCapacity : (p.addZone id).diskCapacity = p.diskCapacity := rfl
@[simp] theorem Pool.removeZone_zoneList :
    (p.removeZone id).zoneList = p.zoneList.filter (· != id) := rfl
@[simp] theorem Pool.removeZone_diskCapacity :
    (p.removeZone id).diskCapacity = p.diskCapacity := rfl
@[simp] theorem Pool.setDiskThreshold_zoneList :
    (p.setDiskThreshold diskThreshold).zoneList = p.zoneList := rfl
@[simp] theorem Pool.setDiskThreshold_diskCapacity :
    (p.setDiskThreshold diskThreshold).diskCapacity = diskThreshold := rfl
@[simp] theorem Zone.addServer_serverList : (z.addServer id).serverList = z.serverList ++ [id] :=
  rfl
@[simp] theorem Zone.addServer_poolId : (z.addServer id).poolId = z.poolId := rfl
@[simp] theorem Zone.removeServer_serverList :
    (z.removeServer id).serverList = z.serverList.filter (· != id) := rfl
@[simp] theorem Zone.removeServer_poolId : (z.removeServer id).poolId = z.poolId := rfl
@[simp] theorem Server.addMetaServer_metaServerList :
    (s.addMetaServer id).metaServerList = s.metaServerList ++ [id] := rfl
@[simp] theorem Server.addMetaServer_zoneId : (s.addMetaServer id).zoneId = s.zoneId := rfl
@[simp] theorem Server.addMetaServer_poolId : (s.addMetaServer id).poolId = s.poolId := rfl
@[simp] theorem Server.removeMetaServer_metaServerList :
    (s.removeMetaServer id).metaServerList = s.metaServerList.filter (· != id) := rfl
@[simp] theorem Server.removeMetaServer_zoneId : (s.removeMetaServer id).zoneId = s.zoneId := rfl
@[simp] theorem Server.removeMetaServer_poolId : (s.removeMetaServer id).poolId = s.poolId := rfl

end RecordLemmas

/-- The four maps of `TopologyImpl`. -/
structure TopologyImpl where
  poolMap : AList fun _ : Nat => Pool
  zoneMap : AList fun _ : Nat => Zone
  serverMap : AList fun _ : Nat => Server
  metaServerMap : AList fun _ : Nat => MetaServer

/-! ## The shared bodies -/

section Shared

variable {P C : Type}

/-- The body `AddZone` and `AddServer` share, and the first half of `AddMetaServer`: find the
parent, check that the id is new, store the record, list it under its parent and insert it. -/
def addChild (parents : AList fun _ : Nat => P) (children : AList fun _ : Nat => C)
    (addTo : P → Nat → P) (notFound : TopoStatusCode) (parentId id : Nat) (data : C)
    (stored : Bool) : TopoStatusCode × (AList fun _ : Nat => P) × (AList fun _ : Nat => C) :=
  match parents.lookup parentId with
  | some parent =>
    if id ∉ children then
      if !stored then (.TOPO_STORGE_FAIL, parents, children)
      else (.TOPO_OK, parents.insert parentId (addTo parent id), children.insert id data)
    else (.TOPO_ID_DUPLICATED, parents, children)
  | none => (notFound, parents, children)

/-- The body `RemoveZone` and `RemoveServer` share: refuse a record that still has children,
delete it from storage, take it off its parent's list if the parent is there, and erase it. -/
def removeChild (parents : AList fun _ : Nat => P) (children : AList fun _ : Nat => C)
    (kidsOf : C → List Nat) (parentOf : C → Nat) (removeFrom : P → Nat → P)
    (notFound : TopoStatusCode) (id : Nat) (stored : Bool) :
    TopoStatusCode × (AList fun _ : Nat => P) × (AList fun _ : Nat => C) :=
  match children.lookup id with
  | some child =>
    if (kidsOf child).length ≠ 0 then (.TOPO_CANNOT_REMOVE_WHEN_NOT_EMPTY, parents, children)
    else if !stored then (.TOPO_STORGE_FAIL, parents, children)
    else
      let parents' :=
        match parents.lookup (parentOf child) with
        | some parent => parents.insert (parentOf child) (removeFrom parent id)
        | none => parents
      (.TOPO_OK, parents', children.erase id)
  | none => (notFound, parents, children)

variable {parents parents' : AList fun _ : Nat => P} {children children' : AList fun _ : Nat => C}
  {addTo removeFrom : P → Nat → P} {kidsOf : C → List Nat} {parentOf : C → Nat}
  {notFound code : TopoStatusCode} {parentId id : Nat} {data : C} {stored : Bool}

/-- What `addChild` can do: add the child under a parent that is there, or change nothing
and fail. -/
theorem addChild_cases (hnf : notFound ≠ .TOPO_OK)
    (h : addChild parents children addTo notFound parentId id data stored =
      (code, parents', children')) :
    (code = .TOPO_OK ∧ ∃ parent, parents.lookup parentId = some parent ∧ id ∉ children ∧
      parents' = parents.insert parentId (addTo parent id) ∧ children' = children.insert id data) ∨
    (code ≠ .TOPO_OK ∧ parents' = parents ∧ children' = children) := by
  unfold addChild at h
  split at h
  · next parent hp =>
    split_ifs at h with hmem hstored
    · cases h
      exact .inr ⟨by decide, rfl, rfl⟩
    · cases h
      exact .inr ⟨by decide, rfl, rfl⟩
    · cases h
      exact .inl ⟨rfl, parent, hp, hmem, rfl, rfl⟩
  · cases h
    exact .inr ⟨hnf, rfl, rfl⟩

/-- What `removeChild` can do: erase a child with no children of its own, or change nothing
and fail. -/
theorem removeChild_cases (hnf : notFound ≠ .TOPO_OK)
    (h : removeChild parents children kidsOf parentOf removeFrom notFound id stored =
      (code, parents', children')) :
    (code = .TOPO_OK ∧ ∃ child, children.lookup id = some child ∧ kidsOf child = [] ∧
      children' = children.erase id ∧
      ((∃ parent, parents.lookup (parentOf child) = some parent ∧
          parents' = parents.insert (parentOf child) (removeFrom parent id)) ∨
        (parents.lookup (parentOf child) = none ∧ parents' = parents))) ∨
    (code ≠ .TOPO_OK ∧ parents' = parents ∧ children' = children) := by
  unfold removeChild at h
  split at h
  · next child hc =>
    split_ifs at h with hkids hstored
    · cases h
      exact .inr ⟨by decide, rfl, rfl⟩
    · cases h
      exact .inr ⟨by decide, rfl, rfl⟩
    · have hnil := List.length_eq_zero_iff.mp (not_not.mp hkids)
      simp only [Prod.mk.injEq] at h
      obtain ⟨rfl, rfl, rfl⟩ := h
      refine .inl ⟨rfl, child, hc, hnil, rfl, ?_⟩
      split
      · next parent hp => exact .inl ⟨parent, hp, rfl⟩
      · next hp => exact .inr ⟨hp, rfl⟩
  · cases h
    exact .inr ⟨hnf, rfl, rfl⟩

end Shared

/-! ## The calls of `TopologyImpl` -/

namespace TopologyImpl

/-- The topology of a new cluster. -/
def empty : TopologyImpl := ⟨∅, ∅, ∅, ∅⟩

variable (t : TopologyImpl)

/-- `TopologyImpl::GetPoolIdByServerId`. -/
def getPoolIdByServerId (id : Nat) : Except TopoStatusCode Nat :=
  match t.serverMap.lookup id with
  | some server => .ok server.poolId
  | none => .error .TOPO_SERVER_NOT_FOUND

/-- `TopologyImpl::GetPoolIdByMetaserverId`. -/
def getPoolIdByMetaserverId (id : Nat) : Except TopoStatusCode Nat :=
  match t.metaServerMap.lookup id with
  | some metaserver => t.getPoolIdByServerId metaserver.serverId
  | none => .error .TOPO_METASERVER_NOT_FOUND

/-- `TopologyImpl::AddPool`. -/
def addPool (id : Nat) (data : Pool) (stored : Bool) : TopoStatusCode × TopologyImpl :=
  if id ∉ t.poolMap then
    if !stored then (.TOPO_STORGE_FAIL, t)
    else (.TOPO_OK, { t with poolMap := t.poolMap.insert id data })
  else (.TOPO_ID_DUPLICATED, t)

/-- `TopologyImpl::AddZone`. -/
def addZone (id : Nat) (data : Zone) (stored : Bool) : TopoStatusCode × TopologyImpl :=
  let (code, poolMap, zoneMap) :=
    addChild t.poolMap t.zoneMap Pool.addZone .TOPO_POOL_NOT_FOUND data.poolId id data stored
  (code, { t with poolMap := poolMap, zoneMap := zoneMap })

/-- `TopologyImpl::AddServer`. -/
def addServer (id : Nat) (data : Server) (stored : Bool) : TopoStatusCode × TopologyImpl :=
  let (code, zoneMap, serverMap) :=
    addChild t.zoneMap t.serverMap Zone.addServer .TOPO_ZONE_NOT_FOUND data.zoneId id data stored
  (code, { t with zoneMap := zoneMap, serverMap := serverMap })

/-- `TopologyImpl::AddMetaServer`: the pool is found through the server first; after the
metaserver is in, its threshold is added to that pool's. -/
def addMetaServer (id : Nat) (data : MetaServer) (stored : Bool) :
    TopoStatusCode × TopologyImpl :=
  match t.getPoolIdByServerId data.serverId with
  | .error ret => (ret, t)
  | .ok poolId =>
    let (ret, serverMap, metaServerMap) :=
      addChild t.serverMap t.metaServerMap Server.addMetaServer .TOPO_SERVER_NOT_FOUND
        data.serverId id data stored
    if ret ≠ .TOPO_OK then (ret, t)
    else
      let t₁ := { t with serverMap := serverMap, metaServerMap := metaServerMap }
      match t₁.poolMap.lookup poolId with
      | some pool =>
        let totalThreshold := pool.diskCapacity + data.space.diskThresholdByte
        (.TOPO_OK, { t₁ with
          poolMap := t₁.poolMap.insert poolId (pool.setDiskThreshold totalThreshold) })
      | none => (.TOPO_POOL_NOT_FOUND, t₁)

/-- `TopologyImpl::RemovePool`. -/
def removePool (id : Nat) (stored : Bool) : TopoStatusCode × TopologyImpl :=
  match t.poolMap.lookup id with
  | some pool =>
    if pool.zoneList.length ≠ 0 then (.TOPO_CANNOT_REMOVE_WHEN_NOT_EMPTY, t)
    else if !stored then (.TOPO_STORGE_FAIL, t)
    else (.TOPO_OK, { t with poolMap := t.poolMap.erase id })
  | none => (.TOPO_POOL_NOT_FOUND, t)

/-- `TopologyImpl::RemoveZone`. -/
def removeZone (id : Nat) (stored : Bool) : TopoStatusCode × TopologyImpl :=
  let (code, poolMap, zoneMap) :=
    removeChild t.poolMap t.zoneMap Zone.serverList Zone.poolId Pool.removeZone
      .TOPO_ZONE_NOT_FOUND id stored
  (code, { t with poolMap := poolMap, zoneMap := zoneMap })

/-- `TopologyImpl::RemoveServer`. -/
def removeServer (id : Nat) (stored : Bool) : TopoStatusCode × TopologyImpl :=
  let (code, zoneMap, serverMap) :=
    removeChild t.zoneMap t.serverMap Server.metaServerList Server.zoneId Zone.removeServer
      .TOPO_SERVER_NOT_FOUND id stored
  (code, { t with zoneMap := zoneMap, serverMap := serverMap })

/-- `TopologyImpl::RemoveMetaServer`: no check for children, the metaserver's threshold taken
from its server's pool. When the server is not found the code still reads its pool through the
end iterator, after erasing the metaserver: that is `none`. -/
def removeMetaServer (id : Nat) (stored : Bool) : Option (TopoStatusCode × TopologyImpl) :=
  match t.metaServerMap.lookup id with
  | some metaserver =>
    let metaserverThreshold := metaserver.space.diskThresholdByte
    if !stored then some (.TOPO_STORGE_FAIL, t)
    else
      match t.serverMap.lookup metaserver.serverId with
      | none => none
      | some server =>
        let t₁ := { t with
          serverMap := t.serverMap.insert metaserver.serverId (server.removeMetaServer id)
          metaServerMap := t.metaServerMap.erase id }
        match t₁.poolMap.lookup server.poolId with
        | some pool =>
          let totalThreshold := pool.diskCapacity - metaserverThreshold
          some (.TOPO_OK, { t₁ with
            poolMap := t₁.poolMap.insert server.poolId (pool.setDiskThreshold totalThreshold) })
        | none => some (.TOPO_POOL_NOT_FOUND, t₁)
  | none => some (.TOPO_METASERVER_NOT_FOUND, t)

/-- `TopologyImpl::UpdateMetaServerOnlineState`. -/
def updateMetaServerOnlineState (onlineState : OnlineState) (id : Nat) :
    TopoStatusCode × TopologyImpl :=
  match t.metaServerMap.lookup id with
  | some metaserver =>
    if onlineState ≠ metaserver.onlineState then
      (.TOPO_OK, { t with
        metaServerMap := t.metaServerMap.insert id { metaserver with onlineState := onlineState } })
    else (.TOPO_OK, t)
  | none => (.TOPO_METASERVER_NOT_FOUND, t)

/-- `TopologyImpl::UpdateMetaServerSpace`: each difference is a `uint64_t` subtraction read
as `int64_t`; the space is replaced when one of them is not zero, and the threshold's
difference is then added to the pool's, converted back to `uint64_t`. -/
def updateMetaServerSpace (space : MetaServerSpace) (id : Nat) :
    TopoStatusCode × TopologyImpl :=
  match t.getPoolIdByMetaserverId id with
  | .error ret => (ret, t)
  | .ok belongPoolId =>
    match t.metaServerMap.lookup id with
    | none => (.TOPO_METASERVER_NOT_FOUND, t)
    | some metaserver =>
      let old := metaserver.space
      let diffThreshold := (space.diskThresholdByte - old.diskThresholdByte).toInt64
      let diffUsed := (space.diskUsedByte - old.diskUsedByte).toInt64
      let diffDiskMinRequire :=
        (space.diskCopysetMinRequireByte - old.diskCopysetMinRequireByte).toInt64
      let diffMemoryThreshold := (space.memoryThresholdByte - old.memoryThresholdByte).toInt64
      let diffMemoryUsed := (space.memoryUsedByte - old.memoryUsedByte).toInt64
      let diffMemoryMinRequire :=
        (space.memoryCopySetMinRequireByte - old.memoryCopySetMinRequireByte).toInt64
      if diffThreshold ≠ 0 ∨ diffUsed ≠ 0 ∨ diffDiskMinRequire ≠ 0 ∨
          diffMemoryThreshold ≠ 0 ∨ diffMemoryUsed ≠ 0 ∨ diffMemoryMinRequire ≠ 0 then
        let t₁ := { t with metaServerMap :=
          t.metaServerMap.insert id { metaserver with space := space, dirtyFlag := true } }
        if diffThreshold ≠ 0 then
          match t₁.poolMap.lookup belongPoolId with
          | some pool =>
            let totalThreshold := pool.diskCapacity + diffThreshold.toUInt64
            (.TOPO_OK, { t₁ with
              poolMap := t₁.poolMap.insert belongPoolId (pool.setDiskThreshold totalThreshold) })
          | none => (.TOPO_POOL_NOT_FOUND, t₁)
        else (.TOPO_OK, t₁)
      else (.TOPO_OK, t)

/-! ## What each call can do -/

section Cases

variable {t t' : TopologyImpl} {code : TopoStatusCode} {id : Nat} {stored : Bool}

theorem addPool_cases {data : Pool} (h : t.addPool id data stored = (code, t')) :
    (code = .TOPO_OK ∧ id ∉ t.poolMap ∧ t' = { t with poolMap := t.poolMap.insert id data }) ∨
    (code ≠ .TOPO_OK ∧ t' = t) := by
  unfold addPool at h
  split_ifs at h with hmem hstored
  · cases h
    exact .inr ⟨by decide, rfl⟩
  · cases h
    exact .inr ⟨by decide, rfl⟩
  · cases h
    exact .inl ⟨rfl, hmem, rfl⟩

theorem addZone_cases {data : Zone} (h : t.addZone id data stored = (code, t')) :
    (code = .TOPO_OK ∧ ∃ pool, t.poolMap.lookup data.poolId = some pool ∧ id ∉ t.zoneMap ∧
      t' = { t with poolMap := t.poolMap.insert data.poolId (pool.addZone id),
                    zoneMap := t.zoneMap.insert id data }) ∨
    (code ≠ .TOPO_OK ∧ t' = t) := by
  rcases hc : addChild t.poolMap t.zoneMap Pool.addZone .TOPO_POOL_NOT_FOUND data.poolId id data
    stored with ⟨code', poolMap, zoneMap⟩
  simp only [addZone, hc, Prod.mk.injEq] at h
  obtain ⟨rfl, rfl⟩ := h
  rcases addChild_cases (by decide) hc with ⟨rfl, pool, hp, hfresh, rfl, rfl⟩ | ⟨hne, rfl, rfl⟩
  · exact .inl ⟨rfl, pool, hp, hfresh, rfl⟩
  · exact .inr ⟨hne, rfl⟩

theorem addServer_cases {data : Server} (h : t.addServer id data stored = (code, t')) :
    (code = .TOPO_OK ∧ ∃ zone, t.zoneMap.lookup data.zoneId = some zone ∧ id ∉ t.serverMap ∧
      t' = { t with zoneMap := t.zoneMap.insert data.zoneId (zone.addServer id),
                    serverMap := t.serverMap.insert id data }) ∨
    (code ≠ .TOPO_OK ∧ t' = t) := by
  rcases hc : addChild t.zoneMap t.serverMap Zone.addServer .TOPO_ZONE_NOT_FOUND data.zoneId id
    data stored with ⟨code', zoneMap, serverMap⟩
  simp only [addServer, hc, Prod.mk.injEq] at h
  obtain ⟨rfl, rfl⟩ := h
  rcases addChild_cases (by decide) hc with ⟨rfl, zone, hz, hfresh, rfl, rfl⟩ | ⟨hne, rfl, rfl⟩
  · exact .inl ⟨rfl, zone, hz, hfresh, rfl⟩
  · exact .inr ⟨hne, rfl⟩

/-- What `AddMetaServer` can do. Its second disjunct is the return after the metaserver is in
and its pool is not found: the topology has changed and the call reports a failure. -/
theorem addMetaServer_cases {data : MetaServer} (h : t.addMetaServer id data stored = (code, t')) :
    (∃ server, t.serverMap.lookup data.serverId = some server ∧ id ∉ t.metaServerMap ∧
      ((code = .TOPO_OK ∧ ∃ pool, t.poolMap.lookup server.poolId = some pool ∧
        t' = { t with
          serverMap := t.serverMap.insert data.serverId (server.addMetaServer id)
          metaServerMap := t.metaServerMap.insert id data
          poolMap := t.poolMap.insert server.poolId
            (pool.setDiskThreshold (pool.diskCapacity + data.space.diskThresholdByte)) }) ∨
       (code = .TOPO_POOL_NOT_FOUND ∧ t.poolMap.lookup server.poolId = none ∧
        t' = { t with
          serverMap := t.serverMap.insert data.serverId (server.addMetaServer id)
          metaServerMap := t.metaServerMap.insert id data }))) ∨
    (code ≠ .TOPO_OK ∧ t' = t) := by
  unfold addMetaServer getPoolIdByServerId at h
  split at h
  · next ret hret =>
    split at hret
    · cases hret
    · cases hret
      cases h
      exact .inr ⟨by decide, rfl⟩
  · next poolId hpool =>
    split at hpool
    · next server hs =>
      cases hpool
      rcases hc : addChild t.serverMap t.metaServerMap Server.addMetaServer
        .TOPO_SERVER_NOT_FOUND data.serverId id data stored with ⟨ret, serverMap, metaServerMap⟩
      simp only [hc] at h
      rcases addChild_cases (by decide) hc with
        ⟨rfl, server', hs', hfresh, rfl, rfl⟩ | ⟨hne, rfl, rfl⟩
      · rw [hs, Option.some.injEq] at hs'
        subst hs'
        simp only [ne_eq, not_true_eq_false, if_false] at h
        refine .inl ⟨server, hs, hfresh, ?_⟩
        split at h
        · next pool hp =>
          cases h
          exact .inl ⟨rfl, pool, hp, rfl⟩
        · next hp =>
          cases h
          exact .inr ⟨rfl, hp, rfl⟩
      · simp only [hne, ne_eq, not_false_eq_true, if_true, Prod.mk.injEq] at h
        obtain ⟨rfl, rfl⟩ := h
        exact .inr ⟨hne, rfl⟩
    · cases hpool

theorem removePool_cases (h : t.removePool id stored = (code, t')) :
    (code = .TOPO_OK ∧ ∃ pool, t.poolMap.lookup id = some pool ∧ pool.zoneList = [] ∧
      t' = { t with poolMap := t.poolMap.erase id }) ∨
    (code ≠ .TOPO_OK ∧ t' = t) := by
  unfold removePool at h
  split at h
  · next pool hp =>
    split_ifs at h with hzones hstored
    · cases h
      exact .inr ⟨by decide, rfl⟩
    · cases h
      exact .inr ⟨by decide, rfl⟩
    · cases h
      exact .inl ⟨rfl, pool, hp, List.length_eq_zero_iff.mp (not_not.mp hzones), rfl⟩
  · cases h
    exact .inr ⟨by decide, rfl⟩

theorem removeZone_cases (h : t.removeZone id stored = (code, t')) :
    (code = .TOPO_OK ∧ ∃ zone, t.zoneMap.lookup id = some zone ∧ zone.serverList = [] ∧
      ((∃ pool, t.poolMap.lookup zone.poolId = some pool ∧
          t' = { t with poolMap := t.poolMap.insert zone.poolId (pool.removeZone id),
                        zoneMap := t.zoneMap.erase id }) ∨
        (t.poolMap.lookup zone.poolId = none ∧ t' = { t with zoneMap := t.zoneMap.erase id }))) ∨
    (code ≠ .TOPO_OK ∧ t' = t) := by
  rcases hc : removeChild t.poolMap t.zoneMap Zone.serverList Zone.poolId Pool.removeZone
    .TOPO_ZONE_NOT_FOUND id stored with ⟨code', poolMap, zoneMap⟩
  simp only [removeZone, hc, Prod.mk.injEq] at h
  obtain ⟨rfl, rfl⟩ := h
  rcases removeChild_cases (by decide) hc with
    ⟨rfl, zone, hz, hkids, rfl, ⟨pool, hp, rfl⟩ | ⟨hp, rfl⟩⟩ | ⟨hne, rfl, rfl⟩
  · exact .inl ⟨rfl, zone, hz, hkids, .inl ⟨pool, hp, rfl⟩⟩
  · exact .inl ⟨rfl, zone, hz, hkids, .inr ⟨hp, rfl⟩⟩
  · exact .inr ⟨hne, rfl⟩

theorem removeServer_cases (h : t.removeServer id stored = (code, t')) :
    (code = .TOPO_OK ∧ ∃ server, t.serverMap.lookup id = some server ∧
      server.metaServerList = [] ∧
      ((∃ zone, t.zoneMap.lookup server.zoneId = some zone ∧
          t' = { t with zoneMap := t.zoneMap.insert server.zoneId (zone.removeServer id),
                        serverMap := t.serverMap.erase id }) ∨
        (t.zoneMap.lookup server.zoneId = none ∧
          t' = { t with serverMap := t.serverMap.erase id }))) ∨
    (code ≠ .TOPO_OK ∧ t' = t) := by
  rcases hc : removeChild t.zoneMap t.serverMap Server.metaServerList Server.zoneId
    Zone.removeServer .TOPO_SERVER_NOT_FOUND id stored with ⟨code', zoneMap, serverMap⟩
  simp only [removeServer, hc, Prod.mk.injEq] at h
  obtain ⟨rfl, rfl⟩ := h
  rcases removeChild_cases (by decide) hc with
    ⟨rfl, server, hs, hkids, rfl, ⟨zone, hz, rfl⟩ | ⟨hz, rfl⟩⟩ | ⟨hne, rfl, rfl⟩
  · exact .inl ⟨rfl, server, hs, hkids, .inl ⟨zone, hz, rfl⟩⟩
  · exact .inl ⟨rfl, server, hs, hkids, .inr ⟨hz, rfl⟩⟩
  · exact .inr ⟨hne, rfl⟩

/-- `RemoveMetaServer` is undefined exactly when it removes a metaserver whose server is not
there. -/
theorem removeMetaServer_eq_none :
    t.removeMetaServer id stored = none ↔
      ∃ metaserver, t.metaServerMap.lookup id = some metaserver ∧ stored = true ∧
        t.serverMap.lookup metaserver.serverId = none := by
  unfold removeMetaServer
  split
  · next metaserver hm =>
    cases stored
    · simp
    · simp only [Bool.not_true, Bool.false_eq_true, if_false]
      split
      · next hs => simp [hm, hs]
      · next server hs =>
        constructor
        · intro h
          split at h <;> cases h
        · rintro ⟨ms, hms, -, hs'⟩
          rw [hm, Option.some.injEq] at hms
          subst hms
          rw [hs] at hs'
          cases hs'
  · next hm => simp [hm]

/-- What `RemoveMetaServer` can do when it is defined. As in `AddMetaServer`, the second
disjunct reports a failure after the topology has changed. -/
theorem removeMetaServer_cases (h : t.removeMetaServer id stored = some (code, t')) :
    (∃ metaserver server, t.metaServerMap.lookup id = some metaserver ∧
      t.serverMap.lookup metaserver.serverId = some server ∧
      ((code = .TOPO_OK ∧ ∃ pool, t.poolMap.lookup server.poolId = some pool ∧
        t' = { t with
          serverMap := t.serverMap.insert metaserver.serverId (server.removeMetaServer id)
          metaServerMap := t.metaServerMap.erase id
          poolMap := t.poolMap.insert server.poolId (pool.setDiskThreshold
            (pool.diskCapacity - metaserver.space.diskThresholdByte)) }) ∨
       (code = .TOPO_POOL_NOT_FOUND ∧ t.poolMap.lookup server.poolId = none ∧
        t' = { t with
          serverMap := t.serverMap.insert metaserver.serverId (server.removeMetaServer id)
          metaServerMap := t.metaServerMap.erase id }))) ∨
    (code ≠ .TOPO_OK ∧ t' = t) := by
  unfold removeMetaServer at h
  split at h
  · next metaserver hm =>
    cases stored
    · simp only [Bool.not_false, if_true, Option.some.injEq, Prod.mk.injEq] at h
      obtain ⟨rfl, rfl⟩ := h
      exact .inr ⟨by decide, rfl⟩
    · simp only [Bool.not_true, Bool.false_eq_true, if_false] at h
      split at h
      · cases h
      · next server hs =>
        refine .inl ⟨metaserver, server, hm, hs, ?_⟩
        split at h
        · next pool hp =>
          cases h
          exact .inl ⟨rfl, pool, hp, rfl⟩
        · next hp =>
          cases h
          exact .inr ⟨rfl, hp, rfl⟩
  · cases h
    exact .inr ⟨by decide, rfl⟩

theorem updateMetaServerOnlineState_cases {onlineState : OnlineState}
    (h : t.updateMetaServerOnlineState onlineState id = (code, t')) :
    t' = t ∨ ∃ metaserver, t.metaServerMap.lookup id = some metaserver ∧
      t' = { t with metaServerMap :=
        t.metaServerMap.insert id { metaserver with onlineState := onlineState } } := by
  unfold updateMetaServerOnlineState at h
  split at h
  · next metaserver hm =>
    split_ifs at h
    · cases h
      exact .inr ⟨metaserver, hm, rfl⟩
    · cases h
      exact .inl rfl
  · cases h
    exact .inl rfl

/-- A difference of `uint64_t`s read as `int64_t` is zero exactly when the two are equal. -/
theorem toInt64_sub_eq_zero {a b : UInt64} : (a - b).toInt64 = 0 ↔ a = b := by
  constructor
  · intro h
    have h' : (a - b).toInt64.toUInt64 = (0 : Int64).toUInt64 := congrArg Int64.toUInt64 h
    rw [UInt64.toUInt64_toInt64] at h'
    exact sub_eq_zero.mp h'
  · rintro rfl
    rw [sub_self]
    rfl

/-- What `UpdateMetaServerSpace` can do: nothing, or replace the space of a metaserver whose
server is there and add the threshold's change to that server's pool. The last disjunct
reports a failure after the space is replaced, when the pool is not found. -/
theorem updateMetaServerSpace_cases {space : MetaServerSpace}
    (h : t.updateMetaServerSpace space id = (code, t')) :
    t' = t ∨ ∃ metaserver server, t.metaServerMap.lookup id = some metaserver ∧
      t.serverMap.lookup metaserver.serverId = some server ∧
      let t₁ := { t with metaServerMap :=
        t.metaServerMap.insert id { metaserver with space := space, dirtyFlag := true } }
      (code = .TOPO_OK ∧ space.diskThresholdByte = metaserver.space.diskThresholdByte ∧
        t' = t₁) ∨
      (code = .TOPO_OK ∧ ∃ pool, t.poolMap.lookup server.poolId = some pool ∧
        t' = { t₁ with poolMap := t.poolMap.insert server.poolId (pool.setDiskThreshold
          (pool.diskCapacity + (space.diskThresholdByte - metaserver.space.diskThresholdByte))) }) ∨
      (code = .TOPO_POOL_NOT_FOUND ∧ t.poolMap.lookup server.poolId = none ∧ t' = t₁) := by
  unfold updateMetaServerSpace getPoolIdByMetaserverId getPoolIdByServerId at h
  split at h
  · cases h
    exact .inl rfl
  · next belongPoolId hpool =>
    split at hpool
    · next metaserver hm =>
      split at hpool
      · next server hs =>
        cases hpool
        rw [hm] at h
        dsimp only at h
        split_ifs at h with hdiff hthr
        · refine .inr ⟨metaserver, server, hm, hs, .inr ?_⟩
          split at h
          · next pool hp =>
            cases h
            refine .inl ⟨rfl, pool, hp, ?_⟩
            rw [UInt64.toUInt64_toInt64]
          · next hp =>
            cases h
            exact .inr ⟨rfl, hp, rfl⟩
        · cases h
          exact .inr ⟨metaserver, server, hm, hs,
            .inl ⟨rfl, toInt64_sub_eq_zero.mp (not_not.mp hthr), rfl⟩⟩
        · cases h
          exact .inl rfl
      · cases hpool
    · cases hpool

end Cases

end TopologyImpl

/-! ## The calls as the manager and the heartbeat make them -/

/-- One call into `TopologyImpl` by `TopologyManager` or by the heartbeat. `CreatePool`,
`CreateZone` and `RegistServer` build a record with no children; `RegistServer` finds the
zone among those of the pool it names. `DeleteServer` is a `RemoveMetaServer` for each of the
server's metaservers and then a `RemoveServer`, each a step of its own. -/
inductive TopoStep : TopologyImpl → TopologyImpl → Prop
  | createPool (t : TopologyImpl) (id : Nat) (stored : Bool) :
      TopoStep t (t.addPool id ⟨[], 0⟩ stored).2
  | createZone (t : TopologyImpl) (id poolId : Nat) (stored : Bool) :
      TopoStep t (t.addZone id ⟨poolId, []⟩ stored).2
  | registServer (t : TopologyImpl) (id zoneId poolId : Nat) (stored : Bool)
      (hzone : ∀ zone, t.zoneMap.lookup zoneId = some zone → zone.poolId = poolId) :
      TopoStep t (t.addServer id ⟨zoneId, poolId, []⟩ stored).2
  | registMetaServer (t : TopologyImpl) (id : Nat) (data : MetaServer) (stored : Bool) :
      TopoStep t (t.addMetaServer id data stored).2
  | deleteMetaServer {t t' : TopologyImpl} (id : Nat) (stored : Bool) {code : TopoStatusCode}
      (h : t.removeMetaServer id stored = some (code, t')) : TopoStep t t'
  | deleteServer (t : TopologyImpl) (id : Nat) (stored : Bool) :
      TopoStep t (t.removeServer id stored).2
  | deleteZone (t : TopologyImpl) (id : Nat) (stored : Bool) :
      TopoStep t (t.removeZone id stored).2
  | deletePool (t : TopologyImpl) (id : Nat) (stored : Bool) :
      TopoStep t (t.removePool id stored).2
  | updateOnlineState (t : TopologyImpl) (onlineState : OnlineState) (id : Nat) :
      TopoStep t (t.updateMetaServerOnlineState onlineState id).2
  | updateSpace (t : TopologyImpl) (space : MetaServerSpace) (id : Nat) :
      TopoStep t (t.updateMetaServerSpace space id).2

/-- A topology some run of calls reaches from that of a new cluster. -/
def Reachable (t : TopologyImpl) : Prop := Relation.ReflTransGen TopoStep TopologyImpl.empty t

end DingoFs.Mds.TopologyTree
