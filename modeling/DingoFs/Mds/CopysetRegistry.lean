import DingoFs.Mds.CopysetBatch
import DingoFs.Mds.TopologyTreeInvariant

/-!
# Copyset placement over the topologies the registry builds

`TopologyImpl` is one object in the source. The registry calls (`DingoFs.Mds.TopologyTree`)
write its pools, zones, servers and metaservers, and copyset placement
(`DingoFs.Mds.CopysetPlacement`, `DingoFs.Mds.CopysetBatch`) reads them; each model keeps the
fields its functions use. `TopologyImpl.placementView` is what placement reads of a registry:
the same records under the same ids, a metaserver's state and disk as the calls left them, and
the parts of `TopologyImpl` that no registry call writes, a pool's `replicaNum_`, the copysets
and `option_.maxCopysetNumInMetaserver`, as they are.

The registry's invariant `TopoInv` carries over to the view. A server lies in a zone of its own
pool (`TopoInv.placementView_serversInPoolZones`), and the server of a metaserver is registered
(`TopoInv.placementView_server_ne_none`). So on every topology a run of registry calls reaches,
`GenCopysetAddrBatchForPool` never fails on a missing server, and `GenCopysetAddrBatch` ends
(`genCopysetAddrBatch_places_copysets_and_ends`).
-/

namespace DingoFs.Mds

open DingoFs.Lib

/-- A registry's `OnlineState` as placement reads it. -/
def TopologyTree.OnlineState.toPlacement :
    TopologyTree.OnlineState → CopysetPlacement.OnlineState
  | .ONLINE => .ONLINE
  | .OFFLINE => .OFFLINE
  | .UNSTABLE => .UNSTABLE

/-- The disk figures of a registry's metaserver as placement reads them. -/
def TopologyTree.MetaServerSpace.toPlacement (s : TopologyTree.MetaServerSpace) :
    CopysetPlacement.MetaServerSpace :=
  ⟨s.diskThresholdByte.toNat, s.diskCopysetMinRequireByte.toNat, s.diskUsedByte.toNat⟩

/-- What placement reads of the registry `t`, with the pools' `replicaNum_`, the copysets and
`maxCopysetNumInMetaserver`, which no registry call writes. -/
def TopologyTree.TopologyImpl.placementView (t : TopologyTree.TopologyImpl)
    (replicaNum : Nat → Nat)
    (copySetMap : AList fun _ : Nat × Nat => CopysetPlacement.CopySetInfo)
    (maxCopysetNumInMetaserver : Nat) : CopysetPlacement.TopologyImpl where
  poolMap := mapRecords (fun id _ => ⟨replicaNum id⟩) t.poolMap
  zoneMap := mapRecords (fun _ zone => ⟨zone.poolId⟩) t.zoneMap
  serverMap := mapRecords (fun _ server => ⟨server.zoneId, server.poolId⟩) t.serverMap
  metaServerMap := mapRecords
    (fun _ ms => ⟨ms.serverId, ms.onlineState.toPlacement, ms.space.toPlacement⟩) t.metaServerMap
  copySetMap := copySetMap
  maxCopysetNumInMetaserver := maxCopysetNumInMetaserver

namespace TopologyTree.TopoInv

variable {t : TopologyTree.TopologyImpl} {replicaNum : Nat → Nat}
  {copySetMap : AList fun _ : Nat × Nat => CopysetPlacement.CopySetInfo}
  {maxCopysetNumInMetaserver : Nat}

/-- A server of the view lies in a zone of its own pool: the registry's `serverPool`. -/
theorem placementView_serversInPoolZones (inv : TopoInv t) :
    (t.placementView replicaNum copySetMap maxCopysetNumInMetaserver).ServersInPoolZones := by
  rintro ⟨id, server'⟩ he
  have hlook : (t.placementView replicaNum copySetMap maxCopysetNumInMetaserver).serverMap.lookup
      id = some server' := AList.mem_lookup_iff.mpr he
  simp only [TopologyImpl.placementView, lookup_mapRecords, Option.map_eq_some_iff] at hlook
  obtain ⟨server, hs, rfl⟩ := hlook
  simp only [TopologyImpl.placementView, lookup_mapRecords, Option.map_map]
  exact inv.serverPool hs

/-- The server a metaserver of the view names is registered: the registry's links. -/
theorem placementView_server_ne_none (inv : TopoInv t) {id : Nat}
    {ms' : CopysetPlacement.MetaServer}
    (he : ⟨id, ms'⟩ ∈
      (t.placementView replicaNum copySetMap maxCopysetNumInMetaserver).metaServerMap.entries) :
    (t.placementView replicaNum copySetMap maxCopysetNumInMetaserver).serverMap.lookup
      ms'.serverId ≠ none := by
  have hlook : (t.placementView replicaNum copySetMap
      maxCopysetNumInMetaserver).metaServerMap.lookup id = some ms' := AList.mem_lookup_iff.mpr he
  simp only [TopologyImpl.placementView, lookup_mapRecords, Option.map_eq_some_iff] at hlook
  obtain ⟨ms, hm, rfl⟩ := hlook
  have hserver : ms.serverId ∈ t.serverMap := inv.metaServers.parent_mem hm
  simp only [TopologyImpl.placementView, lookup_mapRecords, ne_eq, Option.map_eq_none_iff,
    AList.lookup_eq_none, not_not]
  exact hserver

end TopologyTree.TopoInv

/-- Copyset placement on every topology a run of registry calls reaches, whatever the pools'
`replicaNum_`, the copysets, the copyset limit and the shuffles. Every call of
`GenCopysetAddrBatchForPool` with `replicaNum ≥ 1` ends: it fails with
`TOPO_METASERVER_NOT_FOUND` when fewer than `replicaNum` zones have a candidate, and otherwise
gives at least `min_size * replicaNum` copysets of `replicaNum` candidates of the pool in
pairwise distinct zones. `GenCopysetAddrBatch` ends too, with enough copysets and `TOPO_OK` or
with `TOPO_METASERVER_NOT_FOUND`. -/
theorem genCopysetAddrBatch_places_copysets_and_ends {t : TopologyTree.TopologyImpl}
    (ht : TopologyTree.Reachable t) (replicaNum : Nat → Nat)
    (copySetMap : AList fun _ : Nat × Nat => CopysetPlacement.CopySetInfo)
    (maxCopysetNumInMetaserver : Nat) (rng : CopysetPlacement.Shuffler) :
    let v := t.placementView replicaNum copySetMap maxCopysetNumInMetaserver
    (∀ n poolId r, 1 ≤ r →
      ∃ n' res, v.genCopysetAddrBatchForPool rng n poolId r = some (n', res) ∧
        ((∃ candidateMap, v.genCandidateMapUnlock poolId = .ok candidateMap ∧
            v.CandidateMap v.getAvailableMetaserversUnlock poolId candidateMap ∧
            candidateMap.length < r ∧ res = .error .TOPO_METASERVER_NOT_FOUND) ∨
          ∃ candidateMap l, v.genCandidateMapUnlock poolId = .ok candidateMap ∧
            v.CandidateMap v.getAvailableMetaserversUnlock poolId candidateMap ∧ res = .ok l ∧
            (candidateMap.map (·.2.length)).foldl min CopysetPlacement.UINT32_MAX * r ≤
              l.length ∧
            ∀ c ∈ l, v.Placed poolId r c)) ∧
    (∀ fuel needCreateNum, needCreateNum ≤ fuel →
      ∃ ret copysetList, v.genCopysetAddrBatch rng fuel needCreateNum [] = some (ret, copysetList) ∧
        (ret = .TOPO_OK ∧ needCreateNum ≤ copysetList.length ∨
          ret = .TOPO_METASERVER_NOT_FOUND)) := by
  intro v
  have inv := ht.topoInv
  refine ⟨fun n poolId r hR => ?_, fun fuel needCreateNum hfuel =>
    v.genCopysetAddrBatch_ends inv.placementView_serversInPoolZones rng hfuel⟩
  obtain ⟨n', res, hcall, hcases⟩ := v.genCopysetAddrBatchForPool_spec rng n poolId r hR
  refine ⟨n', res, hcall, ?_⟩
  rcases hcases with ⟨-, ms, hms, hnone⟩ | hfew | hplaced
  · -- an available metaserver is a registered one, and the registry has its server
    exact absurd hnone (inv.placementView_server_ne_none (List.mem_of_mem_filter hms))
  · exact .inl hfew
  · exact .inr hplaced

/-- The cluster of one pool, zone, server and metaserver, registered call by call, with pools of
one replica, no copysets and a limit of 100 per metaserver. -/
theorem genCopysetAddrBatch_on_sampleTopology :
    TopologyTree.Reachable TopologyTree.sampleTopology ∧
      ∃ ret copysetList, (TopologyTree.sampleTopology.placementView (fun _ => 1) ∅
          100).genCopysetAddrBatch CopysetPlacement.Shuffler.identity 3 3 [] =
          some (ret, copysetList) ∧
        (ret = .TOPO_OK ∧ 3 ≤ copysetList.length ∨ ret = .TOPO_METASERVER_NOT_FOUND) :=
  ⟨TopologyTree.sampleTopology_reachable,
    (genCopysetAddrBatch_places_copysets_and_ends TopologyTree.sampleTopology_reachable
      (fun _ => 1) ∅ 100 CopysetPlacement.Shuffler.identity).2 3 3 le_rfl⟩

-- one candidate and one replica: every round of the second step gives one copyset
example : ((TopologyTree.sampleTopology.placementView (fun _ => 1) ∅ 100).genCopysetAddrBatch
    CopysetPlacement.Shuffler.identity 3 3 []).map (·.2.length) = some 3 := by
  decide

end DingoFs.Mds
