import DingoFs.Mds.CopysetPlacement
import Mathlib.Data.List.Sort

/-!
# The copysets of a request: `TopologyImpl::GenCopysetAddrBatch`

`GenCopysetAddrBatch(need_create_num)` first gives a batch to every pool without copysets
(`GenCopysetIfPoolEmptyUnlocked`) and then, unless that made more than `need_create_num`, goes
round the pools with an online metaserver, sorted by copysets per online metaserver, until it
has enough (`GenSubsequentCopysetAddrBatchUnlocked`). A round erases the pools whose batch
fails; the loop gives up when a round leaves no pool or no copyset.

The rounds make progress only through a `Producer`, a pool whose every batch is non-empty; a
pool that gave copysets once is one, and nothing else gives any. On a topology whose servers
lie in zones of their own pool (`ServersInPoolZones`, as `RegistServer` builds them, which
`DingoFs.Mds.CopysetRegistry` proves of every topology the registry's calls reach) a
producer has an online metaserver, so the second step keeps it, and the loop ends within
`need_create_num` rounds (`genCopysetAddrBatch_ends`). Where a server lies in a zone of
another pool, a pool of `replicaNum` 0 that the second step keeps returns nothing, round after
round, and the request never ends, for every generator
(`genCopysetAddrBatch_serverOutsidePool_eq_none`).
-/

namespace DingoFs.Mds.CopysetPlacement

open DingoFs.Lib DingoFs.Mds.Topology

/-! ### The model -/

namespace TopologyImpl

variable (t : TopologyImpl)


/-- `GetZoneInPool`. -/
def getZoneInPool (poolId : Nat) : List Nat :=
  (t.zoneMap.entries.filter fun e => decide (e.2.poolId = poolId)).map (·.1)

/-- `GetServerInZone`. -/
def getServerInZone (zoneId : Nat) : List Nat :=
  (t.serverMap.entries.filter fun e => decide (e.2.zoneId = zoneId)).map (·.1)

/-- `GetMetaServerInServer` with a filter. -/
def getMetaServerInServer (serverId : Nat) (filter : MetaServer → Bool) : List Nat :=
  (t.metaServerMap.entries.filter fun e => decide (e.2.serverId = serverId) && filter e.2).map
    (·.1)

/-- `GetMetaServerInZone`: each server's metaservers spliced in front. -/
def getMetaServerInZone (zoneId : Nat) (filter : MetaServer → Bool) : List Nat :=
  (t.getServerInZone zoneId).foldl (fun ret s => t.getMetaServerInServer s filter ++ ret) []

/-- `GetMetaServerInPool`: each zone's metaservers spliced in front. -/
def getMetaServerInPool (poolId : Nat) (filter : MetaServer → Bool) : List Nat :=
  (t.getZoneInPool poolId).foldl (fun ret z => t.getMetaServerInZone z filter ++ ret) []

/-- `GetMetaServerNumInPool`. -/
def getMetaServerNumInPool (poolId : Nat) (filter : MetaServer → Bool) : Nat :=
  (t.getMetaServerInPool poolId filter).length

/-- `GetCopySetNumInPool`. -/
def getCopySetNumInPool (poolId : Nat) : Nat :=
  (t.copySetMap.entries.filter fun e => decide (e.1.1 = poolId)).length

/-- One pass of the loop of `GenCopysetIfPoolEmptyUnlocked`, from call `acc.1` of the
generator: a pool with a metaserver, no copyset and a positive `replicaNum` gets its batch. -/
def genCopysetIfPoolEmptyStep (rng : Shuffler) (acc : Nat × List CopysetCreateInfo)
    (pool : Σ _ : Nat, Pool) : Option (Nat × List CopysetCreateInfo) :=
  if t.getMetaServerNumInPool pool.1 (fun _ => true) = 0 then some acc
  else if t.getCopySetNumInPool pool.1 ≠ 0 then some acc
  else if pool.2.replicaNum = 0 then some acc
  else (t.genCopysetAddrBatchForPool rng acc.1 pool.1 pool.2.replicaNum).map fun r =>
    match r.2 with
    | .ok temp => (r.1, acc.2 ++ temp)
    | .error _ => (r.1, acc.2)

/-- `GenCopysetIfPoolEmptyUnlocked`, over `poolMap_`, from call `n` of the generator. -/
def genCopysetIfPoolEmptyUnlocked (rng : Shuffler) (n : Nat)
    (copysetList : List CopysetCreateInfo) : Option (Nat × List CopysetCreateInfo) :=
  t.poolMap.entries.foldlM (t.genCopysetIfPoolEmptyStep rng) (n, copysetList)

/-- The filter of the second step: online metaservers. -/
def onlineFilter (ms : MetaServer) : Bool := decide (ms.onlineState = .ONLINE)

/-- The pools of the second step: those with an online metaserver, sorted by copysets per
online metaserver (`copyset_num * 1.0 / metaserver_num`, compared crosswise). -/
def subsequentPoolList : List (Σ _ : Nat, Pool) :=
  (t.poolMap.entries.filter fun p =>
      decide (t.getMetaServerNumInPool p.1 onlineFilter ≠ 0)).insertionSort
    fun a b => ¬ t.getCopySetNumInPool b.1 * t.getMetaServerNumInPool a.1 onlineFilter <
      t.getCopySetNumInPool a.1 * t.getMetaServerNumInPool b.1 onlineFilter

end TopologyImpl

/-- How a round of the second step ends: with enough copysets, or with the pools left. -/
inductive RoundEnd
  | done (n : Nat) (copysetList : List CopysetCreateInfo)
  | next (n : Nat) (poolList : List (Σ _ : Nat, Pool)) (copysetList : List CopysetCreateInfo)

/-- A pool that gave its batch stays in the list. -/
def RoundEnd.keep (pool : Σ _ : Nat, Pool) : RoundEnd → RoundEnd
  | .done n copysetList => .done n copysetList
  | .next n poolList copysetList => .next n (pool :: poolList) copysetList

namespace TopologyImpl

variable (t : TopologyImpl)

/-- One pass of the `for` over `pool_list`: a pool whose batch fails is erased; one whose batch
succeeds is spliced in, and the call returns once there are `needCreateNum` copysets. -/
def subsequentRound (rng : Shuffler) (needCreateNum : Nat) :
    (n : Nat) → List (Σ _ : Nat, Pool) → List CopysetCreateInfo → Option RoundEnd
  | n, [], copysetList => some (.next n [] copysetList)
  | n, pool :: pools, copysetList =>
    (t.genCopysetAddrBatchForPool rng n pool.1 pool.2.replicaNum).bind fun r =>
      match r.2 with
      | .ok temp =>
        if needCreateNum ≤ (copysetList ++ temp).length then some (.done r.1 (copysetList ++ temp))
        else (subsequentRound rng needCreateNum r.1 pools (copysetList ++ temp)).map
          (RoundEnd.keep pool)
      | .error _ => subsequentRound rng needCreateNum r.1 pools copysetList

/-- The `while (copyset_list->size() < need_create_num)` of the second step. -/
def subsequentLoop (rng : Shuffler) (needCreateNum : Nat) :
    (fuel n : Nat) → List (Σ _ : Nat, Pool) → List CopysetCreateInfo →
      Option (Nat × TopoStatusCode × List CopysetCreateInfo)
  | fuel, n, poolList, copysetList =>
    if copysetList.length < needCreateNum then
      match fuel with
      | 0 => none
      | fuel + 1 =>
        match t.subsequentRound rng needCreateNum n poolList copysetList with
        | none => none
        | some (.done n copysetList) => some (n, .TOPO_OK, copysetList)
        | some (.next n poolList copysetList) =>
          if copysetList.length = 0 ∨ poolList.length = 0 then
            some (n, .TOPO_METASERVER_NOT_FOUND, copysetList)
          else subsequentLoop rng needCreateNum fuel n poolList copysetList
    else some (n, .TOPO_OK, copysetList)

/-- `GenSubsequentCopysetAddrBatchUnlocked`, from call `n` of the generator. -/
def genSubsequentCopysetAddrBatchUnlocked (rng : Shuffler) (fuel needCreateNum n : Nat)
    (copysetList : List CopysetCreateInfo) :
    Option (Nat × TopoStatusCode × List CopysetCreateInfo) :=
  t.subsequentLoop rng needCreateNum fuel n t.subsequentPoolList copysetList

/-- `GenCopysetAddrBatch`: the empty pools first; then, unless that gave more than
`needCreateNum`, the second step. -/
def genCopysetAddrBatch (rng : Shuffler) (fuel needCreateNum : Nat)
    (copysetList : List CopysetCreateInfo) : Option (TopoStatusCode × List CopysetCreateInfo) := do
  let (n, copysetList) ← t.genCopysetIfPoolEmptyUnlocked rng 0 copysetList
  if copysetList.length > needCreateNum then pure (.TOPO_OK, copysetList)
  else
    let r ← t.genSubsequentCopysetAddrBatchUnlocked rng fuel needCreateNum n copysetList
    pure r.2

end TopologyImpl

/-! ### Where the producers are -/

namespace TopologyImpl

variable (t : TopologyImpl)

/-- Every server lies in a zone of its own pool, as `RegistServer` builds it. -/
def ServersInPoolZones : Prop :=
  ∀ e ∈ t.serverMap.entries, (t.zoneMap.lookup e.2.zoneId).map (·.poolId) = some e.2.poolId

instance : Decidable t.ServersInPoolZones :=
  inferInstanceAs (Decidable (∀ e ∈ t.serverMap.entries, _))

/-- Some pool of the list is a `Producer`. -/
def HasProducer (poolList : List (Σ _ : Nat, Pool)) : Prop :=
  ∃ p ∈ poolList, t.Producer p.1 p.2.replicaNum

theorem HasProducer.mono {poolList poolList' : List (Σ _ : Nat, Pool)}
    (h : t.HasProducer poolList') (hsub : poolList' ⊆ poolList) : t.HasProducer poolList :=
  let ⟨p, hp, hP⟩ := h
  ⟨p, hsub hp, hP⟩

/-- Splicing lists in front, as `GetMetaServerInZone` and `GetMetaServerInPool` do, keeps
what is there. -/
theorem subset_foldl_splice {β : Type*} (g : β → List Nat) :
    ∀ (l : List β) (init : List Nat), init ⊆ l.foldl (fun ret a => g a ++ ret) init
  | [], _ => List.Subset.refl _
  | a :: l, init => fun _ hx =>
    subset_foldl_splice g l (g a ++ init) (List.mem_append_right _ hx)

theorem mem_foldl_splice {β : Type*} (g : β → List Nat) {x : Nat} {b : β} :
    ∀ {l : List β} (init : List Nat), b ∈ l → x ∈ g b →
      x ∈ l.foldl (fun ret a => g a ++ ret) init
  | a :: l, init, hb, hx => by
    rw [List.foldl_cons]
    rcases List.mem_cons.mp hb with rfl | hb
    · exact subset_foldl_splice g l _ (List.mem_append_left _ hx)
    · exact mem_foldl_splice g _ hb hx

/-- A metaserver on a server in a zone of the pool counts for the pool. -/
theorem mem_getMetaServerInPool {poolId zoneId serverId id : Nat} {filter : MetaServer → Bool}
    {zone : Zone} {server : Server} {ms : MetaServer}
    (hz : t.zoneMap.lookup zoneId = some zone) (hzp : zone.poolId = poolId)
    (hs : t.serverMap.lookup serverId = some server) (hsz : server.zoneId = zoneId)
    (hm : t.metaServerMap.lookup id = some ms) (hms : ms.serverId = serverId)
    (hf : filter ms = true) : id ∈ t.getMetaServerInPool poolId filter := by
  have hzone : zoneId ∈ t.getZoneInPool poolId :=
    List.mem_map.mpr ⟨⟨zoneId, zone⟩, List.mem_filter.mpr
      ⟨AList.mem_lookup_iff.mp hz, decide_eq_true hzp⟩, rfl⟩
  have hserver : serverId ∈ t.getServerInZone zoneId :=
    List.mem_map.mpr ⟨⟨serverId, server⟩, List.mem_filter.mpr
      ⟨AList.mem_lookup_iff.mp hs, decide_eq_true hsz⟩, rfl⟩
  have hmeta : id ∈ t.getMetaServerInServer serverId filter := by
    refine List.mem_map.mpr ⟨⟨id, ms⟩, List.mem_filter.mpr ⟨AList.mem_lookup_iff.mp hm, ?_⟩, rfl⟩
    simp [hms, hf]
  exact mem_foldl_splice _ [] hzone (mem_foldl_splice _ [] hserver hmeta)

/-- On a topology whose servers lie in zones of their own pool, a producer has an online
metaserver, so the second step keeps it. -/
theorem mem_subsequentPoolList (hc : t.ServersInPoolZones) {pool : Σ _ : Nat, Pool}
    (hp : pool ∈ t.poolMap.entries) (hP : t.Producer pool.1 pool.2.replicaNum) :
    pool ∈ t.subsequentPoolList := by
  obtain ⟨hR, candidateMap, hok, hRz⟩ := hP
  have hcm := t.candidateMap_of_genCandidateMapUnlock hok
  -- a zone of the candidate map, and a candidate in it
  obtain ⟨e, he⟩ := List.exists_mem_of_length_pos (lt_of_lt_of_le hR hRz)
  obtain ⟨id, hid⟩ := List.exists_mem_of_ne_nil _ (hcm.nonempty e he)
  have hid' : id ∈ t.candidatesIn t.getAvailableMetaserversUnlock pool.1 e.1 := by
    rw [← hcm.lookup_eq, lookup_of_mem hcm.sorted he]
    exact hid
  obtain ⟨ms, hm, honline, -, -, server, hs, hsp⟩ := (t.candidate_of_mem_candidatesIn hid').1
  -- the server's zone is a zone of the pool
  have hzone := hc ⟨ms.serverId, server⟩ (AList.mem_lookup_iff.mp hs)
  obtain ⟨zone, hz, hzp⟩ := Option.map_eq_some_iff.mp hzone
  have hmem : id ∈ t.getMetaServerInPool pool.1 onlineFilter :=
    t.mem_getMetaServerInPool hz (hzp.trans hsp) hs rfl hm rfl (decide_eq_true honline)
  apply (List.perm_insertionSort _ _).mem_iff.mpr
  exact List.mem_filter.mpr ⟨hp, decide_eq_true (List.length_pos_of_mem hmem).ne'⟩

/-! ### The first step -/

/-- A pass of the first step ends; the list only grows, and only by a producer's batch. -/
theorem genCopysetIfPoolEmptyStep_spec (rng : Shuffler) (acc : Nat × List CopysetCreateInfo)
    (pool : Σ _ : Nat, Pool) :
    ∃ r, t.genCopysetIfPoolEmptyStep rng acc pool = some r ∧ acc.2.length ≤ r.2.length ∧
      (acc.2.length < r.2.length → t.Producer pool.1 pool.2.replicaNum) := by
  unfold genCopysetIfPoolEmptyStep
  split_ifs
  · exact ⟨acc, rfl, le_rfl, fun h => absurd h (lt_irrefl _)⟩
  · exact ⟨acc, rfl, le_rfl, fun h => absurd h (lt_irrefl _)⟩
  · exact ⟨acc, rfl, le_rfl, fun h => absurd h (lt_irrefl _)⟩
  · obtain ⟨n', r, h, hP⟩ := t.genCopysetAddrBatchForPool_cases rng acc.1 pool.1 pool.2.replicaNum
    rw [h]
    cases r with
    | ok temp =>
      refine ⟨_, rfl, by simp, fun hlt => hP temp rfl ?_⟩
      rintro rfl
      simp at hlt
    | error e => exact ⟨_, rfl, le_rfl, fun h => absurd h (lt_irrefl _)⟩

/-- The first step ends; what it adds comes from producers of `poolMap_`. The induction is on
the pools, with the list so far as the accumulator. -/
theorem foldlM_genCopysetIfPoolEmptyStep_spec (rng : Shuffler) :
    ∀ (l : List (Σ _ : Nat, Pool)) (acc : Nat × List CopysetCreateInfo),
      ∃ r, l.foldlM (t.genCopysetIfPoolEmptyStep rng) acc = some r ∧
        acc.2.length ≤ r.2.length ∧ (acc.2.length < r.2.length → t.HasProducer l)
  | [], acc => ⟨acc, rfl, le_rfl, fun h => absurd h (lt_irrefl _)⟩
  | pool :: l, acc => by
    obtain ⟨r, hr, hle, hgrow⟩ := t.genCopysetIfPoolEmptyStep_spec rng acc pool
    obtain ⟨r', hr', hle', hgrow'⟩ := foldlM_genCopysetIfPoolEmptyStep_spec rng l r
    refine ⟨r', ?_, hle.trans hle', fun hlt => ?_⟩
    · rw [List.foldlM_cons, hr]
      exact hr'
    · by_cases h : acc.2.length < r.2.length
      · exact ⟨pool, List.mem_cons_self, hgrow h⟩
      · exact (hgrow' (by omega)).mono t (List.subset_cons_self pool l)

theorem genCopysetIfPoolEmptyUnlocked_spec (rng : Shuffler) (n : Nat)
    (copysetList : List CopysetCreateInfo) :
    ∃ r, t.genCopysetIfPoolEmptyUnlocked rng n copysetList = some r ∧
      copysetList.length ≤ r.2.length ∧
      (copysetList.length < r.2.length → t.HasProducer t.poolMap.entries) :=
  t.foldlM_genCopysetIfPoolEmptyStep_spec rng _ (n, copysetList)

end TopologyImpl

/-! ### The second step -/

/-- What a round of the second step guarantees, from the pools `poolList` and the list
`copysetList` it starts with: enough copysets, or a sublist of the pools that keeps a
producer exactly when the list grew, which it does when `poolList` holds a producer. -/
def RoundEnd.Progress (t : TopologyImpl) (needCreateNum : Nat)
    (poolList : List (Σ _ : Nat, Pool)) (copysetList : List CopysetCreateInfo) :
    RoundEnd → Prop
  | .done _ copysetList' => needCreateNum ≤ copysetList'.length
  | .next _ poolList' copysetList' =>
    poolList' ⊆ poolList ∧ copysetList.length ≤ copysetList'.length ∧
      (copysetList.length < copysetList'.length → t.HasProducer poolList') ∧
      (t.HasProducer poolList → copysetList.length < copysetList'.length)

namespace RoundEnd

variable {t : TopologyImpl} {needCreateNum : Nat} {pool : Σ _ : Nat, Pool}
  {poolList : List (Σ _ : Nat, Pool)} {copysetList : List CopysetCreateInfo}

/-- A pool whose batch `temp` is non-empty exactly when it is a producer stays in the list. -/
theorem Progress.keep {temp : List CopysetCreateInfo} {r : RoundEnd}
    (h : r.Progress t needCreateNum poolList (copysetList ++ temp))
    (hP : temp ≠ [] → t.Producer pool.1 pool.2.replicaNum)
    (hne : t.Producer pool.1 pool.2.replicaNum → temp ≠ []) :
    (r.keep pool).Progress t needCreateNum (pool :: poolList) copysetList := by
  cases r with
  | done n copysetList' => exact h
  | next n poolList' copysetList' =>
    obtain ⟨hsub, hle, hgrow, hprod⟩ := h
    rw [List.length_append] at hle hgrow hprod
    refine ⟨List.cons_subset_cons pool hsub, by omega, fun hlt => ?_, fun ⟨p, hp, hPp⟩ => ?_⟩
    · by_cases htemp : temp = []
      · subst htemp
        exact (hgrow (by simpa using hlt)).mono t (List.subset_cons_self pool poolList')
      · exact ⟨pool, List.mem_cons_self, hP htemp⟩
    · rcases List.mem_cons.mp hp with rfl | hp
      · have := List.length_pos_of_ne_nil (hne hPp)
        omega
      · have := hprod ⟨p, hp, hPp⟩
        omega

/-- A pool that is no producer is erased without harm. -/
theorem Progress.erase {r : RoundEnd} (h : r.Progress t needCreateNum poolList copysetList)
    (hP : ¬ t.Producer pool.1 pool.2.replicaNum) :
    r.Progress t needCreateNum (pool :: poolList) copysetList := by
  cases r with
  | done n copysetList' => exact h
  | next n poolList' copysetList' =>
    obtain ⟨hsub, hle, hgrow, hprod⟩ := h
    refine ⟨List.Subset.trans hsub (List.subset_cons_self pool poolList), hle, hgrow,
      fun ⟨p, hp, hPp⟩ => ?_⟩
    rcases List.mem_cons.mp hp with rfl | hp
    · exact absurd hPp hP
    · exact hprod ⟨p, hp, hPp⟩

end RoundEnd

namespace TopologyImpl

variable (t : TopologyImpl)

/-- A round ends, with `RoundEnd.Progress`. The induction follows `subsequentRound` over the
pools. -/
theorem subsequentRound_spec (rng : Shuffler) (needCreateNum : Nat) :
    ∀ (poolList : List (Σ _ : Nat, Pool)) (n : Nat) (copysetList : List CopysetCreateInfo),
      ∃ r, t.subsequentRound rng needCreateNum n poolList copysetList = some r ∧
        r.Progress t needCreateNum poolList copysetList
  | [], n, copysetList => by
    refine ⟨_, rfl, List.Subset.refl _, le_rfl, fun h => absurd h (lt_irrefl _), ?_⟩
    rintro ⟨p, hp, -⟩
    exact absurd hp List.not_mem_nil
  | pool :: poolList, n, copysetList => by
    obtain ⟨n', r, h, hP⟩ := t.genCopysetAddrBatchForPool_cases rng n pool.1 pool.2.replicaNum
    rw [subsequentRound, h, Option.bind_some]
    cases r with
    | ok temp =>
      -- a producer's batch is never empty, whatever the generator did before
      have hne : t.Producer pool.1 pool.2.replicaNum → temp ≠ [] := by
        intro hPp
        obtain ⟨n'', l, h', hl⟩ := t.exists_ok_of_producer rng n hPp
        rw [h] at h'
        cases h'
        exact hl
      dsimp only
      split_ifs with hdone
      · exact ⟨_, rfl, hdone⟩
      · obtain ⟨r', hr', hprog⟩ := subsequentRound_spec rng needCreateNum poolList n'
          (copysetList ++ temp)
        rw [hr']
        exact ⟨_, rfl, hprog.keep (hP temp rfl) hne⟩
    | error e =>
      have hnP : ¬ t.Producer pool.1 pool.2.replicaNum := by
        intro hPp
        obtain ⟨n'', l, h', -⟩ := t.exists_ok_of_producer rng n hPp
        rw [h] at h'
        cases h'
      obtain ⟨r', hr', hprog⟩ := subsequentRound_spec rng needCreateNum poolList n' copysetList
      exact ⟨r', hr', hprog.erase hnP⟩

/-- A round over pools that each give an empty batch, without a shuffle, ends with the pools
and the list it started with. -/
theorem subsequentRound_idle (rng : Shuffler) (needCreateNum : Nat)
    {copysetList : List CopysetCreateInfo} (hlt : copysetList.length < needCreateNum) :
    ∀ (poolList : List (Σ _ : Nat, Pool)) (n : Nat),
      (∀ p ∈ poolList, ∀ n, t.genCopysetAddrBatchForPool rng n p.1 p.2.replicaNum =
        some (n, .ok [])) →
      t.subsequentRound rng needCreateNum n poolList copysetList =
        some (.next n poolList copysetList)
  | [], _, _ => rfl
  | pool :: poolList, n, hidle => by
    rw [subsequentRound, hidle pool List.mem_cons_self n, Option.bind_some]
    dsimp only
    rw [List.append_nil, if_neg (not_le.mpr hlt), subsequentRound_idle rng needCreateNum hlt
      poolList n fun p hp => hidle p (List.mem_cons_of_mem pool hp)]
    rfl

/-- A round that leaves a non-empty list short and its pools as they were comes again, round
after round: the loop never ends. -/
theorem subsequentLoop_eq_none_of_idle (rng : Shuffler) (needCreateNum : Nat)
    {poolList : List (Σ _ : Nat, Pool)} {copysetList : List CopysetCreateInfo}
    (hlt : copysetList.length < needCreateNum) (hne : copysetList ≠ []) (hpools : poolList ≠ [])
    (hidle : ∀ n, t.subsequentRound rng needCreateNum n poolList copysetList =
      some (.next n poolList copysetList)) :
    ∀ fuel n, t.subsequentLoop rng needCreateNum fuel n poolList copysetList = none := by
  intro fuel
  induction fuel with
  | zero =>
    intro n
    rw [subsequentLoop, if_pos hlt]
  | succ fuel ih =>
    intro n
    rw [subsequentLoop, if_pos hlt, hidle n]
    dsimp only
    rw [if_neg (by simp [hne, hpools])]
    exact ih n

/-- The loop of the second step ends once the fuel covers the copysets still missing, as long
as a non-empty list comes with a producer among the pools: every round then adds a copyset,
and a round from an empty list without a producer ends the loop. -/
theorem subsequentLoop_spec (rng : Shuffler) (needCreateNum : Nat) :
    ∀ (fuel n : Nat) (poolList : List (Σ _ : Nat, Pool)) (copysetList : List CopysetCreateInfo),
      needCreateNum ≤ copysetList.length + fuel →
      (copysetList ≠ [] → t.HasProducer poolList) →
      ∃ n' ret copysetList',
        t.subsequentLoop rng needCreateNum fuel n poolList copysetList =
          some (n', ret, copysetList') ∧
        (ret = .TOPO_OK ∧ needCreateNum ≤ copysetList'.length ∨
          ret = .TOPO_METASERVER_NOT_FOUND) := by
  intro fuel
  induction fuel with
  | zero =>
    intro n poolList copysetList hfuel _
    rw [subsequentLoop, if_neg (by omega)]
    exact ⟨n, _, copysetList, rfl, .inl ⟨rfl, by omega⟩⟩
  | succ fuel ih =>
    intro n poolList copysetList hfuel hinv
    rw [subsequentLoop]
    split_ifs with hlt
    · obtain ⟨r, hr, hprog⟩ := t.subsequentRound_spec rng needCreateNum poolList n copysetList
      rw [hr]
      cases r with
      | done n' copysetList' => exact ⟨n', _, copysetList', rfl, .inl ⟨rfl, hprog⟩⟩
      | next n' poolList' copysetList' =>
        obtain ⟨hsub, hle, hgrow, hprod⟩ := hprog
        -- the list grows exactly when the round saw a producer
        have hgrow_iff : copysetList.length < copysetList'.length ↔ t.HasProducer poolList :=
          ⟨fun h => (hgrow h).mono t hsub, hprod⟩
        dsimp only
        split_ifs with hexit
        · exact ⟨n', _, copysetList', rfl, .inr rfl⟩
        · apply ih n' poolList' copysetList'
          · by_cases hP : t.HasProducer poolList
            · have := hgrow_iff.mpr hP
              omega
            · have h0 : copysetList = [] := by
                by_contra hne
                exact hP (hinv hne)
              have := mt hgrow_iff.mp hP
              subst h0
              simp only [List.length_nil] at this hle hexit
              omega
          · intro hne
            by_cases hg : copysetList.length < copysetList'.length
            · exact hgrow hg
            · have hne' : copysetList ≠ [] := by
                rintro rfl
                simp only [List.length_nil, not_lt, Nat.le_zero] at hg
                exact hne (List.eq_nil_of_length_eq_zero hg)
              exact absurd (hprod (hinv hne')) hg
    · exact ⟨n, _, copysetList, rfl, .inl ⟨rfl, not_lt.mp hlt⟩⟩

/-- `GenCopysetAddrBatch` from an empty list, on a topology whose servers lie in zones of
their own pool, ends within `needCreateNum` rounds of the second step: with at least
`needCreateNum` copysets and `TOPO_OK`, or with `TOPO_METASERVER_NOT_FOUND`. -/
theorem genCopysetAddrBatch_ends (hc : t.ServersInPoolZones) (rng : Shuffler)
    {fuel needCreateNum : Nat} (hfuel : needCreateNum ≤ fuel) :
    ∃ ret copysetList, t.genCopysetAddrBatch rng fuel needCreateNum [] = some (ret, copysetList) ∧
      (ret = .TOPO_OK ∧ needCreateNum ≤ copysetList.length ∨
        ret = .TOPO_METASERVER_NOT_FOUND) := by
  obtain ⟨⟨n, copysetList⟩, h1, -, hgrow⟩ := t.genCopysetIfPoolEmptyUnlocked_spec rng 0 []
  unfold genCopysetAddrBatch
  rw [h1]
  dsimp only [bind, Option.bind]
  split_ifs with hmore
  · exact ⟨_, copysetList, rfl, .inl ⟨rfl, le_of_lt hmore⟩⟩
  · -- what the first step made came from a producer, which the second step keeps
    have hinv : copysetList ≠ [] → t.HasProducer t.subsequentPoolList := by
      intro hne
      obtain ⟨p, hp, hP⟩ := hgrow (List.length_pos_of_ne_nil hne)
      exact ⟨p, t.mem_subsequentPoolList hc hp hP, hP⟩
    obtain ⟨n', ret, copysetList', h2, hret⟩ :=
      t.subsequentLoop_spec rng needCreateNum fuel n _ copysetList (by omega) hinv
    unfold genSubsequentCopysetAddrBatchUnlocked
    rw [h2]
    exact ⟨ret, copysetList', rfl, hret⟩

end TopologyImpl

/-- The generator whose shuffles leave every range as it is. -/
def Shuffler.identity : Shuffler := ⟨fun _ l => l, fun _ l => List.Perm.refl l⟩

/-- One pool of `replicaNum` 2 over two zones, with two online metaservers in each. -/
def twoZonePool : TopologyImpl where
  poolMap := ⟨[⟨1, ⟨2⟩⟩], by simp [List.NodupKeys]⟩
  zoneMap := ⟨[⟨1, ⟨1⟩⟩, ⟨2, ⟨1⟩⟩], by simp [List.NodupKeys]⟩
  serverMap := ⟨[⟨1, ⟨1, 1⟩⟩, ⟨2, ⟨2, 1⟩⟩], by simp [List.NodupKeys]⟩
  metaServerMap := ⟨[⟨1, ⟨1, .ONLINE, ⟨100, 1, 0⟩⟩⟩, ⟨2, ⟨2, .ONLINE, ⟨100, 1, 0⟩⟩⟩,
    ⟨3, ⟨1, .ONLINE, ⟨100, 1, 0⟩⟩⟩, ⟨4, ⟨2, .ONLINE, ⟨100, 1, 0⟩⟩⟩], by simp [List.NodupKeys]⟩
  copySetMap := ∅
  maxCopysetNumInMetaserver := 100

-- each of the two batches is two rounds of two copysets
example :
    (twoZonePool.genCopysetAddrBatch Shuffler.identity 5 5 []).map (·.2.length) = some 8 := by
  decide

/-- Two pools: pool 1 of `replicaNum` 1 has an offline metaserver in its zone 1, and the online
one of server 2, which says pool 1 but stands in zone 2 of pool 2, of `replicaNum` 0. -/
def serverOutsidePool : TopologyImpl where
  poolMap := ⟨[⟨1, ⟨1⟩⟩, ⟨2, ⟨0⟩⟩], by simp [List.NodupKeys]⟩
  zoneMap := ⟨[⟨1, ⟨1⟩⟩, ⟨2, ⟨2⟩⟩], by simp [List.NodupKeys]⟩
  serverMap := ⟨[⟨1, ⟨1, 1⟩⟩, ⟨2, ⟨2, 1⟩⟩], by simp [List.NodupKeys]⟩
  metaServerMap := ⟨[⟨1, ⟨1, .OFFLINE, ⟨100, 1, 0⟩⟩⟩, ⟨2, ⟨2, .ONLINE, ⟨100, 1, 0⟩⟩⟩],
    by simp [List.NodupKeys]⟩
  copySetMap := ∅
  maxCopysetNumInMetaserver := 100

/-- Without servers in zones of their own pool the request can run forever, whatever the
generator: the first step gives pool 1 one copyset, and the second keeps only pool 2, which has
an online metaserver but, with `replicaNum` 0, gives nothing, round after round. -/
theorem genCopysetAddrBatch_serverOutsidePool_eq_none (rng : Shuffler) (fuel : Nat) :
    serverOutsidePool.genCopysetAddrBatch rng fuel 2 [] = none := by
  -- pool 1: its one candidate, in zone 2, makes one copyset in one round
  have hpool1 : ∀ n, serverOutsidePool.genCopysetAddrBatchForPool rng n 1 1 =
      some (n + 2, .ok [⟨1, UNINITIALIZE_ID, [2]⟩]) := by
    intro n
    have hcm : serverOutsidePool.genCandidateMapUnlock 1 = .ok [(2, [2])] := rfl
    rw [TopologyImpl.genCopysetAddrBatchForPool, hcm]
    simp [forPoolLoop, Shuffler.shuffleEach_cons, Shuffler.shuffleEach_nil,
      Shuffler.shuffle_singleton, layOut, copysetsOfRound, orderedSetInsert, UINT32_MAX]
  have hfirst : serverOutsidePool.genCopysetIfPoolEmptyUnlocked rng 0 [] =
      some (2, [⟨1, UNINITIALIZE_ID, [2]⟩]) := by
    have hentries : serverOutsidePool.poolMap.entries = [⟨1, ⟨1⟩⟩, ⟨2, ⟨0⟩⟩] := rfl
    have hs1 : serverOutsidePool.genCopysetIfPoolEmptyStep rng (0, []) ⟨1, ⟨1⟩⟩ =
        some (2, [⟨1, UNINITIALIZE_ID, [2]⟩]) := by
      rw [TopologyImpl.genCopysetIfPoolEmptyStep, if_neg (by decide), if_neg (by decide),
        if_neg (by decide), hpool1]
      rfl
    have hs2 : serverOutsidePool.genCopysetIfPoolEmptyStep rng
        (2, [⟨1, UNINITIALIZE_ID, [2]⟩]) ⟨2, ⟨0⟩⟩ = some (2, [⟨1, UNINITIALIZE_ID, [2]⟩]) := by
      rw [TopologyImpl.genCopysetIfPoolEmptyStep, if_neg (by decide), if_neg (by decide),
        if_pos rfl]
    rw [TopologyImpl.genCopysetIfPoolEmptyUnlocked, hentries, List.foldlM_cons, hs1,
      Option.bind_eq_bind, Option.bind_some, List.foldlM_cons, hs2]
    rfl
  -- pool 2: no candidate of its own, and `replicaNum` 0
  have hidle : ∀ n, serverOutsidePool.subsequentRound rng 2 n [⟨2, ⟨0⟩⟩]
      [⟨1, UNINITIALIZE_ID, [2]⟩] = some (.next n [⟨2, ⟨0⟩⟩] [⟨1, UNINITIALIZE_ID, [2]⟩]) := by
    intro n
    apply serverOutsidePool.subsequentRound_idle rng 2 (by decide)
    intro p hp n
    rw [List.mem_singleton] at hp
    subst hp
    have hcm : serverOutsidePool.genCandidateMapUnlock 2 = .ok [] := rfl
    exact serverOutsidePool.genCopysetAddrBatchForPool_zero rng n hcm
  have hpools : serverOutsidePool.subsequentPoolList = [⟨2, ⟨0⟩⟩] := by decide
  unfold TopologyImpl.genCopysetAddrBatch
  rw [hfirst]
  dsimp only [bind, Option.bind]
  rw [if_neg (by decide), TopologyImpl.genSubsequentCopysetAddrBatchUnlocked, hpools,
    serverOutsidePool.subsequentLoop_eq_none_of_idle rng 2 (by decide) (by simp) (by simp) hidle]

end DingoFs.Mds.CopysetPlacement
