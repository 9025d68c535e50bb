import Mathlib

/-!
# The disk cache index: `blockcache::LRUCache` and `DiskCacheManager`

The disk cache keeps an index of the block files it holds. `LRUCache` links a `ListNode` per
block into an inactive and an active list, oldest first, and keeps the mapping from a block's
file name to its node in a `base::cache` hash, whose handles own the nodes: a node lives while a
handle to it does. `DiskCacheManager` counts the bytes of the blocks in `used_bytes_` and evicts
through a filter when the disk fills up or blocks expire, handing the evicted blocks to
`DeleteBlocks`.

`Add` of a key the hash holds does not keep one node per key. The `base::cache` `Insert` takes
the older handle out of the table, but the older node keeps its own handle, so it stays linked:
two nodes carry the key, `used_bytes_` counts both blocks, an eviction reports the key once per
node, and a cleanup can delete the block file of a key the index still holds
(`add_of_held_key_keeps_old_node`).

Keys are the `CacheKey`s the hash is keyed by, through `Filename()`, which `KV` parses back.
-/

namespace DingoFs.Client.Blockcache

/-- `CacheValue`: the block's size and its access time, in seconds. -/
structure CacheValue where
  size : Nat
  atime : Nat
deriving DecidableEq, Repr

/-- `FilterStatus`: what an eviction filter says of a node. -/
inductive FilterStatus
  | EVICT_IT
  | SKIP
  | FINISH
deriving DecidableEq, Repr

/-- A `ListNode`, with the key of the hash handle it holds; `id` is its address. -/
structure ListNode (κ : Type) where
  id : Nat
  key : κ
  value : CacheValue
deriving DecidableEq, Repr

/-- `blockcache::LRUCache`. `hash` is the table of the `base::cache`: it maps a key to the node
whose handle is in the cache. `inactive` and `active` are the two lists, oldest first
(`ListAddFront` links a node just before the list head, at the newest end). `nextId` is the
address of the next node. -/
structure LRUCache (κ : Type) where
  hash : AList (fun _ : κ => Nat)
  inactive : List (ListNode κ)
  active : List (ListNode κ)
  nextId : Nat

variable {κ : Type} [DecidableEq κ]

namespace LRUCache

/-- The constructor: an empty table and two empty lists. -/
def empty : LRUCache κ := ⟨∅, [], [], 0⟩

/-- The nodes linked in the two lists. -/
def linked (c : LRUCache κ) : List (ListNode κ) := c.inactive ++ c.active

/-- `LRUCache::Add`: a new node, linked as the newest inactive one. `HashInsert` puts its handle
in the table; the `base::cache` `Insert` takes an older handle of the key out of the table, but
the older node keeps that handle and stays linked. -/
def add (c : LRUCache κ) (key : κ) (value : CacheValue) : LRUCache κ :=
  { c with
    hash := c.hash.insert key c.nextId
    inactive := c.inactive ++ [⟨c.nextId, key, value⟩]
    nextId := c.nextId + 1 }

/-- `HashLookup`: the node whose handle the table holds for the key. -/
def hashLookup (c : LRUCache κ) (key : κ) : Option (ListNode κ) :=
  (c.hash.lookup key).bind fun id => c.linked.find? (·.id == id)

/-- `ListRemove`: the node taken out of the list that links it. -/
def unlink (c : LRUCache κ) (id : Nat) : LRUCache κ :=
  { c with inactive := c.inactive.filter (·.id != id), active := c.active.filter (·.id != id) }

/-- `HashDelete` of an unlinked node: releasing its handle frees it, and `Prune` takes its key
out of the table when the table holds this node's handle. -/
def hashDelete (c : LRUCache κ) (node : ListNode κ) : LRUCache κ :=
  if c.hash.lookup node.key = some node.id then { c with hash := c.hash.erase node.key } else c

/-- `LRUCache::Get` at time `now`: the node moves to the newest end of the active list, with
its access time updated. -/
def get (c : LRUCache κ) (key : κ) (now : Nat) : LRUCache κ × Option CacheValue :=
  match c.hashLookup key with
  | none => (c, none)
  | some node =>
    let value : CacheValue := { node.value with atime := now }
    let c' := c.unlink node.id
    ({ c' with active := c'.active ++ [{ node with value := value }] }, some value)

/-- `LRUCache::Delete`. -/
def delete (c : LRUCache κ) (key : κ) : LRUCache κ × Option CacheValue :=
  match c.hashLookup key with
  | none => (c, none)
  | some node => ((c.unlink node.id).hashDelete node, some node.value)

/-- `LRUCache::Size`: the total charge of the hash, one per handle in its table. -/
def size (c : LRUCache κ) : Nat := c.hash.entries.length

/-- The bytes of the blocks the index holds: over the keys of the hash, the size of the node
each maps to. -/
def heldBytes (c : LRUCache κ) : Nat :=
  (c.hash.keys.map fun key => ((c.hashLookup key).map (·.value.size)).getD 0).sum

/-- The index is consistent: the lists link one node per key of the hash, the node whose handle
the hash holds, and no other node; addresses are distinct and below the next one. -/
structure Consistent (c : LRUCache κ) : Prop where
  nodup_id : (c.linked.map (·.id)).Nodup
  lookup_of_mem : ∀ node ∈ c.linked, c.hash.lookup node.key = some node.id
  mem_of_lookup : ∀ key id, c.hash.lookup key = some id →
    ∃ node ∈ c.linked, node.id = id ∧ node.key = key
  id_lt : ∀ node ∈ c.linked, node.id < c.nextId

end LRUCache

/-- `DiskCacheManager`: `used_bytes_`, `capacity_` and its `LRUCache`. -/
structure DiskCacheManager (κ : Type) where
  usedBytes : Nat
  capacity : Nat
  lru : LRUCache κ

namespace DiskCacheManager

/-- `LRUCache::EvictNode` over the nodes of one list, oldest first, the filter's calls numbered
from `n`: the manager after the evictions, the items evicted, the number of calls, and whether
the walk reached the list's end (`false` at `FINISH`). The filter sees its call number, the
manager as it is and the node's value; before it answers `EVICT_IT` it counts the node out of
`used_bytes_` (`UpdateUsage(-1, -value.size)`). `KV` reports the node under its handle's key,
and the node is unlinked and its handle deleted. -/
def evictNode (filter : Nat → DiskCacheManager κ → CacheValue → FilterStatus) :
    Nat → DiskCacheManager κ → List (ListNode κ) →
      DiskCacheManager κ × List (κ × CacheValue) × Nat × Bool
  | n, m, [] => (m, [], n, true)
  | n, m, node :: nodes =>
    match filter n m node.value with
    | .EVICT_IT =>
      match evictNode filter (n + 1)
          { m with
            usedBytes := m.usedBytes - node.value.size
            lru := (m.lru.unlink node.id).hashDelete node } nodes with
      | (m', items, n', go) => (m', (node.key, node.value) :: items, n', go)
    | .SKIP => evictNode filter (n + 1) m nodes
    | .FINISH => (m, [], n + 1, false)

/-- `LRUCache::Evict`: the inactive list, then, unless the filter finished, the active one. -/
def evict (m : DiskCacheManager κ) (filter : Nat → DiskCacheManager κ → CacheValue → FilterStatus) :
    DiskCacheManager κ × List (κ × CacheValue) :=
  match evictNode filter 0 m m.lru.inactive with
  | (m₁, items₁, n, true) =>
    match evictNode filter n m₁ m₁.lru.active with
    | (m₂, items₂, _, _) => (m₂, items₁ ++ items₂)
  | (m₁, items₁, _, false) => (m₁, items₁)

/-- `DiskCacheManager::CleanupFull`: evict, oldest first, until the bytes and the blocks are
within the goals; the items go to `DeleteBlocks`. -/
def cleanupFull (m : DiskCacheManager κ) (goalBytes goalFiles : Nat) :
    DiskCacheManager κ × List (κ × CacheValue) :=
  m.evict fun _ m _ =>
    if m.usedBytes ≤ goalBytes ∧ m.lru.size ≤ goalFiles then .FINISH else .EVICT_IT

/-- One round of `DiskCacheManager::CleanupExpire` at time `now`: evict the blocks not read for
`expire` seconds, looking at a thousand nodes at most; nothing when expiry is off. -/
def cleanupExpire (m : DiskCacheManager κ) (now expire : Nat) :
    DiskCacheManager κ × List (κ × CacheValue) :=
  if expire = 0 then (m, [])
  else
    m.evict fun n _ value =>
      if n + 1 > 1000 then .FINISH
      else if value.atime + expire > now then .SKIP
      else .EVICT_IT

/-- `DiskCacheManager::Add`: the block is added and counted; at capacity, `CleanupFull` down to
95% of the capacity and of the blocks. -/
def add (m : DiskCacheManager κ) (key : κ) (value : CacheValue) :
    DiskCacheManager κ × List (κ × CacheValue) :=
  let m' : DiskCacheManager κ :=
    { m with lru := m.lru.add key value, usedBytes := m.usedBytes + value.size }
  if m'.usedBytes ≥ m'.capacity then
    m'.cleanupFull (m'.capacity * 95 / 100) (m'.lru.size * 95 / 100)
  else (m', [])

/-- `DiskCacheManager::Get`. -/
def get (m : DiskCacheManager κ) (key : κ) (now : Nat) :
    DiskCacheManager κ × Option CacheValue :=
  match m.lru.get key now with
  | (lru, value) => ({ m with lru := lru }, value)

/-- `DiskCacheManager::Delete`: a block found is counted out. -/
def delete (m : DiskCacheManager κ) (key : κ) : DiskCacheManager κ :=
  match m.lru.delete key with
  | (lru, none) => { m with lru := lru }
  | (lru, some value) => { m with lru := lru, usedBytes := m.usedBytes - value.size }

end DiskCacheManager

/-! ## The lists and the hash under each operation -/

namespace LRUCache

theorem linked_add (c : LRUCache κ) (key : κ) (value : CacheValue) :
    (c.add key value).linked = c.inactive ++ ⟨c.nextId, key, value⟩ :: c.active := by
  simp [linked, add]

theorem linked_add_perm (c : LRUCache κ) (key : κ) (value : CacheValue) :
    (c.add key value).linked.Perm (⟨c.nextId, key, value⟩ :: c.linked) := by
  rw [linked_add]
  exact List.perm_middle

theorem hash_add (c : LRUCache κ) (key : κ) (value : CacheValue) :
    (c.add key value).hash = c.hash.insert key c.nextId := rfl

/-- The new node's address is no other node's: a lookup by another address finds what it found
before the `Add`. -/
theorem find?_linked_add_of_ne {c : LRUCache κ} {i : Nat} (h : i ≠ c.nextId) (key : κ)
    (value : CacheValue) :
    (c.add key value).linked.find? (·.id == i) = c.linked.find? (·.id == i) := by
  rw [linked_add, linked]
  simp [List.find?_append, Ne.symm h]

theorem hashDelete_active (c : LRUCache κ) (node : ListNode κ) :
    (c.hashDelete node).active = c.active := by
  unfold hashDelete
  split <;> rfl

theorem hashDelete_inactive (c : LRUCache κ) (node : ListNode κ) :
    (c.hashDelete node).inactive = c.inactive := by
  unfold hashDelete
  split <;> rfl

end LRUCache

/-! ## Consistency of the index -/

namespace LRUCache.Consistent

variable {c : LRUCache κ}

/-- One node per key: two linked nodes of one key are looked up at one address. -/
theorem nodup_key (hc : c.Consistent) : (c.linked.map (·.key)).Nodup := by
  apply List.Nodup.map_on _ (List.Nodup.of_map _ hc.nodup_id)
  intro x hx y hy hxy
  apply List.inj_on_of_nodup_map hc.nodup_id hx hy
  have hlookup := hc.lookup_of_mem x hx
  rw [hxy, hc.lookup_of_mem y hy] at hlookup
  exact (Option.some.inj hlookup).symm

/-- `HashLookup` of a linked node's key finds that node. -/
theorem hashLookup_of_mem (hc : c.Consistent) {node : ListNode κ} (h : node ∈ c.linked) :
    c.hashLookup node.key = some node := by
  obtain ⟨x, hx⟩ : ∃ x, c.linked.find? (·.id == node.id) = some x := by
    apply Option.isSome_iff_exists.mp
    exact List.find?_isSome.mpr ⟨node, h, by simp⟩
  have hxid : x.id = node.id := by simpa using List.find?_some hx
  have hxnode := List.inj_on_of_nodup_map hc.nodup_id (List.mem_of_find?_eq_some hx) h hxid
  rw [hashLookup, hc.lookup_of_mem node h, Option.bind_some, hx, hxnode]

/-- What `HashLookup` finds is a linked node of the key. -/
theorem mem_of_hashLookup (hc : c.Consistent) {key : κ} {node : ListNode κ}
    (h : c.hashLookup key = some node) : node ∈ c.linked ∧ node.key = key := by
  obtain ⟨id, hid, hfind⟩ := Option.bind_eq_some_iff.mp h
  have hmem := List.mem_of_find?_eq_some hfind
  have hnodeid : node.id = id := by simpa using List.find?_some hfind
  obtain ⟨n, hn, hnid, hnkey⟩ := hc.mem_of_lookup key id hid
  have hnode := List.inj_on_of_nodup_map hc.nodup_id hmem hn (hnodeid.trans hnid.symm)
  exact ⟨hmem, hnode ▸ hnkey⟩

theorem hashLookup_add_of_ne (hc : c.Consistent) {key k : κ} (h : k ≠ key) (value : CacheValue) :
    (c.add key value).hashLookup k = c.hashLookup k := by
  unfold LRUCache.hashLookup
  rw [LRUCache.hash_add, AList.lookup_insert_ne h]
  cases hk : c.hash.lookup k with
  | none => rfl
  | some id =>
    obtain ⟨n, hn, rfl, -⟩ := hc.mem_of_lookup k id hk
    exact LRUCache.find?_linked_add_of_ne (Nat.ne_of_lt (hc.id_lt n hn)) key value

theorem hashLookup_add (hc : c.Consistent) (key : κ) (value : CacheValue) :
    (c.add key value).hashLookup key = some ⟨c.nextId, key, value⟩ := by
  have hnone : c.inactive.find? (·.id == c.nextId) = none := by
    rw [List.find?_eq_none]
    intro n hn
    simpa using Nat.ne_of_lt (hc.id_lt n (List.mem_append_left _ hn))
  simp [LRUCache.hashLookup, LRUCache.hash_add, LRUCache.linked_add, List.find?_append, hnone]

theorem nodup_id_add (hc : c.Consistent) (key : κ) (value : CacheValue) :
    ((c.add key value).linked.map (·.id)).Nodup := by
  rw [((LRUCache.linked_add_perm c key value).map _).nodup_iff, List.map_cons, List.nodup_cons]
  refine ⟨?_, hc.nodup_id⟩
  simp only [List.mem_map, not_exists, not_and]
  intro n hn hid
  exact Nat.ne_of_lt (hc.id_lt n hn) hid

theorem lookup_eq_none (hc : c.Consistent) {key : κ} (h : c.hashLookup key = none) :
    c.hash.lookup key = none := by
  cases hk : c.hash.lookup key with
  | none => rfl
  | some id =>
    obtain ⟨n, hn, -, rfl⟩ := hc.mem_of_lookup key id hk
    rw [hc.hashLookup_of_mem hn] at h
    contradiction

theorem count_key_add (hc : c.Consistent) {key : κ} {old : ListNode κ}
    (hold : c.hashLookup key = some old) (value : CacheValue) :
    ((c.add key value).linked.map (·.key)).count key = 2 := by
  obtain ⟨hmem, hkey⟩ := hc.mem_of_hashLookup hold
  have hone : (c.linked.map (·.key)).count key = 1 :=
    List.count_eq_one_of_mem hc.nodup_key (hkey ▸ List.mem_map_of_mem hmem)
  rw [((LRUCache.linked_add_perm c key value).map _).count_eq, List.map_cons,
    List.count_cons_self, hone]

/-- `Add` of a held key: the bytes held grow by the new block's size less the old block's. -/
theorem heldBytes_add (hc : c.Consistent) {key : κ} {old : ListNode κ}
    (hold : c.hashLookup key = some old) (value : CacheValue) :
    (c.add key value).heldBytes + old.value.size = c.heldBytes + value.size := by
  let size := fun (d : LRUCache κ) (k : κ) => ((d.hashLookup k).map (·.value.size)).getD 0
  have hmem : key ∈ c.hash.keys := by
    rw [← AList.mem_keys, ← AList.lookup_isSome]
    cases hk : c.hash.lookup key with
    | none => simp [LRUCache.hashLookup, hk] at hold
    | some _ => rfl
  -- the other keys keep their nodes
  have hrest : ((c.hash.keys.erase key).map (size (c.add key value))).sum =
      ((c.hash.keys.erase key).map (size c)).sum := by
    congr 1
    apply List.map_congr_left
    intro k hk
    have hne : k ≠ key := (c.hash.keys_nodup.mem_erase_iff.mp hk).1
    simp only [size, hc.hashLookup_add_of_ne hne]
  have hnew : (c.add key value).heldBytes =
      value.size + ((c.hash.keys.erase key).map (size (c.add key value))).sum := by
    simp only [LRUCache.heldBytes, LRUCache.hash_add, AList.keys_insert, List.map_cons,
      List.sum_cons, hc.hashLookup_add]
    rfl
  have hold' : c.heldBytes = old.value.size + ((c.hash.keys.erase key).map (size c)).sum := by
    rw [LRUCache.heldBytes, ((List.perm_cons_erase hmem).map _).sum_eq, List.map_cons,
      List.sum_cons]
    simp only [hold]
    rfl
  omega

/-- `Add` of a key the hash does not hold keeps the index consistent. -/
theorem add (hc : c.Consistent) {key : κ} (hnew : c.hashLookup key = none) (value : CacheValue) :
    (c.add key value).Consistent where
  nodup_id := hc.nodup_id_add key value
  lookup_of_mem := by
    intro node hnode
    rw [(LRUCache.linked_add_perm c key value).mem_iff, List.mem_cons] at hnode
    rw [LRUCache.hash_add]
    rcases hnode with rfl | hnode
    · exact AList.lookup_insert _
    · have hne : node.key ≠ key := by
        intro hk
        rw [← hk, hc.hashLookup_of_mem hnode] at hnew
        contradiction
      rw [AList.lookup_insert_ne hne]
      exact hc.lookup_of_mem node hnode
  mem_of_lookup := by
    intro k id hk
    rw [LRUCache.hash_add] at hk
    by_cases hkey : k = key
    · subst hkey
      rw [AList.lookup_insert] at hk
      refine ⟨⟨c.nextId, k, value⟩, ?_, Option.some.inj hk, rfl⟩
      rw [LRUCache.linked_add]
      simp
    · rw [AList.lookup_insert_ne hkey] at hk
      obtain ⟨n, hn, hid, hkn⟩ := hc.mem_of_lookup k id hk
      have hn' := (LRUCache.linked_add_perm c key value).mem_iff.mpr (List.mem_cons_of_mem _ hn)
      exact ⟨n, hn', hid, hkn⟩
  id_lt := by
    intro node hnode
    rw [(LRUCache.linked_add_perm c key value).mem_iff, List.mem_cons] at hnode
    show node.id < c.nextId + 1
    rcases hnode with rfl | hnode
    · exact Nat.lt_succ_self _
    · exact Nat.lt_succ_of_lt (hc.id_lt node hnode)

end LRUCache.Consistent

theorem LRUCache.consistent_empty : (LRUCache.empty : LRUCache κ).Consistent where
  nodup_id := List.nodup_nil
  lookup_of_mem := by simp [LRUCache.empty, LRUCache.linked]
  mem_of_lookup := by
    intro key id h
    simp [LRUCache.empty] at h
  id_lt := by simp [LRUCache.empty, LRUCache.linked]

namespace DiskCacheManager

theorem add_of_lt (m : DiskCacheManager κ) (key : κ) (value : CacheValue)
    (h : m.usedBytes + value.size < m.capacity) :
    m.add key value = ({ m with lru := m.lru.add key value, usedBytes := m.usedBytes + value.size }, []) := by
  simp only [add]
  rw [if_neg (Nat.not_le.mpr h)]

/-- An eviction that evicts every node reports each, in list order, and unlinks from the active
list just the nodes it walks. -/
theorem evictNode_evictAll : ∀ (n : Nat) (m : DiskCacheManager κ) (nodes : List (ListNode κ)),
    ∃ m', m'.lru.active = m.lru.active.filter (fun a => nodes.all (·.id != a.id)) ∧
      evictNode (fun _ _ _ => .EVICT_IT) n m nodes =
        (m', nodes.map fun node => (node.key, node.value), n + nodes.length, true)
  | n, m, [] => ⟨m, by simp, by simp [evictNode]⟩
  | n, m, node :: nodes => by
    obtain ⟨m', hactive, heq⟩ := evictNode_evictAll (n + 1)
      { m with
        usedBytes := m.usedBytes - node.value.size
        lru := (m.lru.unlink node.id).hashDelete node } nodes
    refine ⟨m', ?_, ?_⟩
    · rw [hactive, LRUCache.hashDelete_active]
      simp only [LRUCache.unlink, List.filter_filter, List.all_cons]
      congr 1
      funext a
      rw [bne_comm, Bool.and_comm]
    · simp only [evictNode, heq, List.map_cons, List.length_cons]
      rw [Nat.add_assoc, Nat.add_comm 1]

/-- `Evict` with a filter that evicts every node reports every linked node, when no two share
an address. -/
theorem evict_evictAll (m : DiskCacheManager κ) (hid : (m.lru.linked.map (·.id)).Nodup) :
    (m.evict fun _ _ _ => .EVICT_IT).2 = m.lru.linked.map fun node => (node.key, node.value) := by
  obtain ⟨m₁, hactive, h₁⟩ := evictNode_evictAll 0 m m.lru.inactive
  obtain ⟨m₂, -, h₂⟩ := evictNode_evictAll (0 + m.lru.inactive.length) m₁ m₁.lru.active
  -- the inactive walk leaves the active list as it was
  have hkeep : m₁.lru.active = m.lru.active := by
    rw [hactive, List.filter_eq_self]
    intro a ha
    rw [LRUCache.linked, List.map_append, List.nodup_append] at hid
    simp only [List.all_eq_true, bne_iff_ne]
    intro node hnode
    exact hid.2.2 _ (List.mem_map_of_mem hnode) _ (List.mem_map_of_mem ha)
  simp only [evict, h₁, LRUCache.linked, List.map_append]
  rw [h₂, hkeep]

/-- `Add` of a key the index holds, on a consistent index whose byte count is right and with
room on the disk: the older node stays linked beside the new one, `used_bytes_` counts the older
block on top of the blocks the index holds, and an eviction of everything reports the key
twice. -/
theorem add_of_held_key_keeps_old_node (m : DiskCacheManager κ) (key : κ) (value : CacheValue)
    (old : ListNode κ) (hc : m.lru.Consistent) (hused : m.usedBytes = m.lru.heldBytes)
    (hold : m.lru.hashLookup key = some old) (hroom : m.usedBytes + value.size < m.capacity) :
    (m.add key value).2 = [] ∧
      ((m.add key value).1.lru.linked.map (·.key)).count key = 2 ∧
      (m.add key value).1.usedBytes = (m.add key value).1.lru.heldBytes + old.value.size ∧
      (((m.add key value).1.evict fun _ _ _ => .EVICT_IT).2.map Prod.fst).count key = 2 := by
  rw [add_of_lt m key value hroom]
  have hcount := hc.count_key_add hold value
  refine ⟨rfl, hcount, ?_, ?_⟩
  · have hheld := hc.heldBytes_add hold value
    show m.usedBytes + value.size = (m.lru.add key value).heldBytes + old.value.size
    omega
  · rw [evict_evictAll _ (hc.nodup_id_add key value), List.map_map]
    exact hcount

/-- A disk of ten bytes with block 0 cached, four bytes long. -/
def blockCached : DiskCacheManager Nat := ((⟨0, 10, .empty⟩ : DiskCacheManager Nat).add 0 ⟨4, 0⟩).1

/-- Block 0 cached again: a cleanup down to four bytes and one block deletes the file of block 0,
and the index still finds block 0. -/
theorem re_added_block_deleted_while_cached :
    ((blockCached.add 0 ⟨4, 1⟩).2 = [] ∧
      ((blockCached.add 0 ⟨4, 1⟩).1.lru.linked.map (·.key)).count 0 = 2 ∧
      (blockCached.add 0 ⟨4, 1⟩).1.usedBytes = (blockCached.add 0 ⟨4, 1⟩).1.lru.heldBytes + 4 ∧
      (((blockCached.add 0 ⟨4, 1⟩).1.evict fun _ _ _ => .EVICT_IT).2.map Prod.fst).count 0 = 2) ∧
    ((blockCached.add 0 ⟨4, 1⟩).1.cleanupFull 4 1).2 = [(0, ⟨4, 0⟩)] ∧
    (((blockCached.add 0 ⟨4, 1⟩).1.cleanupFull 4 1).1.get 0 2).2 = some ⟨4, 2⟩ :=
  ⟨add_of_held_key_keeps_old_node blockCached 0 ⟨4, 1⟩ ⟨0, 0, ⟨4, 0⟩⟩
      (LRUCache.consistent_empty.add rfl ⟨4, 0⟩) (by decide) (by decide) (by decide),
    by decide, by decide⟩

end DiskCacheManager

end DingoFs.Client.Blockcache
