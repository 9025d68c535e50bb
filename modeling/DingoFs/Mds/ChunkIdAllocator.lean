import DingoFs.Lib.Word
import Mathlib

/-!
# The MDS chunk-id allocator

`ChunkIdAllocatorImpl` (`src/mds/chunkid_allocator.cpp`) hands out s3 chunk ids from a
bundle `(nextId_ - 1, lastId_]` that it reserves by advancing one etcd key with a
`Get` followed by a `CompareAndSwap`. Several allocators may share the key (an old and
a new MDS leader); each serializes its own calls with `nextIdRWlock_`, but nothing orders
the `Get` and the `CompareAndSwap` of one allocator against the calls of another.

* The bottom layer is the source: `needBundle`, `allocSize`, the two halves of
  `allocateBundleIds` and `takeIds`, composed into the sequential `genChunkId`.
* `ChunkIdWorld` puts any number of allocators around one linearizable etcd key. Its
  `step` runs the first half of `GenChunkId` (up to the `Get`) as one event and the
  `CompareAndSwap` as another, so that other allocators can run in between; both may fail.
  `step_genChunkId_compareAndSwap` says that the two events back to back are the source's
  `genChunkId`.
* `AllocateBundleIds` stores the value it read into `lastId_` before it knows whether its
  `CompareAndSwap` wins. After a failed swap the allocator believes it owns ids up to a
  bound another allocator has just reserved past, and `GenChunkId` hands them out
  without asking etcd again (`genChunkId_overlaps`).
* The vendored `EtcdClientCompareAndSwap` answers `EtcdOK` also when its compare fails, so
  two allocators that read the same value both take the bundle after it
  (`compareAndSwap_both_take_bundle`).
-/

namespace DingoFs.Mds

open DingoFs.Lib

/-- `CHUNKIDINITIALIZE`: the id a fresh allocator starts from. -/
def CHUNKIDINITIALIZE : Nat := 0

/-- `CHUNKBUNDLEALLOCATED`: the default number of ids reserved at a time. -/
def CHUNKBUNDLEALLOCATED : Nat := 1000

/-- `ChunkIdAllocatorStatusCode`, what `AllocateBundleIds` and `GenChunkId` return. -/
inductive ChunkIdAllocatorStatusCode where
  | KEY_NOTEXIST
  | OK
  | UNKNOWN_ERROR
  | DECODE_ERROR
  | CAS_ERROR
  deriving DecidableEq, Repr

/-- The fields of `ChunkIdAllocatorImpl` that `GenChunkId` reads and writes. -/
structure ChunkIdAllocatorImpl where
  nextId : Nat
  lastId : Nat
  bundleSize : Nat
  deriving DecidableEq, Repr

namespace ChunkIdAllocatorImpl

/-- The constructor: `nextId_ = lastId_ = initId`. The MDS passes the defaults
`CHUNKIDINITIALIZE` and `CHUNKBUNDLEALLOCATED`. -/
def new (initId bundleSize : Nat) : ChunkIdAllocatorImpl :=
  { nextId := initId, lastId := initId, bundleSize := bundleSize }

/-- The test at the head of `GenChunkId`: the ids left in the bundle do not cover the
request, or the allocator has never reserved a bundle. -/
def needBundle (a : ChunkIdAllocatorImpl) (idNum : Nat) : Bool :=
  decide (a.lastId < sub64 (add64 a.nextId idNum) 1) || a.nextId == CHUNKIDINITIALIZE

/-- `nextId_ + idNum - lastId_ + bundleSize_`, computed in `uint64_t`; `GenChunkId` passes
it on as the `int` parameter of `AllocateBundleIds`. -/
def allocSize (a : ChunkIdAllocatorImpl) (idNum : Nat) : Nat :=
  add64 (sub64 (add64 a.nextId idNum) a.lastId) a.bundleSize

/-- `AllocateBundleIds(bundleSize)` up to its `CompareAndSwap`. A failing `Get` gives
`UNKNOWN_ERROR`. Otherwise the result is the allocator with `lastId_` set to the value read
(when the key exists), the `out` the swap compares against (`none` for the empty string of
a missing key), `alloc`, and `target = lastId_ + bundleSize`. Values in etcd are written
by `EncodeID`, so `DecodeID` always succeeds on them. -/
def allocateBundleIdsGet (a : ChunkIdAllocatorImpl) (bundleSize : Int) (getOk : Bool)
    (key : Option Nat) :
    Except ChunkIdAllocatorStatusCode (ChunkIdAllocatorImpl × Option Nat × Nat × Nat) :=
  if getOk then
    match key with
    | none => .ok (a, none, a.nextId, add64 a.lastId (ofInt64 bundleSize))
    | some v => .ok ({ a with lastId := v }, some v, v, add64 v (ofInt64 bundleSize))
  else .error .UNKNOWN_ERROR

/-- The rest of `AllocateBundleIds`, once its `CompareAndSwap` has answered `EtcdOK`
(`casOk`) or another code. -/
def allocateBundleIdsCas (a : ChunkIdAllocatorImpl) (alloc target : Nat) (casOk : Bool) :
    ChunkIdAllocatorImpl × ChunkIdAllocatorStatusCode :=
  if casOk then ({ a with nextId := add64 alloc 1, lastId := target }, .OK)
  else (a, .CAS_ERROR)

/-- The tail of a successful `GenChunkId`: the ids `[nextId_, nextId_ + idNum)`. -/
def takeIds (a : ChunkIdAllocatorImpl) (idNum : Nat) : ChunkIdAllocatorImpl × Nat :=
  ({ a with nextId := add64 a.nextId idNum }, a.nextId)

end ChunkIdAllocatorImpl

/-- `EtcdClientCompareAndSwap` (`thirdparties/etcdclient/etcdclient.go`), which
`EtcdClientImp::CompareAndSwap` calls, on the allocators' key. It runs two transactions: the
first puts `target` when the key has not been created, the second puts `target` when the key
holds `preV` (etcd fails a value compare on a missing key). It answers with the error of the
second transaction alone, so `EtcdOK` whenever that call answers, also when its compare
fails. `createOk` and `swapOk` say whether each call answers; a call that fails is taken not
to reach etcd. The result is the key afterwards and whether the answer is `EtcdOK`. -/
def etcdCompareAndSwap (key preV : Option Nat) (target : Nat) (createOk swapOk : Bool) :
    Option Nat × Bool :=
  -- If(CreateRevision(key) = 0).Then(OpPut(key, target))
  let created := if createOk && key.isNone then some target else key
  -- If(Value(key) = preV).Then(OpPut(key, target))
  let swapped := if swapOk && created.isSome && created == preV then some target else created
  (swapped, swapOk)

@[simp] theorem etcdCompareAndSwap_snd (key preV : Option Nat) (target : Nat)
    (createOk swapOk : Bool) : (etcdCompareAndSwap key preV target createOk swapOk).2 = swapOk :=
  rfl

/-- `GenChunkId(idNum)` run alone against the key: the allocator and key afterwards, the
status, and the first id handed out when the status is `OK`. -/
def genChunkId (a : ChunkIdAllocatorImpl) (key : Option Nat) (idNum : Nat)
    (getOk createOk swapOk : Bool) :
    ChunkIdAllocatorImpl × Option Nat × ChunkIdAllocatorStatusCode × Option Nat :=
  if a.needBundle idNum then
    match a.allocateBundleIdsGet (toInt32 (a.allocSize idNum)) getOk key with
    | .error e => (a, key, e, none)
    | .ok (a1, out, alloc, target) =>
      let (key', casOk) := etcdCompareAndSwap key out target createOk swapOk
      match a1.allocateBundleIdsCas alloc target casOk with
      | (a2, .OK) => let (a3, id) := a2.takeIds idNum; (a3, key', .OK, some id)
      | (a2, e) => (a2, key', e, none)
  else
    let (a', id) := a.takeIds idNum
    (a', key, .OK, some id)

/-! ## Several allocators around one key -/

/-- Where an allocator is in `GenChunkId`: idle, or holding `nextIdRWlock_` between the
`Get` and the `CompareAndSwap` of `AllocateBundleIds`. -/
inductive GenPhase where
  | idle
  | casPending (idNum : Nat) (out : Option Nat) (alloc target : Nat)
  deriving DecidableEq, Repr

/-- Allocators `0, 1, 2, …` sharing one etcd key. -/
structure ChunkIdWorld where
  /-- The shared key, `none` while it does not exist. -/
  key : Option Nat
  allocators : Nat → ChunkIdAllocatorImpl
  phases : Nat → GenPhase
  /-- Every `(chunkId, idNum)` that a `GenChunkId` call returned with `OK`, oldest first. -/
  handedOut : List (Nat × Nat)

/-- Every allocator freshly constructed with the MDS's defaults, the key not yet created. -/
def ChunkIdWorld.init : ChunkIdWorld where
  key := none
  allocators := fun _ => ChunkIdAllocatorImpl.new CHUNKIDINITIALIZE CHUNKBUNDLEALLOCATED
  phases := fun _ => .idle
  handedOut := []

/-- What can happen next. -/
inductive ChunkIdEvent where
  /-- Allocator `i` enters `GenChunkId(idNum)`; `getOk` is whether its etcd `Get`, if it
  needs one, answers (`EtcdOK` or `EtcdKeyNotExist`) rather than failing. -/
  | genChunkId (i idNum : Nat) (getOk : Bool)
  /-- The `CompareAndSwap` of allocator `i` reaches etcd; `createOk` and `swapOk` say whether
  each of its two transactions answers. -/
  | compareAndSwap (i : Nat) (createOk swapOk : Bool)
  deriving DecidableEq, Repr

namespace ChunkIdWorld

/-- Allocator `i` hands out `idNum` ids and becomes `a`. -/
def handOut (w : ChunkIdWorld) (i : Nat) (a : ChunkIdAllocatorImpl) (idNum : Nat) :
    ChunkIdWorld :=
  let (a', id) := a.takeIds idNum
  { w with allocators := Function.update w.allocators i a', phases := Function.update w.phases i .idle,
           handedOut := w.handedOut ++ [(id, idNum)] }

/-- One event. An event for an allocator that is not in the matching phase changes
nothing: its lock is held, or it has no swap outstanding. -/
def step (w : ChunkIdWorld) : ChunkIdEvent → ChunkIdWorld
  | .genChunkId i idNum getOk =>
    let a := w.allocators i
    match w.phases i with
    | .idle =>
      if a.needBundle idNum then
        match a.allocateBundleIdsGet (toInt32 (a.allocSize idNum)) getOk w.key with
        | .error _ => w
        | .ok (a', out, alloc, target) =>
          { w with allocators := Function.update w.allocators i a',
                   phases := Function.update w.phases i (.casPending idNum out alloc target) }
      else w.handOut i a idNum
    | .casPending .. => w
  | .compareAndSwap i createOk swapOk =>
    let a := w.allocators i
    match w.phases i with
    | .casPending idNum out alloc target =>
      let (key', casOk) := etcdCompareAndSwap w.key out target createOk swapOk
      match a.allocateBundleIdsCas alloc target casOk with
      | (a', .OK) => { w with key := key' }.handOut i a' idNum
      -- the first transaction may have created the key all the same
      | (a', _) => { w with key := key', allocators := Function.update w.allocators i a',
                            phases := Function.update w.phases i .idle }
    | .idle => w

/-- The world after a sequence of events. -/
def run (w : ChunkIdWorld) (es : List ChunkIdEvent) : ChunkIdWorld := es.foldl step w

end ChunkIdWorld

/-- The ranges `[chunkId, chunkId + idNum)` are pairwise disjoint. -/
def RangesDisjoint (rs : List (Nat × Nat)) : Prop :=
  rs.Pairwise fun r r' => Disjoint (Set.Ico r.1 (r.1 + r.2)) (Set.Ico r'.1 (r'.1 + r'.2))

/-! ## What one event does -/

namespace ChunkIdWorld

variable (w : ChunkIdWorld) (i : Nat)

@[simp] theorem handOut_key (a : ChunkIdAllocatorImpl) (idNum : Nat) :
    (w.handOut i a idNum).key = w.key := rfl

@[simp] theorem handOut_allocators_self (a : ChunkIdAllocatorImpl) (idNum : Nat) :
    (w.handOut i a idNum).allocators i = (a.takeIds idNum).1 := by
  simp [handOut]

@[simp] theorem handOut_handedOut (a : ChunkIdAllocatorImpl) (idNum : Nat) :
    (w.handOut i a idNum).handedOut = w.handedOut ++ [(a.nextId, idNum)] := rfl

/-- The two events of one `GenChunkId` call, back to back with nothing in between, are
the source's sequential `genChunkId`: same allocator, same key, and the ids handed out
are the ones it returns. -/
theorem step_genChunkId_compareAndSwap (idNum : Nat) (getOk createOk swapOk : Bool)
    (h : w.phases i = .idle) :
    let w' := (w.step (.genChunkId i idNum getOk)).step (.compareAndSwap i createOk swapOk)
    let r := genChunkId (w.allocators i) w.key idNum getOk createOk swapOk
    w'.allocators i = r.1 ∧ w'.key = r.2.1 ∧
      w'.handedOut = w.handedOut ++ (r.2.2.2.map fun id => (id, idNum)).toList := by
  by_cases hb : (w.allocators i).needBundle idNum
  · -- the bundle must be refilled: the `Get`, then the swap
    cases hg : (w.allocators i).allocateBundleIdsGet
        (toInt32 ((w.allocators i).allocSize idNum)) getOk w.key with
    | error e =>
      -- the `Get` failed: neither event changes anything
      simp [step, genChunkId, h, hb, hg]
    | ok r =>
      obtain ⟨a1, out, alloc, target⟩ := r
      cases swapOk
      · simp [step, genChunkId, h, hb, hg, ChunkIdAllocatorImpl.allocateBundleIdsCas]
      · simp [step, genChunkId, h, hb, hg, ChunkIdAllocatorImpl.allocateBundleIdsCas,
          ChunkIdAllocatorImpl.takeIds]
  · -- enough ids are left: `takeIds` at once, and the swap event finds the lock free
    simp [step, genChunkId, h, hb, handOut]

/-- A `CompareAndSwap` whose second transaction answers gives allocator `i` the bundle
`(alloc, target]` and hands out `[alloc + 1, alloc + 1 + idNum)`, whatever the key holds: the
source reads `EtcdOK`, which does not tell a lost compare from a won one. Every other
allocator's phase stays. -/
theorem step_compareAndSwap_of_swapOk {idNum : Nat} {out : Option Nat} {alloc target : Nat}
    (createOk : Bool) (h : w.phases i = .casPending idNum out alloc target) :
    let w' := w.step (.compareAndSwap i createOk true)
    w'.handedOut = w.handedOut ++ [(add64 alloc 1, idNum)] ∧
      ∀ j, j ≠ i → w'.phases j = w.phases j := by
  refine ⟨by simp [step, h, ChunkIdAllocatorImpl.allocateBundleIdsCas], fun j hj => ?_⟩
  simp [step, h, ChunkIdAllocatorImpl.allocateBundleIdsCas, handOut, Function.update_of_ne hj]

/-- Two allocators that read the same value of the key both take the bundle after it when
their `CompareAndSwap` calls answer, one after the other: the second compare fails, and the
source still reads `EtcdOK`. Both hand out `alloc + 1`. -/
theorem compareAndSwap_both_take_bundle {j idNum idNum' : Nat} {out : Option Nat}
    {alloc target target' : Nat} (hji : j ≠ i) (createOk createOk' : Bool)
    (hi : w.phases i = .casPending idNum out alloc target)
    (hj : w.phases j = .casPending idNum' out alloc target') (hnum : 1 ≤ idNum)
    (hnum' : 1 ≤ idNum') :
    ¬ RangesDisjoint ((w.step (.compareAndSwap i createOk true)).step
      (.compareAndSwap j createOk' true)).handedOut := by
  obtain ⟨hout₁, hphases₁⟩ := w.step_compareAndSwap_of_swapOk i createOk hi
  have hj₁ := (hphases₁ j hji).trans hj
  obtain ⟨hout₂, -⟩ := (w.step (.compareAndSwap i createOk true)).step_compareAndSwap_of_swapOk
    j createOk' hj₁
  rw [hout₂, hout₁, List.append_assoc, List.singleton_append]
  -- the two new ranges start at the same id
  intro hd
  have hnew : Disjoint (Set.Ico (add64 alloc 1) (add64 alloc 1 + idNum))
      (Set.Ico (add64 alloc 1) (add64 alloc 1 + idNum')) := by
    simp only [RangesDisjoint, List.pairwise_append, List.pairwise_cons] at hd
    exact hd.2.1.1 _ (List.mem_singleton_self _)
  exact Set.disjoint_left.mp hnew (Set.left_mem_Ico.mpr (by omega))
    (Set.left_mem_Ico.mpr (by omega))

-- two fresh allocators read the missing key, and both swaps answer
example : (init.run [.genChunkId 0 1 true, .genChunkId 1 1 true, .compareAndSwap 0 true true,
    .compareAndSwap 1 true true]).handedOut = [(1, 1), (1, 1)] := by
  decide

end ChunkIdWorld

/-! ## Two allocators hand out the same id -/

/-- Allocator 0 reserves the first bundle and hands out id 1, allocator 1 reserves the
second bundle and hands out id 1002, allocator 0 then needs 1001 ids, reads the key and
loses its swap, and asks again. -/
def overlapRun : List ChunkIdEvent :=
  [.genChunkId 0 1 true, .compareAndSwap 0 true true,
   .genChunkId 1 1 true, .compareAndSwap 1 true true,
   .genChunkId 0 1001 true, .compareAndSwap 0 true false,
   .genChunkId 0 1001 true]

/-- After `overlapRun` allocator 0 has handed out `[2, 1003)`, which contains the id 1002
that allocator 1 handed out. -/
theorem genChunkId_overlaps :
    (ChunkIdWorld.init.run overlapRun).handedOut = [(1, 1), (1002, 1), (2, 1001)] ∧
      ¬ RangesDisjoint (ChunkIdWorld.init.run overlapRun).handedOut := by
  have hrun : (ChunkIdWorld.init.run overlapRun).handedOut = [(1, 1), (1002, 1), (2, 1001)] := by
    decide
  refine ⟨hrun, ?_⟩
  rw [hrun]
  intro hd
  have h12 : Disjoint (Set.Ico 1002 (1002 + 1)) (Set.Ico 2 (2 + 1001)) := by
    simp only [RangesDisjoint, List.pairwise_cons] at hd
    exact hd.2.1 (2, 1001) (by simp)
  have h1002 : (1002 : Nat) ∈ Set.Ico 1002 (1002 + 1) := by simp
  exact Set.disjoint_left.mp h12 h1002 (by simp)

end DingoFs.Mds
