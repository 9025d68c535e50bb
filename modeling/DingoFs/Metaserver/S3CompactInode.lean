import DingoFs.Common.S3Object
import DingoFs.Lib.OrderedSet
import DingoFs.Lib.Overlay
import DingoFs.Lib.Word
import DingoFs.Metaserver.Messages

/-!
# S3 compaction of one chunk: `CompactInodeJob::CompactChunk`

Compaction replaces the chunk infos of one chunk index by a single info. `BuildValidList`
walks the infos from the newest and keeps, for each byte of the chunk's window, the newest
info that covers it, as a sorted list of nodes. `GenS3ReadRequests` turns the nodes into
object reads (and zero-filled reads for zero nodes and holes), `ReadFullChunk` concatenates
what they return, `WriteFullChunk` cuts the result into the objects of a new chunk version,
and the new info starts at the first node's `chunkoff`.

Lengths of chunk infos are at least one; sizes are 64-bit. `BuildValidList` computes its
window and each info's last byte in `uint64_t`, as the code does: `inodeLen - 1` wraps for an
empty file, and the products and sums wrap past `2^64`.
-/

namespace DingoFs.Metaserver

open DingoFs.Common DingoFs.Lib

/-- `S3CompactCtx`, with the fields the chunk path reads. -/
structure S3CompactCtx where
  inodeId : Nat
  fsId : Nat
  blockSize : Nat
  chunkSize : Nat

/-- `Node`: bytes `[begin, end_]` of the file are read from the chunk info
`(chunkid, compaction, chunkoff, chunklen, zero)`. -/
structure Node where
  begin : Nat
  end_ : Nat
  chunkid : Nat
  compaction : Nat
  chunkoff : Nat
  chunklen : Nat
  zero : Bool
deriving DecidableEq, Repr

/-- The `fill` lambda of `BuildValidList` for the info numbered `i` with first byte `begin`
and last byte `end_`, over the sorted free segments `[b, e]`: it takes what the info covers
from each segment. Returns the free segments left and the `used` assignments
`begin ↦ (end, i)` it makes, in order. -/
def fillFree (begin end_ i : Nat) :
    List (Nat × Nat) → List (Nat × Nat) × List (Nat × Nat × Nat)
  | [] => ([], [])
  | (b, e) :: rest =>
    if begin ≤ b then
      -- the info ends before this segment, so before every later one: `return`
      if end_ < b then ((b, e) :: rest, [])
      else if end_ < e then
        let r := fillFree begin end_ i rest
        ((end_ + 1, e) :: r.1, (b, end_, i) :: r.2)
      else
        let r := fillFree begin end_ i rest
        (r.1, (b, e, i) :: r.2)
    else if begin ≤ e then
      if end_ < e then
        let r := fillFree begin end_ i rest
        ((b, begin - 1) :: (end_ + 1, e) :: r.1, (begin, end_, i) :: r.2)
      else
        let r := fillFree begin end_ i rest
        ((b, begin - 1) :: r.1, (begin, e, i) :: r.2)
    else
      let r := fillFree begin end_ i rest
      ((b, e) :: r.1, r.2)

/-- The loop of `BuildValidList` over the infos, newest first, until nothing is free; `used`
is the `std::map` from a node's first byte to its last byte and info number. -/
def fillAll (freeList : List (Nat × Nat)) (used : List (Nat × Nat × Nat)) :
    List (Nat × S3ChunkInfo) → List (Nat × Nat × Nat)
  | [] => used
  | (i, info) :: rest =>
    if freeList = [] then used
    else
      let r := fillFree info.offset (sub64 (add64 info.offset info.len) 1) i freeList
      fillAll r.1 (r.2.foldl (fun used u => orderedMapAssign u.1 u.2 used) used) rest

/-- `CompactInodeJob::BuildValidList`: the nodes of chunk `index` within the file's
`inodeLen` bytes, by first byte. -/
def buildValidList (s3chunkinfolist : S3ChunkInfoList) (inodeLen index chunkSize : Nat) :
    List Node :=
  -- the inode may have been truncated below the chunk
  if mul64 chunkSize index > sub64 inodeLen 1 then []
  else
    let freeList :=
      [(mul64 chunkSize index, min (sub64 (mul64 chunkSize (add64 index 1)) 1) (sub64 inodeLen 1))]
    let used := fillAll freeList [] (s3chunkinfolist.zipIdx.map (fun p => (p.2, p.1))).reverse
    used.filterMap fun u =>
      s3chunkinfolist[u.2.2]?.map fun info =>
        ⟨u.1, u.2.1, info.chunkid, info.compaction, info.offset, info.len, info.zero⟩

/-- `S3Request`: `len` bytes at `off` of object `objName`, or `len` zero bytes (`objName`
empty). The request's `reqIndex` is its position in the list. -/
structure S3Request where
  zero : Bool
  objName : Option BlockKey
  off : Nat
  len : Nat
deriving DecidableEq, Repr

/-- `S3NewChunkInfo`. -/
structure S3NewChunkInfo where
  newChunkId : Nat
  newOff : Nat
  newCompaction : Nat
deriving DecidableEq, Repr

/-- The block loop of `GenS3ReadRequests` for the data node `curr`, from block `index` of
the chunk starting at `beginRoundDown`, one request per block the node touches. The loop
makes at most `curr.end_ + 1` rounds for a positive block size; `fuel` bounds it. -/
def blockReadRequests (ctx : S3CompactCtx) (curr : Node) (beginRoundDown : Nat) :
    (fuel index : Nat) → List S3Request
  | 0, _ => []
  | fuel + 1, index =>
    if beginRoundDown + index * ctx.blockSize ≤ curr.end_ then
      let objName := genObjName curr.chunkid index curr.compaction ctx.fsId ctx.inodeId
      let s3objBegin := max curr.chunkoff (beginRoundDown + index * ctx.blockSize)
      let s3objEnd := min (curr.chunkoff + curr.chunklen - 1)
        (beginRoundDown + (index + 1) * ctx.blockSize - 1)
      if curr.begin ≥ s3objBegin ∧ curr.end_ ≤ s3objEnd then
        -- all we need is part of this block
        ⟨false, some objName, curr.begin - s3objBegin, curr.end_ - curr.begin + 1⟩ ::
          blockReadRequests ctx curr beginRoundDown fuel (index + 1)
      else if curr.begin ≥ s3objBegin ∧ curr.end_ > s3objEnd then
        ⟨false, some objName, curr.begin - s3objBegin, s3objEnd - curr.begin + 1⟩ ::
          blockReadRequests ctx curr beginRoundDown fuel (index + 1)
      else if curr.begin < s3objBegin ∧ curr.end_ > s3objEnd then
        ⟨false, some objName, 0, ctx.blockSize⟩ ::
          blockReadRequests ctx curr beginRoundDown fuel (index + 1)
      else
        -- the last block: `break`
        [⟨false, some objName, 0, curr.end_ - s3objBegin + 1⟩]
    else []

/-- The node loop of `GenS3ReadRequests`, with the newest chunk id and its compaction so
far. -/
def genReadRequestsLoop (ctx : S3CompactCtx) (newChunkId newCompaction : Nat) :
    List Node → List S3Request × Nat × Nat
  | [] => ([], newChunkId, newCompaction)
  | curr :: rest =>
    if curr.zero then
      -- a zero node reads as zeros, and `continue` skips the hole check below
      let r := genReadRequestsLoop ctx newChunkId newCompaction rest
      (⟨true, none, 0, curr.end_ - curr.begin + 1⟩ :: r.1, r.2)
    else
      let beginRoundDown := curr.begin / ctx.chunkSize * ctx.chunkSize
      let startIndex := (curr.begin - beginRoundDown) / ctx.blockSize
      let blockReqs := blockReadRequests ctx curr beginRoundDown (curr.end_ + 1) startIndex
      let newest := if curr.chunkid ≥ newChunkId then (curr.chunkid, curr.compaction)
        else (newChunkId, newCompaction)
      let hole : List S3Request :=
        match rest with
        | next :: _ =>
          if curr.end_ + 1 < next.begin then [⟨true, none, 0, next.begin - curr.end_ - 1⟩]
          else []
        | [] => []
      let r := genReadRequestsLoop ctx newest.1 newest.2 rest
      (blockReqs ++ hole ++ r.1, r.2)

/-- `CompactInodeJob::GenS3ReadRequests`: the requests, and the new info's chunk id,
offset (the first node's `chunkoff`) and compaction. -/
def genS3ReadRequests (ctx : S3CompactCtx) (validList : List Node) :
    List S3Request × S3NewChunkInfo :=
  let r := genReadRequestsLoop ctx 0 0 validList
  (r.1, ⟨r.2.1, (validList.head?.map (·.chunkoff)).getD 0, r.2.2 + 1⟩)

/-- What one request reads: zeros, or part of an object; `none` when the object cannot be
read. -/
def readRequest (store : ObjectStore) (req : S3Request) : Option (List UInt8) :=
  if req.zero then some (List.replicate req.len 0)
  else
    match req.objName with
    | some objName => (store.lookup objName).bind fun buf => substr buf req.off req.len
    | none => none

/-- `CompactInodeJob::ReadFullChunk`: the contents of the requests concatenated in request
order, whichever order the objects are fetched in; `none` when an object cannot be read. -/
def readFullChunk (ctx : S3CompactCtx) (store : ObjectStore) (validList : List Node) :
    Option (List UInt8 × S3NewChunkInfo) :=
  let r := genS3ReadRequests ctx validList
  (r.1.mapM (readRequest store)).map fun contents => (contents.flatten, r.2)

/-- The object loop of `WriteFullChunk` from block `index` of the chunk starting at
`offRoundDown`: each object holds the part of `fullChunk` in its block. The loop makes at most
`newOff + fullChunk.length + 1` rounds for a positive block size; `fuel` bounds it. -/
def writeObjects (ctx : S3CompactCtx) (newChunkInfo : S3NewChunkInfo) (fullChunk : List UInt8)
    (offRoundDown : Nat) : (fuel index : Nat) → List (BlockKey × List UInt8)
  | 0, _ => []
  | fuel + 1, index =>
    if index * ctx.blockSize + offRoundDown < newChunkInfo.newOff + fullChunk.length then
      let objName := genObjName newChunkInfo.newChunkId index newChunkInfo.newCompaction
        ctx.fsId ctx.inodeId
      let s3objBegin := max newChunkInfo.newOff (offRoundDown + index * ctx.blockSize)
      let s3objEnd := min (newChunkInfo.newOff + fullChunk.length - 1)
        (offRoundDown + (index + 1) * ctx.blockSize - 1)
      (objName, (fullChunk.drop (s3objBegin - newChunkInfo.newOff)).take
          (s3objEnd - s3objBegin + 1)) ::
        writeObjects ctx newChunkInfo fullChunk offRoundDown fuel (index + 1)
    else []

/-- `PutObject` of each object in turn until one fails (`putOk`): the store, the objects
added, and whether all succeeded. -/
def putObjects (putOk : BlockKey → Bool) (store : ObjectStore) :
    List (BlockKey × List UInt8) → ObjectStore × List BlockKey × Bool
  | [] => (store, [], true)
  | (objName, data) :: rest =>
    if putOk objName then
      let r := putObjects putOk (store.insert objName data) rest
      (r.1, objName :: r.2.1, r.2.2)
    else (store, [], false)

/-- `CompactInodeJob::WriteFullChunk`. -/
def writeFullChunk (ctx : S3CompactCtx) (putOk : BlockKey → Bool) (store : ObjectStore)
    (newChunkInfo : S3NewChunkInfo) (fullChunk : List UInt8) :
    ObjectStore × List BlockKey × Bool :=
  let offRoundDown := newChunkInfo.newOff / ctx.chunkSize * ctx.chunkSize
  let startIndex := (newChunkInfo.newOff - offRoundDown) / ctx.blockSize
  putObjects putOk store
    (writeObjects ctx newChunkInfo fullChunk offRoundDown
      (newChunkInfo.newOff + fullChunk.length + 1) startIndex)

/-- What `CompactChunk` leaves for one chunk index: the object store, the objects it added,
and the entries of `s3ChunkInfoAdd` and `s3ChunkInfoRemove`. -/
structure CompactChunkResult where
  store : ObjectStore
  objsAdded : List BlockKey
  s3ChunkInfoAdd : Option S3ChunkInfoList
  s3ChunkInfoRemove : Option S3ChunkInfoList

/-- `CompactInodeJob::CompactChunk` on the list `s3chunkinfolist` of chunk `index` of an
inode of `inodeLen` bytes. A failed write deletes the objects it added. -/
def compactChunk (ctx : S3CompactCtx) (putOk : BlockKey → Bool) (store : ObjectStore)
    (index inodeLen : Nat) (s3chunkinfolist : S3ChunkInfoList) : CompactChunkResult :=
  let validList := buildValidList s3chunkinfolist inodeLen index ctx.chunkSize
  -- nothing valid: the chunk's list is just deleted
  if validList = [] then ⟨store, [], none, some s3chunkinfolist⟩
  else
    match readFullChunk ctx store validList with
    | none => ⟨store, [], none, none⟩
    | some (fullChunk, newChunkInfo) =>
      match writeFullChunk ctx putOk store newChunkInfo fullChunk with
      | (store', objsAdded, true) =>
        let toAdd : S3ChunkInfo := ⟨newChunkInfo.newChunkId, newChunkInfo.newCompaction,
          newChunkInfo.newOff, fullChunk.length, fullChunk.length, false⟩
        ⟨store', objsAdded, some [toAdd], some s3chunkinfolist⟩
      | (store', objsAdded, false) =>
        ⟨objsAdded.foldl (fun store objName => store.erase objName) store', [], none, none⟩

/-! ## The file content a chunk's infos give -/

/-- The byte at file offset `p` of a data chunk info, from its objects in the writers' layout:
block `(p mod chunkSize) / blockSize` of the chunk, at `p` less the later of the info's
offset and the block's start. -/
def infoByte (ctx : S3CompactCtx) (store : ObjectStore) (info : S3ChunkInfo) (p : Nat) :
    Option UInt8 :=
  let blockIndex := p % ctx.chunkSize / ctx.blockSize
  let blockStart := p / ctx.chunkSize * ctx.chunkSize + blockIndex * ctx.blockSize
  (store.lookup (genObjName info.chunkid blockIndex info.compaction ctx.fsId ctx.inodeId)).bind
    (·[p - max info.offset blockStart]?)

/-- The file byte at `p` that a chunk's infos give: the newest info covering `p` decides, and
the byte is zero where that info is a zero info or no info covers `p`. -/
def logicalByte (ctx : S3CompactCtx) (store : ObjectStore) (infos : S3ChunkInfoList)
    (p : Nat) : Option UInt8 :=
  match infos.reverse.find? (fun info => info.offset ≤ p ∧ p < info.offset + info.len) with
  | none => some 0
  | some info => if info.zero then some 0 else infoByte ctx store info p

/-! ## Compaction reads and writes objects in the layout -/

section Layout

variable {ctx : S3CompactCtx}

/-- The byte `infoByte` reads for a data info whose objects hold the layout of its bytes `d`. -/
theorem infoByte_of_holdsLayout {store : ObjectStore} {info : S3ChunkInfo} {d : List UInt8}
    (hbs : 0 < ctx.blockSize)
    (hstore : HoldsLayout store
      (fun k => genObjName info.chunkid k info.compaction ctx.fsId ctx.inodeId) ctx.blockSize
      (info.offset % ctx.chunkSize) d)
    (hin : info.offset % ctx.chunkSize + d.length ≤ ctx.chunkSize) {p : Nat}
    (ho : info.offset ≤ p) (hp : p < info.offset + d.length) :
    infoByte ctx store info p = d[p - info.offset]? :=
  holdsLayout_getElem? hbs hstore hin ho hp

/-- The object loop of `WriteFullChunk`, from a block `k` at or past the first block of the
data written from `newOff`, puts the layout's objects of the blocks from `k` on. Positions are
counted from the chunk start `R`. -/
theorem writeObjects_eq (hbs : 0 < ctx.blockSize) (nci : S3NewChunkInfo) {d : List UInt8}
    (hd : d ≠ []) {R : Nat} (hR : R ≤ nci.newOff) :
    ∀ fuel k, (nci.newOff - R) / ctx.blockSize ≤ k →
      (nci.newOff - R + d.length - 1) / ctx.blockSize + 1 ≤ fuel + k →
      writeObjects ctx nci d R fuel k =
        (List.range' k ((nci.newOff - R + d.length - 1) / ctx.blockSize + 1 - k)).map fun j =>
          (genObjName nci.newChunkId j nci.newCompaction ctx.fsId ctx.inodeId,
            blockSlice ctx.blockSize (nci.newOff - R) (nci.newOff - R) (nci.newOff - R + d.length)
              d j) := by
  have hn : 0 < d.length := List.length_pos_of_ne_nil hd
  refine loop_eq_map_range' hbs (by omega : 0 < nci.newOff - R + d.length) _ _ (fun _ => rfl)
    ?_ ?_
  · -- a block the data reaches: its object holds the data from the later of `newOff` and the
    -- block's start to the earlier of the data's end and the block's end
    intro fuel k hk hlt
    have hc := lt_succ_div_mul hbs (nci.newOff - R)
    have hmono := Nat.mul_le_mul_right ctx.blockSize (Nat.add_le_add_right hk 1)
    have hnext := Nat.add_one_mul k ctx.blockSize
    rw [writeObjects, if_pos (by omega)]
    dsimp only
    unfold blockSlice
    congr 4 <;> omega
  · intro fuel k _ hge
    cases fuel with
    | zero => rfl
    | succ fuel => rw [writeObjects, if_neg (by omega)]

/-- `WriteFullChunk` puts the objects of the layout of `fullChunk` written from `newOff`, in
the new chunk version. -/
theorem writeFullChunk_objects (hbs : 0 < ctx.blockSize) (nci : S3NewChunkInfo) {d : List UInt8}
    (hd : d ≠ []) :
    writeObjects ctx nci d (nci.newOff / ctx.chunkSize * ctx.chunkSize)
        (nci.newOff + d.length + 1)
        ((nci.newOff - nci.newOff / ctx.chunkSize * ctx.chunkSize) / ctx.blockSize) =
      (layout ctx.blockSize (nci.newOff % ctx.chunkSize) d).map fun o =>
        (genObjName nci.newChunkId o.1 nci.newCompaction ctx.fsId ctx.inodeId, o.2) := by
  have hc : nci.newOff - nci.newOff / ctx.chunkSize * ctx.chunkSize =
      nci.newOff % ctx.chunkSize := by
    have := Nat.mod_add_div' nci.newOff ctx.chunkSize
    omega
  have hfuel : (nci.newOff % ctx.chunkSize + d.length - 1) / ctx.blockSize ≤
      nci.newOff + d.length := by
    have := Nat.div_le_self (nci.newOff % ctx.chunkSize + d.length - 1) ctx.blockSize
    have := Nat.mod_le nci.newOff ctx.chunkSize
    omega
  rw [writeObjects_eq hbs nci hd (Nat.div_mul_le_self _ _) _ _ le_rfl
      (by rw [hc]; exact Nat.le_trans (by omega) (Nat.le_add_right _ _)), hc,
    layout, blocksOf, List.map_map]
  rfl

theorem putObjects_lookup_of_not_mem (putOk : BlockKey → Bool) {key : BlockKey} :
    ∀ (store : ObjectStore) (objs : List (BlockKey × List UInt8)), key ∉ objs.map Prod.fst →
      (putObjects putOk store objs).1.lookup key = store.lookup key
  | _, [], _ => rfl
  | store, (objName, data) :: rest, hkey => by
    rw [List.map_cons, List.mem_cons, not_or] at hkey
    unfold putObjects
    split_ifs
    · rw [putObjects_lookup_of_not_mem putOk _ rest hkey.2, AList.lookup_insert_ne hkey.1]
    · rfl

/-- Where every `PutObject` succeeds, the store holds each object put, provided no name is put
twice. -/
theorem putObjects_lookup {putOk : BlockKey → Bool} :
    ∀ {store : ObjectStore} {objs : List (BlockKey × List UInt8)},
      (putObjects putOk store objs).2.2 = true → (objs.map Prod.fst).Nodup →
      ∀ o ∈ objs, (putObjects putOk store objs).1.lookup o.1 = some o.2
  | _, [], _, _, _, ho => absurd ho List.not_mem_nil
  | store, (objName, data) :: rest, hok, hnodup, o, ho => by
    rw [List.map_cons, List.nodup_cons] at hnodup
    unfold putObjects at hok ⊢
    split_ifs at hok ⊢ with hput
    rcases List.mem_cons.mp ho with rfl | ho
    · -- the object put first is never overwritten
      rw [putObjects_lookup_of_not_mem putOk _ rest hnodup.1, AList.lookup_insert]
    · exact putObjects_lookup hok hnodup.2 o ho

/-- After a `WriteFullChunk` whose every `PutObject` succeeds, the store holds the layout of
the data in the new chunk version. -/
theorem writeFullChunk_holdsLayout (hbs : 0 < ctx.blockSize) {putOk : BlockKey → Bool}
    {store : ObjectStore} {nci : S3NewChunkInfo} {d : List UInt8} (hd : d ≠ [])
    (hok : (writeFullChunk ctx putOk store nci d).2.2 = true) :
    HoldsLayout (writeFullChunk ctx putOk store nci d).1
      (fun k => genObjName nci.newChunkId k nci.newCompaction ctx.fsId ctx.inodeId)
      ctx.blockSize (nci.newOff % ctx.chunkSize) d := by
  unfold writeFullChunk at hok ⊢
  dsimp only at hok ⊢
  rw [writeFullChunk_objects hbs nci hd] at hok ⊢
  -- the objects are named by their block indices, which are distinct
  have hnodup : (((layout ctx.blockSize (nci.newOff % ctx.chunkSize) d).map fun o =>
      (genObjName nci.newChunkId o.1 nci.newCompaction ctx.fsId ctx.inodeId, o.2)).map
        Prod.fst).Nodup := by
    rw [layout, List.map_map, List.map_map]
    refine (List.nodup_range' 1).map fun a b h => ?_
    simp only [Function.comp_apply, genObjName, BlockKey.mk.injEq] at h
    exact h.2.2.2.1
  exact holdsLayout_of_lookup fun o ho => putObjects_lookup hok hnodup _ (List.mem_map_of_mem ho)

theorem blockReadRequests_of_end_lt {curr : Node} {B : Nat} (fuel k : Nat)
    (h : curr.end_ < B + k * ctx.blockSize) : blockReadRequests ctx curr B fuel k = [] := by
  cases fuel with
  | zero => rfl
  | succ fuel => rw [blockReadRequests, if_neg (by omega)]

section Reads

variable {curr : Node} {B : Nat}

/-- One round of the block loop of `GenS3ReadRequests`, for a node inside its info whose chunk
starts at `B`: whichever of its four cases applies, the request reads, from the object of block
`k`, the node's bytes in the block, at their distance from the later of the info's offset and
the block's start. Positions are counted from `B`. -/
theorem blockReadRequests_succ (hbs : 0 < ctx.blockSize) (hB : B ≤ curr.chunkoff)
    (hoff : curr.chunkoff ≤ curr.begin) (hbe : curr.begin ≤ curr.end_)
    (hend : curr.end_ < curr.chunkoff + curr.chunklen) {fuel k : Nat}
    (hk : (curr.begin - B) / ctx.blockSize ≤ k) (hlt : k * ctx.blockSize < curr.end_ + 1 - B) :
    blockReadRequests ctx curr B (fuel + 1) k =
      ⟨false, some (genObjName curr.chunkid k curr.compaction ctx.fsId ctx.inodeId),
        max (curr.begin - B) (k * ctx.blockSize) - max (curr.chunkoff - B) (k * ctx.blockSize),
        min (curr.end_ + 1 - B) ((k + 1) * ctx.blockSize) -
          max (curr.begin - B) (k * ctx.blockSize)⟩ ::
        blockReadRequests ctx curr B fuel (k + 1) := by
  have hc := lt_succ_div_mul hbs (curr.begin - B)
  have hmono := Nat.mul_le_mul_right ctx.blockSize (Nat.add_le_add_right hk 1)
  have hnext := Nat.add_one_mul k ctx.blockSize
  -- the source's two tests: the node starts in this block, and it ends in this block
  have hfirst : curr.begin ≥ max curr.chunkoff (B + k * ctx.blockSize) ↔
      k * ctx.blockSize ≤ curr.begin - B := by
    constructor <;> intro <;> omega
  have hlast : curr.end_ ≤ min (curr.chunkoff + curr.chunklen - 1)
      (B + (k + 1) * ctx.blockSize - 1) ↔ curr.end_ + 1 - B ≤ (k + 1) * ctx.blockSize := by
    constructor <;> intro <;> omega
  rw [blockReadRequests, if_pos (by omega)]
  dsimp only
  by_cases h₁ : k * ctx.blockSize ≤ curr.begin - B <;>
    by_cases h₂ : curr.end_ + 1 - B ≤ (k + 1) * ctx.blockSize
  · -- all of the node is in this block
    rw [if_pos (And.intro (hfirst.mpr h₁) (hlast.mpr h₂)), Nat.max_eq_left h₁,
      Nat.min_eq_left h₂]
    congr 2 <;> omega
  · -- the node's first block
    rw [if_neg fun h => h₂ (hlast.mp h.2),
      if_pos (And.intro (hfirst.mpr h₁) (Nat.lt_of_not_le fun h => h₂ (hlast.mp h))),
      Nat.max_eq_left h₁, Nat.min_eq_right (Nat.le_of_not_le h₂)]
    congr 2 <;> omega
  · -- the node ends in this block, which is not its first: the loop breaks
    rw [if_neg fun h => h₁ (hfirst.mp h.1), if_neg fun h => h₁ (hfirst.mp h.1),
      if_neg fun h => Nat.not_le_of_lt h.2 (hlast.mpr h₂),
      blockReadRequests_of_end_lt fuel (k + 1) (by omega),
      Nat.max_eq_right (Nat.le_of_not_le h₁), Nat.min_eq_left h₂]
    congr 2 <;> omega
  · -- a block inside the node
    rw [if_neg fun h => h₁ (hfirst.mp h.1), if_neg fun h => h₁ (hfirst.mp h.1),
      if_pos (And.intro (Nat.lt_of_not_le fun h => h₁ (hfirst.mp h))
        (Nat.lt_of_not_le fun h => h₂ (hlast.mp h))),
      Nat.max_eq_right (Nat.le_of_not_le h₁), Nat.min_eq_right (Nat.le_of_not_le h₂)]
    congr 2 <;> omega

/-- The block loop of `GenS3ReadRequests` for a node inside its info, from a block `k` at or
past the node's first block: one read per block of the node, as in `blockReadRequests_succ`. -/
theorem blockReadRequests_eq (hbs : 0 < ctx.blockSize) (hB : B ≤ curr.chunkoff)
    (hoff : curr.chunkoff ≤ curr.begin) (hbe : curr.begin ≤ curr.end_)
    (hend : curr.end_ < curr.chunkoff + curr.chunklen) :
    ∀ fuel k, (curr.begin - B) / ctx.blockSize ≤ k →
      (curr.end_ + 1 - B - 1) / ctx.blockSize + 1 ≤ fuel + k →
      blockReadRequests ctx curr B fuel k =
        (List.range' k ((curr.end_ + 1 - B - 1) / ctx.blockSize + 1 - k)).map fun j =>
          ⟨false, some (genObjName curr.chunkid j curr.compaction ctx.fsId ctx.inodeId),
            max (curr.begin - B) (j * ctx.blockSize) - max (curr.chunkoff - B) (j * ctx.blockSize),
            min (curr.end_ + 1 - B) ((j + 1) * ctx.blockSize) -
              max (curr.begin - B) (j * ctx.blockSize)⟩ :=
  loop_eq_map_range' hbs (by omega : 0 < curr.end_ + 1 - B) _ _ (fun _ => rfl)
    (fun _ _ hk hlt => blockReadRequests_succ hbs hB hoff hbe hend hk hlt)
    (fun fuel k _ hge => blockReadRequests_of_end_lt fuel k (by omega))

/-- The reads `GenS3ReadRequests` makes for a data node inside its info, over a store that holds
the layout of the info's bytes `d`: each reads an existing object, a nonempty range inside it,
and together they return the node's bytes. -/
theorem blockReadRequests_read (hbs : 0 < ctx.blockSize) (hB : B ≤ curr.chunkoff)
    (hoff : curr.chunkoff ≤ curr.begin) (hbe : curr.begin ≤ curr.end_)
    (hend : curr.end_ < curr.chunkoff + curr.chunklen) {store : ObjectStore} {d : List UInt8}
    (hlen : d.length = curr.chunklen)
    (hstore : HoldsLayout store
      (fun k => genObjName curr.chunkid k curr.compaction ctx.fsId ctx.inodeId) ctx.blockSize
      (curr.chunkoff - B) d) :
    (∀ r ∈ blockReadRequests ctx curr B (curr.end_ + 1) ((curr.begin - B) / ctx.blockSize),
      r.zero = false ∧ ∃ key obj, r.objName = some key ∧ store.lookup key = some obj ∧
        0 < r.len ∧ r.off + r.len ≤ obj.length) ∧
    ((blockReadRequests ctx curr B (curr.end_ + 1) ((curr.begin - B) / ctx.blockSize)).mapM
        (readRequest store)).map List.flatten =
      some ((d.drop (curr.begin - curr.chunkoff)).take (curr.end_ + 1 - curr.begin)) := by
  have hfuel : (curr.end_ + 1 - B - 1) / ctx.blockSize ≤ curr.end_ :=
    Nat.le_trans (Nat.div_le_self _ _) (by omega)
  rw [blockReadRequests_eq hbs hB hoff hbe hend _ _ le_rfl
    (Nat.le_trans (by omega) (Nat.le_add_right _ _))]
  -- in the chunk, the info starts at `c`, and the node is `[lo, hi)`
  rw [show curr.begin - curr.chunkoff = (curr.begin - B) - (curr.chunkoff - B) by omega,
    show curr.end_ + 1 - curr.begin = (curr.end_ + 1 - B) - (curr.begin - B) by omega]
  have hclo : curr.chunkoff - B ≤ curr.begin - B := by omega
  have hlohi : curr.begin - B < curr.end_ + 1 - B := by omega
  have hhi : curr.end_ + 1 - B ≤ curr.chunkoff - B + d.length := by omega
  generalize curr.chunkoff - B = c at hstore hclo hhi ⊢
  generalize curr.begin - B = lo at hclo hlohi ⊢
  generalize curr.end_ + 1 - B = hi at hlohi hhi ⊢
  change (∀ r ∈ (blocksOf ctx.blockSize lo hi).map _, _) ∧
    ((List.map _ (blocksOf ctx.blockSize lo hi)).mapM (readRequest store)).map List.flatten = _
  -- each block of the node is a block of the info, and its object holds the block's slice
  have hobj : ∀ k ∈ blocksOf ctx.blockSize lo hi,
      store.lookup (genObjName curr.chunkid k curr.compaction ctx.fsId ctx.inodeId) =
        some (blockSlice ctx.blockSize c c (c + d.length) d k) :=
    fun k hk => hstore k (blocksOf_mono hclo hhi hk)
  have hmeet : ∀ k ∈ blocksOf ctx.blockSize lo hi,
      max lo (k * ctx.blockSize) < min hi ((k + 1) * ctx.blockSize) := by
    intro k hk
    have := mem_blocksOf_meets hbs hlohi hk
    have := Nat.add_one_mul k ctx.blockSize
    omega
  constructor
  · intro r hr
    obtain ⟨k, hk, rfl⟩ := List.mem_map.mp hr
    have hlen' : (blockSlice ctx.blockSize c c (c + d.length) d k).length =
        min (c + d.length) ((k + 1) * ctx.blockSize) - max c (k * ctx.blockSize) :=
      length_blockSlice d k le_rfl le_rfl
    have hne := hmeet k hk
    refine ⟨rfl, _, _, rfl, hobj k hk, ?_, ?_⟩ <;> dsimp only
    · omega
    · rw [hlen']
      omega
  · have hread : ∀ k ∈ blocksOf ctx.blockSize lo hi,
        readRequest store ⟨false, some (genObjName curr.chunkid k curr.compaction ctx.fsId
          ctx.inodeId), max lo (k * ctx.blockSize) - max c (k * ctx.blockSize),
          min hi ((k + 1) * ctx.blockSize) - max lo (k * ctx.blockSize)⟩ =
        some (blockSlice ctx.blockSize c lo hi d k) := by
      intro k hk
      rw [readRequest, if_neg Bool.false_ne_true]
      dsimp only
      rw [hobj k hk, Option.bind_some]
      exact substr_of_readRange (readRange_blockSlice d k hclo hhi (Nat.le_of_lt (hmeet k hk)))
    rw [mapM_map_eq_some hread, Option.map_some, flatten_blockSlice hbs c hi d _ lo le_rfl hclo
      hlohi]

/-- The block reads of every data node are among the requests of `GenS3ReadRequests`, in one
piece. -/
theorem blockReadRequests_infix_genReadRequestsLoop :
    ∀ {nodes : List Node} {newChunkId newCompaction : Nat}, curr ∈ nodes → curr.zero = false →
      blockReadRequests ctx curr (curr.begin / ctx.chunkSize * ctx.chunkSize) (curr.end_ + 1)
          ((curr.begin - curr.begin / ctx.chunkSize * ctx.chunkSize) / ctx.blockSize) <:+:
        (genReadRequestsLoop ctx newChunkId newCompaction nodes).1
  | [], _, _, hmem, _ => absurd hmem List.not_mem_nil
  | node :: rest, newChunkId, newCompaction, hmem, hz => by
    unfold genReadRequestsLoop
    rcases List.mem_cons.mp hmem with rfl | hmem
    · -- the node's own block reads come first in its round
      rw [if_neg (by rw [hz]; exact Bool.false_ne_true)]
      exact (List.prefix_append _ _).trans (List.prefix_append _ _) |>.isInfix
    · -- a later node's reads come after this round's
      by_cases hnode : node.zero = true
      · rw [if_pos hnode]
        exact (blockReadRequests_infix_genReadRequestsLoop hmem hz).trans
          (List.suffix_cons _ _).isInfix
      · rw [if_neg hnode]
        exact (blockReadRequests_infix_genReadRequestsLoop hmem hz).trans
          (List.suffix_append _ _).isInfix

/-- The reads `GenS3ReadRequests` makes for a data node inside its info, over a store that holds
the layout of the info's bytes: a piece of its requests, each reading a nonempty range inside an
existing object, that together return the node's bytes. -/
theorem genS3ReadRequests_reads_node (hbs : 0 < ctx.blockSize) {nodes : List Node}
    (hmem : curr ∈ nodes) (hz : curr.zero = false) (hoff : curr.chunkoff ≤ curr.begin)
    (hbe : curr.begin ≤ curr.end_) (hend : curr.end_ < curr.chunkoff + curr.chunklen)
    (hin : curr.chunkoff % ctx.chunkSize + curr.chunklen ≤ ctx.chunkSize) {store : ObjectStore}
    {d : List UInt8} (hlen : d.length = curr.chunklen)
    (hstore : HoldsLayout store
      (fun k => genObjName curr.chunkid k curr.compaction ctx.fsId ctx.inodeId) ctx.blockSize
      (curr.chunkoff % ctx.chunkSize) d) :
    ∃ reqs, reqs <:+: (genS3ReadRequests ctx nodes).1 ∧
      (∀ r ∈ reqs, r.zero = false ∧ ∃ key obj, r.objName = some key ∧
        store.lookup key = some obj ∧ 0 < r.len ∧ r.off + r.len ≤ obj.length) ∧
      (reqs.mapM (readRequest store)).map List.flatten =
        some ((d.drop (curr.begin - curr.chunkoff)).take (curr.end_ + 1 - curr.begin)) := by
  -- the node lies in its info's chunk, which starts at `beginRoundDown`
  have hchunk : curr.begin / ctx.chunkSize = curr.chunkoff / ctx.chunkSize :=
    div_eq_of_mod_add_le hin hoff (by omega)
  have hc : curr.chunkoff - curr.begin / ctx.chunkSize * ctx.chunkSize =
      curr.chunkoff % ctx.chunkSize := by
    have := Nat.mod_add_div' curr.chunkoff ctx.chunkSize
    rw [hchunk]
    omega
  have hB : curr.begin / ctx.chunkSize * ctx.chunkSize ≤ curr.chunkoff := by
    rw [hchunk]
    exact Nat.div_mul_le_self _ _
  rw [← hc] at hstore
  exact ⟨_, blockReadRequests_infix_genReadRequestsLoop hmem hz,
    blockReadRequests_read hbs hB hoff hbe hend hlen hstore⟩

end Reads

end Layout

/-! ## The valid list holds the newest info of every byte

Over a sorted free list `fill` is a carving: what stays free is what `segDiff` leaves of every
segment, and what it hands out is what `segInter` takes of every segment (`fillFree_eq`); its
early `return` skips only segments the info ends before. `FillInv` says what the free list and
`used` mean after the infos walked so far, newest first; `fill` keeps it, and the loop ends
with it over all the infos, also when it stops with nothing free. `ValidList` is what the
nodes then satisfy. -/

section ValidList

/-- The node reads the chunk info's data. -/
def Node.Carries (n : Node) (info : S3ChunkInfo) : Prop :=
  n.chunkid = info.chunkid ∧ n.compaction = info.compaction ∧ n.chunkoff = info.offset ∧
    n.chunklen = info.len ∧ n.zero = info.zero

/-- What `BuildValidList` promises for the infos `L` of a chunk and the bytes `inWindow` of
the chunk inside the file: nodes in increasing order and apart, inside the window and inside
the info they carry, covering the window's bytes that some info covers, and each byte with
the newest info that covers it. -/
structure ValidList (L : S3ChunkInfoList) (inWindow : Nat → Prop) (nodes : List Node) :
    Prop where
  sorted : nodes.Pairwise fun a b => a.end_ < b.begin
  wf : ∀ n ∈ nodes, n.begin ≤ n.end_
  window : ∀ n ∈ nodes, ∀ p, n.begin ≤ p → p ≤ n.end_ → inWindow p
  in_info : ∀ n ∈ nodes, n.chunkoff ≤ n.begin ∧ n.end_ < n.chunkoff + n.chunklen
  covered : ∀ p, inWindow p →
    ((∃ n ∈ nodes, n.begin ≤ p ∧ p ≤ n.end_) ↔ ∃ info ∈ L, info.Covers p)
  newest : ∀ n ∈ nodes, ∀ p, n.begin ≤ p → p ≤ n.end_ →
    ∃ (j : Nat) (h : j < L.length), L[j].Covers p ∧
      (∀ k (hk : k < L.length), j < k → ¬ L[k].Covers p) ∧ n.Carries L[j]

/-- No nodes are valid for a window without bytes. -/
theorem ValidList.nil {L : S3ChunkInfoList} {inWindow : Nat → Prop}
    (hW : ∀ p, ¬ inWindow p) : ValidList L inWindow [] where
  sorted := List.Pairwise.nil
  wf := fun _ h => absurd h List.not_mem_nil
  window := fun _ h => absurd h List.not_mem_nil
  in_info := fun _ h => absurd h List.not_mem_nil
  covered := fun p hp => absurd hp (hW p)
  newest := fun _ h => absurd h List.not_mem_nil

/-- `fill` over a sorted free list: what stays free is what `segDiff` leaves of every segment,
and the `used` assignments are what `segInter` takes of every segment, in order. -/
theorem fillFree_eq {lo hi i : Nat} (hlh : lo ≤ hi) :
    ∀ {free : List (Nat × Nat)}, SortedSegs free →
      fillFree lo hi i free = (free.flatMap (segDiff lo hi),
        (free.filterMap (segInter lo hi)).map fun s => (s.1, s.2, i))
  | [], _ => rfl
  | (b, e) :: rest, h => by
    have hbe : b ≤ e := h.wf _ List.mem_cons_self
    have hafter : ∀ s ∈ rest, e < s.1 := (List.pairwise_cons.mp h.sorted).1
    have ih : fillFree lo hi i rest = _ :=
      fillFree_eq hlh ⟨fun s hs => h.wf s (List.mem_cons_of_mem _ hs),
        (List.pairwise_cons.mp h.sorted).2⟩
    rw [fillFree, List.flatMap_cons, List.filterMap_cons]
    -- one case per branch of `fill`
    by_cases hb : lo ≤ b
    · by_cases hhb : hi < b
      · -- the info ends before this segment, and so before every later one: `return`
        have hd : segDiff lo hi (b, e) = [(b, e)] := by
          simp only [segDiff]
          rw [if_neg (by omega), if_pos (by omega), Nat.max_eq_left (by omega)]
          rfl
        have hn : segInter lo hi (b, e) = none := by
          simp only [segInter]
          rw [if_neg (by omega)]
        rw [if_pos hb, if_pos hhb, hd, hn,
          flatMap_segDiff_of_lt hlh fun s hs => ⟨by have := hafter s hs; omega,
            (List.pairwise_cons.mp h.sorted).2 |> fun _ => h.wf s (List.mem_cons_of_mem _ hs)⟩,
          filterMap_segInter_of_lt fun s hs => by have := hafter s hs; omega]
        rfl
      · by_cases hhe : hi < e
        · -- the info takes the head of the segment
          have hd : segDiff lo hi (b, e) = [(hi + 1, e)] := by
            simp only [segDiff]
            rw [if_neg (by omega), if_pos hhe, Nat.max_eq_right (by omega)]
            rfl
          have hn : segInter lo hi (b, e) = some (b, hi) := by
            simp only [segInter]
            rw [Nat.max_eq_left hb, Nat.min_eq_right (by omega), if_pos (by omega)]
          rw [if_pos hb, if_neg hhb, if_pos hhe, hd, hn, ih]
          rfl
        · -- the info takes the whole segment
          have hd : segDiff lo hi (b, e) = [] := by
            simp only [segDiff]
            rw [if_neg (by omega), if_neg hhe]
            rfl
          have hn : segInter lo hi (b, e) = some (b, e) := by
            simp only [segInter]
            rw [Nat.max_eq_left hb, Nat.min_eq_left (by omega), if_pos hbe]
          rw [if_pos hb, if_neg hhb, if_neg hhe, hd, hn, ih]
          rfl
    · by_cases hbe' : lo ≤ e
      · by_cases hhe : hi < e
        · -- the info takes the middle of the segment
          have hd : segDiff lo hi (b, e) = [(b, lo - 1), (hi + 1, e)] := by
            simp only [segDiff]
            rw [if_pos (by omega), if_pos hhe, Nat.min_eq_right (by omega),
              Nat.max_eq_right (by omega)]
            rfl
          have hn : segInter lo hi (b, e) = some (lo, hi) := by
            simp only [segInter]
            rw [Nat.max_eq_right (by omega), Nat.min_eq_right (by omega), if_pos hlh]
          rw [if_neg hb, if_pos hbe', if_pos hhe, hd, hn, ih]
          rfl
        · -- the info takes the tail of the segment
          have hd : segDiff lo hi (b, e) = [(b, lo - 1)] := by
            simp only [segDiff]
            rw [if_pos (by omega), if_neg hhe, Nat.min_eq_right (by omega)]
            rfl
          have hn : segInter lo hi (b, e) = some (lo, e) := by
            simp only [segInter]
            rw [Nat.max_eq_right (by omega), Nat.min_eq_left (by omega), if_pos hbe']
          rw [if_neg hb, if_pos hbe', if_neg hhe, hd, hn, ih]
          rfl
      · -- the info starts after the segment
        have hd : segDiff lo hi (b, e) = [(b, e)] := by
          simp only [segDiff]
          rw [if_pos (by omega), if_neg (by omega), Nat.min_eq_left (by omega)]
          rfl
        have hn : segInter lo hi (b, e) = none := by
          simp only [segInter]
          rw [if_neg (by omega)]
        rw [if_neg hb, if_neg hbe', hd, hn, ih]
        rfl

/-- The newest of the infos walked so far, numbered, that covers byte `p`. -/
def coverIdx (done : List (Nat × S3ChunkInfo)) (p : Nat) : Option Nat :=
  firstIdx (fun info => decide (info.Covers p)) done

theorem coverIdx_append_singleton (done : List (Nat × S3ChunkInfo)) (j : Nat)
    (info : S3ChunkInfo) (p : Nat) :
    coverIdx (done ++ [(j, info)]) p =
      (coverIdx done p).or (if info.Covers p then some j else none) := by
  unfold coverIdx
  rw [firstIdx_append, firstIdx_singleton]
  simp only [decide_eq_true_eq]

/-- The loop of `BuildValidList` after the infos `done`, newest first, in the window `W`: the
free segments are sorted and hold the window's bytes no info of `done` covers; the `used`
segments are sorted by key, apart and nonempty, lie in the window, and name for each of their
bytes its newest covering info; and every byte some info of `done` covers is used. -/
structure FillInv (W : Nat × Nat) (done : List (Nat × S3ChunkInfo)) (free : List (Nat × Nat))
    (used : List (Nat × Nat × Nat)) : Prop where
  free_sorted : SortedSegs free
  free_window : ∀ p, InSegs free p → InSeg W p
  free_iff : ∀ p, InSeg W p → (InSegs free p ↔ coverIdx done p = none)
  used_keys : used.Pairwise fun a b => a.1 < b.1
  used_apart : used.Pairwise fun a b => a.2.1 < b.1 ∨ b.2.1 < a.1
  used_wf : ∀ u ∈ used, u.1 ≤ u.2.1
  used_owner : ∀ u ∈ used, ∀ p, u.1 ≤ p → p ≤ u.2.1 → InSeg W p ∧ coverIdx done p = some u.2.2
  covered : ∀ p, InSeg W p → coverIdx done p ≠ none → ∃ u ∈ used, u.1 ≤ p ∧ p ≤ u.2.1

namespace FillInv

variable {W : Nat × Nat} {done : List (Nat × S3ChunkInfo)} {free : List (Nat × Nat)}
  {used : List (Nat × Nat × Nat)}

/-- The loop starts with the whole window free. -/
theorem init (hW : W.1 ≤ W.2) : FillInv W [] [W] [] where
  free_sorted := ⟨fun s hs => by rw [List.mem_singleton.mp hs]; exact hW, List.pairwise_singleton _ _⟩
  free_window := fun p hp => by simpa using hp
  free_iff := fun p hp => by simp [hp, coverIdx]
  used_keys := List.Pairwise.nil
  used_apart := List.Pairwise.nil
  used_wf := fun _ h => absurd h List.not_mem_nil
  used_owner := fun _ h => absurd h List.not_mem_nil
  covered := fun p _ h => (h rfl).elim

/-- With nothing free, every byte of the window has its newest info among `done`, so the infos
the loop no longer walks change nothing. -/
theorem of_free_nil (h : FillInv W done [] used) (more : List (Nat × S3ChunkInfo)) :
    FillInv W (done ++ more) [] used := by
  have hsome : ∀ p, InSeg W p → coverIdx done p ≠ none := fun p hp hnone =>
    not_inSegs_nil ((h.free_iff p hp).mpr hnone)
  have hsame : ∀ p, coverIdx done p ≠ none → coverIdx (done ++ more) p = coverIdx done p := by
    intro p hp
    unfold coverIdx at *
    rw [firstIdx_append]
    cases hd : firstIdx (fun info => decide (info.Covers p)) done with
    | none => exact absurd hd hp
    | some k => rfl
  refine ⟨h.free_sorted, h.free_window, fun p hp => ?_, h.used_keys, h.used_apart, h.used_wf,
    fun u hu p h₁ h₂ => ?_, fun p hp _ => h.covered p hp (hsome p hp)⟩
  · rw [hsame p (hsome p hp)]
    exact h.free_iff p hp
  · obtain ⟨hpW, hown⟩ := h.used_owner u hu p h₁ h₂
    refine ⟨hpW, ?_⟩
    rw [hsame p (by rw [hown]; exact Option.some_ne_none _), hown]

/-- One round of the loop, `fill` of the info numbered `j`, keeps the invariant: the bytes it
takes were free, so no older used segment holds them, and their newest info is now `j`. -/
theorem fill (h : FillInv W done free used) {j : Nat} {info : S3ChunkInfo}
    (hlen : 0 < info.len) (hov : info.offset + info.len < 2 ^ 64) :
    FillInv W (done ++ [(j, info)])
      (fillFree info.offset (sub64 (add64 info.offset info.len) 1) j free).1
      ((fillFree info.offset (sub64 (add64 info.offset info.len) 1) j free).2.foldl
        (fun used u => orderedMapAssign u.1 u.2 used) used) := by
  rw [add64_of_lt hov, sub64_of_le (by omega) hov, fillFree_eq (by omega) h.free_sorted]
  dsimp only
  set lo := info.offset
  set hi := info.offset + info.len - 1
  set new := (free.filterMap (segInter lo hi)).map fun s => (s.1, s.2, j)
  have hcov : ∀ p, info.Covers p ↔ lo ≤ p ∧ p ≤ hi := fun p => by
    simp only [S3ChunkInfo.Covers, lo, hi]
    omega
  -- a new used segment is nonempty, numbered `j`, and its bytes were free and the info's
  have hnew : ∀ u ∈ new, u.2.2 = j ∧ u.1 ≤ u.2.1 ∧
      ∀ p, u.1 ≤ p → p ≤ u.2.1 → InSegs free p ∧ lo ≤ p ∧ p ≤ hi := by
    intro u hu
    obtain ⟨s, hs, rfl⟩ := List.mem_map.mp hu
    obtain ⟨t, ht, hts⟩ := List.mem_filterMap.mp hs
    refine ⟨rfl, (le_of_segInter hts).2.2.2.2, fun p h₁ h₂ => ?_⟩
    have hp := (@inSeg_of_segInter lo hi p _ _ hts).mp ⟨h₁, h₂⟩
    exact ⟨⟨t, ht, hp.1⟩, hp.2⟩
  -- the bytes of the older used segments are not free
  have hold : ∀ u ∈ used, ∀ p, u.1 ≤ p → p ≤ u.2.1 → ¬ InSegs free p := by
    intro u hu p h₁ h₂ hfree
    obtain ⟨hpW, hown⟩ := h.used_owner u hu p h₁ h₂
    rw [(h.free_iff p hpW).mp hfree] at hown
    cases hown
  have hwf : ∀ u ∈ used ++ new, u.1 ≤ u.2.1 := by
    intro u hu
    rcases List.mem_append.mp hu with hu | hu
    · exact h.used_wf u hu
    · exact (hnew u hu).2.1
  have hapart : (used ++ new).Pairwise fun a b => a.2.1 < b.1 ∨ b.2.1 < a.1 := by
    refine List.pairwise_append.mpr ⟨h.used_apart, ?_, fun a ha b hb => ?_⟩
    · refine (List.pairwise_map.mpr ?_)
      exact (SortedSegs.filterMap_segInter h.free_sorted :
        SortedSegs (free.filterMap (segInter lo hi))).sorted.imp Or.inl
    · -- two overlapping segments would share their later first byte
      by_contra hover
      have hb' := hnew b hb
      have ha' := h.used_wf a ha
      exact hold a ha (max a.1 b.1) (by omega) (by omega)
        (hb'.2.2 (max a.1 b.1) (by omega) (by omega)).1
  obtain ⟨hperm, hkeys⟩ := foldl_orderedMapAssign new used
    (@nodup_of_apart _ (fun u : Nat × Nat × Nat => (u.1, u.2.1)) _ hwf hapart) h.used_keys
  refine ⟨h.free_sorted.flatMap_segDiff (by omega), fun p hp => ?_, fun p hp => ?_, hkeys,
    (hperm.pairwise_iff fun hab => hab.symm).mpr hapart,
    fun u hu => hwf u (hperm.subset hu), fun u hu p h₁ h₂ => ?_, fun p hp hne => ?_⟩
  · exact h.free_window p (inSegs_flatMap_segDiff.mp hp).1
  · -- a byte stays free exactly when neither the walked infos nor this one cover it
    rw [inSegs_flatMap_segDiff, h.free_iff p hp, coverIdx_append_singleton, ← hcov]
    cases coverIdx done p <;> by_cases hin : info.Covers p <;> simp [hin]
  · rw [coverIdx_append_singleton]
    rcases List.mem_append.mp (hperm.subset hu) with hu | hu
    · obtain ⟨hpW, hown⟩ := h.used_owner u hu p h₁ h₂
      exact ⟨hpW, by rw [hown]; rfl⟩
    · obtain ⟨hj, -, hbytes⟩ := hnew u hu
      obtain ⟨hfree, hin⟩ := hbytes p h₁ h₂
      have hpW := h.free_window p hfree
      refine ⟨hpW, ?_⟩
      rw [(h.free_iff p hpW).mp hfree, if_pos ((hcov p).mpr hin), hj]
      rfl
  · -- a byte covered now was covered before, or is free and taken by this info
    rw [coverIdx_append_singleton] at hne
    cases hd : coverIdx done p with
    | some k =>
      obtain ⟨u, hu, hpu⟩ := h.covered p hp (by rw [hd]; exact Option.some_ne_none _)
      exact ⟨u, hperm.symm.subset (List.mem_append_left _ hu), hpu⟩
    | none =>
      rw [hd] at hne
      have hin : info.Covers p := by
        by_contra hnot
        exact hne (by rw [if_neg hnot]; rfl)
      have hfree := (h.free_iff p hp).mpr hd
      obtain ⟨t, ht, hpt⟩ := inSegs_filterMap_segInter.mpr ⟨hfree, (hcov p).mp hin⟩
      exact ⟨(t.1, t.2, j), hperm.symm.subset (List.mem_append_right _ (List.mem_map_of_mem ht)),
        hpt⟩

/-- The loop over the infos `rest` keeps the invariant and ends with it over all of them, also
when it stops early because nothing is free. -/
theorem fillAll_inv : ∀ (rest : List (Nat × S3ChunkInfo)) {done free used},
    (∀ q ∈ rest, 0 < q.2.len ∧ q.2.offset + q.2.len < 2 ^ 64) → FillInv W done free used →
      ∃ free', FillInv W (done ++ rest) free' (fillAll free used rest)
  | [], done, free, used, _, h => ⟨free, by rw [List.append_nil]; exact h⟩
  | (j, info) :: rest, done, free, used, hinfo, h => by
    have hq := hinfo (j, info) List.mem_cons_self
    rw [fillAll]
    by_cases hfree : free = []
    · subst hfree
      rw [if_pos rfl]
      exact ⟨[], h.of_free_nil _⟩
    · rw [if_neg hfree]
      obtain ⟨free', h'⟩ := fillAll_inv rest (fun q hq => hinfo q (List.mem_cons_of_mem _ hq))
        (h.fill hq.1 hq.2)
      rw [List.append_assoc, List.singleton_append] at h'
      exact ⟨free', h'⟩

end FillInv

/-- The nodes made of the used segments at the end of the loop over all the infos, newest
first, are valid for the window: the loop's invariant over all the infos says that each byte's
newest info is `newestIdx` of the list. -/
theorem validList_of_fillInv {L : S3ChunkInfoList} {W : Nat × Nat} {inWindow : Nat → Prop}
    (hW : ∀ p, InSeg W p ↔ inWindow p) {free : List (Nat × Nat)} {used : List (Nat × Nat × Nat)}
    (h : FillInv W (L.zipIdx.map fun p => (p.2, p.1)).reverse free used) :
    ValidList L inWindow (used.filterMap fun u =>
      L[u.2.2]?.map fun info =>
        ⟨u.1, u.2.1, info.chunkid, info.compaction, info.offset, info.len, info.zero⟩) := by
  -- the number a used segment names is the newest info of each of its bytes
  have hown : ∀ u ∈ used, ∀ p, u.1 ≤ p → p ≤ u.2.1 → ∃ hj : u.2.2 < L.length,
      L[u.2.2].Covers p ∧ ∀ k (hk : k < L.length), u.2.2 < k → ¬ L[k].Covers p := by
    intro u hu p h₁ h₂
    obtain ⟨hj, hcov, hnewer⟩ := newestIdx_eq_some.mp (h.used_owner u hu p h₁ h₂).2
    exact ⟨hj, of_decide_eq_true hcov, fun k hk hjk => of_decide_eq_false (hnewer k hk hjk)⟩
  have hmem : ∀ n ∈ used.filterMap (fun u => L[u.2.2]?.map fun info =>
      (⟨u.1, u.2.1, info.chunkid, info.compaction, info.offset, info.len, info.zero⟩ : Node)),
      ∃ u ∈ used, ∃ hj : u.2.2 < L.length, n = ⟨u.1, u.2.1, L[u.2.2].chunkid,
        L[u.2.2].compaction, L[u.2.2].offset, L[u.2.2].len, L[u.2.2].zero⟩ := by
    intro n hn
    obtain ⟨u, hu, hun⟩ := List.mem_filterMap.mp hn
    obtain ⟨info, hinfo, rfl⟩ := Option.map_eq_some_iff.mp hun
    obtain ⟨hj, rfl⟩ := List.getElem?_eq_some_iff.mp hinfo
    exact ⟨u, hu, hj, rfl⟩
  refine ⟨?_, ?_, ?_, ?_, fun p hp => ?_, ?_⟩
  · -- sorted by key and apart, so end before start, and the nodes keep the bounds
    refine (@sorted_of_apart _ (fun u : Nat × Nat × Nat => (u.1, u.2.1)) _ h.used_wf
      h.used_keys h.used_apart).filterMap _ fun a b hab x hx y hy => ?_
    obtain ⟨ia, -, rfl⟩ := Option.map_eq_some_iff.mp hx
    obtain ⟨ib, -, rfl⟩ := Option.map_eq_some_iff.mp hy
    exact hab
  · intro n hn
    obtain ⟨u, hu, hj, rfl⟩ := hmem n hn
    exact h.used_wf u hu
  · intro n hn p h₁ h₂
    obtain ⟨u, hu, hj, rfl⟩ := hmem n hn
    exact (hW p).mp (h.used_owner u hu p h₁ h₂).1
  · intro n hn
    obtain ⟨u, hu, hj, rfl⟩ := hmem n hn
    have hwf := h.used_wf u hu
    obtain ⟨_, hfirst, -⟩ := hown u hu u.1 le_rfl hwf
    obtain ⟨_, hlast, -⟩ := hown u hu u.2.1 hwf le_rfl
    exact ⟨hfirst.1, hlast.2⟩
  · have hpW := (hW p).mpr hp
    constructor
    · rintro ⟨n, hn, h₁, h₂⟩
      obtain ⟨u, hu, hj, rfl⟩ := hmem n hn
      obtain ⟨hj, hcov, -⟩ := hown u hu p h₁ h₂
      exact ⟨_, List.getElem_mem hj, hcov⟩
    · -- a covered byte has a newest info, so a used segment holds it
      rintro ⟨info, hinfo, hcov⟩
      have hne : coverIdx (L.zipIdx.map fun p => (p.2, p.1)).reverse p ≠ none := fun hnone =>
        absurd (newestIdx_eq_none.mp hnone info hinfo) (by simpa using hcov)
      obtain ⟨u, hu, h₁, h₂⟩ := h.covered p hpW hne
      obtain ⟨hj, -, -⟩ := hown u hu p h₁ h₂
      refine ⟨⟨u.1, u.2.1, L[u.2.2].chunkid, L[u.2.2].compaction, L[u.2.2].offset, L[u.2.2].len,
        L[u.2.2].zero⟩, List.mem_filterMap.mpr ⟨u, hu, ?_⟩, h₁, h₂⟩
      rw [List.getElem?_eq_getElem hj]
      rfl
  · intro n hn p h₁ h₂
    obtain ⟨u, hu, hj, rfl⟩ := hmem n hn
    obtain ⟨hj, hcov, hnewer⟩ := hown u hu p h₁ h₂
    exact ⟨u.2.2, hj, hcov, hnewer, rfl, rfl, rfl, rfl, rfl⟩

/-- The chunk's window in `uint64_t` is the plain one when the chunk's end fits. -/
theorem chunkWindow_of_lt {chunkSize index : Nat} (hcs : 0 < chunkSize)
    (hov : chunkSize * (index + 1) < 2 ^ 64) :
    mul64 chunkSize index = chunkSize * index ∧
      sub64 (mul64 chunkSize (add64 index 1)) 1 = chunkSize * (index + 1) - 1 := by
  have hpos : 1 ≤ chunkSize * (index + 1) := Nat.mul_pos hcs (Nat.succ_pos index)
  have hle : chunkSize * index ≤ chunkSize * (index + 1) :=
    Nat.mul_le_mul_left _ (Nat.le_succ index)
  have hidx : index + 1 < 2 ^ 64 := lt_of_le_of_lt (Nat.le_mul_of_pos_left _ hcs) hov
  refine ⟨mul64_of_lt (by omega), ?_⟩
  rw [add64_of_lt hidx, mul64_of_lt hov, sub64_of_le hpos hov]

/-- `BuildValidList` for a file of at least one byte, with the chunk's end in 64 bits: its
nodes are sorted and apart, lie in the chunk's bytes inside the file and in the info each
carries, cover exactly the bytes there that some info covers, and give each byte the newest
info that covers it. -/
theorem buildValidList_newest_wins (L : S3ChunkInfoList) (inodeLen index chunkSize : Nat)
    (hcs : 0 < chunkSize) (hov : chunkSize * (index + 1) < 2 ^ 64) (hinode : 0 < inodeLen)
    (hinode64 : inodeLen < 2 ^ 64)
    (hinfo : ∀ info ∈ L, 0 < info.len ∧ info.offset + info.len < 2 ^ 64) :
    ValidList L (fun p => chunkSize * index ≤ p ∧ p < chunkSize * (index + 1) ∧ p < inodeLen)
      (buildValidList L inodeLen index chunkSize) := by
  obtain ⟨hbegin, hend⟩ := chunkWindow_of_lt hcs hov
  unfold buildValidList
  rw [sub64_of_le hinode hinode64, hbegin, hend]
  split_ifs with hpast
  · -- the chunk starts at or past the end of the file
    exact ValidList.nil fun p hp => by omega
  · have hchunk : chunkSize * index ≤ chunkSize * (index + 1) - 1 := by
      rw [Nat.mul_succ]
      omega
    have hall : ∀ q ∈ (L.zipIdx.map fun p => (p.2, p.1)).reverse,
        0 < q.2.len ∧ q.2.offset + q.2.len < 2 ^ 64 := by
      intro q hq
      obtain ⟨⟨a, i⟩, hai, rfl⟩ := List.mem_map.mp (List.mem_reverse.mp hq)
      obtain ⟨-, -, ha⟩ := List.mem_zipIdx hai
      have haL : a ∈ L := by
        rw [ha]
        exact List.getElem_mem _
      exact hinfo a haL
    have hinit : FillInv (chunkSize * index, min (chunkSize * (index + 1) - 1) (inodeLen - 1)) []
        [(chunkSize * index, min (chunkSize * (index + 1) - 1) (inodeLen - 1))] [] :=
      FillInv.init (by dsimp only; omega)
    obtain ⟨free, h⟩ := FillInv.fillAll_inv _ hall hinit
    rw [List.nil_append] at h
    refine validList_of_fillInv (fun p => ?_) h
    simp only [InSeg]
    rw [Nat.mul_succ] at hchunk ⊢
    omega

theorem buildValidList_newest_wins_overlap :
    0 < 8 ∧ 8 * (0 + 1) < 2 ^ 64 ∧ 0 < 5 ∧ 5 < 2 ^ 64 ∧
      (∀ info ∈ ([⟨1, 0, 0, 4, 4, false⟩, ⟨2, 0, 2, 4, 4, false⟩] : S3ChunkInfoList),
        0 < info.len ∧ info.offset + info.len < 2 ^ 64) ∧
      ValidList [⟨1, 0, 0, 4, 4, false⟩, ⟨2, 0, 2, 4, 4, false⟩]
        (fun p => 8 * 0 ≤ p ∧ p < 8 * (0 + 1) ∧ p < 5)
        (buildValidList [⟨1, 0, 0, 4, 4, false⟩, ⟨2, 0, 2, 4, 4, false⟩] 5 0 8) :=
  ⟨by decide, by decide, by decide, by decide, by decide,
    buildValidList_newest_wins _ 5 0 8 (by decide) (by decide) (by decide) (by decide)
      (by decide)⟩

/-- Two overlapping infos in a file of five bytes: the newer one wins from byte 2 on, and the
window stops at the file's last byte. -/
example : buildValidList [⟨1, 0, 0, 4, 4, false⟩, ⟨2, 0, 2, 4, 4, false⟩] 5 0 8 =
    [⟨0, 1, 1, 0, 0, 4, false⟩, ⟨2, 4, 2, 0, 2, 4, false⟩] := by
  decide

/-- An empty file: `inodeLen - 1` wraps to the largest 64-bit value, so `BuildValidList` keeps
the whole chunk, as for a file that fills it. -/
theorem buildValidList_of_empty_file (L : S3ChunkInfoList) (index chunkSize : Nat)
    (hcs : 0 < chunkSize) (hov : chunkSize * (index + 1) < 2 ^ 64) :
    buildValidList L 0 index chunkSize =
      buildValidList L (chunkSize * (index + 1)) index chunkSize := by
  have hpos : 1 ≤ chunkSize * (index + 1) := Nat.mul_pos hcs (Nat.succ_pos index)
  obtain ⟨hbegin, hend⟩ := chunkWindow_of_lt hcs hov
  unfold buildValidList
  rw [hbegin, hend, sub64_zero_one, sub64_of_le hpos hov, Nat.min_self,
    Nat.min_eq_left (by omega : chunkSize * (index + 1) - 1 ≤ 2 ^ 64 - 1)]
  have hle : chunkSize * index ≤ chunkSize * (index + 1) - 1 := by
    rw [Nat.mul_succ] at hpos ⊢
    omega
  rw [if_neg (by omega), if_neg (by omega)]

theorem buildValidList_of_empty_file_one_byte :
    0 < 4 ∧ 4 * (0 + 1) < 2 ^ 64 ∧
      buildValidList [⟨1, 0, 0, 1, 1, false⟩] 0 0 4 =
        buildValidList [⟨1, 0, 0, 1, 1, false⟩] (4 * (0 + 1)) 0 4 :=
  ⟨by decide, by decide, buildValidList_of_empty_file _ 0 4 (by decide) (by decide)⟩

/-- For an empty file, a byte of data in the chunk still comes back as a node. -/
example : buildValidList [⟨1, 0, 0, 1, 1, false⟩] 0 0 4 = [⟨0, 0, 1, 0, 0, 1, false⟩] := by
  decide

end ValidList

/-! ## A zero node before a hole -/

/-- Blocks of 4 bytes in chunks of 8. -/
def zeroHoleCtx : S3CompactCtx := ⟨1, 1, 4, 8⟩

/-- Byte 0 of the chunk written as zeros, byte 2 written with data, byte 1 never written. -/
def zeroHoleList : S3ChunkInfoList :=
  [⟨0, 0, 0, 1, 1, true⟩, ⟨1, 0, 2, 1, 1, false⟩]

/-- The object of the data info: byte 2 at the start of block 0, as the client writes it. -/
def zeroHoleStore : ObjectStore :=
  (∅ : ObjectStore).insert (genObjName 1 0 0 1 1) [7]

theorem compactChunk_shifts_data_after_zero_hole :
    (compactChunk zeroHoleCtx (fun _ => true) zeroHoleStore 0 8 zeroHoleList).s3ChunkInfoAdd =
        some [⟨1, 1, 0, 2, 2, false⟩] ∧
      logicalByte zeroHoleCtx zeroHoleStore zeroHoleList 1 = some 0 ∧
      logicalByte zeroHoleCtx
        (compactChunk zeroHoleCtx (fun _ => true) zeroHoleStore 0 8 zeroHoleList).store
        [⟨1, 1, 0, 2, 2, false⟩] 1 = some 7 ∧
      logicalByte zeroHoleCtx zeroHoleStore zeroHoleList 2 = some 7 ∧
      logicalByte zeroHoleCtx
        (compactChunk zeroHoleCtx (fun _ => true) zeroHoleStore 0 8 zeroHoleList).store
        [⟨1, 1, 0, 2, 2, false⟩] 2 = some 0 := by
  decide

end DingoFs.Metaserver
