import DingoFs.Lib.Blocks
import Mathlib.Data.List.AList

/-!
# S3 objects of file data

A chunk's data lives in objects of at most one block each, named by a `BlockKey`: the fs, the
inode, the chunk id, the block index within the chunk and the compaction version.
`BlockKey::StoreKey` prints the five numbers into a path, so distinct keys name distinct
objects, and an object store is a map from block keys to byte strings.

Data written from chunk position `c` is laid out one object per block of the chunk it
touches, the object of block `k` holding the bytes of `[c, c + len)` in that block: byte `q`
sits in the object of block `q / blockSize` at `q` less the later of `c` and the block's
start (`layout`).
-/

namespace DingoFs.Common

open DingoFs.Lib

/-- `BlockKey`: `(fs_id, ino, id, index, version)`. -/
structure BlockKey where
  fsId : Nat
  ino : Nat
  id : Nat
  index : Nat
  version : Nat
deriving DecidableEq, Repr

/-- The objects of an object store, by key. -/
abbrev ObjectStore := AList (fun _ : BlockKey => List UInt8)

/-- `s3util::GenObjName`: the object of block `index` of chunk `chunkid` at compaction
`compaction`. The object prefix does not enter the name. -/
def genObjName (chunkid index compaction fsid inodeid : Nat) : BlockKey :=
  ⟨fsid, inodeid, chunkid, index, compaction⟩

/-- `std::string::substr(pos, count)`; `none` where it throws, a `pos` beyond the end. -/
def substr (s : List UInt8) (pos count : Nat) : Option (List UInt8) :=
  if pos > s.length then none else some ((s.drop pos).take count)

/-- A range read of `len` bytes at `pos` of an object; it fails where the range passes the
object's end. -/
def readRange (obj : List UInt8) (pos len : Nat) : Option (List UInt8) :=
  if pos + len ≤ obj.length then some ((obj.drop pos).take len) else none

/-- The objects of data `d` written from chunk position `c` in blocks of `bs` bytes: for each
block the bytes touch, its index in the chunk and the bytes in it. -/
def layout (bs c : Nat) (d : List UInt8) : List (Nat × List UInt8) :=
  (blocksOf bs c (c + d.length)).map fun k => (k, blockSlice bs c c (c + d.length) d k)

/-- The store holds the objects of data `d` written from chunk position `c`, the object of
block `k` under `key k`. -/
def HoldsLayout (store : ObjectStore) (key : Nat → BlockKey) (bs c : Nat) (d : List UInt8) :
    Prop :=
  ∀ k ∈ blocksOf bs c (c + d.length),
    store.lookup (key k) = some (blockSlice bs c c (c + d.length) d k)

/-- Byte `q` of the written range sits in the object of block `q / bs` at `q` less the later
of `c` and the block's start. -/
theorem mem_layout_getElem? {bs c q : Nat} (hbs : 0 < bs) (d : List UInt8) (hc : c ≤ q)
    (hq : q < c + d.length) :
    (q / bs, blockSlice bs c c (c + d.length) d (q / bs)) ∈ layout bs c d ∧
      (blockSlice bs c c (c + d.length) d (q / bs))[q - max c (q / bs * bs)]? = d[q - c]? :=
  ⟨List.mem_map_of_mem (div_mem_blocksOf hc hq), getElem?_blockSlice hbs d le_rfl hc hq⟩

/-- A store that holds each object of the layout under its key holds the layout. -/
theorem holdsLayout_of_lookup {store : ObjectStore} {key : Nat → BlockKey} {bs c : Nat}
    {d : List UInt8} (h : ∀ o ∈ layout bs c d, store.lookup (key o.1) = some o.2) :
    HoldsLayout store key bs c d :=
  fun _ hk => h _ (List.mem_map_of_mem hk)

/-- The layout in file offsets, for data written from file offset `a` within one chunk: byte
`p` sits in the object of block `(p mod cs) / bs` of the chunk, at `p` less the later of `a`
and the block's start in the file. -/
theorem holdsLayout_getElem? {store : ObjectStore} {key : Nat → BlockKey} {bs cs a p : Nat}
    {d : List UInt8} (hbs : 0 < bs) (hstore : HoldsLayout store key bs (a % cs) d)
    (hin : a % cs + d.length ≤ cs) (ha : a ≤ p) (hp : p < a + d.length) :
    (store.lookup (key (p % cs / bs))).bind (·[p - max a (p / cs * cs + p % cs / bs * bs)]?) =
      d[p - a]? := by
  have hchunk := div_eq_of_mod_add_le hin ha hp
  have ha' := Nat.mod_add_div' a cs
  have hp' := Nat.mod_add_div' p cs
  rw [hchunk] at hp' ⊢
  -- in the chunk, `p` is at `p % cs` and the data starts at `a % cs`
  have hcq : a % cs ≤ p % cs := by omega
  have hq : p % cs < a % cs + d.length := by omega
  rw [hstore _ (div_mem_blocksOf hcq hq), Option.bind_some,
    show p - max a (a / cs * cs + p % cs / bs * bs) = p % cs - max (a % cs) (p % cs / bs * bs)
      by omega,
    show p - a = p % cs - a % cs by omega]
  exact getElem?_blockSlice hbs d le_rfl hcq hq

/-- Where a range read stays inside the object, `substr` returns the same bytes. -/
theorem substr_of_readRange {obj x : List UInt8} {pos len : Nat}
    (h : readRange obj pos len = some x) : substr obj pos len = some x := by
  unfold readRange at h
  split_ifs at h with hin
  unfold substr
  rw [if_neg (by omega)]
  exact h

/-- A read of a sub-range `[lo, hi)` from the object of block `k` of data written from `c`: it
starts at the sub-range's start within the object, stays inside it, and returns the block's
slice of the sub-range. -/
theorem readRange_blockSlice {bs c lo hi : Nat} (d : List UInt8) (k : Nat) (hc : c ≤ lo)
    (hhi : hi ≤ c + d.length) (hne : max lo (k * bs) ≤ min hi ((k + 1) * bs)) :
    readRange (blockSlice bs c c (c + d.length) d k) (max lo (k * bs) - max c (k * bs))
        (min hi ((k + 1) * bs) - max lo (k * bs)) =
      some (blockSlice bs c lo hi d k) := by
  unfold readRange
  rw [if_pos (by rw [length_blockSlice d k le_rfl le_rfl]; omega),
    blockSlice_sub d k le_rfl hc hhi]

end DingoFs.Common
