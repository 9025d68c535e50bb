import DingoFs.Lib.OrderedSet
import DingoFs.Metaserver.Messages
import DingoFs.Metaserver.Storage.Converter
import Mathlib.Data.List.AList
import Mathlib.Data.List.Sort

/-!
# Dentry storage: `DentryStorage` and the rename transactions of `TxManager`

A directory entry is stored under its key (fs id, parent inode, name) as a `DentryVec`: the
versions of that name, each tagged with the txid of the transaction that wrote it. A read at
txid `T` puts the versions with txid at most `T` into a `BTree` ordered by the dentry
`operator<` and answers with the last one, unless it carries the delete mark. `Insert` and
`Delete` first `Find` with compression, which drops from the vector the older of two visible
versions and a delete-marked newest one. A rename prepares new versions on each partition it
touches (`HandleTx PREPARE`); the next rename on the partition commits (compresses) or rolls
back (removes) them.

The table is a key-value table of the storage; each of its calls whose status the code checks
may fail, and which ones do is an argument (`KVCall → Bool`).
-/

namespace DingoFs.Metaserver

open DingoFs.Lib

/-- The bits of `Dentry.flag` (`DentryFlag`). -/
structure DentryFlag where
  typeFile : Bool
  deleteMark : Bool
  transactionPrepare : Bool
deriving DecidableEq, Repr

/-- `Dentry`, with the fields the storage and the transaction manager read. -/
structure Dentry where
  fsid : Nat
  inodeid : Nat
  parentinodeid : Nat
  name : String
  txid : Nat
  flag : DentryFlag
  txsequence : Nat
deriving DecidableEq, Repr

/-- `Key4Dentry`. -/
structure Key4Dentry where
  fsId : Nat
  parentInodeId : Nat
  name : String
deriving DecidableEq, Repr

/-- `DentryStorage::DentryKey`. -/
def dentryKey (dentry : Dentry) : Key4Dentry :=
  ⟨dentry.fsid, dentry.parentinodeid, dentry.name⟩

namespace Dentry

/-- `operator==` on dentries: `txsequence` is not compared. -/
def equal (lhs rhs : Dentry) : Bool :=
  lhs.fsid == rhs.fsid && lhs.parentinodeid == rhs.parentinodeid && lhs.name == rhs.name &&
    lhs.txid == rhs.txid && lhs.inodeid == rhs.inodeid && lhs.flag == rhs.flag

/-- `operator<` on dentries: lexicographic on fs id, parent inode, name and txid. -/
def less (lhs rhs : Dentry) : Bool :=
  lhs.fsid < rhs.fsid ||
    (lhs.fsid == rhs.fsid && lhs.parentinodeid < rhs.parentinodeid) ||
    (lhs.fsid == rhs.fsid && lhs.parentinodeid == rhs.parentinodeid && lhs.name < rhs.name) ||
    (lhs.fsid == rhs.fsid && lhs.parentinodeid == rhs.parentinodeid &&
      lhs.name == rhs.name && lhs.txid < rhs.txid)

end Dentry

/-- `BelongSomeOne`: two dentries give the same name to the same inode. -/
def belongSomeOne (lhs rhs : Dentry) : Bool :=
  lhs.fsid == rhs.fsid && lhs.parentinodeid == rhs.parentinodeid && lhs.name == rhs.name &&
    lhs.inodeid == rhs.inodeid

/-- `HasDeleteMarkFlag`. -/
def hasDeleteMarkFlag (dentry : Dentry) : Bool := dentry.flag.deleteMark

/-- `DentryVector`: a key's `DentryVec`, with the adds and deletes not yet confirmed into the
storage's dentry count. -/
structure DentryVector where
  vec : List Dentry
  nPendingAdd : Nat
  nPendingDel : Nat

namespace DentryVector

/-- The constructor `DentryVector(vec)`: no pending adds or deletes. -/
def ofVec (vec : List Dentry) : DentryVector := ⟨vec, 0, 0⟩

/-- `DentryVector::Insert`: append, unless an equal dentry is there. -/
def insert (v : DentryVector) (dentry : Dentry) : DentryVector :=
  if v.vec.any (·.equal dentry) then v
  else { v with vec := v.vec ++ [dentry], nPendingAdd := v.nPendingAdd + 1 }

/-- `DentryVector::Delete`: remove the first equal dentry, if any. -/
def delete (v : DentryVector) (dentry : Dentry) : DentryVector :=
  if v.vec.any (·.equal dentry) then
    { v with vec := v.vec.eraseP (·.equal dentry), nPendingDel := v.nPendingDel + 1 }
  else v

/-- `DentryVector::Filter` into an empty `BTree`: the versions with txid at most `maxTxId`,
inserted in vector order into an ordered set under `operator<`. -/
def filter (v : DentryVector) (maxTxId : Nat) : List Dentry :=
  v.vec.foldl (fun btree dentry =>
    if dentry.txid ≤ maxTxId then orderedSetInsert Dentry.less dentry btree else btree) []

/-- `DentryVector::Confirm`: the dentry count after the pending adds and deletes; more
deletes than the count allows reset it to zero. -/
def confirm (v : DentryVector) (count : Nat) : Nat :=
  if v.nPendingDel > count + v.nPendingAdd then 0 else count + v.nPendingAdd - v.nPendingDel

end DentryVector

/-- The calls of the key-value storage on the dentry table whose status the code checks. -/
inductive KVCall
  | sGet
  | sSet
  | sDel
deriving DecidableEq, Repr

/-- Every storage call succeeds. -/
def allSucceed : KVCall → Bool := fun _ => true

/-- `DentryStorage`: the dentry table and the dentry count `nDentry_`. -/
structure DentryStorage where
  table4Dentry : AList (fun _ : Key4Dentry => List Dentry)
  nDentry : Nat

/-- `DentryStorage::TX_OP_TYPE`. -/
inductive TxOpType
  | PREPARE
  | COMMIT
  | ROLLBACK
deriving DecidableEq, Repr

namespace DentryStorage

/-- A storage with an empty dentry table. -/
def empty : DentryStorage := ⟨∅, 0⟩

/-- `SSet` of a key's vector, then `Confirm` of its pending counts; `none` when the call
fails. -/
def sSet (s : DentryStorage) (ok : KVCall → Bool) (skey : Key4Dentry) (vector : DentryVector) :
    Option DentryStorage :=
  if ok .sSet then some ⟨s.table4Dentry.insert skey vector.vec, vector.confirm s.nDentry⟩
  else none

/-- A key's vector stored back after deletes: `SDel` of the key once the vector is empty,
`SSet` otherwise. -/
def writeBack (s : DentryStorage) (ok : KVCall → Bool) (skey : Key4Dentry)
    (vector : DentryVector) : Option DentryStorage :=
  if vector.vec = [] then
    if ok .sDel then some ⟨s.table4Dentry.erase skey, vector.confirm s.nDentry⟩ else none
  else s.sSet ok skey vector

/-- `DentryStorage::CompressDentry` on the versions `dentrys` a `Find` sees: drop the older of
two and a delete-marked newest one, then store the vector back under the key of the first.
Returns the storage, whether the write succeeded, and the vector as the caller holds it. -/
def compressDentry (s : DentryStorage) (ok : KVCall → Bool) (vec : List Dentry) :
    List Dentry → DentryStorage × Bool × List Dentry
  -- `Find` calls it on one or two versions only
  | [] => (s, true, vec)
  | first :: more =>
    let last := (first :: more).getLast (List.cons_ne_nil first more)
    let deleted := (if more.length + 1 = 2 then [first] else []) ++
      (if hasDeleteMarkFlag last then [last] else [])
    let vector := deleted.foldl DentryVector.delete (DentryVector.ofVec vec)
    match s.writeBack ok (dentryKey first) vector with
    | some s' => (s', true, vector.vec)
    | none => (s, false, vector.vec)

/-- `DentryStorage::Find` at the txid of `din`: the storage, the status, the newest visible
version when it is live, and the key's vector as `Find` leaves it. -/
def find (s : DentryStorage) (ok : KVCall → Bool) (din : Dentry) (compress : Bool) :
    DentryStorage × MetaStatusCode × Option Dentry × List Dentry :=
  if !ok .sGet then (s, .STORAGE_INTERNAL_ERROR, none, [])
  else
    match s.table4Dentry.lookup (dentryKey din) with
    | none => (s, .NOT_FOUND, none, [])
    | some vec =>
      let dentrys := (DentryVector.ofVec vec).filter din.txid
      -- "There are more than 2 dentrys"
      if dentrys.length > 2 then (s, .NOT_FOUND, none, vec)
      else
        match dentrys.getLast? with
        | none => (s, .NOT_FOUND, none, vec)
        | some last =>
          let rc : MetaStatusCode := if hasDeleteMarkFlag last then .NOT_FOUND else .OK
          let out := if hasDeleteMarkFlag last then none else some last
          if compress then
            match s.compressDentry ok vec dentrys with
            | (s', true, vec') => (s', rc, out, vec')
            | (s', false, vec') => (s', .STORAGE_INTERNAL_ERROR, out, vec')
          else (s, rc, out, vec)

/-- `DentryStorage::Insert(dentry)`, at the txid of `dentry`. `Find` reports `OK` only with
the dentry it found. -/
def insert (s : DentryStorage) (ok : KVCall → Bool) (dentry : Dentry) :
    DentryStorage × MetaStatusCode :=
  match s.find ok dentry true with
  | (s', .OK, some out, _) =>
    (s', if belongSomeOne out dentry then .IDEMPOTENCE_OK else .DENTRY_EXIST)
  | (s', .NOT_FOUND, _, vec) =>
    match s'.sSet ok (dentryKey dentry) ((DentryVector.ofVec vec).insert dentry) with
    | some s'' => (s'', .OK)
    | none => (s', .STORAGE_INTERNAL_ERROR)
  | (s', _, _, _) => (s', .STORAGE_INTERNAL_ERROR)

/-- `DentryStorage::Delete(dentry)`, at the txid of `dentry`. -/
def delete (s : DentryStorage) (ok : KVCall → Bool) (dentry : Dentry) :
    DentryStorage × MetaStatusCode :=
  match s.find ok dentry true with
  | (s', .NOT_FOUND, _, _) => (s', .NOT_FOUND)
  | (s', .OK, some out, vec) =>
    match s'.writeBack ok (dentryKey dentry) ((DentryVector.ofVec vec).delete out) with
    | some s'' => (s'', .OK)
    | none => (s', .STORAGE_INTERNAL_ERROR)
  | (s', _, _, _) => (s', .STORAGE_INTERNAL_ERROR)

/-- `DentryStorage::Get(dentry)`: the status and the dentry argument as the call leaves it. -/
def get (s : DentryStorage) (ok : KVCall → Bool) (dentry : Dentry) : MetaStatusCode × Dentry :=
  match s.find ok dentry false with
  | (_, .NOT_FOUND, _, _) => (.NOT_FOUND, dentry)
  | (_, .OK, some out, _) => (.OK, out)
  | _ => (.STORAGE_INTERNAL_ERROR, dentry)

/-- `DentryStorage::HandleTx`. A key that `SGet` does not find reads as an empty vector. -/
def handleTx (s : DentryStorage) (ok : KVCall → Bool) (type : TxOpType) (dentry : Dentry) :
    DentryStorage × MetaStatusCode :=
  let skey := dentryKey dentry
  match type with
  | .PREPARE =>
    if !ok .sGet then (s, .STORAGE_INTERNAL_ERROR)
    else
      let vector := (DentryVector.ofVec ((s.table4Dentry.lookup skey).getD [])).insert dentry
      match s.sSet ok skey vector with
      | some s' => (s', .OK)
      | none => (s, .STORAGE_INTERNAL_ERROR)
  | .COMMIT =>
    match s.find ok dentry true with
    | (s', rc, _, _) => (s', if rc = .OK ∨ rc = .NOT_FOUND then .OK else rc)
  | .ROLLBACK =>
    if !ok .sGet then (s, .STORAGE_INTERNAL_ERROR)
    else
      let vector := (DentryVector.ofVec ((s.table4Dentry.lookup skey).getD [])).delete dentry
      match s.writeBack ok skey vector with
      | some s' => (s', .OK)
      | none => (s, .STORAGE_INTERNAL_ERROR)

end DentryStorage

/-! ## Listing a directory

`List` seeks the ordered table to the key of the start name and walks the keys in order while
they start with the directory's prefix, pushing for each the newest version visible at the
listing's txid. -/

/-- `Key4Dentry::SerializeToString`: `kTypeDentry:fsId:parentInodeId:name`, with
`kTypeDentry = 3`. -/
def Key4Dentry.serializeToString (k : Key4Dentry) : String :=
  s!"3:{k.fsId}:{k.parentInodeId}:{k.name}"

/-- `Prefix4SameParentDentry::SerializeToString`. -/
def prefix4SameParentDentry (fsId parentInodeId : Nat) : String :=
  s!"3:{fsId}:{parentInodeId}:"

/-- `DentryList` with `onlyDir` false: the output vector, the count `size_`, and the listing's
`limit_`, `exclude_` and `maxTxId_`. -/
structure DentryList where
  list : List Dentry
  size : Nat
  limit : Nat
  exclude : String
  maxTxId : Nat

namespace DentryList

/-- `DentryList::IsFull`. -/
def isFull (l : DentryList) : Bool := l.limit != 0 && l.size ≥ l.limit

/-- `DentryList::PushBack`: the newest version visible at `maxTxId_`, unless the list is full,
no version is visible, the newest is delete-marked, or it has the excluded name. -/
def pushBack (l : DentryList) (vec : List Dentry) : DentryList :=
  let dentrys := (DentryVector.ofVec vec).filter l.maxTxId
  if l.isFull then l
  else
    match dentrys.getLast? with
    | none => l
    | some last =>
      if hasDeleteMarkFlag last then l
      else if last.name = l.exclude then l
      else { l with size := l.size + 1, list := l.list ++ [last] }

end DentryList

namespace DentryStorage

/-- `SSeek(table4Dentry_, lower)` on the ordered table, then `SeekToFirst`: the entries from
the first key not below `lower`, in the order of the serialized keys. -/
def sSeek (s : DentryStorage) (lower : String) : List (Key4Dentry × List Dentry) :=
  ((s.table4Dentry.entries.map fun e => (e.1, e.2)).insertionSort
      (fun a b => a.1.serializeToString ≤ b.1.serializeToString)).dropWhile
    (fun e => decide (e.1.serializeToString < lower))

/-- The loop of `List`: it stops at the first key without the directory's prefix, and once the
list is full. -/
def listLoop ( sprefix : String) : DentryList → List (Key4Dentry × List Dentry) → DentryList
  | l, [] => l
  | l, (skey, current) :: rest =>
    if !stringStartWith skey.serializeToString sprefix then l
    else
      let l := l.pushBack current
      if l.isFull then l else listLoop sprefix l rest

/-- `DentryStorage::List(dentry, &dentrys, limit, onlyDir = false)`, the iterator not failing:
the status and the output vector. -/
def list (s : DentryStorage) (dentry : Dentry) (dentrys : List Dentry) (limit : Nat) :
    MetaStatusCode × List Dentry :=
  if dentrys.length > 0 then (.PARAM_ERROR, dentrys)
  else
    let sprefix := prefix4SameParentDentry dentry.fsid dentry.parentinodeid
    let lower := (Key4Dentry.mk dentry.fsid dentry.parentinodeid dentry.name).serializeToString
    (.OK, (listLoop sprefix ⟨dentrys, 0, limit, dentry.name, dentry.txid⟩ (s.sSeek lower)).list)

end DentryStorage

/-! ## The versioned map a dentry table stands for -/

/-- The versions of a key a read at txid `T` sees. -/
def visibleVersions (vec : List Dentry) (T : Nat) : List Dentry :=
  vec.filter (·.txid ≤ T)

/-- The versioned-map reading of a key's versions at txid `T`: the newest version with txid at
most `T`, hidden when it carries the delete mark. -/
def versionView (vec : List Dentry) (T : Nat) : Option Dentry :=
  ((visibleVersions vec T).argmax (·.txid)).filter (!hasDeleteMarkFlag ·)

namespace DentryStorage

/-- A key's stored vector, empty when the key is absent. -/
def vecOf (s : DentryStorage) (k : Key4Dentry) : List Dentry :=
  (s.table4Dentry.lookup k).getD []

/-- The versioned map the table stands for. -/
def view (s : DentryStorage) (k : Key4Dentry) (T : Nat) : Option Dentry :=
  versionView (s.vecOf k) T

end DentryStorage

/-! ## Reading a vector

Within one key, `operator<` orders versions by txid, so the `BTree` of `Filter` is the
visible versions sorted by txid, and its last element is their `argmax`. -/

namespace Dentry

@[simp] theorem equal_self (x : Dentry) : x.equal x = true := by
  simp [equal]

theorem txid_eq_of_equal {x y : Dentry} (h : x.equal y = true) : x.txid = y.txid := by
  simp only [equal, Bool.and_eq_true, beq_iff_eq] at h
  exact h.1.1.2

/-- Between two versions of one key, `operator<` compares txids. -/
theorem less_of_dentryKey_eq {x y : Dentry} (h : dentryKey x = dentryKey y) :
    x.less y = decide (x.txid < y.txid) := by
  simp only [dentryKey, Key4Dentry.mk.injEq] at h
  obtain ⟨hfs, hpar, hname⟩ := h
  simp [less, hfs, hpar, hname]

end Dentry

namespace DentryVector

@[simp] theorem ofVec_vec (vec : List Dentry) : (ofVec vec).vec = vec := rfl

@[simp] theorem delete_vec (v : DentryVector) (x : Dentry) :
    (v.delete x).vec = v.vec.eraseP (·.equal x) := by
  unfold delete
  split_ifs with h
  · rfl
  · exact (List.eraseP_of_forall_not (by simpa using h)).symm

theorem foldl_delete_vec (xs : List Dentry) (v : DentryVector) :
    (xs.foldl delete v).vec = xs.foldl (fun l x => l.eraseP (·.equal x)) v.vec := by
  induction xs generalizing v with
  | nil => rfl
  | cons x xs ih => rw [List.foldl_cons, ih, delete_vec, List.foldl_cons]

/-- An insert at a txid that sees no version appends. -/
theorem insert_vec_of_visible_nil {v : DentryVector} {x : Dentry} {T : Nat} (hx : x.txid ≤ T)
    (h : visibleVersions v.vec T = []) : (v.insert x).vec = v.vec ++ [x] := by
  have hnone : ¬ (v.vec.any (·.equal x)) = true := by
    simp only [List.any_eq_true, not_exists, not_and]
    intro y hy hyx
    have hvis : y ∈ visibleVersions v.vec T :=
      List.mem_filter.mpr ⟨hy, by simpa [Dentry.txid_eq_of_equal hyx] using hx⟩
    simp [h] at hvis
  unfold insert
  rw [if_neg hnone]

/-- `Filter` of a vector of one key with distinct visible txids: the visible versions,
sorted by txid. -/
theorem filter_perm {vec : List Dentry} {k : Key4Dentry} {T : Nat}
    (hkey : ∀ d ∈ vec, dentryKey d = k)
    (hnodup : ((visibleVersions vec T).map (·.txid)).Nodup) :
    ((ofVec vec).filter T).Perm (visibleVersions vec T) ∧
      ((ofVec vec).filter T).Pairwise (fun x y => x.txid < y.txid) := by
  have hlt : ∀ x y, dentryKey x = k → dentryKey y = k →
      Dentry.less x y = decide (x.txid < y.txid) :=
    fun x y hx hy => Dentry.less_of_dentryKey_eq (hx.trans hy.symm)
  have hP : ∀ x ∈ [] ++ visibleVersions vec T, dentryKey x = k :=
    fun x hx => hkey x (List.mem_filter.mp hx).1
  exact foldl_orderedSetInsert hlt (fun d => d.txid ≤ T) vec [] hP hnodup List.Pairwise.nil

end DentryVector

theorem mem_visibleVersions {vec : List Dentry} {T : Nat} {x : Dentry} :
    x ∈ visibleVersions vec T ↔ x ∈ vec ∧ x.txid ≤ T := by
  simp [visibleVersions]

theorem visibleVersions_eraseP {vec : List Dentry} {T : Nat} {x : Dentry} (hx : x.txid ≤ T) :
    visibleVersions (vec.eraseP (·.equal x)) T =
      (visibleVersions vec T).eraseP (·.equal x) := by
  -- an equal version has `x`'s txid, so it is visible: erasing commutes with the filter
  have hp : (fun y : Dentry => y.equal x && decide (y.txid ≤ T)) = (fun y : Dentry => y.equal x) := by
    funext y
    cases hy : y.equal x
    · rfl
    · simp [Dentry.txid_eq_of_equal hy, hx]
  unfold visibleVersions
  rw [List.eraseP_filter, hp]

/-- Erasing a visible version from a vector whose visible versions have distinct txids. -/
theorem visibleVersions_eraseP_perm {vec l : List Dentry} {T : Nat} {x : Dentry}
    (hx : x.txid ≤ T) (hnodup : ((visibleVersions vec T).map (·.txid)).Nodup)
    (hperm : (visibleVersions vec T).Perm l) :
    (visibleVersions (vec.eraseP (·.equal x)) T).Perm (l.eraseP (·.equal x)) := by
  rw [visibleVersions_eraseP hx]
  refine hperm.eraseP _ ?_
  refine (List.pairwise_map.mp hnodup).imp fun {a b} hab ha hb => hab ?_
  rw [Dentry.txid_eq_of_equal ha, Dentry.txid_eq_of_equal hb]

theorem visibleVersions_append_of_le {vec : List Dentry} {T : Nat} {x : Dentry}
    (hx : x.txid ≤ T) : visibleVersions (vec ++ [x]) T = visibleVersions vec T ++ [x] := by
  simp [visibleVersions, List.filter_append, hx]

/-- A vector as `Find` reads it right at txid `T`: every version is stored under the key, and
at most two versions are visible, with distinct txids. -/
structure Readable (k : Key4Dentry) (vec : List Dentry) (T : Nat) : Prop where
  key_eq : ∀ d ∈ vec, dentryKey d = k
  txid_nodup : ((visibleVersions vec T).map (·.txid)).Nodup
  length_le : (visibleVersions vec T).length ≤ 2

instance (k : Key4Dentry) (vec : List Dentry) (T : Nat) : Decidable (Readable k vec T) :=
  decidable_of_iff ((∀ d ∈ vec, dentryKey d = k) ∧
      ((visibleVersions vec T).map (·.txid)).Nodup ∧ (visibleVersions vec T).length ≤ 2)
    ⟨fun ⟨h₁, h₂, h₃⟩ => ⟨h₁, h₂, h₃⟩, fun h => ⟨h.key_eq, h.txid_nodup, h.length_le⟩⟩

/-- A vector that shows at most the one version `o` is read right. -/
theorem Readable.of_visible_perm {k : Key4Dentry} {vec : List Dentry} {T : Nat}
    (o : Option Dentry) (hkey : ∀ d ∈ vec, dentryKey d = k)
    (h : (visibleVersions vec T).Perm o.toList) : Readable k vec T where
  key_eq := hkey
  txid_nodup := (h.map _).nodup_iff.mpr (by cases o <;> simp)
  length_le := by rw [h.length_eq]; cases o <;> simp

/-- On a readable vector, the versioned map is what the last element of the `BTree` shows. -/
theorem versionView_eq_filter_getLast? {k : Key4Dentry} {vec : List Dentry} {T : Nat}
    (h : Readable k vec T) :
    versionView vec T =
      (((DentryVector.ofVec vec).filter T).getLast?).filter (!hasDeleteMarkFlag ·) := by
  obtain ⟨hperm, hsorted⟩ := DentryVector.filter_perm h.key_eq h.txid_nodup
  unfold versionView
  rw [argmax_eq_getLast? hperm hsorted h.txid_nodup]

theorem versionView_of_visible_eq_singleton {vec : List Dentry} {T : Nat} {x : Dentry}
    (h : visibleVersions vec T = [x]) :
    versionView vec T = if hasDeleteMarkFlag x then none else some x := by
  unfold versionView
  rw [h, List.argmax_singleton]
  cases hx : hasDeleteMarkFlag x <;> simp [Option.filter, hx]

@[simp] theorem versionView_nil (T : Nat) : versionView [] T = none := rfl

theorem versionView_of_visible_eq_nil {vec : List Dentry} {T : Nat}
    (h : visibleVersions vec T = []) : versionView vec T = none := by
  unfold versionView
  rw [h]
  rfl

/-! ## The storage calls, every one succeeding -/

/-- The status of a read that sees `o`. -/
def findStatus : Option Dentry → MetaStatusCode
  | some _ => .OK
  | none => .NOT_FOUND

/-- The status `Insert(d)` answers when the name shows `o` at `d`'s txid. -/
def insertStatus (d : Dentry) : Option Dentry → MetaStatusCode
  | some v => if belongSomeOne v d then .IDEMPOTENCE_OK else .DENTRY_EXIST
  | none => .OK

namespace DentryStorage

/-- `s'` is `s` with the vector of key `k` replaced by `vec`. -/
structure StoresAt (s s' : DentryStorage) (k : Key4Dentry) (vec : List Dentry) : Prop where
  vecOf_eq : s'.vecOf k = vec
  lookup_ne : ∀ k', k' ≠ k → s'.table4Dentry.lookup k' = s.table4Dentry.lookup k'

theorem StoresAt.refl (s : DentryStorage) (k : Key4Dentry) : StoresAt s s k (s.vecOf k) :=
  ⟨rfl, fun _ _ => rfl⟩

theorem StoresAt.trans {s s' s'' : DentryStorage} {k : Key4Dentry} {vec vec' : List Dentry}
    (h₁ : StoresAt s s' k vec) (h₂ : StoresAt s' s'' k vec') : StoresAt s s'' k vec' :=
  ⟨h₂.vecOf_eq, fun k' hk => (h₂.lookup_ne k' hk).trans (h₁.lookup_ne k' hk)⟩

theorem sSet_allSucceed (s : DentryStorage) (k : Key4Dentry) (v : DentryVector) :
    ∃ s', s.sSet allSucceed k v = some s' ∧ StoresAt s s' k v.vec := by
  refine ⟨_, rfl, ?_, ?_⟩
  · simp [vecOf]
  · intro k' hk
    exact AList.lookup_insert_ne hk

theorem writeBack_allSucceed (s : DentryStorage) (k : Key4Dentry) (v : DentryVector) :
    ∃ s', s.writeBack allSucceed k v = some s' ∧ StoresAt s s' k v.vec := by
  unfold writeBack
  by_cases hnil : v.vec = []
  · rw [if_pos hnil]
    refine ⟨_, rfl, ?_, ?_⟩
    · simp [vecOf, hnil]
    · intro k' hk
      exact AList.lookup_erase_ne hk
  · rw [if_neg hnil]
    exact sSet_allSucceed s k v

end DentryStorage

/-- The versions `CompressDentry` deletes from the `BTree` `first :: more`: the older of two,
and the newest when it carries the delete mark. -/
def compressDeleted (first : Dentry) (more : List Dentry) : List Dentry :=
  (if more.length + 1 = 2 then [first] else []) ++
    (if hasDeleteMarkFlag ((first :: more).getLast (List.cons_ne_nil first more))
      then [(first :: more).getLast (List.cons_ne_nil first more)] else [])

theorem mem_of_mem_compressDeleted {first x : Dentry} {more : List Dentry}
    (hx : x ∈ compressDeleted first more) : x ∈ first :: more := by
  unfold compressDeleted at hx
  rcases List.mem_append.mp hx with hx | hx
  · split_ifs at hx
    · rw [List.mem_singleton.mp hx]
      exact List.mem_cons_self
    · cases hx
  · split_ifs at hx
    · rw [List.mem_singleton.mp hx]
      exact List.getLast_mem _
    · cases hx

/-- Deleting versions one by one keeps a sublist of the vector. -/
theorem foldl_eraseP_sublist (xs vec : List Dentry) :
    (xs.foldl (fun l x => l.eraseP (·.equal x)) vec).Sublist vec := by
  induction xs generalizing vec with
  | nil => exact List.Sublist.refl vec
  | cons y ys ih => exact (ih _).trans List.eraseP_sublist

/-- What `CompressDentry` of the sorted visible versions `first :: more` of a readable vector
leaves visible at the same txid: only what the versioned map shows. The cases follow the size
of the `BTree`, one or two. -/
theorem visibleVersions_compress {k : Key4Dentry} {vec : List Dentry} {T : Nat}
    (h : Readable k vec T) {first : Dentry} {more : List Dentry}
    (hperm : (first :: more).Perm (visibleVersions vec T))
    (hs : (first :: more).Pairwise (fun x y => x.txid < y.txid)) :
    (visibleVersions ((compressDeleted first more).foldl (fun l x => l.eraseP (·.equal x)) vec)
      T).Perm (((first :: more).getLast?).filter (!hasDeleteMarkFlag ·)).toList := by
  have hbt : ∀ x ∈ first :: more, x.txid ≤ T := fun x hx =>
    (mem_visibleVersions.mp (hperm.subset hx)).2
  have hlen : more.length + 1 ≤ 2 := by
    have hl := h.length_le
    rw [← hperm.length_eq] at hl
    simpa using hl
  unfold compressDeleted
  match more, hperm, hs, hbt, hlen with
  | [], hperm, _, hbt, _ =>
    -- one visible version: it goes only if it carries the delete mark
    cases hm : hasDeleteMarkFlag first
    · simpa [hm, Option.filter] using hperm.symm
    · have := visibleVersions_eraseP_perm (hbt first List.mem_cons_self) h.txid_nodup
        hperm.symm
      simpa [hm, Option.filter] using this
  | [b], hperm, hs, hbt, _ =>
    -- two visible versions: the older goes, and the newer if it carries the delete mark
    have hab : first.txid < b.txid := List.rel_of_pairwise_cons hs List.mem_cons_self
    have hba : b.equal first = false := by
      cases hbf : b.equal first
      · rfl
      · exact absurd (Dentry.txid_eq_of_equal hbf) (Nat.ne_of_gt hab)
    have h₁ := visibleVersions_eraseP_perm (hbt first List.mem_cons_self) h.txid_nodup
      hperm.symm
    simp only [List.eraseP_cons, Dentry.equal_self, cond_true] at h₁
    cases hm : hasDeleteMarkFlag b
    · simpa [hm, Option.filter] using h₁
    · have h₂ := visibleVersions_eraseP_perm (hbt b (by simp))
        ((h₁.map _).nodup_iff.mpr (by simp)) h₁
      simpa [hm, Option.filter] using h₂

namespace DentryStorage

/-- `CompressDentry` of a nonempty `BTree`, by the versions it deletes. -/
theorem compressDentry_cons (s : DentryStorage) (ok : KVCall → Bool) (vec : List Dentry)
    (first : Dentry) (more : List Dentry) :
    s.compressDentry ok vec (first :: more) =
      match s.writeBack ok (dentryKey first)
          ((compressDeleted first more).foldl DentryVector.delete (DentryVector.ofVec vec)) with
      | some s' => (s', true,
          ((compressDeleted first more).foldl DentryVector.delete (DentryVector.ofVec vec)).vec)
      | none => (s, false,
          ((compressDeleted first more).foldl DentryVector.delete (DentryVector.ofVec vec)).vec) :=
  rfl

/-- `CompressDentry` on the sorted visible versions `bt` of a readable vector: the write
succeeds, and the vector it stores under the key shows only what the versioned map shows. -/
theorem compressDentry_of_readable {s : DentryStorage} {k : Key4Dentry}
    {vec bt : List Dentry} {T : Nat} (h : Readable k vec T) (hvec : s.vecOf k = vec)
    (hperm : bt.Perm (visibleVersions vec T)) (hs : bt.Pairwise (fun x y => x.txid < y.txid)) :
    ∃ s' vec', s.compressDentry allSucceed vec bt = (s', true, vec') ∧ StoresAt s s' k vec' ∧
      (visibleVersions vec' T).Perm ((bt.getLast?).filter (!hasDeleteMarkFlag ·)).toList ∧
      ∀ x ∈ vec', dentryKey x = k := by
  match bt, hperm, hs with
  | [], hperm, _ =>
    exact ⟨s, vec, rfl, hvec ▸ StoresAt.refl s k, by simpa using hperm.symm, h.key_eq⟩
  | first :: more, hperm, hs =>
    have hfirst : dentryKey first = k :=
      h.key_eq first (mem_visibleVersions.mp (hperm.subset List.mem_cons_self)).1
    obtain ⟨s', hw, hst⟩ := writeBack_allSucceed s (dentryKey first)
      ((compressDeleted first more).foldl DentryVector.delete (DentryVector.ofVec vec))
    refine ⟨s', _, by rw [compressDentry_cons, hw], hfirst ▸ hst, ?_, ?_⟩
    · rw [DentryVector.foldl_delete_vec, DentryVector.ofVec_vec]
      exact visibleVersions_compress h hperm hs
    · intro x hx
      rw [DentryVector.foldl_delete_vec, DentryVector.ofVec_vec] at hx
      exact h.key_eq x ((foldl_eraseP_sublist _ vec).subset hx)

/-- `Find` without compression on a readable vector answers the versioned map and changes
nothing. -/
theorem find_of_readable {s : DentryStorage} {d : Dentry}
    (h : Readable (dentryKey d) (s.vecOf (dentryKey d)) d.txid) :
    s.find allSucceed d false =
      (s, findStatus (s.view (dentryKey d) d.txid), s.view (dentryKey d) d.txid,
        s.vecOf (dentryKey d)) := by
  unfold view
  cases hl : s.table4Dentry.lookup (dentryKey d) with
  | none =>
    have hvec : s.vecOf (dentryKey d) = [] := by simp [vecOf, hl]
    simp [find, allSucceed, hl, hvec, findStatus]
  | some vec =>
    have hvec : s.vecOf (dentryKey d) = vec := by simp [vecOf, hl]
    rw [hvec] at h ⊢
    have hlen : ¬ ((DentryVector.ofVec vec).filter d.txid).length > 2 := by
      rw [(DentryVector.filter_perm h.key_eq h.txid_nodup).1.length_eq]
      exact not_lt.mpr h.length_le
    rw [versionView_eq_filter_getLast? h]
    cases hlast : ((DentryVector.ofVec vec).filter d.txid).getLast? with
    | none => simp [find, allSucceed, hl, hlen, hlast, findStatus]
    | some last =>
      cases hm : hasDeleteMarkFlag last <;>
        simp [find, allSucceed, hl, hlen, hlast, hm, findStatus, Option.filter]

/-- `Find` with compression on a readable vector answers the versioned map, and leaves under
the key a vector that shows only what the map shows. -/
theorem find_compress_of_readable {s : DentryStorage} {d : Dentry}
    (h : Readable (dentryKey d) (s.vecOf (dentryKey d)) d.txid) :
    ∃ s' vec', s.find allSucceed d true =
        (s', findStatus (s.view (dentryKey d) d.txid), s.view (dentryKey d) d.txid, vec') ∧
      StoresAt s s' (dentryKey d) vec' ∧
      (visibleVersions vec' d.txid).Perm (s.view (dentryKey d) d.txid).toList ∧
      ∀ x ∈ vec', dentryKey x = dentryKey d := by
  unfold view
  cases hl : s.table4Dentry.lookup (dentryKey d) with
  | none =>
    have hvec : s.vecOf (dentryKey d) = [] := by simp [vecOf, hl]
    refine ⟨s, [], ?_, hvec ▸ StoresAt.refl s _, ?_, by simp⟩
    · simp [find, allSucceed, hl, hvec, findStatus]
    · simp [hvec, visibleVersions]
  | some vec =>
    have hvec : s.vecOf (dentryKey d) = vec := by simp [vecOf, hl]
    rw [hvec] at h ⊢
    obtain ⟨hperm, hs⟩ := DentryVector.filter_perm h.key_eq h.txid_nodup
    have hlen : ¬ ((DentryVector.ofVec vec).filter d.txid).length > 2 := by
      rw [hperm.length_eq]
      exact not_lt.mpr h.length_le
    rw [versionView_eq_filter_getLast? h]
    cases hlast : ((DentryVector.ofVec vec).filter d.txid).getLast? with
    | none =>
      -- nothing visible: `Find` answers before compressing
      refine ⟨s, vec, ?_, hvec ▸ StoresAt.refl s _, ?_, h.key_eq⟩
      · simp [find, allSucceed, hl, hlen, hlast, findStatus]
      · rw [List.getLast?_eq_none_iff.mp hlast] at hperm
        simpa using hperm.symm
    | some last =>
      obtain ⟨s', vec', hc, hst, hvis, hkey⟩ := compressDentry_of_readable h hvec hperm hs
      rw [hlast] at hvis
      refine ⟨s', vec', ?_, hst, hvis, hkey⟩
      cases hm : hasDeleteMarkFlag last <;>
        simp [find, allSucceed, hl, hlen, hlast, hc, hm, findStatus, Option.filter]

/-- `Get` on a readable vector answers the versioned map. -/
theorem get_of_readable {s : DentryStorage} {d : Dentry}
    (h : Readable (dentryKey d) (s.vecOf (dentryKey d)) d.txid) :
    s.get allSucceed d = (s.view (dentryKey d) d.txid).elim (.NOT_FOUND, d) (.OK, ·) := by
  unfold get
  rw [find_of_readable h]
  cases s.view (dentryKey d) d.txid <;> rfl

/-- `Get` of a key whose vector shows exactly the versions `o`. -/
theorem get_of_visible_eq {s : DentryStorage} {q : Dentry} (o : Option Dentry)
    (hkey : ∀ x ∈ s.vecOf (dentryKey q), dentryKey x = dentryKey q)
    (hvis : visibleVersions (s.vecOf (dentryKey q)) q.txid = o.toList) :
    s.get allSucceed q = ((o.filter (!hasDeleteMarkFlag ·)).elim (.NOT_FOUND, q) (.OK, ·)) := by
  rw [get_of_readable (Readable.of_visible_perm o hkey (hvis ▸ List.Perm.refl _))]
  unfold view
  cases o with
  | none => rw [versionView_of_visible_eq_nil hvis]; rfl
  | some x =>
    rw [versionView_of_visible_eq_singleton hvis]
    cases hx : hasDeleteMarkFlag x <;> simp [Option.filter, hx]

/-- `Insert` on a readable vector answers as the versioned map says; when the name shows
nothing, the vector it leaves shows just the new dentry. -/
theorem insert_of_readable {s : DentryStorage} {d : Dentry}
    (h : Readable (dentryKey d) (s.vecOf (dentryKey d)) d.txid) :
    ∃ s' vec', s.insert allSucceed d = (s', insertStatus d (s.view (dentryKey d) d.txid)) ∧
      StoresAt s s' (dentryKey d) vec' ∧ (∀ x ∈ vec', dentryKey x = dentryKey d) ∧
      (s.view (dentryKey d) d.txid = none → visibleVersions vec' d.txid = [d]) := by
  obtain ⟨s₁, vec₁, hfind, hst₁, hvis₁, hkey₁⟩ := find_compress_of_readable h
  cases hv : s.view (dentryKey d) d.txid with
  | some v =>
    refine ⟨s₁, vec₁, ?_, hst₁, hkey₁, nofun⟩
    simp [insert, hfind, hv, findStatus, insertStatus]
  | none =>
    rw [hv] at hvis₁
    have hnil : visibleVersions vec₁ d.txid = [] := List.Perm.nil_eq hvis₁.symm |>.symm
    obtain ⟨s₂, hss, hst₂⟩ := sSet_allSucceed s₁ (dentryKey d)
      ((DentryVector.ofVec vec₁).insert d)
    rw [DentryVector.insert_vec_of_visible_nil (le_refl d.txid) hnil] at hst₂
    refine ⟨s₂, vec₁ ++ [d], ?_, hst₁.trans hst₂, ?_, ?_⟩
    · simp [insert, hfind, hv, findStatus, insertStatus, hss]
    · intro x hx
      rcases List.mem_append.mp hx with hx | hx
      · exact hkey₁ x hx
      · rw [List.mem_singleton.mp hx]
    · intro _
      rw [visibleVersions_append_of_le (le_refl d.txid), hnil, List.nil_append]

/-- `Delete` on a readable vector answers as the versioned map says; when the name shows a
dentry, the vector it leaves shows nothing. -/
theorem delete_of_readable {s : DentryStorage} {d : Dentry}
    (h : Readable (dentryKey d) (s.vecOf (dentryKey d)) d.txid) :
    ∃ s' vec', s.delete allSucceed d = (s', findStatus (s.view (dentryKey d) d.txid)) ∧
      StoresAt s s' (dentryKey d) vec' ∧ (∀ x ∈ vec', dentryKey x = dentryKey d) ∧
      (s.view (dentryKey d) d.txid ≠ none → visibleVersions vec' d.txid = []) := by
  obtain ⟨s₁, vec₁, hfind, hst₁, hvis₁, hkey₁⟩ := find_compress_of_readable h
  cases hv : s.view (dentryKey d) d.txid with
  | none =>
    refine ⟨s₁, vec₁, ?_, hst₁, hkey₁, fun h => absurd rfl h⟩
    simp [delete, hfind, hv, findStatus]
  | some v =>
    rw [hv] at hvis₁
    have hvT : v.txid ≤ d.txid := (mem_visibleVersions.mp (hvis₁.symm.subset (by simp))).2
    obtain ⟨s₂, hwb, hst₂⟩ := writeBack_allSucceed s₁ (dentryKey d)
      ((DentryVector.ofVec vec₁).delete v)
    rw [DentryVector.delete_vec, DentryVector.ofVec_vec] at hst₂
    refine ⟨s₂, _, ?_, hst₁.trans hst₂, ?_, ?_⟩
    · simp [delete, hfind, hv, findStatus, hwb]
    · exact fun x hx => hkey₁ x (List.eraseP_sublist.subset hx)
    · intro _
      have hgone := visibleVersions_eraseP_perm hvT ((hvis₁.map _).nodup_iff.mpr (by simp))
        hvis₁
      simpa using hgone

end DentryStorage

/-- A dentry named `a` in directory 1 of fs 1. -/
def dentryAt (txid inodeid : Nat) : Dentry := ⟨1, inodeid, 1, "a", txid, ⟨false, false, false⟩, 0⟩

/-! ## Compression and later reads

`CompressDentry` at txid `T` deletes only versions with txid at most `T`: the older of two
visible ones, which no later read takes as the newest, and a delete-marked newest one, which
hides the name as its absence does. With distinct txids the versioned map therefore stays the
same from `T` on. Two versions with one txid, which the `BTree` takes as one, break this. -/

/-- A version later than `T` survives the deletes of a compression at `T`. -/
theorem mem_foldl_eraseP_of_lt {T : Nat} {xs vec : List Dentry} (hxs : ∀ x ∈ xs, x.txid ≤ T)
    {y : Dentry} (hy : y ∈ vec) (hyT : T < y.txid) :
    y ∈ xs.foldl (fun l x => l.eraseP (·.equal x)) vec := by
  induction xs generalizing vec with
  | nil => exact hy
  | cons x xs ih =>
    apply ih (fun x' hx' => hxs x' (List.mem_cons_of_mem x hx'))
    -- `y` is not equal to `x`, whose txid is at most `T`
    have hne : ¬ (fun z : Dentry => z.equal x) y = true := by
      intro hyx
      have := hxs x List.mem_cons_self
      rw [← Dentry.txid_eq_of_equal hyx] at this
      omega
    exact (@List.mem_eraseP_of_neg Dentry (fun z => z.equal x) y vec hne).mpr hy

/-- With distinct txids, compression at `T` keeps the versioned map at every `T' ≥ T`. -/
theorem versionView_compress {k : Key4Dentry} {vec : List Dentry} {T T' : Nat}
    (hkey : ∀ x ∈ vec, dentryKey x = k) (hnodup : (vec.map (·.txid)).Nodup)
    {first : Dentry} {more : List Dentry}
    (hbt : (DentryVector.ofVec vec).filter T = first :: more) (hlen : more.length + 1 ≤ 2)
    (hT : T ≤ T') :
    versionView ((compressDeleted first more).foldl (fun l x => l.eraseP (·.equal x)) vec) T' =
      versionView vec T' := by
  set vec' := (compressDeleted first more).foldl (fun l x => l.eraseP (·.equal x)) vec
  have hnodupT : ∀ T, ((visibleVersions vec T).map (·.txid)).Nodup := fun T =>
    hnodup.sublist (List.filter_sublist.map _)
  obtain ⟨hperm, hs⟩ := DentryVector.filter_perm hkey (hnodupT T)
  rw [hbt] at hperm hs
  have hread : Readable k vec T :=
    ⟨hkey, hnodupT T, by rw [← hperm.length_eq]; simpa using hlen⟩
  have hsub : vec' ⊆ vec := (foldl_eraseP_sublist (compressDeleted first more) vec).subset
  have hvissub : visibleVersions vec' T' ⊆ visibleVersions vec T' := fun y hy =>
    mem_visibleVersions.mpr ⟨hsub (mem_visibleVersions.mp hy).1, (mem_visibleVersions.mp hy).2⟩
  unfold versionView
  cases hm : (visibleVersions vec T').argmax (·.txid) with
  | none =>
    -- nothing was visible, so nothing is
    rw [List.argmax_eq_none.mp hm] at hvissub
    rw [List.eq_nil_of_subset_nil hvissub]
    rfl
  | some m =>
    have hmvis := mem_visibleVersions.mp (List.argmax_mem hm)
    by_cases hmT : T < m.txid
    · -- the newest version is later than `T`, and it stays
      have hdel : ∀ x ∈ compressDeleted first more, x.txid ≤ T := fun x hx =>
        (mem_visibleVersions.mp (hperm.subset (mem_of_mem_compressDeleted hx))).2
      have hm' := mem_visibleVersions.mpr ⟨mem_foldl_eraseP_of_lt hdel hmvis.1 hmT, hmvis.2⟩
      rw [argmax_eq_of_subset hvissub (hnodupT T') hm hm']
    · -- the newest version is visible at `T`, so it ends the `BTree`
      have hmT' : m.txid ≤ T := Nat.le_of_not_lt hmT
      have hvisT : visibleVersions vec T ⊆ visibleVersions vec T' := fun y hy =>
        mem_visibleVersions.mpr
          ⟨(mem_visibleVersions.mp hy).1, le_trans (mem_visibleVersions.mp hy).2 hT⟩
      have hlast : (first :: more).getLast? = some m := by
        rw [← argmax_eq_getLast? hperm hs (hnodupT T)]
        exact argmax_eq_of_subset hvisT (hnodupT T') hm (mem_visibleVersions.mpr ⟨hmvis.1, hmT'⟩)
      -- and the compressed vector shows at `T'` what it shows at `T`
      have hsame : visibleVersions vec' T' = visibleVersions vec' T := by
        unfold visibleVersions
        apply List.filter_congr
        intro y hy
        simp only [decide_eq_decide]
        constructor
        · intro hyT'
          exact le_trans (List.le_of_mem_argmax (mem_visibleVersions.mpr ⟨hsub hy, hyT'⟩) hm) hmT'
        · intro hyT
          exact le_trans hyT hT
      have hvis := visibleVersions_compress hread hperm hs
      rw [hlast, ← hsame] at hvis
      cases hmark : hasDeleteMarkFlag m
      · -- a live newest version stays the only one visible
        have hone : visibleVersions vec' T' = [m] :=
          List.perm_singleton.mp (by simpa [hmark, Option.filter] using hvis)
        rw [hone, List.argmax_singleton]
      · -- a delete-marked newest version goes, with everything before it
        have hnone : visibleVersions vec' T' = [] :=
          List.perm_nil.mp (by simpa [hmark, Option.filter] using hvis)
        rw [hnone]
        simp [Option.filter, hmark]

namespace DentryStorage

theorem writeBack_storesAt {s s' : DentryStorage} {ok : KVCall → Bool} {k : Key4Dentry}
    {v : DentryVector} (h : s.writeBack ok k v = some s') : StoresAt s s' k v.vec := by
  unfold writeBack sSet at h
  split_ifs at h with hnil <;> cases h
  · refine ⟨by simp [vecOf, hnil], fun k' hk => AList.lookup_erase_ne hk⟩
  · refine ⟨by simp [vecOf], fun k' hk => AList.lookup_insert_ne hk⟩

/-- What `Find` with compression leaves: the storage as it was, or the key's vector as
`CompressDentry` of the one or two versions visible at the call's txid stores it. -/
theorem find_compress_fst (s : DentryStorage) (ok : KVCall → Bool) (d : Dentry) :
    (s.find ok d true).1 = s ∨
      ∃ first more, (DentryVector.ofVec (s.vecOf (dentryKey d))).filter d.txid = first :: more ∧
        more.length + 1 ≤ 2 ∧
        StoresAt s (s.find ok d true).1 (dentryKey first)
          ((compressDeleted first more).foldl (fun l x => l.eraseP (·.equal x))
            (s.vecOf (dentryKey d))) := by
  unfold find
  split
  · exact Or.inl rfl
  · cases hl : s.table4Dentry.lookup (dentryKey d) with
    | none => exact Or.inl rfl
    | some vec =>
      have hvec : s.vecOf (dentryKey d) = vec := by simp [vecOf, hl]
      rw [hvec]
      dsimp only
      split_ifs with hlen hcompress
      · exact Or.inl rfl
      swap
      · exact absurd rfl hcompress
      · cases hbt : (DentryVector.ofVec vec).filter d.txid with
        | nil => exact Or.inl rfl
        | cons first more =>
          -- the `BTree` is `first :: more`; the compression's write succeeds or not
          have hlen' : more.length + 1 ≤ 2 := by
            rw [hbt] at hlen
            simp only [List.length_cons] at hlen
            omega
          simp only [List.getLast?_cons, compressDentry_cons]
          cases hw : s.writeBack ok (dentryKey first)
              ((compressDeleted first more).foldl DentryVector.delete (DentryVector.ofVec vec)) with
          | none => exact Or.inl rfl
          | some s' =>
            refine Or.inr ⟨first, more, rfl, hlen', ?_⟩
            have hst := writeBack_storesAt hw
            rw [DentryVector.foldl_delete_vec, DentryVector.ofVec_vec] at hst
            exact hst

end DentryStorage

/-- `Find` with compression at the txid of `d`, whatever the storage calls do, on a key whose
versions are stored under it with distinct txids: a read `q` of the key at a txid not below
`d`'s sees the same versioned map as before, and `Get` answers as before wherever it saw at
most two versions. -/
theorem find_compress_keeps_later_reads (s : DentryStorage) (ok : KVCall → Bool) (d q : Dentry)
    (hkey : ∀ x ∈ s.vecOf (dentryKey d), dentryKey x = dentryKey d)
    (hnodup : ((s.vecOf (dentryKey d)).map (·.txid)).Nodup)
    (hq : dentryKey q = dentryKey d) (hT : d.txid ≤ q.txid) :
    (s.find ok d true).1.view (dentryKey q) q.txid = s.view (dentryKey q) q.txid ∧
      ((visibleVersions (s.vecOf (dentryKey q)) q.txid).length ≤ 2 →
        (s.find ok d true).1.get allSucceed q = s.get allSucceed q) := by
  rcases DentryStorage.find_compress_fst s ok d with hsame | ⟨first, more, hbt, hlen, hst⟩
  · rw [hsame]
    exact ⟨rfl, fun _ => rfl⟩
  · have hnodupT : ∀ T, ((visibleVersions (s.vecOf (dentryKey d)) T).map (·.txid)).Nodup :=
      fun T => hnodup.sublist (List.filter_sublist.map _)
    obtain ⟨hperm, -⟩ := DentryVector.filter_perm hkey (hnodupT d.txid)
    rw [hbt] at hperm
    have hfirst : dentryKey first = dentryKey d :=
      hkey first (mem_visibleVersions.mp (hperm.subset List.mem_cons_self)).1
    rw [hfirst, ← hq] at hst
    have hview : (s.find ok d true).1.view (dentryKey q) q.txid = s.view (dentryKey q) q.txid := by
      unfold DentryStorage.view
      rw [hst.vecOf_eq, hq]
      exact versionView_compress hkey hnodup hbt hlen hT
    refine ⟨hview, fun hle => ?_⟩
    -- both reads see a readable vector, the later one a part of the earlier
    have hsub := foldl_eraseP_sublist (compressDeleted first more) (s.vecOf (dentryKey d))
    have hvsub := hsub.filter (fun x : Dentry => decide (x.txid ≤ q.txid))
    rw [← hq] at hkey hnodupT hsub hvsub
    have hread : Readable (dentryKey q) (s.vecOf (dentryKey q)) q.txid :=
      ⟨hkey, hnodupT q.txid, hle⟩
    have hread' : Readable (dentryKey q) ((s.find ok d true).1.vecOf (dentryKey q)) q.txid := by
      rw [hst.vecOf_eq]
      exact ⟨fun x hx => hkey x (hsub.subset hx), (hnodupT q.txid).sublist (hvsub.map _),
        le_trans hvsub.length_le hle⟩
    rw [DentryStorage.get_of_readable hread', DentryStorage.get_of_readable hread, hview]

/-- The name at txids 1 and 2, for inodes 10 and 20. -/
def twoVersions : DentryStorage :=
  ⟨(∅ : AList fun _ : Key4Dentry => List Dentry).insert ⟨1, 1, "a"⟩
    [dentryAt 1 10, dentryAt 2 20], 2⟩

/-- `Find` with compression at txid 2 drops the version at 1; a read at 3 is unchanged. -/
theorem compress_at_two_keeps_read_at_three :
    (twoVersions.find allSucceed (dentryAt 2 0) true).1.view (dentryKey (dentryAt 3 0)) 3 =
        twoVersions.view (dentryKey (dentryAt 3 0)) 3 ∧
      ((visibleVersions (twoVersions.vecOf (dentryKey (dentryAt 3 0))) 3).length ≤ 2 →
        (twoVersions.find allSucceed (dentryAt 2 0) true).1.get allSucceed (dentryAt 3 0) =
          twoVersions.get allSucceed (dentryAt 3 0)) :=
  find_compress_keeps_later_reads twoVersions allSucceed (dentryAt 2 0) (dentryAt 3 0)
    (by decide) (by decide) rfl (by decide)

/-- Two versions of one name at txid 1, for inode 5 with the delete mark and for inode 6. -/
def markedThenLive : DentryStorage :=
  ⟨(∅ : AList fun _ : Key4Dentry => List Dentry).insert ⟨1, 1, "a"⟩
    [⟨1, 5, 1, "a", 1, ⟨false, true, false⟩, 0⟩, ⟨1, 6, 1, "a", 1, ⟨false, false, false⟩, 0⟩], 2⟩

/-- `Find` with compression at txid 1 keeps only the first of the two versions in its `BTree`
and deletes it for its delete mark: a `Get` at txid 1 that answered `NOT_FOUND` before now finds
the version of inode 6. -/
theorem compress_reveals_version_of_same_txid :
    markedThenLive.get allSucceed (dentryAt 1 0) = (.NOT_FOUND, dentryAt 1 0) ∧
      (markedThenLive.find allSucceed (dentryAt 1 0) true).1.get allSucceed (dentryAt 1 0) =
        (.OK, ⟨1, 6, 1, "a", 1, ⟨false, false, false⟩, 0⟩) := by
  decide

/-- With three versions, a `Get` at txid 3 answers `NOT_FOUND` ("more than 2 dentrys") until a
compression at txid 2 drops the oldest. -/
example : (⟨(∅ : AList fun _ : Key4Dentry => List Dentry).insert ⟨1, 1, "a"⟩
      [dentryAt 1 10, dentryAt 2 20, dentryAt 3 30], 3⟩ : DentryStorage).get allSucceed
        (dentryAt 3 0) = (.NOT_FOUND, dentryAt 3 0) ∧
    ((⟨(∅ : AList fun _ : Key4Dentry => List Dentry).insert ⟨1, 1, "a"⟩
      [dentryAt 1 10, dentryAt 2 20, dentryAt 3 30], 3⟩ : DentryStorage).find allSucceed
        (dentryAt 2 0) true).1.get allSucceed (dentryAt 3 0) = (.OK, dentryAt 3 30) := by
  decide

/-! ## Three versions hide the newest -/

/-- The table after inserting the name at txids 5, 3 and 1. -/
def descendingInserts : DentryStorage :=
  (((DentryStorage.empty.insert allSucceed (dentryAt 5 10)).1.insert allSucceed
    (dentryAt 3 20)).1.insert allSucceed (dentryAt 1 30)).1

theorem descending_inserts_hide_dentry :
    (DentryStorage.empty.insert allSucceed (dentryAt 5 10)).2 = .OK ∧
      ((DentryStorage.empty.insert allSucceed (dentryAt 5 10)).1.insert allSucceed
        (dentryAt 3 20)).2 = .OK ∧
      (((DentryStorage.empty.insert allSucceed (dentryAt 5 10)).1.insert allSucceed
        (dentryAt 3 20)).1.insert allSucceed (dentryAt 1 30)).2 = .OK ∧
      descendingInserts.view (dentryKey (dentryAt 5 0)) 5 = some (dentryAt 5 10) ∧
      descendingInserts.get allSucceed (dentryAt 5 0) = (.NOT_FOUND, dentryAt 5 0) := by
  decide

/-- At a call whose key has at most two versions visible at the call's txid, with distinct
txids, all stored under the key, and with every storage call succeeding: `Get` answers the
versioned map; `Insert` answers `IDEMPOTENCE_OK`, `DENTRY_EXIST` or `OK` as the map shows the
same inode, another one or nothing, and after `OK` a `Get` of the name at that txid finds the
new dentry; `Delete` answers `NOT_FOUND` exactly when the map shows nothing, and after `OK` a
`Get` there finds nothing; and neither changes any other key. -/
theorem dentry_storage_versioned_map (s : DentryStorage) (d : Dentry)
    (h : Readable (dentryKey d) (s.vecOf (dentryKey d)) d.txid) :
    s.get allSucceed d = (s.view (dentryKey d) d.txid).elim (.NOT_FOUND, d) (.OK, ·) ∧
      (s.insert allSucceed d).2 = insertStatus d (s.view (dentryKey d) d.txid) ∧
      (s.view (dentryKey d) d.txid = none → hasDeleteMarkFlag d = false →
        ∀ q, dentryKey q = dentryKey d → q.txid = d.txid →
          (s.insert allSucceed d).1.get allSucceed q = (.OK, d)) ∧
      (s.delete allSucceed d).2 = findStatus (s.view (dentryKey d) d.txid) ∧
      (s.view (dentryKey d) d.txid ≠ none →
        ∀ q, dentryKey q = dentryKey d → q.txid = d.txid →
          ((s.delete allSucceed d).1.get allSucceed q).1 = .NOT_FOUND) ∧
      ∀ k, k ≠ dentryKey d →
        (s.insert allSucceed d).1.table4Dentry.lookup k = s.table4Dentry.lookup k ∧
          (s.delete allSucceed d).1.table4Dentry.lookup k = s.table4Dentry.lookup k := by
  obtain ⟨si, vi, hins, hsti, hkeyi, hvisi⟩ := DentryStorage.insert_of_readable h
  obtain ⟨sd, vd, hdel, hstd, hkeyd, hvisd⟩ := DentryStorage.delete_of_readable h
  refine ⟨DentryStorage.get_of_readable h, by rw [hins], ?_, by rw [hdel], ?_, ?_⟩
  · -- after an insert into an empty view, the name shows the new dentry
    intro hnone hd q hqk hqT
    rw [hins]
    have hvec : si.vecOf (dentryKey q) = vi := hqk ▸ hsti.vecOf_eq
    rw [DentryStorage.get_of_visible_eq (some d) (by rw [hvec, hqk]; exact hkeyi)
      (by rw [hvec, hqT]; exact hvisi hnone)]
    simp [Option.filter, hd]
  · -- after a delete of a shown dentry, the name shows nothing
    intro hsome q hqk hqT
    rw [hdel]
    have hvec : sd.vecOf (dentryKey q) = vd := hqk ▸ hstd.vecOf_eq
    rw [DentryStorage.get_of_visible_eq none (by rw [hvec, hqk]; exact hkeyd)
      (by rw [hvec, hqT]; exact hvisd hsome)]
    rfl
  · intro k hk
    rw [hins, hdel]
    exact ⟨hsti.lookup_ne k hk, hstd.lookup_ne k hk⟩

theorem dentry_storage_versioned_map_two_versions :
    Readable (dentryKey (dentryAt 5 10))
        (((DentryStorage.empty.insert allSucceed (dentryAt 5 10)).1.insert allSucceed
          (dentryAt 3 20)).1.vecOf (dentryKey (dentryAt 5 10))) 5 ∧
      (((DentryStorage.empty.insert allSucceed (dentryAt 5 10)).1.insert allSucceed
          (dentryAt 3 20)).1.insert allSucceed (dentryAt 5 10)).2 = .IDEMPOTENCE_OK := by
  have h : Readable (dentryKey (dentryAt 5 10))
      (((DentryStorage.empty.insert allSucceed (dentryAt 5 10)).1.insert allSucceed
        (dentryAt 3 20)).1.vecOf (dentryKey (dentryAt 5 10))) 5 :=
    ⟨by decide, by decide, by decide⟩
  exact ⟨h, (dentry_storage_versioned_map _ (dentryAt 5 10) h).2.1.trans (by decide)⟩

/-- After the inserts at txids 5, 3 and 1, `List` of the directory from the empty name at txid 5
returns the dentry inserted at 5, which `Get` of its name at txid 5 does not find. -/
theorem list_shows_dentry_get_hides :
    descendingInserts.list ⟨1, 0, 1, "", 5, ⟨false, false, false⟩, 0⟩ [] 0 =
        (.OK, [dentryAt 5 10]) ∧
      descendingInserts.get allSucceed (dentryAt 5 0) = (.NOT_FOUND, dentryAt 5 0) := by
  decide

/-! ## The dentry count

Every operation that writes a key's vector builds a `DentryVector` from what the key stores,
and `Confirm` moves `nDentry_` by the vector's pending adds and deletes. Those follow the
vector's length exactly (`DentryVector.Tracks`), so `nDentry_` stays the number of stored
dentries, over any run of calls. -/

namespace DentryVector

/-- The pending counts of `v` account for how its length moved away from `n`. -/
def Tracks (v : DentryVector) (n : Nat) : Prop :=
  v.vec.length + v.nPendingDel = n + v.nPendingAdd

theorem tracks_ofVec (vec : List Dentry) : (ofVec vec).Tracks vec.length := rfl

theorem Tracks.insert {v : DentryVector} {n : Nat} (h : v.Tracks n) (d : Dentry) :
    (v.insert d).Tracks n := by
  unfold DentryVector.insert
  split_ifs
  · exact h
  · simp only [Tracks, List.length_append, List.length_singleton] at h ⊢
    omega

theorem Tracks.delete {v : DentryVector} {n : Nat} (h : v.Tracks n) (d : Dentry) :
    (v.delete d).Tracks n := by
  unfold DentryVector.delete
  split_ifs with hany
  · -- an equal dentry is there: the vector loses one, counted as a pending delete
    obtain ⟨y, hy, hyd⟩ := List.any_eq_true.mp hany
    have hlen := @List.length_eraseP_of_mem _ v.vec y (fun x => x.equal d) hy hyd
    have hpos := List.length_pos_of_mem hy
    simp only [Tracks] at h ⊢
    omega
  · exact h

theorem Tracks.foldl_delete {v : DentryVector} {n : Nat} (h : v.Tracks n) (xs : List Dentry) :
    (xs.foldl DentryVector.delete v).Tracks n := by
  induction xs generalizing v with
  | nil => exact h
  | cons x xs ih => exact ih (h.delete x)

/-- `Confirm` after a vector that started from `n ≤ count` dentries does not clamp: the count
moves by the vector's change in length. -/
theorem Tracks.confirm_add {v : DentryVector} {n count : Nat} (h : v.Tracks n)
    (hn : n ≤ count) : v.confirm count + n = count + v.vec.length := by
  unfold confirm
  unfold Tracks at h
  split_ifs <;> omega

theorem mem_insert_vec {v : DentryVector} {d x : Dentry} (hx : x ∈ (v.insert d).vec) :
    x ∈ v.vec ∨ x = d := by
  unfold DentryVector.insert at hx
  split_ifs at hx
  · exact Or.inl hx
  · simpa using hx

/-- `Filter` keeps versions of the vector. -/
theorem mem_of_mem_filter {vec : List Dentry} {T : Nat} {x : Dentry}
    (hx : x ∈ (ofVec vec).filter T) : x ∈ vec := by
  -- the fold over the vector only ever inserts its own versions into the `BTree`
  have hfold : ∀ (xs bt : List Dentry), x ∈ xs.foldl (fun btree dentry =>
      if dentry.txid ≤ T then orderedSetInsert Dentry.less dentry btree else btree) bt →
      x ∈ bt ∨ x ∈ xs := by
    intro xs
    induction xs with
    | nil => exact fun bt h => Or.inl h
    | cons d ds ih =>
      intro bt h
      rcases ih _ h with hbt | hds
      · dsimp only at hbt
        split_ifs at hbt
        · rcases mem_orderedSetInsert hbt with rfl | hin
          · exact Or.inr List.mem_cons_self
          · exact Or.inl hin
        · exact Or.inl hbt
      · exact Or.inr (List.mem_cons_of_mem d hds)
  simpa using hfold vec [] hx

end DentryVector

namespace DentryStorage

/-- The number of dentries the table stores, over all its vectors. -/
def total (s : DentryStorage) : Nat :=
  (s.table4Dentry.entries.map fun e => e.2.length).sum

/-- The dentries a table stores are those of a key and those of the table without it. -/
theorem sum_length_kerase (k : Key4Dentry) :
    ∀ l : List (Σ _ : Key4Dentry, List Dentry),
      (l.map fun e => e.2.length).sum =
        ((l.kerase k).map fun e => e.2.length).sum + ((l.dlookup k).getD []).length
  | [] => rfl
  | ⟨k', vec⟩ :: l => by
    by_cases hk : k = k'
    · subst hk
      rw [@List.kerase_cons_eq _ _ _ k ⟨k, vec⟩ l rfl, List.dlookup_cons_eq, List.map_cons,
        List.sum_cons]
      simp only [Option.getD_some]
      omega
    · rw [List.kerase_cons_ne hk, List.dlookup_cons_ne _ _ hk, List.map_cons, List.sum_cons,
        List.map_cons, List.sum_cons, sum_length_kerase k l]
      omega

theorem total_insert (s : DentryStorage) (k : Key4Dentry) (vec : List Dentry) (n : Nat) :
    (⟨s.table4Dentry.insert k vec, n⟩ : DentryStorage).total + (s.vecOf k).length =
      s.total + vec.length := by
  simp only [total, AList.entries_insert, List.map_cons, List.sum_cons, vecOf, AList.lookup]
  rw [sum_length_kerase k s.table4Dentry.entries]
  omega

theorem total_erase (s : DentryStorage) (k : Key4Dentry) (n : Nat) :
    (⟨s.table4Dentry.erase k, n⟩ : DentryStorage).total + (s.vecOf k).length = s.total := by
  simp only [total, vecOf, AList.lookup]
  rw [sum_length_kerase k s.table4Dentry.entries]
  rfl

theorem length_vecOf_le_total (s : DentryStorage) (k : Key4Dentry) :
    (s.vecOf k).length ≤ s.total := by
  have := total_erase s k 0
  omega

/-- What every table a run of calls reaches satisfies: each version is stored under its own
key, and `nDentry_` is the number of stored dentries. -/
structure CountInv (s : DentryStorage) : Prop where
  key_eq : ∀ k, ∀ d ∈ s.vecOf k, dentryKey d = k
  count : s.nDentry = s.total

theorem countInv_empty : CountInv empty :=
  ⟨fun _ d hd => by simp [vecOf, empty] at hd, rfl⟩

/-- A dentry appended to what its key stores: the vector still holds only that key. -/
theorem CountInv.key_insert {s : DentryStorage} {vec : List Dentry} {d : Dentry}
    (h : CountInv s) (hvec : s.vecOf (dentryKey d) = vec) :
    ∀ x ∈ ((DentryVector.ofVec vec).insert d).vec, dentryKey x = dentryKey d := by
  intro x hx
  rcases DentryVector.mem_insert_vec hx with hx | rfl
  · exact h.key_eq _ x (hvec ▸ hx)
  · rfl

/-- A dentry removed from what a key stores: the vector still holds only that key. -/
theorem CountInv.key_delete {s : DentryStorage} {k : Key4Dentry} {vec : List Dentry}
    (h : CountInv s) (hvec : s.vecOf k = vec) (d : Dentry) :
    ∀ x ∈ ((DentryVector.ofVec vec).delete d).vec, dentryKey x = k := by
  intro x hx
  rw [DentryVector.delete_vec, DentryVector.ofVec_vec] at hx
  exact h.key_eq _ x (hvec ▸ List.eraseP_sublist.subset hx)

section Write

variable {s : DentryStorage} {k : Key4Dentry} {v : DentryVector}

/-- Storing back a vector built from what key `k` stores, with dentries of key `k` only, keeps
the invariant, and the key then stores that vector. -/
theorem CountInv.writeBack (h : CountInv s) (hv : v.Tracks (s.vecOf k).length)
    (hkey : ∀ d ∈ v.vec, dentryKey d = k) :
    ∃ s', s.writeBack allSucceed k v = some s' ∧ CountInv s' ∧ s'.vecOf k = v.vec := by
  obtain ⟨s', hw, hst⟩ := writeBack_allSucceed s k v
  refine ⟨s', hw, ⟨?_, ?_⟩, hst.vecOf_eq⟩
  · intro k' d hd
    by_cases hk : k' = k
    · subst hk
      exact hkey d (hst.vecOf_eq ▸ hd)
    · exact h.key_eq k' d (by simpa [vecOf, hst.lookup_ne k' hk] using hd)
  · have hconfirm := hv.confirm_add (h.count ▸ length_vecOf_le_total s k)
    unfold DentryStorage.writeBack at hw
    split_ifs at hw with hnil
    · -- an emptied vector: `SDel` of the key
      cases hw
      have htot := total_erase s k (v.confirm s.nDentry)
      rw [hnil, List.length_nil] at hconfirm
      have hcount := h.count
      dsimp only
      omega
    · cases hw
      have htot := total_insert s k v.vec (v.confirm s.nDentry)
      have hcount := h.count
      dsimp only
      omega

theorem CountInv.sSet (h : CountInv s) (hv : v.Tracks (s.vecOf k).length)
    (hkey : ∀ d ∈ v.vec, dentryKey d = k) :
    ∃ s', s.sSet allSucceed k v = some s' ∧ CountInv s' ∧ s'.vecOf k = v.vec := by
  by_cases hnil : v.vec = []
  · -- `SSet` of an empty vector stores it, and counts as its `SDel` would
    refine ⟨_, rfl, ⟨?_, ?_⟩, by simp [vecOf, hnil]⟩
    · intro k' d hd
      by_cases hk : k' = k
      · subst hk; simp [vecOf, hnil] at hd
      · exact h.key_eq k' d (by simpa [vecOf, AList.lookup_insert_ne hk] using hd)
    · have hconfirm := hv.confirm_add (h.count ▸ length_vecOf_le_total s k)
      have htot := total_insert s k v.vec (v.confirm s.nDentry)
      have hcount := h.count
      show v.confirm s.nDentry = _
      omega
  · obtain ⟨s', hw, hinv, hvec⟩ := h.writeBack hv hkey
    refine ⟨s', ?_, hinv, hvec⟩
    rw [← hw, DentryStorage.writeBack, if_neg hnil]

end Write

/-- `CompressDentry` on versions of key `k`'s vector keeps the invariant, and leaves the key
storing the vector it hands back. -/
theorem CountInv.compressDentry {s : DentryStorage} {k : Key4Dentry} {vec bt : List Dentry}
    (h : CountInv s) (hvec : s.vecOf k = vec) (hbt : ∀ x ∈ bt, x ∈ vec) :
    ∃ s' vec', s.compressDentry allSucceed vec bt = (s', true, vec') ∧ CountInv s' ∧
      s'.vecOf k = vec' := by
  match bt, hbt with
  | [], _ => exact ⟨s, vec, rfl, h, hvec⟩
  | first :: more, hbt =>
    have hfirst : dentryKey first = k :=
      h.key_eq k first (hvec ▸ hbt first List.mem_cons_self)
    -- the deletes keep a sublist of the key's vector
    have hsub : ∀ (xs vec : List Dentry),
        (xs.foldl (fun l x => l.eraseP (·.equal x)) vec).Sublist vec := by
      intro xs
      induction xs with
      | nil => exact fun vec => List.Sublist.refl vec
      | cons y ys ih => exact fun vec => (ih _).trans List.eraseP_sublist
    let deleted := (if more.length + 1 = 2 then [first] else []) ++
      (if hasDeleteMarkFlag ((first :: more).getLast (List.cons_ne_nil first more))
        then [(first :: more).getLast (List.cons_ne_nil first more)] else [])
    have hv : (deleted.foldl DentryVector.delete (DentryVector.ofVec vec)).Tracks
        (s.vecOf (dentryKey first)).length := by
      rw [hfirst, hvec]
      exact (DentryVector.tracks_ofVec vec).foldl_delete deleted
    have hkey : ∀ d ∈ (deleted.foldl DentryVector.delete (DentryVector.ofVec vec)).vec,
        dentryKey d = dentryKey first := by
      intro d hd
      rw [DentryVector.foldl_delete_vec, DentryVector.ofVec_vec] at hd
      rw [hfirst]
      exact h.key_eq k d (hvec ▸ (hsub deleted vec).subset hd)
    simp only [deleted] at hv hkey
    obtain ⟨s', hw, hinv, hvec'⟩ := h.writeBack hv hkey
    exact ⟨s', _, by simp only [DentryStorage.compressDentry, hw], hinv, hfirst ▸ hvec'⟩

/-- `Find` keeps the invariant, and hands back the vector its key then stores. -/
theorem CountInv.find {s : DentryStorage} (h : CountInv s) (din : Dentry) (compress : Bool) :
    ∃ s' rc out vec, s.find allSucceed din compress = (s', rc, out, vec) ∧ CountInv s' ∧
      s'.vecOf (dentryKey din) = vec := by
  unfold DentryStorage.find
  simp only [allSucceed, Bool.not_true, Bool.false_eq_true, if_false]
  split
  · next hl => exact ⟨s, _, _, _, rfl, h, by simp [vecOf, hl]⟩
  · next vec hl =>
    have hvec : s.vecOf (dentryKey din) = vec := by simp [vecOf, hl]
    by_cases hlen : ((DentryVector.ofVec vec).filter din.txid).length > 2
    · rw [if_pos hlen]
      exact ⟨s, _, _, _, rfl, h, hvec⟩
    rw [if_neg hlen]
    split
    · exact ⟨s, _, _, _, rfl, h, hvec⟩
    · -- a visible version: only a compressing `Find` writes
      cases compress
      · exact ⟨s, _, _, _, rfl, h, hvec⟩
      · obtain ⟨s', vec', hc, hinv, hvec'⟩ :=
          @CountInv.compressDentry s (dentryKey din) vec ((DentryVector.ofVec vec).filter din.txid)
            h hvec (fun x hx => DentryVector.mem_of_mem_filter hx)
        simp only [if_true, hc]
        exact ⟨s', _, _, _, rfl, hinv, hvec'⟩

/-- `Insert` writes at most once after its `Find`: the dentry appended to what the key stores. -/
theorem insert_fst (s : DentryStorage) (ok : KVCall → Bool) (d : Dentry) :
    (s.insert ok d).1 = (s.find ok d true).1 ∨
      ∃ s'', (s.find ok d true).1.sSet ok (dentryKey d)
          ((DentryVector.ofVec (s.find ok d true).2.2.2).insert d) = some s'' ∧
        (s.insert ok d).1 = s'' := by
  unfold DentryStorage.insert
  split
  · next heq => exact Or.inl (by rw [heq])
  · next heq =>
    split
    · next s'' hs => exact Or.inr ⟨s'', by rw [heq]; exact hs, rfl⟩
    · exact Or.inl (by rw [heq])
  · next heq => exact Or.inl (by rw [heq])

/-- `Delete` writes at most once after its `Find`: the found version removed from what the key
stores. -/
theorem delete_fst (s : DentryStorage) (ok : KVCall → Bool) (d : Dentry) :
    (s.delete ok d).1 = (s.find ok d true).1 ∨
      ∃ out s'', (s.find ok d true).1.writeBack ok (dentryKey d)
          ((DentryVector.ofVec (s.find ok d true).2.2.2).delete out) = some s'' ∧
        (s.delete ok d).1 = s'' := by
  unfold DentryStorage.delete
  split
  · next heq => exact Or.inl (by rw [heq])
  · next out _ heq =>
    split
    · next s'' hs => exact Or.inr ⟨out, s'', by rw [heq]; exact hs, rfl⟩
    · exact Or.inl (by rw [heq])
  · next heq => exact Or.inl (by rw [heq])

theorem CountInv.insert {s : DentryStorage} (h : CountInv s) (d : Dentry) :
    CountInv (s.insert allSucceed d).1 := by
  obtain ⟨s', rc, out, vec, hfind, hinv, hvec⟩ := h.find d true
  rcases insert_fst s allSucceed d with h₁ | ⟨s'', hs, h₁⟩
  · rw [h₁, hfind]
    exact hinv
  · -- the dentry appended to what its key stores
    rw [hfind] at hs
    have hv : ((DentryVector.ofVec vec).insert d).Tracks (s'.vecOf (dentryKey d)).length := by
      rw [hvec]
      exact (DentryVector.tracks_ofVec vec).insert d
    obtain ⟨t, ht, htinv, _⟩ := hinv.sSet hv (hinv.key_insert hvec)
    rw [h₁, Option.some.inj (hs.symm.trans ht)]
    exact htinv

theorem CountInv.delete {s : DentryStorage} (h : CountInv s) (d : Dentry) :
    CountInv (s.delete allSucceed d).1 := by
  obtain ⟨s', rc, out, vec, hfind, hinv, hvec⟩ := h.find d true
  rcases delete_fst s allSucceed d with h₁ | ⟨out', s'', hs, h₁⟩
  · rw [h₁, hfind]
    exact hinv
  · -- the found version removed from what its key stores
    rw [hfind] at hs
    have hv : ((DentryVector.ofVec vec).delete out').Tracks (s'.vecOf (dentryKey d)).length := by
      rw [hvec]
      exact (DentryVector.tracks_ofVec vec).delete out'
    obtain ⟨t, ht, htinv, _⟩ := hinv.writeBack hv (hinv.key_delete hvec out')
    rw [h₁, Option.some.inj (hs.symm.trans ht)]
    exact htinv

theorem CountInv.handleTx {s : DentryStorage} (h : CountInv s) (type : TxOpType) (d : Dentry) :
    CountInv (s.handleTx allSucceed type d).1 := by
  cases type with
  | PREPARE =>
    -- the prepared version is appended to what its key stores
    have hv := (DentryVector.tracks_ofVec (s.vecOf (dentryKey d))).insert d
    obtain ⟨s', hs, hinv, _⟩ := h.sSet hv (h.key_insert rfl)
    simp only [DentryStorage.handleTx, allSucceed, Bool.not_true, Bool.false_eq_true, if_false]
    rw [show (s.table4Dentry.lookup (dentryKey d)).getD [] = s.vecOf (dentryKey d) from rfl]
    simp only [hs]
    exact hinv
  | COMMIT =>
    obtain ⟨s', rc, out, vec, hfind, hinv, _⟩ := h.find d true
    simp only [DentryStorage.handleTx, hfind]
    exact hinv
  | ROLLBACK =>
    -- the prepared version is removed from what its key stores
    have hv := (DentryVector.tracks_ofVec (s.vecOf (dentryKey d))).delete d
    obtain ⟨s', hs, hinv, _⟩ := h.writeBack hv (h.key_delete rfl d)
    simp only [DentryStorage.handleTx, allSucceed, Bool.not_true, Bool.false_eq_true, if_false]
    rw [show (s.table4Dentry.lookup (dentryKey d)).getD [] = s.vecOf (dentryKey d) from rfl]
    simp only [hs]
    exact hinv

end DentryStorage

/-- The calls a client makes on the dentry table. -/
inductive DentryCall
  | insert (dentry : Dentry)
  | delete (dentry : Dentry)
  | get (dentry : Dentry)
  | list (dentry : Dentry) (limit : Nat)
  | handleTx (type : TxOpType) (dentry : Dentry)

/-- The table after one call, every storage call succeeding; `Get` and `List` only read. -/
def DentryCall.apply (s : DentryStorage) : DentryCall → DentryStorage
  | .insert d => (s.insert allSucceed d).1
  | .delete d => (s.delete allSucceed d).1
  | .get _ => s
  | .list _ _ => s
  | .handleTx type d => (s.handleTx allSucceed type d).1

theorem DentryStorage.CountInv.apply {s : DentryStorage} (h : s.CountInv) :
    ∀ call : DentryCall, (call.apply s).CountInv
  | .insert d => h.insert d
  | .delete d => h.delete d
  | .get _ => h
  | .list _ _ => h
  | .handleTx type d => h.handleTx type d

theorem DentryStorage.CountInv.foldl_apply {s : DentryStorage} (h : s.CountInv)
    (calls : List DentryCall) : (calls.foldl DentryCall.apply s).CountInv := by
  induction calls generalizing s with
  | nil => exact h
  | cons call calls ih => exact ih (h.apply call)

/-- From an empty table, `Size()` is the number of dentries the table stores after any run of
calls, every storage call succeeding. -/
theorem dentry_count_matches_records (calls : List DentryCall) :
    (calls.foldl DentryCall.apply DentryStorage.empty).nDentry =
      (calls.foldl DentryCall.apply DentryStorage.empty).total :=
  (DentryStorage.countInv_empty.foldl_apply calls).count

end DingoFs.Metaserver
