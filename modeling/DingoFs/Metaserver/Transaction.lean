import DingoFs.Metaserver.DentryStorage

/-!
# Rename transactions: `RenameTx` and `TxManager`

A rename changes one or two dentries at once. `TxManager::HandleRenameTx` checks the request,
settles the transaction still pending from the last request, and then prepares the new one:
`HandleTx(PREPARE)` appends each dentry to its key's vector. The next request settles it by its
txid: past the pending txid it commits (`Find` with compression at the pending txid), otherwise
it rolls back (`HandleTx(ROLLBACK)` deletes each dentry again).

A rollback after a prepare restores the table and the dentry count exactly, whatever the
prepare's storage calls did, when no dentry of the transaction was stored before and no stored
vector is empty (`rollback_after_prepare`); no run of the partition's requests stores an empty
vector (`noEmptyVec_serve`), so the law holds on every table they reach. A commit leaves under each key only what the versioned
map shows at the pending txid, when `Find` reads the key right there (`Readable`); two versions
with the pending txid, which the `BTree` takes as one, break this.
-/

namespace DingoFs.Metaserver

/-- `RenameTx`: the dentries of one rename, with the txid and sequence of the first. -/
structure RenameTx where
  txId : Nat
  txSequence : Nat
  dentrys : List Dentry
deriving DecidableEq, Repr

/-- `FOR_EACH_DENTRY(action)`: `HandleTx(action, dentry)` on each dentry in turn, `false` at the
first that does not return `OK`. The `i`-th call sees the storage outcomes `ok i`. -/
def forEachDentry (action : TxOpType) :
    DentryStorage → (Nat → KVCall → Bool) → List Dentry → DentryStorage × Bool
  | s, _, [] => (s, true)
  | s, ok, dentry :: dentrys =>
    match s.handleTx (ok 0) action dentry with
    | (s', rc) =>
      if rc ≠ .OK then (s', false) else forEachDentry action s' (fun i => ok (i + 1)) dentrys

namespace RenameTx

/-- The constructor `RenameTx(dentrys, storage)`, on a request with a first dentry. -/
def ofDentrys (first : Dentry) (rest : List Dentry) : RenameTx :=
  ⟨first.txid, first.txsequence, first :: rest⟩

/-- `RenameTx::Prepare`. -/
def prepare (tx : RenameTx) (s : DentryStorage) (ok : Nat → KVCall → Bool) :
    DentryStorage × Bool :=
  forEachDentry .PREPARE s ok tx.dentrys

/-- `RenameTx::Commit`. -/
def commit (tx : RenameTx) (s : DentryStorage) (ok : Nat → KVCall → Bool) :
    DentryStorage × Bool :=
  forEachDentry .COMMIT s ok tx.dentrys

/-- `RenameTx::Rollback`. -/
def rollback (tx : RenameTx) (s : DentryStorage) (ok : Nat → KVCall → Bool) :
    DentryStorage × Bool :=
  forEachDentry .ROLLBACK s ok tx.dentrys

end RenameTx

/-- `TxManager`: the partition's dentry storage, which it shares, and `pendingTx_`, with
`EMPTY_TX` as `none`. -/
structure TxManager where
  storage : DentryStorage
  pendingTx : Option RenameTx

namespace TxManager

/-- `TxManager::PreCheck`: one dentry, or two of one fs, txid and sequence. -/
def preCheck (dentrys : List Dentry) : MetaStatusCode :=
  match dentrys with
  | [_] => .OK
  | [d₀, d₁] =>
    if d₀.fsid ≠ d₁.fsid ∨ d₀.txid ≠ d₁.txid ∨ d₀.txsequence ≠ d₁.txsequence then .PARAM_ERROR
    else .OK
  | _ => .PARAM_ERROR

/-- `TxManager::InsertPendingTx`; `none` when a transaction is pending. -/
def insertPendingTx (m : TxManager) (tx : RenameTx) : Option TxManager :=
  if m.pendingTx.isNone then some { m with pendingTx := some tx } else none

/-- `TxManager::DeletePendingTx`. -/
def deletePendingTx (m : TxManager) : TxManager := { m with pendingTx := none }

/-- `TxManager::HandlePendingTx`: a later txid commits the pending transaction, any other rolls
it back. -/
def handlePendingTx (m : TxManager) (ok : Nat → KVCall → Bool) (txId : Nat)
    (pendingTx : RenameTx) : TxManager × Bool :=
  match if txId > pendingTx.txId then pendingTx.commit m.storage ok
      else pendingTx.rollback m.storage ok with
  | (s, done) => ({ m with storage := s }, done)

/-- The end of `HandleRenameTx`: `InsertPendingTx` of the new transaction, then its `Prepare`,
which leaves the transaction pending even when it fails. -/
def prepareRenameTx (m : TxManager) (ok : Nat → KVCall → Bool) (renameTx : RenameTx) :
    TxManager × MetaStatusCode :=
  match m.insertPendingTx renameTx with
  | none => (m, .HANDLE_TX_FAILED)
  | some m' =>
    match renameTx.prepare m'.storage ok with
    | (s, prepared) => ({ m' with storage := s }, if prepared then .OK else .HANDLE_TX_FAILED)

/-- `TxManager::HandleRenameTx`. The commit or rollback of the pending transaction sees the
storage outcomes `okPending`, the prepare of the new one `okPrepare`. -/
def handleRenameTx (m : TxManager) (okPending okPrepare : Nat → KVCall → Bool)
    (dentrys : List Dentry) : TxManager × MetaStatusCode :=
  if preCheck dentrys ≠ .OK then (m, preCheck dentrys)
  else
    match dentrys with
    -- `PreCheck` refuses an empty request
    | [] => (m, .PARAM_ERROR)
    | first :: rest =>
      -- `FindPendingTx`
      match m.pendingTx with
      | none => m.prepareRenameTx okPrepare (.ofDentrys first rest)
      | some pendingTx =>
        if first.txsequence ≠ 0 ∧ first.txsequence ≤ pendingTx.txSequence then
          (m, .HANDLE_PENDING_TX_FAILED)
        else
          match m.handlePendingTx okPending first.txid pendingTx with
          | (m', false) => (m', .HANDLE_PENDING_TX_FAILED)
          | (m', true) => m'.deletePendingTx.prepareRenameTx okPrepare (.ofDentrys first rest)

end TxManager

/-- What the partition serves on its dentry table: a call of `DentryStorage`, every storage
call succeeding as in `DentryCall.apply`, or a `HandleRenameTx` request with the storage
outcomes of its settling and its prepare. -/
inductive TxRequest where
  | call (call : DentryCall)
  | renameTx (okPending okPrepare : Nat → KVCall → Bool) (dentrys : List Dentry)

namespace TxManager

/-- A fresh partition: an empty table and no pending transaction. -/
def empty : TxManager := ⟨DentryStorage.empty, none⟩

/-- The manager after one request. -/
def serve (m : TxManager) : TxRequest → TxManager
  | .call call => { m with storage := call.apply m.storage }
  | .renameTx okPending okPrepare dentrys => (m.handleRenameTx okPending okPrepare dentrys).1

end TxManager

/-! ## What a request does -/

section Loop

variable {action : TxOpType} {s : DentryStorage} {ok : Nat → KVCall → Bool} {d : Dentry}
  {ds : List Dentry}

theorem forEachDentry_cons_of_ok (h : (s.handleTx (ok 0) action d).2 = .OK) :
    forEachDentry action s ok (d :: ds) =
      forEachDentry action (s.handleTx (ok 0) action d).1 (fun i => ok (i + 1)) ds := by
  rcases hst : s.handleTx (ok 0) action d with ⟨s', rc⟩
  rw [hst] at h
  cases h
  simp [forEachDentry, hst]

theorem forEachDentry_cons_of_ne_ok (h : (s.handleTx (ok 0) action d).2 ≠ .OK) :
    forEachDentry action s ok (d :: ds) = ((s.handleTx (ok 0) action d).1, false) := by
  rcases hst : s.handleTx (ok 0) action d with ⟨s', rc⟩
  rw [hst] at h
  simp [forEachDentry, hst, h]

end Loop

namespace TxManager

variable {m m' : TxManager} {okPending okPrepare : Nat → KVCall → Bool} {first : Dentry}
  {rest : List Dentry}

/-- The dentries of a request that passes `PreCheck` share the txid of the first. -/
theorem txid_eq_of_preCheck (h : preCheck (first :: rest) = .OK) :
    ∀ d ∈ first :: rest, d.txid = first.txid := by
  match rest, h with
  | [], _ => simp
  | [d₁], h =>
    simp only [preCheck, ite_eq_right_iff] at h
    have htx : first.txid = d₁.txid := by
      by_contra hne
      exact absurd (h (Or.inr (Or.inl hne))) (by decide)
    simp [htx]
  | _ :: _ :: _, h => simp [preCheck] at h

/-- With no transaction pending, a request that passes `PreCheck` goes straight to its
prepare. -/
theorem handleRenameTx_of_none (hpre : preCheck (first :: rest) = .OK)
    (hm : m.pendingTx = none) :
    m.handleRenameTx okPending okPrepare (first :: rest) =
      m.prepareRenameTx okPrepare (.ofDentrys first rest) := by
  simp [handleRenameTx, hpre, hm]

/-- A request with a larger sequence settles the pending transaction; when that succeeds, it
prepares its own. -/
theorem handleRenameTx_of_settled {pendingTx : RenameTx} (hpre : preCheck (first :: rest) = .OK)
    (hm : m.pendingTx = some pendingTx) (hseq : pendingTx.txSequence < first.txsequence)
    (hsettle : m.handlePendingTx okPending first.txid pendingTx = (m', true)) :
    m.handleRenameTx okPending okPrepare (first :: rest) =
      m'.deletePendingTx.prepareRenameTx okPrepare (.ofDentrys first rest) := by
  have hfresh : ¬ (first.txsequence ≠ 0 ∧ first.txsequence ≤ pendingTx.txSequence) := by
    omega
  simp [handleRenameTx, hpre, hm, hfresh, hsettle]

/-- With no transaction pending, the new one is inserted and prepared. -/
theorem prepareRenameTx_of_none {tx : RenameTx} (hm : m.pendingTx = none) :
    (m.prepareRenameTx okPrepare tx).1 = ⟨(tx.prepare m.storage okPrepare).1, some tx⟩ := by
  simp [prepareRenameTx, insertPendingTx, hm]

/-- `HandlePendingTx` by the rule it settles with. -/
theorem handlePendingTx_eq (ok : Nat → KVCall → Bool) (txId : Nat) (tx : RenameTx) :
    m.handlePendingTx ok txId tx =
      (⟨(if txId > tx.txId then tx.commit m.storage ok else tx.rollback m.storage ok).1,
        m.pendingTx⟩,
        (if txId > tx.txId then tx.commit m.storage ok else tx.rollback m.storage ok).2) := by
  unfold handlePendingTx
  split_ifs <;> rfl

end TxManager

/-! ## Rolling back a prepare

A prepare appends each dentry that no equal one precedes; a rollback erases, for each dentry,
the first equal one. Where no dentry of the transaction was stored, what the prepare appended
is what the rollback erases. `Appended s₀ added s` says that `s` is `s₀` with `added` appended
to the vectors of their keys; both steps keep it. -/

namespace Dentry

/-- `operator==` compares every field but the sequence. -/
theorem equal_iff {x y : Dentry} :
    x.equal y = true ↔ x.fsid = y.fsid ∧ x.parentinodeid = y.parentinodeid ∧ x.name = y.name ∧
      x.txid = y.txid ∧ x.inodeid = y.inodeid ∧ x.flag = y.flag := by
  simp only [equal, Bool.and_eq_true, beq_iff_eq, and_assoc]

theorem equal_symm {x y : Dentry} (h : x.equal y = true) : y.equal x = true := by
  obtain ⟨h₁, h₂, h₃, h₄, h₅, h₆⟩ := equal_iff.mp h
  exact equal_iff.mpr ⟨h₁.symm, h₂.symm, h₃.symm, h₄.symm, h₅.symm, h₆.symm⟩

theorem equal_trans {x y z : Dentry} (hxy : x.equal y = true) (hyz : y.equal z = true) :
    x.equal z = true := by
  obtain ⟨h₁, h₂, h₃, h₄, h₅, h₆⟩ := equal_iff.mp hxy
  obtain ⟨g₁, g₂, g₃, g₄, g₅, g₆⟩ := equal_iff.mp hyz
  exact equal_iff.mpr
    ⟨h₁.trans g₁, h₂.trans g₂, h₃.trans g₃, h₄.trans g₄, h₅.trans g₅, h₆.trans g₆⟩

theorem dentryKey_eq_of_equal {x y : Dentry} (h : x.equal y = true) :
    dentryKey x = dentryKey y := by
  obtain ⟨hfs, hpar, hname, -⟩ := equal_iff.mp h
  simp [dentryKey, hfs, hpar, hname]

end Dentry

namespace DentryVector

theorem insert_ofVec (vec : List Dentry) (d : Dentry) :
    (ofVec vec).insert d = if vec.any (·.equal d) then ofVec vec else ⟨vec ++ [d], 1, 0⟩ :=
  rfl

theorem delete_ofVec (vec : List Dentry) (d : Dentry) :
    (ofVec vec).delete d =
      if vec.any (·.equal d) then ⟨vec.eraseP (·.equal d), 0, 1⟩ else ofVec vec :=
  rfl

theorem confirm_of_nPendingDel_zero (vec : List Dentry) (add count : Nat) :
    (⟨vec, add, 0⟩ : DentryVector).confirm count = count + add := by
  simp [confirm]

@[simp] theorem confirm_ofVec (vec : List Dentry) (count : Nat) :
    (ofVec vec).confirm count = count :=
  confirm_of_nPendingDel_zero vec 0 count

theorem confirm_of_one_del {vec : List Dentry} {count : Nat} (h : 1 ≤ count) :
    (⟨vec, 0, 1⟩ : DentryVector).confirm count = count - 1 := by
  simp only [confirm]
  split_ifs <;> omega

end DentryVector

/-- The entry `SSet` or `SDel` leaves for a key's vector: none for an empty one. -/
def entryOf (vec : List Dentry) : Option (List Dentry) := if vec = [] then none else some vec

@[simp] theorem getD_entryOf (vec : List Dentry) : (entryOf vec).getD [] = vec := by
  unfold entryOf
  split_ifs with h
  · exact h.symm
  · rfl

theorem entryOf_of_ne_nil {vec : List Dentry} (h : vec ≠ []) : entryOf vec = some vec :=
  if_neg h

/-- A write-back at `k` leaves the entry its vector makes, and every other entry as it was. -/
theorem lookup_writeBack {s : DentryStorage} {k : Key4Dentry} (v : DentryVector) :
    ∃ s', s.writeBack allSucceed k v = some s' ∧ s'.table4Dentry.lookup k = entryOf v.vec ∧
      (∀ k', k' ≠ k → s'.table4Dentry.lookup k' = s.table4Dentry.lookup k') ∧
      s'.nDentry = v.confirm s.nDentry := by
  unfold DentryStorage.writeBack DentryStorage.sSet
  by_cases hnil : v.vec = []
  · refine ⟨⟨s.table4Dentry.erase k, v.confirm s.nDentry⟩, by simp [hnil, allSucceed], ?_,
      fun k' hk => AList.lookup_erase_ne hk, rfl⟩
    simp [hnil, entryOf]
  · refine ⟨⟨s.table4Dentry.insert k v.vec, v.confirm s.nDentry⟩, by simp [hnil, allSucceed], ?_,
      fun k' hk => AList.lookup_insert_ne hk, rfl⟩
    simp [entryOf_of_ne_nil hnil]

/-! ## No empty vector is stored

`SSet` writes a vector after an insert, or one that still holds a dentry, and a vector left
empty is `SDel`eted: whatever the storage calls do, no call leaves an empty vector in the
table, the state the rollback law starts from. -/

/-- No key of the table has an empty vector. -/
def NoEmptyVec (s : DentryStorage) : Prop := ∀ e ∈ s.table4Dentry.entries, e.2 ≠ []

namespace DentryStorage

/-- What `CompressDentry` leaves: the storage as it was, or a write-back. -/
theorem compressDentry_fst_cases (s : DentryStorage) (ok : KVCall → Bool)
    (vec bt : List Dentry) :
    (s.compressDentry ok vec bt).1 = s ∨
      ∃ k v, s.writeBack ok k v = some (s.compressDentry ok vec bt).1 := by
  cases bt with
  | nil => exact Or.inl rfl
  | cons first more =>
    rw [compressDentry_cons]
    cases hw : s.writeBack ok (dentryKey first)
        ((compressDeleted first more).foldl DentryVector.delete (DentryVector.ofVec vec)) with
    | none => exact Or.inl rfl
    | some s' => exact Or.inr ⟨_, _, hw⟩

/-- What `Find` leaves: the storage as it was, or what a `CompressDentry` leaves. -/
theorem find_fst_cases (s : DentryStorage) (ok : KVCall → Bool) (d : Dentry)
    (compress : Bool) :
    (s.find ok d compress).1 = s ∨
      ∃ vec bt, (s.find ok d compress).1 = (s.compressDentry ok vec bt).1 := by
  unfold find
  split
  · exact Or.inl rfl
  · split
    · exact Or.inl rfl
    · rename_i vec _
      dsimp only
      split_ifs with hlen hcompress
      · exact Or.inl rfl
      · -- with compression, the storage is the one `CompressDentry` leaves
        split
        · exact Or.inl rfl
        · split
          all_goals
            rename_i heq
            exact Or.inr ⟨vec, _, by rw [heq]⟩
      · split <;> exact Or.inl rfl

end DentryStorage

namespace NoEmptyVec

variable {s s' : DentryStorage} {ok : KVCall → Bool}

theorem sSet (h : NoEmptyVec s) {k : Key4Dentry} {v : DentryVector} (hv : v.vec ≠ [])
    (hs : s.sSet ok k v = some s') : NoEmptyVec s' := by
  unfold DentryStorage.sSet at hs
  split_ifs at hs
  cases hs
  intro e he
  rcases List.mem_cons.mp he with rfl | he
  · exact hv
  · exact h e ((List.kerase_sublist _ _).subset he)

theorem writeBack (h : NoEmptyVec s) {k : Key4Dentry} {v : DentryVector}
    (hs : s.writeBack ok k v = some s') : NoEmptyVec s' := by
  unfold DentryStorage.writeBack at hs
  split_ifs at hs with hnil hdel
  · cases hs
    exact fun e he => h e ((List.kerase_sublist _ _).subset he)
  · exact h.sSet hnil hs

theorem compressDentry (h : NoEmptyVec s) (vec bt : List Dentry) :
    NoEmptyVec (s.compressDentry ok vec bt).1 := by
  rcases DentryStorage.compressDentry_fst_cases s ok vec bt with heq | ⟨k, v, hw⟩
  · rw [heq]
    exact h
  · exact h.writeBack hw

theorem find (h : NoEmptyVec s) (d : Dentry) (compress : Bool) :
    NoEmptyVec (s.find ok d compress).1 := by
  rcases DentryStorage.find_fst_cases s ok d compress with heq | ⟨vec, bt, heq⟩
  · rw [heq]
    exact h
  · rw [heq]
    exact h.compressDentry vec bt

/-- The vector an insert writes holds a dentry. -/
theorem insert_vec_ne_nil (v : DentryVector) (d : Dentry) : (v.insert d).vec ≠ [] := by
  unfold DentryVector.insert
  split_ifs with hany
  · obtain ⟨x, hx, -⟩ := List.any_eq_true.mp hany
    exact List.ne_nil_of_mem hx
  · simp

end NoEmptyVec

/-- `HandleTx(PREPARE)` by the vector it reads. -/
theorem handleTx_prepare_eq (s : DentryStorage) (ok : KVCall → Bool) (d : Dentry) :
    s.handleTx ok .PREPARE d =
      if !ok .sGet then (s, .STORAGE_INTERNAL_ERROR)
      else
        match s.sSet ok (dentryKey d)
            ((DentryVector.ofVec (s.vecOf (dentryKey d))).insert d) with
        | some s' => (s', .OK)
        | none => (s, .STORAGE_INTERNAL_ERROR) :=
  rfl

/-- `HandleTx(ROLLBACK)` by the vector it reads. -/
theorem handleTx_rollback_eq (s : DentryStorage) (ok : KVCall → Bool) (d : Dentry) :
    s.handleTx ok .ROLLBACK d =
      if !ok .sGet then (s, .STORAGE_INTERNAL_ERROR)
      else
        match s.writeBack ok (dentryKey d)
            ((DentryVector.ofVec (s.vecOf (dentryKey d))).delete d) with
        | some s' => (s', .OK)
        | none => (s, .STORAGE_INTERNAL_ERROR) :=
  rfl

theorem handleTx_commit_fst (s : DentryStorage) (ok : KVCall → Bool) (d : Dentry) :
    (s.handleTx ok .COMMIT d).1 = (s.find ok d true).1 :=
  rfl

namespace NoEmptyVec

variable {s : DentryStorage} {ok : KVCall → Bool}

theorem insert (h : NoEmptyVec s) (d : Dentry) : NoEmptyVec (s.insert ok d).1 := by
  have h₁ : NoEmptyVec (s.find ok d true).1 := h.find d true
  unfold DentryStorage.insert
  split
  · rename_i hf
    rw [hf] at h₁
    exact h₁
  · -- not found: the vector with the new dentry is written
    rename_i hf
    rw [hf] at h₁
    split
    · rename_i s₂ hs
      exact h₁.sSet (insert_vec_ne_nil _ _) hs
    · exact h₁
  · rename_i hf
    rw [hf] at h₁
    exact h₁

theorem delete (h : NoEmptyVec s) (d : Dentry) : NoEmptyVec (s.delete ok d).1 := by
  have h₁ : NoEmptyVec (s.find ok d true).1 := h.find d true
  unfold DentryStorage.delete
  split
  · rename_i hf
    rw [hf] at h₁
    exact h₁
  · rename_i hf
    rw [hf] at h₁
    split
    · rename_i s₂ hs
      exact h₁.writeBack hs
    · exact h₁
  · rename_i hf
    rw [hf] at h₁
    exact h₁

theorem handleTx (h : NoEmptyVec s) (type : TxOpType) (d : Dentry) :
    NoEmptyVec (s.handleTx ok type d).1 := by
  cases type with
  | PREPARE =>
    rw [handleTx_prepare_eq]
    split_ifs
    · exact h
    · split
      · rename_i s' hs
        exact h.sSet (insert_vec_ne_nil _ _) hs
      · exact h
  | COMMIT =>
    rw [handleTx_commit_fst]
    exact h.find d true
  | ROLLBACK =>
    rw [handleTx_rollback_eq]
    split_ifs
    · exact h
    · split
      · rename_i s' hs
        exact h.writeBack hs
      · exact h

/-- A prepare, commit or rollback loop, whatever its storage calls do. -/
theorem loop (action : TxOpType) :
    ∀ (s : DentryStorage) (ok : Nat → KVCall → Bool) (dentrys : List Dentry),
      NoEmptyVec s → NoEmptyVec (forEachDentry action s ok dentrys).1
  | _, _, [], h => h
  | s, ok, d :: ds, h => by
    by_cases hrc : (s.handleTx (ok 0) action d).2 = .OK
    · rw [forEachDentry_cons_of_ok hrc]
      exact loop action _ _ ds (h.handleTx action d)
    · rw [forEachDentry_cons_of_ne_ok hrc]
      exact h.handleTx action d

end NoEmptyVec

/-- A rename request keeps the table free of empty vectors, whatever its storage calls do. -/
theorem TxManager.noEmptyVec_handleRenameTx {m : TxManager} (h : NoEmptyVec m.storage)
    (okPending okPrepare : Nat → KVCall → Bool) (dentrys : List Dentry) :
    NoEmptyVec (m.handleRenameTx okPending okPrepare dentrys).1.storage := by
  -- the end of a request: the prepare of its transaction
  have hprep : ∀ m' : TxManager, NoEmptyVec m'.storage → ∀ tx : RenameTx,
      NoEmptyVec (m'.prepareRenameTx okPrepare tx).1.storage := by
    intro m' hm' tx
    unfold TxManager.prepareRenameTx
    split
    · exact hm'
    · rename_i m'' hins
      have hst : m''.storage = m'.storage := by
        unfold TxManager.insertPendingTx at hins
        split_ifs at hins
        cases hins
        rfl
      exact NoEmptyVec.loop .PREPARE _ okPrepare tx.dentrys (hst ▸ hm')
  unfold TxManager.handleRenameTx
  split_ifs
  · exact h
  · cases dentrys with
    | nil => exact h
    | cons first rest =>
      dsimp only
      cases hp : m.pendingTx with
      | none => exact hprep m h _
      | some pendingTx =>
        dsimp only
        split_ifs
        · exact h
        · -- the commit or rollback of the pending transaction, then the prepare
          have hsettle :
              NoEmptyVec (m.handlePendingTx okPending first.txid pendingTx).1.storage := by
            rw [TxManager.handlePendingTx_eq]
            split_ifs
            · exact NoEmptyVec.loop .COMMIT _ okPending _ h
            · exact NoEmptyVec.loop .ROLLBACK _ okPending _ h
          split
          · rename_i m' hpend
            rw [hpend] at hsettle
            exact hsettle
          · rename_i m' hpend
            rw [hpend] at hsettle
            exact hprep m'.deletePendingTx hsettle _

theorem NoEmptyVec.apply {s : DentryStorage} (h : NoEmptyVec s) :
    ∀ call : DentryCall, NoEmptyVec (call.apply s)
  | .insert d => h.insert d
  | .delete d => h.delete d
  | .get _ => h
  | .list _ _ => h
  | .handleTx type d => h.handleTx type d

/-- From a fresh partition, no run of requests stores an empty vector, whatever the storage
calls of its renames do. -/
theorem noEmptyVec_serve (rs : List TxRequest) :
    NoEmptyVec (rs.foldl TxManager.serve TxManager.empty).storage := by
  suffices h : ∀ m : TxManager, NoEmptyVec m.storage →
      NoEmptyVec (rs.foldl TxManager.serve m).storage from
    h _ (fun e he => by simp [TxManager.empty, DentryStorage.empty] at he)
  -- the invariant is carried request by request
  induction rs with
  | nil => exact fun _ h => h
  | cons r rs ih =>
    intro m h
    apply ih
    cases r with
    | call call => exact h.apply call
    | renameTx okPending okPrepare dentrys =>
      exact TxManager.noEmptyVec_handleRenameTx h okPending okPrepare dentrys

/-- `s` is `s₀` with the dentries `added` appended, in order, to the vectors of their keys, and
counted. -/
structure Appended (s₀ : DentryStorage) (added : List Dentry) (s : DentryStorage) : Prop where
  lookup_eq : ∀ k, s.table4Dentry.lookup k =
    entryOf (s₀.vecOf k ++ added.filter (dentryKey · = k))
  nDentry_eq : s.nDentry = s₀.nDentry + added.length

namespace Appended

variable {s₀ s : DentryStorage} {added : List Dentry}

theorem vecOf_eq (h : Appended s₀ added s) (k : Key4Dentry) :
    s.vecOf k = s₀.vecOf k ++ added.filter (dentryKey · = k) := by
  rw [DentryStorage.vecOf, h.lookup_eq, getD_entryOf]

/-- A table that stores no empty vector is itself with nothing appended. -/
theorem nil (hne : NoEmptyVec s₀) : Appended s₀ [] s₀ where
  lookup_eq k := by
    simp only [List.filter_nil, List.append_nil, DentryStorage.vecOf]
    cases hl : s₀.table4Dentry.lookup k with
    | none => rfl
    | some vec => exact (entryOf_of_ne_nil (hne ⟨k, vec⟩ (AList.mem_lookup_iff.mp hl))).symm
  nDentry_eq := rfl

/-- With nothing left appended, every entry is that of `s₀` again. -/
theorem lookup_of_nil (h : Appended s₀ [] s) (hne : NoEmptyVec s₀)
    (k : Key4Dentry) : s.table4Dentry.lookup k = s₀.table4Dentry.lookup k := by
  rw [h.lookup_eq, (nil hne).lookup_eq]

/-- A write of one key `k` that leaves there what `added'` appends, where `added'` and `added`
append the same elsewhere. -/
theorem update (h : Appended s₀ added s) {s' : DentryStorage} {k : Key4Dentry}
    {added' : List Dentry}
    (hk : s'.table4Dentry.lookup k = entryOf (s₀.vecOf k ++ added'.filter (dentryKey · = k)))
    (hother : ∀ k', k' ≠ k → s'.table4Dentry.lookup k' = s.table4Dentry.lookup k')
    (hadded : ∀ k', k' ≠ k →
      added'.filter (dentryKey · = k') = added.filter (dentryKey · = k'))
    (hn : s'.nDentry = s₀.nDentry + added'.length) : Appended s₀ added' s' where
  lookup_eq k' := by
    by_cases hk' : k' = k
    · rw [hk', hk]
    · rw [hother k' hk', h.lookup_eq, hadded k' hk']
  nDentry_eq := hn

/-- The vector of a dentry's key holds an equal dentry exactly when one was appended, when
none was stored in `s₀`. -/
theorem any_equal (h : Appended s₀ added s) {d : Dentry}
    (hd : ∀ x ∈ s₀.vecOf (dentryKey d), x.equal d = false) :
    (s.vecOf (dentryKey d)).any (·.equal d) = added.any (·.equal d) := by
  have hstored : (s₀.vecOf (dentryKey d)).any (·.equal d) = false :=
    List.any_eq_false.mpr fun x hx => by simp [hd x hx]
  rw [h.vecOf_eq, List.any_append, hstored, Bool.false_or, List.any_filter]
  congr 1
  funext x
  cases hx : x.equal d
  · simp
  · simp [Dentry.dentryKey_eq_of_equal hx]

/-- Appending one more dentry: only its key's filter changes. -/
theorem filter_append_of_ne {d : Dentry} {k' : Key4Dentry} (hk' : k' ≠ dentryKey d) :
    (added ++ [d]).filter (dentryKey · = k') = added.filter (dentryKey · = k') := by
  simp [List.filter_append, Ne.symm hk']

/-- A prepare of a dentry not stored in `s₀`: it fails and changes nothing, or it appends the
dentry unless an equal one is appended already. -/
theorem handleTx_prepare (h : Appended s₀ added s) {d : Dentry}
    (hd : ∀ x ∈ s₀.vecOf (dentryKey d), x.equal d = false) (ok : KVCall → Bool) :
    s.handleTx ok .PREPARE d = (s, .STORAGE_INTERNAL_ERROR) ∨
      ((s.handleTx ok .PREPARE d).2 = .OK ∧
        Appended s₀ (if added.any (·.equal d) then added else added ++ [d])
          (s.handleTx ok .PREPARE d).1) := by
  have hany := h.any_equal hd
  have hvec := h.vecOf_eq (dentryKey d)
  by_cases hget : ok .sGet = true
  swap
  · left
    simp [handleTx_prepare_eq, hget]
  by_cases hset : ok .sSet = true
  swap
  · left
    simp [handleTx_prepare_eq, hget, DentryStorage.sSet, hset]
  right
  cases hadd : added.any (·.equal d)
  · -- no equal dentry appended yet: `d` is appended and counted
    have hstep : s.handleTx ok .PREPARE d =
        (⟨s.table4Dentry.insert (dentryKey d) (s.vecOf (dentryKey d) ++ [d]), s.nDentry + 1⟩,
          .OK) := by
      simp [handleTx_prepare_eq, DentryVector.insert_ofVec, hany, hadd, hget, hset,
        DentryStorage.sSet, DentryVector.confirm_of_nPendingDel_zero]
    rw [hstep]
    refine ⟨rfl, h.update ?_ (fun k' hk => AList.lookup_insert_ne hk)
      (fun k' hk => filter_append_of_ne hk) ?_⟩
    · rw [AList.lookup_insert, if_neg Bool.false_ne_true, List.filter_append,
        ← List.append_assoc, ← hvec]
      simp [entryOf]
    · rw [if_neg Bool.false_ne_true, h.nDentry_eq, List.length_append]
      rfl
  · -- an equal dentry is appended: the vector is written back as it was
    have hne : s.vecOf (dentryKey d) ≠ [] := by
      intro hnil
      rw [← hany, hnil] at hadd
      simp at hadd
    have hstep : s.handleTx ok .PREPARE d =
        (⟨s.table4Dentry.insert (dentryKey d) (s.vecOf (dentryKey d)), s.nDentry⟩, .OK) := by
      simp [handleTx_prepare_eq, DentryVector.insert_ofVec, hany, hadd, hget, hset,
        DentryStorage.sSet]
    rw [hstep]
    refine ⟨rfl, h.update ?_ (fun k' hk => AList.lookup_insert_ne hk) (fun _ _ => rfl) ?_⟩
    · rw [AList.lookup_insert, if_pos rfl, ← hvec, entryOf_of_ne_nil hne]
    · rw [if_pos rfl, h.nDentry_eq]

/-- A rollback, every call succeeding, of a dentry not stored in `s₀` erases the first equal
dentry appended. -/
theorem handleTx_rollback (h : Appended s₀ added s) {d : Dentry}
    (hd : ∀ x ∈ s₀.vecOf (dentryKey d), x.equal d = false) :
    (s.handleTx allSucceed .ROLLBACK d).2 = .OK ∧
      Appended s₀ (added.eraseP (·.equal d)) (s.handleTx allSucceed .ROLLBACK d).1 := by
  have hany := h.any_equal hd
  have hvec := h.vecOf_eq (dentryKey d)
  have himp : ∀ x, x.equal d = true → decide (dentryKey x = dentryKey d) = true :=
    fun x hx => by simp [Dentry.dentryKey_eq_of_equal hx]
  -- the vector written back is the stored one with what `added.eraseP` appends, and the count
  -- follows it
  obtain ⟨s', hwb, hk, hother, hn⟩ :=
    @lookup_writeBack s (dentryKey d) ((DentryVector.ofVec (s.vecOf (dentryKey d))).delete d)
  have hvvec : ((DentryVector.ofVec (s.vecOf (dentryKey d))).delete d).vec =
      s₀.vecOf (dentryKey d) ++ (added.eraseP (·.equal d)).filter (dentryKey · = dentryKey d) := by
    rw [DentryVector.delete_vec, DentryVector.ofVec_vec, hvec,
      List.eraseP_append_right _ (fun x hx => by simp [hd x hx]),
      ← @DingoFs.Lib.filter_eraseP_of_imp Dentry (·.equal d) (dentryKey · = dentryKey d) added himp]
  have hcount : ((DentryVector.ofVec (s.vecOf (dentryKey d))).delete d).confirm s.nDentry =
      s₀.nDentry + (added.eraseP (·.equal d)).length := by
    rw [DentryVector.delete_ofVec, hany, h.nDentry_eq, List.length_eraseP]
    cases hadd : added.any (·.equal d)
    · simp
    · obtain ⟨x, hx, -⟩ := List.any_eq_true.mp hadd
      have hpos : 0 < added.length := List.length_pos_of_mem hx
      rw [if_pos rfl, if_pos rfl, DentryVector.confirm_of_one_del (by omega)]
      omega
  have hstep : s.handleTx allSucceed .ROLLBACK d = (s', .OK) := by
    rw [handleTx_rollback_eq, hwb]
    rfl
  rw [hstep]
  refine ⟨rfl, h.update ?_ hother (fun k' hk' => ?_) ?_⟩
  · rw [hk, hvvec]
  · -- the dentry erased is of the key written, not of `k'`
    refine DingoFs.Lib.filter_eraseP_of_not fun x hx => ?_
    simp [Dentry.dentryKey_eq_of_equal hx, Ne.symm hk']
  · rw [hn, hcount]

end Appended

section Runs

variable {s₀ : DentryStorage}

/-- The prepare of dentries none of which is stored in `s₀`: what it appends, up to the first
call that fails, are some of these dentries, no two equal. -/
theorem forEachDentry_prepare :
    ∀ (dentrys added : List Dentry) (s : DentryStorage) (ok : Nat → KVCall → Bool),
      Appended s₀ added s → (∀ d ∈ dentrys, ∀ x ∈ s₀.vecOf (dentryKey d), x.equal d = false) →
      added.Pairwise (fun x y => x.equal y = false) →
      ∃ added', Appended s₀ added' (forEachDentry .PREPARE s ok dentrys).1 ∧
        added'.Pairwise (fun x y => x.equal y = false) ∧ ∀ a ∈ added', a ∈ added ∨ a ∈ dentrys
  | [], added, s, _, h, _, hp => ⟨added, h, hp, fun _ ha => Or.inl ha⟩
  | d :: ds, added, s, ok, h, habs, hp => by
    rcases h.handleTx_prepare (habs d List.mem_cons_self) (ok 0) with hfail | ⟨hok, h₁⟩
    · -- the call failed: the run stops with the storage as it was
      refine ⟨added, ?_, hp, fun _ ha => Or.inl ha⟩
      rw [forEachDentry_cons_of_ne_ok (by rw [hfail]; exact nofun), hfail]
      exact h
    · -- `d` is appended unless an equal dentry was
      have hp₁ : (if added.any (·.equal d) then added else added ++ [d]).Pairwise
          (fun x y => x.equal y = false) := by
        cases hadd : added.any (·.equal d)
        · rw [if_neg Bool.false_ne_true]
          refine List.pairwise_append.mpr ⟨hp, List.pairwise_singleton _ _, ?_⟩
          intro x hx y hy
          rw [List.mem_singleton.mp hy]
          exact Bool.eq_false_iff.mpr fun hxd => by
            simp [List.any_eq_false.mp hadd x hx] at hxd
        · rwa [if_pos rfl]
      obtain ⟨added', h', hp', hmem⟩ := forEachDentry_prepare ds _ _ (fun i => ok (i + 1)) h₁
        (fun d' hd' => habs d' (List.mem_cons_of_mem d hd')) hp₁
      refine ⟨added', ?_, hp', fun a ha => ?_⟩
      · rw [forEachDentry_cons_of_ok hok]
        exact h'
      · rcases hmem a ha with ha | ha
        · split_ifs at ha
          · exact Or.inl ha
          · rcases List.mem_append.mp ha with ha | ha
            · exact Or.inl ha
            · exact Or.inr (List.mem_singleton.mp ha ▸ List.mem_cons_self)
        · exact Or.inr (List.mem_cons_of_mem d ha)

/-- The rollback, every call succeeding, of dentries none of which is stored in `s₀`, after
appending dentries, no two equal and each equal to one of them: nothing is left appended. -/
theorem forEachDentry_rollback :
    ∀ (dentrys added : List Dentry) (s : DentryStorage),
      Appended s₀ added s → (∀ d ∈ dentrys, ∀ x ∈ s₀.vecOf (dentryKey d), x.equal d = false) →
      added.Pairwise (fun x y => x.equal y = false) → (∀ a ∈ added, ∃ d ∈ dentrys, a.equal d) →
      ∃ s', forEachDentry .ROLLBACK s (fun _ => allSucceed) dentrys = (s', true) ∧
        Appended s₀ [] s'
  | [], added, s, h, _, _, hcov => by
    have hnil : added = [] :=
      List.eq_nil_iff_forall_not_mem.mpr fun a ha => by simpa using hcov a ha
    exact ⟨s, rfl, hnil ▸ h⟩
  | d :: ds, added, s, h, habs, hp, hcov => by
    obtain ⟨hok, h₁⟩ := h.handleTx_rollback (habs d List.mem_cons_self)
    -- what is left appended is equal to a later dentry, since no two appended are equal
    have hcov₁ : ∀ a ∈ added.eraseP (·.equal d), ∃ d' ∈ ds, a.equal d' := by
      intro a ha
      have hboth : added.Pairwise fun x y => ¬ (x.equal d = true ∧ y.equal d = true) :=
        hp.imp fun hxy ⟨hx, hy⟩ => by
          simp [Dentry.equal_trans hx (Dentry.equal_symm hy)] at hxy
      have hne : a.equal d = false := DingoFs.Lib.not_of_mem_eraseP hboth ha
      obtain ⟨d', hd', had'⟩ := hcov a (List.mem_of_mem_eraseP ha)
      rcases List.mem_cons.mp hd' with rfl | hd'
      · simp [hne] at had'
      · exact ⟨d', hd', had'⟩
    obtain ⟨s', hrun, h'⟩ := forEachDentry_rollback ds _ _ h₁
      (fun d' hd' => habs d' (List.mem_cons_of_mem d hd')) (hp.eraseP _) hcov₁
    exact ⟨s', by rw [forEachDentry_cons_of_ok hok]; exact hrun, h'⟩

/-- A prepare, whatever its storage calls do, then a rollback whose calls succeed, of a
transaction none of whose dentries is stored, on a table that stores no empty vector: the
table and the dentry count are as before. -/
theorem rollback_after_prepare (hne : NoEmptyVec s₀) {tx : RenameTx}
    (habs : ∀ d ∈ tx.dentrys, ∀ x ∈ s₀.vecOf (dentryKey d), x.equal d = false)
    (ok : Nat → KVCall → Bool) :
    ∃ s', tx.rollback (tx.prepare s₀ ok).1 (fun _ => allSucceed) = (s', true) ∧
      (∀ k, s'.table4Dentry.lookup k = s₀.table4Dentry.lookup k) ∧ s'.nDentry = s₀.nDentry := by
  obtain ⟨added, hprep, hp, hmem⟩ :=
    forEachDentry_prepare tx.dentrys [] s₀ ok (Appended.nil hne) habs List.Pairwise.nil
  have hcov : ∀ a ∈ added, ∃ d ∈ tx.dentrys, a.equal d := by
    intro a ha
    rcases hmem a ha with ha | ha
    · simp at ha
    · exact ⟨a, ha, Dentry.equal_self a⟩
  obtain ⟨s', hrun, h'⟩ := forEachDentry_rollback tx.dentrys added _ hprep habs hp hcov
  exact ⟨s', hrun, h'.lookup_of_nil hne, by rw [h'.nDentry_eq]; rfl⟩

/-- The rollback law on every table a run of the partition's requests reaches. -/
theorem rollback_after_prepare_of_serve (rs : List TxRequest) {tx : RenameTx}
    (habs : ∀ d ∈ tx.dentrys,
      ∀ x ∈ (rs.foldl TxManager.serve .empty).storage.vecOf (dentryKey d), x.equal d = false)
    (ok : Nat → KVCall → Bool) :
    let s₀ := (rs.foldl TxManager.serve .empty).storage
    ∃ s', tx.rollback (tx.prepare s₀ ok).1 (fun _ => allSucceed) = (s', true) ∧
      (∀ k, s'.table4Dentry.lookup k = s₀.table4Dentry.lookup k) ∧ s'.nDentry = s₀.nDentry :=
  rollback_after_prepare (noEmptyVec_serve rs) habs ok

end Runs

/-! ## Committing

`Commit` runs `Find` with compression at the pending txid on each dentry. Where `Find` reads
the key right there (`Readable`), it leaves under the key just what the versioned map shows,
and a second `Find` on the same key changes nothing more. -/

theorem hasDeleteMarkFlag_of_versionView {vec : List Dentry} {T : Nat} {x : Dentry}
    (h : versionView vec T = some x) : hasDeleteMarkFlag x = false := by
  unfold versionView at h
  obtain ⟨-, hx⟩ := Option.filter_eq_some_iff.mp h
  simpa using hx

/-- Key `k` of `s` shows at or below `T` just what the versioned map of `s₁` shows at `T`. -/
structure Compressed (s₁ : DentryStorage) (T : Nat) (s : DentryStorage) (k : Key4Dentry) :
    Prop where
  visible_eq : visibleVersions (s.vecOf k) T = (s₁.view k T).toList
  key_eq : ∀ x ∈ s.vecOf k, dentryKey x = k

namespace Compressed

variable {s₁ s s' : DentryStorage} {T : Nat} {k : Key4Dentry}

theorem of_vecOf_eq (h : Compressed s₁ T s k) (he : s'.vecOf k = s.vecOf k) :
    Compressed s₁ T s' k :=
  ⟨he ▸ h.visible_eq, he ▸ h.key_eq⟩

theorem readable (h : Compressed s₁ T s k) : Readable k (s.vecOf k) T :=
  Readable.of_visible_perm (s₁.view k T) h.key_eq (List.Perm.of_eq h.visible_eq)

theorem view_eq (h : Compressed s₁ T s k) : s.view k T = s₁.view k T := by
  have hv := h.visible_eq
  show versionView (s.vecOf k) T = s₁.view k T
  cases ho : s₁.view k T with
  | none =>
    rw [ho] at hv
    exact versionView_of_visible_eq_nil hv
  | some x =>
    -- the one version left is live, as the map shows it
    rw [ho] at hv
    rw [versionView_of_visible_eq_singleton hv, hasDeleteMarkFlag_of_versionView ho]
    rfl

end Compressed

/-- `HandleTx(COMMIT)`, every call succeeding, at the txid `T` of a key that `Find` reads right
in `s₁` and that is as in `s₁` or compressed already: the key ends compressed, every other key
as it was. -/
theorem handleTx_commit {s₁ s : DentryStorage} {T : Nat} {d : Dentry} (hT : d.txid = T)
    (hread : Readable (dentryKey d) (s₁.vecOf (dentryKey d)) T)
    (hk : s.vecOf (dentryKey d) = s₁.vecOf (dentryKey d) ∨ Compressed s₁ T s (dentryKey d)) :
    ∃ s', s.handleTx allSucceed .COMMIT d = (s', .OK) ∧ Compressed s₁ T s' (dentryKey d) ∧
      ∀ k, k ≠ dentryKey d → s'.vecOf k = s.vecOf k := by
  subst hT
  -- the key reads right in `s` too, and shows what it shows in `s₁`
  have hread' : Readable (dentryKey d) (s.vecOf (dentryKey d)) d.txid := by
    rcases hk with he | hc
    · rw [he]
      exact hread
    · exact hc.readable
  have hview : s.view (dentryKey d) d.txid = s₁.view (dentryKey d) d.txid := by
    rcases hk with he | hc
    · unfold DentryStorage.view
      rw [he]
    · exact hc.view_eq
  obtain ⟨s', vec', hfind, hst, hvis, hkey⟩ := DentryStorage.find_compress_of_readable hread'
  refine ⟨s', ?_, ⟨?_, ?_⟩, fun k hk => ?_⟩
  · -- `Find` answers `OK` or `NOT_FOUND`, and the commit takes both as `OK`
    have hrc : findStatus (s.view (dentryKey d) d.txid) = .OK ∨
        findStatus (s.view (dentryKey d) d.txid) = .NOT_FOUND := by
      cases s.view (dentryKey d) d.txid <;> simp [findStatus]
    simp [DentryStorage.handleTx, hfind, hrc]
  · -- a permutation of at most one version is that version
    rw [hst.vecOf_eq, ← hview]
    cases ho : s.view (dentryKey d) d.txid with
    | none =>
      rw [ho] at hvis
      exact List.perm_nil.mp hvis
    | some x =>
      rw [ho] at hvis
      exact List.perm_singleton.mp hvis
  · rw [hst.vecOf_eq]
    exact hkey
  · unfold DentryStorage.vecOf
    rw [hst.lookup_ne k hk]

/-- The commit run, every call succeeding, of dentries of the txid `T` whose keys `Find` reads
right in `s₁`: each key ends compressed, and keys of no dentry are as they were. -/
theorem forEachDentry_commit {s₁ : DentryStorage} {T : Nat} :
    ∀ (dentrys : List Dentry) (s : DentryStorage), (∀ d ∈ dentrys, d.txid = T) →
      (∀ d ∈ dentrys, Readable (dentryKey d) (s₁.vecOf (dentryKey d)) T) →
      (∀ d ∈ dentrys,
        s.vecOf (dentryKey d) = s₁.vecOf (dentryKey d) ∨ Compressed s₁ T s (dentryKey d)) →
      ∃ s', forEachDentry .COMMIT s (fun _ => allSucceed) dentrys = (s', true) ∧
        (∀ d ∈ dentrys, Compressed s₁ T s' (dentryKey d)) ∧
        ∀ k, (∀ d ∈ dentrys, dentryKey d ≠ k) → s'.vecOf k = s.vecOf k
  | [], s, _, _, _ => ⟨s, rfl, by simp, fun _ _ => rfl⟩
  | d :: ds, s, hT, hread, hk => by
    obtain ⟨s₂, hstep, hc, hother⟩ :=
      handleTx_commit (hT d List.mem_cons_self) (hread d List.mem_cons_self)
        (hk d List.mem_cons_self)
    -- the later dentries find their keys as in `s₁` or compressed
    have hk₂ : ∀ d' ∈ ds, s₂.vecOf (dentryKey d') = s₁.vecOf (dentryKey d') ∨
        Compressed s₁ T s₂ (dentryKey d') := by
      intro d' hd'
      by_cases hkey : dentryKey d' = dentryKey d
      · rw [hkey]
        exact Or.inr hc
      · rcases hk d' (List.mem_cons_of_mem d hd') with he | hc'
        · exact Or.inl ((hother _ hkey).trans he)
        · exact Or.inr (hc'.of_vecOf_eq (hother _ hkey))
    obtain ⟨s', hrun, hcs, hrest⟩ := forEachDentry_commit ds s₂
      (fun d' hd' => hT d' (List.mem_cons_of_mem d hd'))
      (fun d' hd' => hread d' (List.mem_cons_of_mem d hd')) hk₂
    refine ⟨s', ?_, fun d' hd' => ?_, fun k hk' => ?_⟩
    · rw [forEachDentry_cons_of_ok (by rw [hstep]), hstep]
      exact hrun
    · rcases List.mem_cons.mp hd' with rfl | hd'
      · -- `d` itself: compressed now, and a later dentry of its key compresses it again
        by_cases hlater : ∃ d'' ∈ ds, dentryKey d'' = dentryKey d'
        · obtain ⟨d'', hd'', hkey⟩ := hlater
          rw [← hkey]
          exact hcs d'' hd''
        · simp only [not_exists, not_and] at hlater
          exact hc.of_vecOf_eq (hrest _ hlater)
      · exact hcs d' hd'
    · rw [hrest k (fun d' hd' => hk' d' (List.mem_cons_of_mem d hd')),
        hother k (Ne.symm (hk' d List.mem_cons_self))]

/-- A commit, every call succeeding, of a transaction whose dentries share the txid `T` and
whose keys `Find` reads right at `T`: each key shows at or below `T` just what the versioned
map showed there, and `Get` of each dentry answers as before. -/
theorem commit_compresses {s₁ : DentryStorage} {tx : RenameTx} {T : Nat}
    (hT : ∀ d ∈ tx.dentrys, d.txid = T)
    (hread : ∀ d ∈ tx.dentrys, Readable (dentryKey d) (s₁.vecOf (dentryKey d)) T) :
    ∃ s', tx.commit s₁ (fun _ => allSucceed) = (s', true) ∧ ∀ d ∈ tx.dentrys,
      visibleVersions (s'.vecOf (dentryKey d)) T = (s₁.view (dentryKey d) T).toList ∧
        s'.get allSucceed d = s₁.get allSucceed d := by
  obtain ⟨s', hrun, hcs, -⟩ := forEachDentry_commit tx.dentrys s₁ hT hread
    (fun _ _ => Or.inl rfl)
  refine ⟨s', hrun, fun d hd => ⟨(hcs d hd).visible_eq, ?_⟩⟩
  -- both reads are right, and the map they read is the same
  have hread' := (hcs d hd).readable
  have hread₁ := hread d hd
  rw [← hT d hd] at hread' hread₁
  rw [DentryStorage.get_of_readable hread', DentryStorage.get_of_readable hread₁, hT d hd,
    (hcs d hd).view_eq]

/-! ## Settling the pending transaction -/

/-- A rename transaction is settled by the next request with a larger sequence. Rolled back
(the request's txid not past the pending one), every storage call succeeding, after a prepare,
whatever its calls did, of dentries none of which was stored, on a table that stores no empty
vector: every entry and the dentry count are as before the prepare. Committed (the txid past
the pending one), every call succeeding, where `Find` reads each key of the transaction right at
the pending txid: each key shows at or below it just what the versioned map showed, and `Get`
of each dentry answers as before. Either way the request then prepares its own transaction. -/
theorem handleRenameTx_settles_pending :
    (∀ (m₀ m₁ : TxManager) (okPending okPrepare : Nat → KVCall → Bool) (first : Dentry)
        (rest : List Dentry) (rc : MetaStatusCode),
      m₀.pendingTx = none → TxManager.preCheck (first :: rest) = .OK →
      (∀ e ∈ m₀.storage.table4Dentry.entries, e.2 ≠ []) →
      (∀ d ∈ first :: rest, ∀ x ∈ m₀.storage.vecOf (dentryKey d), x.equal d = false) →
      m₀.handleRenameTx okPending okPrepare (first :: rest) = (m₁, rc) →
      ∀ (first' : Dentry) (rest' : List Dentry) (okPrepare' : Nat → KVCall → Bool),
        TxManager.preCheck (first' :: rest') = .OK → first'.txid ≤ first.txid →
        first.txsequence < first'.txsequence →
        ∃ m₂, m₁.handlePendingTx (fun _ => allSucceed) first'.txid (.ofDentrys first rest) =
            (m₂, true) ∧
          (∀ k, m₂.storage.table4Dentry.lookup k = m₀.storage.table4Dentry.lookup k) ∧
          m₂.storage.nDentry = m₀.storage.nDentry ∧
          m₁.handleRenameTx (fun _ => allSucceed) okPrepare' (first' :: rest') =
            m₂.deletePendingTx.prepareRenameTx okPrepare' (.ofDentrys first' rest')) ∧
    (∀ (m₁ : TxManager) (first : Dentry) (rest : List Dentry),
      m₁.pendingTx = some (.ofDentrys first rest) → TxManager.preCheck (first :: rest) = .OK →
      (∀ d ∈ first :: rest, Readable (dentryKey d) (m₁.storage.vecOf (dentryKey d)) first.txid) →
      ∀ (first' : Dentry) (rest' : List Dentry) (okPrepare' : Nat → KVCall → Bool),
        TxManager.preCheck (first' :: rest') = .OK → first.txid < first'.txid →
        first.txsequence < first'.txsequence →
        ∃ m₂, m₁.handlePendingTx (fun _ => allSucceed) first'.txid (.ofDentrys first rest) =
            (m₂, true) ∧
          (∀ d ∈ first :: rest,
            visibleVersions (m₂.storage.vecOf (dentryKey d)) first.txid =
                (m₁.storage.view (dentryKey d) first.txid).toList ∧
              m₂.storage.get allSucceed d = m₁.storage.get allSucceed d) ∧
          m₁.handleRenameTx (fun _ => allSucceed) okPrepare' (first' :: rest') =
            m₂.deletePendingTx.prepareRenameTx okPrepare' (.ofDentrys first' rest')) := by
  refine ⟨?rollback, ?commit⟩
  case rollback =>
    intro m₀ m₁ okPending okPrepare first rest rc hm₀ hpre hne habs hm₁ first' rest' okPrepare'
      hpre' htx hseq
    -- the first request inserted its transaction and prepared it on the table of `m₀`
    have hm₁' : m₁ = ⟨((RenameTx.ofDentrys first rest).prepare m₀.storage okPrepare).1,
        some (.ofDentrys first rest)⟩ := by
      rw [TxManager.handleRenameTx_of_none hpre hm₀] at hm₁
      rw [← TxManager.prepareRenameTx_of_none hm₀, hm₁]
    obtain ⟨s', hroll, hlookup, hcount⟩ :=
      @rollback_after_prepare m₀.storage hne (.ofDentrys first rest) habs okPrepare
    have hsettle : m₁.handlePendingTx (fun _ => allSucceed) first'.txid (.ofDentrys first rest) =
        (⟨s', m₁.pendingTx⟩, true) := by
      have hback : ¬ first'.txid > (RenameTx.ofDentrys first rest).txId := Nat.not_lt.mpr htx
      rw [TxManager.handlePendingTx_eq, if_neg hback, hm₁', hroll]
    refine ⟨⟨s', m₁.pendingTx⟩, hsettle, hlookup, hcount, ?_⟩
    exact TxManager.handleRenameTx_of_settled hpre' (by rw [hm₁']) hseq hsettle
  case commit =>
    intro m₁ first rest hm₁ hpre hread first' rest' okPrepare' hpre' htx hseq
    obtain ⟨s', hcommit, hcs⟩ := @commit_compresses m₁.storage (.ofDentrys first rest) first.txid
      (TxManager.txid_eq_of_preCheck hpre) hread
    have hsettle : m₁.handlePendingTx (fun _ => allSucceed) first'.txid (.ofDentrys first rest) =
        (⟨s', m₁.pendingTx⟩, true) := by
      have hpast : first'.txid > (RenameTx.ofDentrys first rest).txId := htx
      rw [TxManager.handlePendingTx_eq, if_pos hpast, hcommit]
    exact ⟨⟨s', m₁.pendingTx⟩, hsettle, hcs,
      TxManager.handleRenameTx_of_settled hpre' hm₁ hseq hsettle⟩

/-- The name `a` of inode 10 in directory 1, written at txid 1. -/
def nameA : DentryStorage :=
  ⟨(∅ : AList fun _ : Key4Dentry => List Dentry).insert ⟨1, 1, "a"⟩ [dentryAt 1 10], 1⟩

/-- The rename of `a` to `b` at txid 2 and sequence 1: `a` with the delete mark, then `b`. -/
def renameFrom : Dentry := ⟨1, 10, 1, "a", 2, ⟨false, true, false⟩, 1⟩

def renameTo : Dentry := ⟨1, 10, 1, "b", 2, ⟨false, false, false⟩, 1⟩

/-- The manager once that rename is prepared. -/
def renamePrepared : TxManager :=
  ((⟨nameA, none⟩ : TxManager).handleRenameTx (fun _ => allSucceed) (fun _ => allSucceed)
    [renameFrom, renameTo]).1

/-- A retry of the rename at txid 2 with sequence 2, and a later rename at txid 3. -/
def renameRetry : Dentry := ⟨1, 10, 1, "b", 2, ⟨false, false, false⟩, 2⟩

def renameLater : Dentry := ⟨1, 10, 1, "c", 3, ⟨false, false, false⟩, 2⟩

/-- The retry rolls the rename back and gives back the table of `a`; the later rename commits
it, dropping both versions of `a` and keeping `b`. -/
theorem rename_of_a_to_b_settled :
    (∃ m₂, renamePrepared.handlePendingTx (fun _ => allSucceed) renameRetry.txid
          (.ofDentrys renameFrom [renameTo]) = (m₂, true) ∧
        (∀ k, m₂.storage.table4Dentry.lookup k = nameA.table4Dentry.lookup k) ∧
        m₂.storage.nDentry = nameA.nDentry ∧
        renamePrepared.handleRenameTx (fun _ => allSucceed) (fun _ => allSucceed) [renameRetry] =
          m₂.deletePendingTx.prepareRenameTx (fun _ => allSucceed) (.ofDentrys renameRetry [])) ∧
      (∃ m₂, renamePrepared.handlePendingTx (fun _ => allSucceed) renameLater.txid
          (.ofDentrys renameFrom [renameTo]) = (m₂, true) ∧
        (∀ d ∈ [renameFrom, renameTo],
          visibleVersions (m₂.storage.vecOf (dentryKey d)) renameFrom.txid =
              (renamePrepared.storage.view (dentryKey d) renameFrom.txid).toList ∧
            m₂.storage.get allSucceed d = renamePrepared.storage.get allSucceed d) ∧
        renamePrepared.handleRenameTx (fun _ => allSucceed) (fun _ => allSucceed) [renameLater] =
          m₂.deletePendingTx.prepareRenameTx (fun _ => allSucceed) (.ofDentrys renameLater [])) :=
  ⟨handleRenameTx_settles_pending.1 ⟨nameA, none⟩ renamePrepared (fun _ => allSucceed)
      (fun _ => allSucceed) renameFrom [renameTo] _ rfl (by decide) (by decide) (by decide) rfl
      renameRetry [] (fun _ => allSucceed) (by decide) (by decide) (by decide),
    handleRenameTx_settles_pending.2 renamePrepared renameFrom [renameTo] (by decide) (by decide)
      (by decide) renameLater [] (fun _ => allSucceed) (by decide) (by decide) (by decide)⟩

/-- The name `a` with the delete mark at txid 1, and a dentry of `a` for inode 6 at txid 1 and
sequence 1, not stored. -/
def markedA : DentryStorage :=
  ⟨(∅ : AList fun _ : Key4Dentry => List Dentry).insert ⟨1, 1, "a"⟩
    [⟨1, 5, 1, "a", 1, ⟨false, true, false⟩, 0⟩], 1⟩

def liveA : Dentry := ⟨1, 6, 1, "a", 1, ⟨false, false, false⟩, 1⟩

/-- Preparing `liveA` stores a second version at txid 1, which the `BTree` of `Find` drops as
equivalent to the first: `Get` at txid 1 answers `NOT_FOUND`. The commit by a request at txid 2
deletes the delete-marked version it sees, and `Get` then finds `liveA`. -/
theorem commit_reveals_dentry_of_same_txid :
    (∀ x ∈ markedA.vecOf (dentryKey liveA), x.equal liveA = false) ∧
      ((⟨markedA, none⟩ : TxManager).handleRenameTx (fun _ => allSucceed) (fun _ => allSucceed)
        [liveA]).1.storage.get allSucceed liveA = (.NOT_FOUND, liveA) ∧
      (((⟨markedA, none⟩ : TxManager).handleRenameTx (fun _ => allSucceed)
        (fun _ => allSucceed) [liveA]).1.handlePendingTx (fun _ => allSucceed) 2
          (.ofDentrys liveA [])).1.storage.get allSucceed liveA = (.OK, liveA) := by
  decide

end DingoFs.Metaserver
