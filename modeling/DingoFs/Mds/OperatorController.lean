import Mathlib.Data.List.AList
import Mathlib.Tactic.Ring

/-!
# The scheduler's operator controller: `OperatorControllerT`

The controller keeps at most one operator per copyset in `operators_` and, in `opInfluence_`,
for each metaserver the number of stored operators that affect it (`AffectedChunkServers`: the
target of an `AddPeer` or `ChangePeer` step). `AddOperator` refuses an operator that would take
a server past `operatorConcurrent_` (`AddOpInfluencePreJudgeLocked`), and replaces a stored
operator of lower priority when the servers' counts allow the swap
(`ReplaceOpInfluencePreJudgeLocked`); `RemoveOperator` and `ApplyOperator` drop operators and
their influence; `Exceed` compares a server's count with the limit.

Every call but one keeps `opInfluence_` equal to the count of stored operators affecting each
server (`influenceExact_of_call`). The replace branch of `AddOperator` first overwrites the
map slot (`operators_[op.copysetID] = op`) and then passes `exist->second`, the overwritten
slot, as the old operator to `UpdateReplaceOpInfluenceLocked`: it takes the new operator's
influence off and puts it back, and the old operator's influence stays
(`addOperator_replace_keeps_old_influence`).

`AddOpInfluencePreJudgeLocked` reads `opInfluence_[id]`, which makes a zero entry for a server
that has none, so a refused `AddOperator` may leave one: it changes no count
(`addOperator_of_refused`), and `Exceed` of a server whose entry is zero differs from one with
no entry only when `operatorConcurrent_ ≤ 0`. The reads of `ReplaceOpInfluencePreJudgeLocked`
are left out: which servers a refused replacement reads depends on the order of `IdType` in its
`std::map`, and like the others they change no count.
-/

namespace DingoFs.Mds.Schedule

/-- `CopySetKey`: the logical pool id and the copyset id. -/
abbrev CopySetKey := Nat × Nat

/-- `OperatorPriority`. -/
inductive OperatorPriority
  | LowPriority
  | NormalPriority
  | HighPriority
deriving DecidableEq, Repr

/-- The value of the enumerator, which `<` on priorities compares. -/
def OperatorPriority.toNat : OperatorPriority → Nat
  | .LowPriority => 0
  | .NormalPriority => 1
  | .HighPriority => 2

/-- `ApplyStatus`. -/
inductive ApplyStatus
  | Finished
  | Failed
  | Ordered
  | OnGoing
deriving DecidableEq, Repr

/-- The step of an operator, by its class, with the peers it names. -/
inductive OperatorStep (Id : Type)
  | transferLeader (from_ to_ : Id)
  | addPeer (add_ : Id)
  | removePeer (remove_ : Id)
  | changePeer (old_ new_ : Id)
  | scanPeer (scan_ : Id)
deriving DecidableEq, Repr

/-- An `OperatorT`, with the fields the controller reads. -/
structure Operator (Id : Type) where
  copysetID : CopySetKey
  priority : OperatorPriority
  step : OperatorStep Id
deriving DecidableEq, Repr

/-- `OperatorT::AffectedChunkServers`: the target of an `AddPeer` or `ChangePeer` step. -/
def Operator.affectedChunkServers {Id : Type} (op : Operator Id) : List Id :=
  match op.step with
  | .addPeer add_ => [add_]
  | .changePeer _ new_ => [new_]
  | _ => []

/-- The state of an `OperatorControllerT`: the limit, `operators_` by copyset, and
`opInfluence_`, whose missing entries are `none`. -/
structure OperatorController (Id : Type) where
  operatorConcurrent : Int
  operators : AList (fun _ : CopySetKey => Operator Id)
  opInfluence : Id → Option Int

namespace OperatorController

variable {Id : Type} [DecidableEq Id]

/-- A controller constructed with limit `concurrent`. -/
def init (concurrent : Int) : OperatorController Id := ⟨concurrent, ∅, fun _ => none⟩

/-- `opInfluence_[id]` as a value: a missing entry reads as zero. -/
def influence (c : OperatorController Id) (id : Id) : Int := (c.opInfluence id).getD 0

/-- `opInfluence_[id] += d`, which first makes a missing entry. -/
def bumpInfluence (d : Int) (m : Id → Option Int) (id : Id) : Id → Option Int :=
  Function.update m id (some ((m id).getD 0 + d))

/-- `UpdateAddOpInfluenceLocked`. -/
def updateAddOpInfluenceLocked (m : Id → Option Int) (op : Operator Id) : Id → Option Int :=
  op.affectedChunkServers.foldl (bumpInfluence 1) m

/-- `UpdateRemoveOpInfluenceLocked`. -/
def updateRemoveOpInfluenceLocked (m : Id → Option Int) (op : Operator Id) : Id → Option Int :=
  op.affectedChunkServers.foldl (bumpInfluence (-1)) m

/-- `UpdateReplaceOpInfluenceLocked(oldOp, newOp)`. -/
def updateReplaceOpInfluenceLocked (m : Id → Option Int) (oldOp newOp : Operator Id) :
    Id → Option Int :=
  updateAddOpInfluenceLocked (updateRemoveOpInfluenceLocked m oldOp) newOp

/-- `opInfluence_[id]` read through `operator[]`, which makes a missing entry zero. -/
def readInfluence (m : Id → Option Int) (id : Id) : Id → Option Int :=
  Function.update m id (some ((m id).getD 0))

/-- The loop of a pre-judge over `influenceList`: each entry reads `opInfluence_[id]`, and the
first one past the limit ends it with `false`. -/
def preJudgeLoop (concurrent : Int) :
    (Id → Option Int) → List (Id × Int) → Bool × (Id → Option Int)
  | m, [] => (true, m)
  | m, (id, d) :: influenceList =>
    if (m id).getD 0 + d > concurrent then (false, readInfluence m id)
    else preJudgeLoop concurrent (readInfluence m id) influenceList

/-- `AddOpInfluencePreJudgeLocked`: no affected server would pass the limit with the operator
added, and `opInfluence_` after the reads. `influenceList[id]` is how often the operator names
`id`; it names at most one server, so the order of the `std::map` does not matter. -/
def addOpInfluencePreJudgeLocked (c : OperatorController Id) (op : Operator Id) :
    Bool × (Id → Option Int) :=
  preJudgeLoop c.operatorConcurrent c.opInfluence
    (op.affectedChunkServers.dedup.map fun id => (id, (op.affectedChunkServers.count id : Int)))

/-- `ReplaceOpInfluencePreJudgeLocked(oldOp, newOp)`: no server of either operator would pass
the limit with the old one swapped for the new. `influenceList[id]` is how often the new one
names `id` less how often the old one does. -/
def replaceOpInfluencePreJudgeLocked (c : OperatorController Id) (oldOp newOp : Operator Id) :
    Bool :=
  (oldOp.affectedChunkServers ++ newOp.affectedChunkServers).all fun id =>
    decide (c.influence id + ((newOp.affectedChunkServers.count id : Int) -
      oldOp.affectedChunkServers.count id) ≤ c.operatorConcurrent)

/-- `AddOperator`: whether the operator was stored, and the controller after the call. -/
def addOperator (c : OperatorController Id) (op : Operator Id) : Bool × OperatorController Id :=
  match c.operators.lookup op.copysetID with
  | none =>
    match c.addOpInfluencePreJudgeLocked op with
    | (false, opInfluence) => (false, { c with opInfluence := opInfluence })
    | (true, opInfluence) =>
      (true, { c with operators := c.operators.insert op.copysetID op,
                      opInfluence := updateAddOpInfluenceLocked opInfluence op })
  | some exist =>
    if exist.priority.toNat < op.priority.toNat then
      if !c.replaceOpInfluencePreJudgeLocked exist op then (false, c)
      else
        -- `operators_[op.copysetID] = op` overwrites the slot `exist` points to, so
        -- `exist->second` is `op` when the influence is updated
        (true, { c with operators := c.operators.insert op.copysetID op,
                        opInfluence := updateReplaceOpInfluenceLocked c.opInfluence op op })
    else (false, c)

/-- `RemoveOperatorLocked` (and `RemoveOperator`, which only takes the lock). -/
def removeOperatorLocked (c : OperatorController Id) (key : CopySetKey) : OperatorController Id :=
  match c.operators.lookup key with
  | none => c
  | some op => { c with opInfluence := updateRemoveOpInfluenceLocked c.opInfluence op,
                        operators := c.operators.erase key }

/-- `ApplyOperator` for the copyset `key`, with whether the stored operator timed out and what
its step's `Apply` returns: whether a new configuration was given, and the controller after. -/
def applyOperator (c : OperatorController Id) (key : CopySetKey) (timeout : Bool)
    (status : ApplyStatus) : Bool × OperatorController Id :=
  match c.operators.lookup key with
  | none => (false, c)
  | some _ =>
    if timeout then (false, c.removeOperatorLocked key)
    else
      match status with
      | .Failed => (false, c.removeOperatorLocked key)
      | .Finished => (false, c.removeOperatorLocked key)
      | .Ordered => (true, c)
      | .OnGoing => (false, c)

/-- `Exceed(id)`. -/
def exceed (c : OperatorController Id) (id : Id) : Bool :=
  match c.opInfluence id with
  | none => false
  | some v => decide (v ≥ c.operatorConcurrent)

end OperatorController

/-- A call on the controller. -/
inductive ControllerCall (Id : Type)
  | addOperator (op : Operator Id)
  | removeOperator (key : CopySetKey)
  | applyOperator (key : CopySetKey) (timeout : Bool) (status : ApplyStatus)

namespace OperatorController

variable {Id : Type} [DecidableEq Id]

/-- The controller after a call. -/
def call (c : OperatorController Id) : ControllerCall Id → OperatorController Id
  | .addOperator op => (c.addOperator op).2
  | .removeOperator key => c.removeOperatorLocked key
  | .applyOperator key timeout status => (c.applyOperator key timeout status).2

/-- How often the operator of an entry of `operators_` names `id`. -/
def countIn (id : Id) (e : Sigma fun _ : CopySetKey => Operator Id) : Nat :=
  e.2.affectedChunkServers.count id

/-- How many stored operators affect `id`, each counted as often as it names `id`. -/
def affecting (c : OperatorController Id) (id : Id) : Nat :=
  (c.operators.entries.map (countIn id)).sum

/-- `opInfluence_` holds, for every server, the count of the stored operators affecting it. -/
def InfluenceExact (c : OperatorController Id) : Prop :=
  ∀ id, c.influence id = c.affecting id

end OperatorController

/-! ## Counting stored operators -/

section Entries

variable {α : Type} [DecidableEq α] {β : α → Type} (f : Sigma β → Nat)

/-- A sum over an association list is the term of a present key plus the sum over the rest. -/
theorem sum_entries_of_lookup {s : AList β} {k : α} {v : β k} (h : s.lookup k = some v) :
    (s.entries.map f).sum = f ⟨k, v⟩ + ((s.erase k).entries.map f).sum := by
  have hk : k ∈ s.entries.keys := AList.lookup_isSome.mp (by simp [h])
  obtain ⟨b, l₁, l₂, -, hl, hker⟩ := List.exists_of_kerase hk
  -- the entry `kerase` takes out is the one `lookup` finds
  have hvb : v = b := by
    apply s.nodupKeys.eq_of_mk_mem (AList.mem_lookup_iff.mp h)
    rw [hl]
    simp
  subst hvb
  show (s.entries.map f).sum = f ⟨k, v⟩ + ((List.kerase k s.entries).map f).sum
  rw [hker, hl]
  simp only [List.map_append, List.map_cons, List.sum_append, List.sum_cons]
  omega

theorem sum_entries_insert (s : AList β) (k : α) (v : β k) :
    ((s.insert k v).entries.map f).sum = f ⟨k, v⟩ + ((s.erase k).entries.map f).sum := by
  rw [AList.entries_insert, List.map_cons, List.sum_cons]
  rfl

theorem entries_erase_of_lookup_none {s : AList β} {k : α} (h : s.lookup k = none) :
    (s.erase k).entries = s.entries :=
  List.kerase_of_notMem_keys (AList.lookup_eq_none.mp h)

end Entries

namespace OperatorController

variable {Id : Type} [DecidableEq Id] {c : OperatorController Id}

/-- A run of `opInfluence_[id] += d` over a list adds `d` once for each time it names `id`. -/
theorem getD_foldl_bumpInfluence (d : Int) (l : List Id) (m : Id → Option Int) (id : Id) :
    ((l.foldl (bumpInfluence d) m) id).getD 0 = (m id).getD 0 + d * l.count id := by
  induction l generalizing m with
  | nil => simp
  | cons a l ih =>
    rw [List.foldl_cons, ih, List.count_cons]
    by_cases h : a = id
    · subst h
      simp only [bumpInfluence, Function.update_self, Option.getD_some, beq_self_eq_true,
        if_true]
      push_cast
      ring
    · have hne : id ≠ a := Ne.symm h
      simp [bumpInfluence, Function.update_of_ne hne, h]

@[simp]
theorem getD_updateAddOpInfluenceLocked (m : Id → Option Int) (op : Operator Id) (id : Id) :
    (updateAddOpInfluenceLocked m op id).getD 0 =
      (m id).getD 0 + op.affectedChunkServers.count id := by
  rw [updateAddOpInfluenceLocked, getD_foldl_bumpInfluence, one_mul]

@[simp]
theorem getD_updateRemoveOpInfluenceLocked (m : Id → Option Int) (op : Operator Id) (id : Id) :
    (updateRemoveOpInfluenceLocked m op id).getD 0 =
      (m id).getD 0 - op.affectedChunkServers.count id := by
  rw [updateRemoveOpInfluenceLocked, getD_foldl_bumpInfluence, neg_one_mul, sub_eq_add_neg]

/-- Replacing an operator by itself changes no count. -/
theorem getD_updateReplaceOpInfluenceLocked_self (m : Id → Option Int) (op : Operator Id)
    (id : Id) : (updateReplaceOpInfluenceLocked m op op id).getD 0 = (m id).getD 0 := by
  simp [updateReplaceOpInfluenceLocked]

/-- A read through `operator[]` changes no count. -/
@[simp]
theorem getD_readInfluence (m : Id → Option Int) (id x : Id) :
    (readInfluence m id x).getD 0 = (m x).getD 0 := by
  by_cases h : x = id
  · subst h
    simp [readInfluence]
  · simp [readInfluence, Function.update_of_ne h]

@[simp]
theorem getD_preJudgeLoop (concurrent : Int) (m : Id → Option Int) (l : List (Id × Int))
    (x : Id) : ((preJudgeLoop concurrent m l).2 x).getD 0 = (m x).getD 0 := by
  induction l generalizing m with
  | nil => rfl
  | cons e l ih =>
    obtain ⟨id, d⟩ := e
    simp only [preJudgeLoop]
    split_ifs
    · exact getD_readInfluence m id x
    · rw [ih, getD_readInfluence]

/-- The pre-judge's reads change no server's influence. -/
theorem getD_addOpInfluencePreJudgeLocked (c : OperatorController Id) (op : Operator Id)
    (id : Id) : ((c.addOpInfluencePreJudgeLocked op).2 id).getD 0 = c.influence id :=
  getD_preJudgeLoop _ _ _ id

end OperatorController

/-! ## Every call but a replacement keeps the influence exact -/

namespace OperatorController

variable {Id : Type} [DecidableEq Id] {c : OperatorController Id}

/-- An `AddOperator` that stored its operator over one already stored for the copyset. -/
def Replaces (c : OperatorController Id) : ControllerCall Id → Prop
  | .addOperator op => (c.addOperator op).1 = true ∧ (c.operators.lookup op.copysetID).isSome
  | _ => False

/-- The controller after calls made in order. -/
def runCalls (c : OperatorController Id) (calls : List (ControllerCall Id)) :
    OperatorController Id :=
  calls.foldl call c

/-- No call of a run replaces a stored operator, at the state it is made in. -/
def NoReplacement : OperatorController Id → List (ControllerCall Id) → Prop
  | _, [] => True
  | c, call :: calls => ¬ c.Replaces call ∧ NoReplacement (c.call call) calls

theorem influenceExact_init (concurrent : Int) :
    (init concurrent : OperatorController Id).InfluenceExact := by
  intro id
  simp [init, influence, affecting, AList.empty_entries]

/-- A refused `AddOperator` stores nothing and changes no count, though its pre-judge may leave
a zero entry for the server the operator names. -/
theorem addOperator_of_refused {op : Operator Id} (h : (c.addOperator op).1 = false) :
    (c.addOperator op).2.operators = c.operators ∧
      ∀ id, (c.addOperator op).2.influence id = c.influence id := by
  unfold addOperator at h ⊢
  split at h
  · -- no stored operator: the pre-judge failed after its reads
    rcases hj : c.addOpInfluencePreJudgeLocked op with ⟨_ | _, m⟩
    · refine ⟨rfl, fun id => ?_⟩
      have hm := c.getD_addOpInfluencePreJudgeLocked op id
      rw [hj] at hm
      exact hm
    · simp [hj] at h
  · split_ifs at h ⊢ <;> simp_all

-- a limit of zero refuses `AddPeer` to 5, and the zero entry its read leaves makes `Exceed` hold
example :
    let c := ((init 0 : OperatorController Nat).addOperator ⟨(1, 1), .LowPriority, .addPeer 5⟩).2
    c.opInfluence 5 = some 0 ∧ c.exceed 5 = true := by
  decide

theorem InfluenceExact.addOperator_of_refused (h : c.InfluenceExact) {op : Operator Id}
    (hr : (c.addOperator op).1 = false) : (c.addOperator op).2.InfluenceExact := by
  obtain ⟨hops, hinf⟩ := OperatorController.addOperator_of_refused hr
  intro id
  rw [hinf, h id]
  simp only [affecting, hops]

theorem InfluenceExact.addOperator_of_lookup_none (h : c.InfluenceExact) {op : Operator Id}
    (hnone : c.operators.lookup op.copysetID = none) : (c.addOperator op).2.InfluenceExact := by
  cases hr : (c.addOperator op).1
  · exact h.addOperator_of_refused hr
  · have hm := c.getD_addOpInfluencePreJudgeLocked op
    unfold addOperator at hr ⊢
    rw [hnone] at hr ⊢
    rcases hj : c.addOpInfluencePreJudgeLocked op with ⟨_ | _, m⟩
    · simp [hj] at hr
    · -- the new operator's influence is added after the reads, and it is counted once
      rw [hj] at hm
      intro id
      have hid := h id
      simp only [affecting] at hid ⊢
      simp only [influence]
      rw [getD_updateAddOpInfluenceLocked, hm id, hid, sum_entries_insert,
        entries_erase_of_lookup_none hnone]
      simp only [countIn]
      push_cast
      ring

theorem InfluenceExact.removeOperatorLocked (h : c.InfluenceExact) (key : CopySetKey) :
    (c.removeOperatorLocked key).InfluenceExact := by
  unfold OperatorController.removeOperatorLocked
  cases hop : c.operators.lookup key with
  | none => exact h
  | some op =>
    -- the removed operator's influence goes with it
    intro id
    have hid := h id
    simp only [influence, affecting] at hid ⊢
    rw [sum_entries_of_lookup (countIn id) hop] at hid
    rw [getD_updateRemoveOpInfluenceLocked, hid]
    simp only [countIn]
    push_cast
    ring

theorem InfluenceExact.applyOperator (h : c.InfluenceExact) (key : CopySetKey) (timeout : Bool)
    (status : ApplyStatus) : (c.applyOperator key timeout status).2.InfluenceExact := by
  unfold OperatorController.applyOperator
  split
  · exact h
  · split_ifs
    · exact h.removeOperatorLocked key
    · cases status
      · exact h.removeOperatorLocked key
      · exact h.removeOperatorLocked key
      · exact h
      · exact h

/-- One call that replaces no stored operator keeps the influence exact. -/
theorem InfluenceExact.call (h : c.InfluenceExact) (call : ControllerCall Id)
    (hno : ¬ c.Replaces call) : (c.call call).InfluenceExact := by
  cases call with
  | addOperator op =>
    cases hlookup : c.operators.lookup op.copysetID with
    | none => exact h.addOperator_of_lookup_none hlookup
    | some exist =>
      -- with an operator stored, only a refused call is not a replacement
      have hrefused : (c.addOperator op).1 = false := by
        simpa [Replaces, hlookup] using hno
      exact h.addOperator_of_refused hrefused
  | removeOperator key => exact h.removeOperatorLocked key
  | applyOperator key timeout status => exact h.applyOperator key timeout status

/-- A run none of whose calls replaces a stored operator keeps the influence exact. -/
theorem InfluenceExact.runCalls (h : c.InfluenceExact) (calls : List (ControllerCall Id))
    (hno : NoReplacement c calls) : (c.runCalls calls).InfluenceExact := by
  induction calls generalizing c with
  | nil => exact h
  | cons call calls ih =>
    obtain ⟨hcall, hrest⟩ := hno
    exact ih (h.call call hcall) hrest

/-- No call changes the limit. -/
@[simp]
theorem operatorConcurrent_call (call : ControllerCall Id) :
    (c.call call).operatorConcurrent = c.operatorConcurrent := by
  have hremove : ∀ key, (c.removeOperatorLocked key).operatorConcurrent = c.operatorConcurrent := by
    intro key
    unfold OperatorController.removeOperatorLocked
    split <;> rfl
  cases call with
  | addOperator op =>
    show (c.addOperator op).2.operatorConcurrent = c.operatorConcurrent
    unfold addOperator
    split
    · split <;> rfl
    · split_ifs <;> rfl
  | removeOperator key => exact hremove key
  | applyOperator key timeout status =>
    show (c.applyOperator key timeout status).2.operatorConcurrent = c.operatorConcurrent
    unfold OperatorController.applyOperator
    split
    · rfl
    · split_ifs
      · exact hremove key
      · cases status <;> first | exact hremove key | rfl

@[simp]
theorem operatorConcurrent_runCalls (calls : List (ControllerCall Id)) :
    (c.runCalls calls).operatorConcurrent = c.operatorConcurrent := by
  induction calls generalizing c with
  | nil => rfl
  | cons call calls ih =>
    show ((c.call call).runCalls calls).operatorConcurrent = c.operatorConcurrent
    rw [ih, operatorConcurrent_call]

/-- With the influence exact and a positive limit, `Exceed` says whether the stored operators
affecting a server reach the limit. -/
theorem InfluenceExact.exceed_iff (h : c.InfluenceExact) (hpos : 0 < c.operatorConcurrent)
    (id : Id) : c.exceed id = true ↔ c.operatorConcurrent ≤ c.affecting id := by
  have hid := h id
  unfold exceed
  unfold influence at hid
  cases hm : c.opInfluence id with
  | none =>
    -- a server with no entry has no stored operator affecting it
    rw [hm] at hid
    simp only [Option.getD_none] at hid
    simp only [Bool.false_eq_true, false_iff, not_le]
    omega
  | some v =>
    rw [hm] at hid
    simp only [Option.getD_some] at hid
    simp [hid]

end OperatorController

/-- A run from the constructed controller whose calls replace no stored operator leaves
`opInfluence_` equal, for every server, to the count of the stored operators affecting it; and
with a positive limit, `Exceed` then holds exactly when that count reaches the limit. -/
theorem opInfluence_exact_without_replacement {Id : Type} [DecidableEq Id] (concurrent : Int)
    (calls : List (ControllerCall Id))
    (hno : OperatorController.NoReplacement (OperatorController.init concurrent) calls) :
    ((OperatorController.init concurrent).runCalls calls).InfluenceExact ∧
      (0 < concurrent → ∀ id, ((OperatorController.init concurrent).runCalls calls).exceed id =
        true ↔ concurrent ≤ ((OperatorController.init concurrent).runCalls calls).affecting id) := by
  have h := (OperatorController.influenceExact_init concurrent).runCalls calls hno
  refine ⟨h, fun hpos id => ?_⟩
  have hlimit : ((OperatorController.init concurrent).runCalls calls).operatorConcurrent =
      concurrent := by
    simp [OperatorController.init]
  have hexceed := h.exceed_iff (by rw [hlimit]; exact hpos) id
  rw [hlimit] at hexceed
  exact hexceed

/-- An `AddPeer` operator to metaserver 5 for copyset (1, 1), of low priority. -/
def addPeerToFive : Operator Nat := ⟨(1, 1), .LowPriority, .addPeer 5⟩

/-- `AddPeer` to 5 stored and then removed again, with a limit of one. -/
theorem add_then_remove_keeps_influence_exact :
    ((OperatorController.init 1).runCalls
        [.addOperator addPeerToFive, .removeOperator (1, 1)]).InfluenceExact ∧
      (0 < (1 : Int) → ∀ id, ((OperatorController.init 1).runCalls
          [.addOperator addPeerToFive, .removeOperator (1, 1)]).exceed id = true ↔
        (1 : Int) ≤ (((OperatorController.init 1).runCalls
          [.addOperator addPeerToFive, .removeOperator (1, 1)]).affecting id : Int)) :=
  opInfluence_exact_without_replacement 1 [.addOperator addPeerToFive, .removeOperator (1, 1)]
    (by
      simp only [OperatorController.NoReplacement]
      exact ⟨by unfold OperatorController.Replaces; decide, not_false, trivial⟩)

/-! ## The replace branch keeps the old operator's influence -/

/-- `AddOperator` that replaces a stored operator of lower priority, the servers' counts allowing
the swap, over a controller whose influence is exact: the call succeeds, and afterwards each
server's influence still counts the old operator and misses the new one. -/
theorem addOperator_replace_keeps_old_influence {Id : Type} [DecidableEq Id]
    (c : OperatorController Id) (op exist : Operator Id) (hinv : c.InfluenceExact)
    (hexist : c.operators.lookup op.copysetID = some exist)
    (hpri : exist.priority.toNat < op.priority.toNat)
    (hjudge : c.replaceOpInfluencePreJudgeLocked exist op = true) :
    (c.addOperator op).1 = true ∧
      ∀ id, (c.addOperator op).2.influence id + op.affectedChunkServers.count id =
        (c.addOperator op).2.affecting id + exist.affectedChunkServers.count id := by
  have hres : c.addOperator op =
      (true, { c with operators := c.operators.insert op.copysetID op,
                      opInfluence :=
                        OperatorController.updateReplaceOpInfluenceLocked c.opInfluence op op }) := by
    simp [OperatorController.addOperator, hexist, hpri, hjudge]
  rw [hres]
  refine ⟨rfl, fun id => ?_⟩
  -- the influence is unchanged, and the stored operators swap the old one for the new
  have hid := hinv id
  simp only [OperatorController.influence, OperatorController.affecting] at hid ⊢
  rw [sum_entries_of_lookup (OperatorController.countIn id) hexist] at hid
  rw [OperatorController.getD_updateReplaceOpInfluenceLocked_self, sum_entries_insert, hid]
  simp only [OperatorController.countIn]
  push_cast
  ring

/-- A `ChangePeer` operator from metaserver 3 to 7 for copyset (1, 1), of high priority. -/
def changePeerToSeven : Operator Nat := ⟨(1, 1), .HighPriority, .changePeer 3 7⟩

/-- With a limit of one, `AddPeer` to 5 stored and then replaced by `ChangePeer` to 7: server 5
keeps a count of one with no operator on it, and server 7 has none with one. -/
theorem replace_addPeer_by_changePeer_keeps_influence :
    (((OperatorController.init 1).addOperator addPeerToFive).2.addOperator
        changePeerToSeven).1 = true ∧
      ∀ id, (((OperatorController.init 1).addOperator addPeerToFive).2.addOperator
          changePeerToSeven).2.influence id + changePeerToSeven.affectedChunkServers.count id =
        (((OperatorController.init 1).addOperator addPeerToFive).2.addOperator
          changePeerToSeven).2.affecting id + addPeerToFive.affectedChunkServers.count id :=
  addOperator_replace_keeps_old_influence _ changePeerToSeven addPeerToFive
    ((OperatorController.influenceExact_init 1).addOperator_of_lookup_none (by decide))
    (by decide) (by decide) (by decide)

/-- After that swap, `AddPeer` to 7 for copyset (1, 2) passes the pre-judge, and two stored
operators affect server 7 against a limit of one. -/
example : ((((OperatorController.init 1).addOperator addPeerToFive).2.addOperator
    changePeerToSeven).2.addOperator ⟨(1, 2), .NormalPriority, .addPeer 7⟩).2.affecting 7 = 2 := by
  decide

end DingoFs.Mds.Schedule
