import Mathlib.Data.List.AList
import Mathlib.Algebra.BigOperators.Group.List.Basic

/-!
# Registries of records linked parent to child

A registry keeps its records in finite maps keyed by id. A parent record lists the ids of
its children and each child record names its parent. `Linked kids parent ps cs` says that the
two sides agree: every child is listed by its parent (`up`), every listed id is a child that
names that parent (`down`), and no parent lists an id twice (`nodup`). Each way a registry
changes its maps (a parent or a child added, removed, or rewritten with its links as they
were) keeps the links under the side conditions its lemma names.

`mapRecords f m` is the map another reader sees when it keeps less of each record: a lookup in
it is the image of the lookup in `m` (`lookup_mapRecords`).

`entrySum m w` sums a weight over the entries of a map: an aggregate that a registry keeps
beside its records, such as a total over the children of one parent. Inserting under a key
replaces what the key held (`entrySum_insert`), and an entry can be taken out of the sum
(`entrySum_eq_add_erase`).
-/

namespace DingoFs.Lib

/-! ## Lookups after an update -/

section Lookup

variable {α V W : Type*} [DecidableEq α] {m : AList fun _ : α => V} {a k : α} {v v' : V}

/-- A lookup in an updated map: the new value at the updated key, the old one elsewhere. -/
theorem lookup_insert_eq_some {u : V} :
    (m.insert a v).lookup k = some u ↔ (k = a ∧ u = v) ∨ (k ≠ a ∧ m.lookup k = some u) := by
  by_cases hk : k = a
  · subst hk
    rw [AList.lookup_insert, Option.some.injEq]
    simp [eq_comm]
  · rw [AList.lookup_insert_ne hk]
    simp [hk]

/-- Rewriting a record with the same image under `f` leaves every lookup's image as it was. -/
theorem map_lookup_insert_of_map_eq (f : V → W) (ha : m.lookup a = some v) (hf : f v' = f v) :
    ((m.insert a v').lookup k).map f = (m.lookup k).map f := by
  by_cases hk : k = a
  · subst hk
    rw [AList.lookup_insert, ha, Option.map_some, Option.map_some, hf]
  · rw [AList.lookup_insert_ne hk]

theorem erase_of_notMem (h : a ∉ m) : m.erase a = m :=
  AList.ext (List.kerase_of_notMem_keys h)

/-- The map with `f` applied to every record, each kept under its key: what another reader of
the registry sees of its records. -/
def mapRecords (f : α → V → W) (m : AList fun _ : α => V) : AList fun _ : α => W :=
  ⟨m.entries.map (Sigma.map id f), List.NodupKeys.map₂ f m.entries m.nodupKeys⟩

@[simp]
theorem lookup_mapRecords (f : α → V → W) (m : AList fun _ : α => V) (k : α) :
    (mapRecords f m).lookup k = (m.lookup k).map (f k) :=
  List.dlookup_map₂ k

end Lookup

/-! ## Sums over the entries of a map -/

section EntrySum

variable {α V M : Type*} [DecidableEq α] [AddCommMonoid M]

/-- The sum of `w k v` over the entries `(k, v)` of `m`. -/
def entrySum (m : AList fun _ : α => V) (w : α → V → M) : M :=
  (m.entries.map fun e => w e.1 e.2).sum

variable {m : AList fun _ : α => V} {w w' : α → V → M} {a : α} {v v' : V}

omit [DecidableEq α] in
@[simp] theorem entrySum_empty : entrySum (∅ : AList fun _ : α => V) w = 0 := rfl

/-- Inserting under a key replaces what the key held: the new entry's weight plus the sum
without the key. -/
theorem entrySum_insert : entrySum (m.insert a v) w = w a v + entrySum (m.erase a) w := rfl

theorem entrySum_insert_of_notMem (h : a ∉ m) :
    entrySum (m.insert a v) w = w a v + entrySum m w := by
  rw [entrySum_insert, erase_of_notMem h]

/-- An entry taken out of the sum. -/
theorem entrySum_eq_add_erase (h : m.lookup a = some v) :
    entrySum m w = w a v + entrySum (m.erase a) w := by
  have hmem : a ∈ m.entries.keys := AList.mem_keys.mp (AList.lookup_isSome.mp (by simp [h]))
  obtain ⟨b, l₁, l₂, -, hsplit, herase⟩ := List.exists_of_kerase hmem
  -- the entry under `a` is the looked-up one, since keys are unique
  have hb : b = v := by
    have hin : (⟨a, b⟩ : Sigma fun _ : α => V) ∈ m.entries := by simp [hsplit]
    have hlook := AList.mem_lookup_iff.mpr hin
    rw [h] at hlook
    exact (Option.some.inj hlook).symm
  subst hb
  have hperm : m.entries.Perm (⟨a, b⟩ :: m.entries.kerase a) := by
    rw [herase, hsplit]
    exact List.perm_middle
  unfold entrySum
  rw [(hperm.map _).sum_eq, List.map_cons, List.sum_cons]
  rfl

/-- A weight that agrees on the entries gives the same sum. -/
theorem entrySum_congr (h : ∀ a v, m.lookup a = some v → w a v = w' a v) :
    entrySum m w = entrySum m w' := by
  unfold entrySum
  congr 1
  apply List.map_congr_left
  intro e he
  exact h e.1 e.2 (AList.mem_lookup_iff.mpr he)

theorem entrySum_eq_zero (h : ∀ a v, m.lookup a = some v → w a v = 0) : entrySum m w = 0 := by
  have hzero : entrySum m w = entrySum m fun _ _ => (0 : M) := entrySum_congr h
  rw [hzero]
  simp [entrySum]

end EntrySum

/-! ## Parents that list their children -/

section Links

variable {α β P C : Type*} [DecidableEq α] [DecidableEq β]

/-- The parents `ps` and the children `cs` agree through `kids` (the ids a parent lists)
and `parent` (the id a child names). -/
structure Linked (kids : P → List β) (parent : C → α) (ps : AList fun _ : α => P)
    (cs : AList fun _ : β => C) : Prop where
  up : ∀ {c r}, cs.lookup c = some r → ∃ pr, ps.lookup (parent r) = some pr ∧ c ∈ kids pr
  down : ∀ {p pr}, ps.lookup p = some pr →
    ∀ c ∈ kids pr, ∃ r, cs.lookup c = some r ∧ parent r = p
  nodup : ∀ {p pr}, ps.lookup p = some pr → (kids pr).Nodup

variable {kids : P → List β} {parent : C → α} {ps : AList fun _ : α => P}
  {cs : AList fun _ : β => C} {p : α} {c : β} {pr pr' : P} {r r' : C}

theorem linked_empty :
    Linked kids parent (∅ : AList fun _ : α => P) (∅ : AList fun _ : β => C) where
  up h := by simp at h
  down h := by simp at h
  nodup h := by simp at h

namespace Linked

/-! ### What the links say -/

theorem parent_mem (h : Linked kids parent ps cs) (hc : cs.lookup c = some r) :
    parent r ∈ ps := by
  obtain ⟨pr, hp, -⟩ := h.up hc
  exact AList.lookup_isSome.mp (by simp [hp])

/-- No child names a parent the registry has not got. -/
theorem parent_ne_of_notMem (h : Linked kids parent ps cs) (hp : p ∉ ps)
    (hc : cs.lookup c = some r) : parent r ≠ p := by
  intro heq
  exact hp (heq ▸ h.parent_mem hc)

/-- No child names a parent whose list is empty. -/
theorem parent_ne_of_kids_eq_nil (h : Linked kids parent ps cs) (hp : ps.lookup p = some pr)
    (hk : kids pr = []) (hc : cs.lookup c = some r) : parent r ≠ p := by
  intro heq
  obtain ⟨pr₀, hp₀, hmem⟩ := h.up hc
  rw [heq, hp, Option.some.injEq] at hp₀
  subst hp₀
  simp [hk] at hmem

/-- A listed id is a child, so an id that is not one is listed nowhere. -/
theorem notMem_kids_of_notMem (h : Linked kids parent ps cs) (hc : c ∉ cs)
    (hp : ps.lookup p = some pr) : c ∉ kids pr := by
  intro hmem
  obtain ⟨r, hr, -⟩ := h.down hp c hmem
  exact hc (AList.lookup_isSome.mp (by simp [hr]))

/-! ### Updates of the parents -/

/-- A new parent with no children. -/
theorem insert_parent (h : Linked kids parent ps cs) (hp : p ∉ ps) (hk : kids pr = []) :
    Linked kids parent (ps.insert p pr) cs where
  up {c r} hc := by
    rw [AList.lookup_insert_ne (h.parent_ne_of_notMem hp hc)]
    exact h.up hc
  down {q pq} hq := by
    rcases lookup_insert_eq_some.mp hq with ⟨-, rfl⟩ | ⟨-, hq⟩
    · simp [hk]
    · exact h.down hq
  nodup {q pq} hq := by
    rcases lookup_insert_eq_some.mp hq with ⟨-, rfl⟩ | ⟨-, hq⟩
    · simp [hk]
    · exact h.nodup hq

/-- A parent's record rewritten with the same children. -/
theorem set_parent (h : Linked kids parent ps cs) (hp : ps.lookup p = some pr)
    (hk : kids pr' = kids pr) : Linked kids parent (ps.insert p pr') cs where
  up {c r} hc := by
    obtain ⟨pr₀, hp₀, hmem⟩ := h.up hc
    by_cases heq : parent r = p
    · rw [heq, hp, Option.some.injEq] at hp₀
      subst hp₀
      rw [heq, AList.lookup_insert]
      exact ⟨pr', rfl, hk ▸ hmem⟩
    · rw [AList.lookup_insert_ne heq]
      exact ⟨pr₀, hp₀, hmem⟩
  down {q pq} hq := by
    rcases lookup_insert_eq_some.mp hq with ⟨rfl, rfl⟩ | ⟨-, hq⟩
    · rw [hk]
      exact h.down hp
    · exact h.down hq
  nodup {q pq} hq := by
    rcases lookup_insert_eq_some.mp hq with ⟨rfl, rfl⟩ | ⟨-, hq⟩
    · rw [hk]
      exact h.nodup hp
    · exact h.nodup hq

/-- A parent with no children taken out. -/
theorem erase_parent (h : Linked kids parent ps cs) (hp : ps.lookup p = some pr)
    (hk : kids pr = []) : Linked kids parent (ps.erase p) cs where
  up {c r} hc := by
    rw [AList.lookup_erase_ne (h.parent_ne_of_kids_eq_nil hp hk hc)]
    exact h.up hc
  down {q pq} hq := by
    have hne : q ≠ p := by
      rintro rfl
      simp at hq
    rw [AList.lookup_erase_ne hne] at hq
    exact h.down hq
  nodup {q pq} hq := by
    have hne : q ≠ p := by
      rintro rfl
      simp at hq
    rw [AList.lookup_erase_ne hne] at hq
    exact h.nodup hq

/-! ### Updates of the children -/

/-- A new child, listed at the end of its parent's list. -/
theorem insert_child (h : Linked kids parent ps cs) (hp : ps.lookup (parent r) = some pr)
    (hc : c ∉ cs) (hk : kids pr' = kids pr ++ [c]) :
    Linked kids parent (ps.insert (parent r) pr') (cs.insert c r) where
  up {c' r'} hc' := by
    rcases lookup_insert_eq_some.mp hc' with ⟨rfl, rfl⟩ | ⟨-, hc'⟩
    · rw [AList.lookup_insert]
      exact ⟨pr', rfl, by simp [hk]⟩
    · obtain ⟨pr₀, hp₀, hmem⟩ := h.up hc'
      by_cases heq : parent r' = parent r
      · rw [heq, hp, Option.some.injEq] at hp₀
        subst hp₀
        rw [heq, AList.lookup_insert]
        exact ⟨_, rfl, by simp [hk, hmem]⟩
      · rw [AList.lookup_insert_ne heq]
        exact ⟨pr₀, hp₀, hmem⟩
  down {q pq} hq c' hmem := by
    -- a listed id other than `c` was a child already, under the same parent
    have old : ∀ {q pq}, ps.lookup q = some pq → c' ∈ kids pq →
        ∃ r'', (cs.insert c r).lookup c' = some r'' ∧ parent r'' = q := by
      intro q pq hq hmem
      obtain ⟨r'', hr'', hpar⟩ := h.down hq c' hmem
      have hne : c' ≠ c := by
        rintro rfl
        exact hc (AList.lookup_isSome.mp (by simp [hr'']))
      rw [AList.lookup_insert_ne hne]
      exact ⟨r'', hr'', hpar⟩
    rcases lookup_insert_eq_some.mp hq with ⟨rfl, rfl⟩ | ⟨-, hq⟩
    · rw [hk, List.mem_append, List.mem_singleton] at hmem
      rcases hmem with hmem | rfl
      · exact old hp hmem
      · exact ⟨r, AList.lookup_insert _, rfl⟩
    · exact old hq hmem
  nodup {q pq} hq := by
    rcases lookup_insert_eq_some.mp hq with ⟨rfl, rfl⟩ | ⟨-, hq⟩
    · rw [hk, ← List.concat_eq_append]
      exact (h.nodup hp).concat (h.notMem_kids_of_notMem hc hp)
    · exact h.nodup hq

/-- A child's record rewritten under the same parent. -/
theorem set_child (h : Linked kids parent ps cs) (hc : cs.lookup c = some r)
    (hr : parent r' = parent r) : Linked kids parent ps (cs.insert c r') where
  up {c' r''} hc' := by
    rcases lookup_insert_eq_some.mp hc' with ⟨rfl, rfl⟩ | ⟨-, hc'⟩
    · rw [hr]
      exact h.up hc
    · exact h.up hc'
  down {q pq} hq c' hmem := by
    obtain ⟨r₀, hr₀, hpar⟩ := h.down hq c' hmem
    by_cases heq : c' = c
    · subst heq
      rw [hc, Option.some.injEq] at hr₀
      subst hr₀
      exact ⟨r', AList.lookup_insert _, hr.trans hpar⟩
    · rw [AList.lookup_insert_ne heq]
      exact ⟨r₀, hr₀, hpar⟩
  nodup := h.nodup

/-- A child taken out, with every copy of its id taken out of its parent's list. -/
theorem erase_child (h : Linked kids parent ps cs) (hc : cs.lookup c = some r)
    (hp : ps.lookup (parent r) = some pr) (hk : kids pr' = (kids pr).filter (· != c)) :
    Linked kids parent (ps.insert (parent r) pr') (cs.erase c) where
  up {c' r'} hc' := by
    have hne : c' ≠ c := by
      rintro rfl
      simp at hc'
    rw [AList.lookup_erase_ne hne] at hc'
    obtain ⟨pr₀, hp₀, hmem⟩ := h.up hc'
    by_cases heq : parent r' = parent r
    · rw [heq, hp, Option.some.injEq] at hp₀
      subst hp₀
      rw [heq, AList.lookup_insert]
      exact ⟨_, rfl, hk ▸ List.mem_filter.mpr ⟨hmem, by simpa using hne⟩⟩
    · rw [AList.lookup_insert_ne heq]
      exact ⟨pr₀, hp₀, hmem⟩
  down {q pq} hq c' hmem := by
    -- the list of `c`'s parent no longer holds `c`; every other list never did
    have hne : ∀ {q pq}, ps.lookup q = some pq → c' ∈ kids pq → q ≠ parent r → c' ≠ c := by
      intro q pq hq hmem hq' heq
      subst heq
      obtain ⟨r₀, hr₀, hpar⟩ := h.down hq c' hmem
      rw [hc, Option.some.injEq] at hr₀
      exact hq' (hr₀ ▸ hpar).symm
    rcases lookup_insert_eq_some.mp hq with ⟨rfl, rfl⟩ | ⟨hq', hq⟩
    · rw [hk, List.mem_filter] at hmem
      have hne' : c' ≠ c := by simpa using hmem.2
      rw [AList.lookup_erase_ne hne']
      exact h.down hp c' hmem.1
    · rw [AList.lookup_erase_ne (hne hq hmem hq')]
      exact h.down hq c' hmem
  nodup {q pq} hq := by
    rcases lookup_insert_eq_some.mp hq with ⟨rfl, rfl⟩ | ⟨-, hq⟩
    · rw [hk]
      exact (h.nodup hp).filter _
    · exact h.nodup hq

end Linked

end Links

end DingoFs.Lib
