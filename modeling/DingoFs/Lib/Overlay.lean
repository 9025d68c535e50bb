import Mathlib.Data.List.Induction
import Mathlib.Data.List.Pairwise

/-!
# Newest-first overlays of closed intervals

A range written many times reads, at each point, what the newest write covering it left.
Programs that compute this walk the writes from the newest and carve the points not yet
claimed: a list of closed intervals `[b, e]`, sorted and apart, from which each write takes
what it covers.

`segDiff lo hi s` is what is left of `s` outside `[lo, hi]`, its part below and its part
above; `segInter lo hi s` is its part inside. Over a list of intervals they remove and take
exactly the points of `[lo, hi]` (`inSegs_flatMap_segDiff`, `inSegs_filterMap_segInter`) and
keep the list sorted. `newestIdx p l` is the largest index of `l` whose element satisfies
`p`: the index a walk over `l` from its end meets first (`newestIdx_eq_some`).
-/

namespace DingoFs.Lib

/-! ## Closed intervals -/

/-- The point `p` lies in the closed interval `[s.1, s.2]`. -/
def InSeg (s : Nat × Nat) (p : Nat) : Prop := s.1 ≤ p ∧ p ≤ s.2

/-- The point `p` lies in one of the intervals of `l`. -/
def InSegs (l : List (Nat × Nat)) (p : Nat) : Prop := ∃ s ∈ l, InSeg s p

instance (s : Nat × Nat) (p : Nat) : Decidable (InSeg s p) :=
  inferInstanceAs (Decidable (_ ∧ _))

instance (l : List (Nat × Nat)) (p : Nat) : Decidable (InSegs l p) :=
  inferInstanceAs (Decidable (∃ s ∈ l, InSeg s p))

/-- Intervals that are nonempty, in increasing order and apart. -/
structure SortedSegs (l : List (Nat × Nat)) : Prop where
  wf : ∀ s ∈ l, s.1 ≤ s.2
  sorted : l.Pairwise fun a b => a.2 < b.1

/-- What is left of `s` outside `[lo, hi]`: its part below `lo`, then its part above `hi`. -/
def segDiff (lo hi : Nat) (s : Nat × Nat) : List (Nat × Nat) :=
  (if s.1 < lo then [(s.1, min s.2 (lo - 1))] else []) ++
    (if hi < s.2 then [(max s.1 (hi + 1), s.2)] else [])

/-- The part of `s` inside `[lo, hi]`, if there is one. -/
def segInter (lo hi : Nat) (s : Nat × Nat) : Option (Nat × Nat) :=
  if max s.1 lo ≤ min s.2 hi then some (max s.1 lo, min s.2 hi) else none

section Segs

variable {lo hi p : Nat} {s t : Nat × Nat} {l : List (Nat × Nat)}

@[simp] theorem not_inSegs_nil : ¬ InSegs [] p := by
  simp [InSegs]

@[simp] theorem inSegs_cons : InSegs (s :: l) p ↔ InSeg s p ∨ InSegs l p := by
  simp [InSegs]

theorem inSegs_flatMap {f : Nat × Nat → List (Nat × Nat)} :
    InSegs (l.flatMap f) p ↔ ∃ s ∈ l, InSegs (f s) p := by
  simp only [InSegs, List.mem_flatMap]
  constructor
  · rintro ⟨t, ⟨s, hs, ht⟩, hp⟩
    exact ⟨s, hs, t, ht, hp⟩
  · rintro ⟨s, hs, t, ht, hp⟩
    exact ⟨t, ⟨s, hs, ht⟩, hp⟩

theorem inSegs_segDiff : InSegs (segDiff lo hi s) p ↔ InSeg s p ∧ ¬ (lo ≤ p ∧ p ≤ hi) := by
  unfold segDiff InSegs InSeg
  split_ifs <;> simp <;> omega

/-- Carving `[lo, hi]` out of every interval leaves the points outside it. -/
theorem inSegs_flatMap_segDiff :
    InSegs (l.flatMap (segDiff lo hi)) p ↔ InSegs l p ∧ ¬ (lo ≤ p ∧ p ≤ hi) := by
  rw [inSegs_flatMap]
  simp only [inSegs_segDiff]
  simp only [InSegs]
  constructor
  · rintro ⟨s, hs, hp, hout⟩
    exact ⟨⟨s, hs, hp⟩, hout⟩
  · rintro ⟨⟨s, hs, hp⟩, hout⟩
    exact ⟨s, hs, hp, hout⟩

theorem inSeg_of_segInter (h : segInter lo hi s = some t) :
    InSeg t p ↔ InSeg s p ∧ lo ≤ p ∧ p ≤ hi := by
  unfold segInter at h
  split_ifs at h
  cases h
  simp only [InSeg]
  omega

theorem not_inSeg_of_segInter (h : segInter lo hi s = none) :
    ¬ (InSeg s p ∧ lo ≤ p ∧ p ≤ hi) := by
  unfold segInter at h
  split_ifs at h with hne
  simp only [InSeg]
  omega

/-- The parts of the intervals inside `[lo, hi]` hold the points of `[lo, hi]` they held. -/
theorem inSegs_filterMap_segInter :
    InSegs (l.filterMap (segInter lo hi)) p ↔ InSegs l p ∧ lo ≤ p ∧ p ≤ hi := by
  simp only [InSegs, List.mem_filterMap]
  constructor
  · rintro ⟨t, ⟨s, hs, ht⟩, hp⟩
    exact ⟨⟨s, hs, ((inSeg_of_segInter ht).mp hp).1⟩, ((inSeg_of_segInter ht).mp hp).2⟩
  · rintro ⟨⟨s, hs, hp⟩, hlo, hhi⟩
    cases ht : segInter lo hi s with
    | none => exact absurd ⟨hp, hlo, hhi⟩ (not_inSeg_of_segInter ht)
    | some t => exact ⟨t, ⟨s, hs, ht⟩, (inSeg_of_segInter ht).mpr ⟨hp, hlo, hhi⟩⟩

theorem mem_segDiff : t ∈ segDiff lo hi s ↔
    (s.1 < lo ∧ t = (s.1, min s.2 (lo - 1))) ∨ (hi < s.2 ∧ t = (max s.1 (hi + 1), s.2)) := by
  unfold segDiff
  split_ifs <;> simp [*]

theorem le_of_mem_segDiff (ht : t ∈ segDiff lo hi s) : s.1 ≤ t.1 ∧ t.2 ≤ s.2 := by
  rcases mem_segDiff.mp ht with ⟨-, rfl⟩ | ⟨-, rfl⟩
  · exact ⟨Nat.le_refl _, Nat.min_le_left _ _⟩
  · exact ⟨Nat.le_max_left _ _, Nat.le_refl _⟩

theorem le_of_segInter (ht : segInter lo hi s = some t) :
    s.1 ≤ t.1 ∧ t.2 ≤ s.2 ∧ lo ≤ t.1 ∧ t.2 ≤ hi ∧ t.1 ≤ t.2 := by
  unfold segInter at ht
  split_ifs at ht with hle
  cases ht
  omega

/-- Carving keeps a sorted list sorted: the two parts of one interval are apart, since
`lo ≤ hi`, and parts of distinct intervals lie in them. -/
theorem SortedSegs.flatMap_segDiff (hlh : lo ≤ hi) (h : SortedSegs l) :
    SortedSegs (l.flatMap (segDiff lo hi)) := by
  constructor
  · intro t ht
    obtain ⟨s, hs, ht⟩ := List.mem_flatMap.mp ht
    have hwf := h.wf s hs
    rcases mem_segDiff.mp ht with ⟨hlt, rfl⟩ | ⟨hlt, rfl⟩
    · show s.1 ≤ min s.2 (lo - 1)
      omega
    · show max s.1 (hi + 1) ≤ s.2
      omega
  · rw [List.pairwise_flatMap]
    constructor
    · intro s _
      -- only an interval reaching both sides has two parts: one ends below `lo`, one starts
      -- above `hi`
      unfold segDiff
      split_ifs <;> simp
      omega
    · refine h.sorted.imp fun {a b} hab x hx y hy => ?_
      have hx' := le_of_mem_segDiff hx
      have hy' := le_of_mem_segDiff hy
      omega

theorem SortedSegs.filterMap_segInter (h : SortedSegs l) :
    SortedSegs (l.filterMap (segInter lo hi)) := by
  constructor
  · intro t ht
    obtain ⟨s, -, ht⟩ := List.mem_filterMap.mp ht
    exact (le_of_segInter ht).2.2.2.2
  · refine h.sorted.filterMap _ fun a b hab x hx y hy => ?_
    have hx' := le_of_segInter hx
    have hy' := le_of_segInter hy
    omega

/-- Intervals that all lie above `hi` are left as they are by carving `[lo, hi]`. -/
theorem flatMap_segDiff_of_lt (hlh : lo ≤ hi) (h : ∀ s ∈ l, hi < s.1 ∧ s.1 ≤ s.2) :
    l.flatMap (segDiff lo hi) = l := by
  induction l with
  | nil => rfl
  | cons s l ih =>
    have hs := h s List.mem_cons_self
    have hseg : segDiff lo hi s = [s] := by
      unfold segDiff
      rw [if_neg (by omega), if_pos (by omega), Nat.max_eq_left (by omega)]
      rfl
    rw [List.flatMap_cons, hseg, ih fun t ht => h t (List.mem_cons_of_mem s ht)]
    rfl

theorem filterMap_segInter_of_lt (h : ∀ s ∈ l, hi < s.1) :
    l.filterMap (segInter lo hi) = [] := by
  rw [List.filterMap_eq_nil_iff]
  intro s hs
  have := h s hs
  unfold segInter
  rw [if_neg (by omega)]

/-- Intervals sorted by their first point and pairwise apart are sorted end before start. -/
theorem sorted_of_apart {α : Type*} {seg : α → Nat × Nat} {l : List α}
    (hwf : ∀ a ∈ l, (seg a).1 ≤ (seg a).2)
    (hkey : l.Pairwise fun a b => (seg a).1 < (seg b).1)
    (hapart : l.Pairwise fun a b => (seg a).2 < (seg b).1 ∨ (seg b).2 < (seg a).1) :
    l.Pairwise fun a b => (seg a).2 < (seg b).1 := by
  refine (hkey.and hapart).imp_of_mem fun {a b} _ hb hab => ?_
  have := hwf b hb
  omega

/-- Nonempty intervals pairwise apart start at distinct points. -/
theorem nodup_of_apart {α : Type*} {seg : α → Nat × Nat} {l : List α}
    (hwf : ∀ a ∈ l, (seg a).1 ≤ (seg a).2)
    (hapart : l.Pairwise fun a b => (seg a).2 < (seg b).1 ∨ (seg b).2 < (seg a).1) :
    (l.map fun a => (seg a).1).Nodup := by
  refine List.pairwise_map.mpr (hapart.imp_of_mem fun {a b} ha hb hab => ?_)
  have := hwf a ha
  have := hwf b hb
  omega

end Segs

/-! ## The newest element that satisfies a predicate -/

section Newest

variable {α : Type*}

/-- The index carried by the first pair of `l` whose element satisfies `p`. -/
def firstIdx (p : α → Bool) (l : List (Nat × α)) : Option Nat :=
  (l.find? fun q => p q.2).map Prod.fst

/-- The largest index of `l` whose element satisfies `p`: the first one met walking the
indexed list from its end. -/
def newestIdx (p : α → Bool) (l : List α) : Option Nat :=
  firstIdx p (l.zipIdx.map fun q => (q.2, q.1)).reverse

variable {p : α → Bool}

@[simp] theorem firstIdx_nil : firstIdx p [] = none := rfl

theorem firstIdx_append (l₁ l₂ : List (Nat × α)) :
    firstIdx p (l₁ ++ l₂) = (firstIdx p l₁).or (firstIdx p l₂) := by
  unfold firstIdx
  rw [List.find?_append]
  cases List.find? (fun q => p q.2) l₁ <;> rfl

theorem firstIdx_singleton (j : Nat) (a : α) :
    firstIdx p [(j, a)] = if p a then some j else none := by
  unfold firstIdx
  by_cases h : p a <;> simp [h]

theorem firstIdx_eq_none {l : List (Nat × α)} : firstIdx p l = none ↔ ∀ q ∈ l, p q.2 = false := by
  simp [firstIdx, List.find?_eq_none]

theorem newestIdx_append_singleton (l : List α) (a : α) :
    newestIdx p (l ++ [a]) = if p a then some l.length else newestIdx p l := by
  unfold newestIdx
  rw [List.zipIdx_append, List.map_append, List.reverse_append, firstIdx_append]
  simp only [List.zipIdx_singleton, List.map_singleton, List.reverse_singleton, Nat.zero_add,
    firstIdx_singleton]
  by_cases h : p a <;> simp [h]

theorem newestIdx_eq_none {l : List α} : newestIdx p l = none ↔ ∀ a ∈ l, p a = false := by
  induction l using List.reverseRecOn with
  | nil => simp [newestIdx]
  | append_singleton l a ih =>
    rw [newestIdx_append_singleton]
    by_cases h : p a <;> simp [h, ih, or_imp, forall_and]

/-- `newestIdx` is the largest index whose element satisfies `p`. The induction adds the
elements from the end of the list: a new last element that satisfies `p` is the newest. -/
theorem newestIdx_eq_some {l : List α} {j : Nat} :
    newestIdx p l = some j ↔
      ∃ h : j < l.length, p l[j] ∧ ∀ k (hk : k < l.length), j < k → p l[k] = false := by
  induction l using List.reverseRecOn generalizing j with
  | nil => simp [newestIdx]
  | append_singleton l a ih =>
    rw [newestIdx_append_singleton]
    by_cases h : p a
    · simp only [h, if_true, Option.some.injEq, List.length_append, List.length_singleton]
      constructor
      · rintro rfl
        refine ⟨by omega, by simpa using h, fun k hk hjk => by omega⟩
      · rintro ⟨hj, hpj, hnewer⟩
        -- an index below the last one would leave the satisfied last element newer
        by_contra hne
        have := hnewer l.length (by omega) (by omega)
        simp [h] at this
    · simp only [h, Bool.false_eq_true, if_false, ih, List.length_append, List.length_singleton]
      constructor
      · rintro ⟨hj, hpj, hnewer⟩
        refine ⟨by omega, by rwa [List.getElem_append_left hj], fun k hk hjk => ?_⟩
        rcases Nat.lt_or_ge k l.length with hkl | hkl
        · rw [List.getElem_append_left hkl]
          exact hnewer k hkl hjk
        · rw [List.getElem_append_right hkl]
          simpa [show k - l.length = 0 by omega] using h
      · rintro ⟨hj, hpj, hnewer⟩
        -- the last element fails `p`, so the newest lies before it
        have hjl : j < l.length := by
          rcases Nat.lt_or_ge j l.length with hjl | hjl
          · exact hjl
          · rw [List.getElem_append_right hjl] at hpj
            simp [show j - l.length = 0 by omega, h] at hpj
        refine ⟨hjl, by rwa [List.getElem_append_left hjl] at hpj, fun k hk hjk => ?_⟩
        have := hnewer k (by omega) hjk
        rwa [List.getElem_append_left hk] at this

/-- Walking a list from its end, the first element that satisfies `p` is the newest one. -/
theorem find?_reverse_of_newestIdx {l : List α} {j : Nat} (h : newestIdx p l = some j) :
    ∃ hj : j < l.length, l.reverse.find? p = some l[j] := by
  induction l using List.reverseRecOn generalizing j with
  | nil => simp [newestIdx] at h
  | append_singleton l a ih =>
    rw [newestIdx_append_singleton] at h
    rw [List.reverse_append, List.reverse_singleton, List.singleton_append, List.find?_cons]
    by_cases ha : p a
    · -- the last element is the newest
      simp only [ha, if_true, Option.some.injEq] at h
      subst h
      refine ⟨by simp, ?_⟩
      simp [ha]
    · simp only [ha, Bool.false_eq_true, if_false] at h
      obtain ⟨hj, hfind⟩ := ih h
      refine ⟨by simp; omega, ?_⟩
      rw [List.getElem_append_left hj]
      simpa [ha] using hfind

end Newest

end DingoFs.Lib
