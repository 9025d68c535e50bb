import DingoFs.Lib.OrderedSet

/-!
# Ranges kept apart in a sorted map

A `std::map` from start offsets to ranges `[start x, start x + len x)` that never overlap holds
them in increasing order, each ending at or before the next begins (`Apart`). The ranges that
meet `[a, b)` are found through `lower_bound(a)`: the map splits into the ranges starting below
`a` and the rest; of the first part only the last can reach past `a`, and of the rest exactly
those starting below `b` meet (`Apart.overlap_eq_filter`). A point `p` is the range `[p, p + 1)`,
so at most one range of the map contains it (`Apart.filter_meets_point`). An insert whose
`CHECK` demands a fresh key is `checkedInsert`. A listing printed range by range is read back
point by point through `mapM_flatten_filter`.
-/

namespace DingoFs.Lib

variable {α : Type*} (start len : α → Nat)

/-- The range of `x` meets `[a, b)`. -/
def Meets (a b : Nat) (x : α) : Prop := start x < b ∧ a < start x + len x

instance (a b : Nat) (x : α) : Decidable (Meets start len a b x) :=
  inferInstanceAs (Decidable (_ ∧ _))

/-- Nonempty ranges in increasing order, each ending at or before the next begins. -/
structure Apart (l : List α) : Prop where
  len_pos : ∀ x ∈ l, 0 < len x
  pairwise : l.Pairwise (fun x y => start x + len x ≤ start y)

variable {start len}

namespace Apart

variable {l : List α}

theorem of_cons {x : α} (h : Apart start len (x :: l)) : Apart start len l :=
  ⟨fun y hy => h.len_pos y (List.mem_cons_of_mem x hy), (List.pairwise_cons.mp h.pairwise).2⟩

theorem sublist {l' : List α} (h : Apart start len l) (hs : l'.Sublist l) : Apart start len l' :=
  ⟨fun y hy => h.len_pos y (hs.subset hy), h.pairwise.sublist hs⟩

/-- A range ends before every later one starts, so their starts increase. -/
theorem start_lt_of_cons {x y : α} (h : Apart start len (x :: l)) (hy : y ∈ l) :
    start x < start y := by
  have hx := h.len_pos x List.mem_cons_self
  have hxy := (List.pairwise_cons.mp h.pairwise).1 y hy
  omega

/-- Starts increase along the map. -/
theorem pairwise_start_lt (h : Apart start len l) : l.Pairwise fun x y => start x < start y :=
  h.pairwise.imp_of_mem fun hx _ hxy => by
    have := h.len_pos _ hx
    omega

/-- The map holds one range per start. -/
theorem eq_of_start_eq (h : Apart start len l) {x y : α} (hx : x ∈ l) (hy : y ∈ l)
    (hs : start x = start y) : x = y :=
  List.inj_on_of_nodup_map (List.pairwise_map.mpr (h.pairwise_start_lt.imp Nat.ne_of_lt)) hx hy hs

/-- Sorted nonempty ranges of which no two distinct ones share a point are apart. -/
theorem of_pairwise (hs : l.Pairwise fun x y => start x < start y) (hlen : ∀ x ∈ l, 0 < len x)
    (huniq : ∀ x ∈ l, ∀ y ∈ l, ∀ p, Meets start len p (p + 1) x → Meets start len p (p + 1) y →
      x = y) :
    Apart start len l := by
  refine ⟨hlen, hs.imp_of_mem fun {x y} hx hy hxy => ?_⟩
  -- else the start of `y` is a point of both
  by_contra hover
  have hyy := hlen y hy
  have := huniq x hx y hy (start y) ⟨by omega, by omega⟩ ⟨by omega, by omega⟩
  rw [this] at hxy
  exact Nat.lt_irrefl _ hxy

/-- Over increasing starts, the run of ranges starting below `b` is all of them that do. -/
theorem takeWhile_start_lt (h : Apart start len l) (b : Nat) :
    l.takeWhile (fun x => decide (start x < b)) = l.filter (fun x => decide (start x < b)) := by
  induction l with
  | nil => rfl
  | cons x l ih =>
    by_cases hx : start x < b
    · rw [List.takeWhile_cons_of_pos (by simpa using hx), List.filter_cons_of_pos (by simpa using hx),
        ih h.of_cons]
    · rw [List.takeWhile_cons_of_neg (by simpa using hx), List.filter_cons_of_neg (by simpa using hx),
        eq_comm, List.filter_eq_nil_iff]
      intro y hy
      have := h.start_lt_of_cons hy
      simp only [decide_eq_true_eq]
      omega

/-- Where every range starts at `a` or later, a range meets `[a, b)` if it starts below `b`. -/
theorem filter_meets_of_le (h : Apart start len l) {a b : Nat} (hl : ∀ y ∈ l, a ≤ start y) :
    l.filter (fun x => decide (Meets start len a b x)) =
      l.filter (fun x => decide (start x < b)) := by
  apply List.filter_congr
  intro y hy
  have hlen := h.len_pos y hy
  have hay := hl y hy
  exact decide_eq_decide.mpr ⟨fun hm => hm.1, fun hb => ⟨hb, by omega⟩⟩

/-- `lower_bound(a)` and the ranges after it that start below `b`: the predecessor if it
reaches past `a`, then that run, are the ranges that meet `[a, b)`. The induction is on the
map; the predecessor is the last range starting below `a`, which is the head exactly when the
next one starts at `a` or later. -/
theorem overlap_eq_filter (h : Apart start len l) {a b : Nat} (hab : a ≤ b) :
    (l.takeWhile (fun x => decide (start x < a))).getLast?.toList.filter
        (fun x => decide (a < start x + len x)) ++
      (l.dropWhile (fun x => decide (start x < a))).takeWhile (fun x => decide (start x < b)) =
    l.filter (fun x => decide (Meets start len a b x)) := by
  induction l with
  | nil => rfl
  | cons x l ih =>
    have hl := h.of_cons
    by_cases hx : start x < a
    · rw [List.takeWhile_cons_of_pos (by simpa using hx), List.dropWhile_cons_of_pos (by simpa using hx)]
      by_cases hrest : l.takeWhile (fun x => decide (start x < a)) = []
      · -- `x` is the predecessor: every later range starts at `a` or later
        have hge : ∀ y ∈ l, a ≤ start y := by
          intro y hy
          cases l with
          | nil => cases hy
          | cons z l' =>
            have hz : ¬ start z < a := by
              intro hz
              rw [List.takeWhile_cons_of_pos (by simpa using hz)] at hrest
              exact List.cons_ne_nil _ _ hrest
            rcases List.mem_cons.mp hy with rfl | hy
            · omega
            · have := hl.start_lt_of_cons hy
              omega
        have hdrop : l.dropWhile (fun x => decide (start x < a)) = l := by
          have := List.takeWhile_append_dropWhile (p := fun x => decide (start x < a)) (l := l)
          rwa [hrest, List.nil_append] at this
        have hmeets : Meets start len a b x ↔ a < start x + len x :=
          ⟨fun hm => hm.2, fun hxa => ⟨by omega, hxa⟩⟩
        rw [hrest, hdrop, hl.takeWhile_start_lt, ← hl.filter_meets_of_le hge, List.filter_cons]
        by_cases hxa : a < start x + len x <;> simp [hxa, hmeets]
      · -- a later range starts below `a`, so `x` ends before `a`
        obtain ⟨y, hy, hya⟩ : ∃ y ∈ l, start y < a := by
          cases l with
          | nil => exact absurd rfl hrest
          | cons z l' =>
            refine ⟨z, List.mem_cons_self, ?_⟩
            by_contra hz
            exact hrest (List.takeWhile_cons_of_neg (by simpa using hz))
        have hxy := (List.pairwise_cons.mp h.pairwise).1 y hy
        have hnx : ¬ Meets start len a b x := fun hm => absurd hm.2 (by omega)
        obtain ⟨w, hw⟩ := Option.ne_none_iff_exists'.mp (mt List.getLast?_eq_none_iff.mp hrest)
        rw [List.getLast?_cons, hw, Option.getD_some, ← hw, ih hl,
          List.filter_cons_of_neg (by simpa using hnx)]
    · -- nothing starts below `a`: the run below `b` is all that meets
      have hge : ∀ y ∈ x :: l, a ≤ start y := by
        intro y hy
        rcases List.mem_cons.mp hy with rfl | hy
        · omega
        · have := h.start_lt_of_cons hy
          omega
      rw [List.takeWhile_cons_of_neg (by simpa using hx), List.dropWhile_cons_of_neg (by simpa using hx),
        h.takeWhile_start_lt, h.filter_meets_of_le hge]
      rfl

/-- Of the ranges `lower_bound(a)` selects for `[a, b)`, with the predecessor kept whether or not
it reaches `a`, those containing a point `p` of `[a, b)` are all the map's. -/
theorem filter_point_of_lowerBound (h : Apart start len l) {a b p : Nat} (hap : a ≤ p)
    (hpb : p < b) :
    ((l.takeWhile (fun x => decide (start x < a))).getLast?.toList ++
        (l.dropWhile (fun x => decide (start x < a))).takeWhile (fun x => decide (start x < b))).filter
      (fun x => decide (Meets start len p (p + 1) x)) =
    l.filter (fun x => decide (Meets start len p (p + 1) x)) := by
  -- a range containing `p` reaches past `a` and meets `[a, b)`
  have hpred : ((l.takeWhile (fun x => decide (start x < a))).getLast?.toList).filter
        (fun x => decide (Meets start len p (p + 1) x)) =
      (((l.takeWhile (fun x => decide (start x < a))).getLast?.toList).filter
        (fun x => decide (a < start x + len x))).filter
          (fun x => decide (Meets start len p (p + 1) x)) := by
    rw [List.filter_filter]
    apply List.filter_congr
    intro x _
    by_cases hm : Meets start len p (p + 1) x
    · have hax : a < start x + len x := by
        have := hm.2
        omega
      simp [hm, hax]
    · simp [hm]
  rw [List.filter_append, hpred, ← List.filter_append, h.overlap_eq_filter (by omega),
    List.filter_filter]
  apply List.filter_congr
  intro x _
  by_cases hm : Meets start len p (p + 1) x
  · have hab : Meets start len a b x := by
      obtain ⟨h₁, h₂⟩ := hm
      exact ⟨by omega, by omega⟩
    simp [hm, hab]
  · simp [hm]

/-- Two ranges of the map that both contain `p` are one. -/
theorem eq_of_meets_point (h : Apart start len l) {p : Nat} {x y : α} (hx : x ∈ l) (hy : y ∈ l)
    (hxp : Meets start len p (p + 1) x) (hyp : Meets start len p (p + 1) y) : x = y := by
  induction l with
  | nil => cases hx
  | cons z l ih =>
    have hz := (List.pairwise_cons.mp h.pairwise).1
    rcases List.mem_cons.mp hx with rfl | hx'
    · rcases List.mem_cons.mp hy with rfl | hy'
      · rfl
      · -- `x` ends before `y` starts, and both contain `p`
        have := hz y hy'
        simp only [Meets] at hxp hyp
        omega
    · rcases List.mem_cons.mp hy with rfl | hy'
      · have := hz x hx'
        simp only [Meets] at hxp hyp
        omega
      · exact ih h.of_cons hx' hy'

/-- The one range containing `p` is all the map gives for `p`. -/
theorem filter_meets_point (h : Apart start len l) {p : Nat} {x : α} (hx : x ∈ l)
    (hxp : Meets start len p (p + 1) x) :
    l.filter (fun y => decide (Meets start len p (p + 1) y)) = [x] := by
  induction l with
  | nil => cases hx
  | cons z l ih =>
    have hz := (List.pairwise_cons.mp h.pairwise).1
    rcases List.mem_cons.mp hx with rfl | hx'
    · -- every later range starts past `p`
      have hnil : l.filter (fun y => decide (Meets start len p (p + 1) y)) = [] := by
        rw [List.filter_eq_nil_iff]
        intro y hy hyp
        have hyp' : Meets start len p (p + 1) y := by simpa using hyp
        have := hz y hy
        simp only [Meets] at hxp hyp'
        omega
      rw [List.filter_cons_of_pos (by simpa using hxp), hnil]
    · -- `z` ends before `x` starts, so it does not contain `p`
      have hnz : ¬ Meets start len p (p + 1) z := by
        intro hzp
        have := hz x hx'
        simp only [Meets] at hxp hzp
        omega
      rw [List.filter_cons_of_neg (by simpa using hnz), ih h.of_cons hx']

end Apart

/-- In a list ordered by `R`, every element is the head or comes after it. -/
theorem rel_of_head?_eq {R : α → α → Prop} {l : List α} {x : α} (hs : l.Pairwise R)
    (hx : l.head? = some x) : ∀ y ∈ l, y = x ∨ R x y := by
  obtain ⟨t, rfl⟩ := List.head?_eq_some_iff.mp hx
  intro y hy
  rcases List.mem_cons.mp hy with rfl | hy
  · exact Or.inl rfl
  · exact Or.inr ((List.pairwise_cons.mp hs).1 y hy)

/-- In a list ordered by `R`, every element is the last or comes before it. -/
theorem rel_of_getLast?_eq {R : α → α → Prop} {l : List α} {x : α} (hs : l.Pairwise R)
    (hx : l.getLast? = some x) : ∀ y ∈ l, y = x ∨ R y x := by
  obtain ⟨t, rfl⟩ := List.getLast?_eq_some_iff.mp hx
  intro y hy
  rcases List.mem_append.mp hy with hy | hy
  · exact Or.inr ((List.pairwise_append.mp hs).2.2 y hy x (List.mem_singleton_self x))
  · exact Or.inl (List.mem_singleton.mp hy)

/-- Erasing the keys of `ss` one after another keeps the elements whose key none of `ss` has. -/
theorem foldl_filter_key_ne {β : Type*} (key : α → β) [DecidableEq β] :
    ∀ (ss m : List α), ss.foldl (fun m s => m.filter fun x => decide (key x ≠ key s)) m =
      m.filter fun x => decide (∀ s ∈ ss, key x ≠ key s)
  | [], m => by simp
  | s :: ss, m => by
    rw [List.foldl_cons, foldl_filter_key_ne key ss, List.filter_filter]
    apply List.filter_congr
    intro x _
    simp [Bool.and_comm]

/-! ## Inserts that check the key is new -/

/-- `CHECK(m.insert({key x, x}).second)` on a `std::map` kept as its values sorted by `key`: `x`
goes in key order, and a value of the same key already there fails the check. -/
def checkedInsert (key : α → Nat) (x : α) (l : List α) : Option (List α) :=
  if l.any (fun y => key y == key x) then none
  else some (orderedSetInsert (fun y z => decide (key y < key z)) x l)

section CheckedInsert

variable {key : α → Nat} {x : α} {l l' : List α}

theorem checkedInsert_of_fresh (h : ∀ y ∈ l, key y ≠ key x) :
    checkedInsert key x l = some (orderedSetInsert (fun y z => decide (key y < key z)) x l) := by
  rw [checkedInsert, if_neg]
  simpa using h

theorem fresh_of_checkedInsert (h : checkedInsert key x l = some l') : ∀ y ∈ l, key y ≠ key x := by
  unfold checkedInsert at h
  split at h
  · cases h
  · rename_i hany
    simpa using hany

/-- A checked insert adds `x` to the values. -/
theorem perm_of_checkedInsert (h : checkedInsert key x l = some l') : l'.Perm (x :: l) := by
  have hfresh := fresh_of_checkedInsert h
  rw [checkedInsert_of_fresh hfresh, Option.some.injEq] at h
  rw [← h]
  exact perm_orderedSetInsert (P := fun _ => True) (fun _ _ _ _ => rfl) trivial (fun _ _ => trivial)
    hfresh

/-- A checked insert keeps the keys increasing. -/
theorem pairwise_of_checkedInsert (h : checkedInsert key x l = some l')
    (hs : l.Pairwise fun y z => key y < key z) : l'.Pairwise fun y z => key y < key z := by
  rw [checkedInsert_of_fresh (fresh_of_checkedInsert h), Option.some.injEq] at h
  rw [← h]
  exact pairwise_orderedSetInsert (P := fun _ => True) (fun _ _ _ _ => rfl) trivial
    (fun _ _ => trivial) hs

end CheckedInsert

/-! ## Listings printed part by part -/

/-- A listing made part by part by a fallible `f`: where the output of each part, filtered by
`q p` and mapped by `v p`, is `F x p` for every `p`, the whole output is the parts' in order.
Induction on the parts. -/
theorem mapM_flatten_filter {ι β γ : Type*} (f : α → Option (List β)) (q : ι → β → Bool)
    (v : ι → β → γ) (F : α → ι → List γ) :
    ∀ l : List α, (∀ x ∈ l, ∃ ys, f x = some ys ∧ ∀ p, ((ys.filter (q p)).map (v p)) = F x p) →
      ∃ ys, (l.mapM f).map List.flatten = some ys ∧
        ∀ p, (ys.filter (q p)).map (v p) = l.flatMap (F · p)
  | [], _ => ⟨[], rfl, fun _ => rfl⟩
  | x :: l, h => by
    obtain ⟨ys, hys, hF⟩ := h x List.mem_cons_self
    obtain ⟨zs, hzs, hG⟩ :=
      mapM_flatten_filter f q v F l fun y hy => h y (List.mem_cons_of_mem _ hy)
    obtain ⟨zss, hzss, rfl⟩ := Option.map_eq_some_iff.mp hzs
    refine ⟨ys ++ zss.flatten, ?_, fun p => ?_⟩
    · rw [List.mapM_cons, hys, hzss]
      rfl
    · rw [List.filter_append, List.map_append, hF, hG, List.flatMap_cons]

/-- Parts that give the same `N` when they hold a point give it once per part holding it. -/
theorem flatMap_ite_eq {β : Type*} (P : α → Prop) [DecidablePred P] (N : List β) :
    ∀ l : List α, (l.flatMap fun x => if P x then N else []) =
      (l.filter fun x => decide (P x)).flatMap fun _ => N
  | [] => rfl
  | x :: l => by
    by_cases hx : P x
    · rw [List.flatMap_cons, if_pos hx, List.filter_cons_of_pos (by simpa using hx),
        List.flatMap_cons, flatMap_ite_eq P N l]
    · rw [List.flatMap_cons, if_neg hx, List.filter_cons_of_neg (by simpa using hx),
        flatMap_ite_eq P N l, List.nil_append]

end DingoFs.Lib
