import Mathlib.Data.List.MinMax
import Mathlib.Data.List.Nodup
import Mathlib.Data.List.Perm.Basic

/-!
# Ordered sets and maps as sorted lists

A `std::set` or `absl::btree_set` under a comparator `lt` keeps its elements sorted and
ignores an insert of an element equivalent to one it holds (neither is less than the other).
`orderedSetInsert` is that insert on a sorted list; `orderedMapAssign` is the assignment
`m[k] = v` of a `std::map` with natural-number keys.

The lemmas take the comparator to order the elements that satisfy a predicate `P` by a
natural-number key. Then an insert of a fresh key is a permutation of consing it, the list
stays strictly increasing, and its last element carries the largest key, so it is the
`List.argmax` of any list it is a permutation of when keys are distinct.
-/

namespace DingoFs.Lib

variable {α : Type*}

/-- Insert into a sorted list under the comparator `lt`, unless an equivalent element is
there. -/
def orderedSetInsert (lt : α → α → Bool) (a : α) : List α → List α
  | [] => [a]
  | b :: l =>
    if lt a b then a :: b :: l
    else if lt b a then b :: orderedSetInsert lt a l
    else b :: l

/-- `m[k] = v` on a `std::map` kept as a list sorted by key: replace the value of `k`, or
insert the pair in order. -/
def orderedMapAssign {β : Type*} (k : Nat) (v : β) : List (Nat × β) → List (Nat × β)
  | [] => [(k, v)]
  | (k', v') :: l =>
    if k < k' then (k, v) :: (k', v') :: l
    else if k' < k then (k', v') :: orderedMapAssign k v l
    else (k, v) :: l

/-- `m.emplace(k, v)` on a `std::map`: the pair goes in key order, unless the key is taken. -/
def orderedMapEmplace {β : Type*} (k : Nat) (v : β) (l : List (Nat × β)) : List (Nat × β) :=
  orderedSetInsert (fun a b => decide (a.1 < b.1)) (k, v) l

/-- `m.erase(k)` on a `std::map`. -/
def orderedMapErase {β : Type*} (k : Nat) (l : List (Nat × β)) : List (Nat × β) :=
  l.filter fun e => e.1 ≠ k

/-- An element below the first of `l₂` and above all of `l₁` goes between them. -/
theorem orderedSetInsert_append {lt : α → α → Bool} {a : α} {l₂ : List α}
    (h₂ : ∀ y ∈ l₂.head?, lt a y = true) :
    ∀ {l₁ : List α}, (∀ x ∈ l₁, lt a x = false ∧ lt x a = true) →
      orderedSetInsert lt a (l₁ ++ l₂) = l₁ ++ a :: l₂
  | [], _ => by
    cases l₂ with
    | nil => rfl
    | cons y l => rw [List.nil_append, orderedSetInsert, if_pos (h₂ y rfl), List.nil_append]
  | x :: l₁, h₁ => by
    have hx := h₁ x List.mem_cons_self
    rw [List.cons_append, orderedSetInsert, if_neg (by rw [hx.1]; decide), if_pos hx.2,
      orderedSetInsert_append h₂ fun y hy => h₁ y (List.mem_cons_of_mem x hy)]
    rfl

/-- Assigning to a key the list holds replaces its value in place. -/
theorem orderedMapAssign_append {β : Type*} {k : Nat} {v v₀ : β} {l₂ : List (Nat × β)} :
    ∀ {l₁ : List (Nat × β)}, (∀ x ∈ l₁, x.1 < k) →
      orderedMapAssign k v (l₁ ++ (k, v₀) :: l₂) = l₁ ++ (k, v) :: l₂
  | [], _ => by simp [orderedMapAssign]
  | x :: l₁, h₁ => by
    have hx := h₁ x List.mem_cons_self
    rw [List.cons_append, orderedMapAssign, if_neg (by omega), if_pos hx,
      orderedMapAssign_append fun y hy => h₁ y (List.mem_cons_of_mem x hy)]
    rfl

section KeyOrder

variable {lt : α → α → Bool} {key : α → Nat} {P : α → Prop}

theorem mem_orderedSetInsert {a x : α} :
    ∀ {l : List α}, x ∈ orderedSetInsert lt a l → x = a ∨ x ∈ l
  | [], h => by simpa [orderedSetInsert] using h
  | b :: l, h => by
    unfold orderedSetInsert at h
    split_ifs at h
    · exact List.mem_cons.mp h
    · rcases List.mem_cons.mp h with rfl | h
      · exact .inr List.mem_cons_self
      · exact (mem_orderedSetInsert h).imp id (List.mem_cons_of_mem b)
    · exact .inr h

/-- Under a comparator that orders by `key`, inserting keeps a list strictly increasing. -/
theorem pairwise_orderedSetInsert (hlt : ∀ x y, P x → P y → lt x y = decide (key x < key y))
    {a : α} : ∀ {l : List α}, P a → (∀ b ∈ l, P b) →
      l.Pairwise (fun x y => key x < key y) →
      (orderedSetInsert lt a l).Pairwise (fun x y => key x < key y)
  | [], _, _, _ => List.pairwise_singleton _ a
  | b :: l, ha, hl, hs => by
    have hb := hl b List.mem_cons_self
    rw [List.pairwise_cons] at hs
    unfold orderedSetInsert
    split_ifs with h₁ h₂
    · -- `a` goes first: it is below `b`, and `b` below the rest
      have hk : key a < key b := by simpa [hlt a b ha hb] using h₁
      refine List.Pairwise.cons ?_ (List.Pairwise.cons hs.1 hs.2)
      intro y hy
      rcases List.mem_cons.mp hy with rfl | hy
      · exact hk
      · exact lt_trans hk (hs.1 y hy)
    · -- `b` stays first and `a` goes into the rest
      have hk : key b < key a := by simpa [hlt b a hb ha] using h₂
      refine List.Pairwise.cons ?_
        (pairwise_orderedSetInsert hlt ha (fun c hc => hl c (List.mem_cons_of_mem b hc)) hs.2)
      intro y hy
      rcases mem_orderedSetInsert hy with rfl | hy
      · exact hk
      · exact hs.1 y hy
    · exact List.Pairwise.cons hs.1 hs.2

/-- Inserting an element whose key is new to the list adds it. -/
theorem perm_orderedSetInsert (hlt : ∀ x y, P x → P y → lt x y = decide (key x < key y))
    {a : α} : ∀ {l : List α}, P a → (∀ b ∈ l, P b) → (∀ b ∈ l, key b ≠ key a) →
      (orderedSetInsert lt a l).Perm (a :: l)
  | [], _, _, _ => List.Perm.refl _
  | b :: l, ha, hl, hnew => by
    have hb := hl b List.mem_cons_self
    unfold orderedSetInsert
    split_ifs with h₁ h₂
    · exact List.Perm.refl _
    · have ih := perm_orderedSetInsert hlt ha (fun c hc => hl c (List.mem_cons_of_mem b hc))
        (fun c hc => hnew c (List.mem_cons_of_mem b hc))
      exact (ih.cons b).trans (List.Perm.swap a b l)
    · -- neither is less, so the keys are equal: impossible for a fresh key
      simp only [hlt a b ha hb, hlt b a hb ha, decide_eq_true_eq, not_lt] at h₁ h₂
      exact absurd (le_antisymm h₁ h₂) (hnew b List.mem_cons_self)

/-- Inserting into `t`, one after another, the elements of `xs` that pass `p`: with distinct
keys the result is a strictly increasing permutation of `t ++ xs.filter p`. The induction is
on `xs`, with the set built so far as the accumulator. -/
theorem foldl_orderedSetInsert (hlt : ∀ x y, P x → P y → lt x y = decide (key x < key y))
    (p : α → Prop) [DecidablePred p] :
    ∀ (xs t : List α), (∀ x ∈ t ++ xs.filter (fun x => p x), P x) →
      ((t ++ xs.filter (fun x => p x)).map key).Nodup →
      t.Pairwise (fun x y => key x < key y) →
      (xs.foldl (fun t x => if p x then orderedSetInsert lt x t else t) t).Perm
          (t ++ xs.filter (fun x => p x)) ∧
        (xs.foldl (fun t x => if p x then orderedSetInsert lt x t else t) t).Pairwise
          (fun x y => key x < key y)
  | [], t, _, _, hs => by simpa using hs
  | x :: xs, t, hP, hnodup, hs => by
    by_cases hx : p x
    · simp only [List.filter_cons, hx, decide_true, if_true] at hP hnodup
      have hPx : P x := hP x (List.mem_append_right _ List.mem_cons_self)
      have hPt : ∀ b ∈ t, P b := fun b hb => hP b (List.mem_append_left _ hb)
      have hfresh : ∀ b ∈ t, key b ≠ key x := by
        rw [List.map_append, List.map_cons] at hnodup
        intro b hb hk
        apply (List.nodup_cons.mp (List.nodup_middle.mp hnodup)).1
        rw [← hk]
        exact List.mem_append_left _ (List.mem_map_of_mem hb)
      -- the new set is `x :: t` up to order, so the rest of the fold sees the same elements
      have hperm : (orderedSetInsert lt x t ++ xs.filter (fun x => p x)).Perm
          (t ++ x :: xs.filter (fun x => p x)) :=
        ((perm_orderedSetInsert hlt hPx hPt hfresh).append_right _).trans List.perm_middle.symm
      have ih := foldl_orderedSetInsert hlt p xs (orderedSetInsert lt x t)
        (fun y hy => hP y (hperm.subset hy)) ((hperm.map key).nodup_iff.mpr hnodup)
        (pairwise_orderedSetInsert hlt hPx hPt hs)
      simp only [List.foldl_cons, List.filter_cons, hx, decide_true, if_true]
      exact ⟨ih.1.trans hperm, ih.2⟩
    · simp only [List.foldl_cons, List.filter_cons, hx, decide_false, if_false,
        Bool.false_eq_true] at hP hnodup ⊢
      exact foldl_orderedSetInsert hlt p xs t hP hnodup hs

/-- The last element of a strictly increasing list carries its largest key. -/
theorem le_key_of_getLast? {l : List α} (hs : l.Pairwise (fun x y => key x < key y)) {m : α}
    (hm : l.getLast? = some m) : ∀ x ∈ l, key x ≤ key m := by
  obtain ⟨l', rfl⟩ := List.getLast?_eq_some_iff.mp hm
  intro x hx
  rcases List.mem_append.mp hx with hx | hx
  · exact (List.pairwise_append.mp hs).2.2 x hx m List.mem_cons_self |>.le
  · rw [List.mem_singleton.mp hx]

/-- A strictly increasing permutation of a list with distinct keys ends in its `argmax`. -/
theorem argmax_eq_getLast? {l t : List α} (hperm : t.Perm l)
    (hs : t.Pairwise (fun x y => key x < key y)) (hnodup : (l.map key).Nodup) :
    l.argmax key = t.getLast? := by
  cases ht : t.getLast? with
  | none =>
    rw [List.getLast?_eq_none_iff] at ht
    subst ht
    rw [List.nil_perm.mp hperm]
    rfl
  | some m =>
    have hml : m ∈ l := hperm.subset (List.mem_of_getLast? ht)
    obtain ⟨m', hm'⟩ : ∃ m', l.argmax key = some m' := by
      cases hl : l.argmax key with
      | none => exact absurd (List.argmax_eq_none.mp hl ▸ hml) List.not_mem_nil
      | some m' => exact ⟨m', rfl⟩
    rw [hm']
    have hm'l : m' ∈ l := List.argmax_mem hm'
    -- both carry the largest key of `l`, and keys are distinct
    have h₁ : key m ≤ key m' := List.le_of_mem_argmax hml hm'
    have h₂ : key m' ≤ key m := le_key_of_getLast? hs ht m' (hperm.symm.subset hm'l)
    rw [List.inj_on_of_nodup_map hnodup hm'l hml (le_antisymm h₂ h₁)]

/-- With distinct keys, a part of a list that keeps its `argmax` has the same `argmax`. -/
theorem argmax_eq_of_subset {l l' : List α} (hsub : l' ⊆ l) (hnodup : (l.map key).Nodup)
    {m : α} (hm : l.argmax key = some m) (hml' : m ∈ l') : l'.argmax key = some m := by
  obtain ⟨m', hm'⟩ : ∃ m', l'.argmax key = some m' := by
    cases hl : l'.argmax key with
    | none => exact absurd (List.argmax_eq_none.mp hl ▸ hml') List.not_mem_nil
    | some m' => exact ⟨m', rfl⟩
  rw [hm']
  have hm'l : m' ∈ l := hsub (List.argmax_mem hm')
  -- both carry the largest key of `l`, and keys are distinct
  have h₁ : key m' ≤ key m := List.le_of_mem_argmax hm'l hm
  have h₂ : key m ≤ key m' := List.le_of_mem_argmax hml' hm'
  rw [List.inj_on_of_nodup_map hnodup hm'l (List.argmax_mem hm) (le_antisymm h₁ h₂)]

/-- Assigning to a key the map does not hold is the ordered insert by key. -/
theorem orderedMapAssign_eq_orderedSetInsert {β : Type*} {k : Nat} {v : β} :
    ∀ {l : List (Nat × β)}, (∀ x ∈ l, x.1 ≠ k) →
      orderedMapAssign k v l = orderedSetInsert (fun a b => decide (a.1 < b.1)) (k, v) l
  | [], _ => rfl
  | (k', v') :: l, h => by
    have hk := h _ List.mem_cons_self
    unfold orderedMapAssign orderedSetInsert
    simp only [decide_eq_true_eq]
    split_ifs with h₁ h₂
    · rfl
    · rw [orderedMapAssign_eq_orderedSetInsert fun x hx => h x (List.mem_cons_of_mem _ hx)]
    · exact absurd (by omega) hk

/-- Assigning, one after another, pairs whose keys are new and distinct: the map is a
permutation of the old one followed by the pairs, and stays strictly increasing by key. The
induction is on the pairs, with the map built so far as the accumulator. -/
theorem foldl_orderedMapAssign {β : Type*} :
    ∀ (xs t : List (Nat × β)), ((t ++ xs).map Prod.fst).Nodup →
      t.Pairwise (fun a b => a.1 < b.1) →
      (xs.foldl (fun m u => orderedMapAssign u.1 u.2 m) t).Perm (t ++ xs) ∧
        (xs.foldl (fun m u => orderedMapAssign u.1 u.2 m) t).Pairwise (fun a b => a.1 < b.1)
  | [], t, _, hs => by simpa using hs
  | x :: xs, t, hnodup, hs => by
    have hfresh : ∀ b ∈ t, b.1 ≠ x.1 := by
      rw [List.map_append, List.map_cons] at hnodup
      intro b hb hk
      apply (List.nodup_cons.mp (List.nodup_middle.mp hnodup)).1
      rw [← hk]
      exact List.mem_append_left _ (List.mem_map_of_mem hb)
    have hlt : ∀ a b : Nat × β, True → True → decide (a.1 < b.1) = decide (a.1 < b.1) :=
      fun _ _ _ _ => rfl
    -- the new map is `x :: t` up to order, so the rest of the fold sees the same pairs
    have hperm : (orderedSetInsert (fun a b => decide (a.1 < b.1)) x t ++ xs).Perm
        (t ++ x :: xs) :=
      ((@perm_orderedSetInsert _ _ Prod.fst (fun _ => True) hlt x t trivial (fun _ _ => trivial)
        hfresh).append_right _).trans List.perm_middle.symm
    have ih := foldl_orderedMapAssign xs _ ((hperm.map Prod.fst).nodup_iff.mpr hnodup)
      (@pairwise_orderedSetInsert _ _ Prod.fst (fun _ => True) hlt x t trivial
        (fun _ _ => trivial) hs)
    rw [List.foldl_cons, orderedMapAssign_eq_orderedSetInsert hfresh]
    exact ⟨ih.1.trans hperm, ih.2⟩

/-- Erasing keys one after another keeps the pairs whose key is none of them. -/
theorem foldl_orderedMapErase {β : Type*} (ks : List Nat) :
    ∀ l : List (Nat × β), ks.foldl (fun m k => orderedMapErase k m) l = l.filter fun e => e.1 ∉ ks := by
  induction ks with
  | nil => intro l; simp
  | cons k ks ih =>
    intro l
    rw [List.foldl_cons, ih, orderedMapErase, List.filter_filter]
    refine List.filter_congr fun e _ => ?_
    rw [Bool.eq_iff_iff]
    simp only [Bool.and_eq_true, decide_eq_true_eq, List.mem_cons, not_or]
    exact and_comm

/-- Emplacing, one after another, pairs whose keys are new and distinct: the map is a
permutation of the old one followed by the pairs, and stays strictly increasing by key. -/
theorem foldl_orderedMapEmplace {β : Type*} (xs t : List (Nat × β))
    (hnodup : ((t ++ xs).map Prod.fst).Nodup) (hs : t.Pairwise (fun a b => a.1 < b.1)) :
    (xs.foldl (fun m u => orderedMapEmplace u.1 u.2 m) t).Perm (t ++ xs) ∧
      (xs.foldl (fun m u => orderedMapEmplace u.1 u.2 m) t).Pairwise (fun a b => a.1 < b.1) := by
  have hlt : ∀ a b : Nat × β, True → True → decide (a.1 < b.1) = decide (a.1 < b.1) :=
    fun _ _ _ _ => rfl
  -- the emplace of a fresh key is the ordered insert of `foldl_orderedSetInsert`, every pair
  -- passing its filter
  have h := @foldl_orderedSetInsert _ _ Prod.fst (fun _ => True) hlt (fun _ => True) _ xs t
    (fun _ _ => trivial) (by simpa using hnodup) hs
  simpa [orderedMapEmplace] using h

end KeyOrder

/-! ## Erasing the first element with a property

A vector that ignores the insert of an element equivalent to one it holds keeps no two
equivalent elements; its delete erases the first equivalent one. -/

section Erase

variable {p q : α → Bool} {l : List α}

/-- Erasing the first element with `p` commutes with a filter that keeps every such
element. -/
theorem filter_eraseP_of_imp (h : ∀ x, p x = true → q x = true) :
    (l.eraseP p).filter q = (l.filter q).eraseP p := by
  rw [List.eraseP_filter]
  congr 2
  funext x
  cases hx : p x
  · rfl
  · simp [h x hx]

/-- A filter that drops every element with `p` does not see the erasing. -/
theorem filter_eraseP_of_not (h : ∀ x, p x = true → q x = false) :
    (l.eraseP p).filter q = l.filter q := by
  rcases List.exists_or_eq_self_of_eraseP p l with heq | ⟨a, l₁, l₂, -, hpa, rfl, heq⟩
  · rw [heq]
  · rw [heq, List.filter_append, List.filter_append, List.filter_cons_of_neg (by simp [h a hpa])]

/-- Where no two elements both have `p`, none is left with `p` after the first is erased. -/
theorem not_of_mem_eraseP (hl : l.Pairwise fun x y => ¬ (p x = true ∧ p y = true)) {a : α}
    (ha : a ∈ l.eraseP p) : p a = false := by
  induction l with
  | nil => simp at ha
  | cons x xs ih =>
    rw [List.pairwise_cons] at hl
    by_cases hx : p x = true
    · -- `x` is the one erased, and no later element shares `p` with it
      rw [List.eraseP_cons_of_pos hx] at ha
      exact Bool.eq_false_iff.mpr fun hpa => hl.1 a ha ⟨hx, hpa⟩
    · rw [List.eraseP_cons_of_neg hx] at ha
      rcases List.mem_cons.mp ha with rfl | ha
      · exact Bool.eq_false_iff.mpr hx
      · exact ih hl.2 ha

/-- Erasing the first element with `p` keeps every copy of an element without `p`. -/
theorem count_eraseP_of_not [BEq α] [LawfulBEq α] {a : α} (ha : p a = false) :
    (l.eraseP p).count a = l.count a := by
  rcases List.exists_or_eq_self_of_eraseP p l with heq | ⟨b, l₁, l₂, -, hpb, rfl, heq⟩
  · rw [heq]
  · have hne : b ≠ a := fun h => by rw [h, ha] at hpb; exact Bool.false_ne_true hpb
    rw [heq, List.count_append, List.count_append, List.count_cons_of_ne hne]

end Erase

/-! ## Lookups in a map kept as a list sorted by key -/

section Lookup

variable {β : Type*}

theorem lookup_cons_eq_ite (a k : Nat) (b : β) (l : List (Nat × β)) :
    ((k, b) :: l).lookup a = if a = k then some b else l.lookup a := by
  by_cases h : a = k
  · simp [h]
  · rw [List.lookup_cons, beq_false_of_ne h, if_neg h]

/-- After `m[k] = v` the map gives `v` at `k` and what it gave before elsewhere. -/
theorem lookup_orderedMapAssign {k : Nat} {v : β} (k' : Nat) :
    ∀ l : List (Nat × β),
      (orderedMapAssign k v l).lookup k' = if k' = k then some v else l.lookup k'
  | [] => by rw [orderedMapAssign, lookup_cons_eq_ite]
  | (k₀, v₀) :: l => by
    unfold orderedMapAssign
    by_cases h₁ : k < k₀
    · rw [if_pos h₁, lookup_cons_eq_ite]
    · by_cases h₂ : k₀ < k
      · rw [if_neg h₁, if_pos h₂, lookup_cons_eq_ite, lookup_cons_eq_ite,
          lookup_orderedMapAssign k' l]
        by_cases hk : k' = k
        · simp only [if_neg (show k' ≠ k₀ by omega), if_pos hk]
        · simp only [if_neg hk]
      · -- the key is there: its value is replaced
        have hk₀ : k₀ = k := by omega
        rw [if_neg h₁, if_neg h₂, lookup_cons_eq_ite, lookup_cons_eq_ite, hk₀]
        by_cases hk : k' = k
        · simp only [if_pos hk]
        · simp only [if_neg hk]

theorem mem_orderedMapAssign {k : Nat} {v : β} {x : Nat × β} :
    ∀ {l : List (Nat × β)}, x ∈ orderedMapAssign k v l → x = (k, v) ∨ x ∈ l
  | [], h => Or.inl (List.mem_singleton.mp h)
  | (k₀, v₀) :: l, h => by
    unfold orderedMapAssign at h
    split_ifs at h with h₁ h₂
    · exact List.mem_cons.mp h
    · rcases List.mem_cons.mp h with rfl | h
      · exact Or.inr List.mem_cons_self
      · exact (mem_orderedMapAssign h).imp id (List.mem_cons_of_mem _)
    · rcases List.mem_cons.mp h with rfl | h
      · exact Or.inl rfl
      · exact Or.inr (List.mem_cons_of_mem _ h)

/-- `m[k] = v` keeps the keys increasing. -/
theorem pairwise_orderedMapAssign {k : Nat} {v : β} :
    ∀ {l : List (Nat × β)}, l.Pairwise (fun a b => a.1 < b.1) →
      (orderedMapAssign k v l).Pairwise (fun a b => a.1 < b.1)
  | [], _ => List.pairwise_singleton _ _
  | (k₀, v₀) :: l, hs => by
    obtain ⟨hk₀, hl⟩ := List.pairwise_cons.mp hs
    unfold orderedMapAssign
    by_cases h₁ : k < k₀
    · rw [if_pos h₁]
      refine List.Pairwise.cons (fun y hy => ?_) hs
      rcases List.mem_cons.mp hy with rfl | hy
      · exact h₁
      · exact Nat.lt_trans h₁ (hk₀ y hy)
    · by_cases h₂ : k₀ < k
      · rw [if_neg h₁, if_pos h₂]
        refine List.Pairwise.cons (fun y hy => ?_) (pairwise_orderedMapAssign hl)
        rcases mem_orderedMapAssign hy with rfl | hy
        · exact h₂
        · exact hk₀ y hy
      · have hk : k₀ = k := by omega
        rw [if_neg h₁, if_neg h₂]
        exact List.Pairwise.cons (fun y hy => hk ▸ hk₀ y hy) hl

/-- In a map with increasing keys, a key's pair is what its lookup gives. -/
theorem lookup_of_mem {k : Nat} {v : β} :
    ∀ {l : List (Nat × β)}, l.Pairwise (fun a b => a.1 < b.1) → (k, v) ∈ l → l.lookup k = some v
  | (k₀, v₀) :: l, hs, hmem => by
    obtain ⟨hk₀, hl⟩ := List.pairwise_cons.mp hs
    rw [lookup_cons_eq_ite]
    rcases List.mem_cons.mp hmem with heq | hmem
    · rw [if_pos (Prod.mk.inj heq).1, (Prod.mk.inj heq).2]
    · rw [if_neg (Nat.ne_of_gt (hk₀ _ hmem)), lookup_of_mem hl hmem]

/-- Over a map with increasing keys, parts that give nothing away from key `c` give together
what `c` gives, provided `c` gives nothing where the map lacks it. Induction on the map. -/
theorem flatMap_key_eq {γ : Type*} {g : Nat → List γ} {c : Nat} (hg : ∀ c', c' ≠ c → g c' = []) :
    ∀ {l : List (Nat × β)}, l.Pairwise (fun a b => a.1 < b.1) → (l.lookup c = none → g c = []) →
      l.flatMap (fun x => g x.1) = g c
  | [], _, hc => (hc rfl).symm
  | (k, v) :: l, hs, hc => by
    obtain ⟨hk, hl⟩ := List.pairwise_cons.mp hs
    rw [List.flatMap_cons]
    by_cases hkc : k = c
    · subst hkc
      -- the later keys are larger, so give nothing
      have hrest : l.flatMap (fun x => g x.1) = [] :=
        List.flatMap_eq_nil_iff.mpr fun x hx => hg x.1 (Nat.ne_of_gt (hk x hx))
      rw [hrest, List.append_nil]
    · rw [hg k hkc, List.nil_append]
      refine flatMap_key_eq hg hl fun hnone => hc ?_
      rw [lookup_cons_eq_ite, if_neg (Ne.symm hkc)]
      exact hnone

end Lookup

end DingoFs.Lib
