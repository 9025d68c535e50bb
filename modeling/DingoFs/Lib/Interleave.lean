import Mathlib

/-!
# Runs of a row-major layout

Laying out `m` rows over the columns `zs`, row by row, writes `zs` out `m` times. A run of at
most `zs.length` consecutive places of that layout is a start of a rotation of `zs`
(`take_drop_flatten_replicate_prefix_rotate`), so when the columns are distinct no column comes
twice in such a run (`nodup_take_drop_flatten_replicate`), however the run straddles two rows.
The number of full rows is the shortest column, a `min` folded from a bound
(`foldl_min_le`, `le_foldl_min`).
-/

namespace DingoFs.Lib

variable {α : Type*}

/-- A start of the layout no longer than a row is a start of a row. -/
theorem take_flatten_replicate_prefix_take (zs : List α) {j : Nat} (hj : j ≤ zs.length) :
    ∀ m, (List.replicate m zs).flatten.take j <+: zs.take j
  | 0 => by simp
  | m + 1 => by
    rw [List.replicate_succ, List.flatten_cons, List.take_append_of_le_length hj]

/-- A run of at most a row's length, from place `s` of the layout, is a start of `zs` rotated
by `s`. Induction on the rows: a run starting in the first row takes the rest of that row and
then at most the first `s` places of the next. -/
theorem take_drop_flatten_replicate_prefix_rotate (zs : List α) {R : Nat} (hR : R ≤ zs.length) :
    ∀ (m s : Nat), ((List.replicate m zs).flatten.drop s).take R <+: zs.rotate (s % zs.length)
  | 0, s => by simp
  | m + 1, s => by
    rw [List.replicate_succ, List.flatten_cons]
    by_cases hs : s < zs.length
    · rw [List.drop_append_of_le_length (Nat.le_of_lt hs), Nat.mod_eq_of_lt hs,
        List.rotate_eq_drop_append_take (Nat.le_of_lt hs), List.take_append]
      by_cases hRs : R ≤ (zs.drop s).length
      · -- the run ends in this row
        rw [Nat.sub_eq_zero_of_le hRs, List.take_zero, List.append_nil]
        exact (List.take_prefix R _).trans (List.prefix_append _ _)
      · -- the rest of this row, then at most the first `s` places of the next
        rw [List.take_of_length_le (by omega)]
        apply (List.prefix_append_right_inj _).mpr
        have hj : R - (zs.drop s).length ≤ s := by
          rw [List.length_drop]
          omega
        exact (take_flatten_replicate_prefix_take zs (by omega) m).trans
          (List.take_prefix_take_left hj)
    · -- the run starts past this row
      rw [List.drop_append, List.drop_of_length_le (by omega), List.nil_append,
        Nat.mod_eq_sub_mod (by omega)]
      exact take_drop_flatten_replicate_prefix_rotate zs hR m (s - zs.length)

/-- Over distinct columns, a run of at most a row's length has no column twice. -/
theorem nodup_take_drop_flatten_replicate {zs : List α} (hzs : zs.Nodup) {R : Nat}
    (hR : R ≤ zs.length) (m s : Nat) : (((List.replicate m zs).flatten.drop s).take R).Nodup :=
  (List.nodup_rotate.mpr hzs).sublist (take_drop_flatten_replicate_prefix_rotate zs hR m s).sublist

/-! ### Full rows -/

section FoldlMin

variable {β : Type*} [LinearOrder β]

theorem foldl_min_le_init : ∀ (l : List β) (a : β), l.foldl min a ≤ a
  | [], _ => le_rfl
  | x :: l, a => (foldl_min_le_init l (min a x)).trans (min_le_left a x)

/-- The folded `min` is at most every column. -/
theorem foldl_min_le {x : β} : ∀ {l : List β}, x ∈ l → ∀ a, l.foldl min a ≤ x
  | y :: l, hx, a => by
    rw [List.foldl_cons]
    rcases List.mem_cons.mp hx with rfl | hx
    · exact (foldl_min_le_init l (min a x)).trans (min_le_right a x)
    · exact foldl_min_le hx (min a y)

/-- A lower bound of the start and of every column bounds the folded `min`. -/
theorem le_foldl_min {b : β} : ∀ {l : List β}, (∀ x ∈ l, b ≤ x) → ∀ a, b ≤ a → b ≤ l.foldl min a
  | [], _, _, ha => ha
  | x :: l, hl, a, ha => by
    rw [List.foldl_cons]
    apply le_foldl_min fun y hy => hl y (List.mem_cons_of_mem x hy)
    exact le_min ha (hl x List.mem_cons_self)

end FoldlMin

end DingoFs.Lib
