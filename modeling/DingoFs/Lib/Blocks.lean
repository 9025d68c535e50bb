import Mathlib.Data.List.Basic

/-!
# Cutting a range at block boundaries

Positions are grouped into blocks of `bs`; block `k` holds `[k * bs, (k + 1) * bs)`. A list
`d` whose element `i` sits at position `c + i` is cut, over a range `[lo, hi)`, into one
slice per block the range touches. The slices concatenate back to the range, a sub-range read
out of a block's slice is the sub-range's own slice, and an element is found in the slice of
its block at its distance from the slice's start.
-/

namespace DingoFs.Lib

variable {α : Type*}

/-- The elements of `d` (element `i` at position `c + i`) at the positions of block `k` that lie
in `[lo, hi)`. -/
def blockSlice (bs c lo hi : Nat) (d : List α) (k : Nat) : List α :=
  (d.drop (max lo (k * bs) - c)).take (min hi ((k + 1) * bs) - max lo (k * bs))

/-- The blocks a nonempty range `[lo, hi)` touches, in order. -/
def blocksOf (bs lo hi : Nat) : List Nat :=
  List.range' (lo / bs) ((hi - 1) / bs + 1 - lo / bs)

section Arith

variable {bs : Nat}

theorem lt_succ_div_mul (hbs : 0 < bs) (p : Nat) : p < (p / bs + 1) * bs := by
  rw [Nat.add_mul, Nat.one_mul]
  exact Nat.lt_div_mul_add hbs

/-- A position between a block's start and the next block's start lies in that block. -/
theorem div_eq_of_mem_block {p k : Nat} (h₁ : k * bs ≤ p)
    (h₂ : p < (k + 1) * bs) : p / bs = k := by
  refine Nat.div_eq_of_lt_le h₁ ?_
  rwa [Nat.mul_comm, Nat.mul_comm bs] at *

/-- A position inside a range that lies within one chunk lies in the range's chunk. -/
theorem div_eq_of_mod_add_le {cs a n p : Nat} (hin : a % cs + n ≤ cs) (ha : a ≤ p)
    (hp : p < a + n) : p / cs = a / cs := by
  have h := Nat.mod_add_div' a cs
  exact Nat.div_eq_of_lt_le (by omega) (by rw [Nat.add_one_mul]; omega)

/-- Where blocks divide chunks, a position's block is its block within its chunk after the
blocks of the chunks before it. -/
theorem div_eq_mod_div_add {cs : Nat} (hbs : 0 < bs) (hdvd : bs ∣ cs) (p : Nat) :
    p / bs = p % cs / bs + p / cs * (cs / bs) := by
  obtain ⟨m, rfl⟩ := hdvd
  rw [Nat.mul_div_cancel_left m hbs, Nat.mod_mul_right_div_self, ← Nat.div_div_eq_div_mul,
    Nat.mod_add_div']

/-- Where a range from `c ≤ p` starts in the block of `p`: at the offset of `c` when `p` lies
in the block of `c`, at the block's start otherwise. Position `p` lies past that start by its
distance from the later of `c` and the block's start. -/
theorem mod_sub_start_eq (hbs : 0 < bs) {c p : Nat} (hcp : c ≤ p) :
    (if p / bs = c / bs then c % bs else 0) ≤ p % bs ∧
      p % bs - (if p / bs = c / bs then c % bs else 0) = p - max c (p / bs * bs) := by
  have hp := Nat.mod_add_div' p bs
  have hc := Nat.mod_add_div' c bs
  split_ifs with hblock
  · rw [hblock] at hp ⊢
    rw [Nat.max_eq_left (Nat.div_mul_le_self c bs)]
    omega
  · -- `p` lies in a later block, which starts past `c`
    have hlt : c / bs + 1 ≤ p / bs := by
      have : c / bs ≤ p / bs := Nat.div_le_div_right hcp
      omega
    have hnext := Nat.mul_le_mul_right bs hlt
    have hce := lt_succ_div_mul hbs c
    rw [Nat.max_eq_right (by omega)]
    omega

end Arith

section Slices

/-- Two consecutive ranges of positions, read out of `d` (element `i` at position `c + i`),
concatenate to their union. -/
theorem take_drop_append_take_drop (d : List α) {c a b e : Nat} (hca : c ≤ a) (hab : a ≤ b)
    (hbe : b ≤ e) :
    (d.drop (a - c)).take (b - a) ++ (d.drop (b - c)).take (e - b) =
      (d.drop (a - c)).take (e - a) := by
  calc (d.drop (a - c)).take (b - a) ++ (d.drop (b - c)).take (e - b)
      = (d.drop (a - c)).take (b - a) ++ ((d.drop (a - c)).drop (b - a)).take (e - b) := by
        rw [List.drop_drop]
        congr 3
        omega
    _ = (d.drop (a - c)).take (e - a) := by
        rw [← List.take_add]
        congr 1
        omega

variable {bs : Nat}

theorem blocksOf_cons (hbs : 0 < bs) {lo hi : Nat} (hlo : lo < hi) :
    blocksOf bs lo hi = lo / bs ::
      if hi ≤ (lo / bs + 1) * bs then [] else blocksOf bs ((lo / bs + 1) * bs) hi := by
  have hle : lo / bs ≤ (hi - 1) / bs := Nat.div_le_div_right (by omega)
  unfold blocksOf
  rw [show (hi - 1) / bs + 1 - lo / bs = ((hi - 1) / bs - lo / bs) + 1 by omega,
    List.range'_succ]
  congr 1
  split_ifs with hend
  · -- the range ends in its first block
    have : (hi - 1) / bs = lo / bs :=
      div_eq_of_mem_block (Nat.le_trans (Nat.div_mul_le_self lo bs) (by omega)) (by omega)
    rw [this, Nat.sub_self, List.range'_zero]
  · have hnext : (lo / bs + 1) * bs / bs = lo / bs + 1 := Nat.mul_div_cancel _ hbs
    rw [hnext]
    congr 1
    omega

theorem mem_blocksOf {lo hi k : Nat} (h : k ∈ blocksOf bs lo hi) :
    lo / bs ≤ k ∧ k ≤ (hi - 1) / bs := by
  unfold blocksOf at h
  rw [List.mem_range'_1] at h
  omega

theorem div_mem_blocksOf {lo hi p : Nat} (hlo : lo ≤ p) (hp : p < hi) :
    p / bs ∈ blocksOf bs lo hi := by
  unfold blocksOf
  rw [List.mem_range'_1]
  have h₁ : lo / bs ≤ p / bs := Nat.div_le_div_right hlo
  have h₂ : p / bs ≤ (hi - 1) / bs := Nat.div_le_div_right (by omega)
  omega

/-- The blocks of a range are blocks of every range around it. -/
theorem blocksOf_mono {lo lo' hi hi' k : Nat} (hlo : lo ≤ lo') (hhi : hi' ≤ hi)
    (h : k ∈ blocksOf bs lo' hi') : k ∈ blocksOf bs lo hi := by
  have h₁ : lo / bs ≤ lo' / bs := Nat.div_le_div_right hlo
  have h₂ : (hi' - 1) / bs ≤ (hi - 1) / bs := Nat.div_le_div_right (by omega)
  have hk := mem_blocksOf h
  unfold blocksOf
  rw [List.mem_range'_1]
  omega

/-- A block of a nonempty range meets it: it starts below the range's end and ends past the
range's start. -/
theorem mem_blocksOf_meets (hbs : 0 < bs) {lo hi k : Nat} (hlo : lo < hi)
    (h : k ∈ blocksOf bs lo hi) : k * bs < hi ∧ lo < (k + 1) * bs := by
  obtain ⟨h₁, h₂⟩ := mem_blocksOf h
  have hk : k * bs ≤ hi - 1 := (Nat.le_div_iff_mul_le hbs).mp h₂
  have hlt := lt_succ_div_mul hbs lo
  have hmono := Nat.mul_le_mul_right bs (Nat.add_le_add_right h₁ 1)
  omega

/-- Past the first block of `[lo, hi)`, its slices are those of the range from the next
block's start. -/
theorem blockSlice_of_le {c lo lo' hi : Nat} (d : List α) {k : Nat} (hlo : lo ≤ lo')
    (hk : lo' ≤ k * bs) : blockSlice bs c lo hi d k = blockSlice bs c lo' hi d k := by
  unfold blockSlice
  rw [Nat.max_eq_right (Nat.le_trans hlo hk), Nat.max_eq_right hk]

/-- The slices of a range concatenate to the range. The induction is on the number of blocks
the range touches, cutting off the first. -/
theorem flatten_blockSlice (hbs : 0 < bs) (c hi : Nat) (d : List α) :
    ∀ n lo, (hi - 1) / bs + 1 - lo / bs ≤ n → c ≤ lo → lo < hi →
      ((blocksOf bs lo hi).map (blockSlice bs c lo hi d)).flatten =
        (d.drop (lo - c)).take (hi - lo)
  | 0, lo, hn, _, hlo => by
    have : lo / bs ≤ (hi - 1) / bs := Nat.div_le_div_right (by omega)
    omega
  | n + 1, lo, hn, hc, hlo => by
    have hfirst : blockSlice bs c lo hi d (lo / bs) =
        (d.drop (lo - c)).take (min hi ((lo / bs + 1) * bs) - lo) := by
      unfold blockSlice
      rw [Nat.max_eq_left (Nat.div_mul_le_self lo bs)]
    rw [blocksOf_cons hbs hlo]
    split_ifs with hend
    · rw [List.map_cons, List.map_nil, List.flatten_cons, List.flatten_nil, List.append_nil,
        hfirst, Nat.min_eq_left hend]
    · -- the rest starts at the next block's start `lo'`
      set lo' := (lo / bs + 1) * bs with hlo'
      have hlt : lo < lo' := lt_succ_div_mul hbs lo
      have hrest : (blocksOf bs lo' hi).map (blockSlice bs c lo hi d) =
          (blocksOf bs lo' hi).map (blockSlice bs c lo' hi d) := by
        refine List.map_congr_left fun k hk => blockSlice_of_le d (Nat.le_of_lt hlt) ?_
        have hk' := (mem_blocksOf hk).1
        rw [hlo', Nat.mul_div_cancel _ hbs] at hk'
        exact Nat.mul_le_mul_right bs hk'
      have hn' : (hi - 1) / bs + 1 - lo' / bs ≤ n := by
        rw [hlo', Nat.mul_div_cancel _ hbs]
        omega
      rw [List.map_cons, List.flatten_cons, hrest,
        flatten_blockSlice hbs c hi d n lo' hn' (by omega) (by omega), hfirst,
        Nat.min_eq_right (by omega)]
      calc (d.drop (lo - c)).take (lo' - lo) ++ (d.drop (lo' - c)).take (hi - lo')
          = (d.drop (lo - c)).take (lo' - lo) ++
              ((d.drop (lo - c)).drop (lo' - lo)).take (hi - lo') := by
            rw [List.drop_drop]
            congr 3
            omega
        _ = (d.drop (lo - c)).take (hi - lo) := by
            rw [← List.take_add]
            congr 1
            omega

/-- A block's slice of a sub-range `[lo', hi')` is read out of its slice of `[lo, hi)` from the
sub-range's start within the block. -/
theorem blockSlice_sub {c lo lo' hi hi' : Nat} (d : List α) (k : Nat) (hc : c ≤ lo)
    (hlo : lo ≤ lo') (hhi : hi' ≤ hi) :
    ((blockSlice bs c lo hi d k).drop (max lo' (k * bs) - max lo (k * bs))).take
        (min hi' ((k + 1) * bs) - max lo' (k * bs)) =
      blockSlice bs c lo' hi' d k := by
  unfold blockSlice
  rw [List.drop_take, List.take_take, List.drop_drop]
  congr 2
  · omega
  · omega

theorem length_blockSlice {c lo hi : Nat} (d : List α) (k : Nat) (hc : c ≤ lo)
    (hd : hi ≤ c + d.length) :
    (blockSlice bs c lo hi d k).length = min hi ((k + 1) * bs) - max lo (k * bs) := by
  unfold blockSlice
  rw [List.length_take, List.length_drop]
  omega

/-- An element sits in the slice of its block at its distance from the slice's start. -/
theorem getElem?_blockSlice (hbs : 0 < bs) {c lo hi p : Nat} (d : List α) (hc : c ≤ lo)
    (hlo : lo ≤ p) (hp : p < hi) :
    (blockSlice bs c lo hi d (p / bs))[p - max lo (p / bs * bs)]? = d[p - c]? := by
  have h₁ := Nat.div_mul_le_self p bs
  have h₂ := lt_succ_div_mul hbs p
  unfold blockSlice
  rw [List.getElem?_take_of_lt (by omega), List.getElem?_drop]
  congr 1
  omega

end Slices

section Loops

variable {β : Type*} {bs : Nat}

/-- A fuelled loop over the blocks `k, k + 1, …` (from some block `k₀` on) that emits `g k`
for each block starting below `hi` and stops at the first block that does not: given fuel for
as many rounds, it emits `g` of the blocks from `k` to the one holding `hi - 1`. -/
theorem loop_eq_map_range' (hbs : 0 < bs) {hi k₀ : Nat} (hhi : 0 < hi) (g : Nat → β)
    (loop : Nat → Nat → List β) (hzero : ∀ k, loop 0 k = [])
    (hstep : ∀ fuel k, k₀ ≤ k → k * bs < hi → loop (fuel + 1) k = g k :: loop fuel (k + 1))
    (hstop : ∀ fuel k, k₀ ≤ k → hi ≤ k * bs → loop fuel k = []) :
    ∀ fuel k, k₀ ≤ k → (hi - 1) / bs + 1 ≤ fuel + k →
      loop fuel k = (List.range' k ((hi - 1) / bs + 1 - k)).map g
  | 0, k, _, hfuel => by
    rw [hzero, Nat.sub_eq_zero_of_le (by omega), List.range'_zero, List.map_nil]
  | fuel + 1, k, hk, hfuel => by
    by_cases hlt : k * bs < hi
    · -- block `k` starts in the range: it is emitted, and the loop goes on from the next
      have hle : k ≤ (hi - 1) / bs := (Nat.le_div_iff_mul_le hbs).mpr (by omega)
      rw [hstep fuel k hk hlt,
        show (hi - 1) / bs + 1 - k = ((hi - 1) / bs + 1 - (k + 1)) + 1 by omega,
        List.range'_succ, List.map_cons,
        loop_eq_map_range' hbs hhi g loop hzero hstep hstop fuel (k + 1) (by omega) (by omega)]
    · -- block `k` starts past the range, so it comes after the block holding `hi - 1`
      have hgt : (hi - 1) / bs < k := by
        have hdiv : (hi - 1) / bs * bs < k * bs := by
          have := Nat.div_mul_le_self (hi - 1) bs
          omega
        exact Nat.lt_of_mul_lt_mul_right hdiv
      rw [hstop (fuel + 1) k hk (by omega), Nat.sub_eq_zero_of_le (by omega), List.range'_zero,
        List.map_nil]

/-- Reads of the images of a list's elements that each succeed read the whole list. -/
theorem mapM_map_eq_some {γ δ : Type*} {f : γ → Option δ} {h : β → γ} {g : β → δ} :
    ∀ {l : List β}, (∀ x ∈ l, f (h x) = some (g x)) → (l.map h).mapM f = some (l.map g)
  | [], _ => rfl
  | x :: l, hl => by
    rw [List.map_cons, List.mapM_cons, hl x List.mem_cons_self,
      mapM_map_eq_some fun y hy => hl y (List.mem_cons_of_mem x hy)]
    rfl

end Loops

end DingoFs.Lib
