import DingoFs.Lib.Blocks
import Mathlib.Order.Interval.Finset.Nat
import Mathlib.Data.Finset.Card

/-!
# Walking a range in blocks and pages

A range laid out in blocks of `blockSize` bytes, each cut into pages of `pageSize` bytes, is
walked by two nested loops of one shape:

    while (len > 0) { n = pos + len > size ? size - pos : len; …; index++; len -= n;
                      pos = (pos + n) % size; }

the outer over the blocks of the range, the inner over the pages of the block's part.
`walkRounds` is that loop, and `walkRounds_rule` its invariant rule: an invariant of the
position reached that one round keeps holds when the range is done. `walkPages` nests the two
loops with what a caller does on entering a block, at each page and on leaving the block, and
`walkPages_rule` is the rule for the nest, stated over the addresses of the range.

`pagesOf lo hi` is the set of `(blockIndex, pageIndex)` of the pages the bytes `[lo, hi)` touch.
Where pages divide blocks, a page is known by the global page number `a / pageSize` of any of
its bytes (`pageKey_eq_iff`); the lemmas below say how the set grows by one round, how two
ranges' sets join, and how many pages a range touches.
-/

namespace DingoFs.Lib

/-- A round's length: from `pos` of a unit of `size` bytes with `len` bytes left, to the end of
the unit or of what is left. -/
def roundLen (size pos len : Nat) : Nat := if pos + len > size then size - pos else len

section Round

variable {size pos len : Nat}

theorem roundLen_pos (hpos : pos < size) (hlen : 0 < len) : 0 < roundLen size pos len := by
  unfold roundLen; split <;> omega

theorem roundLen_le : roundLen size pos len ≤ len := by
  unfold roundLen; split <;> omega

theorem roundLen_add_le (hpos : pos < size) : pos + roundLen size pos len ≤ size := by
  unfold roundLen; split <;> omega

/-- A round takes what is left, or ends exactly at the end of its unit. -/
theorem roundLen_eq_or (hpos : pos ≤ size) (len : Nat) : roundLen size pos len = len ∨
    (pos + roundLen size pos len = size ∧ roundLen size pos len < len) := by
  unfold roundLen; split <;> omega

end Round

variable {σ : Type*}

/-- The loop shape above, with `body s index pos n` what a round does, for at most `fuel`
rounds; each round takes at least one byte while `pos < size`, so `len` rounds do. -/
def walkRounds (size : Nat) (body : σ → Nat → Nat → Nat → σ) :
    (fuel index pos len : Nat) → σ → σ
  | 0, _, _, _, s => s
  | fuel + 1, index, pos, len, s =>
    if len > 0 then
      let n := roundLen size pos len
      walkRounds size body fuel (index + 1) ((pos + n) % size) (len - n) (body s index pos n)
    else s

@[simp] theorem walkRounds_len_zero (size : Nat) (body : σ → Nat → Nat → Nat → σ)
    (fuel index pos : Nat) (s : σ) : walkRounds size body fuel index pos 0 s = s := by
  cases fuel <;> simp [walkRounds]

/-- A round that ends at the end of its unit leaves the next one at its start. -/
theorem div_mod_of_round_end {size y m : Nat} (hsize : 0 < size) (h : y % size + m = size) :
    (y + m) / size = y / size + 1 ∧ (y + m) % size = 0 ∧ (y % size + m) % size = 0 := by
  have hy := Nat.mod_add_div y size
  have hym : y + m = size * (y / size + 1) := by rw [Nat.mul_add_one]; omega
  refine ⟨?_, ?_, ?_⟩
  · rw [hym, Nat.mul_div_cancel_left _ hsize]
  · rw [hym, Nat.mul_mod_right]
  · rw [h, Nat.mod_self]

section Rule

variable {size : Nat} {body : σ → Nat → Nat → Nat → σ}

/-- The loop rule of `walkRounds` run from position `x` (index `x / size`, offset `x % size`):
an invariant of the position reached that each round keeps holds at `x + len`. A round starts
at `x` or at the start of a unit. -/
theorem walkRounds_rule (hsize : 0 < size) (I : Nat → σ → Prop) {x len : Nat}
    (hstep : ∀ y s, x ≤ y → y < x + len → (y = x ∨ y % size = 0) → I y s →
      I (y + roundLen size (y % size) (x + len - y))
        (body s (y / size) (y % size) (roundLen size (y % size) (x + len - y))))
    {fuel : Nat} {s : σ} (hfuel : len ≤ fuel) (hs : I x s) :
    I (x + len) (walkRounds size body fuel (x / size) (x % size) len s) := by
  -- the rounds left are counted by the fuel; the position reached carries the invariant
  suffices h : ∀ fuel y s, x ≤ y → y ≤ x + len → (y = x ∨ y % size = 0) →
      x + len - y ≤ fuel → I y s →
      I (x + len) (walkRounds size body fuel (y / size) (y % size) (x + len - y) s) by
    simpa using h fuel x s le_rfl (by omega) (.inl rfl) (by omega) hs
  intro fuel
  induction fuel with
  | zero =>
    intro y s _ hy _ hleft hI
    have hyend : y = x + len := by omega
    subst hyend
    simpa using hI
  | succ fuel ih =>
    intro y s hxy hy hstart hleft hI
    by_cases hrem : x + len - y = 0
    · have hyend : y = x + len := by omega
      subst hyend
      simpa using hI
    have hlt : y < x + len := by omega
    have hy' := hstep y s hxy hlt hstart hI
    simp only [walkRounds, show x + len - y > 0 by omega, if_true]
    set m := roundLen size (y % size) (x + len - y) with hm
    have hmpos : 0 < m := roundLen_pos (Nat.mod_lt y hsize) (by omega)
    have hml : m ≤ x + len - y := roundLen_le
    rcases roundLen_eq_or (Nat.mod_lt y hsize).le (x + len - y) with hall | ⟨hend, hless⟩
    · -- the round takes the rest of the range
      rw [← hm] at hall
      have hend : y + m = x + len := by omega
      rw [hall, Nat.sub_self, walkRounds_len_zero, ← hall, ← hend]
      exact hy'
    · -- the round ends at the end of its unit and the next starts the next one
      rw [← hm] at hend hless
      obtain ⟨hdiv, hmod, hmod'⟩ := div_mod_of_round_end hsize hend
      have h := ih (y + m) (body s (y / size) (y % size) m) (by omega) (by omega) (.inr hmod)
        (by omega) hy'
      rwa [hdiv, hmod, show x + len - (y + m) = x + len - y - m by omega, ← hmod'] at h

end Rule

/-- The nested loops of a walk over `[pos, pos + len)`: over the blocks, `enter s blockIndex`
on entering a block, over the pages of the block's part `visit s blockIndex pageIndex pagePos
m` for the `m` bytes from `pagePos` of a page, and `leave s blockIndex` after it. -/
def walkPages (blockSize pageSize : Nat) (enter : σ → Nat → σ)
    (visit : σ → Nat → Nat → Nat → Nat → σ) (leave : σ → Nat → σ) (pos len : Nat) (s : σ) : σ :=
  walkRounds blockSize
    (fun s blockIndex blockPos n =>
      leave (walkRounds pageSize (fun s pageIndex pagePos m => visit s blockIndex pageIndex pagePos m)
        n (blockPos / pageSize) (blockPos % pageSize) n (enter s blockIndex)) blockIndex)
    len (pos / blockSize) (pos % blockSize) len s

section Nest

variable {bs ps : Nat}

/-- The byte `bs * b + y` of block `b`, for `y < bs`, lies at `y` in block `b`. -/
theorem div_mod_of_block (b : Nat) {y : Nat} (hy : y < bs) :
    (bs * b + y) / bs = b ∧ (bs * b + y) % bs = y := by
  have hbs : 0 < bs := by omega
  constructor
  · rw [Nat.mul_add_div hbs, Nat.div_eq_of_lt hy, Nat.add_zero]
  · rw [Nat.mul_add_mod, Nat.mod_eq_of_lt hy]

/-- Where pages divide blocks, whole blocks leave the offset in a page as it is. -/
theorem block_add_mod (hdvd : ps ∣ bs) (b t : Nat) : (bs * b + t) % ps = t % ps := by
  obtain ⟨k, rfl⟩ := hdvd
  rw [Nat.mul_assoc, Nat.mul_add_mod]

/-- The rule of `walkPages`, over the addresses of the range. `J a` holds between blocks, at
`pos` and at each block's end; `K b A` holds inside block `b`, at `A` when its pages up to `A`
are done. A page round covers `m` bytes from `A`, within one page, and ends at the end of the
range or of the page. -/
theorem walkPages_rule (hbs : 0 < bs) (hps : 0 < ps) (hdvd : ps ∣ bs)
    {enter : σ → Nat → σ} {visit : σ → Nat → Nat → Nat → Nat → σ} {leave : σ → Nat → σ}
    {pos len : Nat} (J : Nat → σ → Prop) (K : Nat → Nat → σ → Prop)
    (henter : ∀ a s, pos ≤ a → a < pos + len → (a = pos ∨ a % bs = 0) → J a s →
      K (a / bs) a (enter s (a / bs)))
    (hvisit : ∀ A m s, pos ≤ A → (A = pos ∨ A % ps = 0) → 0 < m → A % ps + m ≤ ps →
      A + m ≤ pos + len → (A + m = pos + len ∨ (A + m) % ps = 0) → K (A / bs) A s →
      K (A / bs) (A + m) (visit s (A / bs) (A % bs / ps) (A % ps) m))
    (hleave : ∀ b A s, pos < A → A ≤ pos + len → (A = pos + len ∨ A % bs = 0) →
      (A - 1) / bs = b → K b A s → J A (leave s b))
    {s : σ} (hs : J pos s) : J (pos + len) (walkPages bs ps enter visit leave pos len s) := by
  unfold walkPages
  refine walkRounds_rule hbs J ?_ le_rfl hs
  intro a s hpa hlt hstart hJ
  set n := roundLen bs (a % bs) (pos + len - a) with hn
  have hnpos : 0 < n := roundLen_pos (Nat.mod_lt a hbs) (by omega)
  have hnle : n ≤ pos + len - a := roundLen_le
  have hnbs : a % bs + n ≤ bs := roundLen_add_le (Nat.mod_lt a hbs)
  have ha := Nat.div_add_mod a bs
  -- the block round ends at the end of the range or of the block
  have hnend : a + n = pos + len ∨ (a + n) % bs = 0 := by
    rcases roundLen_eq_or (Nat.mod_lt a hbs).le (pos + len - a) with h | ⟨h, -⟩
    · left; omega
    · right
      rw [← hn] at h
      exact (div_mod_of_round_end hbs h).2.1
  -- inside block `a / bs` the inner loop runs over the block positions `[a % bs, a % bs + n)`
  have hinner := @walkRounds_rule σ ps (fun s pageIndex pagePos m =>
      visit s (a / bs) pageIndex pagePos m) hps
    (fun y s => K (a / bs) (bs * (a / bs) + y) s) (a % bs) n ?_ n (enter s (a / bs)) le_rfl
    (by rw [ha]; exact henter a s hpa hlt hstart hJ)
  · rw [← Nat.add_assoc, ha] at hinner
    refine hleave (a / bs) (a + n) _ (by omega) (by omega) hnend ?_ hinner
    have hk : a / bs * bs = bs * (a / bs) := Nat.mul_comm _ _
    exact div_eq_of_mem_block (by omega) (by rw [Nat.add_mul, Nat.one_mul]; omega)
  · intro y s hxy hy hystart hK
    have hyb : y < bs := by omega
    obtain ⟨hAdiv, hAmod⟩ := div_mod_of_block (a / bs) hyb
    have hAps : (bs * (a / bs) + y) % ps = y % ps := block_add_mod hdvd _ _
    set m := roundLen ps (y % ps) (a % bs + n - y) with hm
    have hmpos : 0 < m := roundLen_pos (Nat.mod_lt y hps) (by omega)
    have hmle : m ≤ a % bs + n - y := roundLen_le
    have hmps : y % ps + m ≤ ps := roundLen_add_le (Nat.mod_lt y hps)
    -- the page round starts at the start of the range or of a page
    have hAstart : bs * (a / bs) + y = pos ∨ (bs * (a / bs) + y) % ps = 0 := by
      rcases hystart with hyx | h0
      · rcases hstart with hap | ha0
        · left; omega
        · right; rw [hAps, hyx, ha0, Nat.zero_mod]
      · right; rwa [hAps]
    -- and ends at the end of the range or of its page
    have hAend : bs * (a / bs) + y + m = pos + len ∨ (bs * (a / bs) + y + m) % ps = 0 := by
      rcases roundLen_eq_or (Nat.mod_lt y hps).le (a % bs + n - y) with h | ⟨h, -⟩
      · rw [← hm] at h
        have hend : bs * (a / bs) + y + m = a + n := by omega
        rcases hnend with h' | h'
        · left; omega
        · right; rw [hend, ← Nat.mod_mod_of_dvd _ hdvd, h', Nat.zero_mod]
      · right
        rw [← hm] at h
        rw [Nat.add_assoc, block_add_mod hdvd]
        exact (div_mod_of_round_end hps h).2.1
    have h := hvisit (bs * (a / bs) + y) m s (by omega) hAstart hmpos (by rw [hAps]; exact hmps)
      (by omega) hAend (by rwa [hAdiv])
    rw [hAdiv, hAmod, hAps, Nat.add_assoc] at h
    exact h

end Nest

/-! ## The pages a range touches -/

/-- The page of byte `a`: its block, and the page's index in the block. -/
def pageKey (blockSize pageSize a : Nat) : Nat × Nat := (a / blockSize, a % blockSize / pageSize)

/-- The pages the bytes `[lo, hi)` touch, as `(blockIndex, pageIndex)`. -/
def pagesOf (blockSize pageSize lo hi : Nat) : Finset (Nat × Nat) :=
  (Finset.Ico lo hi).image (pageKey blockSize pageSize)

section Pages

variable {bs ps : Nat}

theorem mem_pagesOf {lo hi : Nat} {k : Nat × Nat} :
    k ∈ pagesOf bs ps lo hi ↔ ∃ a, (lo ≤ a ∧ a < hi) ∧ pageKey bs ps a = k := by
  simp [pagesOf]

@[simp] theorem pagesOf_self (a : Nat) : pagesOf bs ps a a = ∅ := by
  simp [pagesOf]

theorem pagesOf_union {lo mid hi : Nat} (h₁ : lo ≤ mid) (h₂ : mid ≤ hi) :
    pagesOf bs ps lo mid ∪ pagesOf bs ps mid hi = pagesOf bs ps lo hi := by
  rw [pagesOf, pagesOf, pagesOf, ← Finset.image_union, Finset.Ico_union_Ico_eq_Ico h₁ h₂]

theorem pagesOf_mono {lo hi lo' hi' : Nat} (hlo : lo' ≤ lo) (hhi : hi ≤ hi') :
    pagesOf bs ps lo hi ⊆ pagesOf bs ps lo' hi' :=
  Finset.image_subset_image (Finset.Ico_subset_Ico hlo hhi)

variable (hps : 0 < ps) (hdvd : ps ∣ bs)
include hps hdvd

/-- Where pages divide blocks, two bytes are in one page when their global page numbers
`a / ps` agree. -/
theorem pageKey_eq_iff {a c : Nat} : pageKey bs ps a = pageKey bs ps c ↔ a / ps = c / ps := by
  constructor
  · intro h
    simp only [pageKey, Prod.mk.injEq] at h
    rw [div_eq_mod_div_add hps hdvd a, div_eq_mod_div_add hps hdvd c, h.1, h.2]
  · intro h
    obtain ⟨k, rfl⟩ := hdvd
    simp only [pageKey, Prod.mk.injEq]
    rw [← Nat.div_div_eq_div_mul, ← Nat.div_div_eq_div_mul, Nat.mod_mul_right_div_self,
      Nat.mod_mul_right_div_self, h]
    exact ⟨rfl, rfl⟩

/-- A page is among the pages of `[lo, hi)` when its global page number lies between those of
the range's first and last bytes. -/
theorem pageKey_mem_pagesOf_iff {lo hi A : Nat} :
    pageKey bs ps A ∈ pagesOf bs ps lo hi ↔ lo < hi ∧ lo / ps ≤ A / ps ∧ A / ps ≤ (hi - 1) / ps := by
  rw [mem_pagesOf]
  constructor
  · rintro ⟨c, ⟨hlo, hhi⟩, hc⟩
    rw [pageKey_eq_iff hps hdvd] at hc
    exact ⟨by omega, hc ▸ Nat.div_le_div_right hlo, hc ▸ Nat.div_le_div_right (by omega)⟩
  · rintro ⟨hlt, hlo, hhi⟩
    -- the byte of `A`'s page in the range: `lo` itself, or the page's first byte
    by_cases hsame : lo / ps = A / ps
    · exact ⟨lo, ⟨le_rfl, hlt⟩, (pageKey_eq_iff hps hdvd).mpr hsame⟩
    · refine ⟨ps * (A / ps), ⟨?_, ?_⟩, (pageKey_eq_iff hps hdvd).mpr (Nat.mul_div_cancel_left _ hps)⟩
      · have h := Nat.lt_mul_div_succ lo hps
        have h' := Nat.mul_le_mul_left ps (show lo / ps + 1 ≤ A / ps by omega)
        omega
      · have h := Nat.mul_le_mul_left ps hhi
        have h' := Nat.mul_div_le (hi - 1) ps
        omega

/-- A page that starts at or past `hi` is not among the pages of `[lo, hi)`. -/
theorem pageKey_not_mem_pagesOf {lo hi A : Nat} (hA : A % ps = 0) (hhi : hi ≤ A) :
    pageKey bs ps A ∉ pagesOf bs ps lo hi := by
  rw [pageKey_mem_pagesOf_iff hps hdvd]
  rintro ⟨hlt, -, hle⟩
  have h : (hi - 1) / ps < A / ps :=
    Nat.div_lt_div_of_lt_of_dvd (Nat.dvd_of_mod_eq_zero hA) (by omega)
  omega

/-- The bytes of one round, within one page, touch that page only. -/
theorem pagesOf_round {A m : Nat} (hm : 0 < m) (hpage : A % ps + m ≤ ps) :
    pagesOf bs ps A (A + m) = {pageKey bs ps A} := by
  ext k
  rw [mem_pagesOf, Finset.mem_singleton]
  constructor
  · rintro ⟨c, ⟨hlo, hhi⟩, rfl⟩
    exact (pageKey_eq_iff hps hdvd).mpr (div_eq_of_mod_add_le hpage hlo hhi)
  · rintro rfl
    exact ⟨A, ⟨le_rfl, by omega⟩, rfl⟩

/-- A round within one page adds that page to the pages done. -/
theorem pagesOf_add_round {lo A m : Nat} (hlo : lo ≤ A) (hm : 0 < m) (hpage : A % ps + m ≤ ps) :
    pagesOf bs ps lo (A + m) = insert (pageKey bs ps A) (pagesOf bs ps lo A) := by
  rw [← pagesOf_union hlo (by omega), pagesOf_round hps hdvd hm hpage, Finset.union_comm,
    Finset.insert_eq]

/-- A range touches the pages from its first byte's to its last byte's. -/
theorem card_pagesOf {lo hi : Nat} (hlt : lo < hi) :
    (pagesOf bs ps lo hi).card = (hi - 1) / ps + 1 - lo / ps := by
  have himage : pagesOf bs ps lo hi =
      (Finset.Icc (lo / ps) ((hi - 1) / ps)).image fun P => pageKey bs ps (ps * P) := by
    ext k
    simp only [Finset.mem_image, Finset.mem_Icc]
    constructor
    · intro hk
      obtain ⟨c, ⟨hlo, hhi⟩, rfl⟩ := mem_pagesOf.mp hk
      refine ⟨c / ps, ⟨Nat.div_le_div_right hlo, Nat.div_le_div_right (by omega)⟩, ?_⟩
      exact (pageKey_eq_iff hps hdvd).mpr (Nat.mul_div_cancel_left _ hps)
    · rintro ⟨P, ⟨hlo, hhi⟩, rfl⟩
      exact (pageKey_mem_pagesOf_iff hps hdvd).mpr
        ⟨hlt, by rwa [Nat.mul_div_cancel_left _ hps], by rwa [Nat.mul_div_cancel_left _ hps]⟩
  have hinj : Function.Injective fun P => pageKey bs ps (ps * P) := by
    intro P Q h
    simpa [Nat.mul_div_cancel_left _ hps] using (pageKey_eq_iff hps hdvd).mp h
  rw [himage, Finset.card_image_of_injective _ hinj, Nat.card_Icc]

end Pages

end DingoFs.Lib
