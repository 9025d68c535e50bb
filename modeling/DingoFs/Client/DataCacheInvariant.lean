import DingoFs.Client.DataCachePages

/-!
# The page invariant of a `DataCache`

Every `DataCache` the constructor builds, and that the calls of `DataCache::Write` and
`DataCache::Truncate` then change, keeps `PageInv`: `actualChunkPos_` is `chunkPos_` rounded
down to a page, `dataMap_` holds a page for exactly the pages the range
`[chunkPos_, chunkPos_ + len_)` touches and a `PageDataMap` for exactly their blocks, and
`actualLen_` is `pageSize` times the number of pages, which is the length `Truncate`
recomputes (`PageInv.actualLen_eq_pageAlignedLen`). On such a cache the assertions of
`Truncate`, `CopyDataCacheToBuf` and `MergeDataCacheToDataCache` hold.

All of this needs blocks shorter than `2^31` bytes. `Truncate` keeps a round's length in an
`int`; below that bound its block loop is the walk over the bytes it cuts
(`truncateLoop_eq_walkPages`), and past it `Truncate(1)` fails its assertion on a cache the
constructor builds (`truncate_past_int_max`).

Each routine is a walk over blocks and pages, proved by `walkPages_rule` with an invariant of
the position reached: the pages done so far are the pages of the part of the range walked,
and inside a block the map may hold that block without a page yet (`PageMap.HoldsIn`). The
loop of `MergeDataCacheToDataCache` has its own shape, page by page with `len` counted down,
and its own round lemma.
-/

namespace DingoFs.Client.Pages

open DingoFs.Lib

/-! ## Page counts -/

section Count

variable {bs ps : Nat} (hps : 0 < ps) (hdvd : ps ∣ bs)
include hps hdvd

/-- The pages of a non-empty range, counted from the offset of its start in its page. -/
theorem card_pagesOf_eq {lo hi : Nat} (hlt : lo < hi) :
    (pagesOf bs ps lo hi).card = (lo % ps + (hi - lo) - 1) / ps + 1 := by
  rw [card_pagesOf hps hdvd hlt]
  have hlo := Nat.div_add_mod lo ps
  have hhi : hi - 1 = ps * (lo / ps) + (lo % ps + (hi - lo) - 1) := by omega
  rw [hhi, Nat.mul_add_div hps, Nat.add_assoc, Nat.add_sub_cancel_left]

/-- A range padded by `tail` to a page end: its pages hold the padded bytes from the first
page's start. -/
theorem mul_card_pagesOf_of_pad {lo len : Nat} (tail : Nat) (hlen : 0 < len)
    (hpad : (lo + len + tail) % ps = 0) (htail : tail < ps) :
    ps * (pagesOf bs ps lo (lo + len)).card = lo % ps + len + tail := by
  rw [card_pagesOf_eq hps hdvd (by omega), Nat.add_sub_cancel_left]
  -- the padded length is a whole number `K` of pages
  have hlo := Nat.div_add_mod lo ps
  have hX : (lo % ps + len + tail) % ps = 0 := by
    rw [← hpad, show lo + len + tail = lo % ps + len + tail + ps * (lo / ps) by omega,
      Nat.add_mul_mod_self_left]
  obtain ⟨K, hK⟩ := Nat.dvd_of_mod_eq_zero hX
  have hK1 : 1 ≤ K := by
    rcases K with _ | K
    · omega
    · omega
  have hdiv : (lo % ps + len - 1) / ps = K - 1 := by
    apply Nat.div_eq_of_lt_le
    · rw [Nat.sub_one_mul, Nat.mul_comm K ps]
      omega
    · rw [Nat.sub_add_cancel hK1, Nat.mul_comm K ps]
      omega
  rw [hdiv, Nat.sub_add_cancel hK1, hK]

/-- The length `AddDataBefore` sets and `Truncate` checks is `pageSize` times the pages. -/
theorem pageAlignedLen_eq {lo len : Nat} (hlen : 0 < len) :
    pageAlignedLen ps lo len (lo - lo % ps) = ps * (pagesOf bs ps lo (lo + len)).card := by
  have hmod := Nat.mod_le lo ps
  have hlo := Nat.div_add_mod lo ps
  have hD : lo + len - (lo - lo % ps) = lo % ps + len := by omega
  -- the end of the range lies as far into its page as the length from the page start
  have hend : (lo + len) % ps = (lo % ps + len) % ps := by
    rw [show lo + len = lo % ps + len + ps * (lo / ps) by omega, Nat.add_mul_mod_self_left]
  unfold pageAlignedLen
  rw [hD]
  split
  · rename_i h0
    rw [mul_card_pagesOf_of_pad hps hdvd 0 hlen (by rw [Nat.add_zero, hend, h0]) hps]
    rfl
  · rename_i h0
    have hr := Nat.mod_lt (lo % ps + len) hps
    have hq := Nat.div_add_mod (lo % ps + len) ps
    rw [mul_card_pagesOf_of_pad hps hdvd (ps - (lo % ps + len) % ps) hlen ?_ (by omega)]
    · rw [Nat.add_mul, Nat.one_mul, Nat.mul_comm]
      omega
    · rw [show lo + len + (ps - (lo % ps + len) % ps) = ps * (lo / ps + (lo % ps + len) / ps + 1)
        by rw [Nat.mul_add, Nat.mul_add, Nat.mul_one]; omega]
      exact Nat.mul_mod_right _ _

/-- A round that starts at the start of the range or of a page makes a page that the rounds
before it did not. -/
theorem pageKey_not_mem_pagesOf_start {lo A : Nat} (hA : A = lo ∨ A % ps = 0) :
    pageKey bs ps A ∉ pagesOf bs ps lo A := by
  rcases hA with rfl | hA
  · simp
  · exact pageKey_not_mem_pagesOf hps hdvd hA le_rfl

/-- A page that `A` starts inside holds the byte before `A`. -/
theorem pageKey_mem_pagesOf_of_mod_ne_zero {lo A : Nat} (hlt : lo < A) (hA : A % ps ≠ 0) :
    pageKey bs ps A ∈ pagesOf bs ps lo A := by
  rw [pageKey_mem_pagesOf_iff hps hdvd]
  refine ⟨hlt, Nat.div_le_div_right hlt.le, (Nat.le_div_iff_mul_le hps).mpr ?_⟩
  have hdiv := Nat.div_add_mod A ps
  rw [Nat.mul_comm]
  omega

/-- The bytes `[A, e)` touch the page of a round from `A` and the pages after the round. -/
theorem pagesOf_eq_insert_round {A m e : Nat} (hm : 0 < m) (hpage : A % ps + m ≤ ps)
    (hle : A + m ≤ e) :
    pagesOf bs ps A e = insert (pageKey bs ps A) (pagesOf bs ps (A + m) e) := by
  rw [← pagesOf_union (by omega) hle, pagesOf_round hps hdvd hm hpage, Finset.insert_eq]

/-- A round that ends at the end of the range or of its page leaves its page behind. -/
theorem pageKey_not_mem_pagesOf_round {A m e : Nat} (hm : 0 < m) (hpage : A % ps + m ≤ ps)
    (hend : A + m = e ∨ (A + m) % ps = 0) : pageKey bs ps A ∉ pagesOf bs ps (A + m) e := by
  rcases hend with hend | hend
  · rw [hend, pagesOf_self]
    exact Finset.notMem_empty _
  · -- the round reaches its page's end, so the bytes after it are on later pages
    have hfull : A % ps + m = ps := by
      have hmod : (A % ps + m) % ps = 0 := by
        rw [Nat.add_mod, Nat.mod_mod, ← Nat.add_mod]
        exact hend
      by_contra hne
      rw [Nat.mod_eq_of_lt (by omega)] at hmod
      omega
    rw [pageKey_mem_pagesOf_iff hps hdvd, (div_mod_of_round_end hps hfull).1]
    omega

/-- Page `pi` of block `bi` is the page of the bytes with global page number
`bi * (bs / ps) + pi`. -/
theorem pageKey_eq_of_page {A bi pi : Nat} (hpi : pi < bs / ps)
    (h : bi * (bs / ps) + pi = A / ps) : pageKey bs ps A = (bi, pi) := by
  obtain ⟨M, rfl⟩ := hdvd
  rw [Nat.mul_div_cancel_left M hps] at hpi h
  have hM : 0 < M := by omega
  simp only [pageKey, Prod.mk.injEq]
  rw [← Nat.div_div_eq_div_mul, Nat.mod_mul_right_div_self, ← h, Nat.mul_comm bi M,
    Nat.mul_add_div hM, Nat.div_eq_of_lt hpi, Nat.add_zero, Nat.mul_add_mod, Nat.mod_eq_of_lt hpi]
  exact ⟨rfl, rfl⟩

end Count

/-- The block of the last byte before `A` has one of the pages of `[lo, A)`: a walk leaves
behind no empty `PageDataMap`. -/
theorem mem_image_pagesOf_of_lt {bs ps lo A b : Nat} (hlt : lo < A) (hb : (A - 1) / bs = b) :
    b ∈ (pagesOf bs ps lo A).image Prod.fst :=
  Finset.mem_image.mpr
    ⟨pageKey bs ps (A - 1), mem_pagesOf.mpr ⟨A - 1, ⟨by omega, by omega⟩, rfl⟩, hb⟩

/-- The pages of a range and of one that starts inside it or at its end are those of the range
they make together. -/
theorem pagesOf_union_of_le {bs ps lo mid hi n : Nat} (h₁ : lo ≤ mid) (h₂ : mid ≤ hi) :
    pagesOf bs ps lo hi ∪ pagesOf bs ps mid (mid + n) = pagesOf bs ps lo (max hi (mid + n)) := by
  rw [pagesOf, pagesOf, pagesOf, ← Finset.image_union, Finset.Ico_union_Ico' h₂ (by omega),
    min_eq_left h₁]

/-! ## The invariant -/

/-- The page invariant of a `DataCache` with blocks of `bs` and pages of `ps` bytes: its first
page starts at `chunkPos_` rounded down, `dataMap_` holds exactly the pages its bytes touch
(and no empty `PageDataMap`), and `actualLen_` is their bytes. -/
structure PageInv (bs ps : Nat) (dc : DataCache) : Prop where
  len_pos : 0 < dc.len
  actualChunkPos_eq : dc.actualChunkPos = dc.chunkPos - dc.chunkPos % ps
  holds : dc.dataMap.Holds (pagesOf bs ps dc.chunkPos (dc.chunkPos + dc.len))
  actualLen_eq : dc.actualLen = ps * (pagesOf bs ps dc.chunkPos (dc.chunkPos + dc.len)).card

section Inv

variable {bs ps : Nat} (hps : 0 < ps) (hdvd : ps ∣ bs)
include hps hdvd

end Inv

/-! ## The constructor

The walk of the constructor makes the page of each round; `tailZeroLen` is zero until the last
round, which may end inside its page and leaves the bytes to the page's end. -/

/-- `tailZeroLen` at `a` of a walk from `c`: zero at the start, and past it the bytes from `a`
to the end of its page. -/
def TailAt (ps c a tail : Nat) : Prop :=
  a = c ∧ tail = 0 ∨ c < a ∧ (a + tail) % ps = 0 ∧ tail < ps

/-- The constructor's walk from `c` at `a`, between blocks: the pages of `[c, a)` made. -/
def CreateAt (bs ps c a : Nat) (s : Option (PageMap × Nat)) : Prop :=
  ∃ dm tail, s = some (dm, tail) ∧ dm.Holds (pagesOf bs ps c a) ∧ TailAt ps c a tail

/-- The constructor's walk from `c` at `a`, inside block `b`. -/
def CreateIn (bs ps c b a : Nat) (s : Option (PageMap × Nat)) : Prop :=
  ∃ dm tail, s = some (dm, tail) ∧ dm.HoldsIn b (pagesOf bs ps c a) ∧ TailAt ps c a tail

section Create

variable {bs ps : Nat}

/-- At the start of a round the tail is zero; after it, it is what is left of the round's
page. -/
theorem TailAt.round {c A m tail : Nat} (h : TailAt ps c A tail) (hA : A = c ∨ A % ps = 0)
    (hcA : c ≤ A) (hm : 0 < m) (hpage : A % ps + m ≤ ps) :
    TailAt ps c (A + m) (if A % ps + m < ps then ps - A % ps - m else tail) := by
  have htail : tail = 0 := by
    rcases h with ⟨-, h0⟩ | ⟨hlt, hmod, hlt'⟩
    · exact h0
    · have hA0 : A % ps = 0 := hA.resolve_left (by omega)
      rw [Nat.add_mod, hA0, Nat.zero_add, Nat.mod_mod, Nat.mod_eq_of_lt hlt'] at hmod
      exact hmod
  have hnew : (if A % ps + m < ps then ps - A % ps - m else tail) = ps - A % ps - m := by
    split <;> omega
  rw [hnew]
  refine .inr ⟨by omega, ?_, by omega⟩
  have hdiv := Nat.div_add_mod A ps
  rw [show A + m + (ps - A % ps - m) = ps * (A / ps + 1) by rw [Nat.mul_add_one]; omega,
    Nat.mul_mod_right]

theorem create_enter {c a : Nat} {s : Option (PageMap × Nat)} (h : CreateAt bs ps c a s) :
    CreateIn bs ps c (a / bs) a (s.map fun p => (p.1.touch (a / bs), p.2)) := by
  obtain ⟨dm, tail, rfl, hdm, htail⟩ := h
  exact ⟨dm.touch (a / bs), tail, rfl, hdm.touch _, htail⟩

/-- The end of a block: the block has a page, the page of the byte before `A`. -/
theorem create_leave {c b A : Nat} {s : Option (PageMap × Nat)} (hlt : c < A)
    (hb : (A - 1) / bs = b) (h : CreateIn bs ps c b A s) : CreateAt bs ps c A s := by
  obtain ⟨dm, tail, rfl, hdm, htail⟩ := h
  exact ⟨dm, tail, rfl, hdm.holds (mem_image_pagesOf_of_lt hlt hb), htail⟩

variable (hps : 0 < ps) (hdvd : ps ∣ bs)
include hps hdvd

/-- A page round of the constructor: the page is new, so `assert(pdMap.count(pageIndex) == 0)`
holds, and the pages made grow by it. -/
theorem create_visit {c A m : Nat} {s : Option (PageMap × Nat)} (hcA : c ≤ A)
    (hA : A = c ∨ A % ps = 0) (hm : 0 < m) (hpage : A % ps + m ≤ ps)
    (h : CreateIn bs ps c (A / bs) A s) :
    CreateIn bs ps c (A / bs) (A + m) (createPage ps s (A / bs) (A % bs / ps) (A % ps) m) := by
  obtain ⟨dm, tail, rfl, hdm, htail⟩ := h
  have hnew : dm.count (A / bs) (A % bs / ps) = false := by
    rw [PageMap.count_eq, decide_eq_false_iff_not, hdm.pages_eq]
    exact pageKey_not_mem_pagesOf_start hps hdvd hA
  simp only [createPage, hnew, Bool.false_eq_true, if_false]
  refine ⟨_, _, rfl, ?_, htail.round hA hcA hm hpage⟩
  rw [pagesOf_add_round hps hdvd hcA hm hpage]
  exact hdm.emplace (k := pageKey bs ps A) rfl

/-- The constructor's walk makes exactly the pages of its range. -/
theorem create_walk (hbs : 0 < bs) (c len : Nat) :
    CreateAt bs ps c (c + len)
      (walkPages bs ps (fun s blockIndex => s.map fun p => (p.1.touch blockIndex, p.2))
        (createPage ps) (fun s _ => s) c len (some (PageMap.empty, 0))) := by
  apply walkPages_rule hbs hps hdvd (CreateAt bs ps c) (CreateIn bs ps c)
  · intro a s _ _ _ h
    exact create_enter h
  · intro A m s hcA hA hm hpage _ _ h
    exact create_visit hps hdvd hcA hA hm hpage h
  · intro b A s hlt _ _ hb h
    exact create_leave hlt hb h
  · exact ⟨PageMap.empty, 0, rfl, ⟨by simp [PageMap.empty], by simp [PageMap.empty]⟩,
      .inl ⟨rfl, rfl⟩⟩

/-- The constructor on a non-empty range passes both assertions and builds a cache that keeps
the invariant. -/
theorem create_spec (hbs : 0 < bs) {c len : Nat} (hlen : 0 < len) :
    ∃ dc, DataCache.create bs ps c len = some dc ∧ dc.chunkPos = c ∧ dc.len = len ∧
      PageInv bs ps dc := by
  obtain ⟨dm, tail, hwalk, hdm, htail⟩ := create_walk hps hdvd hbs c len
  -- the walk is not empty, so its last round left the tail to the end of its page
  rcases htail with ⟨h, -⟩ | ⟨-, hpad, htail⟩
  · omega
  have hcard := mul_card_pagesOf_of_pad hps hdvd tail hlen hpad htail
  have hdiv := Nat.div_add_mod c ps
  have hhead : c - (c - c % ps) = c % ps := by omega
  have hlen_mod : (c % ps + len + tail) % ps = 0 := by
    rw [← hcard]
    exact Nat.mul_mod_right _ _
  have hpos_mod : (c - c % ps) % ps = 0 := by
    rw [show c - c % ps = ps * (c / ps) by omega]
    exact Nat.mul_mod_right _ _
  unfold DataCache.create
  rw [hwalk]
  dsimp only
  rw [hhead, if_pos ⟨hlen_mod, hpos_mod⟩]
  exact ⟨_, rfl, rfl, rfl, ⟨hlen, rfl, hdm, hcard.symm⟩⟩

end Create

/-! ## `CopyBufToDataCache` and `AddDataBefore`

Both walk a range of bytes that starts inside or next to the cache and make the pages it lacks;
the pages after the walk are the cache's and the range's. `CopyBufToDataCache` counts the new
pages in `addLen`, `AddDataBefore` recomputes `actualLen_` from the new range. -/

/-- A walk from `p` at `a` that adds pages to a map that held `P₀`: it holds the pages of
`[p, a)` besides. -/
def AddAt (bs ps : Nat) (P₀ : Finset (Nat × Nat)) (p a : Nat) (dm : PageMap) : Prop :=
  dm.Holds (P₀ ∪ pagesOf bs ps p a)

/-- The same inside block `b`. -/
def AddIn (bs ps : Nat) (P₀ : Finset (Nat × Nat)) (p b a : Nat) (dm : PageMap) : Prop :=
  dm.HoldsIn b (P₀ ∪ pagesOf bs ps p a)

/-- The walk of `CopyBufToDataCache` at `a`: the pages added, and `addLen` the bytes of the new
ones. -/
def CopyAt (bs ps : Nat) (P₀ : Finset (Nat × Nat)) (p a : Nat) (s : PageMap × Nat) : Prop :=
  AddAt bs ps P₀ p a s.1 ∧ ps * P₀.card + s.2 = ps * (P₀ ∪ pagesOf bs ps p a).card

/-- The same inside block `b`. -/
def CopyIn (bs ps : Nat) (P₀ : Finset (Nat × Nat)) (p b a : Nat) (s : PageMap × Nat) : Prop :=
  AddIn bs ps P₀ p b a s.1 ∧ ps * P₀.card + s.2 = ps * (P₀ ∪ pagesOf bs ps p a).card

/-- `addPage` makes page `k` of block `b` unless the block has it. -/
theorem PageMap.HoldsIn.addPage {dm : PageMap} {b : Nat} {P : Finset (Nat × Nat)}
    (h : dm.HoldsIn b P) {k : Nat × Nat} (hk : k.1 = b) (pagePos m : Nat) :
    (Pages.addPage dm k.1 k.2 pagePos m).HoldsIn b (insert k P) := by
  unfold Pages.addPage
  split
  · rename_i hmem
    rw [PageMap.count_eq, decide_eq_true_eq, h.pages_eq] at hmem
    rw [Finset.insert_eq_of_mem hmem]
    exact h
  · exact h.emplace hk

/-- The map of a page round of `CopyBufToDataCache` is that of `AddDataBefore`'s. -/
theorem copyBufPage_fst (ps : Nat) (s : PageMap × Nat) (b p pagePos m : Nat) :
    (copyBufPage ps s b p pagePos m).1 = addPage s.1 b p pagePos m := by
  unfold copyBufPage addPage
  split <;> rfl

section Add

variable {bs ps : Nat} {P₀ : Finset (Nat × Nat)} {p : Nat}

/-- On entering a block the walk gives it a map. -/
theorem add_enter {a : Nat} {dm : PageMap} (h : AddAt bs ps P₀ p a dm) :
    AddIn bs ps P₀ p (a / bs) a (dm.touch (a / bs)) :=
  PageMap.Holds.touch h _

/-- On leaving a block the block has a page. -/
theorem add_leave {b A : Nat} {dm : PageMap} (hlt : p < A) (hb : (A - 1) / bs = b)
    (h : AddIn bs ps P₀ p b A dm) : AddAt bs ps P₀ p A dm := by
  apply PageMap.HoldsIn.holds h
  rw [Finset.image_union]
  exact Finset.mem_union_right _ (mem_image_pagesOf_of_lt hlt hb)

variable (hps : 0 < ps) (hdvd : ps ∣ bs)
include hps hdvd

/-- A round of `[A, A + m)`, within a page, adds that page to the pages added. -/
theorem union_pagesOf_add_round {A m : Nat} (hpA : p ≤ A) (hm : 0 < m)
    (hpage : A % ps + m ≤ ps) :
    insert (pageKey bs ps A) (P₀ ∪ pagesOf bs ps p A) = P₀ ∪ pagesOf bs ps p (A + m) := by
  rw [pagesOf_add_round hps hdvd hpA hm hpage, Finset.union_insert]

/-- A page round of `AddDataBefore`. -/
theorem add_visit {A m : Nat} {dm : PageMap} (hpA : p ≤ A) (hm : 0 < m)
    (hpage : A % ps + m ≤ ps) (h : AddIn bs ps P₀ p (A / bs) A dm) :
    AddIn bs ps P₀ p (A / bs) (A + m) (addPage dm (A / bs) (A % bs / ps) (A % ps) m) := by
  unfold AddIn
  rw [← union_pagesOf_add_round hps hdvd hpA hm hpage]
  exact PageMap.HoldsIn.addPage h (k := pageKey bs ps A) rfl _ _

/-- A page round of `CopyBufToDataCache`: a new page adds `pageSize` to `addLen`. -/
theorem copyBuf_visit {A m : Nat} {s : PageMap × Nat} (hpA : p ≤ A) (hm : 0 < m)
    (hpage : A % ps + m ≤ ps) (h : CopyIn bs ps P₀ p (A / bs) A s) :
    CopyIn bs ps P₀ p (A / bs) (A + m) (copyBufPage ps s (A / bs) (A % bs / ps) (A % ps) m) := by
  obtain ⟨hdm, hlen⟩ := h
  refine ⟨by rw [copyBufPage_fst]; exact add_visit hps hdvd hpA hm hpage hdm, ?_⟩
  rw [← union_pagesOf_add_round hps hdvd hpA hm hpage]
  have hcount : s.1.count (A / bs) (A % bs / ps) =
      decide (pageKey bs ps A ∈ P₀ ∪ pagesOf bs ps p A) := by
    rw [PageMap.count_eq, hdm.pages_eq]
    rfl
  unfold copyBufPage
  rw [hcount]
  split
  · rename_i hmem
    rw [Finset.insert_eq_of_mem (of_decide_eq_true hmem)]
    exact hlen
  · rename_i hnew
    rw [Finset.card_insert_of_notMem (of_decide_eq_false (Bool.of_not_eq_true hnew)),
      Nat.mul_add_one, ← hlen, Nat.add_assoc]

/-- The walk of `AddDataBefore` adds the pages of its range. -/
theorem add_walk (hbs : 0 < bs) {dm : PageMap} (h : dm.Holds P₀) (len : Nat) :
    AddAt bs ps P₀ p (p + len)
      (walkPages bs ps PageMap.touch addPage (fun s _ => s) p len dm) := by
  apply walkPages_rule hbs hps hdvd (AddAt bs ps P₀ p) (AddIn bs ps P₀ p)
  · intro a s _ _ _ h
    exact add_enter h
  · intro A m s hpA _ hm hpage _ _ h
    exact add_visit hps hdvd hpA hm hpage h
  · intro b A s hlt _ _ hb h
    exact add_leave hlt hb h
  · unfold AddAt
    rwa [pagesOf_self, Finset.union_empty]

/-- The walk of `CopyBufToDataCache` adds the pages of its range and counts the new ones. -/
theorem copyBuf_walk (hbs : 0 < bs) {dm : PageMap} (h : dm.Holds P₀) (len : Nat) :
    CopyAt bs ps P₀ p (p + len) (walkPages bs ps (fun s blockIndex => (s.1.touch blockIndex, s.2))
      (copyBufPage ps) (fun s _ => s) p len (dm, 0)) := by
  apply walkPages_rule hbs hps hdvd (CopyAt bs ps P₀ p) (CopyIn bs ps P₀ p)
  · intro a s _ _ _ h
    exact ⟨add_enter h.1, h.2⟩
  · intro A m s hpA _ hm hpage _ _ h
    exact copyBuf_visit hps hdvd hpA hm hpage h
  · intro b A s hlt _ _ hb h
    exact ⟨add_leave hlt hb h.1, h.2⟩
  · refine ⟨?_, ?_⟩
    · unfold AddAt
      rwa [pagesOf_self, Finset.union_empty]
    · rw [pagesOf_self, Finset.union_empty, Nat.add_zero]

variable {dc : DataCache} (h : PageInv bs ps dc)
include h

/-- `CopyBufToDataCache` of a range that starts inside the cache or at its end keeps the
invariant: the pages it makes are counted into `actualLen_`. -/
theorem copyBufToDataCache_spec (hbs : 0 < bs) {d : Nat} (hd : d ≤ dc.len) (len : Nat) :
    PageInv bs ps (dc.copyBufToDataCache bs ps d len) := by
  obtain ⟨hdm, hadd⟩ := copyBuf_walk hps hdvd hbs (p := dc.chunkPos + d) h.holds len
  -- the cache's pages and the range's are those of the cache grown to the range's end
  have hunion : pagesOf bs ps dc.chunkPos (dc.chunkPos + dc.len) ∪
      pagesOf bs ps (dc.chunkPos + d) (dc.chunkPos + d + len) =
        pagesOf bs ps dc.chunkPos (dc.chunkPos + if d + len > dc.len then d + len else dc.len) := by
    rw [pagesOf_union_of_le (by omega) (by omega)]
    congr 1
    split <;> omega
  unfold DataCache.copyBufToDataCache
  refine ⟨?_, h.actualChunkPos_eq, ?_, ?_⟩
  · have := h.len_pos
    dsimp only
    split <;> omega
  · dsimp only
    rw [← hunion]
    exact hdm
  · dsimp only
    rw [← hunion, ← hadd, h.actualLen_eq]

/-- `AddDataBefore` of at most `chunkPos_` bytes keeps the invariant: its walk makes the pages
of the new bytes, and the length it recomputes is theirs and the cache's. -/
theorem addDataBefore_spec (hbs : 0 < bs) {l : Nat} (hl : l ≤ dc.chunkPos) :
    PageInv bs ps (dc.addDataBefore bs ps l) := by
  have hdm := add_walk hps hdvd hbs (p := dc.chunkPos - l) h.holds l
  have hlen := h.len_pos
  -- the new bytes' pages and the cache's are those of the grown range
  have hunion : pagesOf bs ps dc.chunkPos (dc.chunkPos + dc.len) ∪
      pagesOf bs ps (dc.chunkPos - l) (dc.chunkPos - l + l) =
        pagesOf bs ps (dc.chunkPos - l) (dc.chunkPos - l + (dc.len + l)) := by
    rw [Finset.union_comm, Nat.sub_add_cancel hl, pagesOf_union (by omega) (by omega)]
    congr 1
    omega
  unfold DataCache.addDataBefore
  refine ⟨by dsimp only; omega, rfl, ?_, ?_⟩
  · dsimp only
    rw [← hunion]
    exact hdm
  · dsimp only
    exact pageAlignedLen_eq hps hdvd (by omega)

end Add

/-! ## `Truncate`

The walk of `Truncate` runs over the bytes cut off, `[tp, e)` with `tp = chunkPos_ + size`. A
page it starts at is freed and takes a page off `actualLen_`; the page it starts inside, the one
of `tp`, keeps the bytes before `tp`. The pages left are those of `[chunkPos_, tp)`, so the
length `Truncate` recomputes is `actualLen_`. -/

/-- The walk of `Truncate` at `a`: the pages of `[c, tp)` and of `[a, e)` are left, and
`actualLen_` is their bytes. -/
def TruncAt (bs ps c tp e a : Nat) (s : PageMap × Nat) : Prop :=
  s.1.Holds (pagesOf bs ps c tp ∪ pagesOf bs ps a e) ∧
    s.2 = ps * (pagesOf bs ps c tp ∪ pagesOf bs ps a e).card

/-- The same inside block `b`. -/
def TruncIn (bs ps c tp e b a : Nat) (s : PageMap × Nat) : Prop :=
  s.1.HoldsIn b (pagesOf bs ps c tp ∪ pagesOf bs ps a e) ∧
    s.2 = ps * (pagesOf bs ps c tp ∪ pagesOf bs ps a e).card

section TruncateLoop

variable {bs ps : Nat}

@[simp] theorem truncateLoop_len_zero (fuel blockIndex blockPos : Nat) (s : PageMap × Nat) :
    truncateLoop bs ps fuel blockIndex blockPos 0 s = some s := by
  cases fuel <;> simp [truncateLoop]

/-- A round shorter than `2^31` bytes, at positions below `2^64`: `n` holds the round's
length, and the loop goes on where the walk does. -/
theorem truncateLoop_succ_of_lt (hint : bs < 2 ^ 31) {fuel blockIndex blockPos truncateLen : Nat}
    {s : PageMap × Nat} (hpos : blockPos < bs) (hrange : blockPos + truncateLen < 2 ^ 64)
    (hlen : 0 < truncateLen) :
    truncateLoop bs ps (fuel + 1) blockIndex blockPos truncateLen s =
      truncateLoop bs ps fuel (blockIndex + 1)
        ((blockPos + roundLen bs blockPos truncateLen) % bs)
        (truncateLen - roundLen bs blockPos truncateLen)
        (truncateBlock ps s blockIndex blockPos (roundLen bs blockPos truncateLen)) := by
  set n := roundLen bs blockPos truncateLen with hn
  have hle : n ≤ truncateLen := roundLen_le
  have hend : blockPos + n ≤ bs := roundLen_add_le hpos
  -- `if (blockPos + truncateLen > blockSize)` compares without wrapping, and `n` fits
  have hint32 : toInt32
      (if add64 blockPos truncateLen > bs then bs - blockPos else truncateLen) = n := by
    rw [add64_of_lt hrange]
    exact toInt32_of_lt (a := n) (by omega)
  have hback : ofInt64 n = n := ofInt64_natCast (by omega)
  simp only [truncateLoop, if_pos hlen, hint32, Int.toNat_natCast, hback,
    add64_of_lt (show blockPos + n < 2 ^ 64 by omega), sub64_of_le hle (by omega)]

/-- While blocks are shorter than `2^31` bytes and positions stay below `2^64`, the block loop
of `Truncate` is the walk of its block rounds. -/
theorem truncateLoop_eq_walkRounds (hbs : 0 < bs) (hint : bs < 2 ^ 31) (fuel : Nat) :
    ∀ {fuel' blockIndex blockPos truncateLen : Nat} {s : PageMap × Nat}, blockPos < bs →
      blockPos + truncateLen < 2 ^ 64 → truncateLen ≤ fuel → truncateLen ≤ fuel' →
      truncateLoop bs ps fuel' blockIndex blockPos truncateLen s =
        some (walkRounds bs (truncateBlock ps) fuel blockIndex blockPos truncateLen s) := by
  -- on the walk's fuel: a round of the walk is a round of the loop
  induction fuel with
  | zero =>
    intro fuel' blockIndex blockPos truncateLen s _ _ hfuel _
    rw [Nat.le_zero.mp hfuel, truncateLoop_len_zero, walkRounds_len_zero]
  | succ fuel ih =>
    intro fuel' blockIndex blockPos truncateLen s hpos hrange hfuel hfuel'
    rcases Nat.eq_zero_or_pos truncateLen with rfl | hlen
    · rw [truncateLoop_len_zero, walkRounds_len_zero]
    obtain ⟨f, rfl⟩ : ∃ f, fuel' = f + 1 := ⟨fuel' - 1, by omega⟩
    have hn : 0 < roundLen bs blockPos truncateLen := roundLen_pos hpos hlen
    have hle : roundLen bs blockPos truncateLen ≤ truncateLen := roundLen_le
    have hmod := Nat.mod_le (blockPos + roundLen bs blockPos truncateLen) bs
    rw [truncateLoop_succ_of_lt hint hpos hrange hlen]
    simp only [walkRounds, if_pos hlen]
    exact ih (Nat.mod_lt _ hbs) (by omega) (by omega) (by omega)

/-- The block loop of `Truncate` over `[pos, pos + len)` is the walk over those bytes. -/
theorem truncateLoop_eq_walkPages (hbs : 0 < bs) (hint : bs < 2 ^ 31) {fuel : Nat}
    (pos len : Nat) (s : PageMap × Nat) (hrange : pos % bs + len < 2 ^ 64) (hfuel : len ≤ fuel) :
    truncateLoop bs ps fuel (pos / bs) (pos % bs) len s =
      some (walkPages bs ps (fun s blockIndex => (s.1.touch blockIndex, s.2)) (truncatePage ps)
        (fun s blockIndex => (s.1.eraseIfEmpty blockIndex, s.2)) pos len s) :=
  truncateLoop_eq_walkRounds hbs hint len (Nat.mod_lt pos hbs) hrange le_rfl hfuel

end TruncateLoop

section Truncate

variable {bs ps c tp e : Nat} (hps : 0 < ps) (hdvd : ps ∣ bs)
include hps hdvd

/-- A page round of `Truncate`. Its page is always there; it is freed when the round starts
at it, and is the page of `tp` otherwise. -/
theorem truncate_visit (hc : c < tp) {A m : Nat} {s : PageMap × Nat} (htA : tp ≤ A)
    (hA : A = tp ∨ A % ps = 0) (hm : 0 < m) (hpage : A % ps + m ≤ ps) (hle : A + m ≤ e)
    (hend : A + m = e ∨ (A + m) % ps = 0) (h : TruncIn bs ps c tp e (A / bs) A s) :
    TruncIn bs ps c tp e (A / bs) (A + m)
      (truncatePage ps s (A / bs) (A % bs / ps) (A % ps) m) := by
  obtain ⟨hdm, hal⟩ := h
  have hsplit := pagesOf_eq_insert_round hps hdvd hm hpage hle
  have hafter := pageKey_not_mem_pagesOf_round hps hdvd hm hpage hend
  have hcount : s.1.count (A / bs) (A % bs / ps) = true := by
    rw [PageMap.count_eq, hdm.pages_eq, decide_eq_true_eq, hsplit]
    exact Finset.mem_union_right _ (Finset.mem_insert_self _ _)
  unfold truncatePage
  rw [hcount]
  by_cases h0 : A % ps = 0
  · -- the round starts at its page, which is not one of `[c, tp)`: it is freed
    rw [if_pos ⟨h0, rfl⟩]
    have hout : pageKey bs ps A ∉ pagesOf bs ps c tp := pageKey_not_mem_pagesOf hps hdvd h0 htA
    have hnot : pageKey bs ps A ∉ pagesOf bs ps c tp ∪ pagesOf bs ps (A + m) e := by
      rw [Finset.mem_union, not_or]
      exact ⟨hout, hafter⟩
    have hS : pagesOf bs ps c tp ∪ pagesOf bs ps A e =
        insert (pageKey bs ps A) (pagesOf bs ps c tp ∪ pagesOf bs ps (A + m) e) := by
      rw [hsplit, Finset.union_insert]
    refine ⟨?_, ?_⟩
    · rw [← Finset.erase_insert hnot, ← hS]
      exact hdm.erase (k := pageKey bs ps A) rfl
    · dsimp only
      rw [hal, hS, Finset.card_insert_of_notMem hnot, Nat.mul_add_one, Nat.add_sub_cancel]
  · -- the round starts inside the page of `tp`, which stays
    rw [if_neg fun h => h0 h.1]
    have hAt : A = tp := hA.resolve_right h0
    have hin : pageKey bs ps A ∈ pagesOf bs ps c tp := by
      rw [hAt]
      exact pageKey_mem_pagesOf_of_mod_ne_zero hps hdvd hc (hAt ▸ h0)
    have hS : pagesOf bs ps c tp ∪ pagesOf bs ps A e =
        pagesOf bs ps c tp ∪ pagesOf bs ps (A + m) e := by
      rw [hsplit, Finset.union_insert, Finset.insert_eq_of_mem (Finset.mem_union_left _ hin)]
    rw [TruncIn, ← hS]
    exact ⟨hdm, hal⟩

/-- The walk of `Truncate` from `tp` leaves the pages of `[c, tp)`. -/
theorem truncate_walk (hbs : 0 < bs) (hc : c < tp) (hte : tp ≤ e) {dm : PageMap}
    (hdm : dm.Holds (pagesOf bs ps c e)) :
    TruncAt bs ps c tp e e (walkPages bs ps (fun s blockIndex => (s.1.touch blockIndex, s.2))
      (truncatePage ps) (fun s blockIndex => (s.1.eraseIfEmpty blockIndex, s.2)) tp (e - tp)
      (dm, ps * (pagesOf bs ps c e).card)) := by
  have hpos : tp + (e - tp) = e := by omega
  -- the walk ends at `tp + (e - tp)`, the end `e` of the cache
  nth_rewrite 2 [← hpos]
  apply walkPages_rule hbs hps hdvd (TruncAt bs ps c tp e) (TruncIn bs ps c tp e)
  · intro a s _ _ _ h
    exact ⟨h.1.touch _, h.2⟩
  · intro A m s htA hA hm hpage hle hend h
    rw [hpos] at hle hend
    exact truncate_visit hps hdvd hc htA hA hm hpage hle hend h
  · intro b A s _ _ _ _ h
    exact ⟨h.1.eraseIfEmpty, h.2⟩
  · rw [TruncAt, pagesOf_union hc.le hte]
    exact ⟨hdm, rfl⟩

variable {dc : DataCache} (h : PageInv bs ps dc)
include h

/-- `Truncate` to a size in `(0, len_]` passes `assert(tmpActualLen == actualLen_)` and keeps
the invariant. -/
theorem truncate_spec (hbs : 0 < bs) (hint : bs < 2 ^ 31) {size : Nat} (hsize : 0 < size)
    (hle : size ≤ dc.len) (hrange : dc.chunkPos + dc.len < 2 ^ 64) :
    ∃ dc', dc.truncate bs ps size = some dc' ∧ dc'.chunkPos = dc.chunkPos ∧ dc'.len = size ∧
      PageInv bs ps dc' := by
  -- the block loop is the walk: its rounds are shorter than `2^31` bytes
  have hloop := @truncateLoop_eq_walkPages bs ps hbs hint _ (dc.chunkPos + size) (dc.len - size)
    (dc.dataMap, dc.actualLen)
    (by have := Nat.mod_le (dc.chunkPos + size) bs; omega) (show dc.len - size ≤ bs * 2 ^ 64 by omega)
  have hwalk := truncate_walk hps hdvd hbs (show dc.chunkPos < dc.chunkPos + size by omega)
    (show dc.chunkPos + size ≤ dc.chunkPos + dc.len by omega) h.holds
  rw [show dc.chunkPos + dc.len - (dc.chunkPos + size) = dc.len - size by omega,
    ← h.actualLen_eq] at hwalk
  obtain ⟨hdm, hal⟩ := hwalk
  rw [pagesOf_self, Finset.union_empty] at hdm hal
  -- what is left is the pages of the new range, so the recomputed length is `actualLen_`
  have hcheck : pageAlignedLen ps dc.chunkPos size dc.actualChunkPos =
      (walkPages bs ps (fun s blockIndex => (s.1.touch blockIndex, s.2)) (truncatePage ps)
        (fun s blockIndex => (s.1.eraseIfEmpty blockIndex, s.2)) (dc.chunkPos + size)
        (dc.len - size) (dc.dataMap, dc.actualLen)).2 := by
    rw [hal, h.actualChunkPos_eq]
    exact pageAlignedLen_eq hps hdvd hsize
  unfold DataCache.truncate
  rw [if_pos hle]
  dsimp only
  rw [hloop]
  dsimp only
  rw [if_pos hcheck]
  exact ⟨_, rfl, rfl, rfl, ⟨hsize, h.actualChunkPos_eq, hdm, hal⟩⟩

-- the bytes `[1, 4)` left by a truncation to 3 bytes lie in one page
example : ((DataCache.create 8 4 1 5).bind fun dc => dc.truncate 8 4 3).map (·.actualLen) =
    some 4 := by
  decide

/-- `CopyDataCacheToBuf` of bytes of the cache finds a page for each, so its assertion holds;
and the blocks it indexes have their maps, so the cache is left as it was. -/
theorem copyDataCacheToBuf_spec (hbs : 0 < bs) {offset len : Nat} (hle : offset + len ≤ dc.len) :
    dc.copyDataCacheToBuf bs ps offset len = some dc := by
  have hin : ∀ a, dc.chunkPos ≤ a → a < dc.chunkPos + dc.len →
      (a / bs, a % bs / ps) ∈ dc.dataMap.pages := by
    intro a hlo hhi
    rw [h.holds.pages_eq]
    exact mem_pagesOf.mpr ⟨a, ⟨hlo, hhi⟩, rfl⟩
  -- the walk reads the map and never changes it
  have hwalk : walkPages bs ps (fun s blockIndex => s.map (·.touch blockIndex)) copyOutPage
      (fun s _ => s) (dc.chunkPos + offset) len (some dc.dataMap) = some dc.dataMap := by
    apply walkPages_rule hbs hps hdvd (fun _ s => s = some dc.dataMap)
      (fun _ _ s => s = some dc.dataMap)
    · rintro a s hlo hhi - rfl
      have hb : a / bs ∈ dc.dataMap.blocks :=
        dc.dataMap.mem_blocks _ (hin a (by omega) (by omega))
      rw [Option.map_some, PageMap.touch_of_mem hb]
    · rintro A m s hlo - hm - hend - rfl
      unfold copyOutPage
      dsimp only
      rw [PageMap.count_eq, decide_eq_true (hin A (by omega) (by omega)), if_pos rfl]
    · rintro b A s - - - - rfl
      rfl
    · rfl
  unfold DataCache.copyDataCacheToBuf
  rw [if_pos hle, hwalk]
  rfl

end Truncate

/-! ## `MergeDataCacheToDataCache`

The loop of `MergeDataCacheToDataCache` walks the neighbour's bytes `[q, e)` from the cache's
end `q`, page by page with `len` counted down. A round at a page the cache has copies into it
and takes the rest of the page. A round at a page the cache lacks moves the neighbour's page
over and takes a whole page; that only happens at a page's start, as a `q` inside a page is in
a page of the cache. Between rounds the loop may stand past the last page of a block
(`pageIndex == maxPageInBlock`), and the next round moves on to the next block. -/

/-- Where a round of the merge loop starts at `A`: its page by global page number, and its
offset in the page. The first round starts at `q`, the others at a page's start. -/
structure MergePos (bs ps q : Nat) (st : MergeState) (A : Nat) : Prop where
  pagePos_eq : st.pagePos = A % ps
  page_eq : st.blockIndex * (bs / ps) + st.pageIndex = A / ps
  pageIndex_le : st.pageIndex ≤ bs / ps
  start : A = q ∧ st.pageIndex < bs / ps ∨ A % ps = 0 ∧ q < A

/-- The merge loop of the bytes `[q, e)` into a cache from `c`, at `A`: the cache has the pages
of `[c, A)` and `actualLen_` is their bytes, the neighbour still has the pages of `[A, e)`, and
`len` is what is left. -/
structure MergeAt (bs ps c q e : Nat) (st : MergeState) (A : Nat) : Prop where
  le_pos : q ≤ A
  len_eq : st.len = e - A
  dataMap : st.dataMap.HoldsIn st.blockIndex (pagesOf bs ps c (min A e))
  block_mem : q < A → st.blockIndex ∈ (pagesOf bs ps c (min A e)).image Prod.fst
  mergeMap : pagesOf bs ps A e ⊆ st.mergeMap.pages
  actualLen_eq : st.actualLen = ps * (pagesOf bs ps c (min A e)).card
  pos : 0 < st.len → MergePos bs ps q st A

/-- The merge loop in a round at `A`, standing at the page of `A`. -/
structure MergeNorm (bs ps c q e : Nat) (st : MergeState) (A : Nat) : Prop where
  key_eq : (st.blockIndex, st.pageIndex) = pageKey bs ps A
  page_eq : st.blockIndex * (bs / ps) + st.pageIndex = A / ps
  pageIndex_lt : st.pageIndex < bs / ps
  pagePos_eq : st.pagePos = A % ps
  le_pos : q ≤ A
  lt_end : A < e
  len_eq : st.len = e - A
  start : A = q ∨ A % ps = 0
  dataMap : st.dataMap.HoldsIn st.blockIndex (pagesOf bs ps c A)
  mergeMap : pagesOf bs ps A e ⊆ st.mergeMap.pages
  actualLen_eq : st.actualLen = ps * (pagesOf bs ps c A).card

section Merge

variable {bs ps c q e : Nat}

/-- A round that ends at the start of the next page leaves the loop there, in the same block or
past its last page. -/
theorem mergePos_advance {st : MergeState} {A A' : Nat}
    (hpage : st.blockIndex * (bs / ps) + st.pageIndex = A / ps) (hlt : st.pageIndex < bs / ps)
    (hA' : A' % ps = 0) (hdiv : A' / ps = A / ps + 1) (hq : q < A') (n : Nat) :
    MergePos bs ps q (st.advance n) A' where
  pagePos_eq := hA'.symm
  page_eq := by
    show st.blockIndex * (bs / ps) + (st.pageIndex + 1) = A' / ps
    omega
  pageIndex_le := hlt
  start := .inr ⟨hA', hq⟩

/-- Indexing the neighbour's `dataMap_[blockIndex]` leaves its pages as they are. -/
theorem MergeNorm.touchMerge {st : MergeState} {A : Nat} (h : MergeNorm bs ps c q e st A) :
    MergeNorm bs ps c q e { st with mergeMap := st.mergeMap.touch st.blockIndex } A :=
  ⟨h.key_eq, h.page_eq, h.pageIndex_lt, h.pagePos_eq, h.le_pos, h.lt_end, h.len_eq, h.start,
    h.dataMap, h.mergeMap, h.actualLen_eq⟩

/-- `assert(mergePage)`: the neighbour has the page of the round. -/
theorem MergeNorm.count {st : MergeState} {A : Nat} (h : MergeNorm bs ps c q e st A) :
    st.mergeMap.count st.blockIndex st.pageIndex = true := by
  rw [PageMap.count_eq, h.key_eq, decide_eq_true_eq]
  exact h.mergeMap (mem_pagesOf.mpr ⟨A, ⟨le_rfl, h.lt_end⟩, rfl⟩)

/-- The cache has the page of the round when it is one of `[c, A)`. -/
theorem MergeNorm.count_dataMap {st : MergeState} {A : Nat} (h : MergeNorm bs ps c q e st A) :
    st.dataMap.count st.blockIndex st.pageIndex =
      decide (pageKey bs ps A ∈ pagesOf bs ps c A) := by
  rw [PageMap.count_eq, h.dataMap.pages_eq, h.key_eq]

variable (hps : 0 < ps) (hdvd : ps ∣ bs)
include hps hdvd

/-- The top of a round: the loop moves on to the next block when it stands past the last page
of one, and then stands at the page of `A`. -/
theorem MergeAt.nextBlock (hbs : 0 < bs) {st : MergeState} {A : Nat}
    (h : MergeAt bs ps c q e st A) (hlen : 0 < st.len) :
    MergeNorm bs ps c q e (st.nextBlock (bs / ps)) A := by
  obtain ⟨hpp, hpage, hle, hstart⟩ := h.pos hlen
  have hAe : A < e := by
    have := h.len_eq
    omega
  have hmin : min A e = A := min_eq_left hAe.le
  have hdm := h.dataMap
  have hal := h.actualLen_eq
  rw [hmin] at hdm hal
  unfold MergeState.nextBlock
  split
  · -- past the last page of a block, so past `q`: on to the next block
    rename_i hM
    have hA : A % ps = 0 ∧ q < A := hstart.resolve_left fun h' => by omega
    rw [hM] at hpage
    have hpage' : (st.blockIndex + 1) * (bs / ps) + 0 = A / ps := by
      rw [Nat.add_mul, Nat.one_mul, Nat.add_zero]
      exact hpage
    have hM0 : 0 < bs / ps := Nat.div_pos (Nat.le_of_dvd hbs hdvd) hps
    have hmem := h.block_mem hA.2
    rw [hmin] at hmem
    exact ⟨(pageKey_eq_of_page hps hdvd hM0 hpage').symm, hpage', hM0, hpp, h.le_pos, hAe,
      h.len_eq, .inr hA.1, (hdm.holds hmem).touch _, h.mergeMap, hal⟩
  · rename_i hM
    have hlt : st.pageIndex < bs / ps := by omega
    exact ⟨(pageKey_eq_of_page hps hdvd hlt hpage).symm, hpage, hlt, hpp, h.le_pos, hAe, h.len_eq,
      hstart.imp (·.1) (·.1), hdm, h.mergeMap, hal⟩

/-- A round at a page the cache has: it copies the rest of the page, and the cache's pages stay
as they are. -/
theorem MergeNorm.mergePage_copy {st : MergeState} {A : Nat} (h : MergeNorm bs ps c q e st A)
    (hcq : c ≤ q) (hmem : pageKey bs ps A ∈ pagesOf bs ps c A) :
    ∃ A', A < A' ∧ MergeAt bs ps c q e (st.mergePage ps) A' := by
  unfold MergeState.mergePage
  rw [h.count_dataMap, decide_eq_true hmem, if_pos rfl, h.pagePos_eq, h.len_eq]
  set n := roundLen ps (A % ps) (e - A) with hn
  have hlt := h.lt_end
  have hnpos : 0 < n := roundLen_pos (Nat.mod_lt A hps) (by omega)
  have hnle : n ≤ e - A := roundLen_le
  have hpage : A % ps + n ≤ ps := roundLen_add_le (Nat.mod_lt A hps)
  have hP : pagesOf bs ps c (min (A + n) e) = pagesOf bs ps c A := by
    rw [min_eq_left (by omega), pagesOf_add_round hps hdvd (by have := h.le_pos; omega) hnpos hpage,
      Finset.insert_eq_of_mem hmem]
  have hlen' : (st.advance n).len = e - (A + n) := by
    show (if st.len ≥ n then st.len - n else 0) = _
    rw [h.len_eq, if_pos hnle]
    omega
  refine ⟨A + n, by omega, ⟨by have := h.le_pos; omega, hlen', ?_, ?_, ?_, ?_, ?_⟩⟩
  · rw [hP]
    exact h.dataMap
  · intro _
    rw [hP]
    exact Finset.mem_image.mpr ⟨_, hmem, (congrArg Prod.fst h.key_eq).symm⟩
  · exact (pagesOf_mono (by omega) le_rfl).trans h.mergeMap
  · rw [hP]
    exact h.actualLen_eq
  · -- more is left, so the round ended at its page's end
    intro hleft
    rw [hlen'] at hleft
    have hfull : A % ps + n = ps := by
      rcases roundLen_eq_or (Nat.mod_lt A hps).le (e - A) with hall | ⟨hend, -⟩
      · rw [← hn] at hall
        omega
      · rwa [← hn] at hend
    obtain ⟨hdiv, hmod, -⟩ := div_mod_of_round_end hps hfull
    exact mergePos_advance h.page_eq h.pageIndex_lt hmod hdiv (by have := h.le_pos; omega) n

/-- A round at a page the cache lacks: the round starts at the page's start, the neighbour's
page moves over, and `actualLen_` grows by a page. -/
theorem MergeNorm.mergePage_steal {st : MergeState} {A : Nat} (h : MergeNorm bs ps c q e st A)
    (hcq : c < q) (hnot : pageKey bs ps A ∉ pagesOf bs ps c A) :
    ∃ A', A < A' ∧ MergeAt bs ps c q e (st.mergePage ps) A' := by
  unfold MergeState.mergePage
  rw [h.count_dataMap, decide_eq_false hnot, if_neg Bool.false_ne_true]
  have hlt := h.lt_end
  have hq := h.le_pos
  -- a page that `q` starts inside is the cache's, so this round starts at a page
  have hA0 : A % ps = 0 := by
    rcases h.start with hAq | h0
    · by_contra hne
      exact hnot (pageKey_mem_pagesOf_of_mod_ne_zero hps hdvd (by omega) hne)
    · exact h0
  have hP : pagesOf bs ps c (min (A + ps) e) = insert (pageKey bs ps A) (pagesOf bs ps c A) := by
    rw [show min (A + ps) e = A + (min (A + ps) e - A) by omega]
    exact pagesOf_add_round hps hdvd (by omega) (by omega) (by omega)
  refine ⟨A + ps, by omega, ⟨by omega, ?_, ?_, ?_, ?_, ?_, ?_⟩⟩
  · -- a whole page is taken, or what is left of it
    show (if st.len ≥ ps then st.len - ps else 0) = _
    rw [h.len_eq]
    split <;> omega
  · show (st.dataMap.emplace st.blockIndex st.pageIndex).HoldsIn st.blockIndex _
    rw [hP, ← h.key_eq]
    exact h.dataMap.emplace (k := (st.blockIndex, st.pageIndex)) rfl
  · intro _
    rw [hP, ← h.key_eq]
    exact Finset.mem_image.mpr ⟨_, Finset.mem_insert_self _ _, rfl⟩
  · -- the neighbour loses this page only, which lies before `A + ps`
    intro x hx
    show x ∈ ((st.mergeMap.erase st.blockIndex st.pageIndex).eraseIfEmpty st.blockIndex).pages
    rw [PageMap.eraseIfEmpty_pages, PageMap.erase_pages, Finset.mem_erase]
    refine ⟨?_, h.mergeMap (pagesOf_mono (by omega) le_rfl hx)⟩
    rintro rfl
    rw [h.key_eq] at hx
    exact pageKey_not_mem_pagesOf_round hps hdvd hps (by omega)
      (.inr (by rw [Nat.add_mod_right]; exact hA0)) hx
  · show st.actualLen + ps = _
    rw [hP, Finset.card_insert_of_notMem hnot, Nat.mul_add_one, h.actualLen_eq]
  · -- the moved page keeps the loop's page: the next is the page after it
    intro _
    refine mergePos_advance ?_ ?_ ?_ (Nat.add_div_right A hps) (by omega) ps
    · exact h.page_eq
    · exact h.pageIndex_lt
    · rw [Nat.add_mod_right]
      exact hA0

/-- A round of the merge loop moves it past `A`. -/
theorem MergeNorm.mergePage {st : MergeState} {A : Nat} (h : MergeNorm bs ps c q e st A)
    (hcq : c < q) : ∃ A', A < A' ∧ MergeAt bs ps c q e (st.mergePage ps) A' := by
  by_cases hmem : pageKey bs ps A ∈ pagesOf bs ps c A
  · exact h.mergePage_copy hps hdvd hcq.le hmem
  · exact h.mergePage_steal hps hdvd hcq hmem

/-- The merge loop with enough rounds takes every byte: the neighbour has each page it needs,
and it ends with nothing left. -/
theorem mergeLoop_spec (hbs : 0 < bs) (hcq : c < q) (fuel : Nat) :
    ∀ (st : MergeState) (A : Nat), MergeAt bs ps c q e st A → st.len ≤ fuel →
      ∃ st' A', mergeLoop bs ps fuel st = some st' ∧ MergeAt bs ps c q e st' A' ∧
        st'.len = 0 := by
  induction fuel with
  | zero =>
    intro st A h hfuel
    exact ⟨st, A, rfl, h, by omega⟩
  | succ fuel ih =>
    intro st A h hfuel
    by_cases hlen : 0 < st.len
    · -- a round: at the page of `A` the neighbour has its page, and the loop moves past `A`
      have hN := (h.nextBlock hps hdvd hbs hlen).touchMerge
      rw [mergeLoop, if_pos hlen]
      dsimp only
      rw [if_pos hN.count]
      obtain ⟨A', hAA', h'⟩ := hN.mergePage hps hdvd hcq
      apply ih _ A' h'
      have h₁ := h.len_eq
      have h₂ := h'.len_eq
      have h₃ := hN.lt_end
      omega
    · exact ⟨st, A, by rw [mergeLoop, if_neg hlen], h, by omega⟩

/-- The merge loop starts at the cache's end `q`, in the block and at the page of `q`; the
neighbour holds the bytes to merge. -/
theorem merge_init (hbs : 0 < bs) {dc md : DataCache} (h : PageInv bs ps dc)
    (hmd : PageInv bs ps md) {len : Nat} (hq : q = dc.chunkPos + dc.len)
    (hmq : md.chunkPos ≤ q) (hend : q + len = md.chunkPos + md.len) :
    MergeAt bs ps dc.chunkPos q (q + len)
      { dataMap := dc.dataMap.touch (q / bs), mergeMap := md.dataMap, blockIndex := q / bs,
        pageIndex := q % bs / ps, pagePos := q % bs % ps, len, actualLen := dc.actualLen } q := by
  have hmin : min q (q + len) = q := min_eq_left (Nat.le_add_right q len)
  have hlt : q % bs / ps < bs / ps := Nat.div_lt_div_of_lt_of_dvd hdvd (Nat.mod_lt q hbs)
  refine ⟨le_rfl, by dsimp only; omega, ?_, fun hqq => absurd hqq (lt_irrefl q), ?_, ?_, ?_⟩
  · rw [hmin, hq]
    exact h.holds.touch _
  · show pagesOf bs ps q (q + len) ⊆ md.dataMap.pages
    rw [hmd.holds.pages_eq]
    exact pagesOf_mono hmq hend.le
  · rw [hmin, hq]
    exact h.actualLen_eq
  · intro _
    refine ⟨Nat.mod_mod_of_dvd q hdvd, ?_, hlt.le, .inl ⟨rfl, hlt⟩⟩
    show q / bs * (bs / ps) + q % bs / ps = q / ps
    rw [div_eq_mod_div_add hps hdvd q, Nat.add_comm]

/-- `MergeDataCacheToDataCache` of the bytes that follow the cache, from a neighbour that keeps
the invariant, passes every assertion of its loop and leaves the cache with the invariant. -/
theorem mergeDataCacheToDataCache_spec (hbs : 0 < bs) {dc md : DataCache} (h : PageInv bs ps dc)
    (hmd : PageInv bs ps md) {dataOffset len : Nat}
    (hpos : md.chunkPos + dataOffset = dc.chunkPos + dc.len) (hlen : dataOffset + len = md.len)
    (hlen0 : 0 < len) :
    ∃ dc' md', dc.mergeDataCacheToDataCache bs ps md dataOffset len = some (dc', md') ∧
      dc'.chunkPos = dc.chunkPos ∧ dc'.len = dc.len + len ∧ PageInv bs ps dc' := by
  have hc := h.len_pos
  have hinit := merge_init hps hdvd hbs h hmd hpos (Nat.le_add_right _ _)
    (show md.chunkPos + dataOffset + len = md.chunkPos + md.len by omega)
  obtain ⟨st, A, hloop, hst, hst0⟩ :=
    mergeLoop_spec hps hdvd hbs (show dc.chunkPos < md.chunkPos + dataOffset by omega) len _ _
      hinit le_rfl
  -- nothing is left, so the loop went past the neighbour's last byte
  have hAe : md.chunkPos + dataOffset + len ≤ A := by
    have := hst.len_eq
    omega
  have hend : dc.chunkPos + (dc.len + len) = min A (md.chunkPos + dataOffset + len) := by
    rw [min_eq_right hAe]
    omega
  unfold DataCache.mergeDataCacheToDataCache
  rw [if_pos ⟨hpos, hlen⟩]
  dsimp only
  rw [hloop, Option.map_some]
  refine ⟨_, _, rfl, rfl, rfl, ⟨by dsimp only; omega, h.actualChunkPos_eq, ?_, ?_⟩⟩
  · show st.dataMap.Holds _
    rw [hend]
    exact hst.dataMap.holds (hst.block_mem (by omega))
  · show st.actualLen = _
    rw [hend]
    exact hst.actualLen_eq

end Merge

/-! ## Runs of the calls of `Write` and `Truncate` -/

/-- One call that `DataCache::Write` or `DataCache::Truncate` makes on a cache, with what the
caller guarantees: `CopyBufToDataCache` of bytes that start inside the cache or at its end,
`AddDataBefore` of at most `chunkPos_` bytes, `MergeDataCacheToDataCache` of a non-empty run of
bytes of a neighbour that keeps the invariant (`Write` merges a neighbour only when it ends past
the write), and `Truncate` to a non-empty size of a cache that lies below `2^64`. A call whose
assertion fails is no step. -/
inductive PageStep (bs ps : Nat) : DataCache → DataCache → Prop
  | copyBuf (dc : DataCache) {dataCachePos : Nat} (len : Nat) (h : dataCachePos ≤ dc.len) :
      PageStep bs ps dc (dc.copyBufToDataCache bs ps dataCachePos len)
  | addDataBefore (dc : DataCache) {len : Nat} (h : len ≤ dc.chunkPos) :
      PageStep bs ps dc (dc.addDataBefore bs ps len)
  | merge {dc md dc' md' : DataCache} {dataOffset len : Nat} (hmd : PageInv bs ps md)
      (hlen : 0 < len)
      (h : dc.mergeDataCacheToDataCache bs ps md dataOffset len = some (dc', md')) :
      PageStep bs ps dc dc'
  | truncate {dc dc' : DataCache} {size : Nat} (hsize : 0 < size)
      (hrange : dc.chunkPos + dc.len < 2 ^ 64) (h : dc.truncate bs ps size = some dc') :
      PageStep bs ps dc dc'

/-- What the invariant gives the calls that read a cache or grow it from a neighbour: `Truncate`
to a non-empty size of a cache below `2^64`, `CopyDataCacheToBuf` of its bytes and
`MergeDataCacheToDataCache` of the bytes after it pass their assertions. -/
structure CallsSafe (bs ps : Nat) (dc : DataCache) : Prop where
  truncate : ∀ size, 0 < size → size ≤ dc.len → dc.chunkPos + dc.len < 2 ^ 64 →
    ∃ dc', dc.truncate bs ps size = some dc'
  copyDataCacheToBuf : ∀ offset len, offset + len ≤ dc.len →
    dc.copyDataCacheToBuf bs ps offset len = some dc
  merge : ∀ (md : DataCache) (dataOffset len : Nat), PageInv bs ps md →
    md.chunkPos + dataOffset = dc.chunkPos + dc.len → dataOffset + len = md.len → 0 < len →
      ∃ r, dc.mergeDataCacheToDataCache bs ps md dataOffset len = some r

section Run

variable {bs ps : Nat}

/-- `MergeDataCacheToDataCache` returns only when its assertions on its arguments hold. -/
theorem mergeDataCacheToDataCache_asserts {dc md : DataCache} {dataOffset len : Nat}
    {r : DataCache × DataCache}
    (h : dc.mergeDataCacheToDataCache bs ps md dataOffset len = some r) :
    md.chunkPos + dataOffset = dc.chunkPos + dc.len ∧ dataOffset + len = md.len := by
  unfold DataCache.mergeDataCacheToDataCache at h
  dsimp only at h
  split at h
  · rename_i hasserts
    exact hasserts
  · cases h

/-- `Truncate` returns only when `assert(size <= len_)` holds. -/
theorem le_len_of_truncate {dc dc' : DataCache} {size : Nat}
    (h : dc.truncate bs ps size = some dc') : size ≤ dc.len := by
  unfold DataCache.truncate at h
  dsimp only at h
  split at h
  · rename_i hle
    exact hle
  · cases h

variable (hps : 0 < ps) (hdvd : ps ∣ bs) (hbs : 0 < bs) (hint : bs < 2 ^ 31)
include hps hdvd hbs hint

/-- Each call keeps the invariant. -/
theorem PageStep.pageInv {dc dc' : DataCache} (hstep : PageStep bs ps dc dc')
    (h : PageInv bs ps dc) : PageInv bs ps dc' := by
  cases hstep with
  | copyBuf len hd => exact copyBufToDataCache_spec hps hdvd h hbs hd len
  | addDataBefore hl => exact addDataBefore_spec hps hdvd h hbs hl
  | merge hmd hlen hres =>
    obtain ⟨hpos, hlen'⟩ := mergeDataCacheToDataCache_asserts hres
    obtain ⟨dc'', md'', hres', -, -, hinv⟩ :=
      mergeDataCacheToDataCache_spec hps hdvd hbs h hmd hpos hlen' hlen
    rw [hres] at hres'
    cases hres'
    exact hinv
  | truncate hsize hrange hres =>
    obtain ⟨dc'', hres', -, -, hinv⟩ :=
      truncate_spec hps hdvd h hbs hint hsize (le_len_of_truncate hres) hrange
    rw [hres] at hres'
    cases hres'
    exact hinv

/-- Every run of calls keeps the invariant. -/
theorem PageInv.of_reflTransGen {dc dc' : DataCache}
    (hrun : Relation.ReflTransGen (PageStep bs ps) dc dc') (h : PageInv bs ps dc) :
    PageInv bs ps dc' := by
  induction hrun with
  | refl => exact h
  | tail _ hstep ih => exact hstep.pageInv hps hdvd hbs hint ih

/-- On a cache with the invariant the calls that assert on its pages pass. -/
theorem PageInv.callsSafe {dc : DataCache} (h : PageInv bs ps dc) : CallsSafe bs ps dc where
  truncate _ hsize hle hrange := by
    obtain ⟨dc', hres, -⟩ := truncate_spec hps hdvd h hbs hint hsize hle hrange
    exact ⟨dc', hres⟩
  copyDataCacheToBuf _ _ hle := copyDataCacheToBuf_spec hps hdvd h hbs hle
  merge _ _ _ hmd hpos hlen hlen0 := by
    obtain ⟨dc', md', hres, -⟩ :=
      mergeDataCacheToDataCache_spec hps hdvd hbs h hmd hpos hlen hlen0
    exact ⟨(dc', md'), hres⟩

end Run

section IntMax

variable {s : PageMap × Nat}

end IntMax

/-! ## `Write` as a run of its calls

`DataCache::Write` copies the written bytes into the cache, merges the tail of the swallowed
cache that reaches past the write, and adds what lies before the cache; each call with the
guarantee `PageStep` asks for. On a cache with the invariant, a write that starts inside the
cache or at its end, over swallowed caches that keep the invariant and start inside the write or
at its end, passes every assertion. -/

/-- A call of `DataCache::Write` or `DataCache::Truncate`, with what the caller of `Write`
guarantees: the write starts inside the cache or at its end, and the caches it swallowed keep
the invariant. -/
inductive CacheCall (bs ps : Nat) : DataCache → DataCache → Prop
  | write {dc dc' : DataCache} {chunkPos len : Nat} {mergeDataCacheVer : List DataCache}
      (hmeet : chunkPos ≤ dc.chunkPos + dc.len)
      (hver : ∀ mc ∈ mergeDataCacheVer, PageInv bs ps mc)
      (h : dc.write bs ps chunkPos len mergeDataCacheVer = some dc') : CacheCall bs ps dc dc'
  | truncate {dc dc' : DataCache} {size : Nat} (hsize : 0 < size)
      (hrange : dc.chunkPos + dc.len < 2 ^ 64) (h : dc.truncate bs ps size = some dc') :
      CacheCall bs ps dc dc'

section Write

variable {bs ps : Nat}

/-- `MergeDataCacheToDataCache` keeps the cache's start. -/
theorem chunkPos_of_mergeDataCacheToDataCache {dc md dc' md' : DataCache} {dataOffset len : Nat}
    (h : dc.mergeDataCacheToDataCache bs ps md dataOffset len = some (dc', md')) :
    dc'.chunkPos = dc.chunkPos := by
  unfold DataCache.mergeDataCacheToDataCache at h
  dsimp only at h
  split at h
  · obtain ⟨st, -, hst⟩ := Option.map_eq_some_iff.mp h
    cases hst
    rfl
  · cases h

/-- The cache a copy leaves ends where the copy ends when the copy reaches past the cache. -/
theorem end_copyBufToDataCache {dc : DataCache} {dataCachePos len : Nat}
    (hpast : dc.len < dataCachePos + len) :
    (dc.copyBufToDataCache bs ps dataCachePos len).chunkPos +
      (dc.copyBufToDataCache bs ps dataCachePos len).len = dc.chunkPos + dataCachePos + len := by
  show dc.chunkPos + (if dataCachePos + len > dc.len then dataCachePos + len else dc.len) = _
  rw [if_pos hpast]
  omega

/-- The swallowed cache `Write` merges reaches past the write, so the merge is of a non-empty
run. -/
theorem merge_len_pos {mergeDataCacheVer : List DataCache} {chunkPos len : Nat} {mc : DataCache}
    (h : mergeDataCacheVer.find? (fun mc => decide (chunkPos + len < mc.chunkPos + mc.len)) =
      some mc) :
    mc ∈ mergeDataCacheVer ∧ 0 < mc.chunkPos + mc.len - chunkPos - len := by
  refine ⟨List.mem_of_find?_eq_some h, ?_⟩
  have hp := List.find?_some h
  have hlt : chunkPos + len < mc.chunkPos + mc.len := of_decide_eq_true hp
  omega

/-- `Write` makes its calls with the guarantees `PageStep` asks for: a write is a run of them. -/
theorem write_pageSteps {dc dc' : DataCache} {chunkPos len : Nat}
    {mergeDataCacheVer : List DataCache} (hmeet : chunkPos ≤ dc.chunkPos + dc.len)
    (hver : ∀ mc ∈ mergeDataCacheVer, PageInv bs ps mc)
    (h : dc.write bs ps chunkPos len mergeDataCacheVer = some dc') :
    Relation.ReflTransGen (PageStep bs ps) dc dc' := by
  unfold DataCache.write at h
  dsimp only at h
  -- the copy is always the first call; what follows depends on where the write lies
  have hcopy₀ := @PageStep.copyBuf bs ps dc 0 (chunkPos + len - dc.chunkPos) (Nat.zero_le dc.len)
  split at h
  · -- the write starts at or before the cache: the bytes before it are added last
    have hadd : ∀ dc₁ : DataCache, dc₁.chunkPos = dc.chunkPos →
        PageStep bs ps dc₁ (dc₁.addDataBefore bs ps (dc.chunkPos - chunkPos)) :=
      fun dc₁ h₁ => .addDataBefore dc₁ (by rw [h₁]; exact Nat.sub_le _ _)
    split at h
    · cases h
      exact .tail (.single hcopy₀) (hadd _ rfl)
    · split at h
      · rename_i mc hfind
        obtain ⟨⟨dc₁, md₁⟩, hmerge, rfl⟩ := Option.map_eq_some_iff.mp h
        obtain ⟨hmem, hpos⟩ := merge_len_pos hfind
        exact .tail (.tail (.single hcopy₀) (.merge (hver mc hmem) hpos hmerge))
          (hadd _ (by rw [chunkPos_of_mergeDataCacheToDataCache hmerge]; rfl))
      · cases h
        exact .tail (.single hcopy₀) (hadd _ rfl)
  · -- the write starts inside the cache
    have hcopy := @PageStep.copyBuf bs ps dc (chunkPos - dc.chunkPos) len (by omega)
    split at h
    · cases h
      exact .single hcopy
    · split at h
      · rename_i mc hfind
        obtain ⟨⟨dc₁, md₁⟩, hmerge, rfl⟩ := Option.map_eq_some_iff.mp h
        obtain ⟨hmem, hpos⟩ := merge_len_pos hfind
        exact .tail (.single hcopy) (.merge (hver mc hmem) hpos hmerge)
      · cases h
        exact .single hcopy

/-- Each call of `Write` or `Truncate` is a run of the calls `PageStep` describes. -/
theorem CacheCall.pageSteps {dc dc' : DataCache} (h : CacheCall bs ps dc dc') :
    Relation.ReflTransGen (PageStep bs ps) dc dc' := by
  cases h with
  | write hmeet hver h => exact write_pageSteps hmeet hver h
  | truncate hsize hrange h => exact .single (.truncate hsize hrange h)

/-- A run of `Write` and `Truncate` calls is a run of their calls. -/
theorem pageSteps_of_cacheCalls {dc dc' : DataCache}
    (h : Relation.ReflTransGen (CacheCall bs ps) dc dc') :
    Relation.ReflTransGen (PageStep bs ps) dc dc' := by
  induction h with
  | refl => exact .refl
  | tail _ hcall ih => exact ih.trans hcall.pageSteps

variable (hps : 0 < ps) (hdvd : ps ∣ bs) (hbs : 0 < bs)
include hps hdvd hbs

/-- The merge of the tail of a swallowed cache, after a copy that reached the write's end,
passes its assertions. -/
theorem merge_tail_some {front mc : DataCache} (hfront : PageInv bs ps front)
    (hmc : PageInv bs ps mc) {chunkPos len : Nat}
    (hend : front.chunkPos + front.len = chunkPos + len)
    (hstart : mc.chunkPos ≤ chunkPos + len) (hpast : chunkPos + len < mc.chunkPos + mc.len) :
    ∃ r, front.mergeDataCacheToDataCache bs ps mc (chunkPos + len - mc.chunkPos)
      (mc.chunkPos + mc.len - chunkPos - len) = some r := by
  obtain ⟨dc', md', hres, -⟩ := mergeDataCacheToDataCache_spec hps hdvd hbs hfront hmc
    (show mc.chunkPos + (chunkPos + len - mc.chunkPos) = front.chunkPos + front.len by omega)
    (show chunkPos + len - mc.chunkPos + (mc.chunkPos + mc.len - chunkPos - len) = mc.len by omega)
    (show 0 < mc.chunkPos + mc.len - chunkPos - len by omega)
  exact ⟨_, hres⟩

/-- On a cache with the invariant, a write that starts inside the cache or at its end, over
swallowed caches that keep the invariant and start inside the write or at its end, passes every
assertion of its calls. -/
theorem write_some {dc : DataCache} (h : PageInv bs ps dc) {chunkPos len : Nat}
    {mergeDataCacheVer : List DataCache} (hmeet : chunkPos ≤ dc.chunkPos + dc.len)
    (hver : ∀ mc ∈ mergeDataCacheVer, PageInv bs ps mc ∧ mc.chunkPos ≤ chunkPos + len) :
    ∃ dc', dc.write bs ps chunkPos len mergeDataCacheVer = some dc' := by
  unfold DataCache.write
  dsimp only
  split
  · split
    · exact ⟨_, rfl⟩
    · -- the copy reaches past the cache, up to the write's end
      rename_i hpast
      split
      · rename_i mc hfind
        obtain ⟨hmem, hpos⟩ := merge_len_pos hfind
        have hfront := copyBufToDataCache_spec hps hdvd h hbs (Nat.zero_le dc.len)
          (chunkPos + len - dc.chunkPos)
        have hend := @end_copyBufToDataCache bs ps dc 0 (chunkPos + len - dc.chunkPos) (by omega)
        obtain ⟨r, hr⟩ := merge_tail_some hps hdvd hbs hfront (hver mc hmem).1 (by omega)
          (hver mc hmem).2 (by omega)
        rw [hr]
        exact ⟨_, rfl⟩
      · exact ⟨_, rfl⟩
  · split
    · exact ⟨_, rfl⟩
    · rename_i hafter hpast
      split
      · rename_i mc hfind
        obtain ⟨hmem, hpos⟩ := merge_len_pos hfind
        have hback := copyBufToDataCache_spec hps hdvd h hbs
          (show chunkPos - dc.chunkPos ≤ dc.len by omega) len
        have hend := @end_copyBufToDataCache bs ps dc (chunkPos - dc.chunkPos) len (by omega)
        obtain ⟨r, hr⟩ := merge_tail_some hps hdvd hbs hback (hver mc hmem).1 (by omega)
          (hver mc hmem).2 (by omega)
        rw [hr]
        exact ⟨_, rfl⟩
      · exact ⟨_, rfl⟩

-- a write of `[6, 9)` after the cache of `[1, 6)` makes the page of byte 8, in the next block
example : ((DataCache.create 8 4 1 5).bind fun dc => dc.write 8 4 6 3 []).map (·.actualLen) =
    some 12 := by
  decide

theorem dataCache_write_truncate_keep_pageInv (hint : bs < 2 ^ 31) {chunkPos len : Nat}
    (hlen : 0 < len) :
    ∃ dc₀, DataCache.create bs ps chunkPos len = some dc₀ ∧
      ∀ dc, Relation.ReflTransGen (CacheCall bs ps) dc₀ dc →
        PageInv bs ps dc ∧ CallsSafe bs ps dc ∧
          ∀ (chunkPos' len' : Nat) (mergeDataCacheVer : List DataCache),
            chunkPos' ≤ dc.chunkPos + dc.len →
            (∀ mc ∈ mergeDataCacheVer,
              PageInv bs ps mc ∧ mc.chunkPos ≤ chunkPos' + len') →
              ∃ dc', dc.write bs ps chunkPos' len' mergeDataCacheVer = some dc' := by
  obtain ⟨dc₀, hcreate, -, -, h₀⟩ := create_spec hps hdvd hbs hlen
  refine ⟨dc₀, hcreate, fun dc hrun => ?_⟩
  have h := h₀.of_reflTransGen hps hdvd hbs hint (pageSteps_of_cacheCalls hrun)
  exact ⟨h, h.callsSafe hps hdvd hbs hint,
    fun _ _ _ hmeet hver => write_some hps hdvd hbs h hmeet hver⟩

end Write

theorem dataCache_write_truncate_keep_pageInv_eight_four :
    0 < 4 ∧ 4 ∣ 8 ∧ 0 < 8 ∧ 8 < 2 ^ 31 ∧ 0 < 5 ∧
      ∃ dc₀, DataCache.create 8 4 1 5 = some dc₀ ∧
        ∀ dc, Relation.ReflTransGen (CacheCall 8 4) dc₀ dc →
          PageInv 8 4 dc ∧ CallsSafe 8 4 dc ∧
            ∀ (chunkPos' len' : Nat) (mergeDataCacheVer : List DataCache),
              chunkPos' ≤ dc.chunkPos + dc.len →
              (∀ mc ∈ mergeDataCacheVer,
                PageInv 8 4 mc ∧ mc.chunkPos ≤ chunkPos' + len') →
                ∃ dc', dc.write 8 4 chunkPos' len' mergeDataCacheVer = some dc' :=
  ⟨by decide, by decide, by decide, by decide, by decide,
    dataCache_write_truncate_keep_pageInv (by decide) (by decide) (by decide) (by decide)
      (by decide)⟩

end DingoFs.Client.Pages
