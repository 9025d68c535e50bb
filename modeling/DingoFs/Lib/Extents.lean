import Mathlib.Data.List.Basic

/-!
# Sparse contents and sorted extents

The contents of a region written piecewise are a partial function from positions to
elements: `putRange` writes a list from a position on, `cutFrom` forgets everything from a
position on. A cache of such contents keeps them as extents `(start, elements)`, sorted and
apart (each extent ends before the next starts, with at least one free position between
them); `extentAt` reads a position through the first extent that holds it.

`writeAt` is a `memcpy` into a growable buffer. Its bytes in range are the source's, the
others the buffer's.
-/

namespace DingoFs.Lib

variable {α : Type*}

/-! ## Contents -/

/-- The contents `c` with `src` written from position `pos` on. -/
def putRange (c : Nat → Option α) (pos : Nat) (src : List α) (q : Nat) : Option α :=
  if pos ≤ q ∧ q < pos + src.length then src[q - pos]? else c q

/-- The contents `c` with every position from `pos` on cleared. -/
def cutFrom (c : Nat → Option α) (pos q : Nat) : Option α :=
  if pos ≤ q then none else c q

@[simp]
theorem putRange_nil (c : Nat → Option α) (pos : Nat) : putRange c pos [] = c := by
  funext q
  rw [putRange, if_neg (by simp)]

/-- Two writes end to end are one write of both lists. -/
theorem putRange_append (c : Nat → Option α) (pos : Nat) (l₁ l₂ : List α) :
    putRange (putRange c pos l₁) (pos + l₁.length) l₂ = putRange c pos (l₁ ++ l₂) := by
  funext q
  simp only [putRange, List.length_append]
  by_cases h₂ : pos + l₁.length ≤ q ∧ q < pos + l₁.length + l₂.length
  · rw [if_pos h₂, if_pos (by omega), List.getElem?_append_right (by omega)]
    congr 1
    omega
  · rw [if_neg h₂]
    by_cases h₁ : pos ≤ q ∧ q < pos + l₁.length
    · rw [if_pos h₁, if_pos (by omega), List.getElem?_append_left (by omega)]
    · rw [if_neg h₁, if_neg (by omega)]

/-! ## Extents -/

/-- What an extent `(start, elements)` holds at position `q`. -/
def extentOf (e : Nat × List α) (q : Nat) : Option α :=
  if e.1 ≤ q then e.2[q - e.1]? else none

/-- What a list of extents holds at position `q`: the first extent holding it decides. -/
def extentAt : List (Nat × List α) → Nat → Option α
  | [], _ => none
  | e :: l, q => (extentOf e q).or (extentAt l q)

/-- Extents in increasing order, each nonempty and ending before the next one starts, with a
free position between them. -/
structure ExtentsApart (l : List (Nat × List α)) : Prop where
  nonempty : ∀ e ∈ l, 0 < e.2.length
  apart : l.Pairwise fun e f => e.1 + e.2.length < f.1

/-- Extents in increasing order, each nonempty and ending at or before the next one starts:
two may touch. -/
structure ExtentsOrdered (l : List (Nat × List α)) : Prop where
  nonempty : ∀ e ∈ l, 0 < e.2.length
  ordered : l.Pairwise fun e f => e.1 + e.2.length ≤ f.1

theorem ExtentsApart.ordered {l : List (Nat × List α)} (h : ExtentsApart l) : ExtentsOrdered l :=
  ⟨h.nonempty, h.apart.imp Nat.le_of_lt⟩

theorem extentOf_of_lt {e : Nat × List α} {q : Nat} (h : q < e.1) : extentOf e q = none := by
  rw [extentOf, if_neg (by omega)]

theorem extentOf_of_le {e : Nat × List α} {q : Nat} (h : e.1 + e.2.length ≤ q) :
    extentOf e q = none := by
  rw [extentOf, if_pos (by omega), List.getElem?_eq_none (by omega)]

/-- An extent holds nothing outside its range. -/
theorem extentOf_of_not_mem {e : Nat × List α} {q : Nat} (h : q < e.1 ∨ e.1 + e.2.length ≤ q) :
    extentOf e q = none :=
  h.elim extentOf_of_lt extentOf_of_le

theorem extentOf_of_le_start {e : Nat × List α} {q : Nat} (h : e.1 ≤ q) :
    extentOf e q = e.2[q - e.1]? := by
  rw [extentOf, if_pos h]

@[simp]
theorem extentAt_nil (q : Nat) : extentAt ([] : List (Nat × List α)) q = none := rfl

@[simp]
theorem extentAt_cons (e : Nat × List α) (l : List (Nat × List α)) (q : Nat) :
    extentAt (e :: l) q = (extentOf e q).or (extentAt l q) := rfl

theorem extentAt_append (l₁ l₂ : List (Nat × List α)) (q : Nat) :
    extentAt (l₁ ++ l₂) q = (extentAt l₁ q).or (extentAt l₂ q) := by
  induction l₁ with
  | nil => rfl
  | cons e l ih => rw [List.cons_append, extentAt_cons, extentAt_cons, ih, Option.or_assoc]

/-- Extents that hold nothing at `q` read as nothing. -/
theorem extentAt_eq_none {l : List (Nat × List α)} {q : Nat}
    (h : ∀ e ∈ l, extentOf e q = none) : extentAt l q = none := by
  induction l with
  | nil => rfl
  | cons e l ih =>
    rw [extentAt_cons, h e List.mem_cons_self, Option.none_or]
    exact ih fun f hf => h f (List.mem_cons_of_mem e hf)

section FlatMap

variable {β : Type*} {l : List β} {g : β → List (Nat × List α)} {q : Nat}

/-- Lists of extents that each hold nothing at `q`, put end to end, hold nothing there. -/
theorem extentAt_flatMap_eq_none (h : ∀ b ∈ l, extentAt (g b) q = none) :
    extentAt (l.flatMap g) q = none := by
  induction l with
  | nil => rfl
  | cons a l ih =>
    rw [List.flatMap_cons, extentAt_append, h a List.mem_cons_self, Option.none_or]
    exact ih fun b hb => h b (List.mem_cons_of_mem a hb)

theorem exists_of_extentAt_flatMap_ne_none (h : extentAt (l.flatMap g) q ≠ none) :
    ∃ b ∈ l, extentAt (g b) q ≠ none := by
  by_contra hall
  refine h (extentAt_flatMap_eq_none fun b hb => ?_)
  by_contra hne
  exact hall ⟨b, hb, hne⟩

/-- Where only `b`'s extents can hold `q`, the lists put end to end read as `b`'s. -/
theorem extentAt_flatMap_of_unique {b : β} (hb : b ∈ l)
    (h : ∀ b' ∈ l, b' ≠ b → extentAt (g b') q = none) :
    extentAt (l.flatMap g) q = extentAt (g b) q := by
  induction l with
  | nil => exact absurd hb List.not_mem_nil
  | cons a l ih =>
    have hl : ∀ b' ∈ l, b' ≠ b → extentAt (g b') q = none :=
      fun b' hb' => h b' (List.mem_cons_of_mem a hb')
    rw [List.flatMap_cons, extentAt_append]
    by_cases hab : a = b
    · subst hab
      cases hga : extentAt (g a) q with
      | some x => rfl
      | none =>
        -- `a` may come again later; either way it holds nothing at `q`
        rw [Option.none_or]
        by_cases hal : a ∈ l
        · rw [ih hal hl, hga]
        · exact extentAt_flatMap_eq_none fun b' hb' => hl b' hb' fun e => hal (e ▸ hb')
    · rw [h a List.mem_cons_self hab, Option.none_or]
      exact ih ((List.mem_cons.mp hb).resolve_left (Ne.symm hab)) hl

end FlatMap

@[simp]
theorem extentOf_nil (c q : Nat) : extentOf (c, ([] : List α)) q = none := by
  simp [extentOf]

/-- An extent of two lists reads the first up to its end and the second after it. -/
theorem extentOf_append (c : Nat) (l₁ l₂ : List α) (q : Nat) :
    extentOf (c, l₁ ++ l₂) q =
      if q < c + l₁.length then extentOf (c, l₁) q else extentOf (c + l₁.length, l₂) q := by
  by_cases hq : q < c + l₁.length
  · rw [if_pos hq]
    by_cases hc : c ≤ q
    · rw [extentOf_of_le_start hc, extentOf_of_le_start hc,
        List.getElem?_append_left (by dsimp only; omega)]
    · rw [extentOf_of_lt (by dsimp only; omega), extentOf_of_lt (by dsimp only; omega)]
  · rw [if_neg hq, extentOf_of_le_start (by dsimp only; omega),
      extentOf_of_le_start (by dsimp only; omega), List.getElem?_append_right (by dsimp only; omega)]
    congr 1
    dsimp only
    omega

/-- The first `n` elements of an extent hold what it holds below `c + n`. -/
theorem extentOf_take (c : Nat) (l : List α) (n q : Nat) :
    extentOf (c, l.take n) q = if q < c + n then extentOf (c, l) q else none := by
  by_cases hc : c ≤ q
  · rw [extentOf_of_le_start hc, extentOf_of_le_start hc, List.getElem?_take]
    exact if_congr (by omega) rfl rfl
  · rw [extentOf_of_lt (by dsimp only; omega), extentOf_of_lt (by dsimp only; omega), ite_self]

/-- What an extent holds from `c` on, as an extent starting at `c`. -/
theorem extentOf_drop {e : Nat × List α} {c : Nat} (h : e.1 ≤ c) (q : Nat) :
    extentOf (c, e.2.drop (c - e.1)) q = if c ≤ q then extentOf e q else none := by
  by_cases hc : c ≤ q
  · rw [if_pos hc, extentOf_of_le_start hc, extentOf_of_le_start (by omega), List.getElem?_drop]
    congr 1
    omega
  · rw [if_neg hc, extentOf_of_lt (by dsimp only; omega)]

theorem ExtentsApart.sublist {l l' : List (Nat × List α)} (h : ExtentsApart l)
    (hs : l'.Sublist l) : ExtentsApart l' :=
  ⟨fun e he => h.nonempty e (hs.subset he), h.apart.sublist hs⟩

theorem ExtentsOrdered.sublist {l l' : List (Nat × List α)} (h : ExtentsOrdered l)
    (hs : l'.Sublist l) : ExtentsOrdered l' :=
  ⟨fun e he => h.nonempty e (hs.subset he), h.ordered.sublist hs⟩

/-! ## A write into an extent

A write of `src` from `a` into an extent `x` it overlaps or touches keeps what `x` holds before
`a`, and past the write's end what `x` holds there, or else what an extent `z` that starts
inside the write holds there. -/

/-- `src` written from `a` into the extent `x`, continued past the write's end by `x` and
then by `z`. -/
def spliceExtent (x : Nat × List α) (a : Nat) (src : List α) (z : Nat × List α) :
    Nat × List α :=
  (min a x.1, x.2.take (a - x.1) ++ src ++
    (x.2.drop (a + src.length - x.1) ++ z.2.drop (a + src.length - z.1)))

section Splice

variable {x z : Nat × List α} {a : Nat} {src : List α}

theorem spliceExtent_of_le (h : a ≤ x.1) :
    spliceExtent x a src z =
      (a, src ++ (x.2.drop (a + src.length - x.1) ++ z.2.drop (a + src.length - z.1))) := by
  rw [spliceExtent, Nat.min_eq_left h, Nat.sub_eq_zero_of_le h, List.take_zero, List.nil_append]

theorem spliceExtent_of_ge (h : x.1 ≤ a) :
    spliceExtent x a src z =
      (x.1, x.2.take (a - x.1) ++ src ++
        (x.2.drop (a + src.length - x.1) ++ z.2.drop (a + src.length - z.1))) := by
  rw [spliceExtent, Nat.min_eq_right h]

/-- The splice holds `src` over the write and what `x`, then `z`, hold elsewhere, where `x`
reaches the write, `z` starts inside it, and `z` ends by the write's end if `x` passes it. -/
theorem extentOf_spliceExtent (hx : a ≤ x.1 + x.2.length) (hx' : x.1 ≤ a + src.length)
    (hz : a ≤ z.1) (hz' : z.1 ≤ a + src.length)
    (htail : a + src.length < x.1 + x.2.length → z.1 + z.2.length ≤ a + src.length) (q : Nat) :
    extentOf (spliceExtent x a src z) q =
      putRange (fun q => (extentOf x q).or (extentOf z q)) a src q := by
  -- the spliced extent is `x` before `a`, then `src`, then the rest after the write
  have hpre : min a x.1 + (x.2.take (a - x.1)).length = a := by
    rw [List.length_take]
    omega
  rw [spliceExtent, List.append_assoc, extentOf_append, extentOf_append, hpre, putRange]
  by_cases h₁ : q < a
  · rw [if_pos h₁, if_neg (by omega), @extentOf_of_lt _ z q (by omega), Option.or_none]
    by_cases hxa : x.1 ≤ a
    · rw [Nat.min_eq_right hxa, extentOf_take, if_pos (by omega)]
    · rw [extentOf_of_lt (by dsimp only; omega), extentOf_of_lt (by omega)]
  rw [if_neg h₁]
  by_cases h₂ : q < a + src.length
  · rw [if_pos h₂, if_pos ⟨by omega, h₂⟩, extentOf_of_le_start (by dsimp only; omega)]
  rw [if_neg h₂, if_neg (by omega)]
  by_cases hxe : a + src.length < x.1 + x.2.length
  · -- `x` passes the write's end, so `z` holds nothing after it
    rw [List.drop_eq_nil_of_le (by omega : z.2.length ≤ a + src.length - z.1), List.append_nil, extentOf_drop hx',
      if_pos (by omega), @extentOf_of_le _ z q (by omega), Option.or_none]
  · rw [List.drop_eq_nil_of_le (by omega : x.2.length ≤ a + src.length - x.1), List.nil_append, extentOf_drop hz',
      if_pos (by omega), @extentOf_of_le _ x q (by omega), Option.none_or]

/-- The splice ends at the last of the write's end, `x`'s end and `z`'s end. -/
theorem spliceExtent_end (hx : a ≤ x.1 + x.2.length) (hx' : x.1 ≤ a + src.length)
    (hz' : z.1 ≤ a + src.length)
    (htail : a + src.length < x.1 + x.2.length → z.1 + z.2.length ≤ a + src.length) :
    (spliceExtent x a src z).1 + (spliceExtent x a src z).2.length =
      max (a + src.length) (max (x.1 + x.2.length) (z.1 + z.2.length)) := by
  simp only [spliceExtent, List.length_append, List.length_take, List.length_drop]
  omega

end Splice

/-! ## A `memcpy` into a growable buffer -/

/-- `src` copied into `d` from offset `off`, the buffer growing as needed; a gap between the
buffer's end and `off` holds `fill`. -/
def writeAt (fill : α) (d : List α) (off : Nat) (src : List α) : List α :=
  d.take off ++ List.replicate (off - d.length) fill ++ src ++ d.drop (off + src.length)

section WriteAt

variable {fill : α} {d src : List α} {off : Nat}

theorem writeAt_zero : writeAt fill d 0 src = src ++ d.drop src.length := by
  simp [writeAt]

/-- A copy that starts inside the buffer or at its end leaves no gap. -/
theorem writeAt_of_le (h : off ≤ d.length) :
    writeAt fill d off src = d.take off ++ src ++ d.drop (off + src.length) := by
  rw [writeAt, Nat.sub_eq_zero_of_le h, List.replicate_zero, List.append_nil]

theorem length_writeAt (h : off ≤ d.length) :
    (writeAt fill d off src).length = max d.length (off + src.length) := by
  simp only [writeAt, List.length_append, List.length_take, List.length_replicate,
    List.length_drop]
  omega

/-- Where the copy starts inside the buffer, an element of the result is the source's in
the copied range and the buffer's elsewhere. -/
theorem getElem?_writeAt (h : off ≤ d.length) (i : Nat) :
    (writeAt fill d off src)[i]? =
      if off ≤ i ∧ i < off + src.length then src[i - off]? else d[i]? := by
  have hgap : off - d.length = 0 := by omega
  simp only [writeAt, hgap, List.replicate_zero, List.append_nil]
  split_ifs with hin
  · rw [List.getElem?_append_left (by simp; omega), List.getElem?_append_right (by simp; omega)]
    simp only [List.length_take]
    congr 1
    omega
  · by_cases hlt : i < off
    · rw [List.append_assoc, List.getElem?_append_left (by simp; omega),
        List.getElem?_take_of_lt hlt]
    · rw [List.getElem?_append_right (by simp; omega), List.getElem?_drop]
      simp only [List.length_append, List.length_take]
      congr 1
      omega

/-- A copy that starts where a copy from offset `0` ended extends it: a writer that advances
its offset after each write has written the concatenation of what it wrote. -/
theorem writeAt_writeAt_length (w : List α) :
    writeAt fill (writeAt fill d 0 w) w.length src = writeAt fill d 0 (w ++ src) := by
  have hin : w.length ≤ (writeAt fill d 0 w).length := by simp [writeAt_zero]
  rw [writeAt_of_le hin, writeAt_zero, writeAt_zero, List.take_left, List.drop_append,
    List.drop_eq_nil_of_le (by omega), List.nil_append, List.drop_drop, Nat.add_sub_cancel_left,
    List.length_append]

end WriteAt

end DingoFs.Lib
