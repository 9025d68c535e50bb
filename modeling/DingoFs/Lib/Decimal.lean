import Mathlib.Data.List.Sort
import Mathlib.Data.Nat.Digits.Defs
import Mathlib.Data.String.Basic

/-!
# Decimal keys in a sorted store

Storage keys print their numbers in decimal: `absl::StrCat` without padding, and
`StrFormat("%020…")` with zeros in front up to a width. A sorted key-value store orders the
keys as strings, character by character. Three facts make such keys usable.

* Numbers padded to one width compare as strings the way they compare as numbers, whatever
  follows them (`padDigits_append_lt`).
* A field of digits followed by a separator that is no digit can be read off a prefix
  (`sep_isPrefix_iff`).
* The seek of a sorted store, from the prefix on and while the keys carry it, visits exactly
  the keys that carry it (`takeWhile_dropWhile_eq_filter`).
-/

namespace DingoFs.Lib

/-! ## Zero-padded decimals -/

/-- `%0wd` of a printed number `s`: zeros in front of it up to width `w`. -/
def zeroPad (w : Nat) (s : List Char) : List Char :=
  List.replicate (w - s.length) '0' ++ s

/-- The `w` decimal digits of `n` below `10 ^ w`, most significant first. -/
def padDigits : Nat → Nat → List Char
  | 0, _ => []
  | w + 1, n => padDigits w (n / 10) ++ [Nat.digitChar (n % 10)]

@[simp] theorem length_padDigits (w n : Nat) : (padDigits w n).length = w := by
  induction w generalizing n with
  | zero => rfl
  | succ w ih => simp [padDigits, ih]

theorem padDigits_zero (w : Nat) : padDigits w 0 = List.replicate w '0' := by
  induction w with
  | zero => rfl
  | succ w ih =>
    rw [padDigits, Nat.zero_div, ih, List.replicate_succ']
    rfl

/-- Printing a number of two digits or more prints its leading digits, then its last. -/
theorem toDigits_of_ge_ten {n : Nat} (hn : 10 ≤ n) :
    Nat.toDigits 10 n = Nat.toDigits 10 (n / 10) ++ [Nat.digitChar (n % 10)] := by
  rw [← Nat.toDigits_of_lt_base (Nat.mod_lt n (by decide)),
    @Nat.toDigits_append_toDigits 10 (n / 10) (n % 10) (by decide) (Nat.div_pos hn (by decide))
      (Nat.mod_lt n (by decide)),
    Nat.div_add_mod]

/-- The number a list of decimal digits spells, most significant first. -/
def digitsValue (s : List Char) : Nat :=
  s.foldl (fun acc c => 10 * acc + (c.toNat - 48)) 0

theorem digitsValue_append_singleton (s : List Char) (c : Char) :
    digitsValue (s ++ [c]) = 10 * digitsValue s + (c.toNat - 48) := by
  simp [digitsValue, List.foldl_append]

/-- Reading back what `Nat.toDigits` prints gives the number. -/
theorem digitsValue_toDigits (n : Nat) : digitsValue (Nat.toDigits 10 n) = n := by
  induction n using Nat.strongRecOn with
  | _ n ih =>
    rcases Nat.lt_or_ge n 10 with hsmall | hbig
    · rw [Nat.toDigits_of_lt_base hsmall, ← List.nil_append [Nat.digitChar n],
        digitsValue_append_singleton, Nat.toNat_digitChar_of_lt_ten hsmall]
      simp [digitsValue]
    · rw [toDigits_of_ge_ten hbig, digitsValue_append_singleton,
        ih (n / 10) (Nat.div_lt_self (by omega) (by decide)),
        Nat.toNat_digitChar_of_lt_ten (Nat.mod_lt n (by decide))]
      omega

theorem toDigits_inj {m n : Nat} (h : Nat.toDigits 10 m = Nat.toDigits 10 n) : m = n := by
  rw [← digitsValue_toDigits m, h, digitsValue_toDigits]

/-- A number below `10 ^ w`, printed and padded to width `w`, is its `w` digits. The induction
takes the last digit off: printing `10 * q + d` prints `q`, then `d`. -/
theorem zeroPad_toDigits {w n : Nat} (hw : 0 < w) (hn : n < 10 ^ w) :
    zeroPad w (Nat.toDigits 10 n) = padDigits w n := by
  induction w generalizing n with
  | zero => omega
  | succ w ih =>
    rcases Nat.lt_or_ge n 10 with hsmall | hbig
    · -- one digit, and zeros in front of it
      rw [Nat.toDigits_of_lt_base hsmall, padDigits, Nat.div_eq_of_lt hsmall, padDigits_zero,
        Nat.mod_eq_of_lt hsmall]
      simp [zeroPad]
    · have hw' : 0 < w := by
        rcases Nat.eq_zero_or_pos w with rfl | hw'
        · omega
        · exact hw'
      have hqlt : n / 10 < 10 ^ w := by
        rw [Nat.div_lt_iff_lt_mul (by decide), ← Nat.pow_succ]
        exact hn
      have hlen : (Nat.toDigits 10 (n / 10)).length ≤ w := Nat.toDigits_length 10 _ w hw' hqlt
      rw [toDigits_of_ge_ten hbig, padDigits, ← ih hw' hqlt]
      simp only [zeroPad, List.length_append, List.length_singleton, List.append_assoc]
      congr 2
      omega

/-- Zeros in front change no value. -/
theorem digitsValue_zeroPad (w : Nat) (s : List Char) :
    digitsValue (zeroPad w s) = digitsValue s := by
  have hzeros : ∀ k, (List.replicate k '0').foldl (fun acc c => 10 * acc + (c.toNat - 48)) 0 =
      0 := by
    intro k
    induction k with
    | zero => rfl
    | succ k ih =>
      rw [List.replicate_succ', List.foldl_append, ih]
      rfl
  unfold zeroPad digitsValue
  rw [List.foldl_append, hzeros]

theorem isDigit_of_mem_zeroPad {w n : Nat} {c : Char} (hc : c ∈ zeroPad w (Nat.toDigits 10 n)) :
    c.isDigit = true := by
  rcases List.mem_append.mp hc with hc | hc
  · rw [(List.mem_replicate.mp hc).2]
    rfl
  · exact Nat.isDigit_of_mem_toDigits (by decide) (by decide) hc

theorem digitChar_lt_digitChar {a b : Nat} (hb : b < 10) (h : a < b) :
    Nat.digitChar a < Nat.digitChar b := by
  rw [Char.lt_def, UInt32.lt_iff_toNat_lt]
  have ha := Nat.toNat_digitChar_of_lt_ten (by omega : a < 10)
  have hb := Nat.toNat_digitChar_of_lt_ten hb
  simp only [Char.toNat] at ha hb
  omega

/-- Padded to one width, the smaller number comes first, whatever follows each. The induction
takes the last digit off: either the leading digits already differ, or they agree and the last
digit decides. -/
theorem padDigits_append_lt {w n m : Nat} (h : n < m) (hm : m < 10 ^ w) (X Y : List Char) :
    padDigits w n ++ X < padDigits w m ++ Y := by
  induction w generalizing n m X Y with
  | zero => omega
  | succ w ih =>
    have hq : m / 10 < 10 ^ w := by
      rw [Nat.div_lt_iff_lt_mul (by decide), ← Nat.pow_succ]
      exact hm
    simp only [padDigits, List.append_assoc, List.singleton_append]
    rcases Nat.lt_or_ge (n / 10) (m / 10) with hlt | hge
    · exact ih hlt hq _ _
    · -- the leading digits agree, so the last digit of `n` is the smaller
      have heq : n / 10 = m / 10 := le_antisymm (Nat.div_le_div_right h.le) hge
      have hd : n % 10 < m % 10 := by omega
      rw [heq]
      apply List.append_left_lt
      rw [List.cons_lt_cons_iff]
      exact Or.inl (digitChar_lt_digitChar (Nat.mod_lt m (by decide)) hd)

/-! ## Fields and separators -/

/-- A field followed by a separator that occurs in neither field: one key starts with the other
exactly when the fields agree and the rest starts with the rest. -/
theorem sep_isPrefix_iff {c : Char} :
    ∀ {a b x y : List Char}, c ∉ a → c ∉ b → ((a ++ c :: x) <+: (b ++ c :: y) ↔ a = b ∧ x <+: y)
  | [], [], x, y, _, _ => by simp [List.cons_prefix_cons]
  | [], d :: b, x, y, _, hb => by
    have hd : c ≠ d := fun h => hb (h ▸ List.mem_cons_self)
    simp [List.cons_prefix_cons, hd]
  | e :: a, [], x, y, ha, _ => by
    have he : e ≠ c := fun h => ha (h ▸ List.mem_cons_self)
    simp [List.cons_prefix_cons, he]
  | e :: a, d :: b, x, y, ha, hb => by
    have ih := @sep_isPrefix_iff c a b x y (fun h => ha (List.mem_cons_of_mem e h))
      (fun h => hb (List.mem_cons_of_mem d h))
    simp only [List.cons_append, List.cons_prefix_cons, ih, List.cons.injEq, and_assoc]

/-- Splitting at a separator, with the empty pieces dropped, takes apart the fields it joined
when none of them is empty or holds it. -/
theorem filter_splitOn_intercalate {α : Type*} [BEq α] [LawfulBEq α] {c : α} {ls : List (List α)}
    (hc : ∀ l ∈ ls, c ∉ l) (hne : ∀ l ∈ ls, l ≠ []) (hls : ls ≠ []) :
    (([c].intercalate ls).splitOn c).filter (fun l => !l.isEmpty) = ls := by
  rw [List.splitOn_intercalate c hc hls]
  apply List.filter_eq_self.mpr
  intro l hl
  simpa using hne l hl

/-- No piece of a split holds the separator. -/
theorem not_mem_of_mem_splitOn {α : Type*} [BEq α] [LawfulBEq α] {c : α} {l piece : List α}
    (h : piece ∈ l.splitOn c) : c ∉ piece := by
  rw [List.splitOn_eq_splitOnP] at h
  induction l generalizing piece with
  | nil =>
    rw [List.splitOnP_nil, List.mem_singleton] at h
    rw [h]
    exact List.not_mem_nil
  | cons x xs ih =>
    rw [List.splitOnP_cons_eq_if_modifyHead] at h
    by_cases hx : (x == c) = true
    · rw [if_pos hx] at h
      rcases List.mem_cons.mp h with rfl | h
      · exact List.not_mem_nil
      · exact ih h
    · -- `x` is no separator: it opens the first piece of the rest
      rw [if_neg hx] at h
      obtain ⟨hd, tl, hsplit⟩ := List.exists_cons_of_ne_nil (List.splitOnP_ne_nil _ xs)
      rw [hsplit, List.modifyHead_cons] at h
      have hhd : c ∉ hd := ih (by rw [hsplit]; exact List.mem_cons_self)
      rcases List.mem_cons.mp h with rfl | h
      · rintro (_ | ⟨_, hc⟩)
        · exact hx (beq_self_eq_true _)
        · exact hhd hc
      · exact ih (by rw [hsplit]; exact List.mem_cons_of_mem _ h)

theorem colon_not_mem_toDigits (n : Nat) : ':' ∉ Nat.toDigits 10 n := fun h => by
  have := Nat.isDigit_of_mem_toDigits (by decide) (by decide) h
  revert this
  decide

theorem colon_not_mem_padDigits (w n : Nat) : ':' ∉ padDigits w n := by
  induction w generalizing n with
  | zero => exact List.not_mem_nil
  | succ w ih =>
    rw [padDigits, List.mem_append, List.mem_singleton, not_or]
    exact ⟨ih _, fun h => Nat.digitChar_ne ':' (by decide) h.symm⟩

/-! ## Seeking a prefix in a sorted store -/

section Seek

variable {P k a b : List Char}

/-- A key that starts with `P` comes before a key not below `P` that does not start with it:
they part where the second leaves `P`, upwards. -/
theorem lt_of_isPrefix_of_not_isPrefix :
    ∀ {P k a : List Char}, P <+: k → ¬ a < P → ¬ P <+: a → k < a
  | [], _, _, _, _, hna => absurd List.nil_prefix hna
  | p :: P, k, [], _, hle, _ => absurd (List.nil_lt_cons p P) hle
  | p :: P, k, q :: a, hk, hle, hna => by
    obtain ⟨k', rfl⟩ : ∃ k', k = p :: k' := by
      obtain ⟨t, rfl⟩ := hk
      exact ⟨P ++ t, rfl⟩
    rw [List.cons_prefix_cons] at hk hna
    rw [List.cons_lt_cons_iff] at hle ⊢
    rcases lt_trichotomy p q with hpq | rfl | hqp
    · exact Or.inl hpq
    · -- the first characters agree: compare the rests
      have hle' : ¬ a < P := fun h => hle (Or.inr ⟨rfl, h⟩)
      exact Or.inr ⟨rfl, lt_of_isPrefix_of_not_isPrefix hk.2 hle' (fun h => hna ⟨rfl, h⟩)⟩
    · exact absurd (Or.inl hqp) hle

theorem not_isPrefix_of_not_lt (hPa : ¬ a < P) (hna : ¬ P <+: a) (hab : ¬ b < a) :
    ¬ P <+: b :=
  fun hb => hab (lt_of_isPrefix_of_not_isPrefix hb hPa hna)

variable {α : Type*} {key : α → List Char}

/-- Past `P`, a sorted list of keys holds the keys that start with `P` first. -/
theorem takeWhile_eq_filter_of_not_lt :
    ∀ {l : List α}, l.Pairwise (fun a b => ¬ key b < key a) → (∀ a ∈ l, ¬ key a < P) →
      l.takeWhile (fun a => P.isPrefixOf (key a)) = l.filter (fun a => P.isPrefixOf (key a))
  | [], _, _ => rfl
  | a :: l, hs, hP => by
    have hrest := (List.pairwise_cons.mp hs).2
    by_cases ha : P <+: key a
    · have ha' : P.isPrefixOf (key a) = true := List.isPrefixOf_iff_prefix.mpr ha
      rw [List.takeWhile_cons, if_pos ha', List.filter_cons, if_pos ha',
        takeWhile_eq_filter_of_not_lt hrest fun b hb => hP b (List.mem_cons_of_mem a hb)]
    · -- the first key past `P` without it: no later key has it
      have ha' : ¬ P.isPrefixOf (key a) = true := fun h => ha (List.isPrefixOf_iff_prefix.mp h)
      rw [List.takeWhile_cons, if_neg ha', List.filter_cons, if_neg ha', eq_comm,
        List.filter_eq_nil_iff]
      intro b hb hpb
      exact not_isPrefix_of_not_lt (hP a List.mem_cons_self) ha
        ((List.pairwise_cons.mp hs).1 b hb) (List.isPrefixOf_iff_prefix.mp hpb)

/-- The seek of a sorted store: skip the keys below `P`, then take keys while they start with
`P`. It visits, in order, exactly the keys that start with `P`. -/
theorem takeWhile_dropWhile_eq_filter :
    ∀ {l : List α}, l.Pairwise (fun a b => ¬ key b < key a) →
      (l.dropWhile fun a => decide (key a < P)).takeWhile (fun a => P.isPrefixOf (key a)) =
        l.filter (fun a => P.isPrefixOf (key a))
  | [], _ => rfl
  | a :: l, hs => by
    by_cases ha : key a < P
    · -- a key below `P` does not start with it
      have hna : ¬ P.isPrefixOf (key a) = true := fun h =>
        (List.isPrefixOf_iff_prefix.mp h).le ha
      rw [List.dropWhile_cons, if_pos (decide_eq_true ha), List.filter_cons, if_neg hna]
      exact takeWhile_dropWhile_eq_filter (List.pairwise_cons.mp hs).2
    · rw [List.dropWhile_cons, if_neg (by simpa using ha)]
      refine takeWhile_eq_filter_of_not_lt hs fun b hb => ?_
      rcases List.mem_cons.mp hb with rfl | hb
      · exact ha
      · -- `b` is not below `a`, which is not below `P`
        intro hbP
        rcases List.le_iff_lt_or_eq.mp ((List.pairwise_cons.mp hs).1 b hb) with hab | hab
        · exact ha (List.lt_trans hab hbP)
        · exact ha (hab ▸ hbP)

end Seek

end DingoFs.Lib
