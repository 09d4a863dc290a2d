import Mathlib.Algebra.Order.Floor.Div
import Mathlib.Order.Interval.Finset.Nat
import Mathlib.SetTheory.Cardinal.Finite
import OrderRail.Random.Draw

/-!
# Draws and wide products

A draw below a bound looks at one word, and at a second one only where that can change the result.
It gives what it would give with both words all the time: they are one number of twice the length,
and the draw is the high half of its product with the bound. So a draw stays below the bound, and
the pairs of words are dealt out to the possible results as evenly as their number allows.
-/

namespace OrderRail.Words

/-- Two words as one number, the first one in its high half. -/
def wide (first second : UInt32) : Nat := first.toNat * range + second.toNat

/-- What two words give below a bound: the high half of the product of all their digits with it. -/
def scaled (bound : Nat) (first second : UInt32) : Nat :=
  wide first second * bound / (range * range)

/-- A stream that starts with two given words. -/
def starting (first second : UInt32) : Words :=
  fresh fun position => if position = 0 then first else second

/-- A word is below the number of its values. -/
theorem toNat_lt_range (word : UInt32) : word.toNat < range := word.toNat_lt

/-- Two words make a number below the square of the number of their values. -/
theorem wide_lt (first second : UInt32) : wide first second < range * range := by
  have hfirst := toNat_lt_range first
  have hsecond := toNat_lt_range second
  simp only [wide, range] at *
  omega

/-- Different pairs of words make different numbers. -/
theorem wide_inj {first second other another : UInt32}
    (h : wide first second = wide other another) : first = other ∧ second = another := by
  have hsecond := toNat_lt_range second
  have hanother := toNat_lt_range another
  simp only [wide, range] at *
  exact ⟨UInt32.toNat_inj.mp (by omega), UInt32.toNat_inj.mp (by omega)⟩

/-- Every number below the square of the number of values is made by a pair of words. -/
theorem exists_wide {n : Nat} (h : n < range * range) :
    ∃ first second, wide first second = n := by
  have hfirst : n / range < UInt32.size := Nat.div_lt_of_lt_mul h
  have hsecond : n % range < UInt32.size := Nat.mod_lt _ (by decide)
  refine ⟨.ofNat (n / range), .ofNat (n % range), ?_⟩
  rw [wide, UInt32.toNat_ofNat_of_lt' hfirst, UInt32.toNat_ofNat_of_lt' hsecond]
  exact Nat.div_add_mod' n range

/-- The high half of a wide product, put together from the product with the first word and from what
the product with the second word carries over. -/
theorem scaled_eq (bound : Nat) (first second : UInt32) :
    scaled bound first second = bound * first.toNat / range +
      (bound * first.toNat % range + bound * second.toNat / range) / range := by
  have hpos : 0 < range := by decide
  have hsplit : wide first second * bound =
      range * (bound * first.toNat) + bound * second.toNat := by
    rw [wide, Nat.add_mul, Nat.mul_comm _ range, Nat.mul_assoc, Nat.mul_comm _ bound,
      Nat.mul_comm _ bound]
  calc scaled bound first second
      = (range * (bound * first.toNat) + bound * second.toNat) / range / range := by
        rw [scaled, hsplit, Nat.div_div_eq_div_mul]
    _ = (bound * first.toNat + bound * second.toNat / range) / range := by
        rw [Nat.mul_add_div hpos]
    _ = (range * (bound * first.toNat / range) +
          (bound * first.toNat % range + bound * second.toNat / range)) / range := by
        rw [← Nat.add_assoc, Nat.div_add_mod]
    _ = bound * first.toNat / range +
          (bound * first.toNat % range + bound * second.toNat / range) / range := by
        rw [Nat.mul_add_div hpos]

/-- A low half that is at most `range - bound` leaves room for whatever a second word can carry
into it. -/
theorem add_carry_lt {bound low : Nat} (h : bound ≤ range) (short : low ≤ range - bound)
    (hlow : low < range) (second : UInt32) : low + bound * second.toNat / range < range := by
  rcases Nat.eq_zero_or_pos bound with rfl | hbound
  · simpa using hlow
  · have hcarry : bound * second.toNat / range < bound :=
      Nat.div_lt_of_lt_mul (Nat.mul_comm range bound ▸
        (Nat.mul_lt_mul_left hbound).mpr (toNat_lt_range second))
    omega

/-- What two words give is the high half of the product with the first one, or one more: that is so
exactly if the low half is above `range - bound` and the product with the second word carries out of
it. -/
theorem scaled_eq_add_carry {bound : Nat} (h : bound ≤ range) (first second : UInt32) :
    scaled bound first second = bound * first.toNat / range +
      if range - bound < bound * first.toNat % range ∧
          range ≤ bound * first.toNat % range + bound * second.toNat / range then 1 else 0 := by
  have hlow : bound * first.toNat % range < range := Nat.mod_lt _ (by decide)
  have hsecond : bound * second.toNat / range < range :=
    Nat.div_lt_of_lt_mul (Nat.mul_lt_mul_of_le_of_lt h (toNat_lt_range second) (by decide))
  rw [scaled_eq]
  congr 1
  split
  · next carries => exact Nat.div_eq_of_lt_le (by omega) (by omega)
  · next stays =>
    have hsum : bound * first.toNat % range + bound * second.toNat / range < range := by
      by_contra overflow
      have long : range - bound < bound * first.toNat % range := by
        by_contra short
        exact overflow (add_carry_lt h (not_lt.mp short) hlow second)
      exact stays ⟨long, not_lt.mp overflow⟩
    exact Nat.div_eq_of_lt hsum

/-- A draw is what the next two words give, whether or not the second one is looked at. One word is
used, or two if the low half of the product with the first one is above `range - bound`. -/
theorem below_eq {bound : Nat} (h : bound ≤ range) (words : Words) :
    words.below bound = (scaled bound (words.peek 0) (words.peek 1),
      words.drop (if range - bound < bound * (words.peek 0).toNat % range then 2 else 1)) := by
  rw [scaled_eq, below]
  by_cases long : range - bound < bound * (words.peek 0).toNat % range
  · simp only [if_pos long]
  · have hcarry := add_carry_lt h (not_lt.mp long) (Nat.mod_lt _ (by decide)) (words.peek 1)
    simp only [if_neg long, Nat.div_eq_of_lt hcarry, Nat.add_zero]

/-- Two words give a number below the bound. -/
theorem scaled_lt {bound : Nat} (h : 0 < bound) (first second : UInt32) :
    scaled bound first second < bound :=
  Nat.div_lt_of_lt_mul ((Nat.mul_lt_mul_right h).mpr (wide_lt first second))

/-- The numbers that are scaled to a result are those between two others. -/
theorem scaled_eq_iff {bound : Nat} (h : 0 < bound) (first second : UInt32) (result : Nat) :
    scaled bound first second = result ↔
      wide first second ∈ Finset.Ico (result * (range * range) ⌈/⌉ bound)
        ((result + 1) * (range * range) ⌈/⌉ bound) := by
  rw [Finset.mem_Ico, ceilDiv_le_iff_le_mul h, ← not_le, ceilDiv_le_iff_le_mul h, not_le, scaled,
    Nat.div_eq_iff (by decide), Nat.mul_comm bound]
  have hpos : 0 < range * range := by decide
  rw [Nat.succ_mul, Nat.le_sub_one_iff_lt (by omega)]

/-- Between the multiples of a number, divided by a bound, there are as many numbers as the quotient
says, or one more. -/
theorem card_Ico_ceilDiv {bound : Nat} (h : 0 < bound) (n result : Nat) :
    (Finset.Ico (result * n ⌈/⌉ bound) ((result + 1) * n ⌈/⌉ bound)).card = n / bound ∨
      (Finset.Ico (result * n ⌈/⌉ bound) ((result + 1) * n ⌈/⌉ bound)).card = n / bound + 1 := by
  have hquotient : bound * (n / bound) ≤ n := Nat.mul_div_le n bound
  have hnext : n < bound * (n / bound + 1) := Nat.lt_mul_div_succ n h
  generalize n / bound = quotient at hquotient hnext ⊢
  have hfirst : result * n ≤ bound * (result * n ⌈/⌉ bound) := (ceilDiv_le_iff_le_mul h).mp le_rfl
  have hlast : result * n + n ≤ bound * ((result + 1) * n ⌈/⌉ bound) :=
    Nat.succ_mul result n ▸ (ceilDiv_le_iff_le_mul h).mp le_rfl
  have hupper : (result + 1) * n ⌈/⌉ bound ≤ result * n ⌈/⌉ bound + (quotient + 1) := by
    rw [ceilDiv_le_iff_le_mul h, Nat.succ_mul, Nat.mul_add]
    omega
  have hreach : quotient ≤ (result + 1) * n ⌈/⌉ bound := Nat.le_of_mul_le_mul_left (by omega) h
  have hlower : result * n ⌈/⌉ bound ≤ (result + 1) * n ⌈/⌉ bound - quotient := by
    rw [ceilDiv_le_iff_le_mul h, Nat.mul_sub]
    omega
  rw [Nat.card_Ico]
  omega

/-- The pairs of words that give a result below a bound are as many as the number of all pairs,
divided by the bound, or one more. -/
theorem card_scaled_eq {bound : Nat} (h : 0 < bound) {result : Nat} (hresult : result < bound) :
    Nat.card { pair : UInt32 × UInt32 // scaled bound pair.1 pair.2 = result } =
        range * range / bound ∨
      Nat.card { pair : UInt32 × UInt32 // scaled bound pair.1 pair.2 = result } =
        range * range / bound + 1 := by
  have hcard : Nat.card { pair : UInt32 × UInt32 // scaled bound pair.1 pair.2 = result } =
      (Finset.Ico (result * (range * range) ⌈/⌉ bound)
        ((result + 1) * (range * range) ⌈/⌉ bound)).card := by
    rw [← Nat.card_eq_finsetCard]
    refine Nat.card_congr (Equiv.ofBijective (fun pair =>
      ⟨wide pair.1.1 pair.1.2, (scaled_eq_iff h _ _ _).mp pair.2⟩) ⟨?_, ?_⟩)
    · intro pair other heq
      obtain ⟨hfirst, hsecond⟩ := wide_inj (Subtype.mk.inj heq)
      exact Subtype.ext (Prod.ext hfirst hsecond)
    · intro ⟨n, hn⟩
      have hlast : (result + 1) * (range * range) ⌈/⌉ bound ≤ range * range := by
        rw [ceilDiv_le_iff_le_mul h]
        exact Nat.mul_le_mul_right _ hresult
      obtain ⟨first, second, rfl⟩ := exists_wide ((Finset.mem_Ico.mp hn).2.trans_le hlast)
      exact ⟨⟨(first, second), (scaled_eq_iff h _ _ _).mpr hn⟩, rfl⟩
  rw [hcard]
  exact card_Ico_ceilDiv h _ _

end OrderRail.Words
