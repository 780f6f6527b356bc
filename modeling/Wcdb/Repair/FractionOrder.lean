import Wcdb.Repair.Fraction

/-!
# The order of the scores

`operator<` compares the cross products of two fractions, each reduced beforehand, and nothing
scales them down. `less_correct_iff`: the comparison is that of the rational numbers if the two
products wrap around equally often, in particular not at all, or if they happen to stay in order.
-/

namespace Wcdb.Repair

/-- A product in wrapping arithmetic. -/
def wrap (z : ℤ) : ℤ :=
  (z + 9223372036854775808) % 18446744073709551616 - 9223372036854775808

/-- How often it wraps. -/
def wraps (z : ℤ) : ℤ :=
  (z + 9223372036854775808) / 18446744073709551616

theorem wrap_eq (z : ℤ) : wrap z = z - 18446744073709551616 * wraps z := by
  rw [wrap, wraps]
  omega

theorem wraps_mono {a b : ℤ} (h : a ≤ b) : wraps a ≤ wraps b := by
  rw [wraps, wraps]
  omega

/-- Two products stay in order. -/
def KeepOrder (a b : ℤ) : Prop :=
  wraps a = wraps b ∨ wraps a < wraps b ∧ wrap a < wrap b ∨ wraps b < wraps a ∧ wrap b < wrap a

theorem wrap_lt_wrap_iff (a b : ℤ) :
    ((wrap a < wrap b ↔ a < b) ∧ (wrap b < wrap a ↔ b < a)) ↔ KeepOrder a b := by
  rw [KeepOrder, wrap_eq, wrap_eq]
  rcases lt_trichotomy a b with hlt | rfl | hgt
  · have hmono := wraps_mono hlt.le
    omega
  · simp
  · have hmono := wraps_mono hgt.le
    omega

namespace Fraction

/-- `operator<`. -/
def less (x y : Fraction) : Bool :=
  let gcd1 := euclidean x.numerator y.numerator
  let gcd2 := euclidean x.denominator y.denominator
  decide (wrap (x.numerator.tdiv gcd1 * y.denominator.tdiv gcd2) <
    wrap (x.denominator.tdiv gcd2 * y.numerator.tdiv gcd1))

/-- `std::max`. -/
def larger (x y : Fraction) : Fraction := if less x y then y else x

/-- A numerator that is not negative over a positive denominator, both of `int64_t`. -/
structure Nonneg (x : Fraction) : Prop where
  numerator : 0 ≤ x.numerator
  denominator : 0 < x.denominator
  fits : x.numerator ≤ maxInt64
  fits' : x.denominator ≤ maxInt64

/-- What `operator<` multiplies on the side of the numerator of `x`. -/
def cross (x y : Fraction) : ℤ :=
  x.numerator / Int.gcd x.numerator y.numerator *
    (y.denominator / Int.gcd x.denominator y.denominator)

variable {x y z : Fraction}

theorem tdiv_euclidean {a b : ℤ} (ha : 0 ≤ a) (hb : 0 ≤ b) :
    a.tdiv (euclidean a b) = a / Int.gcd a b ∧ b.tdiv (euclidean a b) = b / Int.gcd a b := by
  lift a to ℕ using ha
  lift b to ℕ using hb
  by_cases h : a ≠ 0 ∨ b ≠ 0
  · rw [euclidean_natCast a b h, Int.natCast_tdiv_eq_ediv, Int.natCast_tdiv_eq_ediv,
      Int.gcd_natCast_natCast]
    exact ⟨rfl, rfl⟩
  · obtain ⟨rfl, rfl⟩ : a = 0 ∧ b = 0 := by omega
    simp

theorem less_iff (hx : x.Nonneg) (hy : y.Nonneg) :
    less x y = true ↔ wrap (cross x y) < wrap (cross y x) := by
  obtain ⟨hnx, hny⟩ := tdiv_euclidean hx.numerator hy.numerator
  obtain ⟨hdx, hdy⟩ := tdiv_euclidean hx.denominator.le hy.denominator.le
  rw [less, hnx, hny, hdx, hdy, cross, cross, Int.gcd_comm y.numerator, Int.gcd_comm y.denominator,
    mul_comm (y.numerator / _), decide_eq_true_iff]

/-- The cross products are in the order of the values. -/
theorem cross_lt_cross_iff (hx : x.Nonneg) (hy : y.Nonneg) :
    cross x y < cross y x ↔ x.value < y.value := by
  have hdx : (0 : ℚ) < x.denominator := Int.cast_pos.mpr hx.denominator
  have hdy : (0 : ℚ) < y.denominator := Int.cast_pos.mpr hy.denominator
  rw [value, value, div_lt_div_iff₀ hdx hdy, ← Int.cast_mul, ← Int.cast_mul, Int.cast_lt,
    cross, cross, Int.gcd_comm y.numerator, Int.gcd_comm y.denominator]
  have hg2 : (0 : ℤ) < Int.gcd x.denominator y.denominator := by
    exact_mod_cast Int.gcd_pos_of_ne_zero_left _ hx.denominator.ne'
  obtain ⟨c, hc⟩ := Int.gcd_dvd_left x.denominator y.denominator
  obtain ⟨d, hd⟩ := Int.gcd_dvd_right x.denominator y.denominator
  obtain ⟨a, ha⟩ := Int.gcd_dvd_left x.numerator y.numerator
  obtain ⟨b, hb⟩ := Int.gcd_dvd_right x.numerator y.numerator
  generalize (Int.gcd x.denominator y.denominator : ℤ) = g2 at hg2 hc hd ⊢
  rcases (Nat.zero_le (Int.gcd x.numerator y.numerator)).eq_or_lt with hzero | hg1
  · rw [← hzero, Nat.cast_zero, zero_mul] at ha hb
    simp [ha, hb]
  · have hg1 : (0 : ℤ) < Int.gcd x.numerator y.numerator := by exact_mod_cast hg1
    generalize (Int.gcd x.numerator y.numerator : ℤ) = g1 at hg1 ha hb ⊢
    rw [ha, hb, hc, hd, Int.mul_ediv_cancel_left a hg1.ne', Int.mul_ediv_cancel_left b hg1.ne',
      Int.mul_ediv_cancel_left c hg2.ne', Int.mul_ediv_cancel_left d hg2.ne',
      show g1 * a * (g2 * d) = g1 * g2 * (a * d) by ring,
      show g1 * b * (g2 * c) = g1 * g2 * (b * c) by ring,
      mul_lt_mul_iff_right₀ (Int.mul_pos hg1 hg2)]

/-- The comparison of two fractions, both ways, and the choice between them. -/
structure Ordered (x y : Fraction) : Prop where
  less : less x y = true ↔ x.value < y.value
  greater : Fraction.less y x = true ↔ y.value < x.value
  larger : (larger x y).value = max x.value y.value

theorem value_larger (h : less x y = true ↔ x.value < y.value) :
    (larger x y).value = max x.value y.value := by
  rw [larger]
  split_ifs with hless
  · exact (max_eq_right (h.mp hless).le).symm
  · exact (max_eq_left (not_lt.mp fun hlt => hless (h.mpr hlt))).symm

theorem ordered_iff (hx : x.Nonneg) (hy : y.Nonneg) :
    Ordered x y ↔ KeepOrder (cross x y) (cross y x) := by
  rw [← wrap_lt_wrap_iff, cross_lt_cross_iff hx hy, cross_lt_cross_iff hy hx, ← less_iff hx hy,
    ← less_iff hy hx]
  exact ⟨fun h => ⟨h.less, h.greater⟩, fun h => ⟨h.1, h.2, value_larger h.1⟩⟩

/-- **Score comparison is the order of the rational numbers if the cross products keep it.** -/
theorem less_correct_iff (x y : Fraction) (scores : Set Fraction) :
    (x.Nonneg → y.Nonneg → (Ordered x y ↔ KeepOrder (cross x y) (cross y x))) ∧
    ((∀ x ∈ scores, x.Nonneg) →
      (∀ x ∈ scores, ∀ y ∈ scores, KeepOrder (cross x y) (cross y x)) →
      (∀ x ∈ scores, less x x = false) ∧
      (∀ x ∈ scores, ∀ y ∈ scores, ∀ z ∈ scores, less x y = true → less y z = true →
        less x z = true) ∧
      ∀ x ∈ scores, ∀ y ∈ scores, less x y = false ∧ less y x = false ↔ x.value = y.value) := by
  refine ⟨fun hx hy => ordered_iff hx hy, fun hnonneg hkeep => ?_⟩
  have hordered {x y : Fraction} (hx : x ∈ scores) (hy : y ∈ scores) : Ordered x y :=
    (ordered_iff (hnonneg x hx) (hnonneg y hy)).mpr (hkeep x hx y hy)
  refine ⟨fun x hx => ?_, fun x hx y hy z hz hxy hyz => ?_, fun x hx y hy => ?_⟩
  · exact Bool.eq_false_iff.mpr fun h => lt_irrefl _ ((hordered hx hx).less.mp h)
  · exact (hordered hx hz).less.mpr
      (((hordered hx hy).less.mp hxy).trans ((hordered hy hz).less.mp hyz))
  · rw [← Bool.not_eq_true, ← Bool.not_eq_true, (hordered hx hy).less, (hordered hx hy).greater,
      not_lt, not_lt]
    exact ⟨fun h => le_antisymm h.2 h.1, fun h => ⟨h.ge, h.le⟩⟩

theorem less_correct_third :
    (Ordered ⟨1, 3⟩ ⟨1, 2⟩ ↔ KeepOrder (cross ⟨1, 3⟩ ⟨1, 2⟩) (cross ⟨1, 2⟩ ⟨1, 3⟩)) ∧
      ∀ x ∈ ({⟨1, 3⟩} : Set Fraction), less x x = false :=
  have h := less_correct_iff ⟨1, 3⟩ ⟨1, 2⟩ {⟨1, 3⟩}
  ⟨h.1 ⟨by decide, by decide, by decide, by decide⟩ ⟨by decide, by decide, by decide, by decide⟩,
    (h.2 (fun _ hx => hx ▸ ⟨by decide, by decide, by decide, by decide⟩)
      fun _ hx _ hy => hx ▸ hy ▸ .inl rfl).1⟩

/-- A score of almost one is taken to be less than a score of almost zero, and is given up. -/
theorem less_wraps :
    Nonneg ⟨3999999999, 4000000000⟩ ∧ Nonneg ⟨1, 4000000001⟩ ∧
      value ⟨1, 4000000001⟩ < value ⟨3999999999, 4000000000⟩ ∧
      less ⟨3999999999, 4000000000⟩ ⟨1, 4000000001⟩ = true ∧
      larger ⟨3999999999, 4000000000⟩ ⟨1, 4000000001⟩ = ⟨1, 4000000001⟩ := by
  have hx : Nonneg ⟨3999999999, 4000000000⟩ := ⟨by decide, by decide, by decide, by decide⟩
  have hy : Nonneg ⟨1, 4000000001⟩ := ⟨by decide, by decide, by decide, by decide⟩
  have hless : less ⟨3999999999, 4000000000⟩ ⟨1, 4000000001⟩ = true :=
    (less_iff hx hy).mpr (by decide +kernel)
  exact ⟨hx, hy, by norm_num [value], hless, if_pos hless⟩

end Fraction

end Wcdb.Repair
