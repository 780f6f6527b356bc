import Mathlib.Algebra.Order.BigOperators.Group.List
import Mathlib.Algebra.Order.Field.Basic
import Mathlib.Algebra.Order.Field.Rat
import Mathlib.Data.Int.GCD
import Mathlib.Data.List.Perm.Subperm
import Mathlib.Data.Nat.Cast.Field
import Mathlib.Tactic.FieldSimp
import Mathlib.Tactic.Linarith
import Mathlib.Tactic.NormNum
import Mathlib.Tactic.Positivity
import Mathlib.Tactic.Ring

/-!
# The fractions of a score

A score is a fraction with two components of 64 bits. Sums and products are brought to a common
denominator, and the denominator is scaled down where it would not fit. Signed overflow is
undefined in C++, and so is a division by zero, so the operations have no result then.

`plusAssign_correct_iff` says when a sum has one: the numerator over the common denominator must
fit, which nothing checks. A sum is exact whenever the least common denominator fits, and a score
that is accumulated from such weights is at most one.
-/

namespace Wcdb.Repair

/-- `std::numeric_limits<int64_t>::max()`. -/
def maxInt64 : ℤ := 9223372036854775807

/-- The result of an operation on `int64_t`, if it can be represented. -/
def int64 (z : ℤ) : Option ℤ :=
  if -maxInt64 - 1 ≤ z ∧ z ≤ maxInt64 then some z else none

/-- `a / b`. -/
def quotient (a b : ℤ) : Option ℤ :=
  if b = 0 then none else int64 (a.tdiv b)

structure Fraction where
  numerator : ℤ := 0
  denominator : ℤ := 1
  deriving DecidableEq, Repr

namespace Fraction

/-- The loop has `(a, b) = (b, a % b)`, and stops when `b` is zero. -/
def euclidean (a b : ℤ) : ℤ :=
  if b = 0 then if a = 0 then 1 else a else euclidean b (a.tmod b)
termination_by b.natAbs
decreasing_by
  rw [Int.natAbs_tmod]
  exact Nat.mod_lt _ (Int.natAbs_pos.mpr ‹_›)

def reduce (f : Fraction) : Option Fraction :=
  let gcd := euclidean f.numerator f.denominator
  if gcd > 1 then do
    let numerator ← quotient f.numerator gcd
    let denominator ← quotient f.denominator gcd
    return ⟨numerator, denominator⟩
  else
    return f

/-- By how much `b` has to be divided so that its product with `a` fits. -/
def limitNumber (a b : ℤ) : Option ℤ := do
  let a ← int64 |a|
  let b ← int64 |b|
  let maxB ← quotient maxInt64 a
  if maxB < b then
    let limit ← quotient b maxB
    int64 (limit + if b.tmod maxB > 0 then 1 else 0)
  else
    return 1

/-- `operator+=`. -/
def plusAssign (f operand : Fraction) : Option Fraction := do
  if f.denominator = operand.denominator then
    let numerator ← int64 (f.numerator + operand.numerator)
    reduce ⟨numerator, f.denominator⟩
  else
    let gcd := euclidean f.denominator operand.denominator
    let denominator ← quotient operand.denominator gcd
    let limit ← limitNumber f.denominator denominator
    let gcd ← int64 (gcd * limit)
    let denominator ← quotient denominator limit
    let scale ← quotient operand.denominator gcd
    let own ← int64 (scale * f.numerator)
    let scale ← quotient f.denominator gcd
    let other ← int64 (scale * operand.numerator)
    let numerator ← int64 (own + other)
    let denominator ← int64 (f.denominator * denominator)
    reduce ⟨numerator, denominator⟩

/-- `operator*`. -/
def times (f operand : Fraction) : Option Fraction := do
  let gcd1 := euclidean f.numerator operand.denominator
  let gcd2 := euclidean operand.numerator f.denominator
  let denominator1 ← quotient f.denominator gcd2
  let denominator2 ← quotient operand.denominator gcd1
  let limit ← limitNumber denominator1 denominator2
  let gcd2 ← int64 (gcd2 * limit)
  let denominator1 ← quotient denominator1 limit
  let own ← quotient f.numerator gcd1
  let other ← quotient operand.numerator gcd2
  let numerator ← int64 (own * other)
  let denominator ← int64 (denominator1 * denominator2)
  return ⟨numerator, denominator⟩

/-- The number that a fraction stands for. -/
def value (f : Fraction) : ℚ := f.numerator / f.denominator

/-- A value between zero and one, over a positive `int64_t`. -/
structure InUnit (f : Fraction) : Prop where
  nonneg : 0 ≤ f.numerator
  le : f.numerator ≤ f.denominator
  pos : 0 < f.denominator
  fits : f.denominator ≤ maxInt64

/-! ### The operations on natural numbers -/

theorem int64_natCast {n : ℕ} (h : (n : ℤ) ≤ maxInt64) : int64 n = some (n : ℤ) := by
  have hmax : (0 : ℤ) ≤ maxInt64 := by decide
  exact if_pos ⟨by omega, h⟩

theorem int64_eq_none {n : ℕ} (h : ¬(n : ℤ) ≤ maxInt64) : int64 n = none :=
  if_neg fun hn => h hn.2

theorem quotient_natCast {a b : ℕ} (hb : b ≠ 0) (ha : (a : ℤ) ≤ maxInt64) :
    quotient a b = some ((a / b : ℕ) : ℤ) := by
  have hle : ((a / b : ℕ) : ℤ) ≤ maxInt64 := by
    have : a / b ≤ a := Nat.div_le_self a b
    omega
  rw [quotient, if_neg (Int.natCast_ne_zero.mpr hb), ← Int.ofNat_tdiv, int64_natCast hle]

theorem euclidean_natCast (a b : ℕ) (h : a ≠ 0 ∨ b ≠ 0) :
    euclidean a b = (Nat.gcd a b : ℤ) := by
  induction b using Nat.strong_induction_on generalizing a with
  | _ b ih =>
    rw [euclidean]
    rcases Nat.eq_zero_or_pos b with rfl | hb
    · have ha : a ≠ 0 := by simpa using h
      rw [if_pos Nat.cast_zero, if_neg (Int.natCast_ne_zero.mpr ha), Nat.gcd_zero_right]
    · rw [if_neg (Int.natCast_ne_zero.mpr hb.ne'), ← Int.ofNat_tmod,
        ih (a % b) (Nat.mod_lt a hb) b (.inl hb.ne'), Nat.gcd_comm a b, Nat.gcd_rec b a,
        Nat.gcd_comm]

/-- What `limitNumber` computes. -/
def limit (a b : ℕ) : ℕ :=
  if 9223372036854775807 / a < b then
    b / (9223372036854775807 / a) + if b % (9223372036854775807 / a) > 0 then 1 else 0
  else 1

theorem limit_spec {a b : ℕ} (ha : a ≠ 0) (ha' : (a : ℤ) ≤ maxInt64) (hb : 0 < b) :
    0 < limit a b ∧ limit a b ≤ b ∧ b ≤ limit a b * (9223372036854775807 / a) := by
  have hpos : 0 < 9223372036854775807 / a := by
    have hmax : maxInt64 = ((9223372036854775807 : ℕ) : ℤ) := rfl
    rw [hmax] at ha'
    exact Nat.div_pos (by omega) (by omega)
  rw [limit]
  generalize 9223372036854775807 / a = maxB at hpos
  have hdiv := Nat.div_add_mod b maxB
  have hle : b / maxB ≤ maxB * (b / maxB) := Nat.le_mul_of_pos_left _ hpos
  have hmod := Nat.mod_lt b hpos
  split_ifs with hlt hrem
  · have hone : 0 < b / maxB := Nat.div_pos hlt.le hpos
    refine ⟨by omega, by omega, ?_⟩
    rw [Nat.add_mul, Nat.mul_comm (b / maxB), Nat.one_mul]
    omega
  · have hone : 0 < b / maxB := Nat.div_pos hlt.le hpos
    refine ⟨by omega, by omega, ?_⟩
    rw [Nat.add_zero, Nat.mul_comm (b / maxB)]
    omega
  · exact ⟨Nat.one_pos, hb, by omega⟩

theorem limit_eq_one {a b : ℕ} (ha : a ≠ 0) (h : ((a * b : ℕ) : ℤ) ≤ maxInt64) : limit a b = 1 := by
  have hmax : maxInt64 = ((9223372036854775807 : ℕ) : ℤ) := rfl
  rw [hmax, Nat.cast_le] at h
  refine if_neg (not_lt.mpr ((Nat.le_div_iff_mul_le (Nat.pos_of_ne_zero ha)).mpr ?_))
  rwa [Nat.mul_comm]

theorem limitNumber_natCast {a b : ℕ} (ha : a ≠ 0) (ha' : (a : ℤ) ≤ maxInt64) (hb : 0 < b)
    (hb' : (b : ℤ) ≤ maxInt64) : limitNumber a b = some (limit a b : ℤ) := by
  have hmax : maxInt64 = ((9223372036854775807 : ℕ) : ℤ) := rfl
  have hq : quotient maxInt64 a = some ((9223372036854775807 / a : ℕ) : ℤ) := by
    rw [hmax]
    exact quotient_natCast ha le_rfl
  have hpos : 9223372036854775807 / a ≠ 0 := by
    rw [hmax] at ha'
    exact (Nat.div_pos (by omega) (by omega)).ne'
  obtain ⟨-, hle, -⟩ := limit_spec ha ha' hb
  have hfits : ((limit a b : ℕ) : ℤ) ≤ maxInt64 := by omega
  simp only [limitNumber, Nat.abs_cast, int64_natCast ha', int64_natCast hb', hq,
    Option.bind_eq_bind, Option.bind_some, Nat.cast_lt]
  rw [limit] at hfits ⊢
  generalize 9223372036854775807 / a = maxB at hpos hfits
  by_cases hlt : maxB < b
  · rw [if_pos hlt] at hfits ⊢
    rw [if_pos hlt, quotient_natCast hpos hb', Option.bind_some, ← Int.ofNat_tmod]
    have hcast : (((b / maxB : ℕ) : ℤ) + if ((b % maxB : ℕ) : ℤ) > 0 then 1 else 0) =
        ((b / maxB + if b % maxB > 0 then 1 else 0 : ℕ) : ℤ) := by
      push_cast
      simp only [gt_iff_lt, ← Nat.cast_pos (α := ℤ)]
      rfl
    rw [hcast, int64_natCast hfits]
  · rw [if_neg hlt, if_neg hlt]
    rfl

theorem reduce_natCast {n d : ℕ} (hd : 0 < d) (hn : (n : ℤ) ≤ maxInt64) (hd' : (d : ℤ) ≤ maxInt64) :
    reduce ⟨n, d⟩ = some ⟨((n / Nat.gcd n d : ℕ) : ℤ), ((d / Nat.gcd n d : ℕ) : ℤ)⟩ := by
  have hpos : 0 < Nat.gcd n d := Nat.gcd_pos_of_pos_right n hd
  rw [reduce, euclidean_natCast n d (.inr hd.ne')]
  split_ifs with hgcd
  · rw [quotient_natCast hpos.ne' hn, quotient_natCast hpos.ne' hd']
    rfl
  · have hone : Nat.gcd n d = 1 := by
      rw [gt_iff_lt, Nat.one_lt_cast] at hgcd
      omega
    rw [hone, Nat.div_one, Nat.div_one]
    rfl

/-! ### Sums -/

/-- What both denominators are divided by: their greatest common divisor, times the limit. -/
def scale (d₁ d₂ : ℕ) : ℕ := Nat.gcd d₁ d₂ * limit d₁ (d₂ / Nat.gcd d₁ d₂)

/-- The numerator of the sum of `n₁ / d₁` and `n₂ / d₂`, before it is reduced. -/
def sumNumerator (n₁ d₁ n₂ d₂ : ℕ) : ℕ :=
  if d₁ = d₂ then n₁ + n₂ else d₂ / scale d₁ d₂ * n₁ + d₁ / scale d₁ d₂ * n₂

def sumDenominator (d₁ d₂ : ℕ) : ℕ :=
  if d₁ = d₂ then d₁ else d₁ * (d₂ / scale d₁ d₂)

variable {n₁ d₁ n₂ d₂ : ℕ}

/-- Neither product overflows, and the denominator does not vanish. -/
theorem scale_spec (hd₁ : 0 < d₁) (hd₂ : 0 < d₂) (hd₁' : (d₁ : ℤ) ≤ maxInt64) :
    0 < scale d₁ d₂ ∧ scale d₁ d₂ ≤ d₂ ∧ 0 < d₂ / scale d₁ d₂ ∧
      ((d₁ * (d₂ / scale d₁ d₂) : ℕ) : ℤ) ≤ maxInt64 ∧
      ((d₁ / scale d₁ d₂ * d₂ : ℕ) : ℤ) ≤ maxInt64 := by
  have hmax : maxInt64 = ((9223372036854775807 : ℕ) : ℤ) := rfl
  have hgcd : 0 < Nat.gcd d₁ d₂ := Nat.gcd_pos_of_pos_left d₂ hd₁
  obtain ⟨b, hb⟩ := Nat.gcd_dvd_right d₁ d₂
  have hdiv : d₂ / Nat.gcd d₁ d₂ = b := Nat.div_eq_of_eq_mul_right hgcd hb
  have hbpos : 0 < b := Nat.pos_of_ne_zero fun h => hd₂.ne' (by rw [hb, h, Nat.mul_zero])
  obtain ⟨hlimit, hle, hbound⟩ := limit_spec hd₁.ne' hd₁' hbpos
  rw [scale, hdiv]
  have hwhole : d₁ * (9223372036854775807 / d₁) ≤ 9223372036854775807 := Nat.mul_div_le _ _
  generalize limit d₁ b = l at hlimit hle hbound
  generalize 9223372036854775807 / d₁ = maxB at hbound hwhole
  have hscale : Nat.gcd d₁ d₂ * l ≤ d₂ := by
    calc Nat.gcd d₁ d₂ * l ≤ Nat.gcd d₁ d₂ * b := Nat.mul_le_mul_left _ hle
      _ = d₂ := hb.symm
  have hpos : 0 < Nat.gcd d₁ d₂ * l := Nat.mul_pos hgcd hlimit
  refine ⟨hpos, hscale, Nat.div_pos hscale hpos, ?_, ?_⟩
  · rw [← Nat.div_div_eq_div_mul, hdiv, hmax, Nat.cast_le]
    exact (Nat.mul_le_mul_left d₁ (Nat.div_le_of_le_mul hbound)).trans hwhole
  · rw [hmax, Nat.cast_le]
    calc d₁ / (Nat.gcd d₁ d₂ * l) * d₂
        = d₁ / (Nat.gcd d₁ d₂ * l) * (Nat.gcd d₁ d₂ * b) := by rw [← hb]
      _ ≤ d₁ / (Nat.gcd d₁ d₂ * l) * (Nat.gcd d₁ d₂ * (l * maxB)) := by gcongr
      _ = d₁ / (Nat.gcd d₁ d₂ * l) * (Nat.gcd d₁ d₂ * l) * maxB := by ring
      _ ≤ d₁ * maxB := Nat.mul_le_mul_right _ (Nat.div_mul_le_self _ _)
      _ ≤ 9223372036854775807 := hwhole

/-- A sum has a value exactly if its numerator fits. -/
theorem plusAssign_natCast (hd₁ : 0 < d₁) (hd₂ : 0 < d₂) (hd₁' : (d₁ : ℤ) ≤ maxInt64)
    (hd₂' : (d₂ : ℤ) ≤ maxInt64) (hn₁ : n₁ ≤ d₁) (hn₂ : n₂ ≤ d₂) :
    plusAssign ⟨n₁, d₁⟩ ⟨n₂, d₂⟩ = if (sumNumerator n₁ d₁ n₂ d₂ : ℤ) ≤ maxInt64 then
      reduce ⟨(sumNumerator n₁ d₁ n₂ d₂ : ℤ), (sumDenominator d₁ d₂ : ℤ)⟩ else none := by
  rw [plusAssign, sumNumerator, sumDenominator]
  by_cases heq : d₁ = d₂
  · simp only [heq, if_true, ← Nat.cast_add]
    split_ifs with hfits
    · rw [int64_natCast hfits]
      rfl
    · rw [int64_eq_none hfits]
      rfl
  have hgcd : 0 < Nat.gcd d₁ d₂ := Nat.gcd_pos_of_pos_left d₂ hd₁
  obtain ⟨hpos, hle, hden, hprod, hprod'⟩ := scale_spec hd₁ hd₂ hd₁'
  have hb : 0 < d₂ / Nat.gcd d₁ d₂ := Nat.div_pos (Nat.gcd_le_right d₁ hd₂) hgcd
  have hb' : ((d₂ / Nat.gcd d₁ d₂ : ℕ) : ℤ) ≤ maxInt64 :=
    (Nat.cast_le.mpr (Nat.div_le_self _ _)).trans hd₂'
  obtain ⟨hlimit, -, -⟩ := limit_spec hd₁.ne' hd₁' hb
  have hown : d₂ / scale d₁ d₂ * n₁ ≤ d₁ * (d₂ / scale d₁ d₂) := by
    rw [Nat.mul_comm]
    exact Nat.mul_le_mul_right _ hn₁
  have hother : d₁ / scale d₁ d₂ * n₂ ≤ d₁ / scale d₁ d₂ * d₂ := Nat.mul_le_mul_left _ hn₂
  have hscale : ((Nat.gcd d₁ d₂ : ℕ) : ℤ) * (limit d₁ (d₂ / Nat.gcd d₁ d₂) : ℕ) =
      ((scale d₁ d₂ : ℕ) : ℤ) := (Nat.cast_mul _ _).symm
  simp only [Nat.cast_inj, heq, if_false, euclidean_natCast d₁ d₂ (.inl hd₁.ne'),
    quotient_natCast hgcd.ne' hd₂', limitNumber_natCast hd₁.ne' hd₁' hb hb', hscale,
    int64_natCast ((Nat.cast_le.mpr hle).trans hd₂'), quotient_natCast hlimit.ne' hb',
    quotient_natCast hpos.ne' hd₂', quotient_natCast hpos.ne' hd₁', ← Nat.cast_mul, ← Nat.cast_add,
    int64_natCast ((Nat.cast_le.mpr hown).trans hprod),
    int64_natCast ((Nat.cast_le.mpr hother).trans hprod'),
    Option.bind_eq_bind, Option.bind_some]
  have hdiv : d₂ / Nat.gcd d₁ d₂ / limit d₁ (d₂ / Nat.gcd d₁ d₂) = d₂ / scale d₁ d₂ :=
    Nat.div_div_eq_div_mul _ _ _
  rw [hdiv, int64_natCast hprod]
  split_ifs with hfits
  · rw [int64_natCast hfits]
    rfl
  · rw [int64_eq_none hfits]
    rfl

theorem reduce_spec {n d : ℕ} (hd : 0 < d) (hn : (n : ℤ) ≤ maxInt64) (hd' : (d : ℤ) ≤ maxInt64) :
    ∃ n' d' : ℕ, reduce ⟨n, d⟩ = some ⟨n', d'⟩ ∧ 0 < d' ∧ Nat.Coprime n' d' ∧
      (n' : ℚ) / d' = (n : ℚ) / d := by
  have hpos : 0 < Nat.gcd n d := Nat.gcd_pos_of_pos_right n hd
  refine ⟨_, _, reduce_natCast hd hn hd', Nat.div_pos (Nat.gcd_le_right n hd) hpos,
    Nat.coprime_div_gcd_div_gcd hpos, ?_⟩
  rw [Nat.cast_div_div_div_cancel_right (Nat.gcd_dvd_right n d) (Nat.gcd_dvd_left n d)]

theorem sumDenominator_spec (hd₁ : 0 < d₁) (hd₂ : 0 < d₂) (hd₁' : (d₁ : ℤ) ≤ maxInt64) :
    0 < sumDenominator d₁ d₂ ∧ (sumDenominator d₁ d₂ : ℤ) ≤ maxInt64 := by
  obtain ⟨-, -, hpos, hfits, -⟩ := scale_spec hd₁ hd₂ hd₁'
  rw [sumDenominator]
  split_ifs
  · exact ⟨hd₁, hd₁'⟩
  · exact ⟨Nat.mul_pos hd₁ hpos, hfits⟩

/-- With a least common denominator that fits, nothing is scaled down. -/
theorem scale_eq_gcd (hd₁ : 0 < d₁) (hlcm : (Nat.lcm d₁ d₂ : ℤ) ≤ maxInt64) :
    scale d₁ d₂ = Nat.gcd d₁ d₂ := by
  rw [Nat.lcm_eq_mul_div, Nat.mul_div_assoc d₁ (Nat.gcd_dvd_right d₁ d₂)] at hlcm
  rw [scale, limit_eq_one hd₁.ne' hlcm, Nat.mul_one]

theorem sum_exact (hd₁ : 0 < d₁) (hd₂ : 0 < d₂) (hlcm : (Nat.lcm d₁ d₂ : ℤ) ≤ maxInt64) :
    (sumNumerator n₁ d₁ n₂ d₂ : ℚ) / sumDenominator d₁ d₂ = (n₁ : ℚ) / d₁ + (n₂ : ℚ) / d₂ := by
  have hq₁ : (d₁ : ℚ) ≠ 0 := Nat.cast_ne_zero.mpr hd₁.ne'
  have hq₂ : (d₂ : ℚ) ≠ 0 := Nat.cast_ne_zero.mpr hd₂.ne'
  rw [sumNumerator, sumDenominator, scale_eq_gcd hd₁ hlcm]
  split_ifs with heq
  · rw [heq, Nat.cast_add, add_div]
  · have hgcd : ((Nat.gcd d₁ d₂ : ℕ) : ℚ) ≠ 0 :=
      Nat.cast_ne_zero.mpr (Nat.gcd_pos_of_pos_left d₂ hd₁).ne'
    push_cast [Nat.cast_div (Nat.gcd_dvd_left d₁ d₂) hgcd,
      Nat.cast_div (Nat.gcd_dvd_right d₁ d₂) hgcd]
    field_simp

theorem plusAssign_spec (hd₁ : 0 < d₁) (hd₂ : 0 < d₂) (hd₁' : (d₁ : ℤ) ≤ maxInt64)
    (hd₂' : (d₂ : ℤ) ≤ maxInt64) (hn₁ : n₁ ≤ d₁) (hn₂ : n₂ ≤ d₂)
    (hfits : (sumNumerator n₁ d₁ n₂ d₂ : ℤ) ≤ maxInt64) :
    ∃ n d : ℕ, plusAssign ⟨n₁, d₁⟩ ⟨n₂, d₂⟩ = some ⟨n, d⟩ ∧ 0 < d ∧ Nat.Coprime n d ∧
      ((Nat.lcm d₁ d₂ : ℤ) ≤ maxInt64 → (n : ℚ) / d = (n₁ : ℚ) / d₁ + (n₂ : ℚ) / d₂) := by
  obtain ⟨hpos, hmax⟩ := sumDenominator_spec hd₁ hd₂ hd₁'
  obtain ⟨n, d, hreduce, hd, hcoprime, hvalue⟩ := reduce_spec hpos hfits hmax
  refine ⟨n, d, ?_, hd, hcoprime, fun hlcm => ?_⟩
  · rw [plusAssign_natCast hd₁ hd₂ hd₁' hd₂' hn₁ hn₂, if_pos hfits, hreduce]
  · rw [hvalue, sum_exact hd₁ hd₂ hlcm]

/-- The numerator of a sum, before it is reduced. -/
def numeratorOfSum (x y : Fraction) : ℕ :=
  sumNumerator x.numerator.toNat x.denominator.toNat y.numerator.toNat y.denominator.toNat

theorem numeratorOfSum_natCast :
    numeratorOfSum ⟨n₁, d₁⟩ ⟨n₂, d₂⟩ = sumNumerator n₁ d₁ n₂ d₂ := rfl

theorem InUnit.exists_natCast {x : Fraction} (h : x.InUnit) :
    ∃ n d : ℕ, x = ⟨n, d⟩ ∧ n ≤ d ∧ 0 < d ∧ (d : ℤ) ≤ maxInt64 := by
  obtain ⟨numerator, denominator⟩ := x
  obtain ⟨hnonneg, hle, hpos, hfits⟩ := h
  lift numerator to ℕ using hnonneg
  lift denominator to ℕ using hpos.le
  exact ⟨numerator, denominator, rfl, Nat.cast_le.mp hle, Nat.cast_pos.mp hpos, hfits⟩

theorem plusAssign_correct_iff {x y : Fraction} (hx : x.InUnit) (hy : y.InUnit) :
    (∃ z, x.plusAssign y = some z ∧ 0 < z.denominator ∧
        ((Int.lcm x.denominator y.denominator : ℤ) ≤ maxInt64 → z.value = x.value + y.value)) ↔
      (numeratorOfSum x y : ℤ) ≤ maxInt64 := by
  obtain ⟨n₁, d₁, rfl, hn₁, hd₁, hd₁'⟩ := hx.exists_natCast
  obtain ⟨n₂, d₂, rfl, hn₂, hd₂, hd₂'⟩ := hy.exists_natCast
  rw [numeratorOfSum_natCast]
  constructor
  · rintro ⟨z, hz, -⟩
    by_contra hfits
    rw [plusAssign_natCast hd₁ hd₂ hd₁' hd₂' hn₁ hn₂, if_neg hfits] at hz
    exact nomatch hz
  · intro hfits
    obtain ⟨n, d, hz, hd, -, hvalue⟩ := plusAssign_spec hd₁ hd₂ hd₁' hd₂' hn₁ hn₂ hfits
    exact ⟨_, hz, Nat.cast_pos.mpr hd, hvalue⟩

/-! ### The weights of the pages -/

/-- `m_pageWeight * cellWeight` in `markCellAsCounted`, for `n` pages and `c` cells on the page. -/
def cellWeight (n c : ℕ) : Option Fraction := times ⟨1, n⟩ ⟨1, c⟩

/-- What a page with `c` cells can add to the score: `markPageAsCounted` adds the weight of an
empty page. -/
def pageWeights (n c : ℕ) : List (Option Fraction) :=
  if c = 0 then [some ⟨1, n⟩] else List.replicate c (cellWeight n c)

/-- A score that the weights are added to. -/
def accumulate (score : Fraction) (weights : List Fraction) : Option Fraction :=
  weights.foldlM plusAssign score

/-- At each addition the least common denominator of the score so far and of the weight fits. -/
def SumsFit : ℚ → List Fraction → Prop
  | _, [] => True
  | score, w :: weights =>
    (Nat.lcm score.den w.denominator.toNat : ℤ) ≤ maxInt64 ∧ SumsFit (score + w.value) weights

theorem euclidean_one (b : ℕ) : euclidean 1 b = 1 := by
  rw [show (1 : ℤ) = ((1 : ℕ) : ℤ) from rfl, euclidean_natCast 1 b (.inl one_ne_zero),
    Nat.gcd_one_left]

theorem cellWeight_eq {n c : ℕ} (hn : 0 < n) (hc : 0 < c) (h : ((n * c : ℕ) : ℤ) ≤ maxInt64) :
    cellWeight n c = some ⟨1, ((n * c : ℕ) : ℤ)⟩ := by
  have hn' : (n : ℤ) ≤ maxInt64 := (Nat.cast_le.mpr (Nat.le_mul_of_pos_right n hc)).trans h
  have hc' : (c : ℤ) ≤ maxInt64 := (Nat.cast_le.mpr (Nat.le_mul_of_pos_left c hn)).trans h
  have hone : quotient 1 1 = some 1 := by decide
  have hn1 : quotient n 1 = some (n : ℤ) := by simpa using quotient_natCast one_ne_zero hn'
  have hc1 : quotient c 1 = some (c : ℤ) := by simpa using quotient_natCast one_ne_zero hc'
  have hlimit : limitNumber n c = some 1 := by
    rw [limitNumber_natCast hn.ne' hn' hc hc', limit_eq_one hn.ne' h]
    rfl
  have h1 : int64 1 = some 1 := by decide
  simp only [cellWeight, times, euclidean_one, hn1, hc1, hlimit, hone, h1, Option.bind_eq_bind,
    Option.bind_some, mul_one, ← Nat.cast_mul, int64_natCast h]
  rfl

theorem pageWeights_eq {n c : ℕ} (hn : 0 < n) (h : ((n * max c 1 : ℕ) : ℤ) ≤ maxInt64) :
    pageWeights n c = List.replicate (max c 1) (some ⟨1, ((n * max c 1 : ℕ) : ℤ)⟩) := by
  rw [pageWeights]
  split_ifs with hc
  · rw [hc]
    simp
  · have hmax : max c 1 = c := by omega
    rw [hmax] at h ⊢
    rw [cellWeight_eq hn (Nat.pos_of_ne_zero hc) h]

theorem sum_value_nonneg {weights : List Fraction}
    (h : ∀ w ∈ weights, ∃ n d : ℕ, w = ⟨n, d⟩) : 0 ≤ (weights.map value).sum := by
  refine List.sum_nonneg fun q hq => ?_
  obtain ⟨w, hw, rfl⟩ := List.mem_map.mp hq
  obtain ⟨n, d, rfl⟩ := h w hw
  rw [value]
  positivity

/-- The sum stays below one, and no addition is scaled down. -/
theorem accumulate_spec (weights : List Fraction)
    (hweights : ∀ w ∈ weights, ∃ d : ℕ, w = ⟨1, d⟩ ∧ 0 < d) {n d : ℕ} (hd : 0 < d)
    (hcoprime : Nat.Coprime n d) (hfits : SumsFit ((n : ℚ) / d) weights)
    (hsum : (n : ℚ) / d + (weights.map value).sum ≤ 1) :
    ∃ z, accumulate ⟨n, d⟩ weights = some z ∧ z.value = (n : ℚ) / d + (weights.map value).sum := by
  induction weights generalizing n d with
  | nil => exact ⟨⟨n, d⟩, rfl, by rw [List.map_nil, List.sum_nil, add_zero]; rfl⟩
  | cons w weights ih =>
    obtain ⟨d', rfl, hd'⟩ := hweights w (List.mem_cons_self ..)
    have hrest : ∀ w ∈ weights, ∃ d : ℕ, w = ⟨1, d⟩ ∧ 0 < d :=
      fun w hw => hweights w (List.mem_cons_of_mem _ hw)
    have hw : value ⟨1, (d' : ℤ)⟩ = (1 : ℕ) / d' := by simp [value]
    rw [List.map_cons, List.sum_cons, hw, ← add_assoc] at hsum
    have hnonneg : 0 ≤ (weights.map value).sum := sum_value_nonneg fun w hmem => by
      obtain ⟨d, rfl, -⟩ := hrest w hmem
      exact ⟨1, d, rfl⟩
    obtain ⟨hlcm, hfits⟩ := hfits
    have hden : ((n : ℚ) / d).den = d := by
      have h := Rat.den_div_eq_of_coprime (a := n) (b := d) (Nat.cast_pos.mpr hd) hcoprime
      rw [Int.cast_natCast, Int.cast_natCast] at h
      exact Nat.cast_injective h
    rw [hden, Int.toNat_natCast] at hlcm
    have hpos : 0 < Nat.lcm d d' := Nat.lcm_pos hd hd'
    have hle {m : ℕ} (hm : m ∣ Nat.lcm d d') : (m : ℤ) ≤ maxInt64 :=
      (Nat.cast_le.mpr (Nat.le_of_dvd hpos hm)).trans hlcm
    have hdmax := hle (Nat.dvd_lcm_left d d')
    have hn : n ≤ d := by
      have hone : (n : ℚ) / d ≤ 1 := by
        have : (0 : ℚ) ≤ (1 : ℕ) / d' := by positivity
        linarith
      exact_mod_cast (div_le_one (by exact_mod_cast hd)).mp hone
    have hnumerator : (sumNumerator n d 1 d' : ℤ) ≤ maxInt64 := by
      obtain ⟨hden, hden'⟩ := sumDenominator_spec hd hd' hdmax
      have hone : (sumNumerator n d 1 d' : ℚ) / sumDenominator d d' ≤ 1 := by
        rw [sum_exact hd hd' hlcm]
        linarith
      rw [div_le_one (by exact_mod_cast hden), Nat.cast_le] at hone
      exact (Nat.cast_le.mpr hone).trans hden'
    obtain ⟨n', e, hplus, he, hcoprime', hvalue⟩ :=
      plusAssign_spec hd hd' hdmax (hle (Nat.dvd_lcm_right d d')) hn hd' hnumerator
    rw [hw, ← hvalue hlcm] at hfits
    obtain ⟨z, hz, hzvalue⟩ := ih hrest he hcoprime' hfits (by rw [hvalue hlcm]; exact hsum)
    refine ⟨z, ?_, ?_⟩
    · rw [accumulate, List.foldlM_cons]
      change (plusAssign ⟨n, d⟩ ⟨(1 : ℕ), d'⟩ >>= fun score => accumulate score weights) = some z
      rw [hplus]
      exact hz
    · rw [hzvalue, hvalue hlcm, List.map_cons, List.sum_cons, hw, add_assoc]

/-- Nothing is scaled down if all denominators divide a number that fits. -/
theorem sumsFit_of_dvd {l : ℕ} (hl : (l : ℤ) ≤ maxInt64) (hpos : 0 < l) {weights : List Fraction}
    (hweights : ∀ w ∈ weights, ∃ d : ℕ, w = ⟨1, d⟩ ∧ d ∣ l) {score : ℚ} (hscore : score.den ∣ l) :
    SumsFit score weights := by
  induction weights generalizing score with
  | nil => trivial
  | cons w weights ih =>
    obtain ⟨d, rfl, hd⟩ := hweights w (List.mem_cons_self ..)
    refine ⟨?_, ih (fun w hw => hweights w (List.mem_cons_of_mem _ hw)) ?_⟩
    · exact (Nat.cast_le.mpr (Nat.le_of_dvd hpos (Nat.lcm_dvd hscore hd))).trans hl
    · refine (Rat.add_den_dvd_lcm ..).trans (Nat.lcm_dvd hscore (dvd_trans ?_ hd))
      have hvalue : (value ⟨1, d⟩ : ℚ) = Rat.divInt 1 d := by rw [Rat.divInt_eq_div]; rfl
      rw [hvalue]
      exact Int.natCast_dvd_natCast.mp (Rat.den_dvd 1 d)

/-- The weights of a page with `c` cells. -/
def exactWeights (n c : ℕ) : List Fraction :=
  List.replicate (max c 1) ⟨1, ((n * max c 1 : ℕ) : ℤ)⟩

theorem sum_exactWeights {n : ℕ} (hn : 0 < n) (cells : List ℕ) :
    ((cells.flatMap (exactWeights n)).map value).sum = (cells.length : ℚ) / n := by
  induction cells with
  | nil => simp
  | cons c cells ih =>
    have hmax : 0 < max c 1 := by omega
    have hpage : ((exactWeights n c).map value).sum = 1 / n := by
      have hn' : (n : ℚ) ≠ 0 := Nat.cast_ne_zero.mpr hn.ne'
      have hc' : ((max c 1 : ℕ) : ℚ) ≠ 0 := Nat.cast_ne_zero.mpr hmax.ne'
      rw [exactWeights, List.map_replicate, List.sum_replicate, value, nsmul_eq_mul]
      generalize max c 1 = m at hc'
      push_cast
      field_simp
    rw [List.flatMap_cons, List.map_append, List.sum_append, hpage, ih, List.length_cons]
    push_cast
    ring

/-- All weights of pages with these numbers of cells are computed exactly, and whichever of them
are added, in any order, the score is their sum and at most one, unless an addition is scaled
down. -/
theorem accumulate_pageWeights (cells : List ℕ)
    (hfits : ∀ c ∈ cells, ((cells.length * max c 1 : ℕ) : ℤ) ≤ maxInt64) :
    ∃ all, cells.flatMap (pageWeights cells.length) = all.map some ∧
      ∀ weights : List Fraction, weights.Subperm all → SumsFit 0 weights →
        ∃ z, accumulate {} weights = some z ∧ z.value = (weights.map value).sum ∧ z.value ≤ 1 := by
  have hexact : cells.flatMap (pageWeights cells.length) =
      (cells.flatMap (exactWeights cells.length)).map some := by
    rw [List.map_flatMap]
    refine List.flatMap_congr fun c hc => ?_
    rw [exactWeights, List.map_replicate]
    exact pageWeights_eq (List.length_pos_of_mem hc) (hfits c hc)
  refine ⟨_, hexact, fun weights hweights hsums => ?_⟩
  have hform : ∀ w ∈ cells.flatMap (exactWeights cells.length), ∃ d : ℕ, w = ⟨1, d⟩ ∧ 0 < d :=
    fun w hw => by
      obtain ⟨c, hc, hw⟩ := List.mem_flatMap.mp hw
      exact ⟨_, List.eq_of_mem_replicate hw, Nat.mul_pos (List.length_pos_of_mem hc) (by omega)⟩
  have hle : (weights.map value).sum ≤ 1 := by
    obtain ⟨l', hperm, hsub⟩ := hweights
    rw [← (hperm.map value).sum_eq]
    refine ((hsub.map value).sum_le_sum fun q hq => ?_).trans ?_
    · obtain ⟨w, hw, rfl⟩ := List.mem_map.mp hq
      obtain ⟨d, rfl, -⟩ := hform w hw
      rw [value]
      positivity
    · rcases Nat.eq_zero_or_pos cells.length with hnil | hn
      · rw [List.length_eq_zero_iff.mp hnil]
        exact zero_le_one
      · rw [sum_exactWeights hn, div_self (Nat.cast_ne_zero.mpr hn.ne')]
  obtain ⟨z, hz, hvalue⟩ := accumulate_spec weights (fun w hw => hform w (hweights.subset hw))
    (n := 0) (d := 1) Nat.one_pos (Nat.coprime_one_right 0) (by simpa using hsums)
    (by simpa using hle)
  have hvalue' : z.value = (weights.map value).sum := by simpa using hvalue
  exact ⟨z, hz, hvalue', hvalue' ▸ hle⟩

/-- **Score arithmetic is exact and safe if the numerators fit.** -/
theorem plusAssign_safe_iff (x y : Fraction) (cells : List ℕ) :
    (x.InUnit → y.InUnit →
      ((∃ z, x.plusAssign y = some z ∧ 0 < z.denominator ∧
          ((Int.lcm x.denominator y.denominator : ℤ) ≤ maxInt64 → z.value = x.value + y.value)) ↔
        (numeratorOfSum x y : ℤ) ≤ maxInt64)) ∧
    ((∀ c ∈ cells, ((cells.length * max c 1 : ℕ) : ℤ) ≤ maxInt64) →
      ∃ all, cells.flatMap (pageWeights cells.length) = all.map some ∧
        ∀ weights : List Fraction, weights.Subperm all → SumsFit 0 weights →
          ∃ z, accumulate {} weights = some z ∧ z.value = (weights.map value).sum ∧ z.value ≤ 1) :=
  ⟨fun hx hy => plusAssign_correct_iff hx hy, accumulate_pageWeights cells⟩

theorem plusAssign_safe_third :
    (∃ z, plusAssign ⟨1, 2⟩ ⟨1, 3⟩ = some z ∧ 0 < z.denominator ∧
      ((Int.lcm 2 3 : ℤ) ≤ maxInt64 → z.value = value ⟨1, 2⟩ + value ⟨1, 3⟩)) ∧
    ∃ all, [2, 0, 3].flatMap (pageWeights 3) = all.map some ∧
      ∀ weights : List Fraction, weights.Subperm all → ∃ z, accumulate {} weights = some z ∧
        z.value = (weights.map value).sum ∧ z.value ≤ 1 := by
  have h := plusAssign_safe_iff ⟨1, 2⟩ ⟨1, 3⟩ [2, 0, 3]
  refine ⟨(h.1 ⟨by decide, by decide, by decide, by decide⟩
    ⟨by decide, by decide, by decide, by decide⟩).mpr (by decide +kernel), ?_⟩
  obtain ⟨all, hall, hsums⟩ := h.2 (by decide)
  refine ⟨all, hall, fun weights hweights => hsums weights hweights ?_⟩
  refine sumsFit_of_dvd (l := 18) (by decide) (by decide) (fun w hw => ?_) (one_dvd _)
  have hcomputed : [2, 0, 3].flatMap (pageWeights 3) =
      [some ⟨1, 6⟩, some ⟨1, 6⟩, some ⟨1, 3⟩, some ⟨1, 9⟩, some ⟨1, 9⟩, some ⟨1, 9⟩] := by
    decide +kernel
  have hmem := List.mem_map_of_mem (f := some) (hweights.subset hw)
  rw [hall.symm.trans hcomputed] at hmem
  simp only [List.mem_cons, Option.some.injEq, List.not_mem_nil, or_false] at hmem
  rcases hmem with rfl | rfl | rfl | rfl | rfl | rfl
  all_goals exact ⟨_, rfl, by decide⟩

/-- Two thirds twice: the least common denominator fits, and the sum of the numerators does not. -/
theorem plusAssign_overflow :
    InUnit ⟨6000000000000000000, 9000000000000000000⟩ ∧
      plusAssign ⟨6000000000000000000, 9000000000000000000⟩
        ⟨6000000000000000000, 9000000000000000000⟩ = none :=
  ⟨⟨by decide, by decide, by decide, by decide⟩, by decide⟩

end Fraction

end Wcdb.Repair
