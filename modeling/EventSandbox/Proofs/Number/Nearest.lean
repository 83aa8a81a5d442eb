import Mathlib
import EventSandbox.Proofs.Number.Rank

/-!
# EventSandbox.Proofs.Number.Nearest — how far rounding goes

Rounding to the nearest double rounds the rank to the nearest integer (`rounds_nearestMagnitude`).
So a rational that is a double is kept, and any other moves by at most half a step, which is a
2 ^ 53rd part of it unless it is very small (`Nearest.within`).
-/

namespace EventSandbox.Double

variable {negative : Bool} {num den m n : ℕ} {k : ℤ} {p q r : ℚ} {x y : Double}

/-! ## Rounding to an integer -/

/-- `n` is the integer nearest to `r`, a tie going to the even one. -/
structure Rounds (r : ℚ) (n : ℕ) : Prop where
  near : |r - n| ≤ 1 / 2
  tie : |r - n| = 1 / 2 → Even n

theorem rounds_self (n : ℕ) : Rounds n n where
  near := by norm_num
  tie := by norm_num

/-- An integer bound of a number bounds what it rounds to. -/
theorem Rounds.le (h : Rounds r n) (hr : r ≤ m) : n ≤ m := by
  have hnear := abs_le.1 h.near
  by_contra hlt
  have hstep : (m : ℚ) + 1 ≤ n := by exact_mod_cast not_le.1 hlt
  linarith

theorem Rounds.ge (h : Rounds r n) (hr : m ≤ r) : m ≤ n := by
  have hnear := abs_le.1 h.near
  by_contra hlt
  have hstep : (n : ℚ) + 1 ≤ m := by exact_mod_cast not_le.1 hlt
  linarith

theorem Rounds.unique (hm : Rounds r m) (hn : Rounds r n) : m = n := by
  wlog h : m < n generalizing m n
  · rcases lt_trichotomy m n with hlt | heq | hgt
    · exact absurd hlt h
    · exact heq
    · exact (this hn hm hgt).symm
  have hstep : (m : ℚ) + 1 ≤ n := by exact_mod_cast h
  have hmnear := abs_le.1 hm.near
  have hnnear := abs_le.1 hn.near
  -- Both are half a step away, so that they are next to each other and both even.
  have hr : r = m + 1 / 2 := by linarith
  have hnext : n = m + 1 := by
    have hcast : (n : ℚ) = m + 1 := by linarith
    exact_mod_cast hcast
  have hmeven : Even m := hm.tie (by rw [hr]; norm_num)
  have hneven : Even n := hn.tie (by rw [hr, hnext]; norm_num)
  rw [hnext, Nat.even_add_one] at hneven
  exact absurd hmeven hneven

theorem Rounds.add_even (h : Rounds r n) (hm : Even m) : Rounds (m + r) (m + n : ℕ) := by
  have hsub : (m : ℚ) + r - (m + n : ℕ) = r - n := by
    push_cast
    ring
  constructor
  · rw [hsub]
    exact h.near
  · rw [hsub]
    exact fun htie => hm.add (h.tie htie)

theorem div_eq_add_mod_div (hden : 0 < den) :
    (num : ℚ) / den = (num / den : ℕ) + (num % den : ℕ) / (den : ℚ) := by
  have hden' : (den : ℚ) ≠ 0 := Nat.cast_ne_zero.2 hden.ne'
  rw [div_eq_iff hden', add_mul, div_mul_cancel₀ _ hden', mul_comm]
  exact_mod_cast (Nat.div_add_mod num den).symm

theorem rounds_roundQuotient (hden : 0 < den) :
    Rounds ((num : ℚ) / den) (roundQuotient num den) := by
  have hden' : (0 : ℚ) < den := Nat.cast_pos.2 hden
  have hrest : (0 : ℚ) ≤ (num % den : ℕ) / (den : ℚ) := by positivity
  have hbelow : (num % den : ℕ) / (den : ℚ) < 1 := by
    rw [div_lt_one hden']
    exact_mod_cast Nat.mod_lt num hden
  rw [div_eq_add_mod_div hden]
  unfold roundQuotient
  dsimp only
  generalize num / den = a, num % den = b at *
  -- The rest is below a half, above a half, or a tie, where the even neighbour is taken.
  split_ifs with hlt hgt
  · have hb : (b : ℚ) / den < 1 / 2 := by
      rw [div_lt_div_iff₀ hden' two_pos]
      exact_mod_cast (by omega : b * 2 < 1 * den)
    have habs : |(a : ℚ) + b / den - a| < 1 / 2 := by
      rw [abs_lt]
      constructor <;> linarith
    exact ⟨habs.le, fun htie => absurd htie habs.ne⟩
  · have hb : 1 / 2 < (b : ℚ) / den := by
      rw [div_lt_div_iff₀ two_pos hden']
      exact_mod_cast (by omega : 1 * den < b * 2)
    have habs : |(a : ℚ) + b / den - (a + 1 : ℕ)| < 1 / 2 := by
      rw [abs_lt]
      push_cast
      constructor <;> linarith
    exact ⟨habs.le, fun htie => absurd htie habs.ne⟩
  · have hb : (b : ℚ) / den = 1 / 2 := by
      rw [div_eq_div_iff hden'.ne' two_ne_zero]
      exact_mod_cast (by omega : b * 2 = 1 * den)
    rw [hb]
    rcases Nat.mod_two_eq_zero_or_one a with ha | ha
    · rw [ha]
      exact ⟨by norm_num, fun _ => Nat.even_iff.2 ha⟩
    · rw [ha]
      exact ⟨by norm_num, fun _ => Nat.even_add_one.2 (Nat.not_even_iff.2 ha)⟩

theorem exponentUnit_eq : exponentUnit = 2 ^ 52 := rfl

theorem even_exponentUnit : Even exponentUnit := ⟨0x8000000000000, rfl⟩

/-- The magnitude of the nearest double is the integer nearest to the rank. -/
theorem rounds_nearestMagnitude (hnum : 0 < num) (hden : 0 < den) :
    Rounds (rank (num / den)) (nearestMagnitude num den) := by
  have hnum' : (0 : ℚ) < num := Nat.cast_pos.2 hnum
  have hden' : (0 : ℚ) < den := Nat.cast_pos.2 hden
  obtain ⟨e, he, hrank⟩ := (isScale_scaleOf hnum hden).rank_eq_add (div_pos hnum' hden')
  obtain ⟨hup, -⟩ := powerOfTwo_pos (scaleOf num den)
  unfold nearestMagnitude
  rw [if_neg hnum.ne']
  dsimp only
  generalize scaleOf num den = k at *
  have hquotient : ((num * (powerOfTwo k).2 : ℕ) : ℚ) / (den * (powerOfTwo k).1 : ℕ) =
      num / den / 2 ^ k := by
    rw [← powerOfTwo_div]
    push_cast
    field_simp
  have hrounds : Rounds (num / den / 2 ^ k)
      (roundQuotient (num * (powerOfTwo k).2) (den * (powerOfTwo k).1)) := by
    rw [← hquotient]
    exact rounds_roundQuotient (by exact_mod_cast mul_pos hden' hup)
  -- The rank is this quotient plus an even count, so a tie goes the same way.
  rw [hrank, he, Int.toNat_natCast, ← exponentUnit_eq]
  exact hrounds.add_even (even_exponentUnit.mul_left e)

/-! ## The value of a double -/

/-- The number without its sign. -/
def value (x : Double) : ℚ := x.significand * 2 ^ x.exponent

theorem fraction_div (x : Double) : (x.fraction.1 : ℚ) / x.fraction.2 = x.value := by
  unfold fraction value
  dsimp only
  rw [← powerOfTwo_div]
  push_cast
  ring

theorem fraction_den_pos (x : Double) : 0 < x.fraction.2 := by
  exact_mod_cast (powerOfTwo_pos x.exponent).2

/-- A magnitude is made of the exponent and the significand. -/
theorem magnitude_eq (x : Double) :
    (x.magnitude : ℤ) = (x.exponent + 1074) * exponentUnit + x.significand := by
  have hsplit := Nat.div_add_mod x.magnitude exponentUnit
  unfold exponent significand exponentField
  by_cases hfield : x.magnitude / exponentUnit = 0
  · rw [if_pos hfield, hfield]
    norm_num
  · rw [if_neg hfield, max_eq_left (Nat.one_le_iff_ne_zero.2 hfield)]
    push_cast
    zify at hsplit
    linarith

theorem significand_bounds (x : Double) :
    x.significand < 2 * exponentUnit ∧ (x.exponent = -1074 ∨ exponentUnit ≤ x.significand) ∧
      -1074 ≤ x.exponent := by
  have hmod := Nat.mod_lt x.magnitude (show 0 < exponentUnit by decide)
  unfold exponent significand exponentField
  split_ifs with hfield
  · rw [hfield]
    have hlt := (Nat.div_eq_zero_iff_lt (show 0 < exponentUnit by decide)).1 hfield
    exact ⟨by omega, .inl (by norm_num), by norm_num⟩
  · exact ⟨by omega, .inr (Nat.le_add_left _ _), by omega⟩

theorem significand_pos (h : x.magnitude ≠ 0) : 0 < x.significand := by
  obtain ⟨-, hnormal, -⟩ := x.significand_bounds
  rcases hnormal with hexponent | hle
  · have hmagnitude := x.magnitude_eq
    rw [hexponent] at hmagnitude
    omega
  · exact lt_of_lt_of_le (by decide) hle

theorem fraction_num_pos (h : x.magnitude ≠ 0) : 0 < x.fraction.1 :=
  Nat.mul_pos (significand_pos h) (by exact_mod_cast (powerOfTwo_pos x.exponent).1)

theorem value_pos (h : x.magnitude ≠ 0) : 0 < x.value :=
  mul_pos (Nat.cast_pos.2 (significand_pos h)) (two_zpow_pos _)

theorem exponentUnit_cast : (exponentUnit : ℚ) = 2 ^ 52 := by norm_num [exponentUnit]

theorem magnitude_cast (x : Double) :
    (x.magnitude : ℚ) = (x.exponent + 1074) * 2 ^ 52 + x.significand := by
  rw [← exponentUnit_cast]
  exact_mod_cast x.magnitude_eq

theorem significand_cast_bounds (x : Double) :
    (x.significand : ℚ) + 1 ≤ 2 ^ 53 ∧ (x.exponent = -1074 ∨ 2 ^ 52 ≤ (x.significand : ℚ)) := by
  obtain ⟨hlt, hnormal, -⟩ := x.significand_bounds
  constructor
  · calc (x.significand : ℚ) + 1 ≤ (2 * exponentUnit : ℕ) := by exact_mod_cast hlt
      _ = 2 ^ 53 := by norm_num [exponentUnit]
  · rw [← exponentUnit_cast]
    exact hnormal.imp_right Nat.cast_le.2

/-- A double has its magnitude as its rank. -/
theorem rank_value (h : x.magnitude ≠ 0) : rank x.value = x.magnitude := by
  obtain ⟨hle, hge⟩ := x.significand_cast_bounds
  unfold value
  rw [rank_mul (Nat.cast_pos.2 (significand_pos h)) x.significand_bounds.2.2 (by linarith) hge,
    magnitude_cast]

theorem eq_of_rank_eq (hp : 0 < p) (hq : 0 < q) (h : rank p = rank q) : p = q := by
  rcases lt_trichotomy p q with hlt | heq | hgt
  · exact absurd h (rank_lt_rank hp hlt).ne
  · exact heq
  · exact absurd h (rank_lt_rank hq hgt).ne'

theorem value_eq_zero (h : x.magnitude = 0) : x.value = 0 := by
  have hsignificand : x.significand = 0 := by
    unfold significand exponentField
    rw [h]
    rfl
  unfold value
  rw [hsignificand, Nat.cast_zero, zero_mul]

theorem magnitude_ne_zero (h : 0 < x.value) : x.magnitude ≠ 0 := by
  intro hzero
  rw [value_eq_zero hzero] at h
  exact lt_irrefl _ h

/-! ## The nearest double -/

/-- Apart from its sign, `x` is the double nearest to `q`. -/
def Nearest (q : ℚ) (x : Double) : Prop := Rounds (rank q) x.magnitude

theorem rank_pos (hq : 0 < q) : 0 < rank q := by
  have hscale := isScale_num_den hq
  have hleast : (0 : ℚ) ≤ scaleOf q.num.natAbs q.den + 1074 := by
    have := hscale.least
    exact_mod_cast (by omega : (0 : ℤ) ≤ scaleOf q.num.natAbs q.den + 1074)
  exact add_pos_of_nonneg_of_pos (mul_nonneg hleast (by norm_num)) (div_pos hq (two_zpow_pos _))

/-- A number that is a double is kept. -/
theorem Nearest.value_eq_self (h : Nearest q x) (hq : 0 < q) (hn : rank q = n) : x.value = q := by
  have hmagnitude : x.magnitude = n := by
    unfold Nearest at h
    rw [hn] at h
    exact h.unique (rounds_self n)
  have hpos : (0 : ℚ) < n := hn ▸ rank_pos hq
  have hne : x.magnitude ≠ 0 := by
    rw [hmagnitude]
    exact (Nat.cast_pos.1 hpos).ne'
  apply eq_of_rank_eq (value_pos hne) hq
  rw [rank_value hne, hn, hmagnitude]

/-- A double whose magnitude lies on the line of an exponent is a multiple of that power of two. -/
theorem value_eq_mul {e : ℕ} (hk : k + 1074 = e) (hn : x.magnitude = e * 2 ^ 52 + n)
    (hupper : n ≤ 2 ^ 53) (hlower : k = -1074 ∨ 2 ^ 52 ≤ n) : x.value = n * 2 ^ k := by
  rcases Nat.eq_zero_or_pos n with rfl | hpos
  · have hleast : k = -1074 := hlower.resolve_right (by norm_num)
    have hmagnitude : x.magnitude = 0 := by omega
    rw [value_eq_zero hmagnitude, Nat.cast_zero, zero_mul]
  have hpos' : (0 : ℚ) < n := Nat.cast_pos.2 hpos
  have hcast : (k : ℚ) + 1074 = e := by exact_mod_cast hk
  have hne : x.magnitude ≠ 0 := by omega
  -- Both have the same rank.
  apply eq_of_rank_eq (value_pos hne) (mul_pos hpos' (two_zpow_pos k))
  rw [rank_value hne, hn, rank_mul hpos' (by omega) (by exact_mod_cast hupper)
    (hlower.imp_right fun hle => by exact_mod_cast hle), hcast]
  norm_num

/-- The nearest double is the nearest multiple of a power of two that is a scale of the number. -/
theorem Nearest.exists_multiple (h : Nearest q x) (hq : 0 < q) :
    ∃ k, IsScale k q ∧ ∃ n : ℕ, x.value = n * 2 ^ k ∧ |q / 2 ^ k - n| ≤ 1 / 2 := by
  have hscale := isScale_num_den hq
  obtain ⟨e, he, hrank⟩ := hscale.rank_eq_add hq
  generalize scaleOf q.num.natAbs q.den = k at hscale he hrank
  have hpow := two_zpow_pos k
  have hquotient : 0 < q / 2 ^ k := div_pos hq hpow
  unfold Nearest at h
  rw [hrank] at h
  obtain ⟨n, hn⟩ := Nat.exists_eq_add_of_le (h.ge (m := e * 2 ^ 52) (by linarith))
  -- `n` is a significand of this exponent: both ends of their range are whole ranks.
  have hupper : n ≤ 2 ^ 53 := by
    have hle : q / 2 ^ k ≤ 2 ^ 53 := (div_le_iff₀ hpow).2 hscale.below
    have := h.le (m := e * 2 ^ 52 + 2 ^ 53) (by push_cast; linarith)
    omega
  have hlower : k = -1074 ∨ 2 ^ 52 ≤ n := by
    refine hscale.above.imp_right fun habove => ?_
    have hle : 2 ^ 52 ≤ q / 2 ^ k := (le_div_iff₀ hpow).2 habove
    have := h.ge (m := e * 2 ^ 52 + 2 ^ 52) (by push_cast; linarith)
    omega
  refine ⟨k, hscale, n, value_eq_mul he hn hupper hlower, ?_⟩
  have hnear := h.near
  have hsub : ((e * 2 ^ 52 : ℕ) : ℚ) + q / 2 ^ k - (e * 2 ^ 52 + n : ℕ) = q / 2 ^ k - n := by
    push_cast
    ring
  rwa [hn, hsub] at hnear

/-- Rounding moves a number by no more than half a step. -/
theorem Nearest.within {δ : ℚ} (h : Nearest q x) (hq : 0 < q) (hδ : 1 / 2 ^ 53 ≤ δ)
    (hsmall : 2 ^ (-1075 : ℤ) ≤ δ * q) : Within δ x.value q := by
  obtain ⟨k, hscale, s, hvalue, hnear⟩ := h.exists_multiple hq
  have hpow := two_zpow_pos k
  have hhalf : |x.value - q| ≤ 2 ^ (k - 1) := by
    have hsub : x.value - q = -(q / 2 ^ k - s) * 2 ^ k := by
      rw [hvalue]
      field_simp
      ring
    rw [hsub, abs_mul, abs_neg, abs_of_pos hpow, zpow_sub_one₀ two_ne_zero]
    linarith [mul_le_mul_of_nonneg_right hnear hpow.le]
  refine hhalf.trans ?_
  -- Half a step is a small part of the number, unless the step is the smallest one.
  rcases hscale.above with rfl | habove
  · exact hsmall
  · calc (2 : ℚ) ^ (k - 1) = 1 / 2 ^ 53 * (2 ^ 52 * 2 ^ k) := by
          rw [zpow_sub_one₀ two_ne_zero]
          ring
      _ ≤ 1 / 2 ^ 53 * q := mul_le_mul_of_nonneg_left habove (by norm_num)
      _ ≤ δ * q := mul_le_mul_of_nonneg_right hδ hq.le

end EventSandbox.Double
