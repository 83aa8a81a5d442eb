import Mathlib
import EventSandbox.Proofs.Number.Nearest

/-!
# EventSandbox.Proofs.Number.Arithmetic — products, quotients and powers of ten

Each operation gives the double nearest to the exact result, and there is one unless the result is
beyond the largest double. Naturals up to 2 ^ 53 and powers of ten up to 10 ^ 22 are doubles
themselves; other naturals are a 2 ^ 53rd part off at most.
-/

namespace EventSandbox.Double

variable {negative : Bool} {num den n : ℕ} {q : ℚ} {x y : Double}

/-! ## The range -/

/-- The largest double. -/
def largest : Double := ⟨false, magnitudeBound - 1, by decide⟩

theorem rank_le_of_le_largest (hq : 0 < q) (h : q ≤ largest.value) :
    rank q ≤ (magnitudeBound - 1 : ℕ) :=
  (rank_le_rank hq h).trans_eq (rank_value (by decide))

/-- Comparing naturals with a double takes no rationals. -/
theorem natCast_le_value (h : n * x.fraction.2 ≤ x.fraction.1) : (n : ℚ) ≤ x.value := by
  rw [← fraction_div, le_div_iff₀ (Nat.cast_pos.2 x.fraction_den_pos)]
  exact_mod_cast h

theorem magnitudeBound_le_rank (h : 2 ^ (1024 : ℤ) ≤ q) : (magnitudeBound : ℚ) ≤ rank q := by
  have hrank := rank_mul (show (0 : ℚ) < 2 ^ 52 by norm_num) (show (-1074 : ℤ) ≤ 972 by norm_num)
    (by norm_num) (.inr le_rfl)
  rw [two_pow_mul (show ((52 : ℕ) : ℤ) + 972 = 1024 by norm_num)] at hrank
  calc (magnitudeBound : ℚ) = rank (2 ^ (1024 : ℤ)) := by
        rw [hrank]
        norm_num [magnitudeBound, exponentUnit]
    _ ≤ rank q := rank_le_rank (two_zpow_pos 1024) h

theorem exists_nearest? (negative : Bool) (hnum : 0 < num) (hden : 0 < den)
    (h : rank (num / den) ≤ (magnitudeBound - 1 : ℕ)) :
    ∃ x, nearest? negative num den = some x := by
  have hbound : nearestMagnitude num den < magnitudeBound := by
    have hle := (rounds_nearestMagnitude hnum hden).le h
    have hpos : 0 < magnitudeBound := by decide
    omega
  exact ⟨⟨negative, _, hbound⟩, dif_pos hbound⟩

theorem nearest_of_nearest? (hnum : 0 < num) (hden : 0 < den)
    (h : nearest? negative num den = some x) :
    x.negative = negative ∧ Nearest (num / den) x := by
  have hrounds := rounds_nearestMagnitude hnum hden
  unfold nearest? at h
  dsimp only at h
  split_ifs at h
  cases h
  exact ⟨rfl, hrounds⟩

/-! ## Operations -/

section Operations

variable (hx : x.magnitude ≠ 0)

include hx

section Product

variable (hy : y.magnitude ≠ 0)

include hy

theorem product_fraction :
    0 < x.fraction.1 * y.fraction.1 ∧ 0 < x.fraction.2 * y.fraction.2 ∧
      ((x.fraction.1 * y.fraction.1 : ℕ) : ℚ) / (x.fraction.2 * y.fraction.2 : ℕ) =
        x.value * y.value := by
  refine ⟨Nat.mul_pos (fraction_num_pos hx) (fraction_num_pos hy),
    Nat.mul_pos x.fraction_den_pos y.fraction_den_pos, ?_⟩
  rw [← fraction_div, ← fraction_div, div_mul_div_comm, Nat.cast_mul, Nat.cast_mul]

theorem exists_mul? (h : rank (x.value * y.value) ≤ (magnitudeBound - 1 : ℕ)) :
    ∃ z, x.mul? y = some z := by
  obtain ⟨hnum, hden, hproduct⟩ := product_fraction hx hy
  rw [← hproduct] at h
  exact exists_nearest? _ hnum hden h

theorem nearest_mul? {z : Double} (h : x.mul? y = some z) :
    z.negative = (x.negative != y.negative) ∧ Nearest (x.value * y.value) z := by
  obtain ⟨hnum, hden, hproduct⟩ := product_fraction hx hy
  rw [← hproduct]
  exact nearest_of_nearest? hnum hden h

end Product

/-- A quotient by a number that is not below one stays in the range. -/
theorem nearest_div (hy : 1 ≤ y.value) :
    (x.div y).negative = (x.negative != y.negative) ∧ Nearest (x.value / y.value) (x.div y) := by
  have hy' : y.magnitude ≠ 0 := magnitude_ne_zero (zero_lt_one.trans_le hy)
  have hquotient : ((x.fraction.1 * y.fraction.2 : ℕ) : ℚ) / (x.fraction.2 * y.fraction.1 : ℕ) =
      x.value / y.value := by
    rw [← fraction_div, ← fraction_div, div_div_div_eq, Nat.cast_mul, Nat.cast_mul]
  -- The quotient is not larger than the dividend.
  have hrank : rank (x.value / y.value) ≤ (magnitudeBound - 1 : ℕ) := by
    have hle : x.value / y.value ≤ x.value := div_le_self (value_pos hx).le hy
    have hlt := x.finite
    calc rank (x.value / y.value) ≤ rank x.value :=
          rank_le_rank (div_pos (value_pos hx) (value_pos hy')) hle
      _ = x.magnitude := rank_value hx
      _ ≤ (magnitudeBound - 1 : ℕ) := by exact_mod_cast (by omega)
  have hnum := Nat.mul_pos (fraction_num_pos hx) y.fraction_den_pos
  have hden := Nat.mul_pos x.fraction_den_pos (fraction_num_pos hy')
  rw [← hquotient] at hrank ⊢
  obtain ⟨z, hz⟩ := exists_nearest? (x.negative != y.negative) hnum hden hrank
  have hdiv : x.div y = z := by
    have hdef : x.div y = (nearest? (x.negative != y.negative) (x.fraction.1 * y.fraction.2)
        (x.fraction.2 * y.fraction.1)).getD zero := rfl
    rw [hdef, hz, Option.getD_some]
  rw [hdiv]
  exact nearest_of_nearest? hnum hden hz

end Operations

/-! ## Naturals and powers of ten -/

theorem nearest_ofNat (hn : 0 < n) (hlarge : (n : ℚ) ≤ largest.value) :
    (ofNat n).negative = false ∧ Nearest n (ofNat n) := by
  have hrank : rank ((n : ℚ) / (1 : ℕ)) ≤ (magnitudeBound - 1 : ℕ) := by
    rw [Nat.cast_one, div_one]
    exact rank_le_of_le_largest (Nat.cast_pos.2 hn) hlarge
  obtain ⟨x, hx⟩ := exists_nearest? false hn one_pos hrank
  obtain ⟨hsign, hnearest⟩ := nearest_of_nearest? hn one_pos hx
  rw [Nat.cast_one, div_one] at hnearest
  unfold ofNat
  rw [hx, Option.getD_some]
  exact ⟨hsign, hnearest⟩

/-- A natural of up to 53 binary digits, shifted by any scale, is a double. -/
theorem exists_rank_eq {k : ℤ} (hn : 0 < n) (hle : n ≤ 2 ^ 53) (hk : -1074 ≤ k) :
    ∃ m : ℕ, rank (n * 2 ^ k) = m := by
  have hpos : (0 : ℚ) < n * 2 ^ k := mul_pos (Nat.cast_pos.2 hn) (two_zpow_pos k)
  have hpow : (0 : ℚ) ≤ 2 ^ 52 := by norm_num
  have hle' : (n : ℚ) ≤ 2 ^ 53 := by exact_mod_cast hle
  have hbelow : (n : ℚ) * 2 ^ k ≤ 2 ^ 53 * 2 ^ k :=
    mul_le_mul_of_nonneg_right hle' (two_zpow_pos k).le
  -- One of its scales is not above `k`, so that the number is a multiple of it.
  have hscale := isScale_num_den hpos
  generalize scaleOf ((n : ℚ) * 2 ^ k).num.natAbs ((n : ℚ) * 2 ^ k).den = j at hscale
  obtain ⟨l, hlk, hscale⟩ : ∃ l ≤ k, IsScale l ((n : ℚ) * 2 ^ k) := by
    rcases le_or_gt j k with hjk | hkj
    · exact ⟨j, hjk, hscale⟩
    · refine ⟨k, le_rfl, hk, hbelow, .inr ?_⟩
      calc (2 : ℚ) ^ 52 * 2 ^ k ≤ 2 ^ 52 * 2 ^ j :=
            mul_le_mul_of_nonneg_left (two_zpow_le hkj.le) hpow
        _ ≤ n * 2 ^ k := hscale.above.resolve_left (by omega)
  obtain ⟨e, -, hrank⟩ := hscale.rank_eq_add hpos
  obtain ⟨i, hi⟩ := Int.eq_ofNat_of_zero_le (sub_nonneg.2 hlk)
  refine ⟨e * 2 ^ 52 + n * 2 ^ i, ?_⟩
  rw [hrank, mul_div_assoc, ← zpow_sub₀ two_ne_zero, hi, zpow_natCast]
  push_cast
  rfl

theorem value_ofNat (hn : 0 < n) (hle : n ≤ 2 ^ 53) : (ofNat n).value = n := by
  have hpos : (0 : ℚ) < n := Nat.cast_pos.2 hn
  have hlarge : (n : ℚ) ≤ largest.value :=
    (Nat.cast_le.2 hle).trans (natCast_le_value (by decide +kernel))
  obtain ⟨m, hm⟩ := exists_rank_eq (k := 0) hn hle (by norm_num)
  rw [zpow_zero, mul_one] at hm
  exact (nearest_ofNat hn hlarge).2.value_eq_self hpos hm

theorem ten_pow_le_largest : ∀ n ≤ 308, 10 ^ n * largest.fraction.2 ≤ largest.fraction.1 := by
  decide +kernel

/-- The powers of ten that are doubles. -/
theorem value_powerOfTen (hn : n ≤ 22) : (powerOfTen n).value = 10 ^ n := by
  -- The power of five has 53 binary digits at most, and the power of two only shifts them.
  have hten : ((10 ^ n : ℕ) : ℚ) = (5 ^ n : ℕ) * 2 ^ (n : ℤ) := by
    rw [zpow_natCast]
    push_cast
    rw [← mul_pow]
    norm_num
  have hfive : 5 ^ n ≤ 2 ^ 53 := (Nat.pow_le_pow_right (by norm_num) hn).trans (by norm_num)
  obtain ⟨m, hm⟩ := exists_rank_eq (k := n) (Nat.pow_pos (by norm_num)) hfive (by omega)
  rw [← hten] at hm
  have hpos : 0 < 10 ^ n := Nat.pow_pos (by norm_num)
  have hnearest := (nearest_ofNat hpos (natCast_le_value (ten_pow_le_largest n (by omega)))).2
  have hvalue := hnearest.value_eq_self (Nat.cast_pos.2 hpos) hm
  rw [← Nat.cast_ofNat, ← Nat.cast_pow]
  exact hvalue

/-- Any other natural is a 2 ^ 53rd part off at most. -/
theorem within_ofNat (hn : 0 < n) (hlarge : (n : ℚ) ≤ largest.value) :
    Within (1 / 2 ^ 53) (ofNat n).value n := by
  have hone : (1 : ℚ) ≤ n := by exact_mod_cast hn
  refine (nearest_ofNat hn hlarge).2.within (by linarith) le_rfl ?_
  calc (2 : ℚ) ^ (-1075 : ℤ) ≤ 2 ^ (-53 : ℤ) := two_zpow_le (by norm_num)
    _ = 1 / 2 ^ 53 := by norm_num
    _ ≤ 1 / 2 ^ 53 * n := le_mul_of_one_le_right (by norm_num) hone

end EventSandbox.Double
