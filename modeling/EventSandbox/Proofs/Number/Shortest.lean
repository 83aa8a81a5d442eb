import Mathlib
import EventSandbox.Proofs.Number.Nearest

/-!
# EventSandbox.Proofs.Number.Shortest — the shortest digits are those of the number

Half-way to its neighbours a double's rank is half an integer, so a decimal in its interval has it
as its nearest double. The interval reaches a 2 ^ 54th part of the double to both sides at least,
which is more than half a step of the grid of 17 digits, so that the search always ends with a
decimal of the interval (`nearest_shortest`).
-/

namespace EventSandbox

/-- The number that a decimal stands for. -/
def Decimal.value (d : Decimal) : ℚ := d.digits * 10 ^ d.exponent

theorem Decimal.digits_pos {d : Decimal} (h : 0 < d.value) : 0 < d.digits := by
  by_contra hzero
  unfold value at h
  rw [Nat.eq_zero_of_not_pos hzero, Nat.cast_zero, zero_mul] at h
  exact lt_irrefl _ h

namespace Double

variable {num den n unit scale : ℕ} {e : ℤ} {p q : ℚ} {x : Double} {d : Decimal}

/-! ## The ends of the interval -/

namespace Interval

/-- The ends of an interval, and the number it belongs to. -/
def lowEnd (i : Interval) : ℚ := i.low * i.up / i.down

@[inherit_doc lowEnd] def middle (i : Interval) : ℚ := i.mid * i.up / i.down

@[inherit_doc lowEnd] def highEnd (i : Interval) : ℚ := i.high * i.up / i.down

/-- Whether a number lies in an interval. -/
def Holds (i : Interval) (q : ℚ) : Prop :=
  if i.closed then i.lowEnd ≤ q ∧ q ≤ i.highEnd else i.lowEnd < q ∧ q < i.highEnd

theorem Holds.le {i : Interval} (h : i.Holds q) : i.lowEnd ≤ q ∧ q ≤ i.highEnd := by
  unfold Holds at h
  split_ifs at h
  · exact h
  · exact ⟨h.1.le, h.2.le⟩

theorem holds_of_lt {i : Interval} (hlow : i.lowEnd < q) (hhigh : q < i.highEnd) : i.Holds q := by
  unfold Holds
  split_ifs
  · exact ⟨hlow.le, hhigh.le⟩
  · exact ⟨hlow, hhigh⟩

theorem contains_iff {i : Interval} (hdown : 0 < i.down) (hscale : 0 < scale) :
    i.contains n unit scale ↔ i.Holds (n * unit / scale) := by
  have hdown' : (0 : ℚ) < i.down := Nat.cast_pos.2 hdown
  have hscale' : (0 : ℚ) < scale := Nat.cast_pos.2 hscale
  unfold contains Holds lowEnd highEnd
  -- The ends belong to the interval of an even significand only: `≤` or `<` throughout.
  cases i.closed with
  | true =>
    rw [if_pos rfl, div_le_div_iff₀ hdown' hscale', div_le_div_iff₀ hscale' hdown']
    simp only [if_true, decide_eq_true_eq]
    exact_mod_cast Iff.rfl
  | false =>
    rw [if_neg (by decide), div_lt_div_iff₀ hdown' hscale', div_lt_div_iff₀ hscale' hdown']
    simp only [Bool.false_eq_true, if_false, decide_eq_true_eq]
    exact_mod_cast Iff.rfl

end Interval

section Ends

variable (x)

theorem interval_eq : x.interval =
    ⟨if x.significand = exponentUnit ∧ 1 < x.exponentField then 4 * x.significand - 1
      else 4 * x.significand - 2, 4 * x.significand, 4 * x.significand + 2,
      (powerOfTwo (x.exponent - 2)).1, (powerOfTwo (x.exponent - 2)).2,
      x.significand % 2 = 0⟩ := rfl

/-- The multiples of the interval's unit are quarters of a step. -/
theorem quarters (c : ℚ) :
    c * (powerOfTwo (x.exponent - 2)).1 / (powerOfTwo (x.exponent - 2)).2 =
      c / 4 * 2 ^ x.exponent := by
  rw [mul_div_assoc, powerOfTwo_div, zpow_sub₀ two_ne_zero]
  norm_num
  ring

theorem interval_middle : x.interval.middle = x.value := by
  rw [interval_eq]
  unfold Interval.middle value
  rw [quarters]
  push_cast
  ring

theorem interval_highEnd : x.interval.highEnd = (x.significand + 1 / 2) * 2 ^ x.exponent := by
  rw [interval_eq]
  unfold Interval.highEnd
  rw [quarters]
  push_cast
  ring

theorem interval_lowEnd (h : x.magnitude ≠ 0) : x.interval.lowEnd =
    (if x.significand = exponentUnit ∧ 1 < x.exponentField then (x.significand : ℚ) - 1 / 4
      else x.significand - 1 / 2) * 2 ^ x.exponent := by
  have hpos := significand_pos h
  rw [interval_eq]
  unfold Interval.lowEnd
  rw [quarters]
  congr 1
  dsimp only
  -- Below a power of two the doubles are twice as dense, so the interval is half as long there.
  split_ifs
  · rw [Nat.cast_sub (by omega)]
    push_cast
    ring
  · rw [Nat.cast_sub (by omega)]
    push_cast
    ring

end Ends

/-- The ends of the interval are half a step from the double, counted in doubles. -/
theorem rank_highEnd (h : x.magnitude ≠ 0) : rank x.interval.highEnd = x.magnitude + 1 / 2 := by
  obtain ⟨hle, hge⟩ := x.significand_cast_bounds
  have hpos : (0 : ℚ) < x.significand := Nat.cast_pos.2 (significand_pos h)
  rw [interval_highEnd, rank_mul (by linarith) x.significand_bounds.2.2 (by linarith)
    (hge.imp_right fun hge => by linarith), magnitude_cast]
  ring

theorem rank_lowEnd (h : x.magnitude ≠ 0) : rank x.interval.lowEnd = x.magnitude - 1 / 2 := by
  obtain ⟨hle, hge⟩ := x.significand_cast_bounds
  have hone : (1 : ℚ) ≤ x.significand := Nat.one_le_cast.2 (significand_pos h)
  have hleast := x.significand_bounds.2.2
  rw [interval_lowEnd x h, magnitude_cast]
  split_ifs with hbinade
  -- The neighbour below is the largest double with the next smaller exponent.
  · obtain ⟨hunit, hfield⟩ := hbinade
    have hexponent : -1074 ≤ x.exponent - 1 := by
      unfold exponent
      omega
    have hcast : (x.significand : ℚ) = 2 ^ 52 := by rw [hunit, exponentUnit_cast]
    have hsplit : ((x.significand : ℚ) - 1 / 4) * 2 ^ x.exponent =
        (2 ^ 53 - 1 / 2) * 2 ^ (x.exponent - 1) := by
      rw [hcast, zpow_sub_one₀ two_ne_zero]
      ring
    rw [hsplit, rank_mul (by norm_num) hexponent (by norm_num) (.inr (by norm_num)), hcast]
    push_cast
    ring
  · have hnormal : x.exponent = -1074 ∨ 2 ^ 52 ≤ (x.significand : ℚ) - 1 / 2 := by
      rcases x.significand_bounds.2.1 with hexponent | hunit
      · exact .inl hexponent
      rcases hunit.eq_or_lt with heq | hlt
      · refine .inl ?_
        have hfield : ¬ 1 < x.exponentField := fun hfield => hbinade ⟨heq.symm, hfield⟩
        unfold exponent
        omega
      · refine .inr ?_
        have hcast : (exponentUnit : ℚ) + 1 ≤ x.significand := by exact_mod_cast hlt
        rw [exponentUnit_cast] at hcast
        linarith
    rw [rank_mul (by linarith) hleast (by linarith) hnormal]
    ring

theorem lowEnd_pos (h : x.magnitude ≠ 0) : 0 < x.interval.lowEnd := by
  have hone : (1 : ℚ) ≤ x.significand := Nat.one_le_cast.2 (significand_pos h)
  rw [interval_lowEnd x h]
  split_ifs
  · exact mul_pos (by linarith) (two_zpow_pos _)
  · exact mul_pos (by linarith) (two_zpow_pos _)

/-- The interval is closed if the magnitude is even. -/
theorem even_of_closed (h : x.interval.closed) : Even x.magnitude := by
  have hsignificand : x.significand % 2 = 0 := of_decide_eq_true h
  have hsplit := x.magnitude_eq
  obtain ⟨e, he⟩ := Int.eq_ofNat_of_zero_le (a := x.exponent + 1074)
    (by linarith [x.significand_bounds.2.2])
  rw [he] at hsplit
  have hnat : x.magnitude = e * exponentUnit + x.significand := by exact_mod_cast hsplit
  rw [hnat]
  exact (even_exponentUnit.mul_left e).add (Nat.even_iff.2 hsignificand)

/-- A double is the nearest one to all numbers in its interval. -/
theorem nearest_of_holds (h : x.magnitude ≠ 0) (hq : x.interval.Holds q) :
    0 < q ∧ Nearest q x := by
  obtain ⟨hlow, hhigh⟩ := hq.le
  have hpos : 0 < q := (lowEnd_pos h).trans_le hlow
  have hbelow := rank_le_rank (lowEnd_pos h) hlow
  have habove := rank_le_rank hpos hhigh
  rw [rank_lowEnd h] at hbelow
  rw [rank_highEnd h] at habove
  refine ⟨hpos, abs_le.2 ⟨by linarith, by linarith⟩, fun htie => ?_⟩
  -- The ends of a closed interval are ties, which go to its even magnitude; an open one has none.
  cases hclosed : x.interval.closed with
  | true => exact even_of_closed hclosed
  | false =>
    unfold Interval.Holds at hq
    rw [hclosed, if_neg (by decide)] at hq
    have hlt := rank_lt_rank (lowEnd_pos h) hq.1
    have hgt := rank_lt_rank hpos hq.2
    rw [rank_lowEnd h] at hlt
    rw [rank_highEnd h] at hgt
    have hinside : |rank q - x.magnitude| < 1 / 2 := abs_lt.2 ⟨by linarith, by linarith⟩
    exact absurd htie hinside.ne

/-- What is close to a double is in its interval. -/
theorem holds_of_close (h : x.magnitude ≠ 0) (hq : |q - x.value| < x.value / 2 ^ 54) :
    x.interval.Holds q := by
  obtain ⟨hlt, -⟩ := x.significand_cast_bounds
  have hpow := two_zpow_pos x.exponent
  have hvalue : x.value = x.significand * 2 ^ x.exponent := rfl
  have hhalf : x.value / 2 ^ 54 ≤ 1 / 2 * 2 ^ x.exponent := by
    rw [hvalue, mul_div_right_comm]
    exact mul_le_mul_of_nonneg_right (by linarith) hpow.le
  obtain ⟨hbelow, habove⟩ := abs_lt.1 hq
  apply Interval.holds_of_lt
  · rw [interval_lowEnd x h]
    split_ifs with hbinade
    -- The significand is a power of two, so that the bound just reaches the nearer end.
    · have hquarter : x.value / 2 ^ 54 = 1 / 4 * 2 ^ x.exponent := by
        rw [hvalue, hbinade.1, exponentUnit_cast]
        ring
      rw [sub_mul, ← hvalue]
      linarith
    · rw [sub_mul, ← hvalue]
      linarith
  · rw [interval_highEnd, add_mul, ← hvalue]
    linarith

/-! ## The search -/

theorem digitCount_bounds (hn : 0 < n) : 10 ^ (digitCount n - 1) ≤ n ∧ n < 10 ^ digitCount n := by
  have hcount : ∀ k, 0 < k → (digitCount n ≤ k ↔ n < 10 ^ k) := fun k hk =>
    Nat.length_toDigits_le_iff (by norm_num) hk
  have hpos : 0 < digitCount n := List.length_pos_of_ne_nil Nat.toDigits_ne_nil
  refine ⟨?_, (hcount _ hpos).1 le_rfl⟩
  rcases Nat.eq_zero_or_pos (digitCount n - 1) with hone | hmore
  · rw [hone]
    exact hn
  · by_contra hlt
    have := (hcount _ hmore).2 (not_le.1 hlt)
    omega

theorem digitCount_pos (n : ℕ) : 0 < digitCount n := List.length_pos_of_ne_nil Nat.toDigits_ne_nil

/-- The whole part of a fraction has as many digits as the fraction has before its point. -/
theorem div_bounds_of_le (hden : 0 < den) (h : den ≤ num) :
    (10 : ℚ) ^ ((digitCount (num / den) : ℤ) - 1) ≤ num / den ∧
      (num : ℚ) / den < 10 ^ ((digitCount (num / den) : ℤ) - 1 + 1) := by
  have hden' : (0 : ℚ) < den := Nat.cast_pos.2 hden
  obtain ⟨hle, hlt⟩ := digitCount_bounds (Nat.div_pos h hden)
  obtain ⟨c, hc⟩ := Nat.exists_eq_add_one.2 (digitCount_pos (num / den))
  rw [hc] at hle hlt ⊢
  have hlower : 10 ^ c * den ≤ num := (Nat.le_div_iff_mul_le hden).1 hle
  have hupper : num < 10 ^ (c + 1) * den := (Nat.div_lt_iff_lt_mul hden).1 hlt
  have hexponent : ((c + 1 : ℕ) : ℤ) - 1 = (c : ℤ) := by omega
  rw [hexponent, ← Nat.cast_add_one, zpow_natCast, zpow_natCast, le_div_iff₀ hden',
    div_lt_iff₀ hden']
  exact ⟨by exact_mod_cast hlower, by exact_mod_cast hupper⟩

/-- Below one, the digits of the inverse tell how many zeros come first. -/
theorem div_bounds_of_lt (hnum : 0 < num) (h : num < den) :
    (10 : ℚ) ^ (-(digitCount ((den + num - 1) / num - 1) : ℤ)) ≤ num / den ∧
      (num : ℚ) / den < 10 ^ (-(digitCount ((den + num - 1) / num - 1) : ℤ) + 1) := by
  have hden' : (0 : ℚ) < den := Nat.cast_pos.2 (hnum.trans h)
  have hquotient := Nat.div_add_mod (den + num - 1) num
  have hmod := Nat.mod_lt (den + num - 1) hnum
  have htwo : 2 ≤ (den + num - 1) / num := (Nat.le_div_iff_mul_le hnum).2 (by omega)
  generalize (den + num - 1) / num = t at hquotient htwo ⊢
  obtain ⟨r, rfl⟩ : ∃ r, t = r + 1 := ⟨t - 1, by omega⟩
  rw [Nat.add_sub_cancel]
  obtain ⟨hle, hlt⟩ := digitCount_bounds (n := r) (by omega)
  obtain ⟨c, hc⟩ := Nat.exists_eq_add_one.2 (digitCount_pos r)
  rw [hc] at hle hlt ⊢
  -- `r` is the largest natural below the inverse.
  have hlower : den ≤ num * 10 ^ (c + 1) := by
    have : num * (r + 1) ≤ num * 10 ^ (c + 1) := Nat.mul_le_mul_left num hlt
    omega
  have hupper : num * 10 ^ c < den := by
    have : num * 10 ^ c ≤ num * r := Nat.mul_le_mul_left num hle
    rw [Nat.mul_add, Nat.mul_one] at hquotient
    omega
  have hexponent : -((c + 1 : ℕ) : ℤ) + 1 = -(c : ℤ) := by omega
  have hpow : ∀ k : ℕ, (0 : ℚ) < 10 ^ k := fun k => pow_pos (by norm_num) k
  rw [hexponent, zpow_neg, zpow_neg, zpow_natCast, zpow_natCast, ← one_div, ← one_div,
    div_le_div_iff₀ (hpow _) hden', div_lt_div_iff₀ hden' (hpow _), one_mul]
  exact ⟨by exact_mod_cast hlower, by exact_mod_cast hupper⟩

/-- The exponent of the first digit of a fraction. -/
theorem leadingExponent_bounds (hnum : 0 < num) (hden : 0 < den) :
    (10 : ℚ) ^ leadingExponent num den ≤ num / den ∧
      (num : ℚ) / den < 10 ^ (leadingExponent num den + 1) := by
  unfold leadingExponent
  split_ifs with h
  · exact div_bounds_of_le hden h
  · exact div_bounds_of_lt hnum (not_le.1 h)

theorem ten_zpow_pos (e : ℤ) : (0 : ℚ) < 10 ^ e := zpow_pos (by norm_num) e

theorem ten_pow_pos (e : ℤ) : 0 < Nat.pow 10 e.toNat := Nat.pow_pos (by norm_num)

theorem ten_zpow_eq (e : ℤ) :
    ((Nat.pow 10 e.toNat : ℕ) : ℚ) / (Nat.pow 10 (-e).toNat : ℕ) = 10 ^ e := by
  rw [natPow_div_natPow (by norm_num), Nat.cast_ofNat]

theorem natDiv_lt (hden : 0 < den) (h : (num : ℚ) / den < n) : num / den < n := by
  rw [div_lt_iff₀ (Nat.cast_pos.2 hden)] at h
  exact (Nat.div_lt_iff_lt_mul hden).2 (by exact_mod_cast h)

/-- The middle of an interval in steps of a grid. -/
theorem middle_div (i : Interval) (e : ℤ) :
    ((i.mid * i.up * Nat.pow 10 (-e).toNat : ℕ) : ℚ) / (i.down * Nat.pow 10 e.toNat : ℕ) =
      i.middle / 10 ^ e := by
  rw [← ten_zpow_eq]
  unfold Interval.middle
  push_cast
  field_simp

theorem interval_down_pos (x : Double) : 0 < x.interval.down := by
  exact_mod_cast (powerOfTwo_pos (x.exponent - 2)).2

/-- What the search finds on a grid is in the interval. -/
theorem holds_of_onGrid? {i : Interval} (hdown : 0 < i.down) (h : i.onGrid? e = some d) :
    i.Holds d.value ∧
      d.digits ≤ i.mid * i.up * Nat.pow 10 (-e).toNat / (i.down * Nat.pow 10 e.toNat) + 1 := by
  have hvalue : ∀ n : ℕ, i.contains n (Nat.pow 10 e.toNat) (Nat.pow 10 (-e).toNat) →
      i.Holds (Decimal.value ⟨n, e⟩) := by
    intro n hn
    have hholds := (Interval.contains_iff hdown (ten_pow_pos (-e))).1 hn
    rw [mul_div_assoc, ten_zpow_eq] at hholds
    exact hholds
  -- The point below is taken only if it is inside, and so is the one above.
  unfold Interval.onGrid? at h
  dsimp only at h
  split_ifs at h with hbelow habove
  · cases h
    simp only [Bool.and_eq_true, bne_iff_ne] at hbelow
    exact ⟨hvalue _ hbelow.1.1, Nat.le_succ _⟩
  · cases h
    exact ⟨hvalue _ habove, le_rfl⟩

/-- The grid point next to the middle is found if it is in the interval. -/
theorem isSome_onGrid?_of {i : Interval} {rest : ℕ}
    (hnum : i.mid * i.up * Nat.pow 10 (-e).toNat = num)
    (hden : i.down * Nat.pow 10 e.toNat = den) (hrest : num % den = rest) (hne : num / den ≠ 0)
    (hbelow : 2 * rest ≤ den →
      i.contains (num / den) (Nat.pow 10 e.toNat) (Nat.pow 10 (-e).toNat))
    (habove : den ≤ 2 * rest →
      i.contains (num / den + 1) (Nat.pow 10 e.toNat) (Nat.pow 10 (-e).toNat)) :
    (i.onGrid? e).isSome := by
  unfold Interval.onGrid?
  dsimp only
  rw [hnum, hden, hrest]
  split_ifs with hfirst hsecond
  · rfl
  · rfl
  · have hlt : 2 * rest < den := not_le.1 (mt habove hsecond)
    rw [hbelow hlt.le] at hfirst
    simp [hne, hlt] at hfirst

/-- On a grid of small steps, a point no further off than half a step is in the interval. -/
theorem contains_of_near (h : x.magnitude ≠ 0) (he : 10 ^ e * 2 ^ 53 < x.value)
    (hn : |n - x.value / 10 ^ e| ≤ 1 / 2) :
    x.interval.contains n (Nat.pow 10 e.toNat) (Nat.pow 10 (-e).toNat) := by
  have hstep := ten_zpow_pos e
  rw [Interval.contains_iff (interval_down_pos x) (ten_pow_pos (-e)), mul_div_assoc, ten_zpow_eq]
  apply holds_of_close h
  have hsub : (n : ℚ) * 10 ^ e - x.value = (n - x.value / 10 ^ e) * 10 ^ e := by
    rw [sub_mul, div_mul_cancel₀ _ hstep.ne']
  rw [hsub, abs_mul, abs_of_pos hstep]
  calc |(n : ℚ) - x.value / 10 ^ e| * 10 ^ e ≤ 1 / 2 * 10 ^ e :=
        mul_le_mul_of_nonneg_right hn hstep.le
    _ < x.value / 2 ^ 54 := by linarith

/-- Such a grid has a point in the interval. -/
theorem isSome_onGrid? (h : x.magnitude ≠ 0) (he : 10 ^ e * 2 ^ 53 < x.value) :
    (x.interval.onGrid? e).isSome := by
  have hclose := fun n : ℕ => contains_of_near h he (n := n)
  generalize hnum : x.interval.mid * x.interval.up * Nat.pow 10 (-e).toNat = num
  generalize hden : x.interval.down * Nat.pow 10 e.toNat = den
  generalize hrest : num % den = rest
  have hpos : 0 < den := hden ▸ Nat.mul_pos (interval_down_pos x) (ten_pow_pos e)
  have hpos' : (0 : ℚ) < den := Nat.cast_pos.2 hpos
  -- In steps of the grid the number is a whole number and a rest, and more than 2 ^ 53, so that the
  -- whole number is not 0.
  have hquotient : x.value / 10 ^ e = (num / den : ℕ) + (rest : ℚ) / den := by
    rw [← hrest, ← div_eq_add_mod_div hpos, ← hnum, ← hden, middle_div, interval_middle]
  have hlarge : 2 ^ 53 < x.value / 10 ^ e := by
    rw [lt_div_iff₀ (ten_zpow_pos e)]
    linarith
  have hlt : (rest : ℚ) / den < 1 := by
    rw [div_lt_one hpos', ← hrest]
    exact_mod_cast Nat.mod_lt num hpos
  have hnonneg : (0 : ℚ) ≤ rest / den := by positivity
  rw [hquotient] at hclose hlarge
  refine isSome_onGrid?_of hnum hden hrest ?_ (fun hle => hclose _ ?_) (fun hle => hclose _ ?_)
  · intro hzero
    rw [hzero, Nat.cast_zero] at hlarge
    linarith
  · have hhalf : (rest : ℚ) / den ≤ 1 / 2 := by
      rw [div_le_div_iff₀ hpos' two_pos]
      exact_mod_cast (by omega : rest * 2 ≤ 1 * den)
    rw [abs_le]
    constructor <;> linarith
  · have hhalf : 1 / 2 ≤ (rest : ℚ) / den := by
      rw [div_le_div_iff₀ two_pos hpos']
      exact_mod_cast (by omega : 1 * den ≤ rest * 2)
    rw [abs_le]
    push_cast
    constructor <;> linarith

/-! ## The result -/

theorem stripZeros_value (steps : ℕ) (d : Decimal) : (stripZeros steps d).value = d.value := by
  induction steps generalizing d with
  | zero => rfl
  | succ steps ih =>
    unfold stripZeros
    -- A zero at the end moves into the exponent; the value does not see it.
    split_ifs with h
    · have hdigits : (d.digits : ℚ) = (d.digits / 10 : ℕ) * 10 := by
        exact_mod_cast (Nat.div_mul_cancel (Nat.dvd_of_mod_eq_zero h.1)).symm
      rw [ih]
      unfold Decimal.value
      rw [hdigits, zpow_add_one₀ (by norm_num)]
      ring
    · rfl

theorem stripZeros_digits (steps : ℕ) (d : Decimal) : (stripZeros steps d).digits ≤ d.digits := by
  induction steps generalizing d with
  | zero => exact le_rfl
  | succ steps ih =>
    unfold stripZeros
    split_ifs
    · exact (ih _).trans (Nat.div_le_self _ _)
    · exact le_rfl

/-- The search ends with a decimal of the interval, of 17 digits at most. -/
theorem exists_found (h : x.magnitude ≠ 0) {lead : ℤ} (hle : 10 ^ lead ≤ x.value)
    (hlt : x.value < 10 ^ (lead + 1)) :
    ∃ d, (List.range 17).findSome? (fun n : ℕ => x.interval.onGrid? (lead - n)) = some d ∧
      x.interval.Holds d.value ∧ d.digits ≤ 10 ^ 17 := by
  have hdown := interval_down_pos x
  obtain ⟨d, hd⟩ : ∃ d, (List.range 17).findSome? (fun n : ℕ => x.interval.onGrid? (lead - n)) =
      some d := by
    rw [← Option.isSome_iff_exists, List.findSome?_isSome_iff]
    -- The last grid is fine enough.
    refine ⟨16, by simp, isSome_onGrid? h ?_⟩
    calc (10 : ℚ) ^ (lead - (16 : ℕ)) * 2 ^ 53 < 10 ^ (lead - (16 : ℕ)) * 10 ^ 16 :=
          mul_lt_mul_of_pos_left (by norm_num) (ten_zpow_pos _)
      _ = 10 ^ lead := by
        rw [← zpow_natCast, ← zpow_add₀ (by norm_num)]
        congr 1
        omega
      _ ≤ x.value := hle
  obtain ⟨n, hn, hgrid⟩ := List.exists_of_findSome?_eq_some hd
  -- Whichever grid it was, the number has 17 digits there at most.
  obtain ⟨hholds, hdigits⟩ := holds_of_onGrid? hdown hgrid
  refine ⟨d, hd, hholds, hdigits.trans (Nat.succ_le_of_lt ?_)⟩
  apply natDiv_lt (Nat.mul_pos hdown (ten_pow_pos _))
  rw [middle_div, interval_middle, div_lt_iff₀ (ten_zpow_pos _)]
  calc x.value < 10 ^ (lead + 1) := hlt
    _ = 10 ^ ((n + 1 : ℕ) : ℤ) * 10 ^ (lead - n) := by
      rw [← zpow_add₀ (by norm_num)]
      congr 1
      push_cast
      ring
    _ ≤ ((10 ^ 17 : ℕ) : ℚ) * 10 ^ (lead - n) := by
      refine mul_le_mul_of_nonneg_right ?_ (ten_zpow_pos _).le
      rw [zpow_natCast]
      have hn' : n + 1 ≤ 17 := List.mem_range.1 hn
      exact_mod_cast Nat.pow_le_pow_right (by norm_num) hn'

/-- The shortest decimal has 17 digits at most, and the number is the double nearest to it. -/
theorem nearest_shortest (h : x.magnitude ≠ 0) :
    0 < x.shortest.digits ∧ x.shortest.digits ≤ 10 ^ 17 ∧ Nearest x.shortest.value x := by
  have hvalue := value_pos h
  have hmiddle : ((x.interval.mid * x.interval.up : ℕ) : ℚ) / x.interval.down = x.value := by
    rw [← interval_middle, Nat.cast_mul]
    rfl
  have hnum : 0 < x.interval.mid * x.interval.up := by
    rw [Nat.pos_iff_ne_zero]
    intro hzero
    rw [hzero, Nat.cast_zero, zero_div] at hmiddle
    exact hvalue.ne hmiddle
  -- The leading exponent says where the search for a grid begins.
  have hlead := leadingExponent_bounds hnum (interval_down_pos x)
  rw [hmiddle] at hlead
  obtain ⟨d, hd, hholds, hdigits⟩ := exists_found h hlead.1 hlead.2
  obtain ⟨hpos, hnearest⟩ := nearest_of_holds h hholds
  unfold shortest
  dsimp only
  rw [hd, Option.getD_some, stripZeros_value]
  rw [← stripZeros_value 20] at hpos
  exact ⟨Decimal.digits_pos hpos, (stripZeros_digits 20 d).trans hdigits, hnearest⟩

end Double

end EventSandbox
