import Mathlib
import EventSandbox.Json.Number
import EventSandbox.Proofs.Number.Arithmetic
import EventSandbox.Proofs.Number.Shortest

/-!
# EventSandbox.Proofs.Number.Reading — what rounding on the way does to a number

`Json.scale` rounds the significand, the power of ten and their product or quotient, and below
`10 ^ -308` one more quotient. If the decimal it is given is nearest to some double, it comes out
few doubles away from that one; it is that very double if neither the significand nor the power of
ten has to be rounded.
-/

namespace EventSandbox.Double

variable {n significand : ℕ} {exponent : ℤ} {p q r ε : ℚ} {x y : Double}

/-! ## Distance -/

/-- Numbers whose ranks are close have nearest doubles that are close. -/
theorem Nearest.steps_le (hp : Nearest p y) (hq : Nearest q x) (h : |rank p - rank q| ≤ r)
    (hr : r < n) : |(y.magnitude : ℤ) - x.magnitude| ≤ n := by
  have hynear := abs_le.1 hp.near
  have hxnear := abs_le.1 hq.near
  obtain ⟨hbelow, habove⟩ := abs_le.1 h
  -- The two roundings add one half each, and magnitudes are whole numbers.
  rw [abs_le]
  constructor
  · have hlt : (x.magnitude : ℚ) < y.magnitude + n + 1 := by linarith
    have hnat : x.magnitude < y.magnitude + n + 1 := by exact_mod_cast hlt
    omega
  · have hlt : (y.magnitude : ℚ) < x.magnitude + n + 1 := by linarith
    have hnat : y.magnitude < x.magnitude + n + 1 := by exact_mod_cast hlt
    omega

/-- Rounding does not go past a double. -/
theorem Nearest.le_value (h : Nearest q x) (hp : 0 < p) (hle : p ≤ q) (hn : rank p = n) :
    p ≤ x.value := by
  have hge : n ≤ x.magnitude := by
    apply Rounds.ge h
    rw [← hn]
    exact rank_le_rank hp hle
  have hpos : (0 : ℚ) < n := hn ▸ rank_pos hp
  have hne : x.magnitude ≠ 0 := by
    have := Nat.cast_pos.1 hpos
    omega
  -- A value below `p` would have a magnitude below `n`.
  by_contra hlt
  have hrank := rank_lt_rank (value_pos hne) (not_le.1 hlt)
  rw [rank_value hne, hn] at hrank
  exact absurd (Nat.cast_lt.1 hrank) (not_lt.2 hge)

theorem value_lt (x : Double) : x.value < 2 ^ (1024 : ℤ) := by
  by_contra hle
  have hpos : 0 < x.value := (two_zpow_pos _).trans_le (not_lt.1 hle)
  have hrank := magnitudeBound_le_rank (not_lt.1 hle)
  rw [rank_value (magnitude_ne_zero hpos)] at hrank
  exact absurd x.finite (not_lt.2 (Nat.cast_le.1 hrank))

/-! ## The factors -/

theorem one_le_value_ofNat (hn : 0 < n) (hlarge : (n : ℚ) ≤ largest.value) :
    1 ≤ (ofNat n).value := by
  obtain ⟨m, hm⟩ := exists_rank_eq (n := 1) (k := 0) one_pos (by norm_num) (by norm_num)
  rw [zpow_zero, mul_one, Nat.cast_one] at hm
  exact (nearest_ofNat hn hlarge).2.le_value one_pos (Nat.one_le_cast.2 hn) hm

/-- A power of ten and its double. -/
theorem powerOfTen_spec (hn : n ≤ 308) :
    (powerOfTen n).negative = false ∧ 1 ≤ (powerOfTen n).value ∧
      Within (1 / 2 ^ 53) (powerOfTen n).value (10 ^ (n : ℤ)) := by
  have hpos : 0 < 10 ^ n := Nat.pow_pos (by norm_num)
  have hlarge := natCast_le_value (ten_pow_le_largest n hn)
  have hwithin := within_ofNat hpos hlarge
  rw [Nat.cast_pow, Nat.cast_ofNat, ← zpow_natCast 10] at hwithin
  exact ⟨(nearest_ofNat hpos hlarge).1, one_le_value_ofNat hpos hlarge, hwithin⟩

/-- A significand and its double. -/
theorem significand_spec (hpos : 0 < significand) (hle : significand < 2 ^ 64) :
    (ofNat significand).negative = false ∧ 1 ≤ (ofNat significand).value ∧
      Within (1 / 2 ^ 53) (ofNat significand).value significand := by
  have hlarge : (significand : ℚ) ≤ largest.value :=
    (Nat.cast_le.2 hle.le).trans (natCast_le_value (by decide +kernel))
  exact ⟨(nearest_ofNat hpos hlarge).1, one_le_value_ofNat hpos hlarge, within_ofNat hpos hlarge⟩

/-! ## The range of exponents -/

theorem two_zpow_le_ten_zpow : (2 : ℚ) ^ (1024 : ℤ) ≤ 10 ^ (309 : ℤ) := by
  -- `2 ^ 93` is below `10 ^ 28`, and eleven times ninety-three leaves one factor of two.
  have hpow : ∀ m : ℕ, (2 : ℚ) ^ ((93 * m : ℕ) : ℤ) ≤ 10 ^ ((28 * m : ℕ) : ℤ) := by
    intro m
    rw [zpow_natCast, zpow_natCast, pow_mul, pow_mul]
    exact pow_le_pow_left₀ (by norm_num) (by norm_num) m
  calc (2 : ℚ) ^ (1024 : ℤ) = 2 * 2 ^ ((93 * 11 : ℕ) : ℤ) := by
        rw [← zpow_one_add₀ two_ne_zero]
        congr 1
    _ ≤ 10 * 10 ^ ((28 * 11 : ℕ) : ℤ) :=
      mul_le_mul (by norm_num) (hpow 11) (two_zpow_pos _).le (by norm_num)
    _ = 10 ^ (309 : ℤ) := by
      rw [← zpow_one_add₀ (by norm_num)]
      congr 1

theorem ten_zpow_le_two_zpow (m : ℕ) : (10 : ℚ) ^ (-(m : ℤ)) ≤ 2 ^ (-(3 * m : ℤ)) := by
  have hpow : (2 : ℚ) ^ (3 * m) ≤ 10 ^ m := by
    rw [pow_mul]
    exact pow_le_pow_left₀ (by norm_num) (by norm_num) m
  have hcast : (3 * m : ℤ) = ((3 * m : ℕ) : ℤ) := by push_cast; rfl
  rw [hcast, zpow_neg, zpow_neg, zpow_natCast, zpow_natCast]
  exact inv_anti₀ (pow_pos two_pos _) hpow

/-- A decimal next to a double has an exponent that takes one division by 1e308 at most. -/
theorem exponent_ge (hpos : 0 < significand) (hle : significand < 2 ^ 64) (hx : x.magnitude ≠ 0)
    (h : Nearest (significand * 10 ^ exponent) x) : -616 ≤ exponent := by
  by_contra hlt
  -- Below that exponent the number is nearer to zero than to the smallest double.
  have hsmall : (significand : ℚ) * 10 ^ exponent < 2 ^ (-1075 : ℤ) := by
    calc (significand : ℚ) * 10 ^ exponent ≤ significand * 10 ^ (-((617 : ℕ) : ℤ)) := by
          refine mul_le_mul_of_nonneg_left ?_ (Nat.cast_nonneg _)
          exact zpow_le_zpow_right₀ (by norm_num) (by omega)
      _ < 2 ^ 64 * 2 ^ (-(3 * (617 : ℕ) : ℤ)) :=
        mul_lt_mul (by exact_mod_cast hle) (ten_zpow_le_two_zpow 617) (ten_zpow_pos _)
          (by norm_num)
      _ ≤ 2 ^ (-1075 : ℤ) := by
        rw [two_pow_mul rfl]
        exact two_zpow_le (by norm_num)
  have hrank := rank_lt_half (mul_pos (Nat.cast_pos.2 hpos) (ten_zpow_pos _)) hsmall
  have hnear := abs_le.1 h.near
  have hmagnitude : (1 : ℚ) ≤ x.magnitude := Nat.one_le_cast.2 (Nat.pos_of_ne_zero hx)
  linarith

theorem exponent_le (hpos : 0 < significand) (h : Nearest (significand * 10 ^ exponent) x) :
    exponent ≤ 308 := by
  by_contra hlt
  have hlarge : (2 : ℚ) ^ (1024 : ℤ) ≤ significand * 10 ^ exponent := by
    calc (2 : ℚ) ^ (1024 : ℤ) ≤ 10 ^ (309 : ℤ) := two_zpow_le_ten_zpow
      _ ≤ 10 ^ exponent := zpow_le_zpow_right₀ (by norm_num) (by omega)
      _ ≤ significand * 10 ^ exponent :=
        le_mul_of_one_le_left (ten_zpow_pos _).le (Nat.one_le_cast.2 hpos)
  have hrank := magnitudeBound_le_rank hlarge
  have hnear := abs_le.1 h.near
  have hfinite : (x.magnitude : ℚ) + 1 ≤ magnitudeBound := by exact_mod_cast x.finite
  linarith

/-! ## The three ways to scale -/

theorem scale_eq_ok (hn : n ≤ 308) :
    Json.scale significand n = .ok y ↔ (ofNat significand).mul? (powerOfTen n) = some y := by
  unfold Json.scale
  dsimp only
  rw [if_pos (Int.natCast_nonneg n), Int.natAbs_natCast, if_pos hn]
  cases (ofNat significand).mul? (powerOfTen n) with
  | none => simp
  | some z => simp

theorem scale_neg (significand : ℕ) (hpos : 0 < n) (hn : n ≤ 308) :
    Json.scale significand (-n) = .ok ((ofNat significand).div (powerOfTen n)) := by
  have hsteps : (n - 1) / 308 = 0 := Nat.div_eq_of_lt (by omega)
  unfold Json.scale
  dsimp only
  rw [if_neg (by omega), Int.natAbs_neg, Int.natAbs_natCast, hsteps]
  rfl

theorem scale_small (significand : ℕ) (hpos : 308 < n) (hn : n ≤ 616) :
    Json.scale significand (-n) =
      .ok (((ofNat significand).div (powerOfTen 308)).div (powerOfTen (n - 308))) := by
  have hsteps : (n - 1) / 308 = 1 := by omega
  unfold Json.scale
  dsimp only
  rw [if_neg (by omega), Int.natAbs_neg, Int.natAbs_natCast, hsteps]
  rfl

/-- What comes out of a number's digits: a number without sign that is at most so many doubles away
and is the same if nothing had to be rounded on the way. -/
def Recovers (n : ℕ) (d : Decimal) (x : Double) : Prop :=
  ∃ y, Json.scale d.digits d.exponent = .ok y ∧ y.negative = false ∧
    |(y.magnitude : ℤ) - x.magnitude| ≤ n ∧
    (d.digits ≤ 2 ^ 53 → d.exponent.natAbs ≤ 22 → y.magnitude = x.magnitude)

section Scaling

variable (hpos : 0 < significand) (hle : significand < 2 ^ 64)

include hpos hle

theorem recovers_natCast (hn : n ≤ 308) (h : Nearest (significand * 10 ^ (n : ℤ)) x)
    (hrange : x.magnitude + 3 < magnitudeBound ∨ ∃ y, Json.scale significand n = .ok y) :
    Recovers 3 ⟨significand, n⟩ x := by
  obtain ⟨hasign, ha, hawithin⟩ := significand_spec hpos hle
  obtain ⟨hbsign, hb, hbwithin⟩ := powerOfTen_spec hn
  have hvalue : (0 : ℚ) < significand * 10 ^ (n : ℤ) :=
    mul_pos (Nat.cast_pos.2 hpos) (ten_zpow_pos _)
  have hproduct := hawithin.mul hbwithin (zero_le_one.trans hb) (Nat.cast_nonneg _) (by norm_num)
  have hrank : |rank ((ofNat significand).value * (powerOfTen n).value) -
      rank (significand * 10 ^ (n : ℤ))| ≤ 9 / 4 :=
    (hproduct.abs_rank_sub_le (mul_pos (one_pos.trans_le ha) (one_pos.trans_le hb)) hvalue
      (by norm_num) (by norm_num)).trans (by norm_num)
  have ha' := magnitude_ne_zero (one_pos.trans_le ha)
  have hb' := magnitude_ne_zero (one_pos.trans_le hb)
  -- Only the last three doubles are so close to infinity that the product could overflow.
  obtain ⟨y, hy⟩ : ∃ y, Json.scale significand n = .ok y := by
    rcases hrange with hsmall | hok
    · have hupper : rank ((ofNat significand).value * (powerOfTen n).value) ≤
          (magnitudeBound - 1 : ℕ) := by
        have hnear := abs_le.1 h.near
        have hdistance := (abs_le.1 hrank).2
        have hbound : (x.magnitude : ℚ) + 3 ≤ (magnitudeBound - 1 : ℕ) := by
          exact_mod_cast (by omega : x.magnitude + 3 ≤ magnitudeBound - 1)
        linarith
      obtain ⟨y, hy⟩ := exists_mul? ha' hb' hupper
      exact ⟨y, (scale_eq_ok hn).2 hy⟩
    · exact hok
  obtain ⟨hsign, hnearest⟩ := nearest_mul? ha' hb' ((scale_eq_ok hn).1 hy)
  rw [hasign, hbsign] at hsign
  refine ⟨y, hy, hsign, hnearest.steps_le h hrank (by norm_num), fun hsignificand hexponent => ?_⟩
  rw [value_ofNat hpos hsignificand, value_powerOfTen (by simpa using hexponent),
    ← zpow_natCast] at hnearest
  exact hnearest.unique h

/-- What comes of one division before it is rounded. -/
theorem quotient_spec (hn : n ≤ 308) :
    (ofNat significand).magnitude ≠ 0 ∧
      0 < (ofNat significand).value / (powerOfTen n).value ∧
      Within (9 / 2 ^ 55) ((ofNat significand).value / (powerOfTen n).value)
        (significand / 10 ^ (n : ℤ)) := by
  obtain ⟨-, ha, hawithin⟩ := significand_spec hpos hle
  obtain ⟨-, hb, hbwithin⟩ := powerOfTen_spec hn
  have hexact : (0 : ℚ) < significand / 10 ^ (n : ℤ) :=
    div_pos (Nat.cast_pos.2 hpos) (ten_zpow_pos _)
  refine ⟨magnitude_ne_zero (one_pos.trans_le ha),
    div_pos (one_pos.trans_le ha) (one_pos.trans_le hb), ?_⟩
  exact (hawithin.div hbwithin (Nat.cast_nonneg _) (one_pos.trans_le hb) (ten_zpow_pos _)
    (by norm_num) (by norm_num) (by norm_num)).mono hexact.le (by norm_num)

theorem recovers_neg (hn0 : 0 < n) (hn : n ≤ 308) (h : Nearest (significand * 10 ^ (-n : ℤ)) x) :
    Recovers 3 ⟨significand, -n⟩ x := by
  obtain ⟨hne, hpositive, hquotient⟩ := quotient_spec hpos hle hn
  obtain ⟨hbsign, hb, -⟩ := powerOfTen_spec hn
  obtain ⟨hsign, hnearest⟩ := nearest_div hne hb
  rw [(significand_spec hpos hle).1, hbsign] at hsign
  rw [zpow_neg, ← div_eq_mul_inv] at h
  refine ⟨_, scale_neg significand hn0 hn, hsign, ?_, fun hsignificand hexponent => ?_⟩
  · -- The quotient of the two doubles is close to the number, and it is the number where neither of
    -- them was rounded.
    have hrank := hquotient.abs_rank_sub_le hpositive
      (div_pos (Nat.cast_pos.2 hpos) (ten_zpow_pos _)) (by norm_num) (by norm_num)
    exact hnearest.steps_le h hrank (by norm_num)
  · rw [value_ofNat hpos hsignificand, value_powerOfTen (by simpa using hexponent),
      ← zpow_natCast] at hnearest
    exact hnearest.unique h

/-- What comes of two divisions, if rounding the first one is off by a part of `δ`. -/
theorem within_quotients {δ : ℚ} (hn : n ≤ 308) (hlow : 1 / 2 ^ 53 ≤ δ) (hhigh : δ ≤ 4 / 2 ^ 53)
    (hsmall : 2 ^ (-1075 : ℤ) ≤ δ * ((ofNat significand).value / (powerOfTen 308).value)) :
    0 < ((ofNat significand).div (powerOfTen 308)).value ∧
      Within (7 / 2 ^ 54 + δ * (1 + 1 / 2 ^ 50))
        (((ofNat significand).div (powerOfTen 308)).value / (powerOfTen n).value)
        (significand * 10 ^ (-(308 + n : ℕ) : ℤ)) := by
  obtain ⟨hne, hpositive, hquotient⟩ := quotient_spec hpos hle (le_refl 308)
  obtain ⟨-, hc, hcwithin⟩ := powerOfTen_spec hn
  have hexact : (0 : ℚ) < significand / 10 ^ ((308 : ℕ) : ℤ) :=
    div_pos (Nat.cast_pos.2 hpos) (ten_zpow_pos _)
  have hfirst := (nearest_div hne (powerOfTen_spec (le_refl 308)).2.1).2.within hpositive hlow
    hsmall
  have hnonneg : 0 ≤ δ := le_trans (by norm_num) hlow
  have hlt : δ < 1 := hhigh.trans_lt (by norm_num)
  refine ⟨(mul_pos (sub_pos.2 hlt) hpositive).trans_le hfirst.ge, ?_⟩
  have hsplit : (significand : ℚ) * 10 ^ (-(308 + n : ℕ) : ℤ) =
      significand / 10 ^ ((308 : ℕ) : ℤ) / 10 ^ (n : ℤ) := by
    rw [Nat.cast_add, neg_add, zpow_add₀ (by norm_num), zpow_neg, zpow_neg, div_eq_mul_inv,
      div_eq_mul_inv, mul_assoc]
  rw [hsplit]
  -- The errors of the first quotient, of rounding it, and of the second divisor add up.
  refine ((hquotient.trans hfirst hnonneg).div hcwithin hexact.le (one_pos.trans_le hc)
    (ten_zpow_pos _) (by positivity) (by norm_num) (by norm_num)).mono
    (div_pos hexact (ten_zpow_pos _)).le ?_
  norm_num
  linarith

/-- The first of two divisions gives no number far below the normal range. -/
theorem first_quotient_ge :
    2 ^ (-1024 : ℤ) ≤ (ofNat significand).value / (powerOfTen 308).value := by
  obtain ⟨-, ha, -⟩ := significand_spec hpos hle
  obtain ⟨-, hb, -⟩ := powerOfTen_spec (le_refl 308)
  rw [zpow_neg, ← one_div]
  exact div_le_div₀ (zero_le_one.trans ha) ha (one_pos.trans_le hb) (value_lt _).le

/-- It is in the normal range if that of the second one is. -/
theorem first_quotient_normal (hn : 0 < n)
    (h : 2 ^ (-1022 : ℤ) < (significand : ℚ) * 10 ^ (-(308 + n : ℕ) : ℤ)) :
    2 ^ (-1022 : ℤ) ≤ (ofNat significand).value / (powerOfTen 308).value := by
  obtain ⟨-, -, hquotient⟩ := quotient_spec hpos hle (le_refl 308)
  -- The second division takes a factor of ten at least, more than the first one lost in rounding.
  have hten : (10 : ℚ) ≤ 10 ^ (n : ℤ) := by
    rw [zpow_natCast]
    exact le_self_pow₀ (by norm_num) (by omega)
  have hsplit : (significand : ℚ) / 10 ^ ((308 : ℕ) : ℤ) =
      significand * 10 ^ (-(308 + n : ℕ) : ℤ) * 10 ^ (n : ℤ) := by
    rw [mul_assoc, ← zpow_add₀ (by norm_num), div_eq_mul_inv, ← zpow_neg]
    congr 2
    push_cast
    ring
  have hlarge : 10 * 2 ^ (-1022 : ℤ) ≤ (significand : ℚ) / 10 ^ ((308 : ℕ) : ℤ) := by
    rw [hsplit, mul_comm]
    exact mul_le_mul h.le hten (by norm_num) ((two_zpow_pos _).le.trans h.le)
  have hpow := two_zpow_pos (-1022)
  linarith [hquotient.ge]

/-- After two divisions there is one rounding more. Where the result is in the normal range it is as
good as the others; below that range all errors count half. -/
theorem rank_quotients (hn0 : 0 < n) (hn : n ≤ 308) :
    0 < ((ofNat significand).div (powerOfTen 308)).value ∧ ∃ r < 5,
      |rank (((ofNat significand).div (powerOfTen 308)).value / (powerOfTen n).value) -
        rank (significand * 10 ^ (-(308 + n : ℕ) : ℤ))| ≤ r := by
  obtain ⟨-, hc, -⟩ := powerOfTen_spec hn
  have hvalue : (0 : ℚ) < significand * 10 ^ (-(308 + n : ℕ) : ℤ) :=
    mul_pos (Nat.cast_pos.2 hpos) (ten_zpow_pos _)
  -- Below the normal range the first quotient may itself be too small for full precision.
  rcases le_or_gt ((significand : ℚ) * 10 ^ (-(308 + n : ℕ) : ℤ)) (2 ^ (-1022 : ℤ)) with
    hsub | hnormal
  · have hsmall : (2 : ℚ) ^ (-1075 : ℤ) ≤
        4 / 2 ^ 53 * ((ofNat significand).value / (powerOfTen 308).value) := by
      calc (2 : ℚ) ^ (-1075 : ℤ) = 4 / 2 ^ 53 * 2 ^ (-1024 : ℤ) := by
            rw [show (-1075 : ℤ) = -51 + -1024 by norm_num, zpow_add₀ two_ne_zero]
            norm_num
        _ ≤ _ := mul_le_mul_of_nonneg_left (first_quotient_ge hpos hle) (by norm_num)
    obtain ⟨hdiv, hwithin⟩ := within_quotients hpos hle hn (by norm_num) le_rfl hsmall
    have hrank := hwithin.abs_rank_sub_le_of_small (div_pos hdiv (one_pos.trans_le hc)) hvalue
      (by norm_num) hsub
    exact ⟨hdiv, _, by norm_num, hrank⟩
  · have hsmall : (2 : ℚ) ^ (-1075 : ℤ) ≤
        1 / 2 ^ 53 * ((ofNat significand).value / (powerOfTen 308).value) := by
      calc (2 : ℚ) ^ (-1075 : ℤ) = 1 / 2 ^ 53 * 2 ^ (-1022 : ℤ) := by
            rw [show (-1075 : ℤ) = -53 + -1022 by norm_num, zpow_add₀ two_ne_zero]
            norm_num
        _ ≤ _ := mul_le_mul_of_nonneg_left (first_quotient_normal hpos hle hn0 hnormal)
          (by norm_num)
    obtain ⟨hdiv, hwithin⟩ := within_quotients hpos hle hn le_rfl (by norm_num) hsmall
    have hrank := hwithin.abs_rank_sub_le (div_pos hdiv (one_pos.trans_le hc)) hvalue
      (by norm_num) (by norm_num)
    exact ⟨hdiv, _, by norm_num, hrank⟩

theorem recovers_small (hn0 : 0 < n) (hn : n ≤ 308)
    (h : Nearest (significand * 10 ^ (-(308 + n : ℕ) : ℤ)) x) :
    Recovers 5 ⟨significand, -(308 + n : ℕ)⟩ x := by
  have hscale := scale_small significand (n := 308 + n) (by omega) (by omega)
  rw [Nat.add_sub_cancel_left] at hscale
  obtain ⟨hne, -, -⟩ := quotient_spec hpos hle (le_refl 308)
  obtain ⟨hbsign, hb, -⟩ := powerOfTen_spec (le_refl 308)
  obtain ⟨hcsign, hc, -⟩ := powerOfTen_spec hn
  have hfirst := (nearest_div hne hb).1
  rw [(significand_spec hpos hle).1, hbsign] at hfirst
  obtain ⟨hdiv, r, hr, hrank⟩ := rank_quotients hpos hle hn0 hn
  obtain ⟨hsign, hnearest⟩ := nearest_div (magnitude_ne_zero hdiv) hc
  rw [hfirst, hcsign] at hsign
  -- Two divisions were made, so the part about exact results does not apply.
  refine ⟨_, hscale, hsign, hnearest.steps_le h hrank hr, fun _ hexponent => ?_⟩
  dsimp only at hexponent
  omega

end Scaling

/-! ## A double that is written and read back -/

/-- The significand and the exponent that are gathered from the text of a double. A number without a
fraction is written with its zeros and one more after the point. -/
def written (x : Double) : Decimal :=
  if x.isZero then ⟨0, -1⟩
  else if 0 ≤ x.shortest.exponent ∧ digitCount x.shortest.digits + x.shortest.exponent ≤ 16 then
    ⟨x.shortest.digits * 10 ^ (x.shortest.exponent + 1).toNat, -1⟩
  else x.shortest

/-- The double that is read from the text of a double. -/
def reread (x : Double) : Double :=
  let y := (Json.scale x.written.digits x.written.exponent).toOption.getD zero
  if x.negative then y.neg else y

theorem written_congr (h : x.magnitude = y.magnitude) : x.written = y.written := by
  obtain ⟨negative, magnitude, hx⟩ := x
  obtain ⟨negative', magnitude', hy⟩ := y
  cases h
  rfl

theorem mul_ten_pow_lt {k : ℕ} (hn : 0 < n) (hk : digitCount n + k ≤ 17) :
    n * 10 ^ k < 10 ^ 17 :=
  calc n * 10 ^ k < 10 ^ digitCount n * 10 ^ k :=
        Nat.mul_lt_mul_of_pos_right (digitCount_bounds hn).2 (Nat.pow_pos (by norm_num))
    _ = 10 ^ (digitCount n + k) := (pow_add _ _ _).symm
    _ ≤ 10 ^ 17 := Nat.pow_le_pow_right (by norm_num) hk

theorem written_spec (h : x.magnitude ≠ 0) :
    0 < x.written.digits ∧ x.written.digits < 2 ^ 64 ∧ Nearest x.written.value x := by
  obtain ⟨hpos, hdigits, hnearest⟩ := nearest_shortest h
  unfold written
  rw [if_neg (by simpa [isZero] using h)]
  split_ifs with hplain
  · obtain ⟨hexponent, hlength⟩ := hplain
    obtain ⟨e, he⟩ := Int.eq_ofNat_of_zero_le hexponent
    -- A whole number is written with one zero behind its point, which keeps the value.
    have hsame : (Decimal.value ⟨x.shortest.digits * 10 ^ (x.shortest.exponent + 1).toNat, -1⟩) =
        x.shortest.value := by
      unfold Decimal.value
      rw [he, ← Nat.cast_add_one, Int.toNat_natCast, Nat.cast_mul, Nat.cast_pow, pow_succ]
      norm_num
      ring
    rw [hsame]
    refine ⟨Nat.mul_pos hpos (Nat.pow_pos (by norm_num)), ?_, hnearest⟩
    rw [he] at hlength
    rw [he, ← Nat.cast_add_one, Int.toNat_natCast]
    exact (mul_ten_pow_lt hpos (by omega)).trans (by norm_num)
  · exact ⟨hpos, hdigits.trans_lt (by norm_num), hnearest⟩

/-- So close to infinity that a rounding up could reach it, there are three doubles. -/
theorem scale_largest : ∀ k < 3, ((ofBits? (magnitudeBound - 1 - k)).map fun x =>
    (Json.scale x.written.digits x.written.exponent).isOk) = some true := by
  decide +kernel

theorem exists_scale_of_large (h : magnitudeBound ≤ x.magnitude + 3) :
    ∃ y, Json.scale x.written.digits x.written.exponent = .ok y := by
  have hfinite := x.finite
  -- Each of the three doubles so close to the bound was computed.
  have hlargest := scale_largest (magnitudeBound - 1 - x.magnitude) (by omega)
  have hk : magnitudeBound - 1 - (magnitudeBound - 1 - x.magnitude) = x.magnitude := by omega
  rw [hk, Option.map_eq_some_iff] at hlargest
  obtain ⟨y, hy, hok⟩ := hlargest
  have hmagnitude : y.magnitude = x.magnitude := by
    have hbound : magnitudeBound < signUnit := by decide
    unfold ofBits? at hy
    dsimp only at hy
    split_ifs at hy
    cases hy
    exact Nat.mod_eq_of_lt (by omega)
  rw [written_congr hmagnitude] at hok
  cases hscale : Json.scale x.written.digits x.written.exponent with
  | ok z => exact ⟨z, rfl⟩
  | error fault =>
    rw [hscale] at hok
    cases hok

/-- Every double is recovered from its text. -/
theorem recovers_written (x : Double) :
    Recovers (if -308 ≤ x.written.exponent then 3 else 5) x.written x := by
  by_cases hzero : x.magnitude = 0
  · have hwritten : x.written = ⟨0, -1⟩ := by
      unfold written
      rw [if_pos (by simpa [isZero] using hzero)]
    rw [hwritten]
    refine ⟨zero, rfl, rfl, ?_, fun _ _ => hzero.symm⟩
    rw [hzero]
    simp [zero]
  obtain ⟨hpos, hle, hnearest⟩ := written_spec hzero
  have hlow := exponent_ge hpos hle hzero hnearest
  have hhigh := exponent_le hpos hnearest
  have hlarge := exists_scale_of_large (x := x)
  generalize x.written = d at hpos hle hnearest hlow hhigh hlarge ⊢
  obtain ⟨digits, exponent⟩ := d
  dsimp only at hpos hle hlow hhigh hlarge ⊢
  -- The exponent decides between a product, a quotient and two quotients.
  rcases le_or_gt 0 exponent with hnonneg | hneg
  · obtain ⟨n, rfl⟩ := Int.eq_ofNat_of_zero_le hnonneg
    rw [if_pos (by omega)]
    refine recovers_natCast hpos hle (by omega) hnearest ?_
    rcases lt_or_ge (x.magnitude + 3) magnitudeBound with hsmall | hge
    · exact .inl hsmall
    · exact .inr (hlarge hge)
  · obtain ⟨n, hn⟩ := Int.eq_ofNat_of_zero_le (neg_nonneg.2 hneg.le)
    obtain rfl : exponent = -(n : ℤ) := by omega
    split_ifs with hrange
    · exact recovers_neg hpos hle (by omega) (by omega) hnearest
    · obtain ⟨m, rfl⟩ := Nat.exists_eq_add_of_le (show 308 ≤ n by omega)
      exact recovers_small hpos hle (by omega) (by omega) hnearest

/-- What is made of the digits of a double, with its sign. -/
theorem scale_written (x : Double) :
    (Json.scale x.written.digits x.written.exponent).map (Json.signed x.negative) =
      .ok (.float x.reread) := by
  obtain ⟨y, hscale, -⟩ := recovers_written x
  unfold reread
  rw [hscale]
  rfl

/-- How far a double may move when its text is read. -/
structure NearlyKept (x : Double) : Prop where
  /-- Its sign is kept, that of a zero included, -/
  negative : x.reread.negative = x.negative
  /-- it moves by a few doubles at most, and stays finite, -/
  near : |(x.reread.magnitude : ℤ) - x.magnitude| ≤ (if -308 ≤ x.written.exponent then 3 else 5)
  /-- and not at all if neither its digits nor its power of ten have to be rounded. -/
  exact : x.written.digits ≤ 2 ^ 53 → x.written.exponent.natAbs ≤ 22 → x.reread = x

theorem nearlyKept (x : Double) : x.NearlyKept := by
  obtain ⟨y, hscale, hsign, hsteps, hexact⟩ := recovers_written x
  have hmagnitude : x.reread.magnitude = y.magnitude := by
    unfold reread
    rw [hscale]
    cases x.negative <;> rfl
  have hnegative : x.reread.negative = x.negative := by
    -- The sign is taken off before the number is read and put back after it.
    unfold reread
    rw [hscale]
    cases hx : x.negative with
    | true =>
      change (!y.negative) = true
      rw [hsign]
      rfl
    | false => exact hsign
  refine ⟨hnegative, ?_, fun hdigits hexponent => ?_⟩
  · rw [hmagnitude]
    exact_mod_cast hsteps
  · have hsame := hmagnitude.trans (hexact hdigits hexponent)
    -- A double is its sign and its magnitude, so the two equations decide it.
    generalize x.reread = z at hnegative hsame
    obtain ⟨negative, magnitude, hz⟩ := z
    obtain ⟨negative', magnitude', hx⟩ := x
    cases hnegative
    cases hsame
    rfl

end EventSandbox.Double
