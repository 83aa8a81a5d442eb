import Mathlib
import EventSandbox.Number.Shortest

/-!
# EventSandbox.Proofs.Number.Rank — where a rational stands among the doubles

The magnitudes of the doubles count them in their order. `rank` continues that count to all positive
rationals, along a straight line between neighbours. The slope of the count halves with each binary
exponent, so that `rank` is the least of the lines of all exponents, which makes it easy to bound
from above. Rounding a rational to the nearest double is rounding its rank to the nearest integer.
-/

namespace EventSandbox.Double

variable {k l : ℤ} {p q : ℚ}

/-! ## Powers -/

theorem two_zpow_pos (k : ℤ) : (0 : ℚ) < 2 ^ k := zpow_pos (by norm_num) k

theorem two_pow_mul {n : ℕ} (h : n + k = l) : (2 : ℚ) ^ n * 2 ^ k = 2 ^ l := by
  rw [← zpow_natCast, ← zpow_add₀ two_ne_zero, h]

theorem two_zpow_le (h : k ≤ l) : (2 : ℚ) ^ k ≤ 2 ^ l := zpow_le_zpow_right₀ one_le_two h

/-- A power with any exponent as the model writes it, as a fraction of two naturals. -/
theorem natPow_div_natPow {b : ℕ} (hb : b ≠ 0) (e : ℤ) :
    ((Nat.pow b e.toNat : ℕ) : ℚ) / (Nat.pow b (-e).toNat : ℕ) = (b : ℚ) ^ e := by
  have hb' : (b : ℚ) ≠ 0 := Nat.cast_ne_zero.2 hb
  rcases le_total 0 e with he | he
  · obtain ⟨n, rfl⟩ := Int.eq_ofNat_of_zero_le he
    simp
  · obtain ⟨n, hn⟩ := Int.eq_ofNat_of_zero_le (neg_nonneg.2 he)
    obtain rfl : e = -(n : ℤ) := by omega
    simp

theorem natPow_pos {b : ℕ} (hb : b ≠ 0) (n : ℕ) : (0 : ℚ) < (Nat.pow b n : ℕ) :=
  Nat.cast_pos.2 (Nat.pow_pos (Nat.pos_of_ne_zero hb))

/-! ## The lines -/

/-- The count of the doubles with exponent `k`, continued to all rationals. -/
def line (k : ℤ) (q : ℚ) : ℚ := (k + 1074) * 2 ^ 52 + q / 2 ^ k

theorem line_mono (k : ℤ) : StrictMono (line k) := by
  intro p q h
  exact add_lt_add_right (div_lt_div_of_pos_right h (two_zpow_pos k)) _

theorem line_sub (k : ℤ) (p q : ℚ) : line k q - line k p = (q - p) / 2 ^ k := by
  unfold line
  ring

theorem line_succ (k : ℤ) (q : ℚ) : line (k + 1) q = line k q + (2 ^ 52 - q / 2 ^ (k + 1)) := by
  have h : q / 2 ^ k = 2 * (q / 2 ^ (k + 1)) := by
    rw [zpow_add_one₀ two_ne_zero]
    field_simp
  unfold line
  rw [h]
  push_cast
  ring

/-- From the smallest exponent on, a line starts at an integer. -/
theorem line_natCast {e : ℕ} (he : k + 1074 = e) (q : ℚ) :
    line k q = (e * 2 ^ 52 : ℕ) + q / 2 ^ k := by
  have hcast : (k : ℚ) + 1074 = e := by exact_mod_cast he
  unfold line
  rw [hcast]
  norm_num

/-- The doubles next to `q` are multiples of `2 ^ k`. -/
structure IsScale (k : ℤ) (q : ℚ) : Prop where
  least : -1074 ≤ k
  below : q ≤ 2 ^ 53 * 2 ^ k
  above : k = -1074 ∨ 2 ^ 52 * 2 ^ k ≤ q

theorem isScale_mul {c : ℚ} (hk : -1074 ≤ k) (hle : c ≤ 2 ^ 53) (hge : k = -1074 ∨ 2 ^ 52 ≤ c) :
    IsScale k (c * 2 ^ k) where
  least := hk
  below := mul_le_mul_of_nonneg_right hle (two_zpow_pos k).le
  above := hge.imp_right fun hge => mul_le_mul_of_nonneg_right hge (two_zpow_pos k).le

theorem line_mul (k : ℤ) (c : ℚ) : line k (c * 2 ^ k) = (k + 1074) * 2 ^ 52 + c := by
  unfold line
  rw [mul_div_cancel_right₀ _ (two_zpow_pos k).ne']

/-- Up to the scale of `q` the lines come down, from there on they go up. -/
theorem IsScale.line_le (h : IsScale k q) (hl : -1074 ≤ l) : line k q ≤ line l q := by
  -- Away from `k`, in either direction, no step takes the line down.
  rcases le_total k l with hkl | hlk
  · induction l, hkl using Int.leInduction with
    | base => exact le_rfl
    | succ l hkl ih =>
      have hstep : q / 2 ^ (l + 1) ≤ 2 ^ 52 := by
        rw [div_le_iff₀ (two_zpow_pos _)]
        calc q ≤ 2 ^ 53 * 2 ^ k := h.below
          _ = 2 ^ (k + 53) := two_pow_mul (by omega)
          _ ≤ 2 ^ (l + 53) := two_zpow_le (by omega)
          _ = 2 ^ 52 * 2 ^ (l + 1) := (two_pow_mul (by omega)).symm
      rw [line_succ]
      linarith [ih (h.least.trans hkl)]
  · induction l, hlk using Int.leInductionDown with
    | base => exact le_rfl
    | pred l hlk ih =>
      have habove : 2 ^ 52 * 2 ^ k ≤ q := h.above.resolve_left (by omega)
      have hstep : 2 ^ 52 ≤ q / 2 ^ l := by
        rw [le_div_iff₀ (two_zpow_pos _)]
        exact (mul_le_mul_of_nonneg_left (two_zpow_le hlk) (by norm_num)).trans habove
      have hline := line_succ (l - 1) q
      rw [sub_add_cancel] at hline
      linarith [ih (by omega)]

/-- Any scale of a number gives the same line. -/
theorem IsScale.line_eq (h : IsScale k q) (h' : IsScale l q) : line k q = line l q :=
  le_antisymm (h.line_le h'.least) (h'.line_le h.least)

/-! ## The scale of a fraction -/

theorem powerOfTwo_div (e : ℤ) : ((powerOfTwo e).1 : ℚ) / (powerOfTwo e).2 = 2 ^ e :=
  natPow_div_natPow two_ne_zero e

theorem powerOfTwo_pos (e : ℤ) : (0 : ℚ) < (powerOfTwo e).1 ∧ (0 : ℚ) < (powerOfTwo e).2 :=
  ⟨natPow_pos two_ne_zero _, natPow_pos two_ne_zero _⟩

theorem log2_bounds {n : ℕ} (hn : 0 < n) :
    (2 : ℚ) ^ (n.log2 : ℤ) ≤ n ∧ (n : ℚ) < 2 ^ ((n.log2 : ℤ) + 1) := by
  constructor
  · exact_mod_cast Nat.log2_self_le hn.ne'
  · exact_mod_cast Nat.lt_log2_self

/-- A smaller scale does for a number only if it is the smallest one. -/
theorem isScale_max {e : ℤ} (hbelow : q ≤ 2 ^ 53 * 2 ^ e) (habove : 2 ^ 52 * 2 ^ e ≤ q) :
    IsScale (max e (-1074)) q where
  least := le_max_right _ _
  below := hbelow.trans
    (mul_le_mul_of_nonneg_left (two_zpow_le (le_max_left _ _)) (by norm_num))
  above := by
    rcases le_total e (-1074) with he | he
    · exact .inl (max_eq_right he)
    · rw [max_eq_left he]
      exact .inr habove

/-- The logarithms of a quotient's parts tell its own but for one. -/
theorem log2_div_bounds {num den : ℕ} (hnum : 0 < num) (hden : 0 < den)
    (hk : (num.log2 : ℤ) - den.log2 = k) :
    (2 : ℚ) ^ (k - 1) ≤ num / den ∧ (num : ℚ) / den < 2 ^ (k + 1) := by
  have hden' : (0 : ℚ) < den := Nat.cast_pos.2 hden
  obtain ⟨hnumle, hnumlt⟩ := log2_bounds hnum
  obtain ⟨hdenle, hdenlt⟩ := log2_bounds hden
  -- Both logarithms round down: the lower bound loses the one of `den`, the upper that of `num`.
  constructor
  · rw [le_div_iff₀ hden']
    calc (2 : ℚ) ^ (k - 1) * den ≤ 2 ^ (k - 1) * 2 ^ ((den.log2 : ℤ) + 1) :=
          mul_le_mul_of_nonneg_left hdenlt.le (two_zpow_pos _).le
      _ = 2 ^ (num.log2 : ℤ) := by
        rw [← zpow_add₀ two_ne_zero, ← hk]
        congr 1
        omega
      _ ≤ num := hnumle
  · rw [div_lt_iff₀ hden']
    calc (num : ℚ) < 2 ^ ((num.log2 : ℤ) + 1) := hnumlt
      _ = 2 ^ (k + 1) * 2 ^ (den.log2 : ℤ) := by
        rw [← zpow_add₀ two_ne_zero, ← hk]
        congr 1
        omega
      _ ≤ 2 ^ (k + 1) * den := mul_le_mul_of_nonneg_left hdenle (two_zpow_pos _).le

theorem isScale_scaleOf {num den : ℕ} (hnum : 0 < num) (hden : 0 < den) :
    IsScale (scaleOf num den) (num / den) := by
  have hden' : (0 : ℚ) < den := Nat.cast_pos.2 hden
  unfold scaleOf
  dsimp only
  generalize hk : (num.log2 : ℤ) - den.log2 = k
  obtain ⟨habove, hbelow⟩ := log2_div_bounds hnum hden hk
  -- The test tells on which side of `2 ^ k` the quotient lies.
  have htest : num * (powerOfTwo k).2 < den * (powerOfTwo k).1 ↔ (num : ℚ) / den < 2 ^ k := by
    rw [← powerOfTwo_div, div_lt_div_iff₀ hden' (powerOfTwo_pos k).2,
      mul_comm ((powerOfTwo k).1 : ℚ)]
    exact_mod_cast Iff.rfl
  split_ifs with h
  · refine isScale_max ?_ ?_
    · rw [two_pow_mul (show ((53 : ℕ) : ℤ) + (k - 53) = k by omega)]
      exact (htest.1 h).le
    · rw [two_pow_mul (show ((52 : ℕ) : ℤ) + (k - 53) = k - 1 by omega)]
      exact habove
  · refine isScale_max ?_ ?_
    · rw [two_pow_mul (show ((53 : ℕ) : ℤ) + (k - 52) = k + 1 by omega)]
      exact hbelow.le
    · rw [two_pow_mul (show ((52 : ℕ) : ℤ) + (k - 52) = k by omega)]
      exact not_lt.1 (mt htest.2 h)

/-! ## Rank -/

/-- The count of the doubles, continued to all positive rationals. -/
def rank (q : ℚ) : ℚ := line (scaleOf q.num.natAbs q.den) q

theorem isScale_num_den (hq : 0 < q) : IsScale (scaleOf q.num.natAbs q.den) q := by
  have hnum : 0 < q.num := Rat.num_pos.2 hq
  have hscale := isScale_scaleOf (Int.natAbs_pos.2 hnum.ne') q.den_pos
  have hcast : ((q.num.natAbs : ℕ) : ℚ) = q.num := by
    rw [Nat.cast_natAbs, abs_of_pos hnum]
  rwa [hcast, Rat.num_div_den] at hscale

theorem rank_eq (hq : 0 < q) (h : IsScale k q) : rank q = line k q :=
  (isScale_num_den hq).line_eq h

theorem IsScale.rank_eq_add (h : IsScale k q) (hq : 0 < q) :
    ∃ e : ℕ, k + 1074 = e ∧ rank q = (e * 2 ^ 52 : ℕ) + q / 2 ^ k := by
  obtain ⟨e, he⟩ := Int.eq_ofNat_of_zero_le (a := k + 1074) (by linarith [h.least])
  exact ⟨e, he, (rank_eq hq h).trans (line_natCast he q)⟩

/-- The rank of a multiple of a power of two. -/
theorem rank_mul {c : ℚ} (hc : 0 < c) (hk : -1074 ≤ k) (hle : c ≤ 2 ^ 53)
    (hge : k = -1074 ∨ 2 ^ 52 ≤ c) : rank (c * 2 ^ k) = (k + 1074) * 2 ^ 52 + c := by
  rw [rank_eq (mul_pos hc (two_zpow_pos k)) (isScale_mul hk hle hge), line_mul]

theorem rank_le_line (hq : 0 < q) (hk : -1074 ≤ k) : rank q ≤ line k q :=
  (isScale_num_den hq).line_le hk

/-- What is below half of the smallest double is next to zero. -/
theorem rank_lt_half (hq : 0 < q) (h : q < 2 ^ (-1075 : ℤ)) : rank q < 1 / 2 := by
  calc rank q ≤ line (-1074) q := rank_le_line hq le_rfl
    _ < line (-1074) (2 ^ (-1075 : ℤ)) := line_mono _ h
    _ = 1 / 2 := by
      unfold line
      rw [← zpow_sub₀ two_ne_zero]
      norm_num

theorem rank_lt_rank (hp : 0 < p) (h : p < q) : rank p < rank q := by
  have hscale := isScale_num_den (hp.trans h)
  calc rank p ≤ line (scaleOf q.num.natAbs q.den) p := rank_le_line hp hscale.least
    _ < rank q := line_mono _ h

theorem rank_le_rank (hp : 0 < p) (h : p ≤ q) : rank p ≤ rank q := by
  rcases h.eq_or_lt with rfl | h
  · exact le_rfl
  · exact (rank_lt_rank hp h).le

theorem rank_sub_le (hp : 0 < p) (hpq : p ≤ q) (h : IsScale k p) :
    rank q - rank p ≤ (q - p) / 2 ^ k := by
  rw [rank_eq hp h, ← line_sub]
  exact sub_le_sub_right (rank_le_line (hp.trans_le hpq) h.least) _

/-- Nowhere are the doubles denser than at zero. -/
theorem abs_rank_sub_le (hp : 0 < p) (hq : 0 < q) :
    |rank p - rank q| ≤ |p - q| * 2 ^ (1074 : ℤ) := by
  -- Both sides are symmetric, so `p` may be the smaller one.
  wlog h : p ≤ q generalizing p q
  · rw [abs_sub_comm, abs_sub_comm p]
    exact this hq hp (le_of_not_ge h)
  have hscale := isScale_num_den hp
  have hpow : (2 : ℚ) ^ (-scaleOf p.num.natAbs p.den) ≤ 2 ^ (1074 : ℤ) :=
    two_zpow_le (by linarith [hscale.least])
  rw [abs_sub_comm, abs_of_nonneg (sub_nonneg.2 (rank_le_rank hp h)), abs_sub_comm,
    abs_of_nonneg (sub_nonneg.2 h)]
  calc rank q - rank p ≤ (q - p) / 2 ^ scaleOf p.num.natAbs p.den := rank_sub_le hp h hscale
    _ = (q - p) * 2 ^ (-scaleOf p.num.natAbs p.den) := by rw [zpow_neg, div_eq_mul_inv]
    _ ≤ (q - p) * 2 ^ (1074 : ℤ) := mul_le_mul_of_nonneg_left hpow (sub_nonneg.2 h)

/-! ## Relative errors -/

/-- `p` is an approximation of `q` with a relative error of `ε` at most. -/
def Within (ε p q : ℚ) : Prop := |p - q| ≤ ε * q

variable {a b ε δ : ℚ}

theorem Within.mono (h : Within ε p q) (hq : 0 ≤ q) (hle : ε ≤ δ) : Within δ p q :=
  le_trans h (mul_le_mul_of_nonneg_right hle hq)

theorem Within.le (h : Within ε p q) : p ≤ (1 + ε) * q := by
  linarith [(abs_le.1 h).2]

theorem Within.ge (h : Within ε p q) : (1 - ε) * q ≤ p := by
  linarith [(abs_le.1 h).1]

theorem Within.trans (h : Within ε p q) (h' : Within δ a p) (hδ : 0 ≤ δ) :
    Within (ε + δ * (1 + ε)) a q := by
  have hsplit : a - q = a - p + (p - q) := by ring
  unfold Within
  rw [hsplit]
  calc |a - p + (p - q)| ≤ |a - p| + |p - q| := abs_add_le _ _
    _ ≤ δ * p + ε * q := add_le_add h' h
    _ ≤ δ * ((1 + ε) * q) + ε * q := by
      linarith [mul_le_mul_of_nonneg_left h.le hδ]
    _ = (ε + δ * (1 + ε)) * q := by ring

theorem Within.mul (h : Within ε a p) (h' : Within δ b q) (hb : 0 ≤ b) (hp : 0 ≤ p)
    (hε : 0 ≤ ε) : Within (ε * (1 + δ) + δ) (a * b) (p * q) := by
  have hsplit : a * b - p * q = (a - p) * b + p * (b - q) := by ring
  unfold Within
  rw [hsplit]
  calc |(a - p) * b + p * (b - q)| ≤ |(a - p) * b| + |p * (b - q)| := abs_add_le _ _
    _ = |a - p| * b + p * |b - q| := by rw [abs_mul, abs_mul, abs_of_nonneg hb, abs_of_nonneg hp]
    _ ≤ ε * p * b + p * (δ * q) :=
      add_le_add (mul_le_mul_of_nonneg_right h hb) (mul_le_mul_of_nonneg_left h' hp)
    _ ≤ ε * p * ((1 + δ) * q) + p * (δ * q) := by
      linarith [mul_le_mul_of_nonneg_left h'.le (mul_nonneg hε hp)]
    _ = (ε * (1 + δ) + δ) * (p * q) := by ring

theorem Within.inv (h : Within δ b q) (hb : 0 < b) (hq : 0 < q) (hδ : 0 ≤ δ) (hlt : δ < 1) :
    Within (δ / (1 - δ)) b⁻¹ q⁻¹ := by
  have hsub : b⁻¹ - q⁻¹ = (q - b) / (b * q) := by field_simp
  have hpos : 0 < 1 - δ := sub_pos.2 hlt
  unfold Within
  rw [hsub, abs_div, abs_sub_comm, abs_of_pos (mul_pos hb hq), div_le_iff₀ (mul_pos hb hq)]
  calc |b - q| ≤ δ * q := h
    _ = δ / (1 - δ) * ((1 - δ) * q) := by field_simp
    _ ≤ δ / (1 - δ) * b := mul_le_mul_of_nonneg_left h.ge (div_nonneg hδ hpos.le)
    _ = δ / (1 - δ) * q⁻¹ * (b * q) := by field_simp

theorem Within.div (h : Within ε a p) (h' : Within δ b q) (hp : 0 ≤ p) (hb : 0 < b) (hq : 0 < q)
    (hε : 0 ≤ ε) (hδ : 0 ≤ δ) (hlt : δ < 1) :
    Within (ε * (1 + δ / (1 - δ)) + δ / (1 - δ)) (a / b) (p / q) := by
  rw [div_eq_mul_inv, div_eq_mul_inv p]
  exact h.mul (h'.inv hb hq hδ hlt) (inv_nonneg.2 hb.le) hp hε

theorem rank_sub_le_of_sub_le (hp : 0 < p) (hpq : p ≤ q) (h : q - p ≤ ε * p) (hε : 0 ≤ ε) :
    rank q - rank p ≤ 2 ^ 53 * ε := by
  have hscale := isScale_num_den hp
  refine (rank_sub_le hp hpq hscale).trans ((div_le_iff₀ (two_zpow_pos _)).2 ?_)
  calc q - p ≤ ε * p := h
    _ ≤ ε * (2 ^ 53 * 2 ^ scaleOf p.num.natAbs p.den) :=
      mul_le_mul_of_nonneg_left hscale.below hε
    _ = 2 ^ 53 * ε * 2 ^ scaleOf p.num.natAbs p.den := by ring

/-- An approximation is few doubles away. -/
theorem Within.abs_rank_sub_le (h : Within ε p q) (hp : 0 < p) (hq : 0 < q) (hε : 0 ≤ ε)
    (hlt : ε < 1) : |rank p - rank q| ≤ 2 ^ 53 * (ε / (1 - ε)) := by
  have hpos : 0 < 1 - ε := sub_pos.2 hlt
  have hle : ε ≤ ε / (1 - ε) := le_div_self hε hpos (by linarith)
  obtain ⟨hbelow, habove⟩ := abs_le.1 h
  -- The closeness is relative to `q`, which costs a factor only where `q` is the larger.
  rcases le_total p q with hpq | hqp
  · rw [abs_sub_comm, abs_of_nonneg (sub_nonneg.2 (rank_le_rank hp hpq))]
    refine rank_sub_le_of_sub_le hp hpq ?_ (hε.trans hle)
    calc q - p ≤ ε * q := by linarith
      _ = ε / (1 - ε) * ((1 - ε) * q) := by field_simp
      _ ≤ ε / (1 - ε) * p := mul_le_mul_of_nonneg_left h.ge (hε.trans hle)
  · rw [abs_of_nonneg (sub_nonneg.2 (rank_le_rank hq hqp))]
    refine rank_sub_le_of_sub_le hq hqp (habove.trans ?_) (hε.trans hle)
    exact mul_le_mul_of_nonneg_right hle hq.le

/-- Below the normal range, a relative error means half as much. -/
theorem Within.abs_rank_sub_le_of_small (h : Within ε p q) (hp : 0 < p) (hq : 0 < q) (hε : 0 ≤ ε)
    (hsmall : q ≤ 2 ^ (-1022 : ℤ)) : |rank p - rank q| ≤ 2 ^ 52 * ε := by
  calc |rank p - rank q| ≤ |p - q| * 2 ^ (1074 : ℤ) := Double.abs_rank_sub_le hp hq
    _ ≤ ε * 2 ^ (-1022 : ℤ) * 2 ^ (1074 : ℤ) :=
      mul_le_mul_of_nonneg_right (le_trans h (mul_le_mul_of_nonneg_left hsmall hε))
        (two_zpow_pos _).le
    _ = 2 ^ 52 * ε := by
      rw [mul_assoc, ← zpow_add₀ two_ne_zero, mul_comm]
      norm_num

end EventSandbox.Double
