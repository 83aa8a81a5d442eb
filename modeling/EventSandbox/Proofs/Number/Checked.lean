import Mathlib.Algebra.Order.Floor.Div

/-!
# EventSandbox.Proofs.Number.Checked — arithmetic in 64 bits that does not go wrong silently

A sum of 64-bit words may not fit, and a quotient or a remainder by zero has no meaning. The checked
operations give nothing there, and everywhere else the word of the number that the operation on
numbers gives (`add_eq_some`, `div_eq_some`, `mod_eq_some`). So a computation that is written in
them and always has a result has neither overflowed nor divided by zero. The quotient rounded up is
such a computation (`ceilDiv_eq_some`): whatever is divided by zero has none, and all else has one
(`exists_ceilDiv`).
-/

namespace EventSandbox

/-! ## Quotients rounded up -/

/-- One more than the quotient where something is left over is the quotient rounded up. -/
theorem div_add_rest (n : Nat) {d : Nat} (hd : 0 < d) :
    (n / d + if n % d = 0 then 0 else 1) = n ⌈/⌉ d := by
  -- Both are the least number whose product with `d` is no less than `n`.
  apply eq_of_forall_ge_iff
  intro t
  rw [ceilDiv_le_iff_le_mul hd]
  have hdiv := Nat.div_add_mod n d
  have hmod := Nat.mod_lt n hd
  by_cases hrest : n % d = 0
  · rw [if_pos hrest, Nat.add_zero]
    constructor
    · intro hle
      have hmul := Nat.mul_le_mul_left d hle
      omega
    · intro hle
      exact Nat.div_le_of_le_mul hle
  · rw [if_neg hrest]
    constructor
    · intro hle
      have hmul := Nat.mul_le_mul_left d hle
      rw [Nat.mul_add, Nat.mul_one] at hmul
      omega
    · intro hle
      rw [Nat.add_one_le_iff, Nat.div_lt_iff_lt_mul hd, Nat.mul_comm]
      -- A multiple of `d` leaves nothing over.
      refine Nat.lt_of_le_of_ne hle ?_
      rintro rfl
      exact hrest (Nat.mul_mod_right d t)

namespace Checked

variable {a b c : UInt64}

/-! ## Words -/

/-- The sum of two words, if it fits. -/
def add (a b : UInt64) : Option UInt64 :=
  if a.toNat + b.toNat < 0x10000000000000000 then some (a + b) else none

/-- The quotient of two words; there is none by zero. -/
def div (a b : UInt64) : Option UInt64 := if b = 0 then none else some (a / b)

/-- The remainder of two words; there is none by zero. -/
def mod (a b : UInt64) : Option UInt64 := if b = 0 then none else some (a % b)

/-- The quotient of two words, rounded up. -/
def ceilDiv (a b : UInt64) : Option UInt64 := do
  let whole ← div a b
  let rest ← mod a b
  if 0 < rest then add whole 1 else some whole

theorem add_eq_some : add a b = some c ↔ c.toNat = a.toNat + b.toNat := by
  unfold add
  -- If the sum fits, the machine adds without wrapping; if not, no word could be the sum.
  by_cases hfits : a.toNat + b.toNat < 0x10000000000000000
  · have hsum : (a + b).toNat = a.toNat + b.toNat := by
      rw [UInt64.toNat_add, Nat.mod_eq_of_lt hfits]
    rw [if_pos hfits, Option.some_inj, ← UInt64.toNat_inj, hsum, eq_comm]
  · rw [if_neg hfits]
    constructor
    · intro h
      cases h
    · intro h
      have hlt := c.toNat_lt
      omega

theorem exists_add (h : a.toNat + b.toNat < 0x10000000000000000) : ∃ c, add a b = some c :=
  ⟨a + b, if_pos h⟩

theorem div_eq_some : div a b = some c ↔ b ≠ 0 ∧ c.toNat = a.toNat / b.toNat := by
  unfold div
  by_cases hzero : b = 0
  · simp [hzero]
  · rw [if_neg hzero, Option.some_inj, ← UInt64.toNat_inj, UInt64.toNat_div]
    simp [hzero, eq_comm]

theorem mod_eq_some : mod a b = some c ↔ b ≠ 0 ∧ c.toNat = a.toNat % b.toNat := by
  unfold mod
  by_cases hzero : b = 0
  · simp [hzero]
  · rw [if_neg hzero, Option.some_inj, ← UInt64.toNat_inj, UInt64.toNat_mod]
    simp [hzero, eq_comm]

theorem toNat_pos (hb : b ≠ 0) : 0 < b.toNat := by
  rw [← UInt64.toNat_zero, ← UInt64.lt_iff_toNat_lt]
  exact UInt64.pos_iff_ne_zero.2 hb

theorem ceilDiv_eq_some : ceilDiv a b = some c ↔ b ≠ 0 ∧ c.toNat = a.toNat ⌈/⌉ b.toNat := by
  by_cases hzero : b = 0
  · -- By zero both sides fail. Otherwise a rest asks for one more than the quotient.
    simp [ceilDiv, div, hzero]
  have hwhole : div a b = some (a / b) := div_eq_some.2 ⟨hzero, UInt64.toNat_div a b⟩
  have hrest : mod a b = some (a % b) := mod_eq_some.2 ⟨hzero, UInt64.toNat_mod a b⟩
  unfold ceilDiv
  rw [hwhole, hrest, Option.bind_eq_bind, Option.bind_some, Option.bind_some,
    ← div_add_rest a.toNat (toNat_pos hzero), ← UInt64.toNat_div, ← UInt64.toNat_mod,
    and_iff_right hzero]
  by_cases hover : 0 < a % b
  · have hne : (a % b).toNat ≠ 0 := Nat.ne_of_gt (UInt64.lt_iff_toNat_lt.1 hover)
    rw [if_pos hover, if_neg hne]
    exact add_eq_some
  · have hnone : (a % b).toNat = 0 := by
      rw [UInt64.lt_iff_toNat_lt] at hover
      exact Nat.eq_zero_of_not_pos hover
    rw [if_neg hover, if_pos hnone, Option.some_inj, ← UInt64.toNat_inj, Nat.add_zero, eq_comm]

/-- A quotient rounded up is no more than what was divided, which is a word: to add one never
overflows. -/
theorem exists_ceilDiv (a : UInt64) (hb : b ≠ 0) : ∃ c, ceilDiv a b = some c := by
  have hpos := toNat_pos hb
  have hle : a.toNat ⌈/⌉ b.toNat ≤ a.toNat :=
    (ceilDiv_le_iff_le_mul hpos).2 (Nat.le_mul_of_pos_left _ hpos)
  have hlt : a.toNat ⌈/⌉ b.toNat < UInt64.size := Nat.lt_of_le_of_lt hle a.toNat_lt
  exact ⟨.ofNat (a.toNat ⌈/⌉ b.toNat), ceilDiv_eq_some.2 ⟨hb, UInt64.toNat_ofNat_of_lt' hlt⟩⟩

end Checked

end EventSandbox
