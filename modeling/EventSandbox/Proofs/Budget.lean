import EventSandbox.Budget
import EventSandbox.Proofs.Number.Checked
import Mathlib.Order.Bounds.Basic

/-!
# EventSandbox.Proofs.Budget — how many ticks a deadline has

A number of ticks covers a timeout if there is at least one of them and together they last no
shorter (`Covers`). A number does so exactly if it is no less than `ticks` (`ticks_le_iff`), which
is therefore the fewest that do. What covers a timeout covers a shorter one, and does so with longer
ticks as well: that is all there is to the order among deadlines (`ticks_le_ticks`).

The same budget is also computed in 64-bit words, by steps that may have no result (`ofWords`). Each
of them has one, whatever the settings, and those that no processor accepts are no exception
(`ofWords_eq`).
-/

namespace EventSandbox.Budget

variable {timeoutMs timeoutMs' tickMs tickMs' : UInt64}

/-! ## Ticks -/

/-- At least one tick, and together they last no shorter than the timeout. A tick of no length
lasts a millisecond. -/
def Covers (timeoutMs tickMs : UInt64) (t : Nat) : Prop :=
  1 ≤ t ∧ timeoutMs.toNat ≤ t * max tickMs.toNat 1

/-- The ticks of a deadline. -/
def ticks (timeoutMs tickMs : UInt64) : Nat :=
  max (ceilDiv timeoutMs.toNat (max tickMs.toNat 1)) 1

theorem epochTicks?_eq (engine : EngineConfig) (execution : ExecutionConfig) :
    (ofConfig engine execution).epochTicks? =
      if engine.epochInterruption then some (ticks execution.timeoutMs engine.epochTickMs)
      else none := rfl

/-- The ticks of every deadline are these. -/
theorem eq_ticks_of_epochTicks? {engine : EngineConfig} {execution : ExecutionConfig} {t : Nat}
    (h : (ofConfig engine execution).epochTicks? = some t) :
    t = ticks execution.timeoutMs engine.epochTickMs := by
  rw [epochTicks?_eq] at h
  by_cases hepoch : engine.epochInterruption = true
  · rw [if_pos hepoch] at h
    exact (Option.some.inj h).symm
  · rw [if_neg hepoch] at h
    cases h

theorem ceilDiv_eq (n : Nat) {d : Nat} (hd : 0 < d) : ceilDiv n d = n ⌈/⌉ d := div_add_rest n hd

theorem ticks_le_iff {t : Nat} : ticks timeoutMs tickMs ≤ t ↔ Covers timeoutMs tickMs t := by
  have hpos : 0 < max tickMs.toNat 1 := lt_max_of_lt_right Nat.one_pos
  unfold ticks Covers
  rw [max_le_iff, ceilDiv_eq _ hpos, ceilDiv_le_iff_le_mul hpos, Nat.mul_comm, and_comm]

theorem isLeast_ticks (timeoutMs tickMs : UInt64) :
    IsLeast {t | Covers timeoutMs tickMs t} (ticks timeoutMs tickMs) := by
  constructor
  · exact ticks_le_iff.1 (Nat.le_refl _)
  · intro t ht
    exact ticks_le_iff.2 ht

/-- What covers a timeout covers a shorter one, also with longer ticks. -/
theorem Covers.mono {t : Nat} (h : Covers timeoutMs' tickMs' t) (htimeout : timeoutMs ≤ timeoutMs')
    (htick : tickMs' ≤ tickMs) : Covers timeoutMs tickMs t := by
  obtain ⟨hone, hcovers⟩ := h
  have hlonger : max tickMs'.toNat 1 ≤ max tickMs.toNat 1 :=
    max_le_max_right 1 (UInt64.le_iff_toNat_le.1 htick)
  refine ⟨hone, ?_⟩
  calc timeoutMs.toNat ≤ timeoutMs'.toNat := UInt64.le_iff_toNat_le.1 htimeout
    _ ≤ t * max tickMs'.toNat 1 := hcovers
    _ ≤ t * max tickMs.toNat 1 := Nat.mul_le_mul_left t hlonger

theorem ticks_le_ticks (htimeout : timeoutMs ≤ timeoutMs') (htick : tickMs' ≤ tickMs) :
    ticks timeoutMs tickMs ≤ ticks timeoutMs' tickMs' := by
  have hcovers := (isLeast_ticks timeoutMs' tickMs').1
  exact ticks_le_iff.2 (hcovers.mono htimeout htick)

/-! ## In words -/

/-- The ticks of a deadline, computed in 64-bit words. -/
def wordTicks (timeoutMs tickMs : UInt64) : Option UInt64 :=
  (Checked.ceilDiv timeoutMs (max tickMs 1)).map (max · 1)

theorem exists_wordTicks (timeoutMs tickMs : UInt64) :
    ∃ word, wordTicks timeoutMs tickMs = some word ∧ word.toNat = ticks timeoutMs tickMs := by
  -- A tick of no length counts as one, so the divisor is never zero.
  have htick : (max tickMs 1).toNat = max tickMs.toNat 1 := UInt64.toNat_max tickMs 1
  have hpos : 0 < max tickMs.toNat 1 := lt_max_of_lt_right Nat.one_pos
  have hne : max tickMs 1 ≠ 0 := by
    intro hzero
    rw [← htick, hzero] at hpos
    exact Nat.lt_irrefl 0 hpos
  obtain ⟨covering, hcovering⟩ := Checked.exists_ceilDiv timeoutMs hne
  obtain ⟨-, hvalue⟩ := Checked.ceilDiv_eq_some.1 hcovering
  refine ⟨max covering 1, ?_, ?_⟩
  · rw [wordTicks, hcovering, Option.map_some]
  · rw [UInt64.toNat_max, hvalue, htick, ← ceilDiv_eq _ hpos]
    rfl

/-- The ticks of the deadline, in words, where there is a deadline. -/
def wordDeadline (engine : EngineConfig) (execution : ExecutionConfig) : Option (Option UInt64) :=
  if engine.epochInterruption then (wordTicks execution.timeoutMs engine.epochTickMs).map some
  else some none

theorem exists_wordDeadline (engine : EngineConfig) (execution : ExecutionConfig) :
    ∃ deadline, wordDeadline engine execution = some deadline ∧
      deadline.map UInt64.toNat = (ofConfig engine execution).epochTicks? := by
  unfold wordDeadline
  rw [epochTicks?_eq]
  by_cases hepoch : engine.epochInterruption = true
  · obtain ⟨word, hword, hvalue⟩ := exists_wordTicks execution.timeoutMs engine.epochTickMs
    rw [if_pos hepoch, if_pos hepoch, hword, ← hvalue]
    exact ⟨some word, rfl, rfl⟩
  · rw [if_neg hepoch, if_neg hepoch]
    exact ⟨none, rfl, rfl⟩

/-- The budget that a configuration gives each call, computed in 64-bit words; there is none if a
step of the computation has no result. -/
def ofWords (engine : EngineConfig) (execution : ExecutionConfig) : Option Budget :=
  (wordDeadline engine execution).map fun deadline =>
    { fuel? := if engine.fuelMetering then some execution.maxFuel.toNat else none
      epochTicks? := deadline.map UInt64.toNat
      timeoutMs := execution.timeoutMs.toNat }

theorem ofWords_eq (engine : EngineConfig) (execution : ExecutionConfig) :
    ofWords engine execution = some (ofConfig engine execution) := by
  obtain ⟨deadline, hdeadline, hvalue⟩ := exists_wordDeadline engine execution
  unfold ofWords
  rw [hdeadline, Option.map_some, hvalue]
  rfl

/-! ## Budgets -/

/-- What a configuration grants each call. -/
structure Grants (engine : EngineConfig) (execution : ExecutionConfig) (budget : Budget) :
    Prop where
  /-- The fewest ticks that cover the timeout. -/
  deadline : engine.epochInterruption = true → ∃ least, budget.epochTicks? = some least ∧
    IsLeast {t | Covers execution.timeoutMs engine.epochTickMs t} least
  noDeadline : engine.epochInterruption = false → budget.epochTicks? = none
  fuel : ∀ units, budget.fuel? = some units ↔
    engine.fuelMetering = true ∧ units = execution.maxFuel.toNat

theorem grants_ofConfig (engine : EngineConfig) (execution : ExecutionConfig) :
    Grants engine execution (ofConfig engine execution) := by
  constructor
  case deadline =>
    intro hepoch
    refine ⟨ticks execution.timeoutMs engine.epochTickMs, ?_, isLeast_ticks _ _⟩
    rw [epochTicks?_eq, if_pos hepoch]
  case noDeadline =>
    intro hepoch
    rw [epochTicks?_eq, hepoch]
    rfl
  case fuel =>
    intro units
    unfold ofConfig
    by_cases hmetered : engine.fuelMetering = true
    · simp [hmetered, eq_comm]
    · simp [hmetered]

/-- The budget of any settings at all, whether or not a processor accepts them. In 64-bit words no
step of its computation overflows or divides by zero. A deadline has the fewest ticks that cover the
timeout, so that with a timeout that is no longer and a tick that is no shorter, whatever else
differs, it has no more. -/
theorem ofConfig_covers (engine : EngineConfig) (execution : ExecutionConfig) :
    ofWords engine execution = some (ofConfig engine execution) ∧
    Grants engine execution (ofConfig engine execution) ∧
    ∀ engine' execution' t t',
      (ofConfig engine execution).epochTicks? = some t →
      (ofConfig engine' execution').epochTicks? = some t' →
      execution.timeoutMs ≤ execution'.timeoutMs → engine'.epochTickMs ≤ engine.epochTickMs →
      t ≤ t' := by
  refine ⟨ofWords_eq engine execution, grants_ofConfig engine execution, ?_⟩
  intro engine' execution' t t' ht ht' htimeout htick
  rw [eq_ticks_of_epochTicks? ht, eq_ticks_of_epochTicks? ht']
  exact ticks_le_ticks htimeout htick

/-- Three ticks of ten milliseconds cover 25. The longest timeout has as many ticks as
milliseconds if a tick has no length, and that is not too many for a word. -/
theorem ofConfig_covers_longest :
    (ofConfig ⟨true, true, 10⟩ ⟨500, 25, 1⟩).epochTicks? = some 3 ∧
    (ofConfig ⟨false, true, 0⟩ ⟨500, 0xFFFFFFFFFFFFFFFF, 0⟩).epochTicks? =
      some 0xFFFFFFFFFFFFFFFF ∧
    ofWords ⟨false, true, 0⟩ ⟨500, 0xFFFFFFFFFFFFFFFF, 0⟩ =
      some ⟨none, some 0xFFFFFFFFFFFFFFFF, 0xFFFFFFFFFFFFFFFF⟩ ∧
    3 ≤ 0xFFFFFFFFFFFFFFFF := by
  have hshort : (ofConfig ⟨true, true, 10⟩ ⟨500, 25, 1⟩).epochTicks? = some 3 := by decide
  have hlong : (ofConfig ⟨false, true, 0⟩ ⟨500, 0xFFFFFFFFFFFFFFFF, 0⟩).epochTicks? =
      some 0xFFFFFFFFFFFFFFFF := by decide
  have hwords := (ofConfig_covers ⟨false, true, 0⟩ ⟨500, 0xFFFFFFFFFFFFFFFF, 0⟩).1
  have hmono := (ofConfig_covers ⟨true, true, 10⟩ ⟨500, 25, 1⟩).2.2
  refine ⟨hshort, hlong, hwords, ?_⟩
  exact hmono _ _ _ _ hshort hlong (by decide) (by decide)

end EventSandbox.Budget
