import EventSandbox.Proofs.Pool.Callers

/-!
# EventSandbox.Proofs.Pool.Occupancy — how many items a pool has at once

An acquisition is open from its pop until its item is back in the pool or dropped. `Acquired` lists
the states of a pool that is seeded once and has at most `k` acquisitions open at any time.

An item is made only for an acquisition that saw no item idle. At that moment every item there is
belongs to an open acquisition of its own, so that there are never more than `k` of them
(`live_le`). A pool with room for `k` items takes every one of them back, whence none is ever
dropped (`kept_of_le`), and the seed leaves at most `k - 1` to be built (`created_lt`).
-/

namespace EventSandbox.Pool.Callers

variable {κ ι : Type} {capacity k : Nat} {seed : ι} {s s' : Callers κ ι} {action : Action κ ι}

/-- How many acquisitions are open. -/
def openCount (s : Callers κ ι) : Nat := s.ops.card + s.held.card

/-- How many items there are, those that are being made or dropped included. -/
def liveCount (s : Callers κ ι) : Nat := s.pool.idle.length + s.openCount

/-- The states of a seeded pool that some interleaving of at most `k` open acquisitions reaches. -/
inductive Acquired (capacity k : Nat) (seed : ι) : Callers κ ι → Prop
  | start : Acquired capacity k seed (start capacity (some seed))
  | step {s s' : Callers κ ι} {action : Action κ ι} (hs : Acquired capacity k seed s)
      (h : s.Step action s') (hopen : s'.openCount ≤ k) : Acquired capacity k seed s'

namespace Acquired

theorem reachable (h : Acquired capacity k seed s) : Reachable capacity (some seed) s := by
  induction h with
  | start => exact .start
  | step _ hstep _ ih => exact .step ih hstep

theorem openCount_le (h : Acquired capacity k seed s) : s.openCount ≤ k := by
  cases h with
  | start => exact Nat.zero_le k
  | step _ _ hopen => exact hopen

theorem mono {k' : Nat} (h : Acquired capacity k seed s) (hk : k ≤ k') :
    Acquired capacity k' seed s := by
  induction h with
  | start => exact .start
  | step _ hstep hopen ih => exact .step ih hstep (hopen.trans hk)

end Acquired

/-! ## What one step does to the numbers -/

/-- Items get more only when somebody who sees none idle begins to make one. -/
theorem liveCount_step (h : s.Step action s') :
    s'.liveCount ≤ s.liveCount ∨ s'.liveCount = s'.openCount := by
  unfold liveCount openCount
  cases h with
  | take hpop =>
    left
    obtain ⟨hidle, -, -⟩ := pop_eq_some hpop
    rw [hidle]
    simp only [Multiset.card_cons, List.length_cons]
    omega
  | miss hpop =>
    -- No item is idle, so all that there are belong to open acquisitions.
    right
    obtain ⟨hidle, rfl⟩ := pop_eq_none hpop
    rw [hidle, List.length_nil, Nat.zero_add]
  | build hop _ | fail hop | drop hop =>
    left
    rw [hop]
    simp only [Multiset.card_cons]
    omega
  | count hop =>
    left
    rw [hop]
    simp only [Multiset.card_cons, countBuilt]
    omega
  | keep hheld hoffer =>
    left
    obtain ⟨-, rfl⟩ := offer_eq_true hoffer
    rw [hheld]
    simp only [Multiset.card_cons, List.length_cons]
    omega
  | refuse hheld hoffer =>
    left
    obtain ⟨-, rfl⟩ := offer_eq_false hoffer
    rw [hheld]
    simp only [Multiset.card_cons]
    omega

theorem seeded_step (h : s.Step action s') : s'.seeded = s.seeded := by
  cases h <;> rfl

/-- Nothing has been dropped, and nothing is about to be. -/
structure Kept (s : Callers κ ι) : Prop where
  dropped : s.dropped = 0
  accepted : ∀ op ∈ s.ops, op.isGet

/-- A pool with room for everything there is takes back what it is offered. -/
theorem kept_step (hkept : s.Kept) (hroom : s.liveCount ≤ s.pool.capacity)
    (h : s.Step action s') : s'.Kept := by
  obtain ⟨hdropped, haccepted⟩ := hkept
  cases h with
  | take | keep => exact ⟨hdropped, haccepted⟩
  | miss => exact ⟨hdropped, Multiset.forall_mem_cons.2 ⟨rfl, haccepted⟩⟩
  | build hop =>
    rw [hop, Multiset.forall_mem_cons] at haccepted
    exact ⟨hdropped, Multiset.forall_mem_cons.2 ⟨rfl, haccepted.2⟩⟩
  | fail hop | count hop =>
    rw [hop, Multiset.forall_mem_cons] at haccepted
    exact ⟨hdropped, haccepted.2⟩
  | refuse hheld hoffer =>
    -- The item that is offered is one more than those that are idle.
    obtain ⟨hfull, -⟩ := offer_eq_false hoffer
    unfold liveCount openCount at hroom
    rw [hheld, Multiset.card_cons] at hroom
    omega
  | drop hop =>
    have hrefused := haccepted _ (hop ▸ Multiset.mem_cons_self _ _)
    cases hrefused

/-! ## What every interleaving keeps -/

theorem live_le (hk : 1 ≤ k) (h : Acquired capacity k seed s) : s.liveCount ≤ k := by
  induction h with
  | start =>
    have haccounted := (inv_start (κ := κ) capacity (some seed)).accounted
    have hcard := congrArg Multiset.card haccounted
    simp [start, made, inHands] at hcard
    simp [start, liveCount, openCount]
    omega
  | step _ hstep hopen ih =>
    -- The sum grows only where it becomes the number of open calls, which the bound is about.
    rcases liveCount_step hstep with hle | heq
    · exact hle.trans ih
    · exact heq.trans_le hopen

theorem seeded_eq (h : Acquired capacity k seed s) : s.seeded = {seed} := by
  induction h with
  | start => rfl
  | step _ hstep _ ih => exact (seeded_step hstep).trans ih

theorem kept_of_le (hcapacity : 1 ≤ capacity) (hk : 1 ≤ k) (hle : k ≤ capacity)
    (h : Acquired capacity k seed s) : s.Kept := by
  induction h with
  | start => exact ⟨if_neg (Nat.ne_of_gt hcapacity), by simp [start]⟩
  | step hs hstep _ ih =>
    have hfixed := (inv_of_reachable hs.reachable).fixed
    exact kept_step ih (hfixed ▸ (live_le hk hs).trans hle) hstep

theorem card_carried_le (ops : Multiset (Op κ ι)) : (carried ops).card ≤ ops.card := by
  induction ops using Quotient.inductionOn with
  | h ops => exact List.length_filterMap_le Op.carried? ops

/-- As long as nothing is dropped, every item that was built is there beside the seed. -/
theorem created_lt (hk : 1 ≤ k) (h : Acquired capacity k seed s) (hdropped : s.dropped = 0) :
    s.pool.created < k := by
  have hinv := inv_of_reachable h.reachable
  have hlive := live_le hk h
  have hcard := congrArg Multiset.card hinv.accounted
  have hcarried := card_carried_le s.ops
  have hcounted := hinv.counted
  unfold liveCount openCount at hlive
  simp only [made, inHands, seeded_eq h, hdropped, Multiset.card_add, Multiset.card_singleton,
    Multiset.card_map, Multiset.coe_card, Multiset.card_zero] at hcard
  omega

end EventSandbox.Pool.Callers
