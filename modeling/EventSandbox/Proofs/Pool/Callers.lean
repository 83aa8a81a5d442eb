import EventSandbox.Pool.Basic
import Mathlib.Data.Multiset.Count
import Mathlib.Data.Multiset.Filter
import Mathlib.Data.Multiset.UnionInter

/-!
# EventSandbox.Proofs.Pool.Callers — a pool that many callers share

Any number of callers use one pool, and each operation may be interrupted after each of its atomic
steps. `Step` lists these steps; they act on the pool by `Pool.pop`, `Pool.countBuilt` and
`Pool.offer`, and between them an operation is on its way (`Op`).

1. A get pops an idle item, or sees that there is none, calls the factory and counts what it made.
2. A put, and a guard that is dropped, offers an item; if it is refused, it is dropped after that.

`Inv` is what every interleaving keeps: who has an item is known, and nobody else has it.
-/

namespace EventSandbox.Pool

variable {κ ι : Type}

/-! ## States -/

/-- How an item is held: on its own, or by a guard that gives it back. -/
inductive Grip
  | bare
  | guard
deriving DecidableEq, Repr

/-- An item in the hands of a caller. -/
structure Hold (κ ι : Type) where
  caller : κ
  grip : Grip
  item : ι

/-- How far an operation has come that has released the lock. -/
inductive Phase (ι : Type)
  /-- A get has seen these items idle and calls the factory. -/
  | building (seen : List ι)
  /-- A get has an item from the factory that is not counted yet. -/
  | built (item : ι)
  /-- A put has been refused its item. -/
  | refused (item : ι)

/-- An operation that is on its way. -/
structure Op (κ ι : Type) where
  caller : κ
  grip : Grip
  phase : Phase ι

namespace Op

/-- What an operation has in its hands. -/
def carried? (op : Op κ ι) : Option (Hold κ ι) :=
  match op.phase with
  | .building _ => none
  | .built item | .refused item => some ⟨op.caller, op.grip, item⟩

/-- Whether it is a get. -/
def isGet (op : Op κ ι) : Bool :=
  match op.phase with
  | .building _ | .built _ => true
  | .refused _ => false

/-- Whether it has made an item that is not counted. -/
def isUncounted (op : Op κ ι) : Bool :=
  match op.phase with
  | .built _ => true
  | .building _ | .refused _ => false

end Op

/-! ## Operations on their way -/

section Ops

variable (c : κ) (grip : Grip) (seen : List ι) (item : ι) (ops : Multiset (Op κ ι))

/-- What all operations have in their hands. -/
def carried (ops : Multiset (Op κ ι)) : Multiset (Hold κ ι) := ops.filterMap Op.carried?

/-- How many items have been made and not counted. -/
def uncounted (ops : Multiset (Op κ ι)) : Nat := ops.countP (·.isUncounted)

@[simp] theorem carried_zero : carried (0 : Multiset (Op κ ι)) = 0 := rfl

@[simp] theorem carried_building :
    carried (⟨c, grip, .building seen⟩ ::ₘ ops) = carried ops :=
  Multiset.filterMap_cons_none _ _ rfl

@[simp] theorem carried_built :
    carried (⟨c, grip, .built item⟩ ::ₘ ops) = ⟨c, grip, item⟩ ::ₘ carried ops :=
  Multiset.filterMap_cons_some _ _ _ rfl

@[simp] theorem carried_refused :
    carried (⟨c, grip, .refused item⟩ ::ₘ ops) = ⟨c, grip, item⟩ ::ₘ carried ops :=
  Multiset.filterMap_cons_some _ _ _ rfl

@[simp] theorem uncounted_zero : uncounted (0 : Multiset (Op κ ι)) = 0 := rfl

@[simp] theorem uncounted_building :
    uncounted (⟨c, grip, .building seen⟩ ::ₘ ops) = uncounted ops :=
  Multiset.countP_cons_of_neg _ (by simp [Op.isUncounted])

@[simp] theorem uncounted_built :
    uncounted (⟨c, grip, .built item⟩ ::ₘ ops) = uncounted ops + 1 :=
  Multiset.countP_cons_of_pos _ (by simp [Op.isUncounted])

@[simp] theorem uncounted_refused :
    uncounted (⟨c, grip, .refused item⟩ ::ₘ ops) = uncounted ops :=
  Multiset.countP_cons_of_neg _ (by simp [Op.isUncounted])

end Ops

/-- A pool, its callers, and what has become of its items. -/
structure Callers (κ ι : Type) where
  pool : Pool ι
  ops : Multiset (Op κ ι)
  held : Multiset (Hold κ ι)
  dropped : Multiset ι
  /-- The items that the pool was given when it was made. -/
  seeded : Multiset ι
  /-- The items that the factory has made. -/
  built : Multiset ι
  /-- For every call of the factory, the items that its caller saw idle. -/
  factoryCalls : List (List ι)

namespace Callers

/-- Every item there has ever been. -/
def made (s : Callers κ ι) : Multiset ι := s.seeded + s.built

/-- The items in the hands of callers, those on their way included. -/
def inHands (s : Callers κ ι) : Multiset (Hold κ ι) := s.held + carried s.ops

/-- A pool that nobody has used yet. A seed that finds no room is dropped. -/
def start (capacity : Nat) (seed? : Option ι) : Callers κ ι where
  pool :=
    match seed? with
    | none => Pool.empty capacity
    | some seed => Pool.withSeed seed capacity
  ops := 0
  held := 0
  dropped := if capacity = 0 then ↑seed?.toList else 0
  seeded := ↑seed?.toList
  built := 0
  factoryCalls := []

/-! ## Steps -/

/-- The atomic steps, by the caller who makes them. -/
inductive Action (κ ι : Type)
  | pop (caller : κ) (grip : Grip)
  /-- The factory has made an item, or failed. -/
  | factory (caller : κ) (item? : Option ι)
  | count (caller : κ)
  | offer (caller : κ)
  | drop (caller : κ)

/-- What each step does. -/
inductive Step (s : Callers κ ι) : Action κ ι → Callers κ ι → Prop
  | take {c grip item pool} (hpop : s.pool.pop = (some item, pool)) :
      Step s (.pop c grip) { s with pool, held := ⟨c, grip, item⟩ ::ₘ s.held }
  | miss {c grip pool} (hpop : s.pool.pop = (none, pool)) :
      Step s (.pop c grip)
        { s with pool, ops := ⟨c, grip, .building s.pool.idle⟩ ::ₘ s.ops }
  /-- An item that has just been made is no other item. -/
  | build {c grip seen item ops} (hop : s.ops = ⟨c, grip, .building seen⟩ ::ₘ ops)
      (hnew : item ∉ s.made) :
      Step s (.factory c (some item))
        { s with
          ops := ⟨c, grip, .built item⟩ ::ₘ ops
          built := item ::ₘ s.built
          factoryCalls := seen :: s.factoryCalls }
  | fail {c grip seen ops} (hop : s.ops = ⟨c, grip, .building seen⟩ ::ₘ ops) :
      Step s (.factory c none) { s with ops, factoryCalls := seen :: s.factoryCalls }
  | count {c grip item ops} (hop : s.ops = ⟨c, grip, .built item⟩ ::ₘ ops) :
      Step s (.count c)
        { s with ops, pool := s.pool.countBuilt, held := ⟨c, grip, item⟩ ::ₘ s.held }
  | keep {c grip item held pool} (hheld : s.held = ⟨c, grip, item⟩ ::ₘ held)
      (hoffer : s.pool.offer item = (true, pool)) :
      Step s (.offer c) { s with pool, held }
  | refuse {c grip item held pool} (hheld : s.held = ⟨c, grip, item⟩ ::ₘ held)
      (hoffer : s.pool.offer item = (false, pool)) :
      Step s (.offer c) { s with pool, held, ops := ⟨c, grip, .refused item⟩ ::ₘ s.ops }
  | drop {c grip item ops} (hop : s.ops = ⟨c, grip, .refused item⟩ ::ₘ ops) :
      Step s (.drop c) { s with ops, dropped := item ::ₘ s.dropped }

/-- The states that some interleaving reaches. -/
inductive Reachable (capacity : Nat) (seed? : Option ι) : Callers κ ι → Prop
  | start : Reachable capacity seed? (start capacity seed?)
  | step {s s' action} (hs : Reachable capacity seed? s) (h : s.Step action s') :
      Reachable capacity seed? s'

/-! ## The invariant -/

/-- What every interleaving keeps. -/
structure Inv (capacity : Nat) (s : Callers κ ι) : Prop where
  fixed : s.pool.capacity = capacity
  bounded : s.pool.idle.length ≤ capacity
  /-- Every item is idle, in the hands of a caller or dropped. -/
  accounted : s.made = ↑s.pool.idle + s.inHands.map Hold.item + s.dropped
  /-- No item is there twice. -/
  nodup : s.made.Nodup
  /-- Who builds has seen no item idle. -/
  building : ∀ op ∈ s.ops, ∀ seen, op.phase = .building seen → seen = []
  called : ∀ seen ∈ s.factoryCalls, seen = []
  counted : s.built.card = s.pool.created + uncounted s.ops

variable {capacity : Nat} {seed? : Option ι} {s s' : Callers κ ι} {action : Action κ ι}

theorem inv_start (capacity : Nat) (seed? : Option ι) :
    Inv capacity (start capacity seed? : Callers κ ι) := by
  -- The seed is idle if there is room for it, and otherwise it is not there at all.
  cases seed? with
  | none =>
    exact ⟨rfl, Nat.zero_le _, by simp [start, made, inHands, Pool.empty], by simp [start, made],
      by simp [start], by simp [start], rfl⟩
  | some seed =>
    by_cases h : capacity = 0
    · subst h
      exact ⟨rfl, Nat.zero_le _, by simp [start, made, inHands, withSeed, Pool.empty, offer],
        by simp [start, made], by simp [start], by simp [start], rfl⟩
    · have hpool : (withSeed seed capacity : Pool ι) = ⟨[seed], capacity, 0⟩ := by
        simp [withSeed, Pool.empty, offer, Nat.pos_of_ne_zero h]
      refine ⟨?_, ?_, ?_, ?_, ?_, ?_, ?_⟩
      · simp [start, hpool]
      · simp [start, hpool]
        omega
      · simp [start, made, inHands, hpool, h]
      · simp [start, made]
      · simp [start]
      · simp [start]
      · simp [start, hpool]

/-! ## What one step keeps -/

theorem pop_eq_some {p p' : Pool ι} {item : ι} (h : p.pop = (some item, p')) :
    p.idle = item :: p'.idle ∧ p'.capacity = p.capacity ∧ p'.created = p.created := by
  unfold pop at h
  split at h
  · cases h
  · cases h
    exact ⟨‹_›, rfl, rfl⟩

theorem pop_eq_none {p p' : Pool ι} (h : p.pop = (none, p')) : p.idle = [] ∧ p' = p := by
  unfold pop at h
  split at h
  · cases h
    exact ⟨‹_›, rfl⟩
  · cases h

theorem offer_eq_true {p p' : Pool ι} {item : ι} (h : p.offer item = (true, p')) :
    p.idle.length < p.capacity ∧ p' = { p with idle := item :: p.idle } := by
  unfold offer at h
  split at h
  · cases h
    exact ⟨‹_›, rfl⟩
  · cases h

theorem offer_eq_false {p p' : Pool ι} {item : ι} (h : p.offer item = (false, p')) :
    p.capacity ≤ p.idle.length ∧ p' = p := by
  unfold offer at h
  split at h
  · cases h
  · cases h
    exact ⟨by omega, rfl⟩

theorem inv_step (hinv : Inv capacity s) (h : s.Step action s') : Inv capacity s' := by
  -- Every step moves one item from one place to another, so that the sum of the places stays the
  -- same. Only `build` brings an item, which is new.
  obtain ⟨hfixed, hbounded, haccounted, hnodup, hbuilding, hcalled, hcounted⟩ := hinv
  unfold made at haccounted hnodup
  unfold inHands at haccounted
  cases h with
  | take hpop =>
    obtain ⟨hidle, hcapacity, hcreated⟩ := pop_eq_some hpop
    refine ⟨hcapacity.trans hfixed, ?_, ?_, hnodup, hbuilding, hcalled, ?_⟩
    · rw [hidle] at hbounded
      exact Nat.le_of_succ_le hbounded
    · rw [hidle, ← Multiset.cons_coe, Multiset.cons_add, Multiset.cons_add] at haccounted
      simpa [made, inHands] using haccounted
    · rw [hcreated]
      exact hcounted
  | miss hpop =>
    obtain ⟨hidle, rfl⟩ := pop_eq_none hpop
    refine ⟨hfixed, hbounded, ?_, hnodup, ?_, hcalled, ?_⟩
    · simpa [made, inHands] using haccounted
    · refine Multiset.forall_mem_cons.2 ⟨?_, hbuilding⟩
      rintro seen ⟨⟩
      exact hidle
    · simpa using hcounted
  -- Where an operation goes on that was on its way, the others stay where they are.
  | @build c grip seen item ops hop hnew =>
    rw [hop] at haccounted hbuilding hcounted
    obtain ⟨hempty, hothers⟩ := Multiset.forall_mem_cons.1 hbuilding
    refine ⟨hfixed, hbounded, ?_, ?_, Multiset.forall_mem_cons.2 ⟨nofun, hothers⟩,
      List.forall_mem_cons.2 ⟨hempty _ rfl, hcalled⟩, ?_⟩
    · simpa [made, inHands] using haccounted
    · show (s.seeded + item ::ₘ s.built).Nodup
      rw [Multiset.add_cons]
      exact Multiset.nodup_cons.2 ⟨hnew, hnodup⟩
    · simp at hcounted ⊢
      omega
  | fail hop =>
    rw [hop] at haccounted hbuilding hcounted
    obtain ⟨hempty, hothers⟩ := Multiset.forall_mem_cons.1 hbuilding
    refine ⟨hfixed, hbounded, ?_, hnodup, hothers,
      List.forall_mem_cons.2 ⟨hempty _ rfl, hcalled⟩, ?_⟩
    · simpa [made, inHands] using haccounted
    · simpa using hcounted
  | count hop =>
    rw [hop] at haccounted hbuilding hcounted
    obtain ⟨-, hothers⟩ := Multiset.forall_mem_cons.1 hbuilding
    refine ⟨hfixed, hbounded, ?_, hnodup, hothers, hcalled, ?_⟩
    · simpa [made, inHands, countBuilt] using haccounted
    · simp [countBuilt] at hcounted ⊢
      omega
  | keep hheld hoffer =>
    obtain ⟨hroom, rfl⟩ := offer_eq_true hoffer
    rw [hheld] at haccounted
    refine ⟨hfixed, ?_, ?_, hnodup, hbuilding, hcalled, hcounted⟩
    · rw [hfixed] at hroom
      exact hroom
    · show s.seeded + s.built = ↑(_ :: s.pool.idle) + _ + s.dropped
      rw [← Multiset.cons_coe, Multiset.cons_add, Multiset.cons_add]
      simpa [inHands] using haccounted
  | refuse hheld hoffer =>
    obtain ⟨-, rfl⟩ := offer_eq_false hoffer
    rw [hheld] at haccounted
    refine ⟨hfixed, hbounded, ?_, hnodup, Multiset.forall_mem_cons.2 ⟨nofun, hbuilding⟩,
      hcalled, ?_⟩
    · simpa [made, inHands] using haccounted
    · simpa using hcounted
  | drop hop =>
    rw [hop] at haccounted hbuilding hcounted
    obtain ⟨-, hothers⟩ := Multiset.forall_mem_cons.1 hbuilding
    refine ⟨hfixed, hbounded, ?_, hnodup, hothers, hcalled, ?_⟩
    · simpa [made, inHands] using haccounted
    · simpa using hcounted

theorem inv_of_reachable (h : Reachable capacity seed? s) : Inv capacity s := by
  induction h with
  | start => exact inv_start capacity seed?
  | step _ hstep ih => exact inv_step ih hstep

/-! ## Ownership -/

/-- Where an item is, and that it is nowhere else: idle, in the hands of one caller, or dropped. -/
def InOnePlace (s : Callers κ ι) (item : ι) : Prop :=
  (item ∈ s.pool.idle ∧ (∀ hold ∈ s.inHands, hold.item ≠ item) ∧ item ∉ s.dropped) ∨
  (item ∉ s.pool.idle ∧ (∃! hold, hold ∈ s.inHands ∧ hold.item = item) ∧ item ∉ s.dropped) ∨
  (item ∉ s.pool.idle ∧ (∀ hold ∈ s.inHands, hold.item ≠ item) ∧ item ∈ s.dropped)

/-- No get is on its way. -/
def NoGet (s : Callers κ ι) : Prop := ∀ op ∈ s.ops, op.isGet = false

theorem uncounted_of_noGet (h : s.NoGet) : uncounted s.ops = 0 := by
  refine Multiset.countP_eq_zero.2 fun op hop huncounted => ?_
  have hget := h op hop
  unfold Op.isGet at hget
  unfold Op.isUncounted at huncounted
  split at huncounted <;> simp_all

theorem inOnePlace_of_inv (hinv : Inv capacity s) {item : ι} (hitem : item ∈ s.made) :
    s.InOnePlace item := by
  have hnodup := hinv.nodup
  rw [hinv.accounted] at hitem hnodup
  -- The places are the summands of a multiset without repetitions, so no two share an item.
  obtain ⟨hleft, -, hdropped⟩ := Multiset.nodup_add.1 hnodup
  obtain ⟨-, hhands, hidle⟩ := Multiset.nodup_add.1 hleft
  rw [Multiset.disjoint_left] at hdropped hidle
  rcases Multiset.mem_add.1 hitem with hitem | hitem
  · have hkept : item ∉ s.dropped := hdropped hitem
    rcases Multiset.mem_add.1 hitem with hitem | hitem
    · left
      refine ⟨hitem, ?_, hkept⟩
      rintro hold hhold rfl
      exact hidle hitem (Multiset.mem_map_of_mem _ hhold)
    · right
      left
      refine ⟨fun h => hidle h hitem, ?_, hkept⟩
      obtain ⟨hold, hhold, hof⟩ := Multiset.mem_map.1 hitem
      refine ⟨hold, ⟨hhold, hof⟩, ?_⟩
      rintro other ⟨hother, hof'⟩
      -- Two holds of one item would be one item twice in anybody's hands.
      exact Multiset.inj_on_of_nodup_map hhands _ hother _ hhold (hof'.trans hof.symm)
  · right
    right
    refine ⟨fun h => hdropped (Multiset.mem_add.2 (.inl h)) hitem, ?_, hitem⟩
    rintro hold hhold rfl
    exact hdropped (Multiset.mem_add.2 (.inr (Multiset.mem_map_of_mem _ hhold))) hitem

/-- Whatever the callers do, and in whatever order: the pool is never too full, every item is in
one place, the factory is called by those only who saw no item idle, and the counter is right
whenever no get is on its way. A factory that fails changes nothing in the pool. -/
theorem reachable_ownership (h : Reachable capacity seed? s) :
    s.pool.idle.length ≤ capacity ∧
    (s.made.Nodup ∧ ∀ item ∈ s.made, s.InOnePlace item) ∧
    s.seeded.card + s.built.card = s.pool.idle.length + s.inHands.card + s.dropped.card ∧
    (∀ seen ∈ s.factoryCalls, seen = []) ∧
    (s.NoGet → s.pool.created = s.built.card) ∧
    ∀ c s', s.Step (.factory c none) s' → s'.pool = s.pool := by
  have hinv := inv_of_reachable h
  refine ⟨hinv.bounded, ⟨hinv.nodup, fun item => inOnePlace_of_inv hinv⟩, ?_, hinv.called, ?_, ?_⟩
  · have hcard := congrArg Multiset.card hinv.accounted
    simpa [made] using hcard
  · intro hnoGet
    have hcounted := hinv.counted
    rw [uncounted_of_noGet hnoGet] at hcounted
    exact hcounted.symm
  · rintro c s' ⟨⟩
    rfl

/-- Two callers find the pool empty at once. One returns its item before the factory is called for
the other, whose item then finds no room. -/
theorem reachable_ownership_overflow :
    ∃ s : Callers Bool Nat, Reachable 1 none s ∧ s.pool.idle = [0] ∧ s.dropped = {1} ∧
      (s.made.Nodup ∧ ∀ item ∈ s.made, s.InOnePlace item) ∧ s.pool.created = s.built.card := by
  -- Two callers find the pool empty and make a session each; the second one finds no room.
  have h₁ := Reachable.start.step (@Step.miss Bool Nat (start 1 none) true .bare _ rfl)
  have h₂ := h₁.step (@Step.miss Bool Nat _ false .guard _ rfl)
  have h₃ := h₂.step (@Step.build Bool Nat _ false .guard [] 0 {⟨true, .bare, .building []⟩} rfl
    (by simp [start, made]))
  have h₄ := h₃.step (@Step.count Bool Nat _ false .guard 0 {⟨true, .bare, .building []⟩} rfl)
  have h₅ := h₄.step (@Step.keep Bool Nat _ false .guard 0 0 _ rfl rfl)
  have h₆ := h₅.step (@Step.build Bool Nat _ true .bare [] 1 0 rfl (by simp [start, made]))
  have h₇ := h₆.step (@Step.count Bool Nat _ true .bare 1 0 rfl)
  have h₈ := h₇.step (@Step.refuse Bool Nat _ true .bare 1 0 _ rfl rfl)
  have h₉ := h₈.step (@Step.drop Bool Nat _ true .bare 1 0 rfl)
  obtain ⟨-, hplaces, -, -, hcreated, -⟩ := reachable_ownership h₉
  exact ⟨_, h₉, rfl, rfl, hplaces, hcreated (by simp [NoGet])⟩

/-! ## Operations without interruption -/

/-- Some steps, one after another. -/
def Steps : Callers κ ι → Callers κ ι → Prop :=
  Relation.ReflTransGen fun s s' => ∃ action, s.Step action s'

/-- A get that nobody interrupts is what `Pool.get` says. -/
theorem steps_get {σ ε : Type} {build : σ → Except ε ι × σ} {before after : σ}
    {result : Except ε ι} {pool : Pool ι} (h : s.pool.get build before = (result, pool, after))
    (hnew : ∀ item rest, build before = (.ok item, rest) → item ∉ s.made) (c : κ) (grip : Grip) :
    ∃ s', s.Steps s' ∧ s'.pool = pool ∧ s'.ops = s.ops ∧
      s'.held = match result with
        | .ok item => ⟨c, grip, item⟩ ::ₘ s.held
        | .error _ => s.held := by
  unfold Pool.get at h
  cases hpop : s.pool.pop with
  | mk item? popped =>
    rw [hpop] at h
    cases item? with
    | some item =>
      cases h
      exact ⟨_, .single ⟨_, .take hpop⟩, rfl, rfl, rfl⟩
    | none =>
      -- The pool is empty: whoever asked it makes a session, and the call counts it or fails.
      let asked : Callers κ ι :=
        { s with pool := popped, ops := ⟨c, grip, .building s.pool.idle⟩ ::ₘ s.ops }
      have hmiss : s.Step (.pop c grip) asked := .miss hpop
      have hasked : asked.ops = ⟨c, grip, .building s.pool.idle⟩ ::ₘ s.ops := rfl
      cases hbuild : build before with
      | mk made rest =>
        rw [hbuild] at h
        cases made with
        | error e =>
          cases h
          exact ⟨_, .head ⟨_, hmiss⟩ (.single ⟨_, .fail hasked⟩), rfl, rfl, rfl⟩
        | ok item =>
          cases h
          have hbuilt := Step.build hasked (hnew item _ hbuild)
          exact ⟨_, .head ⟨_, hmiss⟩ (.head ⟨_, hbuilt⟩ (.single ⟨_, .count rfl⟩)), rfl, rfl, rfl⟩

/-- A put that nobody interrupts is what `Pool.put` says. -/
theorem steps_put {c : κ} {grip : Grip} {item : ι} {held : Multiset (Hold κ ι)}
    (hheld : s.held = ⟨c, grip, item⟩ ::ₘ held) :
    ∃ s', s.Steps s' ∧ s'.pool = (s.pool.put item).2 ∧ s'.ops = s.ops ∧ s'.held = held := by
  cases hoffer : s.pool.offer item with
  | mk kept pool =>
    unfold Pool.put
    rw [hoffer]
    cases kept with
    | true => exact ⟨_, .single ⟨_, .keep hheld hoffer⟩, rfl, rfl, rfl⟩
    | false =>
      exact ⟨_, .head ⟨_, .refuse hheld hoffer⟩ (.single ⟨_, .drop rfl⟩), rfl, rfl, rfl⟩

end Callers

end EventSandbox.Pool
