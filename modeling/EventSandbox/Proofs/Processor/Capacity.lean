import EventSandbox.Proofs.Guest.Startup
import EventSandbox.Proofs.Processor.Traffic
import Mathlib.Data.Multiset.Range

/-!
# EventSandbox.Proofs.Processor.Capacity — how many sessions a processor makes

The calls of a processor are callers of its pool: each acquires a session and lets go of it, and
every step of a call is a step of such a caller or leaves the pool alone (`Tracks.step`). What
callers see and hold are the numbers of the sessions.

So a processor has never more sessions than calls that were open at once, and one that keeps as
many as that never drops any (`calls_kept`).
-/

namespace EventSandbox

open Pool

/-! ## Calls as callers of the pool -/

/-- What a call has under way in the pool. -/
def Client.op? (client : Client) : Option (Op Unit Nat) :=
  match client.stage with
  | .building _ | .lost none => some ⟨(), .guard, .building []⟩
  | .built item => some ⟨(), .guard, .built item.number⟩
  | _ => none

/-- What a call holds. -/
def Client.hold? (client : Client) : Option (Hold Unit Nat) :=
  match client.stage with
  | .running visit _ | .lost (some visit) => some ⟨(), .guard, visit.number⟩
  | .returning past => some ⟨(), .guard, past.number⟩
  | _ => none

/-- Callers who have in their hands what the calls have. -/
structure Tracks (t : Traffic) (s : Callers Unit Nat) : Prop where
  pool : s.pool = t.pool.map Numbered.number
  ops : s.ops = t.clients.filterMap Client.op?
  held : s.held = t.clients.filterMap Client.hold?
  made : s.made = Multiset.range t.made

variable {f : SessionFactory} {t t' : Traffic} {s : Callers Unit Nat} {k capacity : Nat}
  {event : Fields} {rest : Multiset Client}

/-- Whoever has something under way in the pool, or holds something, is an open call. -/
theorem Client.card_le_open (client : Client) :
    ((client.op?.map singleton).getD (0 : Multiset (Op Unit Nat))).card +
        ((client.hold?.map singleton).getD (0 : Multiset (Hold Unit Nat))).card ≤
      if client.call.isOpen then 1 else 0 := by
  obtain ⟨event, stage⟩ := client
  rcases stage with _ | _ | _ | _ | _ | _ | _ | _ | _ <;>
    simp [op?, hold?, call, Call.isOpen]

theorem card_le_openCount (clients : Multiset Client) :
    (clients.filterMap Client.op?).card + (clients.filterMap Client.hold?).card ≤
      (clients.map Client.call).countP (·.isOpen) := by
  induction clients using Multiset.induction with
  | empty => exact Nat.le_refl 0
  | cons client clients ih =>
    have hclient := client.card_le_open
    rw [Multiset.filterMap_cons, Multiset.filterMap_cons, Multiset.map_cons, Multiset.countP_cons,
      Multiset.card_add, Multiset.card_add]
    omega

namespace Tracks

theorem start (seed : Session) (capacity : Nat) (clock : Clock) (records : List LogRecord) :
    Tracks (Traffic.start seed capacity clock records) (Callers.start capacity (some 0)) where
  pool := by
    have hoffer := (Pool.empty capacity).offer_map Numbered.number ⟨0, seed⟩
    exact congrArg Prod.snd hoffer
  ops := rfl
  held := rfl
  made := rfl

theorem openCount_le (h : Tracks t s) : s.openCount ≤ t.calls.openCount := by
  unfold Callers.openCount
  rw [h.ops, h.held]
  exact card_le_openCount t.clients

/-- Of the calls, only what they have in their hands matters, and of the processor its pool. -/
theorem congr (h : Tracks t s) {client client' : Client} (hclient : t.clients = client ::ₘ rest)
    (hclient' : t'.clients = client' ::ₘ rest) (hop : client'.op? = client.op?)
    (hhold : client'.hold? = client.hold?) (hpool : t'.pool = t.pool) (hmade : t'.made = t.made) :
    Tracks t' s where
  pool := by
    rw [hpool]
    exact h.pool
  ops := by
    rw [h.ops, hclient, hclient', Multiset.filterMap_cons, Multiset.filterMap_cons, hop]
  held := by
    rw [h.held, hclient, hclient', Multiset.filterMap_cons, Multiset.filterMap_cons, hhold]
  made := by
    rw [hmade]
    exact h.made

/-- A call that waits takes a session, or sees that there is none. -/
theorem waiting (h : Tracks t s) (hclient : t.clients = ⟨event, .waiting⟩ ::ₘ rest) :
    ∃ action s', s.Step action s' ∧ Tracks (t.next f ⟨event, .waiting⟩ rest) s' := by
  obtain ⟨hpool, hops, hheld, hmade⟩ := h
  rw [hclient, Multiset.filterMap_cons_none _ _ rfl] at hops hheld
  have hmap := t.pool.pop_map Numbered.number
  rw [← hpool] at hmap
  unfold Traffic.next
  -- Both pools answer alike, as they differ in what they hold of a session only.
  rcases hpop : t.pool.pop with ⟨_ | item, pool⟩
  · rw [hpop] at hmap
    rw [Client.step_miss hpop]
    refine ⟨_, _, @Callers.Step.miss _ _ s () .guard _ hmap, rfl, ?_, ?_, hmade⟩
    · rw [(Callers.pop_eq_none hmap).1, hops]
      exact (Multiset.filterMap_cons_some Client.op? _ _ rfl).symm
    · exact hheld.trans (Multiset.filterMap_cons_none _ _ rfl).symm
  · rw [hpop] at hmap
    rw [Client.step_take hpop]
    refine ⟨_, _, @Callers.Step.take _ _ s () .guard _ _ hmap, rfl, ?_, ?_, hmade⟩
    · exact hops.trans (Multiset.filterMap_cons_none _ _ rfl).symm
    · rw [hheld]
      exact (Multiset.filterMap_cons_some Client.hold? _ _ rfl).symm

/-- The factory has made a session for a call, or failed. -/
theorem building (h : Tracks t s) {made : Except ProcessorError Session}
    (hclient : t.clients = ⟨event, .building (.done made)⟩ ::ₘ rest) :
    ∃ action s', s.Step action s' ∧ Tracks (t.next f ⟨event, .building (.done made)⟩ rest) s' := by
  obtain ⟨hpool, hops, hheld, hmade⟩ := h
  rw [hclient] at hops hheld
  rw [Multiset.filterMap_cons_some Client.op? _ _ rfl] at hops
  rw [Multiset.filterMap_cons_none _ _ rfl] at hheld
  cases made with
  | error error =>
    refine ⟨_, _, .fail hops, hpool, ?_, ?_, hmade⟩
    · exact (Multiset.filterMap_cons_none _ _ rfl).symm
    · exact hheld.trans (Multiset.filterMap_cons_none _ _ rfl).symm
  | ok session =>
    -- A new session gets the next number, which nobody has yet.
    have hnew : t.made ∉ s.made := by
      rw [hmade]
      exact Multiset.notMem_range_self
    refine ⟨_, _, .build hops hnew, hpool, ?_, ?_, ?_⟩
    · exact (Multiset.filterMap_cons_some Client.op? _ _ rfl).symm
    · exact hheld.trans (Multiset.filterMap_cons_none _ _ rfl).symm
    · show s.seeded + t.made ::ₘ s.built = Multiset.range (t.made + 1)
      rw [Multiset.add_cons, Multiset.range_succ, ← hmade]
      rfl

/-- A call has its new session counted. -/
theorem built (h : Tracks t s) {item : Numbered}
    (hclient : t.clients = ⟨event, .built item⟩ ::ₘ rest) :
    ∃ action s', s.Step action s' ∧ Tracks (t.next f ⟨event, .built item⟩ rest) s' := by
  obtain ⟨hpool, hops, hheld, hmade⟩ := h
  rw [hclient] at hops hheld
  rw [Multiset.filterMap_cons_some Client.op? _ _ rfl] at hops
  rw [Multiset.filterMap_cons_none _ _ rfl] at hheld
  refine ⟨_, _, .count hops, congrArg countBuilt hpool, ?_, ?_, hmade⟩
  · exact (Multiset.filterMap_cons_none _ _ rfl).symm
  · rw [hheld]
    exact (Multiset.filterMap_cons_some Client.hold? _ _ rfl).symm

/-- A call gives its session back. If that finds no room, it is dropped in a second step. -/
theorem returning (h : Tracks t s) {past : PastVisit}
    (hclient : t.clients = ⟨event, .returning past⟩ ::ₘ rest) :
    (∃ action s', s.Step action s' ∧ Tracks (t.next f ⟨event, .returning past⟩ rest) s') ∨
    ∃ action s₁ action' s', s.Step action s₁ ∧ s₁.openCount = s.openCount ∧ s₁.Step action' s' ∧
      Tracks (t.next f ⟨event, .returning past⟩ rest) s' := by
  obtain ⟨hpool, hops, hheld, hmade⟩ := h
  rw [hclient] at hops hheld
  rw [Multiset.filterMap_cons_none _ _ rfl] at hops
  rw [Multiset.filterMap_cons_some Client.hold? _ _ rfl] at hheld
  have hmap := t.pool.offer_map Numbered.number ⟨past.number, past.ended.session⟩
  rw [← hpool] at hmap
  -- A session that finds no room is refused and dropped: two steps there, one here.
  rcases hoffer : t.pool.offer ⟨past.number, past.ended.session⟩ with ⟨_ | _, pool⟩
  · rw [hoffer] at hmap
    refine .inr ⟨_, _, _, _, .refuse hheld hmap, ?_, .drop rfl, ?_, ?_, ?_, hmade⟩
    · unfold Callers.openCount
      rw [hheld]
      simp only [Multiset.card_cons]
      omega
    · exact congrArg (fun answer => map Numbered.number answer.2) hoffer.symm
    · exact hops.trans (Multiset.filterMap_cons_none _ _ rfl).symm
    · exact (Multiset.filterMap_cons_none _ _ rfl).symm
  · rw [hoffer] at hmap
    refine .inl ⟨_, _, .keep hheld hmap, ?_, ?_, ?_, hmade⟩
    · exact congrArg (fun answer => map Numbered.number answer.2) hoffer.symm
    · exact hops.trans (Multiset.filterMap_cons_none _ _ rfl).symm
    · exact (Multiset.filterMap_cons_none _ _ rfl).symm

/-- A step of a call is a step of its caller, or two if a session finds no room, or none. -/
theorem step (hs : Callers.Acquired capacity k 0 s) (h : Tracks t s) (hstep : t.Step f t')
    (hopen : t'.calls.openCount ≤ k) : ∃ s', Callers.Acquired capacity k 0 s' ∧ Tracks t' s' := by
  -- One step there is allowed, as its open calls are those of the processor.
  have hacquired : (∃ action s', s.Step action s' ∧ Tracks t' s') →
      ∃ s', Callers.Acquired capacity k 0 s' ∧ Tracks t' s' := by
    rintro ⟨action, s', hstep, h⟩
    exact ⟨s', .step hs hstep (h.openCount_le.trans hopen), h⟩
  cases hstep with
  | enter event =>
    exact ⟨s, hs, h.pool, h.ops.trans (Multiset.filterMap_cons_none _ _ rfl).symm,
      h.held.trans (Multiset.filterMap_cons_none _ _ rfl).symm, h.made⟩
  | pass clock => exact ⟨s, hs, h.pool, h.ops, h.held, h.made⟩
  | @advance client rest hclient =>
    obtain ⟨event, stage⟩ := client
    cases stage with
    | waiting => exact hacquired (h.waiting hclient)
    | building run =>
      cases run with
      | done made => exact hacquired (h.building hclient)
      | _ => exact ⟨s, hs, h.congr hclient rfl rfl rfl rfl rfl⟩
    | built item => exact hacquired (h.built hclient)
    | running visit run =>
      cases run <;> exact ⟨s, hs, h.congr hclient rfl rfl rfl rfl rfl⟩
    | returning past =>
      rcases h.returning hclient with hkept | ⟨action, s₁, action', s', hrefuse, hsame, hdrop, h⟩
      · exact hacquired hkept
      · have hs₁ := hs.step hrefuse (hsame.trans_le hs.openCount_le)
        exact ⟨s', hs₁.step hdrop (h.openCount_le.trans hopen), h⟩
    | finished past | failed error | lost visit? =>
      exact ⟨s, hs, h.congr hclient rfl rfl rfl rfl rfl⟩

end Tracks

variable {seed : Session} {clock : Clock} {records : List LogRecord}

theorem Traffic.tracked
    (h : Traffic.Reachable f k (Traffic.start seed capacity clock records) t) :
    ∃ s, Callers.Acquired capacity k 0 s ∧ Tracks t s := by
  induction h with
  | start => exact ⟨_, .start, .start seed capacity clock records⟩
  | step _ hstep hopen ih =>
    obtain ⟨s, hs, htracks⟩ := ih
    exact htracks.step hs hstep hopen

/-! ## How many sessions there are -/

/-- Whoever gives back a session holds one. -/
theorem Tracks.held_of_returning (h : Tracks t s) {ended : Session.Ended}
    (hcall : Call.returning ended ∈ t.calls.calls) : 0 < s.held.card := by
  obtain ⟨⟨event, stage⟩, hclient, hended⟩ := Multiset.mem_map.1 hcall
  cases stage with
  | returning past =>
    rw [h.held]
    exact Multiset.card_pos_iff_exists_mem.2 ⟨_, (Multiset.mem_filterMap _ _).2 ⟨_, hclient, rfl⟩⟩
  | _ => cases hended

/-- A processor that keeps as many sessions as it has callers takes every session back. -/
theorem Processor.calls_kept {config : ProcessorConfig}
    {module : Except ProcessorError CompiledModule} {pace : Nat} {p : Processor}
    {pool : Pool Session} {calls : Calls}
    (hbuild : (build config module pace).Yields (.ok (p, pool))) (hk : 1 ≤ k)
    (hle : k ≤ config.maxCachedSessions.toNat)
    (hcalls : Calls.Reachable p.factory k ⟨pool, clock, records⟩ calls) :
    calls.shared.pool.created ≤ k - 1 ∧
      ∀ ended, Call.returning ended ∈ calls.calls →
        (calls.shared.pool.put ended.session).1 = true := by
  obtain ⟨seed, -, rfl⟩ := build_yields hbuild
  have hcapacity := hk.trans hle
  rw [← Traffic.start_shared] at hcalls
  obtain ⟨t, ht, rfl⟩ := Traffic.Reachable.lift rfl hcalls
  obtain ⟨s, hs, htracks⟩ := Traffic.tracked ht
  have hdropped := (Callers.kept_of_le hcapacity hk hle hs).dropped
  have hcreated := Callers.created_lt hk hs hdropped
  have hlive := Callers.live_le hk hs
  have hfixed := (Callers.inv_of_reachable hs.reachable).fixed
  rw [htracks.pool] at hcreated hfixed
  -- No session was ever dropped, so what is being given back finds room.
  refine ⟨Nat.le_sub_one_of_lt hcreated, fun ended hended => ?_⟩
  have hheld := htracks.held_of_returning hended
  unfold Callers.liveCount Callers.openCount at hlive
  rw [htracks.pool] at hlive
  have hroom : t.shared.pool.idle.length < t.shared.pool.capacity := by
    simp only [Pool.map, List.length_map, Traffic.shared] at hfixed hlive ⊢
    omega
  exact congrArg Prod.fst (if_pos hroom)

/-- A pool that is seeded once, whose items are acquired and given back by at most `k` callers at a
time, has never more than `k` items, those that are being made included. If it has room for `k`
items it never drops one, and at most `k - 1` are ever built. In particular a processor that keeps
as many sessions as it has callers takes back every session that a call ends with. -/
theorem occupancy_bounded :
    (∀ {κ ι : Type} {capacity k : Nat} {seed : ι} {s : Callers κ ι}, 1 ≤ capacity → 1 ≤ k →
      Callers.Acquired capacity k seed s →
        s.pool.idle.length + s.held.card + s.ops.card ≤ k ∧
        (k ≤ capacity →
          s.dropped = 0 ∧ (∀ op ∈ s.ops, op.isGet) ∧ s.pool.created ≤ k - 1)) ∧
    ∀ {config : ProcessorConfig} {module : Except ProcessorError CompiledModule} {pace : Nat}
      {p : Processor} {pool : Pool Session} {k : Nat} {clock : Clock} {records : List LogRecord}
      {calls : Calls}, (Processor.build config module pace).Yields (.ok (p, pool)) →
      1 ≤ k → k ≤ config.maxCachedSessions.toNat →
      Calls.Reachable p.factory k ⟨pool, clock, records⟩ calls →
        calls.shared.pool.created ≤ k - 1 ∧
        ∀ ended, Call.returning ended ∈ calls.calls →
          (calls.shared.pool.put ended.session).1 = true := by
  refine ⟨?_, Processor.calls_kept⟩
  intro κ ι capacity k seed s hcapacity hk hs
  refine ⟨?_, fun hle => ?_⟩
  · have hlive := Callers.live_le hk hs
    unfold Callers.liveCount Callers.openCount at hlive
    omega
  · have hkept := Callers.kept_of_le hcapacity hk hle hs
    exact ⟨hkept.dropped, hkept.accepted,
      Nat.le_sub_one_of_lt (Callers.created_lt hk hs hkept.dropped)⟩

/-- Two callers of a pool for two: one takes the seed, the other builds and gives back an item. A
processor for one: its only caller is about to give back the first session. -/
theorem occupancy_bounded_small :
    (∃ s : Callers Bool Nat, Callers.Acquired 2 2 0 s ∧ s.pool.idle = [1] ∧ s.held.card = 1 ∧
      s.dropped = 0 ∧ s.pool.created ≤ 1) ∧
    ∃ calls ended, Calls.Reachable (Processor.small [] 1).factory 1
      ⟨Pool.withSeed (Session.small ⟨.steps [], .steps []⟩ none) 1, ⟨0, 0⟩, []⟩ calls ∧
      Call.returning ended ∈ calls.calls ∧ (calls.shared.pool.put ended.session).1 = true := by
  obtain ⟨hpool, hprocessor⟩ := occupancy_bounded
  -- Of a pool for two, one caller takes the seed and another makes a session; both keep within it.
  constructor
  · have h₁ := Callers.Acquired.start.step (@Callers.Step.take Bool Nat (Callers.start 2 (some 0))
      true .guard 0 _ rfl) (by decide : 0 + 1 ≤ 2)
    have h₂ := h₁.step (@Callers.Step.miss Bool Nat _ false .guard _ rfl) (by decide : 1 + 1 ≤ 2)
    have h₃ := h₂.step (@Callers.Step.build Bool Nat _ false .guard [] 1 0 rfl
      (by simp [Callers.start, Callers.made])) (by decide : 1 + 1 ≤ 2)
    have h₄ := h₃.step (@Callers.Step.count Bool Nat _ false .guard 1 0 rfl)
      (by decide : 0 + 2 ≤ 2)
    have h₅ := h₄.step
      (@Callers.Step.keep Bool Nat _ false .guard 1 {⟨true, .guard, 0⟩} ⟨[1], 2, 1⟩ rfl rfl)
      (by decide : 0 + 1 ≤ 2)
    obtain ⟨-, hkept⟩ := hpool (by decide) (by decide) h₅
    obtain ⟨hdropped, -, hcreated⟩ := hkept (by decide)
    exact ⟨_, h₅, rfl, rfl, hdropped, hcreated⟩
  · -- One call is about to give its session back.
    let session := Session.small ⟨.steps [], .steps []⟩ none
    let before : Shared := ⟨Pool.withSeed session 1, ⟨0, 0⟩, []⟩
    have h₁ : Calls.Reachable (Processor.small [] 1).factory 1 before ⟨before, .waiting [] ::ₘ 0⟩ :=
      .step .start (.enter []) (by decide)
    have h₂ : Calls.Reachable (Processor.small [] 1).factory 1 before
        ⟨⟨⟨[], 1, 0⟩, ⟨0, 0⟩, []⟩, {.returning ⟨.ok 0, [], session⟩}⟩ :=
      h₁.advance.advance
    have hkept := (hprocessor (Processor.small_build [] 1) (by decide) (by decide) h₂).2
    exact ⟨_, _, h₂, Multiset.mem_singleton_self _, hkept _ (Multiset.mem_singleton_self _)⟩

end EventSandbox
