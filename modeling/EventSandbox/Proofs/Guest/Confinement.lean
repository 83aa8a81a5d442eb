import EventSandbox.Proofs.Guest.Lifecycle

/-!
# EventSandbox.Proofs.Guest.Confinement — a guest's memory stays within its limits

Two limits count for the memory of a guest, the configured number of bytes and the most pages that
its module declares. `SessionFactory.Allows` says of a number of pages that it passes neither;
`Confined` says of a state that its memory is allowed and that it grows exactly as far as that.

No run of a guest makes its memory smaller or moves its limit (`Machine.lasting_grown`), so a state
that comes out of a confined one is confined (`confines_of_grown`). A session begins confined
(`Guest.prepare_memory`), and its memory only grows through any number of calls, however each of
them ends (`Session.Life.grown`).
-/

namespace EventSandbox

/-! ## Limits -/

/-- The most pages that a guest's module lets its memory have. A module that declares no maximum
leaves it to the addresses. -/
def Guest.declaredPages (g : Guest) : Nat :=
  min (g.maxPages?.getD maxAddressablePages) maxAddressablePages

namespace SessionFactory

/-- A memory of so many pages passes neither the configured limit nor the guest's own. -/
structure Allows (f : SessionFactory) (pages : Nat) : Prop where
  configured : pages * pageSize ≤ f.execution.maxMemoryMb.toNat * 1024 * 1024
  declared : pages ≤ f.guest.declaredPages

/-- The pages that the memories of a factory's sessions may have. -/
def pageLimit (f : SessionFactory) : Nat := f.guest.pageLimit f.execution.maxMemoryBytes

variable {f : SessionFactory}

theorem allows_iff {pages : Nat} : f.Allows pages ↔ pages ≤ f.pageLimit := by
  -- The limit in pages is that in bytes, rounded down.
  have hconfigured : pages * pageSize ≤ f.execution.maxMemoryMb.toNat * 1024 * 1024 ↔
      pages ≤ f.execution.maxMemoryBytes / pageSize := by
    unfold ExecutionConfig.maxMemoryBytes
    rw [Nat.mul_assoc, Nat.le_div_iff_mul_le (by decide)]
  have hlimit : pages ≤ f.pageLimit ↔
      pages ≤ f.execution.maxMemoryBytes / pageSize ∧ pages ≤ f.guest.declaredPages := by
    unfold pageLimit Guest.pageLimit Guest.declaredPages
    omega
  rw [hlimit, ← hconfigured]
  constructor
  · intro h
    exact ⟨h.configured, h.declared⟩
  · rintro ⟨hbytes, hpages⟩
    exact ⟨hbytes, hpages⟩

theorem Allows.le_maxAddressablePages {pages : Nat} (h : f.Allows pages) :
    pages ≤ maxAddressablePages :=
  Nat.le_trans h.declared (Nat.min_le_right _ _)

end SessionFactory

/-! ## States within the limits -/

namespace Machine

variable {m : Machine} {pages : Word}

theorem run_grow_none (h : m.memory.grow? pages.toNat = none) :
    (grow pages).run.run m = (.ok 0xFFFFFFFF, m) := by
  simp only [grow, Pure.run_get_bind, h]
  rfl

theorem run_grow_some {memory : Memory} (h : m.memory.grow? pages.toNat = some memory) :
    (grow pages).run.run m = (.ok (UInt32.ofNat m.memory.pageCount), { m with memory }) := by
  simp only [grow, Pure.run_get_bind, h]
  rfl

end Machine

namespace SessionFactory

variable {f : SessionFactory} {m : Machine}

/-- A memory that is allowed, and that grows as far as that and no further. -/
structure Confined (f : SessionFactory) (m : Machine) : Prop where
  allowed : f.Allows m.memory.pageCount
  /-- To pass a limit is refused with -1, and nothing changes. -/
  refused {pages : Word} (h : ¬ f.Allows (m.memory.pageCount + pages.toNat)) :
    (Machine.grow pages).run.run m = (.ok 0xFFFFFFFF, m)
  /-- Any other growth answers the old size. The old bytes are kept, and the new ones are zeros. -/
  granted {pages : Word} (h : f.Allows (m.memory.pageCount + pages.toNat)) :
    ∃ old memory, (Machine.grow pages).run.run m = (.ok old, { m with memory }) ∧
      old.toNat = m.memory.pageCount ∧
      memory.pageCount = m.memory.pageCount + pages.toNat ∧
      (∀ i, i < m.memory.size → memory.byte i = m.memory.byte i) ∧
      ∀ i, m.memory.size ≤ i → i < memory.size → memory.byte i = 0

theorem confined_of_maxPages (hmax : m.memory.maxPages = f.pageLimit) : f.Confined m := by
  have hallowed : f.Allows m.memory.pageCount := by
    rw [allows_iff, ← hmax]
    exact m.memory.size_le
  refine ⟨hallowed, ?_, ?_⟩
  · intro pages h
    rw [allows_iff, ← hmax] at h
    apply Machine.run_grow_none
    rw [Memory.grow?_eq_none_iff]
    omega
  · intro pages h
    rw [allows_iff, ← hmax] at h
    cases hgrow : m.memory.grow? pages.toNat with
    | none =>
      have hpassed := Memory.grow?_eq_none_iff.1 hgrow
      omega
    | some memory =>
      -- The old size is answered as a word, so it has to fit into one.
      have hword : m.memory.pageCount < 2 ^ 32 :=
        Nat.lt_of_le_of_lt hallowed.le_maxAddressablePages (by decide)
      obtain ⟨hcount, -⟩ := Memory.pageCount_of_grow? hgrow
      refine ⟨_, memory, Machine.run_grow_some hgrow, UInt32.toNat_ofNat_of_lt' hword, hcount,
        ?_, ?_⟩
      · intro i _
        exact Memory.byte_of_grow? hgrow i
      · intro i hi _
        rw [Memory.byte_of_grow? hgrow]
        exact Memory.byte_of_size_le hi

/-- How far a confined memory grows gives its limit away. -/
theorem Confined.maxPages (h : f.Confined m) : m.memory.maxPages = f.pageLimit := by
  have hcount : m.memory.pageCount ≤ f.pageLimit := allows_iff.1 h.allowed
  have hsize : m.memory.pageCount ≤ m.memory.maxPages := m.memory.size_le
  have hlimit : f.pageLimit ≤ maxAddressablePages := (allows_iff.2 (Nat.le_refl _)).declared.trans
    (Nat.min_le_right _ _)
  -- The growth to one page more than the lower of the two limits tells them apart.
  obtain ⟨pages, hpages⟩ : ∃ pages : Word, m.memory.pageCount + pages.toNat =
      min m.memory.maxPages f.pageLimit + 1 := by
    have hword : min m.memory.maxPages f.pageLimit + 1 - m.memory.pageCount < 2 ^ 32 := by
      unfold maxAddressablePages at hlimit
      omega
    refine ⟨UInt32.ofNat (min m.memory.maxPages f.pageLimit + 1 - m.memory.pageCount), ?_⟩
    rw [UInt32.toNat_ofNat_of_lt' hword]
    omega
  rcases Nat.lt_trichotomy m.memory.maxPages f.pageLimit with hlt | heq | hgt
  · -- The factory allows it, but the memory would not grow so far.
    have hallows : f.Allows (m.memory.pageCount + pages.toNat) := allows_iff.2 (by omega)
    obtain ⟨old, memory, hrun, -, hgrown, -⟩ := h.granted hallows
    rw [Machine.run_grow_none (Memory.grow?_eq_none_iff.2 (by omega))] at hrun
    have hmemory : m.memory = memory := congrArg (fun r => r.2.memory) hrun
    rw [← hmemory] at hgrown
    omega
  · exact heq
  · -- The memory would grow so far, but the factory does not allow it.
    have hpassed : ¬ f.Allows (m.memory.pageCount + pages.toNat) := by
      rw [allows_iff]
      omega
    have hrefused := h.refused hpassed
    cases hgrow : m.memory.grow? pages.toNat with
    | none =>
      have hpassed := Memory.grow?_eq_none_iff.1 hgrow
      omega
    | some memory =>
      rw [Machine.run_grow_some hgrow] at hrefused
      have hmemory : memory = m.memory := congrArg (fun r => r.2.memory) hrefused
      obtain ⟨hgrown, -⟩ := Memory.pageCount_of_grow? hgrow
      rw [hmemory] at hgrown
      omega

/-- States in the order of time: all of them are confined, and no memory is smaller than an
earlier one. -/
structure Confines (f : SessionFactory) (states : List Machine) : Prop where
  confined : ∀ m ∈ states, f.Confined m
  ordered : states.Pairwise fun m m' => m.memory.pageCount ≤ m'.memory.pageCount

end SessionFactory

/-! ## Runs -/

namespace SessionFactory

variable {f : SessionFactory} {m : Machine} {states : List Machine}

/-- Whatever has grown out of a memory with the limit of a factory is confined. -/
theorem confines_of_grown (hmax : m.memory.maxPages = f.pageLimit)
    (h : (m :: states).Pairwise Machine.MemoryGrown) : f.Confines (m :: states) := by
  constructor
  · rw [List.forall_mem_cons]
    refine ⟨confined_of_maxPages hmax, ?_⟩
    intro m' hm'
    have hgrown : m.memory.Grown m'.memory := List.rel_of_pairwise_cons h hm'
    exact confined_of_maxPages (hgrown.maxPages.trans hmax)
  · exact h.imp fun hgrown => hgrown.pageCount

theorem Confines.tail (h : f.Confines (m :: states)) : f.Confines states :=
  ⟨(List.forall_mem_cons.1 h.confined).2, h.ordered.tail⟩

end SessionFactory

/-! ## Beginnings -/

theorem Guest.copyData_memory {data : List (Word × Bytes)} {memory memory' : Memory}
    (h : copyData data memory = .ok memory') :
    memory'.pageCount = memory.pageCount ∧ memory'.maxPages = memory.maxPages := by
  induction data generalizing memory with
  | nil =>
    cases h
    exact ⟨rfl, rfl⟩
  | cons segment rest ih =>
    unfold copyData at h
    -- A segment is copied only where there is room, and copying changes no size.
    split at h
    · obtain ⟨hcount, hmax⟩ := ih h
      rw [Memory.pageCount_setSlice] at hcount
      rw [Memory.maxPages_setSlice] at hmax
      exact ⟨hcount, hmax⟩
    · cases h

/-- A guest that is prepared has the memory that it asks for, within its limit. -/
theorem Guest.prepare_memory {g : Guest} {linker : Linker} {maxBytes : Nat} {meter : Meter}
    {m : Machine} (h : g.prepare linker maxBytes meter = .ok m) :
    m.memory.pageCount = g.minPages ∧ m.memory.maxPages = g.pageLimit maxBytes := by
  obtain ⟨fresh, memory, hfresh, hcopy, rfl⟩ := prepare_eq_ok h
  obtain ⟨hcount, hmax⟩ := copyData_memory hcopy
  unfold freshMemory at hfresh
  split at hfresh
  · cases hfresh
    exact ⟨hcount.trans Array.size_replicate, hmax⟩
  · cases hfresh

/-- The state of a session that has been made, if one has. -/
def madeState : Option (Except ProcessorError Session) → List Machine
  | some (.ok s) => [s.machine]
  | some (.error _) | none => []

namespace SessionFactory

variable {f : SessionFactory}

theorem grown_create {trace : List Label} {end? : Option (Except ProcessorError Session)}
    (h : f.create.Traced trace end?) :
    (trace = [] ∧ ∃ error, end? = some (.error error)) ∨
    ∃ meter m, f.guest.prepare f.linker f.execution.maxMemoryBytes meter = .ok m ∧
      (m :: (statesOf trace ++ madeState end?)).Pairwise Machine.MemoryGrown := by
  rcases traced_create Machine.lasting_grown.rules h with
    ⟨error, rfl, rfl⟩ | ⟨meter, m, last?, hprepare, hlasts, -, hmade⟩
  · exact .inl ⟨rfl, error, rfl⟩
  · refine .inr ⟨meter, m, hprepare, ?_⟩
    have hshown : (m :: statesOf trace).Pairwise Machine.MemoryGrown :=
      hlasts.sublist (List.sublist_append_left (m :: statesOf trace) _)
    rcases end? with _ | error | s
    · exact (List.append_nil _).symm ▸ hshown
    · exact (List.append_nil _).symm ▸ hshown
    · -- The session has the memory that its start function has left.
      obtain ⟨m', exports, rfl, -, rfl⟩ := hmade s rfl
      have hchain : ((m :: statesOf trace) ++ [m']).Pairwise Machine.MemoryGrown := hlasts
      have hsame : m'.MemoryGrown { m' with exports? := some exports } := .refl m'.memory
      exact Machine.lasting_grown.splice hchain (List.pairwise_pair.2 hsame)

/-- A session is made within the limits, or not at all. -/
theorem confines_create {trace : List Label} {end? : Option (Except ProcessorError Session)}
    (h : f.create.Traced trace end?) :
    (trace = [] ∧ ∃ error, end? = some (.error error)) ∨
    ∃ meter m, f.guest.prepare f.linker f.execution.maxMemoryBytes meter = .ok m ∧
      m.memory.pageCount = f.guest.minPages ∧
      f.Confines (m :: (statesOf trace ++ madeState end?)) := by
  rcases grown_create h with hfailed | ⟨meter, m, hprepare, hgrown⟩
  · exact .inl hfailed
  · obtain ⟨hcount, hmax⟩ := Guest.prepare_memory hprepare
    exact .inr ⟨meter, m, hprepare, hcount, confines_of_grown hmax hgrown⟩

end SessionFactory

namespace Session

variable {f : SessionFactory} {s : Session} {states : List Machine}

/-- The memory of a session only grows in a call, from its beginning to its end. -/
theorem grown_call {event : Fields} {trace : List Label} {end? : Option Ended}
    (h : (s.guestProcess event).Traced trace end?) :
    (s.machine :: (statesOf trace ++ (end?.map (·.session.machine)).toList)).Pairwise
      Machine.MemoryGrown := by
  have hR := Machine.lasting_grown
  rcases traced_guestProcess hR.rules h with
    ⟨error, -, rfl, rfl⟩ | ⟨meter, exports, last?, -, rfl, hlasts⟩
  · exact List.pairwise_pair.2 (.refl s.machine.memory)
  · -- To bind an event, and to take it back, leaves the memory alone.
    have hbegin : s.machine.MemoryGrown (s.begin event meter) := .refl s.machine.memory
    have hfirst : ([s.machine] ++ [s.begin event meter]).Pairwise Machine.MemoryGrown :=
      List.pairwise_pair.2 hbegin
    refine hR.splice hfirst ?_
    rcases last? with _ | ⟨trap | code, m'⟩
    · exact hlasts
    all_goals
      have hchain : ((s.begin event meter :: statesOf trace) ++ [m']).Pairwise
        Machine.MemoryGrown := hlasts
      have hend : m'.MemoryGrown { m' with event? := none } := .refl m'.memory
      exact hR.splice hchain (List.pairwise_pair.2 hend)

/-! ## Whole lives -/

/-- The life of a session so far: the states that have been seen of it, from its making through any
number of calls, and at last the state that it is in. -/
inductive Life (f : SessionFactory) : List Machine → Session → Prop
  | fresh {trace s} (h : f.create.Traced trace (some (.ok s))) :
      Life f (statesOf trace ++ [s.machine]) s
  | next {states s event trace ended} (hs : Life f states s)
      (h : (s.guestProcess event).Traced trace (some ended)) :
      Life f (states ++ (statesOf trace ++ [ended.session.machine])) ended.session

theorem Reachable.exists_life (h : s.Reachable f) : ∃ states, Life f states s := by
  induction h with
  | fresh hyields =>
    obtain ⟨trace, htrace⟩ := hyields.exists_traced
    exact ⟨_, .fresh htrace⟩
  | next _ hyields ih =>
    obtain ⟨states, hstates⟩ := ih
    obtain ⟨trace, htrace⟩ := hyields.exists_traced
    exact ⟨_, .next hstates htrace⟩

/-- A call goes on from a life: the states of both have grown one out of the other. -/
theorem grown_append_call {before : List Machine} {event : Fields} {trace : List Label}
    {end? : Option Ended} (hbefore : (before ++ [s.machine]).Pairwise Machine.MemoryGrown)
    (h : (s.guestProcess event).Traced trace end?) :
    (before ++ [s.machine] ++ (statesOf trace ++ (end?.map (·.session.machine)).toList)).Pairwise
      Machine.MemoryGrown :=
  Machine.lasting_grown.join hbefore (grown_call h)

/-- All states of a life have grown out of the one in which the guest was prepared. -/
theorem Life.grown (h : Life f states s) :
    ∃ m before, m.memory.maxPages = f.pageLimit ∧ states = before ++ [s.machine] ∧
      (m :: states).Pairwise Machine.MemoryGrown := by
  induction h with
  | fresh htrace =>
    rcases SessionFactory.grown_create htrace with ⟨-, error, hend⟩ | ⟨meter, m, hprepare, hgrown⟩
    · cases hend
    · exact ⟨m, _, (Guest.prepare_memory hprepare).2, rfl, hgrown⟩
  | @next states s event trace ended _ htrace ih =>
    obtain ⟨m, before, hmax, rfl, hgrown⟩ := ih
    refine ⟨m, before ++ [s.machine] ++ statesOf trace, hmax, (List.append_assoc _ _ _).symm, ?_⟩
    have hbefore : ((m :: before) ++ [s.machine]).Pairwise Machine.MemoryGrown := hgrown
    exact grown_append_call hbefore htrace

/-- Whatever has become of a session, its memory has the limit that its factory gave it. -/
theorem Reachable.maxPages (h : s.Reachable f) : s.machine.memory.maxPages = f.pageLimit := by
  obtain ⟨states, hlife⟩ := h.exists_life
  obtain ⟨m, before, hmax, rfl, hgrown⟩ := hlife.grown
  have hlast : m.memory.Grown s.machine.memory :=
    List.rel_of_pairwise_cons hgrown (List.mem_append_right _ (List.mem_singleton_self _))
  exact hlast.maxPages.trans hmax

end Session

/-- The memory of a guest stays within the configured limit and within its own. A session whose
memory would be too large at first is not made. From the making of a session through any number of
calls, whatever the guest and its allocator do in them and however each of them ends, all states
are confined and no memory is smaller than an earlier one; nor does any piece of code, run from a
confined state, leave the limits. -/
theorem memory_confined (f : SessionFactory) :
    (¬ f.Allows f.guest.minPages → ∀ s, ¬ f.create.Yields (.ok s)) ∧
    (∀ trace end?, f.create.Traced trace end? →
      (trace = [] ∧ ∃ error, end? = some (.error error)) ∨
      ∃ meter m, f.guest.prepare f.linker f.execution.maxMemoryBytes meter = .ok m ∧
        m.memory.pageCount = f.guest.minPages ∧
        f.Confines (m :: (statesOf trace ++ madeState end?))) ∧
    (∀ s : Session, s.Reachable f → ∃ states, s.Life f states) ∧
    (∀ states s, Session.Life f states s → ∀ event trace end?,
      (s.guestProcess event).Traced trace end? →
      f.Confines (states ++ (statesOf trace ++ (end?.map (·.session.machine)).toList))) ∧
    ∀ m, f.Confined m → ∀ depth frame steps trace end?,
      ((Step.execAll (Code.allocator depth) frame steps).run.run m).Traced trace end? →
      f.Confines (m :: (statesOf trace ++ (end?.map Prod.snd).toList)) := by
  refine ⟨?_, ?_, ?_, ?_, ?_⟩
  · intro hlarge s hs
    obtain ⟨trace, htrace⟩ := hs.exists_traced
    rcases SessionFactory.confines_create htrace with
      ⟨-, error, hend⟩ | ⟨meter, m, -, hcount, hconfines⟩
    · cases hend
    · have hallowed := (hconfines.confined m List.mem_cons_self).allowed
      rw [hcount] at hallowed
      exact hlarge hallowed
  · intro trace end? htrace
    exact SessionFactory.confines_create htrace
  · intro s hs
    exact hs.exists_life
  · intro states s hlife event trace end? htrace
    obtain ⟨m, before, hmax, rfl, hgrown⟩ := hlife.grown
    have hbefore : ((m :: before) ++ [s.machine]).Pairwise Machine.MemoryGrown := hgrown
    have hall := Session.grown_append_call hbefore htrace
    exact (SessionFactory.confines_of_grown hmax hall).tail
  · intro m hm depth frame steps trace end? htrace
    -- What counts of the state is its limit, so it may have come about in any way.
    have hclosed := Machine.lasting_grown.rules.closed
    have hlasts := hclosed.execAll (hclosed.allocator depth) frame steps m trace end? htrace
    refine SessionFactory.confines_of_grown hm.maxPages ?_
    rcases end? with _ | ⟨trap | flow, m'⟩ <;> exact hlasts

/-- A guest with pages at first and two at most. Its allocator takes one, and its handler asks for
another after a field has been placed. -/
def SessionFactory.growing (minPages : Nat) : SessionFactory :=
  { (Processor.small [] 0).factory with
    guest :=
      { (CompiledModule.small []).guest with
        minPages
        maxPages? := some 2
        functions :=
          [⟨Guest.mallocName, FuncType.malloc,
              .steps [.drop (.grow (.const 1)), .ret (.const 65536)]⟩,
            ⟨Guest.processName, FuncType.process,
              .steps [.getField (.const 0) (.const 0) (.const 8) (.const 12),
                .ret (.grow (.const 1))]⟩] } }

/-- How many pages a new session has, how many after its first call, and what that gives. -/
def firstGrowth? (made : Except ProcessorError Session) : Option (Nat × Nat × Int32) :=
  match made with
  | .error _ => none
  | .ok s =>
    ((s.guestProcess [("", .bool true)]).watch 0).2.bind fun ended =>
      match ended.result with
      | .error _ => none
      | .ok code => some (s.machine.memory.pageCount, ended.session.machine.memory.pageCount, code)

theorem memory_confined_growing :
    (∀ s, ¬ (SessionFactory.growing 3).create.Yields (.ok s)) ∧
    ∃ made s trace ended, (SessionFactory.growing 1).create.Traced made (some (.ok s)) ∧
      (s.guestProcess [("", .bool true)]).Traced trace (some ended) ∧
      firstGrowth? (.ok s) = some (1, 2, -1) ∧
      (SessionFactory.growing 1).Confines
        ((statesOf made ++ [s.machine]) ++ (statesOf trace ++ [ended.session.machine])) ∧
      ∃ shown end?, ((Step.execAll (Code.allocator 1) ⟨0, 0⟩ [.drop (.grow (.const 3))]).run.run
          s.machine).Traced shown end? ∧
        (SessionFactory.growing 1).Confines
          (s.machine :: (statesOf shown ++ (end?.map Prod.snd).toList)) := by
  constructor
  · -- The guest begins with more pages than it declares at most.
    apply (memory_confined (.growing 3)).1
    intro hallows
    have hthree : ¬ 3 ≤ (SessionFactory.growing 3).guest.declaredPages := by decide
    exact hthree hallows.declared
  · -- With one page it can grow once, and is refused then.
    have hshown : ((SessionFactory.growing 1).create.watch 0).2.bind firstGrowth? =
        some (1, 2, -1) := by decide +kernel
    obtain ⟨_ | s, hcreate, hgrowth⟩ := Option.bind_eq_some_iff.1 hshown
    · cases hgrowth
    obtain ⟨ended, hended, -⟩ := Option.bind_eq_some_iff.1 hgrowth
    obtain ⟨made, hmade⟩ := Run.exists_traced_of_watch hcreate
    obtain ⟨trace, htrace⟩ := Run.exists_traced_of_watch hended
    obtain ⟨-, -, -, hlives, hcode⟩ := memory_confined (.growing 1)
    have hconfines := hlives _ s (.fresh hmade) _ _ _ htrace
    obtain ⟨shown, end?, hrun⟩ := Run.exists_traced
      ((Step.execAll (Code.allocator 1) ⟨0, 0⟩ [.drop (.grow (.const 3))]).run.run s.machine)
    have hmachine : (SessionFactory.growing 1).Confined s.machine :=
      hconfines.confined s.machine (by simp)
    exact ⟨made, s, trace, ended, hmade, htrace, hgrowth, hconfines, shown, end?, hrun,
      hcode _ hmachine _ _ _ _ _ hrun⟩

end EventSandbox
