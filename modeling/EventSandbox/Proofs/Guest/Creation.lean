import EventSandbox.Proofs.Guest.Imports
import EventSandbox.Proofs.Guest.Limits
import EventSandbox.Proofs.Guest.Startup

/-!
# EventSandbox.Proofs.Guest.Creation — which guests can be brought to life, and why others cannot

A session is made in steps: imports, memory, data, the start function, and three exports. For each
step there is a condition on the guest, said without the function that checks it, and an inductive
list of what may be wrong there. A step is reached only if the conditions of all steps before it
hold, so the error is that of the first step that fails (`CreationFails`).

The start function is the one step that need not come to an end. If a limit is set it does.
-/

namespace EventSandbox

namespace Guest

variable {g : Guest} {m : Machine} {maxBytes : Nat} {meter : Meter}

/-! ## Imports, memory and data -/

/-- All data has its place in the memory. -/
def DataFits (g : Guest) : Prop :=
  ∀ segment ∈ g.data, segment.1.toNat + segment.2.length ≤ g.minPages * pageSize

/-- What a guest needs up to the point where its start function runs. -/
structure Loads (g : Guest) (maxBytes : Nat) : Prop where
  imports : ∀ wanted ∈ g.imports, wanted.Fits
  memory : g.minPages ≤ g.pageLimit maxBytes
  data : g.DataFits

/-- The first of these needs that is not met. -/
inductive LoadFails (g : Guest) (maxBytes : Nat) : InstantiationFault → Prop
  | imports {fault} (h : ImportsFail g.imports fault) : LoadFails g maxBytes (.unresolved fault)
  | memory (himports : ∀ wanted ∈ g.imports, wanted.Fits)
      (hmemory : g.pageLimit maxBytes < g.minPages) :
      LoadFails g maxBytes (.memoryLimit g.minPages)
  | data (himports : ∀ wanted ∈ g.imports, wanted.Fits)
      (hmemory : g.minPages ≤ g.pageLimit maxBytes) (hdata : ¬ g.DataFits) :
      LoadFails g maxBytes (.trapped .memoryOutOfBounds)

/-- A guest whose start function has not run yet: its data lies in a memory of zeros, in order. -/
def loaded (g : Guest) (maxPages : Nat) (h : g.minPages ≤ maxPages) (meter : Meter) : Machine where
  memory := g.data.foldl (fun memory segment => memory.setSlice segment.1.toNat segment.2)
    (Memory.zeros g.minPages maxPages h)
  globals := g.globals
  holdings := g.holdings
  event? := none
  exports? := none
  meter

theorem copyData_ok {data : List (Word × Bytes)} {memory : Memory}
    (h : ∀ segment ∈ data, segment.1.toNat + segment.2.length ≤ memory.size) :
    copyData data memory = .ok
      (data.foldl (fun memory segment => memory.setSlice segment.1.toNat segment.2) memory) := by
  induction data generalizing memory with
  | nil => rfl
  | cons segment rest ih =>
    obtain ⟨hsegment, hrest⟩ := List.forall_mem_cons.1 h
    rw [copyData, if_pos hsegment, List.foldl_cons]
    apply ih
    rw [Memory.size_setSlice]
    exact hrest

theorem copyData_error {data : List (Word × Bytes)} {memory : Memory}
    (h : ¬ ∀ segment ∈ data, segment.1.toNat + segment.2.length ≤ memory.size) :
    copyData data memory = .error (.trapped .memoryOutOfBounds) := by
  induction data generalizing memory with
  | nil => exact absurd (by simp) h
  | cons segment rest ih =>
    rw [copyData]
    split
    · apply ih
      rw [Memory.size_setSlice]
      exact fun hrest => h (List.forall_mem_cons.2 ⟨‹_›, hrest⟩)
    · rfl

theorem freshMemory_ok (h : g.minPages ≤ g.pageLimit maxBytes) :
    g.freshMemory maxBytes = .ok (Memory.zeros g.minPages _ h) :=
  dif_pos h

theorem prepare_of_loads (h : g.Loads maxBytes) :
    g.prepare .full maxBytes meter = .ok (g.loaded _ h.memory meter) := by
  obtain ⟨found, hfound⟩ := Linker.resolveAll_isOk.2 h.imports
  have hdata := h.data
  unfold DataFits at hdata
  rw [← Memory.size_zeros h.memory] at hdata
  unfold prepare
  rw [hfound, freshMemory_ok h.memory]
  change (copyData g.data (Memory.zeros g.minPages _ h.memory) >>= _) = _
  rw [copyData_ok hdata]
  rfl

theorem prepare_of_loadFails {fault : InstantiationFault} (h : g.LoadFails maxBytes fault) :
    g.prepare .full maxBytes meter = .error fault := by
  unfold prepare
  cases h with
  | imports hfail =>
    rw [Linker.resolveAll_eq_error.2 hfail]
    rfl
  -- The imports are all there, so the memory is what comes next.
  | memory himports hmemory =>
    obtain ⟨found, hfound⟩ := Linker.resolveAll_isOk.2 himports
    have hfresh : g.freshMemory maxBytes = .error (.memoryLimit g.minPages) :=
      dif_neg (Nat.not_le_of_lt hmemory)
    rw [hfound, hfresh]
    rfl
  -- The memory is there as well, and the data is what comes last.
  | data himports hmemory hdata =>
    obtain ⟨found, hfound⟩ := Linker.resolveAll_isOk.2 himports
    unfold DataFits at hdata
    rw [← Memory.size_zeros hmemory] at hdata
    rw [hfound, freshMemory_ok hmemory]
    change (copyData g.data (Memory.zeros g.minPages _ hmemory) >>= _) = _
    rw [copyData_error hdata]
    rfl

theorem loads_or_loadFails (g : Guest) (maxBytes : Nat) :
    g.Loads maxBytes ∨ ∃ fault, g.LoadFails maxBytes fault := by
  rcases exists_ok_or_error (Linker.full.resolveAll g.imports) with hfound | ⟨fault, hfault⟩
  swap
  · exact .inr ⟨_, .imports (Linker.resolveAll_eq_error.1 hfault)⟩
  have himports := Linker.resolveAll_isOk.1 hfound
  rcases Nat.lt_or_ge (g.pageLimit maxBytes) g.minPages with hlarge | hmemory
  · exact .inr ⟨_, .memory himports hlarge⟩
  by_cases hdata : g.DataFits
  · exact .inl ⟨himports, hmemory, hdata⟩
  · exact .inr ⟨_, .data himports hmemory hdata⟩

/-! ## The start function -/

/-- How the start function of a guest can end: with a trap, or with the state that it leaves. -/
inductive StartEnds (g : Guest) (m : Machine) : Except Trap Machine → Prop
  | absent (h : g.start? = none) : StartEnds g m (.ok m)
  | returned {steps word m'} (h : g.start? = some steps)
      (hrun : ((Code.call (.steps steps) 0).run m).Yields (.ok word, m')) : StartEnds g m (.ok m')
  | trapped {steps trap m'} (h : g.start? = some steps)
      (hrun : ((Code.call (.steps steps) 0).run m).Yields (.error trap, m')) :
      StartEnds g m (.error trap)

theorem runStart_yields {made : Except InstantiationFault Machine} :
    (g.runStart m).Yields made ↔ ∃ last, g.StartEnds m last ∧ made = last.mapError .trapped := by
  unfold runStart
  cases hstart : g.start? with
  | none =>
    constructor
    · intro h
      obtain rfl := Run.yields_done.1 h
      exact ⟨_, .absent hstart, rfl⟩
    · rintro ⟨last, hlast, rfl⟩
      cases hlast with
      | absent => exact Run.yields_done.2 rfl
      | returned h | trapped h => cases hstart.symm.trans h
  | some steps =>
    dsimp only
    -- The end of the start function is the end of the run, with what it has made.
    constructor
    · intro h
      obtain ⟨⟨trap | word, m'⟩, hrun, hrest⟩ := Run.yields_bind_iff.1 h
      · obtain rfl := Run.yields_done.1 hrest
        exact ⟨_, .trapped hstart hrun, rfl⟩
      · obtain rfl := Run.yields_done.1 hrest
        exact ⟨_, .returned hstart hrun, rfl⟩
    · rintro ⟨last, hlast, rfl⟩
      cases hlast with
      | absent h => cases hstart.symm.trans h
      | returned h hrun =>
        cases hstart.symm.trans h
        exact Run.yields_bind_iff.2 ⟨_, hrun, Run.yields_done.2 rfl⟩
      | trapped h hrun =>
        cases hstart.symm.trans h
        exact Run.yields_bind_iff.2 ⟨_, hrun, Run.yields_done.2 rfl⟩

/-- Under any limit the start function comes to an end. -/
theorem startEnds_of_limits {trap : Trap} (h : m.meter.limits trap) :
    ∃ last, g.StartEnds m last := by
  cases hstart : g.start? with
  | none => exact ⟨_, .absent hstart⟩
  | some steps =>
    obtain ⟨trace, _ | ⟨trap | word, m'⟩, htraced⟩ :=
      Run.exists_traced ((Code.call (.steps steps) 0).run m)
    · have hstops :=
        Guarded.stops_rules.enter Code.maxActivations (.steps steps) 0 m trace _ htraced
      -- Only a guest without limits runs for ever.
      rw [hstops.forever rfl trap] at h
      cases h
    · exact ⟨_, .trapped hstart (Run.yields_of_traced htraced)⟩
    · exact ⟨_, .returned hstart (Run.yields_of_traced htraced)⟩

/-! ## Exports -/

/-- The function that a guest exports under a name. -/
def Exported (g : Guest) (name : String) (e : Export) : Prop :=
  e.name = name ∧ ∃ before after, g.functions = before ++ e :: after ∧
    ∀ other ∈ before, other.name ≠ name

/-- A guest exports a function of a type. -/
def ExportsFunction (g : Guest) (name : String) (wanted : FuncType) : Prop :=
  ∃ e, g.Exported name e ∧ e.type = wanted

/-- The first thing that is wrong with a function that a guest should export. -/
inductive BadFunction (g : Guest) (name : String) (wanted : FuncType) : ExportFault → Prop
  /-- There is nothing under the name, or something that is no function. -/
  | missing (h : ∀ e ∈ g.functions, e.name ≠ name) : BadFunction g name wanted .missingFunction
  | paramCount {e} (he : g.Exported name e)
      (h : e.type.params.length ≠ wanted.params.length) :
      BadFunction g name wanted (.paramCount wanted.params.length e.type.params.length)
  | resultCount {e} (he : g.Exported name e)
      (hparams : e.type.params.length = wanted.params.length)
      (h : e.type.results.length ≠ wanted.results.length) :
      BadFunction g name wanted (.resultCount wanted.results.length e.type.results.length)
  | paramTypes {e} (he : g.Exported name e)
      (hparams : e.type.params.length = wanted.params.length)
      (hresults : e.type.results.length = wanted.results.length)
      (h : e.type.params ≠ wanted.params) : BadFunction g name wanted .paramTypes
  | resultTypes {e} (he : g.Exported name e)
      (hresults : e.type.results.length = wanted.results.length)
      (hparams : e.type.params = wanted.params)
      (h : e.type.results ≠ wanted.results) : BadFunction g name wanted .resultTypes

/-- The first bad export of a guest. -/
inductive BadExport (g : Guest) : String → ExportFault → Prop
  | malloc {fault} (h : g.BadFunction mallocName .malloc fault) : BadExport g mallocName fault
  | process {fault} (hmalloc : g.ExportsFunction mallocName .malloc)
      (h : g.BadFunction processName .process fault) : BadExport g processName fault
  | memory (hmalloc : g.ExportsFunction mallocName .malloc)
      (hprocess : g.ExportsFunction processName .process)
      (h : g.memoryName? ≠ some memoryName) : BadExport g memoryName .missingMemory

section Functions

variable {name : String} {wanted : FuncType} {e : Export} {fault : ExportFault}

theorem find?_of_exported (h : g.Exported name e) :
    (g.functions.find? fun f => f.name = name) = some e := by
  obtain ⟨hname, before, after, hfunctions, hbefore⟩ := h
  rw [List.find?_eq_some_iff_append]
  exact ⟨by simpa using hname, before, after, hfunctions, by simpa using hbefore⟩

theorem resolveFunction_of_exported (h : g.Exported name e) :
    g.resolveFunction name wanted = (checkType wanted e.type).map fun _ => e.code := by
  unfold resolveFunction
  rw [find?_of_exported h]

theorem resolveFunction_ok (h : g.ExportsFunction name wanted) :
    ∃ code, g.resolveFunction name wanted = .ok code := by
  obtain ⟨e, he, rfl⟩ := h
  refine ⟨e.code, ?_⟩
  rw [resolveFunction_of_exported he]
  simp [checkType, Except.map]

theorem resolveFunction_error (h : g.BadFunction name wanted fault) :
    g.resolveFunction name wanted = .error fault := by
  -- One case for each check, which is made only if those before it have passed.
  cases h with
  | missing hmissing =>
    have hnone : (g.functions.find? fun f => f.name = name) = none := by
      rw [List.find?_eq_none]
      simpa using hmissing
    unfold resolveFunction
    rw [hnone]
  | paramCount he h =>
    rw [resolveFunction_of_exported he, checkType, if_pos h]
    rfl
  | resultCount he hparams h =>
    rw [resolveFunction_of_exported he, checkType, if_neg (not_not_intro hparams), if_pos h]
    rfl
  | paramTypes he hparams hresults h =>
    rw [resolveFunction_of_exported he, checkType, if_neg (not_not_intro hparams),
      if_neg (not_not_intro hresults), if_pos h]
    rfl
  | resultTypes he hresults hparams h =>
    rw [resolveFunction_of_exported he, checkType,
      if_neg (not_not_intro (congrArg List.length hparams)), if_neg (not_not_intro hresults),
      if_neg (not_not_intro hparams), if_pos h]
    rfl

theorem exportsFunction_or_bad (g : Guest) (name : String) (wanted : FuncType) :
    g.ExportsFunction name wanted ∨ ∃ fault, g.BadFunction name wanted fault := by
  cases hfind : g.functions.find? fun f => f.name = name with
  | none =>
    rw [List.find?_eq_none] at hfind
    exact .inr ⟨_, .missing (by simpa using hfind)⟩
  | some e =>
  -- Something has that name: its type is checked part by part, and the first part that differs is
  -- the fault.
  rw [List.find?_eq_some_iff_append] at hfind
  obtain ⟨hname, before, after, hfunctions, hbefore⟩ := hfind
  have he : g.Exported name e :=
    ⟨by simpa using hname, before, after, hfunctions, by simpa using hbefore⟩
  by_cases hparamCount : e.type.params.length = wanted.params.length
  swap
  · exact .inr ⟨_, .paramCount he hparamCount⟩
  by_cases hresultCount : e.type.results.length = wanted.results.length
  swap
  · exact .inr ⟨_, .resultCount he hparamCount hresultCount⟩
  by_cases hparams : e.type.params = wanted.params
  swap
  · exact .inr ⟨_, .paramTypes he hparamCount hresultCount hparams⟩
  by_cases hresults : e.type.results = wanted.results
  swap
  · exact .inr ⟨_, .resultTypes he hresultCount hparams hresults⟩
  exact .inl ⟨e, he, congrArg₂ FuncType.mk hparams hresults⟩

end Functions

/-- What the host needs to call a guest. -/
structure ExportsAll (g : Guest) : Prop where
  malloc : g.ExportsFunction mallocName .malloc
  process : g.ExportsFunction processName .process
  memory : g.memoryName? = some memoryName

theorem resolveExports_ok (h : g.ExportsAll) : ∃ exports, g.resolveExports = .ok exports := by
  obtain ⟨malloc, hmalloc⟩ := resolveFunction_ok h.malloc
  obtain ⟨process, hprocess⟩ := resolveFunction_ok h.process
  refine ⟨⟨malloc, process⟩, ?_⟩
  unfold resolveExports
  rw [hmalloc, hprocess]
  exact if_pos h.memory

theorem resolveExports_error {name : String} {fault : ExportFault} (h : g.BadExport name fault) :
    g.resolveExports = .error (name, fault) := by
  unfold resolveExports
  -- An export is looked up only if those before it were found.
  cases h with
  | malloc h =>
    rw [resolveFunction_error h]
    rfl
  | process hmalloc h =>
    obtain ⟨malloc, hmalloc⟩ := resolveFunction_ok hmalloc
    rw [hmalloc, resolveFunction_error h]
    rfl
  | memory hmalloc hprocess h =>
    obtain ⟨malloc, hmalloc⟩ := resolveFunction_ok hmalloc
    obtain ⟨process, hprocess⟩ := resolveFunction_ok hprocess
    rw [hmalloc, hprocess]
    exact if_neg h

theorem exportsAll_or_bad (g : Guest) :
    g.ExportsAll ∨ ∃ name fault, g.BadExport name fault := by
  rcases g.exportsFunction_or_bad mallocName .malloc with hmalloc | ⟨fault, hbad⟩
  swap
  · exact .inr ⟨_, _, .malloc hbad⟩
  rcases g.exportsFunction_or_bad processName .process with hprocess | ⟨fault, hbad⟩
  swap
  · exact .inr ⟨_, _, .process hmalloc hbad⟩
  by_cases hmemory : g.memoryName? = some memoryName
  · exact .inl ⟨hmalloc, hprocess, hmemory⟩
  · exact .inr ⟨_, _, .memory hmalloc hprocess hmemory⟩

end Guest

/-! ## All steps -/

namespace SessionFactory

variable {f : SessionFactory}

/-- What limits a guest while it is brought to life. -/
def meter (f : SessionFactory) : Meter where
  fuel? := f.budget.fuel?
  work? := f.budget.epochTicks?.bind fun ticks => f.ticker.workIn? ticks f.engine.epochTickMs.toNat

theorem ofBudget_eq (f : SessionFactory) :
    Meter.ofBudget f.engine f.ticker f.budget = .ok f.meter := by
  unfold Meter.ofBudget meter budget Budget.ofConfig
  cases f.engine.fuelMetering <;> rfl

/-- How the start function of a guest that has been loaded can end. -/
def Starts (f : SessionFactory) (h : f.guest.Loads f.execution.maxMemoryBytes)
    (last : Except Trap Machine) : Prop :=
  f.guest.StartEnds (f.guest.loaded _ h.memory f.meter) last

/-- A guest of which a session can be made. -/
structure Creatable (f : SessionFactory) : Prop where
  loads : f.guest.Loads f.execution.maxMemoryBytes
  starts : ∃ m, f.Starts loads (.ok m)
  exports : f.guest.ExportsAll

/-- The first step that fails, and its error. -/
inductive CreationFails (f : SessionFactory) : ProcessorError → Prop
  | loading {fault} (h : f.guest.LoadFails f.execution.maxMemoryBytes fault) :
      CreationFails f (instantiationError fault)
  | starting {trap} (hloads : f.guest.Loads f.execution.maxMemoryBytes)
      (h : f.Starts hloads (.error trap)) : CreationFails f (instantiationError (.trapped trap))
  | exporting {m name fault} (hloads : f.guest.Loads f.execution.maxMemoryBytes)
      (hstarts : f.Starts hloads (.ok m)) (h : f.guest.BadExport name fault) :
      CreationFails f (.exportResolution name fault.message)

/-- What is made of a guest whose start function has ended. -/
def finish (f : SessionFactory) : Except Trap Machine → Except ProcessorError Session
  | .error trap => .error (instantiationError (.trapped trap))
  | .ok m =>
    match f.guest.resolveExports with
    | .error (name, fault) => .error (.exportResolution name fault.message)
    | .ok exports => .ok ⟨{ m with exports? := some exports }, f.engine, f.budget, f.ticker⟩

/-- The making of a session, once its meter is set. -/
theorem create_eq (hlinker : f.linker = .full) :
    f.create = (f.guest.instantiate .full f.execution.maxMemoryBytes f.meter).bind fun
      | .error fault => .done (.error (instantiationError fault))
      | .ok m => .done (f.finish (.ok m)) := by
  rw [create_run (ofBudget_eq f), hlinker]
  congr 1
  funext made
  rcases made with fault | m <;> rfl

/-- A guest that cannot be loaded fails at once. -/
theorem create_of_loadFails (hlinker : f.linker = .full) {fault : InstantiationFault}
    (h : f.guest.LoadFails f.execution.maxMemoryBytes fault) :
    f.create = .done (.error (instantiationError fault)) := by
  rw [create_eq hlinker, Guest.instantiate, Guest.prepare_of_loadFails h]
  rfl

/-- Otherwise the end of its start function and its exports decide. -/
theorem create_of_loads (hlinker : f.linker = .full)
    (h : f.guest.Loads f.execution.maxMemoryBytes) {made : Except ProcessorError Session} :
    f.create.Yields made ↔ ∃ last, f.Starts h last ∧ made = f.finish last := by
  rw [create_eq hlinker, Guest.instantiate, Guest.prepare_of_loads h]
  simp only [Run.yields_bind_iff, Guest.runStart_yields]
  -- All that is left open is how the start function ends.
  constructor
  · rintro ⟨_, ⟨last, hlast, rfl⟩, hrest⟩
    refine ⟨last, hlast, ?_⟩
    cases last with
    | error trap => exact (Run.yields_done.1 hrest).symm
    | ok m => exact (Run.yields_done.1 hrest).symm
  · rintro ⟨last, hlast, rfl⟩
    refine ⟨_, ⟨last, hlast, rfl⟩, ?_⟩
    cases last with
    | error trap => exact Run.yields_done.2 rfl
    | ok m => exact Run.yields_done.2 rfl

theorem finish_ok (h : f.guest.ExportsAll) (m : Machine) : ∃ s, f.finish (.ok m) = .ok s := by
  obtain ⟨exports, hexports⟩ := Guest.resolveExports_ok h
  unfold finish
  rw [hexports]
  exact ⟨_, rfl⟩

theorem finish_error {name : String} {fault : Guest.ExportFault}
    (h : f.guest.BadExport name fault) (m : Machine) :
    f.finish (.ok m) = .error (.exportResolution name fault.message) := by
  unfold finish
  rw [Guest.resolveExports_error h]

theorem creatable_of_yields (hlinker : f.linker = .full) {s : Session}
    (h : f.create.Yields (.ok s)) : f.Creatable := by
  rcases f.guest.loads_or_loadFails f.execution.maxMemoryBytes with hloads | ⟨fault, hfail⟩
  · obtain ⟨trap | m, hlast, hmade⟩ := (create_of_loads hlinker hloads).1 h
    · cases hmade
    · refine ⟨hloads, ⟨m, hlast⟩, ?_⟩
      rcases f.guest.exportsAll_or_bad with hexports | ⟨name, fault, hbad⟩
      · exact hexports
      · rw [finish_error hbad] at hmade
        cases hmade
  · rw [create_of_loadFails hlinker hfail] at h
    cases Run.yields_done.1 h

theorem yields_of_creatable (hlinker : f.linker = .full) (h : f.Creatable) :
    ∃ s, f.create.Yields (.ok s) := by
  obtain ⟨m, hm⟩ := h.starts
  obtain ⟨s, hs⟩ := finish_ok h.exports m
  exact ⟨s, (create_of_loads hlinker h.loads).2 ⟨.ok m, hm, hs.symm⟩⟩

theorem creationFails_of_yields (hlinker : f.linker = .full) {error : ProcessorError}
    (h : f.create.Yields (.error error)) : f.CreationFails error := by
  rcases f.guest.loads_or_loadFails f.execution.maxMemoryBytes with hloads | ⟨fault, hfail⟩
  · -- What can be loaded fails in its start function or in its exports.
    obtain ⟨trap | m, hlast, hmade⟩ := (create_of_loads hlinker hloads).1 h
    · cases hmade
      exact .starting hloads hlast
    · rcases f.guest.exportsAll_or_bad with hexports | ⟨name, fault, hbad⟩
      · obtain ⟨s, hs⟩ := finish_ok hexports m
        rw [hs] at hmade
        cases hmade
      · rw [finish_error hbad] at hmade
        cases hmade
        exact .exporting hloads hlast hbad
  · rw [create_of_loadFails hlinker hfail] at h
    cases Run.yields_done.1 h
    exact .loading hfail

theorem yields_of_creationFails (hlinker : f.linker = .full) {error : ProcessorError}
    (h : f.CreationFails error) : f.create.Yields (.error error) := by
  cases h with
  | loading hfail =>
    rw [create_of_loadFails hlinker hfail]
    exact Run.yields_done.2 rfl
  | starting hloads hlast => exact (create_of_loads hlinker hloads).2 ⟨_, hlast, rfl⟩
  | @exporting m name fault hloads hstarts hbad =>
    exact (create_of_loads hlinker hloads).2 ⟨.ok m, hstarts, (finish_error hbad m).symm⟩

/-- A guest that is limited is brought to life, or fails, in finite time. -/
theorem create_ends (hlinker : f.linker = .full) {trap : Trap} (h : f.meter.limits trap) :
    ∃ made, f.create.Yields made := by
  rcases f.guest.loads_or_loadFails f.execution.maxMemoryBytes with hloads | ⟨fault, hfail⟩
  · obtain ⟨last, hlast⟩ := Guest.startEnds_of_limits (g := f.guest)
      (m := f.guest.loaded _ hloads.memory f.meter) h
    exact ⟨_, (create_of_loads hlinker hloads).2 ⟨last, hlast, rfl⟩⟩
  · rw [create_of_loadFails hlinker hfail]
    exact ⟨_, Run.yields_done.2 rfl⟩

/-- A session can be made of a guest exactly if each step can be taken, and otherwise the error is
that of the first step that cannot. There is one outcome at most, and under any limit there is one:
only a start function that nothing limits may go on for ever. -/
theorem create_outcome (hlinker : f.linker = .full) :
    ((∃ s, f.create.Yields (.ok s)) ↔ f.Creatable) ∧
    (∀ error, f.create.Yields (.error error) ↔ f.CreationFails error) ∧
    (∀ made made', f.create.Yields made → f.create.Yields made' → made = made') ∧
    ∀ trap, f.meter.limits trap → ∃ made, f.create.Yields made := by
  refine ⟨⟨?_, yields_of_creatable hlinker⟩, ?_, ?_, ?_⟩
  · rintro ⟨s, h⟩
    exact creatable_of_yields hlinker h
  · intro error
    exact ⟨creationFails_of_yields hlinker, yields_of_creationFails hlinker⟩
  · intro made made' h h'
    exact f.timeless_create.unique h h'
  · intro trap h
    exact create_ends hlinker h

/-- A guest whose start function comes to its end, and whose allocator has a wrong type in every
way. It exports nothing else. -/
def misshapen : SessionFactory :=
  { (Processor.small [] 0).factory with
    guest :=
      { (CompiledModule.small []).guest with
        imports := [⟨hostModule, HostFunction.log.name, HostFunction.log.type⟩]
        memoryName? := none
        functions := [⟨Guest.mallocName, ⟨[.i64, .i64], []⟩, .trapping ⟨[.i64, .i64], []⟩⟩]
        start? := some [.store8 (.const 65535) (.const 9)]
        data := [(65535, [7])] } }

theorem misshapen_loads : misshapen.guest.Loads misshapen.execution.maxMemoryBytes := by
  refine ⟨?_, by decide, ?_⟩
  · intro wanted hwanted
    obtain rfl := List.mem_singleton.1 hwanted
    exact ⟨.log, ⟨rfl, rfl⟩, rfl⟩
  · intro segment hsegment
    obtain rfl := List.mem_singleton.1 hsegment
    decide

/-- The number of parameters is what counts. -/
theorem create_outcome_misshapen :
    misshapen.linker = .full ∧ ¬ misshapen.Creatable ∧
      ∀ made, misshapen.create.Yields made ↔
        made = .error (.exportResolution "malloc" "must accept 1 parameter(s) but has 2") := by
  -- The start function stores a byte and ends, so the exports are looked at.
  have hrun : (((Code.call (.steps [.store8 (.const 65535) (.const 9)]) 0).run
      (misshapen.guest.loaded _ misshapen_loads.memory misshapen.meter)).watch 0).2.map Prod.fst =
        some (.ok 0) := by
    decide +kernel
  obtain ⟨⟨_, m⟩, hended, rfl⟩ := Option.map_eq_some_iff.1 hrun
  have hstarts : misshapen.Starts misshapen_loads (.ok m) :=
    .returned rfl (Run.yields_of_traced (hended ▸ Run.traced_watch _ 0))
  have hmalloc : misshapen.guest.Exported Guest.mallocName
      ⟨Guest.mallocName, ⟨[.i64, .i64], []⟩, .trapping ⟨[.i64, .i64], []⟩⟩ :=
    ⟨rfl, [], [], rfl, by simp⟩
  have hfails : misshapen.CreationFails
      (.exportResolution "malloc" "must accept 1 parameter(s) but has 2") :=
    .exporting misshapen_loads hstarts (.malloc (.paramCount hmalloc (by decide)))
  obtain ⟨hok, herror, hunique, -⟩ := create_outcome (f := misshapen) rfl
  have hyields := (herror _).2 hfails
  refine ⟨rfl, ?_, ?_⟩
  · intro hcreatable
    obtain ⟨s, hs⟩ := hok.2 hcreatable
    cases hunique _ _ hs hyields
  · intro made
    constructor
    · intro hmade
      exact hunique _ _ hmade hyields
    · rintro rfl
      exact hyields

/-! ## The order of imports -/

/-- The first import, as they are declared, that does not fit. -/
def FirstMisfit (imports : List Import) (fault : Linker.ImportFault) : Prop :=
  ∃ before wanted after, imports = before ++ wanted :: after ∧ (∀ other ∈ before, other.Fits) ∧
    wanted.Fault fault

/-- A guest that imports a host function with a wrong type, and then what nobody defines. -/
def misordered : SessionFactory :=
  { (Processor.small [] 0).factory with
    guest :=
      { (CompiledModule.small []).guest with
        imports := [⟨hostModule, HostFunction.log.name, ⟨[], []⟩⟩, ⟨"env", "nope", ⟨[], []⟩⟩] } }

/-- Imports are not reported in the order of their declaration. -/
theorem create_misordered :
    misordered.linker = .full ∧
    FirstMisfit misordered.guest.imports
      (.incompatible ⟨hostModule, HostFunction.log.name, ⟨[], []⟩⟩ HostFunction.log.type) ∧
    misordered.create =
      .done (.error (instantiationError (.unresolved (.unknown ⟨"env", "nope", ⟨[], []⟩⟩)))) ∧
    ¬ misordered.create.Yields (.error (instantiationError (.unresolved
      (.incompatible ⟨hostModule, HostFunction.log.name, ⟨[], []⟩⟩ HostFunction.log.type)))) := by
  -- The name of the first import is known, and that of the second is not.
  have hlog : Import.Names ⟨hostModule, HostFunction.log.name, ⟨[], []⟩⟩ .log := ⟨rfl, rfl⟩
  have hunknown : ¬ Import.Known ⟨"env", "nope", ⟨[], []⟩⟩ := by
    rintro ⟨f, hmodule, -⟩
    exact absurd hmodule (by decide)
  have hfail : ImportsFail misordered.guest.imports (.unknown ⟨"env", "nope", ⟨[], []⟩⟩) :=
    @ImportsFail.unknown _ [⟨hostModule, HostFunction.log.name, ⟨[], []⟩⟩] _ [] rfl
      (List.forall_mem_singleton.2 ⟨.log, hlog⟩) hunknown
  have hcreate := create_of_loadFails (f := misordered) rfl (.imports hfail)
  refine ⟨rfl, ⟨[], _, _, rfl, by simp, .incompatible hlog (by decide)⟩, hcreate, ?_⟩
  rw [hcreate, Run.yields_done]
  intro hsame
  exact absurd (ProcessorError.instantiation.inj (Except.error.inj hsame)) (by decide)

end SessionFactory

end EventSandbox
