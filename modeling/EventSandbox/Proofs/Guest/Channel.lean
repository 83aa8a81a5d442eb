import EventSandbox.Proofs.Guest.Confinement
import EventSandbox.Proofs.Processor.Sequence
import EventSandbox.Wasm.Sections

/-!
# EventSandbox.Proofs.Guest.Channel — what one call can tell the next

Between two calls a session keeps what the instance of its guest holds, and nothing else that a call
could find: the event is taken back, the meter is set anew, and everything else is as the factory
made it (`Session.Reachable.belongsTo`). So two sessions of a factory with the same contents differ
in their meters at most (`eq_of_sameContents`), and no call tells them apart, whatever they have
been through (`guestProcess_forgets`).

Memory and globals are not all that an instance holds. A guest that drops a segment leaves no trace
of it in either, and may still find out in the next call (`guestProcess_remembers`).
-/

namespace EventSandbox.Session

/-- Sessions whose instances hold the same: in memory and in globals, and of segments and tables. -/
structure SameContents (s s' : Session) : Prop where
  size : s.machine.memory.size = s'.machine.memory.size
  bytes : ∀ i, i < s.machine.memory.size → s.machine.memory.byte i = s'.machine.memory.byte i
  globals : s.machine.globals = s'.machine.globals
  holdings : s.machine.holdings = s'.machine.holdings

variable {f : SessionFactory} {s s' : Session}

/-- Sessions of a factory with the same contents are the same but for what is left on the meter. -/
theorem Reachable.eq_of_sameContents (hs : s.Reachable f) (hs' : s'.Reachable f)
    (h : s.SameContents s') : ∃ meter, s' = { s with machine := { s.machine with meter } } := by
  have hmemory : s.machine.memory = s'.machine.memory :=
    Memory.eq_of_bytes (hs.maxPages.trans hs'.maxPages.symm) h.size h.bytes
  have hglobals := h.globals
  have hholdings := h.holdings
  obtain ⟨hengine, hbudget, hticker, hevent, exports, hresolve, hexports⟩ := hs.belongsTo
  obtain ⟨hengine', hbudget', hticker', hevent', exports', hresolve', hexports'⟩ := hs'.belongsTo
  obtain rfl := Except.ok.inj (hresolve.symm.trans hresolve')
  -- What is not contents is the factory's in both of them, except for the meter.
  obtain ⟨⟨memory, globals, holdings, event?, exports?, meter⟩, engine, budget, ticker⟩ := s
  obtain ⟨⟨memory', globals', holdings', event?', exports?', meter'⟩, engine', budget', ticker'⟩ :=
    s'
  dsimp only at *
  subst hengine hengine' hbudget hbudget' hticker hticker' hevent hevent' hexports hexports'
    hmemory hglobals hholdings
  exact ⟨meter', rfl⟩

/-- A call does not tell them apart. -/
theorem Reachable.guestProcess_eq (hs : s.Reachable f) (hs' : s'.Reachable f)
    (h : s.SameContents s') (event : Fields) : s.guestProcess event = s'.guestProcess event := by
  obtain ⟨meter, hmeter⟩ := f.exists_meter
  obtain ⟨exports, hexports, -⟩ := hs.belongsTo.exports
  have hrun := hs.guestProcess_run hmeter hexports event
  have hrun' := hs'.guestProcess_run hmeter hexports event
  obtain ⟨left, rfl⟩ := hs.eq_of_sameContents hs' h
  -- What was left on the meter is overwritten, so both calls begin and finish alike.
  exact hrun.trans hrun'.symm

/-- What an instance holds is the only channel from one call to the next. If two sessions of a
factory have the same there, then whatever events they have processed and however that has ended,
the next call of one does all that the next call of the other does: told the same times it shows
the same and ends in the same way, with the same result, event and contents; and so does every call
after that. -/
theorem guestProcess_forgets (hs : s.Reachable f) (hs' : s'.Reachable f) (h : s.SameContents s') :
    (∀ event, s.guestProcess event = s'.guestProcess event) ∧
    (∀ event heard heard' ended ended', (s.guestProcess event).Path heard (.done ended) →
      (s'.guestProcess event).Path heard' (.done ended') → timesOf heard = timesOf heard' →
      labelsOf heard = labelsOf heard' ∧ ended.result = ended'.result ∧
        ended.event = ended'.event ∧ ended.session.SameContents ended'.session) ∧
    ∀ {ω : Type} (host : Run.Host ω) (events : List Fields) (w : ω),
      (processAll host events (s, w)).map (fun (ends, _, w) => (ends, w)) =
        (processAll host events (s', w)).map fun (ends, _, w) => (ends, w) := by
  have hsame := hs.guestProcess_eq hs' h
  refine ⟨hsame, ?_, ?_⟩
  · -- What a run does is settled by the times that it is told.
    intro event heard heard' ended ended' hpath hpath' htimes
    rw [← hsame event] at hpath'
    obtain ⟨rfl, rfl⟩ := hpath.unique hpath' htimes
    exact ⟨rfl, rfl, rfl, rfl, fun _ _ => rfl, rfl, rfl⟩
  · intro ω host events w
    cases events with
    | nil => rfl
    -- After the first event both are the same session.
    | cons event events =>
      unfold processAll
      rw [hsame event]

end EventSandbox.Session

namespace EventSandbox

/-- A guest without memory that returns the status of a `getField` if there is no such field, and
else burns more fuel than it has. -/
def SessionFactory.burning : SessionFactory :=
  { (Processor.small [] 0).factory with
    engine := ⟨true, false, 1⟩
    execution := ⟨10000, 0, 1⟩
    guest :=
      { (CompiledModule.small []).guest with
        minPages := 0
        functions :=
          [⟨Guest.mallocName, FuncType.malloc, .steps []⟩,
            ⟨Guest.processName, FuncType.process,
              .steps [.getField (.const 0) (.const 0) (.const 0) (.const 0),
                .branch (.binary .eq .status (.const 3)) [.ret .status] [.burn 20000]]⟩] } }

/-- What the first call of a new session leaves behind: the size of the memory, the globals, the
segments and the fuel. -/
def leftByFirst? (event : Fields) (made : Except ProcessorError Session) :
    Option (Nat × List Word × Holdings × Option Nat) :=
  match made with
  | .error _ => none
  | .ok s => ((s.guestProcess event).watch 0).2.map fun ended =>
    let m := ended.session.machine
    (m.memory.size, m.globals.toList, m.holdings, m.meter.fuel?)

/-- A first call that has been seen to leave something behind leaves it in a session. -/
theorem exists_left {f : SessionFactory} {event : Fields}
    {left : Nat × List Word × Holdings × Option Nat}
    (h : (f.create.watch 0).2.bind (leftByFirst? event) = some left) :
    ∃ s : Session, s.Reachable f ∧ s.machine.memory.size = left.1 ∧
      s.machine.globals.toList = left.2.1 ∧ s.machine.holdings = left.2.2.1 ∧
      s.machine.meter.fuel? = left.2.2.2 := by
  obtain ⟨_ | s, hmade, hcall⟩ := Option.bind_eq_some_iff.1 h
  · cases hcall
  obtain ⟨ended, hended, rfl⟩ := Option.map_eq_some_iff.1 hcall
  obtain ⟨made, hcreate⟩ := Run.exists_traced_of_watch hmade
  obtain ⟨trace, htrace⟩ := Run.exists_traced_of_watch hended
  have hfresh : s.Reachable f := .fresh (Run.yields_of_traced hcreate)
  exact ⟨ended.session, .next hfresh (Run.yields_of_traced htrace), rfl, rfl, rfl, rfl⟩

/-- The first call of a session returns, that of another runs out of fuel. -/
theorem Session.guestProcess_forgets_burning :
    ∃ s s' : Session, s.Reachable .burning ∧ s'.Reachable .burning ∧ s.SameContents s' ∧
      s.machine.meter.fuel? = some 9970 ∧ s'.machine.meter.fuel? = some 0 ∧
      ∀ event, s.guestProcess event = s'.guestProcess event := by
  -- One call ends by itself and the other one out of fuel; neither leaves anything in the memory.
  have hreturned : (SessionFactory.burning.create.watch 0).2.bind (leftByFirst? []) =
      some (0, [0, 0, 0, 0], .none, some 9970) := by
    decide +kernel
  have hexhausted : (SessionFactory.burning.create.watch 0).2.bind
      (leftByFirst? [("", .bool true)]) = some (0, [0, 0, 0, 0], .none, some 0) := by
    decide +kernel
  obtain ⟨s, hs, hsize, hglobals, hholdings, hfuel⟩ := exists_left hreturned
  obtain ⟨s', hs', hsize', hglobals', hholdings', hfuel'⟩ := exists_left hexhausted
  have hempty : s.machine.memory.size = 0 := hsize
  have hsame : s.SameContents s' := by
    refine ⟨hsize.trans hsize'.symm, ?_, ?_, hholdings.trans hholdings'.symm⟩
    · intro i hi
      omega
    · exact Vector.toList_inj.1 (hglobals.trans hglobals'.symm)
  exact ⟨s, s', hs, hs', hsame, hfuel, hfuel', (Session.guestProcess_forgets hs hs' hsame).1⟩

/-! ## A segment is dropped -/

/-- The steps of a guest that copies a segment to the beginning of its memory, wipes the copy and
drops the segment. -/
def droppingSteps : List Step :=
  [ .initMemory 0 (.const 0) (.const 0) (.const 1), .store8 (.const 0) (.const 0), .dropData 0,
    .ret (.const 0) ]

/-- A guest that drops its one segment. -/
def Guest.dropping : Guest :=
  { Guest.empty with
    minPages := 1
    memoryName? := some Guest.memoryName
    functions :=
      [⟨Guest.mallocName, FuncType.malloc, .steps [.ret .argument]⟩,
        ⟨Guest.processName, FuncType.process, .steps droppingSteps⟩]
    holdings := ⟨[utf8 "x"], [], []⟩ }

def SessionFactory.dropping : SessionFactory :=
  { (Processor.small [] 0).factory with guest := .dropping }

namespace Session

/-- A session of that guest with some bytes in memory and what is left of the segment. -/
def dropping (memory : Memory) (segment : Bytes) : Session :=
  let small := Session.small ⟨.steps [.ret .argument], .steps droppingSteps⟩ none
  { small with machine := { small.machine with memory, holdings := ⟨[segment], [], []⟩ } }

theorem create_dropping : SessionFactory.dropping.create =
    .done (.ok (dropping (Memory.zeros 1 16 (by decide)) (utf8 "x"))) :=
  Processor.create_of_small (g := .dropping) rfl rfl

/-- A new session and one that has had a call, with the same in memory and in globals. On equal
events, and without asking for the time, one call returns and the other traps. -/
theorem guestProcess_remembers :
    ∃ s s' : Session, s.Reachable .dropping ∧ s'.Reachable .dropping ∧
      s.machine.memory = s'.machine.memory ∧ s.machine.globals = s'.machine.globals ∧
      ∃ ended ended', (s.guestProcess []).Path [] (.done ended) ∧
        (s'.guestProcess []).Path [] (.done ended') ∧ ended.result = .ok 0 ∧
        ended'.result = .error (.invocationFault
          "wasm trap: out of bounds memory access" (some "MemoryOutOfBounds")) := by
  let zeros := Memory.zeros 1 16 (by decide)
  let used := (zeros.setSlice 0 (utf8 "x")).setSlice 0 [0]
  have hfresh : (dropping zeros (utf8 "x")).Reachable .dropping :=
    .fresh ⟨[], create_dropping ▸ .here _⟩
  have hfirst : ((dropping zeros (utf8 "x")).guestProcess []).Path []
      (.done ⟨.ok 0, [], dropping used []⟩) := .pause (.pause (.pause (.here _)))
  have hused : zeros = used :=
    (Memory.setSlice_setSlice_slice (utf8 "x") (by decide)).symm
  refine ⟨_, _, hfresh, .next hfresh ⟨_, hfirst⟩, hused, rfl, _, _, hfirst, .here _, rfl, rfl⟩

/-- The guest as a file holds it. -/
example : Wasm.sections? (Wasm.magic ++ Wasm.version ++
    [0x01, 10, 2, 0x60, 1, 0x7F, 1, 0x7F, 0x60, 0, 1, 0x7F, 0x03, 3, 2, 0, 1, 0x05, 3, 1, 0, 1,
      0x07, 29, 3] ++
    6 :: utf8 "memory" ++ [2, 0] ++ 6 :: utf8 "malloc" ++ [0, 0] ++ 7 :: utf8 "process" ++ [0, 1] ++
    [0x0C, 1, 1, 0x0A, 31, 2, 4, 0, 0x20, 0, 0x0B, 24, 0, 0x41, 0, 0x41, 0, 0x41, 1, 0xFC, 8, 0, 0,
      0x41, 0, 0x41, 0, 0x3A, 0, 0, 0xFC, 9, 0, 0x41, 0, 0x0B, 0x0B, 4, 1, 1, 1, 0x78]) =
    some .dropping := rfl

end Session

end EventSandbox
