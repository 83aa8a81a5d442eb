/-!
# EventSandbox.Status — what a guest function answers

Every host function answers the guest with a status, and the guest's own `process` function
answers the host with an `i32`. Four codes have a name; any other code is legal and is shown by
its number.
-/

namespace EventSandbox

/-- The four statuses that host and guest agree on. -/
inductive Status
  | ok
  | internalFailure
  | invalidArgument
  | notFound
deriving DecidableEq, Repr

namespace Status

/-- The number that stands for a status on the wire. -/
def code : Status → Int32
  | ok => 0
  | internalFailure => 1
  | invalidArgument => 2
  | notFound => 3

/-- The status that a number stands for, if it stands for one. -/
def ofCode? (code : Int32) : Option Status :=
  [ok, internalFailure, invalidArgument, notFound].find? fun s => s.code = code

/-- The name under which a status appears in messages. -/
def displayName : Status → String
  | ok => "OK"
  | internalFailure => "Internal Failure"
  | invalidArgument => "Invalid Argument"
  | notFound => "Not Found"

/-- A code in words: the status's name, or the bare number for a code without one. -/
def describe (code : Int32) : String :=
  match ofCode? code with
  | some s => s.displayName
  | none => "Status " ++ toString code.toInt

theorem ofCode?_code (s : Status) : ofCode? s.code = some s := by
  cases s <;> decide

theorem code_injective {s t : Status} (h : s.code = t.code) : s = t := by
  have := ofCode?_code s
  rw [h, ofCode?_code t] at this
  exact (Option.some.inj this).symm

end Status

end EventSandbox
