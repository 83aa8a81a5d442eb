import EventSandbox.Json.Parser
import EventSandbox.Json.Printer

/-!
# EventSandbox.Cli.Records — lines in, lines out

A stream of bytes is cut into lines at each line feed. A line that is not blank becomes a record:
its number, and its event if it holds one. All lines are read before any is processed, and one
that is not text spoils the whole stream.

The records are divided among workers in chunks of equal size, the last of which may be shorter,
and written in their old order, one line for each that still has an event.
-/

namespace EventSandbox.Cli

/-! ## Reading -/

/-- A line of the input. The event is missing if the line holds none or its processing failed. -/
structure Record where
  line : Nat
  event? : Option Fields
deriving Repr

/-- A line without the carriage return at its end, given backwards. -/
def dropReturn (line : Bytes) : Bytes :=
  match line with
  | b :: rest => if b = ascii '\r' then rest else b :: rest
  | [] => []

/-- The lines of a stream; `line` holds the one that has begun, last byte first. One carriage
return before a line feed belongs to the break. -/
def linesFrom (line : Bytes) : Bytes → List Bytes
  | [] => if line.isEmpty then [] else [line.reverse]
  | b :: s =>
    if b = ascii '\n' then (dropReturn line).reverse :: linesFrom [] s else linesFrom (b :: line) s

/-- The lines of a stream. What follows the last line feed is a line if it is not empty. -/
def splitLines (s : Bytes) : List Bytes := linesFrom [] s

/-- White space of any script. -/
def isWhite (c : Char) : Bool :=
  let n := c.toNat
  (0x09 ≤ n && n ≤ 0x0D) || n = 0x20 || n = 0x85 || n = 0xA0 || n = 0x1680
    || (0x2000 ≤ n && n ≤ 0x200A) || n = 0x2028 || n = 0x2029 || n = 0x202F || n = 0x205F
    || n = 0x3000

/-- The event of a line, if it holds one. -/
def eventOf? (line : Bytes) : Option Fields :=
  match Fields.ofJson line with
  | .ok event => some event
  | .error _ => none

/-- What comes of reading a stream: its records, up to the first line that is not text, and the
number of that line, if there is one. -/
structure Records where
  records : List Record
  spoiled? : Option Nat

/-- Reads lines, the first of which has the given number. -/
def readRecords (number : Nat) : List Bytes → Records
  | [] => ⟨[], none⟩
  | line :: rest =>
    match Utf8.decode line with
    | .error _ => ⟨[], some number⟩
    | .ok chars =>
      let after := readRecords (number + 1) rest
      if chars.all isWhite then after
      else { after with records := ⟨number, eventOf? line⟩ :: after.records }

/-! ## Dividing -/

/-- How many records each of so many workers takes. -/
def chunkSize (records workers : Nat) : Nat :=
  records / workers + if records % workers = 0 then 0 else 1

/-- A list in pieces of one size; `limit` bounds their number. -/
def chunks {α : Type} (size : Nat) : (limit : Nat) → List α → List (List α)
  | 0, _ => []
  | _, [] => []
  | limit + 1, x :: xs => (x :: xs).take size :: chunks size limit ((x :: xs).drop size)

/-- The records of each worker. -/
def share {α : Type} (workers : Nat) (records : List α) : List (List α) :=
  chunks (chunkSize records.length workers) records.length records

/-! ## Writing -/

/-- The line that is written for an event. -/
def outputLine (event : Fields) : Bytes := Value.toJson (.object event) ++ [ascii '\n']

/-- Everything that is written for records. -/
def output (records : List Record) : Bytes :=
  (records.filterMap fun r => r.event?.map outputLine).flatten

/-- How many records have no event. -/
def failures (records : List Record) : Nat := records.countP fun r => r.event?.isNone

end EventSandbox.Cli
