import EventSandbox.Cli.Program
import Std.Time.DateTime.Timestamp

/-!
# EventSandbox.Cli.World — the machine that a run takes place on

The files, the input, the clock and the processing units of the machine, as a run asks for them.
-/

namespace EventSandbox.Cli

/-- The time of the system's clock in nanoseconds since 1970. -/
def systemTime : IO Int64 := do
  let now ← Std.Time.Timestamp.now
  pure (Int64.ofInt now.toNanosecondsSinceUnixEpoch.toInt)

/-- The number of processing units; one if the machine does not say. -/
def processingUnits : IO UInt64 := do
  let count ←
    try
      let lines ← IO.FS.lines "/proc/cpuinfo"
      pure (lines.toList.countP fun line => line.startsWith "processor")
    catch _ => pure 1
  pure (UInt64.ofNat (max count 1))

/-- The reason for which the system refused to open or to read a file. A file that is there and no
plain file fails when it is read. -/
def refusal : IO.Error → Found
  | .noFileOrDirectory _ code details => .absent (details ++ " (os error " ++ toString code ++ ")")
  | .permissionDenied _ code details => .absent (details ++ " (os error " ++ toString code ++ ")")
  | .inappropriateType _ code details =>
    .unreadable (details ++ " (os error " ++ toString code ++ ")")
  | error => .absent (toString error)

/-- What the machine's files hold under a path. -/
def findFile (path : String) : IO Found := do
  try
    let bytes ← IO.FS.readBinFile path
    pure (.content ⟨bytes.data.toList, none⟩)
  catch error => pure (refusal error)

/-- Everything that comes from standard input. -/
def readInput : IO Bytes := do
  let bytes ← (← IO.getStdin).readBinToEnd
  pure bytes.data.toList

/-- By how much the time of a run advances with each reading: a microsecond. -/
def tick : Int64 := 1000

/-- The machine as a run's environment. Its guests are told the time at which the run began, a
little later each time. -/
def world : IO (Environment IO) := do
  pure {
    units := ← processingUnits
    configVariable? := ← IO.getEnv "INGEST_WASM_CONFIG"
    find := findFile
    input := readInput
    pace := Ticker.usualPace
    clock := do pure ⟨← systemTime, tick⟩ }

end EventSandbox.Cli
