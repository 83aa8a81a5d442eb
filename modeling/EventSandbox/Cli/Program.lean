import EventSandbox.Cli.Arguments
import EventSandbox.Cli.Workers
import EventSandbox.Config.Toml
import EventSandbox.Wasm.Module

/-!
# EventSandbox.Cli.Program — a run from the command line to the last line of output

A run has eight stages, each of which may end it:

1. the arguments are read;
2. the configuration file is read, if there is one;
3. the guest module is found and, if it is in text form, read;
4. the configuration is held against its rules, and the engine starts;
5. the module is read, compiled and brought to life;
6. all events are read;
7. they are processed;
8. the results are written.

The log exists from stage 3 on. The files, the input and the clock belong to an `Environment`,
which answers in a monad of its own.
-/

namespace EventSandbox.Cli

/-! ## Files -/

/-- What a file holds: its bytes, and the guest program that they are known to stand for. -/
structure Content where
  bytes : Bytes
  guest? : Option Guest

/-- What is found under a path. -/
inductive Found
  /-- Nothing that can be opened. -/
  | absent (reason : String)
  /-- Something that can be opened and not read. -/
  | unreadable (reason : String)
  | content (content : Content)

/-- What comes of reading a file at once. -/
def Found.all : Found → Except String Bytes
  | absent reason => .error reason
  | unreadable reason => .error reason
  | content c => .ok c.bytes

/-- A file as the source of a module. -/
def Content.source (c : Content) : Wasm.Source :=
  match c.guest? with
  | none => .bytes c.bytes
  | some guest => if c.bytes.take 4 = Wasm.magic then .binary guest else .text guest

/-- The world that a run meets. -/
structure Environment (m : Type → Type) where
  /-- The number of processing units. -/
  units : UInt64
  /-- The configuration file that the environment names. -/
  configVariable? : Option String
  find : String → m Found
  input : m Bytes
  /-- How much work a guest does in a millisecond on this machine. -/
  pace : Nat
  clock : m Clock

/-- Whether a path names a module in text form: its last part ends in `.wat` in any case, with
something before it. -/
def isTextPath (path : String) : Bool :=
  match ((path.splitOn "/").filter fun part => part ≠ "" ∧ part ≠ ".").getLast? with
  | none => false
  | some name =>
    match name.toList.reverse with
    | t :: a :: w :: '.' :: _ :: _ => String.ofList [w, a, t] |>.toLower |> (· = "wat")
    | _ => false

/-! ## Outcomes -/

/-- The end of a run. -/
structure Ending where
  exitCode : UInt8
  output : Bytes
  /-- Whether the log is written as JSON. -/
  jsonLogs : Bool
  /-- What the log's filter kept. -/
  log : List Report
  /-- Why the run ended early: the messages of the error and its causes, outermost first. -/
  fatal : List String
  /-- What is wrong with the command line. -/
  complaint? : Option UsageFault

/-- A run under way: it may fail with the messages of an error. -/
structure Progress where
  filter : String
  jsonLogs : Bool
  reports : List Report

namespace Progress

/-- The progress with more reports. -/
def tell (p : Progress) (reports : List Report) : Progress :=
  { p with reports := p.reports ++ reports }

/-- The end of a run by an error. -/
def fail (p : Progress) (fatal : List String) : Ending :=
  ⟨1, [], p.jsonLogs, kept p.filter p.reports, fatal, none⟩

/-- The end of a run that got through. -/
def finish (p : Progress) (records : List Record) : Ending :=
  ⟨if failures records = 0 then 0 else 1, output records, p.jsonLogs, kept p.filter p.reports, [],
    none⟩

end Progress

/-- The messages of a processor error: its own, and the cause behind a failed reading. -/
def messagesOf (error : ProcessorError) : List String :=
  match error with
  | .io reason => [error.message, reason]
  | _ => [error.message]

/-- The messages of an error of a configuration file. -/
def configMessages (error : ConfigFileError) : List String :=
  match error with
  | .io _ reason => [error.message, reason]
  | .parse => [error.message]

/-! ## Stages -/

/-- A loaded processor with its pool and what the clock says after that. -/
structure Loaded where
  processor : Processor
  pool : Pool Session
  clock : Clock

/-- The result of an error in a stage, or of the stage. -/
abbrev Stage (α : Type) := Except Ending (α × Progress)

/-- Stages 4 and 5: builds a processor. The result is missing if the start function never comes
back. -/
def load (path : String) (config : ProcessorConfig) (pace : Nat) (clock : Clock)
    (module : Except ProcessorError CompiledModule) (p : Progress) : Option (Stage Loaded) :=
  let fail (p : Progress) (error : ProcessorError) : Stage Loaded :=
    .error (p.fail (("Failed to load module " ++ path) :: messagesOf error))
  match config.validate with
  | .error error => some (fail p error)
  | .ok () =>
    let p := p.tell [.engineReady]
    match module with
    | .error error => some (fail p error)
    | .ok module => do
      let p := p.tell [.moduleCompiled]
      let (built, journal) ← (Processor.ofModule module config pace).follow Clock.host ⟨clock, []⟩
      let p := p.tell (journal.records.reverse.map .guest)
      match built with
      | .error error => pure (fail p error)
      | .ok (processor, pool) =>
        pure (.ok (⟨processor, pool, journal.clock⟩,
          p.tell [.processorReady, .moduleLoaded path]))

/-- Stage 6: reads the events of a stream. -/
def readEvents (stream : Except String Bytes) (p : Progress) : Stage (List Record) :=
  let fail (line : Nat) (reason : String) (p : Progress) : Stage (List Record) :=
    .error (p.fail ["Failed to read line " ++ toString line, reason])
  match stream with
  | .error reason => fail 1 reason p
  | .ok bytes =>
    let read := readRecords 1 (splitLines bytes)
    let p := p.tell <| read.records.filterMap fun r =>
      if r.event?.isNone then some (.invalidEvent r.line) else none
    match read.spoiled? with
    | some line => fail line notUtf8 p
    | none => .ok (read.records, p)

/-- Stages 7 and 8: processes the records and writes them. -/
def runEvents (l : Loaded) (workers : Nat) (records : List Record) (p : Progress) :
    Option Ending := do
  let workers := max workers 1
  let (shares, reports, _) ←
    processShares l.processor.factory (share workers records) ⟨l.pool, l.clock, []⟩
  let records := shares.flatten
  let p := p.tell (reports ++ [.complete records.length (failures records) workers])
  pure (p.finish records)

variable {m : Type → Type} [Monad m]

/-- Stage 2: the configuration of a run. -/
def loadConfig (env : Environment m) (a : Arguments) : m (Except Ending ConfigFile) := do
  match a.config? with
  | none => pure (.ok (ConfigFile.default env.units))
  | some path =>
    match ConfigFile.ofFile env.units path (← env.find path).all with
    | .ok config => pure (.ok config)
    | .error error =>
      let messages := ("Failed to load config from " ++ path) :: configMessages error
      pure (.error (Progress.fail ⟨"off", a.jsonLogs, []⟩ messages))

/-- Stage 3: the module of a run, compiled if it is ever asked for. -/
def loadModule (env : Environment m) (path : String) (p : Progress) :
    m (Except Ending (Except ProcessorError CompiledModule)) := do
  let found ← env.find path
  if isTextPath path then
    let fail (reason : String) : Except Ending (Except ProcessorError CompiledModule) :=
      .error (p.fail ["Failed to read module " ++ path, reason])
    match found with
    | .absent reason => pure (fail reason)
    | .unreadable reason => pure (fail reason)
    | .content c =>
      if (Utf8.decode? c.bytes).isSome then pure (.ok (Wasm.compileText c.source))
      else pure (fail notUtf8)
  else
    match found with
    | .absent reason => pure (.error (p.fail ["Failed to open module " ++ path, reason]))
    | .unreadable reason => pure (.ok (.error (.io reason)))
    | .content c => pure (.ok (Wasm.compileBinary c.source))

/-- The stream of events: a file, or the input if there is none or it is called `-`. -/
def openEvents (env : Environment m) (path? : Option String) (p : Progress) :
    m (Except Ending (Except String Bytes)) := do
  match path? with
  | none => pure (.ok (.ok (← env.input)))
  | some path =>
    if path = "-" then pure (.ok (.ok (← env.input)))
    else
      match ← env.find path with
      | .absent reason => pure (.error (p.fail ["Failed to open events " ++ path, reason]))
      | found => pure (.ok found.all)

/-- The error of a run that is given no module. -/
def noModule : String :=
  "No guest module given. Pass MODULE or set [module].path in the config file"

/-- Stages 2 to 8; `none` if a guest never comes back. -/
def runWith (env : Environment m) (a : Arguments) : m (Option Ending) := do
  match ← loadConfig env a with
  | .error ending => pure (some ending)
  | .ok file =>
    let p : Progress := ⟨file.log.filter, a.jsonLogs || file.log.json, []⟩
    let config :=
      { file.processor with
        maxCachedSessions := a.maxCachedSessions?.getD file.processor.maxCachedSessions }
    match a.module? <|> file.module?.map (·.path) with
    | none => pure (some (p.fail [noModule]))
    | some path =>
      match ← loadModule env path p with
      | .error ending => pure (some ending)
      | .ok module =>
        match load path config env.pace (← env.clock) module p with
        | none => pure none
        | some (.error ending) => pure (some ending)
        | some (.ok (loaded, p)) =>
          match ← openEvents env a.events? p with
          | .error ending => pure (some ending)
          | .ok stream =>
            match readEvents stream p with
            | .error ending => pure (some ending)
            | .ok (records, p) =>
              pure (runEvents loaded (a.workers?.getD env.units).toNat records p)

/-- The name and version of the program. -/
def versionText : String := "ingest-wasm 0.1.0\n"

/-- How the program is called. -/
def usageText : String :=
  "Usage: ingest-wasm [OPTIONS] [MODULE] [EVENTS]\n\n"
    ++ "Options:\n"
    ++ "  -c, --config <CONFIG>                  configuration file [env: INGEST_WASM_CONFIG]\n"
    ++ "      --max-cached-sessions <SESSIONS>   idle sessions that are kept\n"
    ++ "  -w, --workers <WORKERS>                workers that share the events\n"
    ++ "      --json-logs                        logs as JSON\n"
    ++ "  -h, --help                             this text\n"
    ++ "  -V, --version                          name and version\n"

/-- The end of a run that did nothing but answer. -/
def Stop.ending : Stop → Ending
  | .version => ⟨0, utf8 versionText, false, [], [], none⟩
  | .help => ⟨0, utf8 usageText, false, [], [], none⟩
  | .refused fault => ⟨2, [], false, [], [], some fault⟩

/-- A whole run; `none` if a guest never comes back. -/
def run (env : Environment m) (args : List String) : m (Option Ending) :=
  match Arguments.parse args env.configVariable? with
  | .ok a => runWith env a
  | .error stop => pure (some stop.ending)

end EventSandbox.Cli
