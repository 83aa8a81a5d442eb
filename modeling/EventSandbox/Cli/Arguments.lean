/-!
# EventSandbox.Cli.Arguments — what the command line asks for

Arguments are read left to right. An option takes its value from the rest of its own argument or
from the next one, which must not look like an option; `--` ends the options. Whatever is wrong
first decides, and so does the first request for help or for the version, if nothing before it is
wrong.
-/

namespace EventSandbox.Cli

/-- What the command line says. -/
structure Arguments where
  config? : Option String
  maxCachedSessions? : Option UInt64
  workers? : Option UInt64
  jsonLogs : Bool
  module? : Option String
  events? : Option String
deriving DecidableEq, Repr

/-- A command line that says nothing. -/
def Arguments.empty : Arguments := ⟨none, none, none, false, none, none⟩

/-- An option with a value. -/
inductive Setting
  | config
  | maxCachedSessions
  | workers
deriving DecidableEq, Repr

/-- The long name of an option. -/
def Setting.name : Setting → String
  | .config => "config"
  | .maxCachedSessions => "max-cached-sessions"
  | .workers => "workers"

/-- All options with a value. -/
def Setting.all : List Setting := [.config, .maxCachedSessions, .workers]

/-- What is wrong with a command line. -/
inductive UsageFault
  | unknown (argument : String)
  | repeated (name : String)
  | missingValue (name : String)
  | needlessValue (name : String)
  | badValue (name : String) (value : String)
  | tooMany (argument : String)
deriving DecidableEq, Repr

/-- The wording of a usage fault. -/
def UsageFault.message : UsageFault → String
  | .unknown argument => "unexpected argument '" ++ argument ++ "' found"
  | .repeated name => "the argument '--" ++ name ++ "' cannot be used multiple times"
  | .missingValue name => "a value is required for '--" ++ name ++ "' but none was supplied"
  | .needlessValue name => "no value is accepted for '--" ++ name ++ "'"
  | .badValue name value => "invalid value '" ++ value ++ "' for '" ++ name ++ "'"
  | .tooMany argument => "unexpected argument '" ++ argument ++ "' found"

/-- Why the program does nothing but answer. -/
inductive Stop
  | version
  | help
  | refused (fault : UsageFault)
deriving DecidableEq, Repr

/-! ## Values -/

/-- A count: decimal digits, with or without a plus sign, that fit 64 bits. -/
def count? (text : String) : Option UInt64 :=
  let digits := match text.toList with
    | '+' :: digits => digits
    | digits => digits
  if digits ≠ [] ∧ digits.all Char.isDigit then
    let n := digits.foldl (fun n c => n * 10 + (c.toNat - 48)) 0
    if n < 0x10000000000000000 then some (UInt64.ofNat n) else none
  else none

namespace Arguments

/-- Sets something that may be set once. -/
def once {α : Type} (name : String) (old? : Option α) (value : String) (new? : Option α)
    (set : α → Arguments) : Except Stop Arguments :=
  match old?, new? with
  | some _, _ => .error (.refused (.repeated name))
  | none, none => .error (.refused (.badValue name value))
  | none, some new => .ok (set new)

/-- A path, which is not empty. -/
def path? (text : String) : Option String := if text.isEmpty then none else some text

/-- Takes in an option's value. -/
def set (a : Arguments) (s : Setting) (value : String) : Except Stop Arguments :=
  match s with
  | .config => once s.name a.config? value (path? value) fun v => { a with config? := some v }
  | .maxCachedSessions =>
    once s.name a.maxCachedSessions? value (count? value) fun v =>
      { a with maxCachedSessions? := some v }
  | .workers => once s.name a.workers? value (count? value) fun v => { a with workers? := some v }

/-- Takes in a positional argument: first the module, then the events. -/
def place (a : Arguments) (value : String) : Except Stop Arguments :=
  if a.module?.isNone then
    once "MODULE" a.module? value (path? value) fun v => { a with module? := some v }
  else if a.events?.isNone then
    once "EVENTS" a.events? value (path? value) fun v => { a with events? := some v }
  else .error (.refused (.tooMany value))

/-- Takes in the flag that asks for logs in JSON. -/
def askJson (a : Arguments) : Except Stop Arguments :=
  if a.jsonLogs then .error (.refused (.repeated "json-logs")) else .ok { a with jsonLogs := true }

/-! ## Options -/

/-- What has been read: the arguments, and the option that waits for its value. -/
abbrev Reading := Arguments × Option Setting

/-- Takes in an option by its long name, with the value written after an equals sign. -/
def long (a : Arguments) (name : String) (value? : Option String) : Except Stop Reading :=
  let flag (act : Except Stop Arguments) : Except Stop Reading :=
    match value? with
    | some _ => .error (.refused (.needlessValue name))
    | none => act.map (·, none)
  match Setting.all.find? fun s => s.name = name with
  | some s =>
    match value? with
    | some value => (a.set s value).map (·, none)
    | none => .ok (a, some s)
  | none =>
    if name = "json-logs" then flag a.askJson
    else if name = "help" then flag (.error .help)
    else if name = "version" then flag (.error .version)
    else .error (.refused (.unknown ("--" ++ name)))

/-- Takes in options by their letters. What follows the letter of an option is its value, after an
equals sign that may stand there. -/
def letters (a : Arguments) : List Char → Except Stop Reading
  | [] => .ok (a, none)
  | c :: rest =>
    if c = 'V' then .error .version
    else if c = 'h' then .error .help
    else
      let setting? : Option Setting :=
        if c = 'c' then some .config else if c = 'w' then some .workers else none
      match setting? with
      | none => .error (.refused (.unknown (String.ofList ['-', c])))
      | some s =>
        match rest with
        | [] => .ok (a, some s)
        | '=' :: value => (a.set s (String.ofList value)).map (·, none)
        | value => (a.set s (String.ofList value)).map (·, none)

/-- Takes in an argument that starts with two dashes, without these. -/
def dashed (a : Arguments) (text : List Char) : Except Stop Reading :=
  let name := String.ofList (text.takeWhile (· ≠ '='))
  match text.dropWhile (· ≠ '=') with
  | _ :: value => a.long name (some (String.ofList value))
  | [] => a.long name none

/-- Reads the arguments that are left. -/
def read : Reading → List String → Except Stop Arguments
  | (a, none), [] => .ok a
  | (_, some s), [] => .error (.refused (.missingValue s.name))
  | (a, waiting?), arg :: rest =>
    match arg.toList, waiting? with
    | ['-', '-'], none => rest.foldlM place a
    | '-' :: '-' :: text, none => do read (← a.dashed text) rest
    | '-' :: c :: text, none => do read (← a.letters (c :: text)) rest
    | '-' :: _ :: _, some s => .error (.refused (.missingValue s.name))
    | _, some s => do read (← a.set s arg, none) rest
    | _, none => do read (← a.place arg, none) rest

/-- What a command line asks for. The environment may name the configuration file if the command
line does not. -/
def parse (args : List String) (configVariable? : Option String) : Except Stop Arguments := do
  let a ← read (empty, none) args
  match a.config?, configVariable? with
  | none, some path => a.set .config path
  | _, _ => pure a

end Arguments

end EventSandbox.Cli
