import EventSandbox.Guest.Program

/-!
# EventSandbox.Guest.Linker — which host functions a guest may import

Host functions are registered by groups, under one module name. A function that is already there
stops the registration of its group; those before it stay.

A guest's imports are resolved by name first and compared by type after that. So a name that
nobody defines counts before any type that does not fit, wherever the two stand.
-/

namespace EventSandbox

/-- The module name of all host functions. -/
def hostModule : String := "elastic"

/-- The host functions that are registered. -/
structure Linker where
  defined : List HostFunction
deriving DecidableEq, Repr

namespace Linker

/-- Nothing is registered yet. -/
def empty : Linker := ⟨[]⟩

/-- The groups of host functions. -/
inductive Group
  | fields
  | logging
  | clock
deriving DecidableEq, Repr

/-- The functions of a group, in the order of their registration. -/
def Group.functions : Group → List HostFunction
  | fields => [.getField, .putField]
  | logging => [.log]
  | clock => [.currentTime]

/-- All groups, in the order of their registration. -/
def allGroups : List Group := [.fields, .logging, .clock]

/-- The error of registering a function twice. -/
def duplicate (f : HostFunction) : ProcessorError :=
  .invalidConfig ("Failed to register " ++ f.name ++ " function: import of `" ++ hostModule ++ "::"
    ++ f.name ++ "` defined twice")

/-- Registers functions in order, up to the first that is already there. -/
def register : List HostFunction → Linker → Except ProcessorError Unit × Linker
  | [], l => (.ok (), l)
  | f :: rest, l =>
    if f ∈ l.defined then (.error (duplicate f), l)
    else register rest ⟨l.defined ++ [f]⟩

/-- Registers a group. -/
def registerGroup (g : Group) (l : Linker) : Except ProcessorError Unit × Linker :=
  register g.functions l

/-- Registers all groups. -/
def registerAll (l : Linker) : Except ProcessorError Unit × Linker :=
  register (allGroups.flatMap Group.functions) l

/-- Everything that the host offers. -/
def full : Linker := (registerAll empty).2

/-! ## Imports -/

/-- Why an import cannot be satisfied. -/
inductive ImportFault
  | unknown (wanted : Import)
  | incompatible (wanted : Import) (found : FuncType)
deriving DecidableEq, Repr

/-- The wording of an import fault. -/
def ImportFault.message : ImportFault → String
  | unknown wanted =>
    "unknown import: `" ++ wanted.module ++ "::" ++ wanted.name ++ "` has not been defined"
  | incompatible wanted found =>
    "incompatible import type for `" ++ wanted.module ++ "::" ++ wanted.name
      ++ "`: types incompatible: expected type `" ++ wanted.type.render ++ "`, found type `"
      ++ found.render ++ "`"

/-- Finds the host function that an import names, whatever its type. -/
def find (l : Linker) (wanted : Import) : Except ImportFault HostFunction :=
  match l.defined.find? fun f => wanted.module = hostModule ∧ wanted.name = f.name with
  | some f => .ok f
  | none => .error (.unknown wanted)

/-- Refuses a host function whose type is not the one that the import wants. -/
def accept (wanted : Import) (found : HostFunction) : Except ImportFault HostFunction :=
  if wanted.type = found.type then .ok found else .error (.incompatible wanted found.type)

/-- Resolves imports in two rounds, each in order: all are found before the type of any is looked
at. -/
def resolveAll (l : Linker) (imports : List Import) : Except ImportFault (List HostFunction) := do
  let found ← imports.mapM l.find
  (imports.zip found).mapM fun (wanted, f) => accept wanted f

end Linker

end EventSandbox
