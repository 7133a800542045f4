import ScriptVm.Config.Basic
import ScriptVm.Heap.Release
import ScriptVm.Host.Action
import ScriptVm.Host.Event
import ScriptVm.Module.Check
import ScriptVm.Module.Draft

namespace ScriptVm

inductive ModuleError where
  | duplicateModule (name : String)
  | duplicateType (name : String)
  | noModule (name : String)
  | noImport (index : Nat)
  | noFunction (name : String)
  | undefinedFunction (name : String)
  | incompatibleSignature (declared target : String)
  | unresolvedImports (count : Nat)
  | buildInProgress
  | initFailed (message : String)
  | check (e : CheckError)
  deriving DecidableEq, Inhabited, Repr

def ModuleError.message : ModuleError → String
  | duplicateModule name => "a module named '" ++ name ++ "' already exists"
  | duplicateType name => "a type named '" ++ name ++ "' already exists"
  | noModule name => "no module named '" ++ name ++ "'"
  | noImport index => "no imported function at index " ++ toString index
  | noFunction name => "no function named '" ++ name ++ "'"
  | undefinedFunction name => "function '" ++ name ++ "' is declared but never defined"
  | incompatibleSignature declared target =>
    "signature of '" ++ target ++ "' does not match import '" ++ declared ++ "'"
  | unresolvedImports count => toString count ++ " imported function(s) could not be bound"
  | buildInProgress => "another build is in progress"
  | initFailed message => "initializer failed: " ++ message
  | check e => e.message

/-- Functions, types, host functions, modules and objects that all contexts share. -/
structure Engine where
  config : Config := {}
  types : Registry := {}
  /-- By function id; nothing has id 0. -/
  functions : Array (Option Func) := #[none]
  hosts : List (FunctionId × HostBody) := []
  /-- Every module that was begun, by id from 1 on; nothing where none was built. -/
  modules : Array (Option Module) := #[]
  /-- The modules in use, in the order in which they were built. -/
  live : List ModuleId := []
  /-- Discarded modules that still exist, in the order in which they were discarded. -/
  discarded : List ModuleId := []
  /-- A build has begun and not ended. -/
  building : Bool := false
  heap : Heap := {}
  /-- What the host has been told. -/
  trace : Array Event := #[]
  deriving Inhabited, Repr

namespace Engine

def tell (e : Engine) (event : Event) : Engine := { e with trace := e.trace.push event }

@[inline] def onHeap {α : Type} (e : Engine) (f : Heap → α × Heap) : α × Engine :=
  let (a, heap) := f e.heap
  if heap.journal.isEmpty then (a, { e with heap })
  else
    (a, { e with
      trace := heap.journal.foldl (fun t event => t.push (.life event)) e.trace
      heap := { heap with journal := #[] } })

@[inline] def changeHeap (e : Engine) (f : Heap → Heap) : Engine := (e.onHeap fun h => ((), f h)).2

def function? (e : Engine) (id : FunctionId) : Option Func := (e.functions[id.val.toNat]?).join

def host? (e : Engine) (id : FunctionId) : Option HostBody :=
  (e.hosts.find? fun h => h.1 == id).map Prod.snd

def hostNamed? (e : Engine) (name : String) : Option FunctionId :=
  (e.hosts.find? fun h => (e.function? h.1).any fun f => f.name == name).map Prod.fst

def built? (e : Engine) (id : ModuleId) : Option Module :=
  if id.val = 0 then none else (e.modules[id.val.toNat - 1]?).join

def module? (e : Engine) (id : ModuleId) : Option Module :=
  if e.live.contains id || e.discarded.contains id then e.built? id else none

def moduleNamed? (e : Engine) (name : String) : Option Module :=
  (e.live.filterMap e.built?).find? fun m => m.name == name

@[inline] def changeModule (e : Engine) (id : ModuleId) (f : Module → Module) : Engine :=
  if id.val = 0 then e
  else { e with modules := e.modules.modify (id.val.toNat - 1) fun m => m.map f }

def registerType (e : Engine) (type : ObjectType) : Except ModuleError TypeId × Engine :=
  match e.types.register? type with
  | some (id, types) => (.ok id, { e with types })
  | none => (.error (.duplicateType type.name), e)

def reserveFunction (e : Engine) : FunctionId × Engine :=
  (⟨e.functions.size.toUInt32⟩, { e with functions := e.functions.push none })

def registerHost (e : Engine) (f : Func) (body : HostBody) : FunctionId × Engine :=
  let id : FunctionId := ⟨e.functions.size.toUInt32⟩
  (id, { e with
    functions := e.functions.push (some { f with id, kind := .host, module := none })
    hosts := e.hosts ++ [(id, body)] })

def exitModule (e : Engine) (id : ModuleId) : Engine :=
  match e.built? id with
  | none => e
  | some m =>
    let handles := m.globalHandles
    (e.changeModule id Module.clearStore).changeHeap fun h => handles.foldl Heap.giveUp h

end Engine
end ScriptVm
