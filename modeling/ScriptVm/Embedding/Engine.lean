import ScriptVm.Disk
import ScriptVm.Embedding.Basic
import ScriptVm.Engine.Collection
import ScriptVm.Execution.Globals
import ScriptVm.Image.Json
import ScriptVm.Image.Load

namespace ScriptVm.Embedding.Call

def closeEngine : Call Unit := modify fun s => { s with engine := none }

def openEngine (config : Config) : Call Unit :=
  modify fun s =>
    { s with engines := s.engines.push { config }, engine := some { slot := s.engines.size } }

def refuse {α : Type} (message : String) (result : α) : Call α := do
  setEngineError (some message)
  return result

def loadImage (fuel slot : Nat) (image : Except ImageError Image) : Call ResultCode := do
  let built ← match image with
    | .ok i => tryEngine slot (Load.image i)
    | .error e => pure (.error e)
  match built with
  | .error (.unreadable reason) => refuse (ImageError.unreadable reason).message .notFound
  | .error e => refuse e.message .load
  | .ok id =>
    match ← tryEngine slot (Engine.resetGlobals fuel id) with
    | .error e => refuse e.message .load
    | .ok () =>
      setEngineError none
      return .ok

def readImage (text : String) : Except ImageError Image :=
  match Image.read? text with
  | some i => .ok i
  | none => .error .malformed

def load (fuel : Nat) (bytes : Option (List UInt8)) : Call ResultCode := do
  match (← get).engine, bytes with
  | none, _ => return .invalidArg
  | some _, none => refuse "json pointer is NULL" .invalidArg
  | some h, some bytes =>
    match String.fromUTF8? ⟨bytes.toArray⟩ with
    | none => refuse "image is not valid UTF-8" .invalidArg
    | some text => loadImage fuel h.slot (readImage text)

def loadFile (fuel : Nat) (path : RawText) (read : String → Except FileError (List UInt8)) :
    Call ResultCode := do
  match (← get).engine, readText? path with
  | none, _ => return .invalidArg
  | some _, none => refuse "invalid path" .invalidArg
  | some h, some path =>
    let text := (textOf (read path)).mapError fun e => ImageError.unreadable e.message
    loadImage fuel h.slot (text.bind readImage)

def find (module name : RawText) : Call UInt32 := do
  match (← get).engine, readText? module, readText? name with
  | none, _, _ => return 0
  | some h, some module, some name =>
    match (← onEngine h.slot fun e => (e.moduleNamed? module, e)) with
    | none => refuse (ModuleError.noModule module).message 0
    | some m =>
      match m.funcNamed? name with
      | some f => return f.id.val
      | none => refuse (ModuleError.noFunction name).message 0
  | some _, _, _ => refuse "invalid name" 0

def bindImports (module : RawText) : Call ResultCode := do
  match (← get).engine, readText? module with
  | some h, some name =>
    match (← onEngine h.slot fun e => (e.moduleNamed? name, e)) with
    | none => refuse (ModuleError.noModule name).message .notFound
    | some m =>
      match (← onEngine h.slot fun e => e.bindAll m.id) with
      | .ok () => return .ok
      | .error e => refuse e.message .bind
  | _, _ => return .invalidArg

def discard (module : RawText) : Call ResultCode := do
  match (← get).engine, readText? module with
  | some h, some name =>
    match (← onEngine h.slot fun e => e.discard name) with
    | .ok () => return .ok
    | .error e => refuse e.message .notFound
  | _, _ => return .invalidArg

/-- The parameter types of a host function, or only their number. -/
inductive Params where
  | list (types : List RawText)
  | missing (count : Nat)
  deriving DecidableEq, Inhabited, Repr

def register (name returns : RawText) (params : Params) (body : HostBody) : Call UInt32 := do
  match (← get).engine with
  | none => return 0
  | some h =>
    let types ← onEngine h.slot fun e => (e.types, e)
    let type := fun (t : RawText) => (readText? t).bind types.readType?
    match readText? name, type returns, params with
    | none, _, _ => refuse "invalid name" 0
    | some _, none, _ => refuse "invalid return type" 0
    | some _, some _, .missing (_ + 1) => refuse "params pointer is NULL" 0
    | some name, some returns, params =>
      let params := match params with
        | .list ps => ps.mapM type
        | .missing _ => some []
      match params with
      | none => refuse "invalid parameter type" 0
      | some params =>
        let id ← onEngine h.slot fun e =>
            e.registerHost { name, signature := .ofTypes returns params } body
        setEngineError none
        return id.val

def endWith (code : ResultCode) : HostAction :=
  if code = .ok then .finish else .fail ("host function failed with " ++ code.name)

def raiseText (message : RawText) : HostAction :=
  .trySetException ((readText? message).getD "host exception")

end ScriptVm.Embedding.Call
