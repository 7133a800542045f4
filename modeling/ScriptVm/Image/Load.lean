import ScriptVm.Engine.Build
import ScriptVm.Image.Basic

namespace ScriptVm

abbrev Load := EStateM (Stop ImageError) Engine

namespace Image

/-- What the indices of an image stand for. -/
structure Names where
  types : Array TypeId
  hosts : Array FunctionId
  functions : Array FunctionId := #[]
  strings : Array UInt16 := #[]
  imports : Nat
  deriving Inhabited, Repr

def lookup {α : Type} (table : Array α) (index : UInt32) (what : String) : Except ImageError α :=
  match table[index.toNat]? with
  | some a => .ok a
  | none => .error (.badIndex what index)

/-- An instruction with ids instead of indices. A constructor is counted from 1, as 0 stands for
none. -/
def relocate (n : Names) (i : Instr) : Except ImageError Instr :=
  let function := fun (id : FunctionId) => lookup n.functions id.val "function"
  let type := fun (id : TypeId) => lookup n.types id.val "type"
  match i with
  | .call id => return .call (← function id)
  | .callMethod id => return .callMethod (← function id)
  | .callHost id => return .callHost (← lookup n.hosts id.val "system function")
  | .callBound id =>
    if id.val.toNat < n.imports then .ok (.callBound (.ofImport id.val.toNat))
    else .error (.badIndex "import" id.val)
  | .alloc t constructor => do
    let c ← if constructor.val = 0 then pure FunctionId.none else function ⟨constructor.val - 1⟩
    return .alloc (← type t) c
  | .free t => return .free (← type t)
  | .assignHandle t => return .assignHandle (← type t)
  | .pushType t => return .pushType (← type t)
  | .pushString index => return .pushString (← lookup n.strings index.toUInt32 "string")
  | i => .ok i

def parseType (types : Registry) (decl : String) : Except ImageError DataType :=
  match types.readType? decl with
  | some t => .ok t
  | none => .error (.unknownType decl)

def signature (types : Registry) (returns : String) (params : List String) :
    Except ImageError Signature := do
  let r ← parseType types returns
  return .ofTypes r (← params.mapM (parseType types))

def owner (types : Registry) (f : FuncImage) : Except ImageError (Option TypeId) :=
  match f.methodOf with
  | none => .ok none
  | some name =>
    match types.find? name with
    | some id => .ok (some id)
    | none => .error (.unknownType name)

/-- A function from its signature and owner on. -/
def assemble (types : Registry) (n : Names) (f : FuncImage) (signature : Signature)
    (owner : Option TypeId) : Except ImageError (Option Func) := do
  let vars ← f.vars.mapM fun v => do
    return ({ name := v.name, type := ← parseType types v.type, offset := v.offset } : VarInfo)
  let objectVars ← f.objectVars.mapM fun v => do
    return ({ offset := v.offset, type := ← lookup n.types v.type "type" } : ObjectVar)
  let code ← f.code.mapM (relocate n)
  let lines := LineTable.ofList (f.lines.map fun l => (l.pc.toNat, l.line, l.column.getD 0))
  return Func.settle?
    { name := f.name, signature, owner, vars, objectVars, lines, locals := f.locals,
      code := code.toArray } f.stack

def function (types : Registry) (n : Names) (f : FuncImage) : Except ImageError (Option Func) := do
  assemble types n f (← signature types f.returns f.params) (← owner types f)

end Image

namespace Load

def ofExcept {α : Type} : Except ImageError α → Load α
  | .ok a => pure a
  | .error e => throw (.cause e)

def orOverflow {α : Type} : Option α → Load α
  | some a => pure a
  | none => throw .overflow

def objectType (t : TypeImage) : Load TypeId := do
  match (← get).types.find? t.name with
  | some id => pure id
  | none =>
    let type : ObjectType := { name := t.name, fieldWords := t.fields, refCounted := t.refCounted }
    let type := if t.scriptObject then type.asScriptObject else type
    let type ← orOverflow (type.addHandleFields? t.handleFields)
    match (← get).registerType type with
    | (.ok id, e) =>
      set e
      pure id
    | (.error err, _) => throw (.cause (.module err))

def hostFunction (name : String) : Load FunctionId := do
  match (← get).hostNamed? name with
  | some id => pure id
  | none => throw (.cause (.unknownHostFunction name))

def declareAll (d : Draft) (fs : List FuncImage) : Load (Array FunctionId × Draft) :=
  fs.foldlM
    (fun (ids, d) f => modifyGet fun e =>
      let (id, e, d) := e.declare d f.name
      ((ids.push id, d), e))
    (#[], d)

def function (n : Image.Names) (f : FuncImage) : Load Func := do
  orOverflow (← ofExcept (Image.function (← get).types n f))

def addStrings (d : Draft) (texts : List String) : Array UInt16 × Draft :=
  texts.foldl (fun (ids, d) s => let (id, d) := Draft.addString d s; (ids.push id, d)) (#[], d)

def addGlobals (d : Draft) (gs : List GlobalImage) : Load Draft :=
  gs.foldlM
    (fun d g => do return (Draft.addGlobal d g.name
      (← ofExcept (Image.parseType (← get).types g.type))).2) d

def addImports (d : Draft) (gs : List ImportImage) : Load Draft :=
  gs.foldlM
    (fun d g => do
      let signature ← ofExcept (Image.signature (← get).types g.returns g.params)
      return (Draft.addImport d { name := g.name, source := some g.source, signature }).2) d

def defineAll (n : Image.Names) (d : Draft) (fs : List (FuncImage × FunctionId)) : Load Draft :=
  fs.foldlM (fun d (f, id) => do return Draft.define d id (← function n f)) d

def addInitializer (n : Image.Names) (d : Draft) : Option FuncImage → Load Draft
  | some f => do return d.setInitializer (← function n f)
  | none => pure d

def draft (i : Image) (types : List TypeId) (hosts : List FunctionId) : Load Draft := do
  let d ← modifyGet fun e => e.beginModule i.name
  let (strings, d) := addStrings d i.strings
  let d ← addGlobals d i.globals
  let (functions, d) ← declareAll d i.functions
  let d ← addImports d i.imports
  let n : Image.Names :=
    { types := types.toArray, hosts := hosts.toArray, functions, strings, imports := i.imports.length }
  let d ← defineAll n d (i.functions.zip functions.toList)
  addInitializer n d i.initializer

def build (d : Draft) : Load ModuleId := do
  match (← get).build d with
  | (.ok id, e) =>
    set e
    pure id
  | (.error err, e) =>
    set e
    throw (.cause (.module err))

/-- Builds the module that an image describes. Indices become ids of the engine. -/
def image (i : Image) : Load ModuleId := do
  let types ← i.types.mapM objectType
  let hosts ← i.hostFunctions.mapM hostFunction
  build (← draft i types hosts)

end Load
end ScriptVm
