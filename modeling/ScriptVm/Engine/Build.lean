import ScriptVm.Engine.Basic

namespace ScriptVm.Engine

def beginModule (e : Engine) (name : String) : Draft × Engine :=
  ({ id := ⟨(e.modules.size + 1).toUInt32⟩, name }, { e with modules := e.modules.push none })

def declare (e : Engine) (d : Draft) (name : String) : FunctionId × Engine × Draft :=
  let (id, e) := e.reserveFunction
  (id, e, d.declare id name)

def addFunction (e : Engine) (d : Draft) (f : Func) : FunctionId × Engine × Draft :=
  let (id, e, d) := e.declare d f.name
  (id, e, d.define id f)

/-- What the functions of a new module may refer to. -/
def scope (e : Engine) (m : Module) : Scope :=
  { kind? := fun id =>
      match m.functions.find? fun f => f.id == id with
      | some f => some f.kind
      | none => (e.function? id).map Func.kind
    hasType := fun id => (e.types.get? id).isSome
    globals := m.globals.size
    strings := m.strings.size
    imports := m.imports.size }

def checkModule (e : Engine) (m : Module) : Except ModuleError Unit :=
  ((m.functions.toList ++ m.initializer.toList).forM (e.scope m).check).mapError .check

def install (e : Engine) (m : Module) : Engine :=
  { e with
    functions := m.functions.foldl (fun fs f => fs.setIfInBounds f.id.val.toNat (some f)) e.functions
    modules := e.modules.setIfInBounds (m.id.val.toNat - 1) (some m)
    live := e.live ++ [m.id] }

/-- Finishes a module: every declared function must be defined, the functions pass their checks if
the engine makes them, and the name must be free. -/
def finish (e : Engine) (d : Draft) : Except ModuleError ModuleId × Engine :=
  match d.functions with
  | .error name => (.error (.undefinedFunction name), e)
  | .ok functions =>
    let m := d.toModule functions
    match if e.config.verify then e.checkModule m else .ok () with
    | .error err => (.error err, e)
    | .ok () =>
      if (e.moduleNamed? m.name).isSome then (.error (.duplicateModule m.name), e)
      else (.ok m.id, e.install m)

def beginBuild (e : Engine) : Except ModuleError Engine :=
  if e.building then .error .buildInProgress else .ok { e with building := true }

/-- Builds a module. A build that fails leaves nothing but the ids it has used. -/
def build (e : Engine) (d : Draft) : Except ModuleError ModuleId × Engine :=
  match e.beginBuild with
  | .error err => (.error err, e)
  | .ok e =>
    let (result, e) := e.finish d
    (result, { e with building := false })

end ScriptVm.Engine
