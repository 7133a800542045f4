import ScriptVm.Engine.Basic

namespace ScriptVm.Engine

def setBinding (e : Engine) (id : ModuleId) (index : Nat) (bound : Option FunctionId) : Engine :=
  e.changeModule id fun m =>
    { m with imports := m.imports.modify index fun slot => { slot with bound } }

def dropBinding (e : Engine) (target : FunctionId) : Engine :=
  match ((e.function? target).bind Func.module).filter fun id => (e.module? id).isSome with
  | some id => e.changeModule id Module.dropModuleRef
  | none => e

def holdBinding (e : Engine) (f : Func) : Engine :=
  match f.module.filter fun id => (e.module? id).isSome with
  | some id => e.changeModule id Module.addModuleRef
  | none => e

/-- Binds an import to a script function of the same signature. -/
def bind (e : Engine) (id : ModuleId) (index : Nat) (target : FunctionId) :
    Except ModuleError Unit × Engine :=
  match (e.built? id).bind fun m => m.imports[index]? with
  | none => (.error (.noImport index), e)
  | some slot =>
    match e.function? target with
    | none => (.error (.noFunction ("0x" ++ hexDigits target.val.toNat)), e)
    | some f =>
      if f.signature ≠ slot.declaration.signature ∨ f.owner.isSome ∨ f.kind ≠ .script then
        (.error (.incompatibleSignature slot.declaration.declaration f.declaration), e)
      else
        let e := (e.holdBinding f).setBinding id index (some target)
        match slot.bound with
        | some old => (.ok (), e.dropBinding old)
        | none => (.ok (), e)

def unbind (e : Engine) (id : ModuleId) (index : Nat) : Except ModuleError Unit × Engine :=
  match (e.built? id).bind fun m => m.imports[index]? with
  | none => (.error (.noImport index), e)
  | some slot =>
    let e := e.setBinding id index none
    match slot.bound with
    | some old => (.ok (), e.dropBinding old)
    | none => (.ok (), e)

/-- The function that a declaration asks for by module, name and signature. -/
def importTarget? (e : Engine) (declaration : Func) : Option FunctionId := do
  let m ← e.moduleNamed? (← declaration.source)
  let f ← m.functions.find? fun f =>
    f.name == declaration.name && f.owner.isNone && f.signature == declaration.signature
  pure f.id

def bindFrom (e : Engine) (id : ModuleId) (index : Nat) :
    List Func → Nat → Except ModuleError Nat × Engine
  | [], failed => (.ok failed, e)
  | declaration :: rest, failed =>
    match e.importTarget? declaration with
    | none => e.bindFrom id (index + 1) rest (failed + 1)
    | some target =>
      match e.bind id index target with
      | (.error err, e) => (.error err, e)
      | (.ok (), e) => e.bindFrom id (index + 1) rest failed

/-- Binds the imports of a module; the error counts those without a target. -/
def bindAll (e : Engine) (id : ModuleId) : Except ModuleError Unit × Engine :=
  let declarations :=
    ((e.built? id).map fun m => m.imports.toList.map ImportSlot.declaration).getD []
  match e.bindFrom id 0 declarations 0 with
  | (.error err, e) => (.error err, e)
  | (.ok 0, e) => (.ok (), e)
  | (.ok failed, e) => (.error (.unresolvedImports failed), e)

def unbindAll (e : Engine) (id : ModuleId) : Engine :=
  let count := ((e.built? id).map fun m => m.imports.size).getD 0
  (List.range count).foldl (fun e index => (e.unbind id index).2) e

end ScriptVm.Engine
