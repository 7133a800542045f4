import ScriptVm.Engine.Binding

namespace ScriptVm.Engine

/-- How many imports of some modules are bound to functions of another one. -/
def refsFrom (e : Engine) (set : List ModuleId) (target : ModuleId) : Nat :=
  total
    (fun id =>
      ((e.built? id).map fun m =>
        m.imports.countP fun slot =>
          (slot.bound.bind e.function?).any fun f => f.module == some target).getD 0)
    set

def isClosedIn (e : Engine) (set : List ModuleId) (id : ModuleId) : Bool :=
  (e.built? id).any fun m => m.moduleRefs.toNat ≤ e.refsFrom set id

/-- The largest part whose modules are referred to only from within it. -/
def closedPart (e : Engine) (set : List ModuleId) : List ModuleId :=
  let rest := set.filter (e.isClosedIn set)
  if rest.length < set.length then e.closedPart rest else set
termination_by set.length
decreasing_by
  rename_i h
  simpa [rest] using h

/-- The discarded modules that no context holds and that are referred to only by one another. -/
def doomed (e : Engine) : List ModuleId :=
  e.closedPart (e.discarded.filter fun id => (e.built? id).any fun m => m.contextRefs == 0)

def destroyModule (e : Engine) (id : ModuleId) : Engine :=
  let e := e.exitModule id
  match e.built? id with
  | none => e
  | some m =>
    { e with
      functions := m.functions.foldl (fun fs f => fs.setIfInBounds f.id.val.toNat none) e.functions }

/-- Destroys the discarded modules that nothing uses any more. -/
def collect (e : Engine) : Nat × Engine :=
  let doomed := e.doomed
  let e := doomed.foldl unbindAll e
  let e := doomed.foldl destroyModule e
  (doomed.length, { e with discarded := e.discarded.filter fun id => !doomed.contains id })

/-- Takes a module out of use; it is destroyed once nothing uses it. -/
def discard (e : Engine) (name : String) : Except ModuleError Unit × Engine :=
  match e.moduleNamed? name with
  | none => (.error (.noModule name), e)
  | some m =>
    let e := { e with live := e.live.erase m.id, discarded := e.discarded ++ [m.id] }
    (.ok (), (e.changeModule m.id fun m => { m with discarded := true }).collect.2)

end ScriptVm.Engine
