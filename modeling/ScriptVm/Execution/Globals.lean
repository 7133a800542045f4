import ScriptVm.Execution.Run

namespace ScriptVm.Engine

/-- Sets the globals of a module to their first values. -/
def resetGlobals (fuel : Nat) (id : ModuleId) : EStateM (Stop ModuleError) Engine Unit := fun e =>
  let e := e.exitModule id
  match (e.built? id).bind Module.initializer with
  | none => .ok () e
  | some init =>
    let run : Exec RequestError (Outcome × Option ScriptException) := do
      Exec.prepareFunction init
      let outcome ← Exec.execute fuel
      return (outcome, (← Exec.ctx).exception)
    let start : Exec ModuleError _ := Exec.inNewContext (fun _ => []) run
    match start { engine := e, ctx := {} } with
    | .ok (.ok (.finished, _)) m => .ok () m.engine
    | .ok (.ok (_, exception)) m =>
      let message := (exception.map ScriptException.message).getD "initializer did not finish"
      .error (.cause (.initFailed message)) m.engine
    | .ok (.error err) m => .error (.cause (.initFailed err.message)) m.engine
    | .error stop m => .error stop m.engine

end ScriptVm.Engine
