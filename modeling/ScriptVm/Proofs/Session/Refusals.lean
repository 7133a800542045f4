import ScriptVm.Proofs.Execution.Causes
import ScriptVm.Proofs.Session.Workspace

namespace ScriptVm

namespace Request

open Exec

/-- Requests that complete an abortion that was asked for while the context was suspended. -/
def settlesAbort : Request → Bool
  | .prepare _ | .prepareFunction _ | .unprepare => true
  | _ => false

theorem guarded_perform {r : Request} (h : r.settlesAbort = false) : Guarded r.perform := by
  cases r with
  | prepare | prepareFunction | unprepare => cases h
  | execute fuel => exact guarded_then (Exec.execute fuel) _
  | startRun fuel => exact guarded_startRun _
  | setArgObject index object => exact guarded_setArgObject index object
  | setThis object => exact guarded_setThis object
  | setException message => exact guarded_bind _ _
  | takeResultObject | setLineCallback | setExceptionCallback | requestSuspend | requestAbort =>
    exact @guarded_of_sure _ _ _ (sure_modifyCtx _)
  | abort =>
    have : Sure (Exec.requestAbort : Exec RequestError Unit) := sure_modifyCtx _
    exact @guarded_of_sure _ _ _ (obeys_bind _ _)
  | endRun | step => exact @guarded_of_sure _ _ _ (obeys_bind _ _)
  | setArgByte | setArgHalf | setArgWord | setArgQword => exact guarded_bind (primitiveSlot _ _ _) _
  | setArgFloat | setArgDouble | setArgAddress => exact guarded_bind (argSlot _) _

theorem after_refused {r : Request} {m : Machine} {err : RequestError}
    (h : cause? (r.perform m) = some err) :
    r.perform.after m = if r.settlesAbort then m.applyAbort else m := by
  cases hsettles : r.settlesAbort with
  | false => exact (guarded_perform hsettles).unchanged m err h
  | true =>
    cases r with
    | prepare id => exact after_prepare h
    | prepareFunction f => exact after_prepareFunction h
    | unprepare => exact after_unprepare h
    | _ => cases hsettles

/-- What a request that is over has left: it was done, or it was refused and has at most completed
an abortion. -/
theorem after_settled {P : Machine → Prop} {r : Request} {m : Machine} (hstl : Settled (r.perform m))
    (hdone : ∀ m', r.perform m = .ok () m' → P m') (habort : P m.applyAbort) (hm : P m) :
    P (r.perform.after m) := by
  cases hrun : r.perform m with
  | ok _ m' =>
    rw [after_of_ok hrun]
    exact hdone m' hrun
  | error stop m' =>
    rw [hrun] at hstl
    cases stop with
    | cause err =>
      have hcause : cause? (r.perform m) = some err := by rw [hrun, cause?]
      rw [after_refused hcause]
      split
      · exact habort
      · exact hm
    | overflow | outOfFuel => cases hstl

/-- A refused request leaves the context, the heap and the modules as they were. Those that prepare
or unprepare complete an abortion that a suspended context was asked for, before they are
refused. -/
theorem refused_unchanged {r : Request} {m m' : Machine} {err : RequestError}
    (h : r.perform m = .error (.cause err) m') :
    m' = if r.settlesAbort = true ∧ m.ctx.state = .suspended ∧ m.ctx.abortRequested = true then
      (m.onContext fun c => { c with abortRequested := false }).abortNow else m := by
  have hcause : cause? (r.perform m) = some err := by rw [h, cause?]
  rw [← after_of_error h, after_refused hcause, Machine.applyAbort]
  cases r.settlesAbort with
  | false => simp
  | true => simp

/-- A context that waits inside a call and was asked to abort. -/
def interrupted : Machine :=
  { engine := Workspace.waiting.engine, ctx := (Workspace.waiting.ask 1 .requestAbort).context 1 }

/-- An argument is refused and the context stays suspended; an unknown function is refused and the
context is aborted. -/
theorem refused_unchanged_interrupted :
    interrupted.ctx.state = .suspended ∧ interrupted.ctx.calls.frames ≠ [] ∧
      (setArgWord 0 7).perform interrupted = .error (.cause .notPrepared) interrupted ∧
      ∃ m, (prepare ⟨99⟩).perform interrupted = .error (.cause (.noFunction ⟨99⟩)) m ∧
        m = (interrupted.onContext fun c => { c with abortRequested := false }).abortNow ∧
          m.ctx.state = .aborted := by
  have hargument : (setArgWord 0 7).perform interrupted =
      .error (.cause .notPrepared) ((setArgWord 0 7).perform.after interrupted) :=
        error_of_cause (by decide +kernel)
  have hprepare : (prepare ⟨99⟩).perform interrupted =
      .error (.cause (.noFunction ⟨99⟩)) ((prepare ⟨99⟩).perform.after interrupted) :=
        error_of_cause (by decide +kernel)
  have hleft := refused_unchanged hprepare
  rw [if_pos (by decide +kernel)] at hleft
  refine ⟨by decide +kernel, by decide +kernel, ?_, _, hprepare, hleft, ?_⟩
  · have hsame := refused_unchanged hargument
    rw [if_neg (by decide +kernel)] at hsame
    rw [hargument, hsame]
  · rw [hleft]
    decide +kernel

end Request

end ScriptVm
