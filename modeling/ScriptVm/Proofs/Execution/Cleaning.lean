import ScriptVm.Proofs.Execution.Runs

namespace ScriptVm

def Event.isRaised : Event → Bool
  | .raised _ _ => true
  | _ => false

namespace Machine

/-- The state of a context, its exception, and what the host was told of exceptions. -/
def alarms (m : Machine) : ContextState × Option ScriptException × Array Event :=
  (m.ctx.state, m.ctx.exception, m.engine.trace.filter Event.isRaised)

theorem alarms_changeHeap (m : Machine) (f : Heap → Heap) :
    (m.onEngine fun e => e.changeHeap f).alarms = m.alarms := by
  have hlife (trace : Array Event) (journal : List LifeEvent) :
      (journal.foldl (fun t event => t.push (.life event)) trace).filter Event.isRaised =
        trace.filter Event.isRaised := by
    induction journal generalizing trace with
    | nil => rfl
    | cons event journal ih =>
      rw [List.foldl_cons, ih]
      simp [Event.isRaised]
  unfold alarms onEngine Engine.changeHeap Engine.onHeap
  dsimp only
  split
  · rfl
  · rw [← Array.foldl_toList, hlife]

theorem alarms_robust (a : ContextState × Option ScriptException × Array Event) :
    Robust fun m => m.alarms = a where
  giveUp h object := (alarms_changeHeap _ _).trans h
  release h object := (alarms_changeHeap _ _).trans h
  setWords h p v := by
    unfold Machine.setWords
    split
    · exact h
    · exact h

/-- Cleaning up neither changes the state or the exception of a context nor tells the host of
one. -/
theorem alarms_cleanStack (m : Machine) : m.cleanStack.alarms = m.alarms := by
  refine view_cleanStack alarms (fun m => (alarms_robust m.alarms).cleanFrame rfl)
    (fun m frame calls => ?_) (fun _ => rfl) m
  unfold restore leaveModule
  cases m.ctx.module with
  | none => rfl
  | some id =>
    unfold alarms onContext onEngine Engine.changeModule
    dsimp only
    split <;> rfl

end Machine

end ScriptVm
