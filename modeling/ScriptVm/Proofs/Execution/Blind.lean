import ScriptVm.Proofs.Execution.Yields

namespace ScriptVm

namespace Machine

def enteredBy (m : Machine) (entry : Option Func) : Machine := m.onContext fun c => { c with entry }

theorem enteredBy_raise (m : Machine) (entry : Option Func) (fault : Fault) :
    (m.enteredBy entry).raise fault = (m.raise fault).enteredBy entry := by
  unfold raise enteredBy
  dsimp only [onContext]
  split <;> rfl

end Machine

namespace Exec

variable {ε α β : Type}

/-- The step does not see which function was prepared, and does not change it. -/
abbrev Blind (x : Exec ε α) : Prop := Misses (fun entry m => Machine.enteredBy m entry) x

theorem Blind.entry_of_ok {x : Exec ε α} [hx : Blind x] {m m' : Machine} {a : α}
    (h : x m = .ok a m') : m'.ctx.entry = m.ctx.entry := by
  have hself := hx.misses m m.ctx.entry
  rw [show m.enteredBy m.ctx.entry = m from rfl, h] at hself
  have hm' : m' = m'.enteredBy m.ctx.entry := (EStateM.Result.ok.inj hself).2
  rw [hm']
  rfl

instance (priority := low) blind_of_deaf (x : Exec ε α) [hx : Deaf x] : Blind x where
  misses m entry := by
    -- A machine that is entered otherwise is in its own guise but for that.
    have hguise (m' : Machine) :
        m'.guised ⟨m.guise.toRequests, entry⟩ = (m'.guised m.guise).enteredBy entry := rfl
    have hself := hx.misses m m.guise
    have hother := hx.misses m ⟨m.guise.toRequests, entry⟩
    rw [Machine.guised_guise] at hself
    simp only [hguise, Machine.guised_guise] at hother
    rw [hother]
    cases h : x m with
    | ok a m' =>
      rw [h] at hself
      have hm' : m' = m'.guised m.guise := (EStateM.Result.ok.inj hself).2
      exact congrArg (fun m => EStateM.Result.ok a (m.enteredBy entry)) hm'.symm
    | error stop m' =>
      rw [h] at hself
      have hm' : m' = m'.guised m.guise := (EStateM.Result.error.inj hself).2
      exact congrArg (fun m => EStateM.Result.error stop (m.enteredBy entry)) hm'.symm

instance blind_raising (ended : α) (x : Exec Fault α) [hx : Blind x] : Blind (raising ended x) where
  misses m entry := by
    rw [raising, raising, hx.misses]
    cases x m with
    | ok a m' => rfl
    | error stop m' =>
      cases stop with
      | cause fault => exact congrArg (EStateM.Result.ok ended) (m'.enteredBy_raise entry fault)
      | overflow => rfl
      | outOfFuel => rfl

instance blind_inNewContext (report : Except RequestError α → List Event) (x : Exec RequestError α) :
    Blind (inNewContext report x : Exec ε _) where
  misses m entry := by
    have heng : (m.enteredBy entry).engine = m.engine := rfl
    unfold inNewContext
    rw [heng]
    cases x m.engine.newMachine with
    | ok a i => rfl
    | error stop i => cases stop <;> rfl

instance blind_runNested (execute : Exec RequestError Outcome) (id : FunctionId)
    (args : List UInt32) : Blind (runNested execute id args) := by
  refine .bind fun r => ?_
  cases r <;> infer_instance

section Nesting

variable (nested : Nested) [hnst : ∀ id args, Blind (nested id args)]

instance blind_act (c : HostCall) (a : HostAction) : Blind (act nested c a) := by
  by_cases hsusp : a = .suspend
  · subst hsusp
    have : Blind (modifyCtx fun c => { c with suspendRequested := true } : Exec Fault Unit) :=
      misses_modifyCtx fun _ _ => rfl
    exact misses_bind _ _
  by_cases hrun : ∃ id args gives, a = .run id args gives
  · obtain ⟨id, args, gives, rfl⟩ := hrun
    exact misses_bind _ _
  · have := steady_act nested c hsusp fun id args gives h => hrun ⟨id, args, gives, h⟩
    exact blind_of_deaf _

instance blind_actAll (c : HostCall) (body : HostBody) : Blind (actAll nested c body) := by
  induction body with
  | done error => exact misses_pure error
  | act a next ih =>
    refine .bind fun r => ?_
    cases r with
    | go => exact ih
    | done error => exact blind_of_deaf _
  | ask q next ih =>
    refine misses_get (f := fun m => actAll nested c (next (c.answer m q)))
      (fun m entry => ?_) fun m => ih _
    have hsame : c.answer (m.enteredBy entry) q = c.answer m q :=
      answer_guised c m { m.guise with entry } q
    rw [hsame]

instance blind_callHost (f : Func) (this : Option Handle) : Blind (callHost nested f this) := by
  have hcarry (call : HostCall) (body : HostBody) : Blind (carryOut nested call body) :=
    misses_bind _ _
  exact misses_engine (fun _ _ => rfl) fun e => misses_bind _ _

instance blind_checkInterrupt : Blind checkInterrupt :=
  misses_ctx (fun _ _ => rfl) fun _ => inferInstance

instance blind_invokeLineCallback : Blind invokeLineCallback := by
  refine misses_ctx (fun _ _ => rfl) fun c => ?_
  cases c.lineCallback with
  | none => exact misses_pure ()
  | some callback =>
    have (callback : LineCallback) : Blind (modifyCtx fun c => c.heed callback : Exec Fault Unit) :=
      misses_modifyCtx fun _ _ => rfl
    infer_instance

instance blind_runConstructor (f : Func) (h : Handle) : Blind (runConstructor nested f h) := by
  refine @misses_bind _ _ _ _ _ _ _ (@misses_tryCatch _ _ _ _ _ _ _ fun stop => ?_) _
  cases stop <;> infer_instance

instance blind_callHostFrom (f : Func) : Blind (callHostFrom nested f) := misses_bind _ _

instance blind_exec (i : Instr) : Blind (exec nested i) := by
  cases i with
  | callMethod id =>
    refine .bind fun declared => ?_
    refine .bind fun bits => ?_
    refine .bind fun object => ?_
    exact misses_engine (fun _ _ => rfl) fun e => misses_bind _ _
  | alloc type constructor =>
    refine misses_engine (fun _ _ => rfl) fun e => ?_
    refine .bind fun objectType => ?_
    refine .bind fun h => ?_
    refine @misses_ite _ _ _ _ _ _ _ _ ?_ _
    exact misses_bind _ _
  | _ =>
    unfold exec
    infer_instance

instance blind_step : Blind (step nested) := by
  have hadv : Blind (modifyCtx fun c => { c with pc := c.pc + 1 } : Exec RequestError Unit) :=
    misses_modifyCtx fun _ _ => rfl
  refine misses_ctx (fun _ _ => rfl) fun c => ?_
  refine .bind fun _ => ?_
  cases fetch? c with
  | none => exact misses_bind _ _
  | some i => exact blind_raising _ _

instance blind_steps (n : Nat) : Blind (steps nested n) := by
  induction n with
  | zero => exact misses_throw .outOfFuel
  | succ n ih =>
    refine misses_ctx (fun _ _ => rfl) fun c => ?_
    refine @misses_ite _ _ _ _ _ _ _ _ ?_ _
    refine .bind fun flow => ?_
    cases flow with
    | go => exact ih
    | halt => exact blind_of_deaf _

/-- What is left of a run that has been started. -/
def finishRun (fuel : Nat) : Exec RequestError Outcome := do
  if (← ctx).state = .active then steps nested fuel
  endRun

instance blind_finishRun (fuel : Nat) : Blind (finishRun nested fuel) :=
  misses_ctx (fun _ _ => rfl) fun _ => misses_ite _ _ _

end Nesting

end Exec
end ScriptVm
