import ScriptVm.Proofs.Execution.Conservation

namespace ScriptVm

theorem Machine.applyAbort_applyAbort (m : Machine) : m.applyAbort.applyAbort = m.applyAbort := by
  by_cases hdue : m.ctx.state = .suspended ∧ m.ctx.abortRequested
  · have hst : m.applyAbort.ctx.state = .aborted := by
      rw [applyAbort, if_pos hdue]
      exact state_cleanStack _
    rw [applyAbort, if_neg fun h => by rw [hst] at h; cases h.1]
  · have hnone : m.applyAbort = m := if_neg hdue
    rw [hnone, hnone]

namespace Exec

variable {ε α β : Type} {m : Machine} {e : RequestError}

def cause? : EStateM.Result (Stop ε) Machine α → Option ε
  | .error (.cause e) _ => some e
  | _ => none

theorem ending_cause {r : EStateM.Result (Stop ε) Machine α} :
    ending r = .cause ↔ cause? r ≠ none := by
  cases r with
  | ok => simp [ending, cause?]
  | error stop => cases stop <;> simp [ending, cause?]

/-- The step has no cause to stop. -/
def Rule.sure : Rule where
  Allows e _ _ := e ≠ .cause
  refl _ := by simp
  trans _ k := k
  caught h := absurd rfl h

abbrev Sure (x : Exec ε α) : Prop := Obeys .sure x

theorem sure_of {x : Exec ε α} (h : ∀ m, cause? (x m) = none) : Sure x :=
  ⟨fun m he => ending_cause.mp he (h m)⟩

theorem Sure.no_cause {x : Exec ε α} [hx : Sure x] (m : Machine) : cause? (x m) = none :=
  Decidable.not_not.mp fun h => hx.holds m (ending_cause.mpr h)

/-- If the step has a cause to stop, it finds it before it changes anything. -/
class Guarded (x : Exec ε α) : Prop where
  unchanged : ∀ m e, cause? (x m) = some e → x.after m = m

instance sure_modify (f : Machine → Machine) : Sure (modify f : Exec ε PUnit) := sure_of fun _ => rfl

instance sure_modifyCtx (f : Context → Context) : Sure (modifyCtx f : Exec ε Unit) :=
  sure_of fun _ => rfl

instance sure_onHeap (f : Heap → α × Heap) : Sure (onHeap f : Exec ε α) := sure_of fun _ => rfl

instance sure_outOfFuel : Sure (throw .outOfFuel : Exec ε α) := sure_of fun _ => rfl

instance sure_wordOrStop (n : Nat) : Sure (wordOrStop n : Exec ε Unit) := by
  unfold wordOrStop
  split <;> exact sure_of fun _ => rfl

instance sure_ensure (b : Bool) : Sure (ensure b : Exec ε Unit) := by
  unfold ensure
  split <;> exact sure_of fun _ => rfl

instance sure_newObject (type : ObjectType) : Sure (newObject type : Exec ε Handle) := obeys_bind _ _

instance sure_addRef (h : Handle) : Sure (addRef h : Exec ε Bool) := obeys_bind _ _

instance sure_copyObject (h : Handle) : Sure (copyObject h : Exec ε (Option Handle)) := by
  refine .bind fun e => ?_
  cases e.heap.get? h <;> infer_instance

theorem bind_cause {x : Exec ε α} {f : α → Exec ε β} [hf : ∀ a, Sure (f a)] {m' : Machine} {e : ε}
    (h : (x >>= f) m = .error (.cause e) m') : x m = .error (.cause e) m' := by
  revert h
  refine bind_cases (Q := fun r => r = .error (.cause e) m' → _)
    (fun a m1 _ h => ?_) fun stop m1 hx h => ?_
  · have hnone := (hf a).no_cause m1
    rw [h] at hnone
    cases hnone
  · cases h
    exact hx

instance sure_raising (ended : α) (x : Exec Fault α) : Sure (raising ended x) :=
  sure_of fun m => by
    unfold raising
    cases x m with
    | ok a m' => rfl
    | error stop m' => cases stop <;> rfl

instance sure_inNewContext (report : Except RequestError α → List Event) (x : Exec RequestError α) :
    Sure (inNewContext report x : Exec ε _) :=
  sure_of fun m => by
    unfold inNewContext
    cases x m.engine.newMachine with
    | ok a i => rfl
    | error stop i => cases stop <;> rfl

instance sure_runNested (execute : Exec RequestError Outcome) (id : FunctionId)
    (args : List UInt32) : Sure (runNested execute id args) := by
  refine .bind fun r => ?_
  cases r <;> infer_instance

instance (priority := low) guarded_of_sure (x : Exec ε α) [hx : Sure x] : Guarded x where
  unchanged m e h := by
    rw [hx.no_cause m] at h
    cases h

instance (priority := low) guarded_of_keeps (x : Exec ε α) [hx : Keeps (fun m => m) x] : Guarded x :=
  ⟨fun m _ _ => hx.view_after m⟩

instance guarded_ite (p : Prop) [Decidable p] (x y : Exec ε α) [Guarded x] [Guarded y] :
    Guarded (if p then x else y) := by
  split <;> infer_instance

instance guarded_refuse (e : ε) (f : α → Exec ε β) : Guarded (fail e >>= f) := ⟨fun _ _ _ => rfl⟩

/-- Steps that only look may come before a cause to stop. -/
instance guarded_bind (x : Exec ε α) (f : α → Exec ε β) [hx : Keeps (fun m => m) x]
    [hf : ∀ a, Guarded (f a)] :
    Guarded (x >>= f) where
  unchanged m e := by
    refine bind_cases (Q := fun r => cause? r = some e → left r = m)
      (fun a m1 h hcause => ?_) fun stop m1 h _ => hx.of_error h
    exact ((hf a).unchanged m1 e hcause).trans (hx.of_ok h)

instance guarded_then (x : Exec ε α) (f : α → Exec ε β) [hx : Guarded x] [hf : ∀ a, Sure (f a)] :
    Guarded (x >>= f) where
  unchanged m e := by
    refine bind_cases (Q := fun r => cause? r = some e → left r = m)
      (fun a m1 _ hcause => ?_) fun stop m1 h hcause => ?_
    · rw [(hf a).no_cause m1] at hcause
      cases hcause
    · have hleft := hx.unchanged m e
      rw [after, h] at hleft
      cases stop with
      | cause e' => exact hleft hcause
      | overflow | outOfFuel => cases hcause

section Nesting

variable (nested : Nested)

instance sure_step : Sure (step nested) := by
  have (i : Option Instr) : Sure (perform nested i) := by
    cases i with
    | none => exact obeys_bind _ _
    | some i => exact sure_raising _ _
  exact obeys_bind _ _

instance sure_enterMethod (declared : Func) : Sure (enterMethod nested declared) := by
  have (f : Func) : Sure (enterHost nested f) := sure_raising _ _
  have (f : Func) : Sure (beginMethod f) := obeys_bind _ _
  refine .bind fun m => ?_
  cases (m.handleAt? m.ctx.fp).bind (m.engine.resolveMethod? declared) <;> infer_instance

instance sure_enter : Sure (enter nested) := by
  have (f : Func) : Sure (enterHost nested f) := sure_raising _ _
  refine .bind fun c => ?_
  cases c.function with
  | none => exact sure_modifyCtx _
  | some f =>
    dsimp only
    cases f.kind <;> infer_instance

instance sure_beginRun (state : ContextState) : Sure (beginRun nested state) := by
  have : Sure (activate nested state) := obeys_bind _ _
  exact obeys_bind _ _

instance guarded_startRun : Guarded (startRun nested) := guarded_bind _ _

instance sure_endRun : Sure endRun := obeys_bind _ _

instance guarded_execute (n : Nat) : Guarded (execute n) := by
  cases n with
  | zero => exact @guarded_of_sure _ _ _ sure_outOfFuel
  | succ n => exact guarded_then (startRun (runNested (execute n))) _

end Nesting

instance filling_sure : Rule.sure.Filling where
  set _ _ _ := by simp [Rule.sure]
  setWords _ _ _ := by simp [Rule.sure]
  giveUp _ _ := by simp [Rule.sure]
  release _ := sure_onHeap _
  retain := sure_addRef
  copy := sure_copyObject

instance guarded_setArgObject (index : Nat) (object : Option Handle) :
    Guarded (setArgObject index object) :=
  @guarded_bind _ _ _ _ _ _ fun slot => @guarded_ite _ _ _ _ _ _ _
    (@guarded_of_sure _ _ _ (.bind fun m => obeys_fillArg m slot.1 slot.2 object))

instance guarded_setThis (object : Option Handle) : Guarded (setThis object) :=
  @guarded_bind _ _ _ _ _ _ fun c => @guarded_ite _ _ _ _ _ _ _ (@guarded_ite _ _ _ _ _ _ _
    (@guarded_of_sure _ _ _ (.bind fun m => obeys_fillThis m c.fp object)))

theorem requireIdle_eq (m : Machine) :
    requireIdle m = if m.applyAbort.ctx.isBusy then .error (.cause .busy) m.applyAbort
      else .ok () m.applyAbort := by
  show (if m.applyAbort.ctx.isBusy then _ else _ : Exec RequestError Unit) m.applyAbort = _
  split <;> rfl

theorem unprepare_idle (h : m.ctx.state = .prepared ∨ m.ctx.state = .exception) :
    ∃ m', unprepare m = .ok () m' ∧ m'.engine = m.releaseRun.engine := by
  have hst : m.ctx.state ≠ .suspended ∧ m.ctx.state ≠ .uninitialized ∧ m.ctx.isBusy = false := by
    obtain h | h := h <;> simp [Context.isBusy, h]
  have habt : m.applyAbort = m := if_neg (by simp [hst.1])
  have hidle : requireIdle m = .ok () m := by rw [requireIdle_eq, habt, hst.2.2]; rfl
  rw [unprepare, bind_of_ok hidle, ctx_bind, if_pos hst.2.1]
  exact ⟨_, rfl, rfl⟩

theorem after_idle {f : Unit → Exec RequestError α}
    (hf : cause? (f () m.applyAbort) = some e → (f ()).after m.applyAbort = m.applyAbort)
    (h : cause? ((requireIdle >>= f) m) = some e) : (requireIdle >>= f).after m = m.applyAbort := by
  by_cases hbusy : m.applyAbort.ctx.isBusy
  · have href : requireIdle m = .error (.cause .busy) m.applyAbort := by
      rw [requireIdle_eq, if_pos hbusy]
    exact after_bind_of_error href f
  · have hidle : requireIdle m = .ok () m.applyAbort := by rw [requireIdle_eq, if_neg hbusy]
    rw [bind_of_ok hidle] at h
    rw [after_bind_of_ok hidle]
    exact hf h

instance sure_settle (f : Func) : Sure (settle f) := by
  have : Sure (placeEntry f) := obeys_bind _ _
  have : Sure (layoutEntry f) := by
    refine .bind fun _ => ?_
    refine .bind fun e => ?_
    refine .bind fun c => ?_
    exact obeys_bind _ _
  exact obeys_bind _ _

theorem after_prepareFunction {f : Func} (h : cause? (prepareFunction f m) = some e) :
    (prepareFunction f).after m = m.applyAbort := by
  have : Sure leaveRun := obeys_bind _ _
  exact after_idle (Guarded.unchanged _ _) h

theorem after_prepare {id : FunctionId} (h : cause? (prepare id m) = some e) :
    (prepare id).after m = m.applyAbort := by
  refine after_idle (fun hcause => ?_) h
  -- The second abortion finds nothing to do.
  have hfd :
      cause? ((orFail (.noFunction id) (m.applyAbort.engine.function? id) >>= prepareFunction)
        m.applyAbort) = some e →
      (orFail (.noFunction id) (m.applyAbort.engine.function? id) >>= prepareFunction).after
        m.applyAbort = m.applyAbort := by
    cases m.applyAbort.engine.function? id with
    | none => exact fun _ => rfl
    | some f => exact fun hcause => (after_prepareFunction hcause).trans m.applyAbort_applyAbort
  exact hfd hcause

theorem after_unprepare (h : cause? (unprepare m) = some e) : unprepare.after m = m.applyAbort :=
  after_idle (Guarded.unchanged _ _) h

theorem error_of_cause {x : Exec ε α} {e : ε} (h : cause? (x m) = some e) :
    x m = .error (.cause e) (x.after m) := by
  unfold after
  cases hx : x m with
  | ok a m' =>
    rw [hx] at h
    cases h
  | error stop m' =>
    rw [hx] at h
    cases stop with
    | cause e' =>
      cases h
      rfl
    | overflow | outOfFuel => cases h

end Exec

end ScriptVm
