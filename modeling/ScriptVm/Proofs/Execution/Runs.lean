import ScriptVm.Proofs.Execution.Arguments
import ScriptVm.Proofs.Execution.Transfer

namespace ScriptVm

theorem Context.fault_exceptionOf (c : Context) (fault : Fault) :
    (c.exceptionOf fault).fault = fault := by
  unfold exceptionOf
  split <;> rfl

namespace Machine

@[simp] theorem catalog_raise (m : Machine) (fault : Fault) :
    (m.raise fault).catalog = m.catalog := by
  unfold raise
  dsimp only
  split <;> rfl

@[simp] theorem catalog_setModule (m : Machine) (id : Option ModuleId) :
    (m.setModule id).catalog = m.catalog := by
  have hhold : (m.holdModule id).catalog = m.catalog :=
    congrArg Outline.catalog (m.outline_holdModule id)
  have hleave (m' : Machine) (old : Option ModuleId) : (m'.leaveModule old).catalog = m'.catalog :=
    congrArg Outline.catalog (m'.outline_leaveModule old)
  rw [setModule, hleave, catalog_onContext, hhold]

theorem holdModule_ctx (m : Machine) (module : Option ModuleId) :
    (m.holdModule module).ctx = m.ctx := by
  cases module <;> rfl

theorem leaveModule_ctx (m : Machine) (module : Option ModuleId) :
    (m.leaveModule module).ctx = m.ctx := by
  cases module <;> rfl

theorem setModule_ctx (m : Machine) (module : Option ModuleId) :
    (m.setModule module).ctx = { m.ctx with module } := by
  rw [setModule, leaveModule_ctx]
  show { (m.holdModule module).ctx with module } = _
  rw [holdModule_ctx]

theorem calls_cleanFrame (m : Machine) : m.cleanFrame.ctx.calls = m.ctx.calls :=
  congrArg (fun o => o.control.calls) (outline_cleanFrame m)

section Unwinding

variable {P : Machine → Prop} (hclean : ∀ {m}, P m → P m.cleanFrame)
  (hback : ∀ {m : Machine} {f calls},
    m.ctx.calls.frames = f :: calls.frames → P m → P (m.restore f calls))

include hclean hback

theorem cleanCallers_induct {m : Machine} {frames : List Frame}
    (hfrs : m.ctx.calls.frames = frames) (h : P m) : P (m.cleanCallers frames) := by
  induction frames generalizing m with
  | nil => exact h
  | cons f frames ih =>
    refine ih ?_ (hclean (hback hfrs h))
    rw [calls_cleanFrame, Exec.restore_ctx]

/-- What holds while a frame is cleaned and when its caller comes back, holds once all frames are
clean. -/
theorem cleanStack_induct (hmark : ∀ {m : Machine},
      P m → P (m.onContext fun c => { c with needsCleanup := false })) {m : Machine}
    (h : P m) : P m.cleanStack :=
  hmark (cleanCallers_induct (P := P) hclean hback
    (congrArg CallStack.frames m.calls_cleanFrame) (hclean h))

end Unwinding

theorem view_cleanStack {γ : Type} (view : Machine → γ) (hclean : ∀ m, view m.cleanFrame = view m)
    (hback : ∀ m f calls, view (m.restore f calls) = view m)
    (hmark : ∀ m : Machine, view (m.onContext fun c => { c with needsCleanup := false }) = view m)
    (m : Machine) :
    view m.cleanStack = view m :=
  cleanStack_induct (P := fun m' => view m' = view m) (fun h => (hclean _).trans h)
    (fun _ h => (hback _ _ _).trans h)
    (fun h => (hmark _).trans h) rfl

variable (m : Machine)

/-- Control goes back to the outermost caller. -/
theorem control_cleanCallers (frames : List Frame) :
    frames = [] ∧ (m.cleanCallers frames).ctx.control = m.ctx.control ∨
      ∃ f ∈ frames, (m.cleanCallers frames).ctx.control =
        { function := some f.function, module := f.module, pc := f.pc, fp := f.fp, calls := {} } := by
  induction frames generalizing m with
  | nil => exact .inl ⟨rfl, rfl⟩
  | cons f frames ih =>
    have hclean :
        (m.restore f ⟨frames⟩).cleanFrame.ctx.control = (m.restore f ⟨frames⟩).ctx.control :=
      congrArg Outline.control (outline_cleanFrame _)
    obtain ⟨rfl, hctl⟩ | ⟨g, hg, hctl⟩ := ih (m.restore f ⟨frames⟩).cleanFrame
    · refine .inr ⟨f, List.mem_cons_self, hctl.trans (hclean.trans ?_)⟩
      rw [Exec.restore_ctx]
      rfl
    · exact .inr ⟨g, List.mem_cons_of_mem f hg, hctl⟩

theorem state_cleanStack : m.cleanStack.ctx.state = m.ctx.state := by
  refine view_cleanStack (fun m => m.ctx.state)
    (fun m => congrArg Outline.state (outline_cleanFrame m)) (fun m f calls => ?_)
    (fun _ => rfl) m
  rw [Exec.restore_ctx]

theorem control_cleanStack : m.ctx.calls.frames = [] ∧ m.cleanStack.ctx.control = m.ctx.control ∨
      ∃ f ∈ m.ctx.calls.frames, m.cleanStack.ctx.control =
        { function := some f.function, module := f.module, pc := f.pc, fp := f.fp, calls := {} } := by
  have hfr : m.cleanFrame.ctx.control = m.ctx.control :=
    congrArg Outline.control (outline_cleanFrame m)
  rw [← hfr]
  exact m.cleanFrame.control_cleanCallers m.ctx.calls.frames

theorem calls_cleanStack : m.cleanStack.ctx.calls = {} := by
  obtain ⟨hnil, hctl⟩ | ⟨f, -, hctl⟩ := m.control_cleanStack
  · exact (congrArg Control.calls hctl).trans (congrArg CallStack.mk hnil)
  · exact congrArg Control.calls hctl

@[simp] theorem catalog_cleanStack : m.cleanStack.catalog = m.catalog :=
  view_cleanStack catalog
    (fun m => congrArg Outline.catalog (outline_cleanFrame m)) Exec.restore_catalog (fun _ => rfl) m

@[simp] theorem catalog_dropObject : m.dropObject.catalog = m.catalog := by
  unfold dropObject
  cases m.ctx.objectRegister with
  | none => rfl
  | some h => exact congrArg Outline.catalog (outline_giveUp _ h)

@[simp] theorem catalog_releaseRun : m.releaseRun.catalog = m.catalog := by
  rw [releaseRun, catalog_setModule, catalog_dropObject]
  split
  · exact catalog_cleanStack m
  · rfl

@[simp] theorem catalog_abortNow : m.abortNow.catalog = m.catalog := by
  rw [abortNow, catalog_cleanStack, catalog_onContext]

@[simp] theorem catalog_applyAbort : m.applyAbort.catalog = m.catalog := by
  unfold applyAbort
  split
  · rw [catalog_abortNow, catalog_onContext]
  · rfl

@[simp] theorem catalog_drop : m.drop.catalog = m.catalog := by
  unfold drop
  split
  · rfl
  · exact catalog_releaseRun m

end Machine

namespace Exec

open Machine (catalog)

variable {ε α : Type} {γ : Type} {view : Machine → γ} {f m : Machine} {nested : Nested} {n : Nat}

/-- What is registered stays, and no context becomes prepared. -/
def Rule.onward : Rule where
  Allows _ m m' := m'.catalog = m.catalog ∧ (m.ctx.state ≠ .prepared → m'.ctx.state ≠ .prepared)
  refl _ := ⟨rfl, id⟩
  trans h k := ⟨k.1.trans h.1, k.2 ∘ h.2⟩
  caught := id

theorem onward_of_state {m m' : Machine} {e : Ending} (hcat : m'.catalog = m.catalog)
    (hst : m'.ctx.state = m.ctx.state) : Rule.onward.Allows e m m' :=
  ⟨hcat, fun h => hst.symm ▸ h⟩

theorem onward_of_outline {m m' : Machine} {e : Ending} (h : m'.outline = m.outline) :
    Rule.onward.Allows e m m' :=
  onward_of_state (congrArg Outline.catalog h) (congrArg Outline.state h)

instance (priority := low) onward_steady (x : Exec ε α) [h : Keeps Machine.outline x] :
    Obeys .onward x :=
  ⟨fun m => onward_of_outline (h.view_after m)⟩

theorem onward_modifyCtx {f : Context → Context} (h : ∀ c, (f c).state = c.state) :
    Obeys .onward (modifyCtx f : Exec ε Unit) :=
  obeys_modifyCtx fun m => onward_of_state rfl (h m.ctx)

instance onward_clearObjectVars (f : Func) :
    Obeys .onward (modify fun m => m.clearObjectVars f : Exec ε PUnit) :=
  obeys_modify fun m => onward_of_outline (m.outline_clearObjectVars f)

instance stepping_onward : Rule.onward.Stepping where
  elementary x _ := inferInstance
  notes h := ⟨rfl, fun hst => h.state.elim (fun hsame => hsame.symm ▸ hst) And.right⟩
  tell _ _ := ⟨rfl, id⟩
  modify _ _ _ := ⟨rfl, id⟩
  newObject _ := inferInstance
  addRef _ := inferInstance
  release _ := inferInstance
  releaseArgs m args params :=
    onward_of_outline (Machine.outline_of_standing
      (Machine.standing_of_bearing (m.bearing_releaseArgs args 0 params)))
  outOfFuel _ := ⟨rfl, id⟩
  moveTop _ := inferInstance
  clear _ _ _ := ⟨rfl, id⟩
  overflow _ := ⟨rfl, id⟩
  callScript callee := by
    have : Obeys .onward (placeArgs callee) := by
      refine ⟨fun m => ?_⟩
      have hbare := (keeps_placeArgs callee).view_after m
      exact onward_of_state (congrArg (fun m => m.catalog) hbare)
        (congrArg (fun m => m.ctx.state) hbare)
    have (caller : Func) (block : Nat) (module : Option ModuleId) (fp : Pointer) :
        Obeys .onward (saveCaller caller block module fp) := by
      have : Obeys .onward (modify fun m => m.holdModule module : Exec Fault PUnit) :=
        obeys_modify fun m => onward_of_outline (m.outline_holdModule module)
      exact .bind fun _ => onward_modifyCtx fun _ => rfl
    have (fp : Pointer) : Obeys .onward (beginCallee callee fp) := by
      have : Obeys .onward
          (modifyCtx fun c => { c with pc := 0, function := some callee } : Exec Fault Unit) :=
        onward_modifyCtx fun _ => rfl
      exact obeys_bind _ _
    exact obeys_bind _ _
  returnFrom words := by
    refine .bind fun c => ?_
    cases c.calls.pop? with
    | none => exact obeys_pure false
    | some popped =>
      have : Obeys .onward (modify fun m => m.restore popped.1 popped.2 : Exec Fault PUnit) :=
        obeys_modify fun m =>
          onward_of_state (restore_catalog m popped.1 popped.2) (by rw [restore_ctx])
      infer_instance

instance entering_onward : Rule.onward.Entering where
  toBase _ := ⟨rfl, id⟩
  setFunction _ _ := ⟨rfl, id⟩
  beginMethod f := by
    have : Obeys .onward (modify fun m => m.setModule (liveModuleOf? m f) : Exec RequestError PUnit) :=
      obeys_modify fun m => onward_of_state (m.catalog_setModule _) (by rw [Machine.setModule_ctx])
    have : Obeys .onward
        (modifyCtx fun c => { c with sp := { c.fp with offset := c.fp.offset - f.locals } } : Exec
          RequestError Unit) :=
      onward_modifyCtx fun _ => rfl
    have : Obeys .onward (modifyCtx fun c => { c with function := some f } : Exec RequestError Unit) :=
      onward_modifyCtx fun _ => rfl
    exact obeys_bind _ _

instance (priority := low) keeps_catalog_of_onward (x : Exec ε α) [h : Obeys .onward x] :
    Keeps catalog x :=
  ⟨fun m => (h.holds m).1⟩

instance keeps_catalog_modifyCtx (f : Context → Context) :
    Keeps catalog (modifyCtx f : Exec ε Unit) :=
  ⟨fun _ => rfl⟩

instance keeps_catalog_onStack (f : Stack → Stack) :
    Keeps catalog (modify fun m => m.onStack f : Exec ε PUnit) :=
  ⟨fun _ => rfl⟩

instance keeps_catalog_setModule (f : Func) :
    Keeps catalog (modify fun m => m.setModule (liveModuleOf? m f) : Exec ε PUnit) :=
  obeys_modify fun m => m.catalog_setModule (liveModuleOf? m f)

section Nesting

variable (nested : Nested) [hnst : ∀ id args, Keeps Machine.outline (nested id args)]

instance keeps_catalog_abortNow : Keeps catalog (modify Machine.abortNow : Exec ε PUnit) :=
  obeys_modify Machine.catalog_abortNow

instance keeps_catalog_beginRun (state : ContextState) : Keeps catalog (beginRun nested state) :=
  obeys_bind _ _

instance keeps_catalog_startRun : Keeps catalog (startRun nested) := obeys_bind _ _

instance keeps_catalog_endRun : Keeps catalog endRun := obeys_bind _ _

instance keeps_catalog_executeWith (n : Nat) : Keeps catalog (executeWith nested n) := obeys_bind _ _

end Nesting

instance keeps_catalog_requireIdle : Keeps catalog requireIdle := by
  have : Keeps catalog (modify Machine.applyAbort : Exec RequestError PUnit) :=
    obeys_modify Machine.catalog_applyAbort
  exact obeys_bind _ _

theorem keeps_layoutEntry {f : Func} (hstk : ∀ m s, view (m.onStack s) = view m)
    (hfr : ∀ m fp sp, view (m.onContext fun c => { c with fp, sp }) = view m)
    (hclear : ∀ m, view (m.clearObjectVars f) = view m) : Keeps view (layoutEntry f) := by
  have (s : Stack → Stack) : Keeps view (modify fun m => m.onStack s : Exec RequestError PUnit) :=
    obeys_modify fun m => hstk m s
  have (fp sp : Pointer) :
      Keeps view (modifyCtx fun c => { c with fp, sp } : Exec RequestError Unit) :=
    obeys_modifyCtx fun m => hfr m fp sp
  have : Keeps view (modify fun m => m.clearObjectVars f : Exec RequestError PUnit) :=
    obeys_modify hclear
  have : Keeps view (placeEntry f) := obeys_bind _ _
  refine .bind fun _ => ?_
  refine .bind fun e => ?_
  refine .bind fun c => ?_
  refine .bind fun c' => ?_
  exact obeys_bind _ _

instance keeps_catalog_layoutEntry (f : Func) : Keeps catalog (layoutEntry f) :=
  keeps_layoutEntry (fun _ _ => rfl) (fun _ _ _ => rfl) fun m =>
    congrArg Outline.catalog (m.outline_clearObjectVars f)

instance keeps_catalog_releaseRun : Keeps catalog (modify Machine.releaseRun : Exec ε PUnit) :=
  obeys_modify Machine.catalog_releaseRun

instance keeps_entryOf (f : Func) : Keeps view (entryOf f) := by
  unfold entryOf
  infer_instance

theorem entryOf_ok {f g : Func} {m' : Machine} (h : entryOf f m = .ok g m') :
    m' = m ∧ (g = f ∨ ∃ id, m.engine.function? id = some g) := by
  unfold entryOf at h
  split at h
  · obtain ⟨hbnd, rfl⟩ := orFail_ok (engine_ok h)
    simp only [boundFunction?, Option.bind_eq_bind, Option.bind_eq_some_iff] at hbnd
    obtain ⟨_, -, _, -, _, -, _, -, id, -, hg⟩ := hbnd
    exact ⟨rfl, .inr ⟨id, hg⟩⟩
  · cases h
    exact ⟨rfl, .inl rfl⟩

theorem leaveRun_eq (m : Machine) :
    leaveRun m = .ok () (if m.ctx.state ≠ .uninitialized then m.releaseRun else m) := by
  show (if m.ctx.state ≠ .uninitialized then _ else _ : Exec RequestError Unit) m = _
  split <;> rfl

instance keeps_catalog_leaveRun : Keeps catalog leaveRun := obeys_bind _ _

instance keeps_catalog_settle (f : Func) : Keeps catalog (settle f) := obeys_bind _ _

instance keeps_catalog_prepareFunction (f : Func) : Keeps catalog (prepareFunction f) :=
  obeys_bind _ _

instance keeps_catalog_prepare (id : FunctionId) : Keeps catalog (prepare id) := obeys_bind _ _

instance keeps_catalog_runFunction (execute : Exec RequestError Outcome) [Keeps catalog execute]
    (id : FunctionId) (args : List UInt32) :
    Keeps catalog (runFunction execute id args) := obeys_bind _ _

theorem catalog_tellAll (m : Machine) (events : List Event) :
    (m.tellAll events).catalog = m.catalog :=
  List.foldlRecOn events _ (motive := fun i : Machine => i.catalog = m.catalog) rfl fun _ hi _ _ =>
    hi

instance keeps_ctx_inNewContext (report : Except RequestError α → List Event)
    (x : Exec RequestError α) : Keeps Machine.ctx (inNewContext report x : Exec ε _) :=
  keeps_of fun m => by
    unfold after inNewContext
    cases x m.engine.newMachine with
    | ok a i => rfl
    | error stop i => cases stop <;> rfl

instance keeps_inNewContext (report : Except RequestError α → List Event) (x : Exec RequestError α)
    [hx : Keeps catalog x] : Keeps Machine.outline (inNewContext report x : Exec ε _) :=
  keeps_of fun m => by
    have hkept := hx.view_after m.engine.newMachine
    rw [after] at hkept
    unfold after inNewContext
    cases hrun : x m.engine.newMachine with
    | ok a i =>
      rw [hrun] at hkept
      refine Machine.outline_ext ?_ rfl rfl rfl
      exact (Machine.catalog_drop _).trans ((catalog_tellAll i _).trans hkept)
    | error stop i =>
      rw [hrun] at hkept
      cases stop with
      | cause e =>
        refine Machine.outline_ext ?_ rfl rfl rfl
        exact (Machine.catalog_drop _).trans ((catalog_tellAll i _).trans hkept)
      | overflow | outOfFuel => exact Machine.outline_ext hkept rfl rfl rfl

instance keeps_ctx_runNested (execute : Exec RequestError Outcome) (id : FunctionId)
    (args : List UInt32) : Keeps Machine.ctx (runNested execute id args) := by
  refine .bind fun r => ?_
  cases r <;> infer_instance

instance keeps_runNested (execute : Exec RequestError Outcome) [Keeps catalog execute]
    (id : FunctionId) (args : List UInt32) : Keeps Machine.outline (runNested execute id args) := by
  refine .bind fun r => ?_
  cases r <;> infer_instance

instance keeps_catalog_execute (n : Nat) : Keeps catalog (execute n) := by
  induction n with
  | zero => exact keeps_throw _
  | succ n ih => exact keeps_catalog_executeWith (runNested (execute n)) n

theorem steps_ok (hact : m.ctx.state = .active) (h : steps nested (n + 1) m = .ok () f) :
    ∃ flow m', step nested m = .ok flow m' ∧ (flow = .go → steps nested n m' = .ok () f) ∧
      (flow = .halt → m' = f) := by
  rw [steps] at h
  replace h := ctx_ok h
  rw [if_pos hact] at h
  obtain ⟨flow, m', hstep, h⟩ := bind_ok h
  refine ⟨flow, m', hstep, fun hflow => ?_, fun hflow => ?_⟩
  · subst hflow
    exact h
  · subst hflow
    cases h
    rfl

theorem steps_idle (hact : m.ctx.state ≠ .active)
    (h : steps nested (n + 1) m = .ok () f) : f = m := by
  rw [steps] at h
  replace h := ctx_ok h
  rw [if_neg hact] at h
  cases h
  rfl

theorem steps_keep {P : Machine → Prop}
    (hstep : ∀ m flow m',
      P m → m.ctx.state = .active → step nested m = .ok flow m' → P m') (hm : P m)
    (h : steps nested n m = .ok () f) : P f := by
  induction n generalizing m with
  | zero => cases h
  | succ n ih =>
    by_cases hact : m.ctx.state = .active
    · obtain ⟨flow, m', hfst, hgo, hhalt⟩ := steps_ok hact h
      have hm' := hstep m flow m' hm hact hfst
      cases flow with
      | go => exact ih hm' (hgo rfl)
      | halt => exact hhalt rfl ▸ hm'
    · exact steps_idle hact h ▸ hm

/-- What holds at the start of a run and is kept by every step and by the end of the run. -/
theorem executeWith_keeps {P : Machine → Prop} {outcome : Outcome}
    (hstart : ∀ m', startRun nested m = .ok () m' → P m')
    (hstep : ∀ m flow m', P m → m.ctx.state = .active → step nested m = .ok flow m' → P m')
    (hend : ∀ m outcome m', P m → endRun m = .ok outcome m' → P m')
    (h : executeWith nested n m = .ok outcome f) : P f := by
  obtain ⟨_, m1, hstarted, h⟩ := bind_ok h
  replace h := ctx_ok h
  have hm1 := hstart m1 hstarted
  split at h
  · obtain ⟨_, m2, hsteps, hended⟩ := bind_ok h
    exact hend m2 outcome f (steps_keep hstep hm1 hsteps) hended
  · exact hend m1 outcome f hm1 h

/-- The machine after a run has ended for now or for good. -/
def concluded (m : Machine) : Machine :=
  if m.ctx.abortRequested ∧ m.ctx.state = .suspended then
    (m.onContext fun c => { c with abortRequested := false }).abortNow
  else m.onContext fun c => { c with abortRequested := false }

theorem endRun_eq (m : Machine) :
    endRun m = .ok (outcomeOf (concluded m).ctx.state) (concluded m) := by
  unfold concluded
  show (if m.ctx.abortRequested ∧ m.ctx.state = .suspended then _ else _ : Exec RequestError Outcome)
    (m.onContext fun c => { c with abortRequested := false }) = _
  by_cases h : m.ctx.abortRequested ∧ m.ctx.state = .suspended
  · rw [if_pos h, if_pos h]
    rfl
  · rw [if_neg h, if_neg h]
    rfl

theorem startRun_refused (nested : Nested) (hprep : m.ctx.state ≠ .prepared)
    (hsus : m.ctx.state ≠ .suspended) :
    startRun nested m = .error (.cause (.invalidState m.ctx.state)) m := by
  show (if m.ctx.state ≠ .prepared ∧
      m.ctx.state ≠ .suspended then _ else _ : Exec RequestError Unit) m = _
  rw [if_pos ⟨hprep, hsus⟩]
  rfl

theorem startRun_ready (nested : Nested) (h : m.ctx.state = .prepared ∨ m.ctx.state = .suspended) :
    startRun nested m =
      if m.ctx.abortRequested then
        .ok () (m.onContext fun c =>
          { c with suspendRequested := false, abortRequested := false }).abortNow
      else activate nested m.ctx.state (m.onContext fun c => { c with suspendRequested := false }) := by
  show (if m.ctx.state ≠ .prepared ∧
      m.ctx.state ≠ .suspended then _ else _ : Exec RequestError Unit) m = _
  rw [if_neg fun hne => h.elim hne.1 hne.2]
  show (if m.ctx.abortRequested then _ else activate nested m.ctx.state : Exec RequestError Unit)
    (m.onContext fun c => { c with suspendRequested := false }) = _
  split <;> rfl

theorem startRun_prepared (nested : Nested) (h : m.ctx.state = .prepared) : startRun nested m =
      if m.ctx.abortRequested then
        .ok () (m.onContext fun c =>
          { c with suspendRequested := false, abortRequested := false }).abortNow
      else activate nested .prepared (m.onContext fun c => { c with suspendRequested := false }) := by
  rw [startRun_ready nested (.inl h), h]

/-- The machine after a suspended run goes on, unless it is aborted. -/
def resumed (m : Machine) : Machine :=
  m.onContext fun c =>
    { c with suspendRequested := false, state := if c.function.isNone then .finished else .active }

theorem startRun_suspended (nested : Nested) (h : m.ctx.state = .suspended) :
    startRun nested m = .ok () (
      if m.ctx.abortRequested then
        (m.onContext fun c => { c with suspendRequested := false, abortRequested := false }).abortNow
      else resumed m) := by
  rw [startRun_ready nested (.inr h), h]
  split
  · rfl
  · show (if ContextState.active = .active ∧
        m.ctx.function.isNone then _ else _ : Exec RequestError Unit)
      (m.onContext fun c => { c with suspendRequested := false, state := .active }) = _
    unfold resumed
    by_cases hf : m.ctx.function.isNone
    · rw [if_pos ⟨rfl, hf⟩]
      simp only [Machine.onContext, hf, if_true]
      rfl
    · rw [if_neg fun hcond => hf hcond.2]
      simp only [Machine.onContext, hf]
      rfl

end Exec
end ScriptVm
