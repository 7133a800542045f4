import ScriptVm.Proofs.Execution.Holding

namespace ScriptVm.Exec

open Machine (stake bearing)

open Machine

variable {ε α β : Type} {f : Func} {m : Machine}

/-- A result after which the machine goes on to be used. -/
def Settled : EStateM.Result (Stop ε) Machine α → Prop
  | .ok _ _ => True
  | .error (.cause _) _ => True
  | .error _ _ => False

/-- A result that began at `m` has a property, with the references of others as they were. -/
def Carried (P : Machine → Prop) (m : Machine) (r : EStateM.Result (Stop ε) Machine α) : Prop :=
  Settled r → P (left r) ∧ (left r).others = m.others

theorem settled_ending (r : EStateM.Result (Stop ε) Machine α) : (ending r).Settled = Settled r := by
  cases r with
  | ok => rfl
  | error stop => cases stop <;> rfl

/-- A property of the machine and the references of others are kept. -/
def Rule.conserves (P : Machine → Prop) : Rule where
  Allows e m m' := P m → e.Settled → P m' ∧ m'.others = m.others
  refl _ hm _ := ⟨hm, rfl⟩
  trans h k hm hstl := by
    obtain ⟨hm1, hoth⟩ := h hm trivial
    exact ⟨(k hm1 hstl).1, (k hm1 hstl).2.trans hoth⟩
  caught h hm _ := h hm trivial

abbrev Conserves (P : Machine → Prop) (x : Exec ε α) : Prop := Obeys (.conserves P) x

section Combining

variable {P Q : Machine → Prop} {m0 m : Machine}

theorem Carried.from {r : EStateM.Result (Stop ε) Machine α} (h : Carried P m r)
    (hoth : m.others = m0.others) : Carried P m0 r :=
  fun hstl => ⟨(h hstl).1, (h hstl).2.trans hoth⟩

theorem Carried.imp {r : EStateM.Result (Stop ε) Machine α} (h : Carried P m r)
    (himp : ∀ m, P m → Q m) : Carried Q m r :=
  fun hstl => ⟨himp _ (h hstl).1, (h hstl).2⟩

theorem Carried.bind {x : Exec ε α} {f : α → Exec ε β} (hx : Carried P m (x m))
    (himp : ∀ m, P m → Q m) (hf : ∀ a m', P m' → Carried Q m' (f a m')) :
    Carried Q m ((x >>= f) m) := by
  refine bind_cases (fun a m' h => ?_) fun stop m' h => ?_
  · rw [h] at hx
    obtain ⟨hm', hoth⟩ := hx trivial
    exact (hf a m' hm').from hoth
  · rw [h] at hx
    intro hstl
    have hfst : Settled (.error stop m' : EStateM.Result (Stop ε) Machine α) := by
      cases stop <;> exact hstl
    exact ⟨himp m' (hx hfst).1, (hx hfst).2⟩

theorem conserves_of {x : Exec ε α} (h : ∀ m, P m → Carried P m (x m)) : Conserves P x :=
  ⟨fun m hm hstl => h m hm (settled_ending (x m) ▸ hstl)⟩

theorem carried_after (x : Exec ε α) [h : Conserves P x] (hm : P m) : Carried P m (x m) :=
  fun hstl => h.holds m hm ((settled_ending (x m)).symm ▸ hstl)

theorem conserves_modify {f : Machine → Machine} (h : ∀ m, P m → P (f m) ∧ (f m).others = m.others) :
    Conserves P (modify f : Exec ε PUnit) :=
  ⟨fun m hm _ => h m hm⟩

end Combining

instance (priority := low) live_of_stake (x : Exec ε α) [h : Keeps stake x] : Conserves Live x :=
  ⟨fun m hm _ => ⟨hm.of_stake (h.view_after m), others_of_stake (h.view_after m)⟩⟩

instance (priority := low) sound_of_stake (x : Exec ε α) [h : Keeps stake x] : Conserves Sound x :=
  ⟨fun m hm _ => ⟨hm.of_stake (h.view_after m), others_of_stake (h.view_after m)⟩⟩

instance (priority := low) stake_of_keeps (x : Exec ε α) [h : Keeps Machine.standing x] :
    Keeps stake x :=
  ⟨fun m => stake_of_standing (h.view_after m)⟩

instance stake_placeArgs (callee : Func) : Keeps stake (placeArgs callee) :=
  keeps_of fun m => by
    have hstake := congrArg stake ((keeps_placeArgs callee).view_after m)
    exact hstake

theorem live_onContext {f : Context → Context} (hheld : (f m.ctx).held = m.ctx.held)
    (hclup : (f m.ctx).needsCleanup = m.ctx.needsCleanup)
    (hst : (f m.ctx).state = m.ctx.state ∨ (f m.ctx).state ≠ .uninitialized)
    (hm : m.Live) : (m.onContext f).Live ∧ (m.onContext f).others = m.others := by
  refine ⟨⟨hm.anchored.onContext f hheld, hclup.trans hm.cleanup, ?_⟩, m.others_onContext f hheld⟩
  show (f m.ctx).state ≠ .uninitialized
  obtain hsame | hst := hst
  · rw [hsame]
    exact hm.begun
  · exact hst

theorem built_of_moduleOf? (h : m.Anchored) {id : ModuleId} (hid : moduleOf? m f = some id) :
    ∃ g, m.engine.built? id = some g := by
  obtain ⟨-, hknown⟩ := Option.filter_eq_some_iff.mp hid
  rw [Bool.or_eq_true, decide_eq_true_iff] at hknown
  obtain hcur | hlive := hknown
  · exact h id (hcur ▸ List.mem_cons_self)
  · exact Engine.built?_of_module? hlive

theorem saveCaller_carried (caller : Func) (block : Nat) (fp : Pointer) {module : Option ModuleId}
    (hbuilt : ∀ id, module = some id → ∃ g, m.engine.built? id = some g) (h : m.Live) :
    Carried Live m (saveCaller caller block module fp m) := by
  intro _
  have hctx := m.holdModule_ctx module
  have heng :
      (left (saveCaller caller block module fp m)).engine = (m.holdModule module).engine := rfl
  have hheld : (left (saveCaller caller block module fp m)).ctx.held = module :: m.ctx.held := by
    show module :: (m.holdModule module).ctx.module ::
        (m.holdModule module).ctx.calls.frames.map Frame.module = _
    rw [hctx]
    rfl
  obtain ⟨hanch, hoth⟩ := hold_push hbuilt heng hheld h.anchored
  refine ⟨⟨hanch, ?_, ?_⟩, hoth⟩
  · show (m.holdModule module).ctx.needsCleanup = true
    rw [hctx]
    exact h.cleanup
  · show (m.holdModule module).ctx.state ≠ .uninitialized
    rw [hctx]
    exact h.begun

instance stake_clearObjectVars (f : Func) :
    Keeps stake (modify fun m => m.clearObjectVars f : Exec ε PUnit) :=
  obeys_modify fun m => stake_of_standing (standing_of_bearing (m.bearing_clearObjectVars f))

instance live_beginCallee (callee : Func) (fp : Pointer) :
    Conserves Live (beginCallee callee fp) := by
  have : Conserves Live
      (modifyCtx fun c => { c with pc := 0, function := some callee } : Exec Fault Unit) :=
    obeys_modifyCtx fun _ hm _ => live_onContext rfl rfl (.inl rfl) hm
  exact obeys_bind _ _

instance live_callScript (callee : Func) : Conserves Live (callScript callee) := by
  have hrest (caller : Func) (block : Nat) (fp : Pointer) : Conserves Live (do
      saveCaller caller block (moduleOf? (← get) callee) fp
      beginCallee callee fp) := by
    refine conserves_of fun m hm => ?_
    obtain ⟨hsaved, hoth⟩ :=
      saveCaller_carried caller block fp (fun id => built_of_moduleOf? hm.anchored) hm trivial
    exact (carried_after (beginCallee callee fp) hsaved).from hoth
  exact obeys_bind _ _

theorem restore_carried {f : Frame} {calls : CallStack} (hpop : m.ctx.calls.pop? = some (f, calls))
    (h : m.Live) : (m.restore f calls).Live ∧ (m.restore f calls).others = m.others := by
  obtain ⟨hanch, hoth⟩ := restore_holding calls (frames_of_pop hpop) h.anchored
  refine ⟨⟨hanch, ?_, ?_⟩, hoth⟩
  · rw [restore_ctx]
    exact h.cleanup
  · rw [restore_ctx]
    exact h.begun

instance live_returnFrom (words : Nat) : Conserves Live (returnFrom words) :=
  conserves_of fun m hm => by
    cases hpop : m.ctx.calls.pop? with
    | none =>
      rw [returnFrom_outermost words hpop]
      exact fun _ => ⟨hm, rfl⟩
    | some popped =>
      obtain ⟨f, calls⟩ := popped
      obtain ⟨hrst, hoth⟩ := restore_carried hpop hm
      rw [returnFrom_caller words hpop]
      cases f.sp.shift? words with
      | none => exact fun _ => ⟨hrst, hoth⟩
      | some sp => exact fun _ => ⟨hrst.of_stake rfl, hoth⟩

theorem built_of_liveModuleOf? {id : ModuleId} (hid : liveModuleOf? m f = some id) :
    ∃ g, m.engine.built? id = some g :=
  Engine.built?_of_module? (Option.filter_eq_some_iff.mp hid).2

instance live_setModule (f : Func) :
    Conserves Live (modify fun m => m.setModule (liveModuleOf? m f) : Exec ε PUnit) := by
  refine conserves_modify fun m hm => ?_
  obtain ⟨hanch, hoth⟩ :=
    setModule_holding (liveModuleOf? m f) (fun id => built_of_liveModuleOf?) hm.anchored
  refine ⟨⟨hanch, ?_, ?_⟩, hoth⟩
  · rw [setModule_ctx]
    exact hm.cleanup
  · rw [setModule_ctx]
    exact hm.begun

instance stepping_live : (Rule.conserves Live).Stepping where
  elementary x _ := inferInstance
  notes h hm _ := live_onContext (congrArg (fun c => c.held) h.footing)
    (congrArg (fun c => c.needsCleanup) h.footing)
    (h.state.imp id And.left) hm
  tell _ _ hm _ := ⟨hm.of_stake rfl, rfl⟩
  modify _ _ _ hm _ := ⟨hm.of_stake rfl, rfl⟩
  newObject _ := inferInstance
  addRef _ := inferInstance
  release _ := inferInstance
  releaseArgs m args params hm _ := by
    have hstake := stake_of_standing (standing_of_bearing (m.bearing_releaseArgs args 0 params))
    exact ⟨hm.of_stake hstake, others_of_stake hstake⟩
  outOfFuel _ _ := False.elim
  overflow _ _ := False.elim
  moveTop _ := inferInstance
  clear _ _ _ hm _ := ⟨hm.of_stake rfl, rfl⟩
  callScript := live_callScript
  returnFrom := live_returnFrom

instance entering_live : (Rule.conserves Live).Entering where
  toBase _ hm _ := ⟨hm.of_stake rfl, rfl⟩
  setFunction _ _ hm _ := live_onContext rfl rfl (.inl rfl) hm
  beginMethod f := by
    have : Keeps stake
        (modifyCtx fun c => { c with sp := { c.fp with offset := c.fp.offset - f.locals } } : Exec
          RequestError Unit) :=
      obeys_modifyCtx fun _ => rfl
    have : Conserves Live (modifyCtx fun c => { c with function := some f } : Exec RequestError Unit) :=
      obeys_modifyCtx fun _ hm _ => live_onContext rfl rfl (.inl rfl) hm
    have : Conserves Live (modify fun m => m.raise .stackOverflow : Exec RequestError PUnit) :=
      obeys_raise _
    refine .bind fun _ => ?_
    refine .bind fun _ => ?_
    refine .bind fun c => ?_
    exact obeys_ite _ _ _

section Nesting

variable (nested : Nested) [hnst : ∀ id args, Conserves Live (nested id args)]

instance sound_startRun : Conserves Sound (startRun nested) :=
  conserves_of fun m hm => by
    by_cases hst : m.ctx.state = .prepared ∨ m.ctx.state = .suspended
    · have hlive : m.Live := hm.live (by grind)
      rw [startRun_ready nested hst]
      split
      · exact fun _ => abortNow_holding hlive.anchored
      · have hforg : (m.onContext fun c => { c with suspendRequested := false }).Live :=
          hlive.of_stake rfl
        exact (carried_after (activate nested m.ctx.state) hforg).imp fun _ => Live.sound
    · rw [startRun_refused nested (hst ∘ .inl) (hst ∘ .inr)]
      exact fun _ => ⟨hm, rfl⟩

instance sound_endRun : Conserves Sound endRun :=
  conserves_of fun m hm => by
    rw [endRun_eq]
    intro _
    show (concluded m).Sound ∧ (concluded m).others = m.others
    unfold concluded
    split
    · exact abortNow_holding hm.anchored
    · exact ⟨hm.of_stake rfl, rfl⟩

instance sound_executeWith (n : Nat) : Conserves Sound (executeWith nested n) := by
  refine .bind fun _ => conserves_of fun m hm => ?_
  show Carried Sound m
      ((if m.ctx.state = .active then steps nested n >>= fun _ => endRun else endRun) m)
  split
  · rename_i hact
    have hsteps := carried_after (steps nested n) (hm.live (.inr (.inl hact)))
    exact hsteps.bind (fun _ => Live.sound) fun _ m' hm' => carried_after endRun hm'.sound
  · exact carried_after endRun hm

end Nesting

instance sound_requireIdle : Conserves Sound requireIdle := by
  have : Conserves Sound (modify Machine.applyAbort : Exec RequestError PUnit) := by
    refine conserves_modify fun m hm => ?_
    unfold applyAbort
    split
    · exact abortNow_holding (m := m.onContext fun c => { c with abortRequested := false }) hm.anchored
    · exact ⟨hm, rfl⟩
  exact obeys_bind _ _

theorem leaveRun_vacant (h : m.Sound) :
    ∃ m', leaveRun m = .ok () m' ∧ m'.Vacant ∧ m'.others = m.others := by
  refine ⟨_, leaveRun_eq m, ?_⟩
  split
  · exact releaseRun_holding h
  · rename_i hfresh
    obtain ⟨hmod, hfrs⟩ := h.fresh (Decidable.not_not.mp hfresh)
    exact ⟨⟨hmod, hfrs⟩, rfl⟩

instance stake_layoutEntry (f : Func) : Keeps stake (layoutEntry f) :=
  keeps_layoutEntry (fun _ _ => rfl) (fun _ _ _ => rfl) fun m =>
    stake_of_standing (standing_of_bearing (m.bearing_clearObjectVars f))

theorem layoutEntry_ok (f : Func) (m : Machine) (h : Settled (layoutEntry f m)) :
    ∃ m', layoutEntry f m = .ok () m' := by
  revert h
  refine bind_cases (Q := fun r => Settled r → ∃ m', r = .ok () m') ?_ ?_
  · intro _ m1 _
    -- The stack is there; what is left to be seen is that it has room for the arguments.
    show Settled ((ensure _ >>= _ : Exec RequestError Unit) _) →
        ∃ m', (ensure _ >>= _ : Exec RequestError Unit) _ = .ok () m'
    refine bind_cases (Q := fun r => Settled r → ∃ m', r = .ok () m') ?_ ?_
    · intro _ m2 _ _
      exact ⟨_, rfl⟩
    · intro stop m2 hstop
      rw [ensure_error hstop]
      exact False.elim
  · intro stop m1 hstop
    rw [wordOrStop_error hstop]
    exact False.elim

theorem settle_ok (h : Settled (settle f m)) : ∃ m1, layoutEntry f m = .ok () m1 ∧
      settle f m =
        .ok () ((m1.setModule (liveModuleOf? m1 f)).onContext fun c => c.preparedFor f) := by
  obtain ⟨m1, hlyt⟩ : ∃ m1, layoutEntry f m = .ok () m1 := by
    refine layoutEntry_ok f m ?_
    cases hx : layoutEntry f m with
    | ok _ _ => trivial
    | error stop m1 =>
      have hstop : settle f m = .error stop m1 := by simp only [settle, bind, EStateM.bind, hx]
      rw [hstop] at h
      cases stop <;> exact h
  refine ⟨m1, hlyt, ?_⟩
  rw [settle, bind_of_ok hlyt]
  rfl

theorem settle_carried (h : m.Vacant) (f : Func) : Carried Live m (settle f m) := by
  intro hstl
  obtain ⟨m1, hlyt, hend⟩ := settle_ok hstl
  have hstake : m1.stake = m.stake := Keeps.of_ok hlyt
  have hvac : m1.Vacant := by
    have hcl : m1.ctx.calls = m.ctx.calls := congrArg Stake.calls hstake
    exact ⟨(congrArg Stake.module hstake).trans h.module, hcl ▸ h.frames⟩
  obtain ⟨hanch, hoth⟩ :=
    setModule_holding (liveModuleOf? m1 f) (fun id => built_of_liveModuleOf?) hvac.anchored
  have hheld : ((m1.setModule (liveModuleOf? m1 f)).ctx.preparedFor f).held =
      (m1.setModule (liveModuleOf? m1 f)).ctx.held := by
    rw [setModule_ctx, Context.held, Context.held, hvac.frames]
    rfl
  rw [hend]
  refine ⟨⟨hanch.onContext (fun c => c.preparedFor f) hheld, rfl, ?_⟩, ?_⟩
  · show ContextState.prepared ≠ .uninitialized
    decide
  · rw [← others_of_stake hstake, ← hoth]
    exact others_onContext _ (fun c => c.preparedFor f) hheld

instance sound_prepareFunction (f : Func) : Conserves Sound (prepareFunction f) := by
  refine .bind fun _ => ?_
  refine .bind fun g => conserves_of fun m hm => ?_
  obtain ⟨m', hleave, hvac, hoth⟩ := leaveRun_vacant hm
  rw [bind_of_ok hleave]
  exact ((settle_carried hvac g).imp fun _ => Live.sound).from hoth

instance sound_prepare (id : FunctionId) : Conserves Sound (prepare id) := obeys_bind _ _

instance sound_unprepare : Conserves Sound unprepare := by
  refine .bind fun _ => conserves_of fun m hm => ?_
  show Carried Sound m ((if m.ctx.state ≠ .uninitialized then _ else _ : Exec RequestError Unit) m)
  split
  · intro _
    obtain ⟨hvac, hoth⟩ := releaseRun_holding hm
    refine ⟨⟨hvac.anchored, fun _ => ⟨hvac.frames, ?_⟩, fun _ => ⟨hvac.module, hvac.frames⟩⟩, hoth⟩
    show ContextState.uninitialized ≠ .prepared ∧ ContextState.uninitialized ≠ .active ∧
        ContextState.uninitialized ≠ .suspended
    decide
  · exact fun _ => ⟨hm, rfl⟩

instance sound_abort : Conserves Sound (abort : Exec ε Unit) :=
  conserves_of fun m hm => by
    show Carried Sound m ((if m.ctx.state = .suspended then _ else _ : Exec ε Unit) m)
    split
    · exact fun _ =>
        abortNow_holding (m := m.onContext fun c => { c with abortRequested := false }) hm.anchored
    · exact fun _ => ⟨hm.of_stake rfl, rfl⟩

theorem sound_new (e : Engine) (limit : UInt32) :
    Machine.Sound { engine := e, ctx := Context.new limit } where
  anchored id hid := by simp [Context.held, Context.new] at hid
  idle _ := by simp [Context.new]
  fresh _ := by simp [Context.new]

theorem stake_tellAll (m : Machine) (events : List Event) :
    (m.tellAll events).stake = m.stake :=
  List.foldlRecOn events _ (motive := fun i : Machine => i.stake = m.stake) rfl fun _ hi _ _ => hi

/-- A context that was made for some steps is let go, and with it all that it held. -/
theorem inNewContext_refs (report : Except RequestError α → List Event) (x : Exec RequestError α)
    [hx : Conserves Sound x] (m : Machine) (hstl : Settled ((inNewContext report x : Exec ε _) m))
    (id : ModuleId) :
    ((inNewContext report x : Exec ε _).after m).engine.contextRefs id =
      m.engine.contextRefs id := by
  have hnew : m.engine.newMachine.Sound := sound_new m.engine _
  have hrun := carried_after x hnew
  have hleft (i : Machine) (events : List Event) (hi : i.Sound) :
      (i.tellAll events).drop.engine.contextRefs id = i.others id := by
    have htold := stake_tellAll i events
    rw [drop_holding (hi.of_stake htold), others_of_stake htold]
  have hbegin : m.engine.newMachine.others id = m.engine.contextRefs id := Vacant.others_eq ⟨rfl, rfl⟩ id
  unfold after inNewContext at *
  cases h : x m.engine.newMachine with
  | ok a i =>
    rw [h] at hrun
    obtain ⟨hi, hoth⟩ := hrun trivial
    rw [← hbegin, ← hoth]
    exact hleft i (report (.ok a)) hi
  | error stop i =>
    rw [h] at hrun hstl
    cases stop with
    | cause e =>
      obtain ⟨hi, hoth⟩ := hrun trivial
      rw [← hbegin, ← hoth]
      exact hleft i (report (.error e)) hi
    | overflow => cases hstl
    | outOfFuel => cases hstl

instance live_inNewContext (report : Except RequestError α → List Event) (x : Exec RequestError α)
    [Keeps Machine.catalog x] [Conserves Sound x] :
    Conserves Live (inNewContext report x : Exec ε _) :=
  conserves_of fun m hm hstl => by
    have hrefs := inNewContext_refs report x m hstl
    have hout := (keeps_inNewContext (ε := ε) report x).view_after m
    have hctx := (keeps_ctx_inNewContext (ε := ε) report x).view_after m
    change Live ((inNewContext report x : Exec ε _).after m) ∧
        ((inNewContext report x : Exec ε _).after m).others = m.others
    refine ⟨⟨fun id hid => ?_, hctx ▸ hm.cleanup, hctx ▸ hm.begun⟩, ?_⟩
    · rw [hctx] at hid
      obtain ⟨g, hg⟩ := hm.anchored id hid
      exact built?_of_outline hout hg
    · funext id
      rw [others, others, hrefs, hctx]

instance live_runNested (execute : Exec RequestError Outcome) [Keeps Machine.catalog execute]
    [Conserves Sound execute] (id : FunctionId) (args : List UInt32) :
    Conserves Live (runNested execute id args) := by
  have : Conserves Sound (runFunction execute id args) := obeys_bind _ _
  refine .bind fun r => ?_
  cases r <;> infer_instance

instance sound_execute (n : Nat) : Conserves Sound (execute n) := by
  induction n with
  | zero => exact sound_of_stake (throw .outOfFuel)
  | succ n ih => exact sound_executeWith (runNested (execute n)) n

end ScriptVm.Exec
