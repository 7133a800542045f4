import ScriptVm.Proofs.Execution.Runs

namespace ScriptVm.Exec

variable {ε α : Type} {hosts1 hosts2 : List (FunctionId × HostBody)} {m : Machine} {r : Requests}

instance deaf_setState (state : ContextState) :
    Deaf (modifyCtx fun c => { c with state } : Exec ε Unit) :=
  misses_modifyCtx fun _ _ => rfl

instance deaf_clear (f : Func) : Deaf (modify fun m => m.clearObjectVars f : Exec ε PUnit) :=
  misses_modify fun m g => m.guised_clearObjectVars g f

instance deaf_raise (fault : Fault) : Deaf (modify fun m => m.raise fault : Exec ε PUnit) :=
  misses_modify fun m g => m.guised_raise g fault

instance deaf_saveCaller (caller : Func) (block : Nat) (module : Option ModuleId) (fp : Pointer) :
    Deaf (saveCaller caller block module fp) := by
  have hhold : Deaf (modify fun m => m.holdModule module : Exec Fault PUnit) :=
    misses_modify fun m g => m.guised_holdModule g module
  refine .bind fun _ => ?_
  exact misses_modifyCtx fun _ _ => rfl

instance deaf_beginCallee (callee : Func) (fp : Pointer) : Deaf (beginCallee callee fp) := by
  have hbegin :
      Deaf (modifyCtx fun c => { c with pc := 0, function := some callee } : Exec Fault Unit) :=
    misses_modifyCtx fun _ _ => rfl
  exact misses_bind _ _

instance deaf_callScript (callee : Func) : Deaf (callScript callee) := by
  refine misses_ctx (fun _ _ => rfl) fun c => ?_
  refine .bind fun fp => ?_
  refine misses_ctx (fun _ _ => rfl) fun c' => ?_
  refine .bind fun caller => ?_
  exact misses_get (fun _ _ => rfl) fun m => misses_bind _ _

instance deaf_returnFrom (words : Nat) : Deaf (returnFrom words) := by
  refine misses_ctx (fun _ _ => rfl) fun c => ?_
  cases c.calls.pop? with
  | none => exact misses_pure false
  | some popped =>
    have hrestore : Deaf (modify fun m => m.restore popped.1 popped.2 : Exec Fault PUnit) :=
      misses_modify fun m g => m.guised_restore g popped.1 popped.2
    refine .bind fun _ => ?_
    exact misses_ctx (fun _ _ => rfl) fun c => misses_bind _ _

instance deaf_jumpBy (offset : Int) : Deaf (jumpBy offset) := by
  have (pc : Nat) : Deaf (modifyCtx fun c => { c with pc } : Exec Fault Unit) :=
    misses_modifyCtx fun _ _ => rfl
  exact misses_ctx (fun _ _ => rfl) fun c => misses_ite _ _ _

instance deaf_simple (i : Instr) : Deaf (simple i) := by
  cases h : i.isJump with
  | false => exact (plain_simple h).toMisses
  | true =>
    cases i with
    | jump offset => exact deaf_jumpBy _
    | branch test offset => exact misses_ctx (fun _ _ => rfl) fun c => misses_ite _ _ _
    | jumpTable var => exact misses_bind _ _
    | _ => cases h

instance deaf_callBoundTo (id : FunctionId) : Deaf (callBoundTo id) :=
  misses_get (fun _ _ => rfl) fun _ => misses_bind _ _

instance deaf_enterConstructor (f : Func) (h : Handle) : Deaf (enterConstructor f h) :=
  misses_bind _ _

/-- The machine when a run is suspended. -/
def paused (m : Machine) : Machine := m.onContext fun c => { c with state := .suspended }

/-- What one of two runs does that begin an instruction at the same machine but for requests, where
the other has the second result: it goes on in the same way, or is suspended where the other is not.
Nothing is said if the other is suspended. -/
inductive Follows (r : Requests) (m : Machine) :
    EStateM.Result (Stop ε) Machine Flow → EStateM.Result (Stop ε) Machine Flow → Prop where
  | same (suspend : Bool) (result : EStateM.Result (Stop ε) Machine Flow) :
    Follows r m (withRequests { r with suspend } result) result
  | pause (suspend : Bool) {m' : Machine} (hout : m'.outline = m.outline)
      (habort : m'.ctx.abortRequested = false) :
    Follows r m (.ok .halt ((paused m').asking { r with suspend })) (.ok .go m')
  | wait (result : EStateM.Result (Stop ε) Machine Flow) {m' : Machine}
      (hstate : m'.ctx.state = .suspended) (habort : m'.ctx.abortRequested = false) :
    Follows r m result (.ok .halt m')

/-- An instruction in which one run may be suspended while the other goes on. -/
class Yields (hosts1 hosts2 : List (FunctionId × HostBody)) (x : Exec Fault Flow) : Prop where
  follows : ∀ m r, m.engine.hosts = hosts2 → r.hosts = hosts1 → Follows r m (x (m.asking r)) (x m)

theorem yields_of_tracks {x : Exec Fault Flow} (h : Tracks hosts1 hosts2 x x) :
    Yields hosts1 hosts2 x where
  follows m r hm hr := by
    obtain ⟨suspend, hx⟩ := h.tracks m r hm hr
    rw [hx]
    exact .same suspend _

instance yields_deaf (x : Exec Fault Flow) [Deaf x] : Yields hosts1 hosts2 x :=
  yields_of_tracks (tracks_deaf x)

instance yields_bind (x : Exec Fault α) (f : α → Exec Fault Flow) [hx : Tracks hosts1 hosts2 x x]
    [hk : Keeps Machine.outline x] [hf : ∀ a, Yields hosts1 hosts2 (f a)] :
    Yields hosts1 hosts2 (x >>= f) where
  follows m r hm hr := by
    obtain ⟨s, hs⟩ := hx.tracks m r hm hr
    simp only [bind, EStateM.bind, hs]
    cases h : x m with
    | error stop m1 => exact .same s (.error stop m1)
    | ok a m1 =>
      have hout : m1.outline = m.outline := hk.of_ok h
      have hfollows := (hf a).follows m1 { r with suspend := s } ((hosts_of_ok h).trans hm) hr
      simp only [withRequests]
      generalize f a (m1.asking { r with suspend := s }) = result1 at hfollows ⊢
      generalize f a m1 = result2 at hfollows ⊢
      cases hfollows with
      | same suspend => exact .same suspend result2
      | pause suspend hout1 habt => exact .pause suspend (hout1.trans hout) habt
      | wait _ hst habt => exact .wait result1 hst habt

instance yields_ite (p : Prop) [Decidable p] (x y : Exec Fault Flow) [Yields hosts1 hosts2 x]
    [Yields hosts1 hosts2 y] : Yields hosts1 hosts2 (if p then x else y) := by
  split <;> infer_instance

theorem yields_engine {f : Engine → Exec Fault Flow} (h : ∀ e r, f (Engine.asking e r) = f e)
    (hf : ∀ e, Yields hosts1 hosts2 (f e)) : Yields hosts1 hosts2 (engine >>= f) where
  follows m r hm hr := by
    show Follows r m (f (m.engine.asking r) (m.asking r)) (f m.engine m)
    rw [h]
    exact (hf m.engine).follows m r hm hr

instance yields_checkInterrupt : Yields hosts1 hosts2 checkInterrupt where
  follows m r _ _ := by
    have hask : (m.asking r).ctx.interruptRequested = (r.suspend || m.ctx.abortRequested) := rfl
    rw [checkInterrupt_eq, checkInterrupt_eq, hask]
    cases habt : m.ctx.abortRequested with
    | true =>
      have hintr : m.ctx.interruptRequested = true := by simp [Context.interruptRequested, habt]
      rw [hintr, Bool.or_true]
      exact .same r.suspend (.ok .halt (paused m))
    | false =>
      have hintr : m.ctx.interruptRequested = m.ctx.suspendRequested := by
        simp [Context.interruptRequested, habt]
      rw [hintr, Bool.or_false]
      cases m.ctx.suspendRequested with
      | true => exact .wait _ rfl habt
      | false =>
        cases hsusp : r.suspend with
        | true => exact .pause r.suspend rfl habt
        | false => exact .same r.suspend (.ok .go m)

theorem invokeLineCallback_none (h : m.ctx.lineCallback = none) :
    invokeLineCallback m = .ok () m := by
  rw [invokeLineCallback, ctx_bind]
  generalize m.ctx = c at h
  simp only [h]
  rfl

theorem invokeLineCallback_some {callback : LineCallback} (h : m.ctx.lineCallback = some callback) :
    invokeLineCallback m =
      .ok () ((if callback.quiet then m else m.onEngine fun e =>
        e.tell (.line m.ctx.place (m.ctx.vars? 0))).onContext
        fun c => c.heed { callback with calls := callback.calls + 1 }) := by
  rw [invokeLineCallback, ctx_bind]
  simp only [h]
  cases callback with
  | mk calls suspendAt abortAt quiet => cases quiet <;> rfl

instance tracks_invokeLineCallback : Tracks hosts1 hosts2 invokeLineCallback invokeLineCallback where
  tracks m r _ _ := by
    cases h : m.ctx.lineCallback with
    | none =>
      have hask : (m.asking r).ctx.lineCallback = none := by simp [Machine.asking, Context.asking, h]
      rw [invokeLineCallback_none h, invokeLineCallback_none hask]
      exact ⟨r.suspend, rfl⟩
    | some callback =>
      have hask :
          (m.asking r).ctx.lineCallback = some { callback with suspendAt := r.suspendAt } := by
        simp [Machine.asking, Context.asking, h]
      rw [invokeLineCallback_some h, invokeLineCallback_some hask]
      refine ⟨r.suspend || r.suspendAt.contains (callback.calls + 1), ?_⟩
      cases callback with
      | mk calls suspendAt abortAt quiet => cases quiet <;> rfl

instance tracks_tryCatch (x : Exec ε α) (f : Stop ε → Exec ε α) [hx : Tracks hosts1 hosts2 x x]
    [Keeps Machine.catalog x] [hf : ∀ stop, Tracks hosts1 hosts2 (f stop) (f stop)] :
    Tracks hosts1 hosts2 (tryCatch x f) (tryCatch x f) where
  tracks m r hm hr := by
    obtain ⟨s, hs⟩ := hx.tracks m r hm hr
    cases h : x m with
    | ok a m' =>
      rw [h] at hs
      rw [tryCatch_of_ok hs f, tryCatch_of_ok h f]
      exact ⟨s, rfl⟩
    | error stop m' =>
      rw [h] at hs
      rw [tryCatch_of_error hs f, tryCatch_of_error h f]
      have hcat : m'.catalog = m.catalog := Keeps.of_error h
      have hm' : m'.engine.hosts = hosts2 := (Engine.hosts_of_catalog hcat).trans hm
      exact (hf stop).tracks m' { r with suspend := s } hm' hr

instance tracks_raising (ended : α) (x : Exec Fault α) [hx : Tracks hosts1 hosts2 x x] :
    Tracks hosts1 hosts2 (raising ended x) (raising ended x) where
  tracks m r hm hr := by
    obtain ⟨s, hs⟩ := hx.tracks m r hm hr
    refine ⟨s, ?_⟩
    rw [raising, raising, hs]
    cases x m with
    | ok a m' => rfl
    | error stop m' =>
      cases stop with
      | cause fault =>
        exact congrArg (EStateM.Result.ok ended) (m'.asking_raise { r with suspend := s } fault)
      | overflow => rfl
      | outOfFuel => rfl

section Instructions

variable (nested : Nested) [∀ id args,
    Keeps Machine.outline (nested id args)] (hsame : SameHosts hosts1 hosts2)
  (hruns : ∀ h ∈ hosts2, RunsTrack hosts1 hosts2 nested h.2)

include hsame hruns

theorem tracks_runConstructor (f : Func) (h : Handle) :
    Tracks hosts1 hosts2 (runConstructor nested f h) (runConstructor nested f h) := by
  have hcall := tracks_callHost nested f (some h) hsame hruns
  refine @tracks_bind _ _ _ _ _ _ _ _ _ (@tracks_tryCatch _ _ _ _ _ _ _ _ fun stop => ?_) _
    ⟨fun m => (Obeys.holds m).handled (fun e => ?_) ⟨rfl, rfl⟩⟩
  · cases stop <;> infer_instance
  · exact obeys_bind _ _

theorem yields_callHostFrom (f : Func) : Yields hosts1 hosts2 (callHostFrom nested f) := by
  have hcall := tracks_callHost nested f none hsame hruns
  exact yields_bind _ _

theorem yields_exec (i : Instr) : Yields hosts1 hosts2 (exec nested i) := by
  have hhost (f : Func) := yields_callHostFrom nested hsame hruns f
  cases i with
  | callMethod id =>
    refine @yields_bind _ _ _ _ _ _ _ fun declared => ?_
    refine @yields_bind _ _ _ _ _ _ _ fun bits => ?_
    refine @yields_bind _ _ _ _ _ _ _ fun object => ?_
    exact yields_engine (fun _ _ => rfl) fun e => yields_bind _ _
  | alloc type constructor =>
    have hctor (f : Func) (h : Handle) := tracks_runConstructor nested hsame hruns f h
    refine yields_engine (fun _ _ => rfl) fun e => ?_
    refine @yields_bind _ _ _ _ _ _ _ fun objectType => ?_
    refine @yields_bind _ _ _ _ _ _ _ fun h => ?_
    refine @yields_ite _ _ _ _ _ _ _ ?_
    exact yields_bind _ _
  | callHost id | suspend => exact yields_bind _ _
  | _ =>
    unfold exec
    infer_instance

omit [∀ id args, Keeps Machine.outline (nested id args)] hsame hruns in
theorem follows_raising {x : Exec Fault Flow} {m1 m2 : Machine} (h : Follows r m (x m1) (x m2)) :
    Follows r m (raising .halt x m1) (raising .halt x m2) := by
  rw [raising, raising]
  generalize x m1 = result1 at h ⊢
  generalize x m2 = result2 at h ⊢
  cases h with
  | pause suspend hout habt => exact .pause suspend hout habt
  | wait _ hst habt => exact .wait _ hst habt
  | same suspend =>
    cases result2 with
    | ok flow m' => exact .same suspend (.ok flow m')
    | error stop m' =>
      cases stop with
      | cause fault =>
        have hraise := Machine.asking_raise m' { r with suspend } fault
        show Follows r m (.ok .halt ((m'.asking { r with suspend }).raise fault))
            (.ok .halt (m'.raise fault))
        rw [hraise]
        exact .same suspend (.ok .halt (m'.raise fault))
      | overflow => exact .same suspend (.error .overflow m')
      | outOfFuel => exact .same suspend (.error .outOfFuel m')

theorem step_follows (hm : m.engine.hosts = hosts2) (hr : r.hosts = hosts1) :
    Follows r (m.onContext Context.advance) (step nested (m.asking r)) (step nested m) := by
  cases hfetch : fetch? m.ctx with
  | none =>
    have hask : fetch? (m.asking r).ctx = none := hfetch
    have hraise := Machine.asking_raise (m.onContext Context.advance) r .badCode
    rw [step_no_instr nested hfetch, step_no_instr nested hask]
    exact hraise ▸ .same r.suspend (.ok .halt ((m.onContext Context.advance).raise .badCode))
  | some i =>
    have hask : fetch? (m.asking r).ctx = some i := hfetch
    have hexec := (yields_exec nested hsame hruns i).follows (m.onContext Context.advance) r hm hr
    rw [step_eq nested hfetch, step_eq nested hask]
    exact follows_raising hexec

end Instructions

theorem tracks_ctx {f : Context → Exec ε α} (h : ∀ c r, f (Context.asking c r) = f c)
    (hf : ∀ c, Tracks hosts1 hosts2 (f c) (f c)) : Tracks hosts1 hosts2 (ctx >>= f) (ctx >>= f) where
  tracks m r hm hr := by
    show ∃ suspend, f (m.ctx.asking r) (m.asking r) = withRequests { r with suspend } (f m.ctx m)
    rw [h]
    exact (hf m.ctx).tracks m r hm hr

theorem tracks_get {f : Machine → Exec ε α} (h : ∀ m r, f (Machine.asking m r) = f m)
    (hf : ∀ m, Tracks hosts1 hosts2 (f m) (f m)) : Tracks hosts1 hosts2 (get >>= f) (get >>= f) where
  tracks m r hm hr := by
    show ∃ suspend, f (m.asking r) (m.asking r) = withRequests { r with suspend } (f m m)
    rw [h]
    exact (hf m).tracks m r hm hr

instance tracks_forgetSuspend :
    Tracks hosts1 hosts2 (modifyCtx fun c => { c with suspendRequested := false } : Exec ε Unit)
      (modifyCtx fun c => { c with suspendRequested := false }) where
  tracks _ _ _ _ := ⟨false, rfl⟩

instance deaf_forgetAbort :
    Deaf (modifyCtx fun c => { c with abortRequested := false } : Exec ε Unit) :=
  misses_modifyCtx fun _ _ => rfl

instance deaf_abortNow : Deaf (modify Machine.abortNow : Exec ε PUnit) :=
  misses_modify Machine.guised_abortNow

instance deaf_beginMethod (f : Func) : Deaf (beginMethod f) := by
  have hmod : Deaf (modify fun m => m.setModule (liveModuleOf? m f) : Exec RequestError PUnit) :=
    misses_modify fun m g => m.guised_setModule g (liveModuleOf? m f)
  have hsp :
      Deaf (modifyCtx fun c => { c with sp := { c.fp with offset := c.fp.offset - f.locals } } :
      Exec RequestError Unit) := misses_modifyCtx fun _ _ => rfl
  have hfn : Deaf (modifyCtx fun c => { c with function := some f } : Exec RequestError Unit) :=
    misses_modifyCtx fun _ _ => rfl
  refine .bind fun _ => ?_
  refine .bind fun _ => ?_
  exact misses_ctx (fun _ _ => rfl) fun c => misses_ite _ _ _

instance deaf_endRun : Deaf endRun := by
  refine misses_ctx (fun _ _ => rfl) fun c => ?_
  refine .bind fun _ => ?_
  have houtc : Deaf (do return outcomeOf (← ctx).state : Exec RequestError Outcome) :=
    misses_ctx (fun _ _ => rfl) fun _ => misses_pure _
  exact misses_ctx (fun _ _ => rfl) fun c' => misses_ite _ _ _

section Starting

variable (nested : Nested) [∀ id args,
    Keeps Machine.outline (nested id args)] (hsame : SameHosts hosts1 hosts2)
  (hruns : ∀ h ∈ hosts2, RunsTrack hosts1 hosts2 nested h.2)

include hsame hruns

theorem tracks_enterHost (f : Func) :
    Tracks hosts1 hosts2 (enterHost nested f) (enterHost nested f) := by
  have hcall := tracks_callHost nested f none hsame hruns
  have hsp : Deaf (modifyCtx fun c => { c with sp := c.fp } : Exec Fault Unit) :=
    misses_modifyCtx fun _ _ => rfl
  have hfinish : Deaf (modifyCtx fun c => { c with state := .finished } : Exec Fault Unit) :=
    misses_modifyCtx fun _ _ => rfl
  exact tracks_raising _ _

theorem tracks_enter : Tracks hosts1 hosts2 (enter nested) (enter nested) := by
  have hhost (f : Func) := tracks_enterHost nested hsame hruns f
  have hset (f : Func) :
      Deaf (modifyCtx fun c => { c with function := some f } : Exec RequestError Unit) :=
    misses_modifyCtx fun _ _ => rfl
  have hmeth (f : Func) : Tracks hosts1 hosts2 (enterMethod nested f) (enterMethod nested f) := by
    refine tracks_get (fun _ _ => rfl) fun m => ?_
    cases (m.handleAt? m.ctx.fp).bind (m.engine.resolveMethod? f) <;> infer_instance
  refine tracks_ctx (fun _ _ => rfl) fun c => ?_
  cases c.function with
  | none => infer_instance
  | some f =>
    dsimp only
    cases f.kind <;> infer_instance

theorem tracks_activate (state : ContextState) :
    Tracks hosts1 hosts2 (activate nested state) (activate nested state) := by
  have henter := tracks_enter nested hsame hruns
  have hfinish : Deaf (do
      if (← ctx).state = .active ∧ (← ctx).function.isNone then
        modifyCtx fun c => { c with state := .finished } : Exec RequestError Unit) := by
    refine misses_ctx (fun _ _ => rfl) fun c => ?_
    exact misses_ctx (fun _ _ => rfl) fun c' => misses_ite _ _ _
  exact tracks_bind _ _ _ _

theorem tracks_startRun : Tracks hosts1 hosts2 (startRun nested) (startRun nested) := by
  have hactivate (state : ContextState) := tracks_activate nested hsame hruns state
  have hbegin (state : ContextState) :
      Tracks hosts1 hosts2 (beginRun nested state) (beginRun nested state) := by
    refine @tracks_bind _ _ _ _ _ _ _ _ _ _ (fun _ => ?_) _
    exact tracks_ctx (fun _ _ => rfl) fun c => tracks_ite _ _ _ _ _
  exact tracks_ctx (fun _ _ => rfl) fun c => tracks_ite _ _ _ _ _

end Starting

theorem asking_same {e : Engine} (h : e.hosts = r.hosts) : e.asking r = e := by
  rw [Engine.asking, ← h]

instance tracks_inNewContext {hosts : List (FunctionId × HostBody)}
    (report : Except RequestError α → List Event) (x : Exec RequestError α)
    [hx : Keeps Machine.catalog x] :
    Tracks hosts hosts (inNewContext report x : Exec ε _) (inNewContext report x) where
  tracks m r hm hr := by
    have heng : (m.asking r).engine = m.engine := asking_same (hm.trans hr.symm)
    have hleft {e : Engine} (he : e.catalog = m.engine.catalog) :
        ({ m.asking r with engine := e } : Machine) =
          ({ m with engine := e } : Machine).asking r := by
      have hsame := asking_same ((Engine.hosts_of_catalog he).trans (hm.trans hr.symm))
      simp only [Machine.asking, hsame]
    have hkept := hx.view_after m.engine.newMachine
    rw [after] at hkept
    refine ⟨r.suspend, ?_⟩
    unfold inNewContext
    rw [heng]
    cases hrun : x m.engine.newMachine with
    | ok a i =>
      rw [hrun] at hkept
      exact congrArg (EStateM.Result.ok (Except.ok a))
        (hleft ((Machine.catalog_drop _).trans ((catalog_tellAll i _).trans hkept)))
    | error stop i =>
      rw [hrun] at hkept
      cases stop with
      | cause e =>
        exact congrArg (EStateM.Result.ok (Except.error e))
          (hleft ((Machine.catalog_drop _).trans ((catalog_tellAll i _).trans hkept)))
      | overflow => exact congrArg (EStateM.Result.error Stop.overflow) (hleft hkept)
      | outOfFuel => exact congrArg (EStateM.Result.error Stop.outOfFuel) (hleft hkept)

/-- With the same host functions on both sides the runs that they start do the same. -/
theorem runsTrack_same (hosts : List (FunctionId × HostBody)) (n : Nat) (body : HostBody) :
    RunsTrack hosts hosts (runNested (execute n)) body := by
  intro id args gives _
  refine @tracks_bind _ _ _ _ _ _ _ _ _ _ (fun r => ?_) _
  cases r <;> infer_instance

end ScriptVm.Exec
