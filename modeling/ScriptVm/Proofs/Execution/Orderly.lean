import ScriptVm.Proofs.Execution.Causes

namespace ScriptVm

namespace Context

variable {c : Context}

/-- Nothing is left of an exception or of a call of the host, and frames are to be cleaned. -/
structure Clear (c : Context) : Prop where
  exception : c.exception = none
  host : c.hostFunction = none
  pending : c.pendingException = none
  cleanup : c.needsCleanup = true

/-- In the middle of a run. -/
structure Afoot (c : Context) : Prop extends Clear c where
  active : c.state = .active
  function : c.function.isSome = true

/-- After an instruction without a fault: the run goes on or waits inside a function, or it has left
the outermost one. -/
structure Stepped (flow : Exec.Flow) (c : Context) : Prop extends Clear c where
  place : (flow = .go ∧ c.state = .active ∨ c.state = .suspended) ∧ c.function.isSome = true ∨
    c.state = .finished ∧ c.calls.frames = []

/-- What a context records agrees with its state. -/
structure Orderly (c : Context) : Prop where
  exception : c.exception.isSome = true ↔ c.state = .exception
  flat : c.state = .uninitialized ∨ c.state = .prepared ∨ c.state = .finished ∨ c.state = .aborted →
    c.calls.frames = []
  host : c.hostFunction = none
  pending : c.pendingException = none
  vacant : c.state = .uninitialized → c.module = none ∧ c.function = none ∧
    c.objectRegister = none ∧ c.stack.blocks = #[]
  cleanup : c.needsCleanup = false ↔ c.state = .uninitialized ∨ c.state = .aborted
  function :
    c.state = .prepared ∨ c.state = .active ∨ c.state = .suspended → c.function.isSome = true

/-- Orderly, and a run was begun. -/
structure Begun (c : Context) : Prop extends Orderly c where
  not_fresh : c.state ≠ .uninitialized
  not_ready : c.state ≠ .prepared

theorem Orderly.clear (h : c.Orderly)
    (hst : c.state = .prepared ∨ c.state = .active ∨ c.state = .suspended) : c.Clear where
  exception := by
    rw [← Option.not_isSome_iff_eq_none, h.exception]
    obtain hs | hs | hs := hst <;> rw [hs] <;> decide
  host := h.host
  pending := h.pending
  cleanup := by
    rw [← Bool.not_eq_false, h.cleanup]
    obtain hs | hs | hs := hst <;> rw [hs] <;> decide

theorem Orderly.afoot (h : c.Orderly) (hact : c.state = .active) : c.Afoot :=
  { h.clear (.inr (.inl hact)) with active := hact, function := h.function (.inr (.inl hact)) }

theorem Afoot.stepped (h : c.Afoot) : c.Stepped .go :=
  { h.toClear with place := .inl ⟨.inl ⟨rfl, h.active⟩, h.function⟩ }

theorem Stepped.begun {flow : Exec.Flow} (h : c.Stepped flow) : c.Begun := by
  have hst : c.state = .active ∨ c.state = .suspended ∨ c.state = .finished := by
    obtain ⟨⟨-, hs⟩ | hs, -⟩ | ⟨hs, -⟩ := h.place <;> simp [hs]
  refine ⟨⟨?_, fun hflat => ?_, h.host, h.pending, fun hfresh => ?_, ?_, fun hbusy => ?_⟩, ?_, ?_⟩
  · rw [h.exception]
    obtain hs | hs | hs := hst <;> simp [hs]
  · obtain ⟨⟨-, hs⟩ | hs, -⟩ | ⟨-, hcl⟩ := h.place
    · simp [hs] at hflat
    · simp [hs] at hflat
    · exact hcl
  · obtain hs | hs | hs := hst <;> simp [hs] at hfresh
  · rw [h.cleanup]
    obtain hs | hs | hs := hst <;> simp [hs]
  · obtain ⟨-, hf⟩ | ⟨hs, -⟩ := h.place
    · exact hf
    · simp [hs] at hbusy
  · obtain hs | hs | hs := hst <;> simp [hs]
  · obtain hs | hs | hs := hst <;> simp [hs]

theorem Stepped.halted (h : c.Stepped .halt) : c.state ≠ .active := by
  obtain ⟨⟨hflow, -⟩ | hs, -⟩ | ⟨hs, -⟩ := h.place
  · cases hflow
  · simp [hs]
  · simp [hs]

theorem Clear.raised (h : c.Clear) (exception : ScriptException) :
    Begun { c with exception := some exception, state := .exception } where
  exception := by simp
  flat := by simp
  host := h.host
  pending := h.pending
  vacant := by simp
  cleanup := by simp [h.cleanup]
  function := by simp
  not_fresh := by simp
  not_ready := by simp

end Context

/-- What tells how far a run has come. -/
structure Mark where
  state : ContextState
  function : Option Func
  calls : CallStack
  exception : Option ScriptException
  hostFunction : Option Func
  pendingException : Option String
  needsCleanup : Bool

namespace Machine

variable {m m' : Machine}

def mark (m : Machine) : Mark :=
  { state := m.ctx.state, function := m.ctx.function, calls := m.ctx.calls, exception := m.ctx.exception
    hostFunction := m.ctx.hostFunction, pendingException := m.ctx.pendingException, needsCleanup :=
      m.ctx.needsCleanup }

/-- The mark of a machine that is in no call of the host. -/
def bareMark (m : Machine) : Mark := { m.mark with hostFunction := none, pendingException := none }

theorem bareMark_of_standing (h : m'.standing = m.standing) : m'.bareMark = m.bareMark := by
  have hmark := congrArg (fun s : Standing =>
    (⟨s.state, s.control.function, s.control.calls, s.exception, none, none, s.needsCleanup⟩ : Mark)) h
  exact hmark

theorem mark_of_bearing (h : m'.bearing = m.bearing) : m'.mark = m.mark := by
  have hmark := congrArg (fun b : Bearing =>
    (⟨b.state, b.control.function, b.control.calls, b.exception, b.hostFunction, b.pendingException,
      b.needsCleanup⟩ : Mark)) h
  exact hmark

theorem bareMark_of_clear (h : m.ctx.Clear) : m.bareMark = m.mark := by
  simp only [bareMark, mark, h.host, h.pending]

theorem clear_of_mark (h : m.ctx.Clear) (hsame : m'.mark = m.mark) : m'.ctx.Clear where
  exception := (congrArg Mark.exception hsame).trans h.exception
  host := (congrArg Mark.hostFunction hsame).trans h.host
  pending := (congrArg Mark.pendingException hsame).trans h.pending
  cleanup := (congrArg Mark.needsCleanup hsame).trans h.cleanup

theorem afoot_of_mark (h : m.ctx.Afoot) (hsame : m'.mark = m.mark) : m'.ctx.Afoot :=
  have hfn : m'.ctx.function = m.ctx.function := congrArg Mark.function hsame
  { clear_of_mark h.toClear hsame with
    active := (congrArg Mark.state hsame).trans h.active
    function := hfn ▸ h.function }

/-- What frames leave alone when they are cleaned. -/
def aside (m : Machine) : Option ScriptException × Option Func × Option String :=
  (m.ctx.exception, m.ctx.hostFunction, m.ctx.pendingException)

theorem aside_of_bearing (h : m'.bearing = m.bearing) : m'.aside = m.aside := by
  have haside := congrArg (fun b : Bearing => (b.exception, b.hostFunction, b.pendingException)) h
  exact haside

theorem aside_cleanFrame (m : Machine) : m.cleanFrame.aside = m.aside :=
  aside_of_bearing m.bearing_cleanFrame

theorem aside_cleanStack (m : Machine) : m.cleanStack.aside = m.aside := by
  refine view_cleanStack aside aside_cleanFrame (fun m f calls => ?_) (fun _ => rfl) m
  rw [aside, Exec.restore_ctx]
  rfl

theorem begun_abortNow (h : m.ctx.Clear) : m.abortNow.ctx.Begun := by
  have hst : m.abortNow.ctx.state = .aborted := state_cleanStack _
  have hcl : m.abortNow.ctx.calls = {} := calls_cleanStack _
  have haside : m.abortNow.aside = m.aside := aside_cleanStack _
  have hclup : m.abortNow.ctx.needsCleanup = false := rfl
  have hexc : m.abortNow.ctx.exception = none := (congrArg Prod.fst haside).trans h.exception
  refine ⟨⟨?_, fun _ => ?_, ?_, ?_, fun hfresh => ?_, ?_, fun hbusy => ?_⟩, ?_, ?_⟩
  · simp [hexc, hst]
  · rw [hcl]
  · exact (congrArg (fun a => a.2.1) haside).trans h.host
  · exact (congrArg (fun a => a.2.2) haside).trans h.pending
  · simp [hst] at hfresh
  · simp [hclup, hst]
  · simp [hst] at hbusy
  · simp [hst]
  · simp [hst]

theorem begun_raise (h : m.ctx.Clear) (fault : Fault) : (m.raise fault).ctx.Begun := by
  rw [Exec.raise_ctx]
  exact h.raised _

end Machine

namespace Exec

open Context (Afoot Stepped)

variable {ε α β : Type} {m m' : Machine}

/-- Begun with nothing left behind, the step is over with the mark as it was, also if it faults. -/
def Rule.recovers : Rule where
  Allows e m m' := m.ctx.Clear → e.Settled → m'.mark = m.mark
  refl _ _ _ := rfl
  trans h k hm hstl := (k (Machine.clear_of_mark hm (h hm trivial)) hstl).trans (h hm trivial)
  caught h hm _ := h hm trivial

abbrev Recovers (x : Exec ε α) : Prop := Obeys .recovers x

/-- In the middle of a run the step leads to some kind of context, or to a fault with nothing left
behind. -/
class Leads (Q : α → Context → Prop) (x : Exec ε α) : Prop where
  ok : ∀ {m a m'}, m.ctx.Afoot → x m = .ok a m' → Q a m'.ctx
  cause : ∀ {m e m'}, m.ctx.Afoot → x m = .error (.cause e) m' → m'.ctx.Clear

theorem Recovers.of_ok {x : Exec ε α} [h : Recovers x] {a : α} (hm : m.ctx.Clear)
    (hx : x m = .ok a m') : m'.mark = m.mark := by
  have hrec := h.holds m hm
  rw [hx] at hrec
  exact hrec trivial

theorem Recovers.of_cause {x : Exec ε α} [h : Recovers x] {e : ε} (hm : m.ctx.Clear)
    (hx : x m = .error (.cause e) m') : m'.mark = m.mark := by
  have hrec := h.holds m hm
  rw [hx] at hrec
  exact hrec trivial

instance (priority := low) keeps_mark (x : Exec ε α) [h : Keeps Machine.bearing x] :
    Keeps Machine.mark x :=
  ⟨fun m => Machine.mark_of_bearing (h.view_after m)⟩

instance (priority := low) recovers_of_mark (x : Exec ε α) [h : Keeps Machine.mark x] : Recovers x :=
  ⟨fun m _ _ => h.view_after m⟩

instance (priority := low) afoot_of_recovers (x : Exec ε α) [Recovers x] :
    Leads (fun _ => Afoot) x where
  ok hm hx := Machine.afoot_of_mark hm (Recovers.of_ok hm.toClear hx)
  cause hm hx := Machine.clear_of_mark hm.toClear (Recovers.of_cause hm.toClear hx)

instance stepped_go : Leads Stepped (pure .go : Exec Fault Flow) where
  ok hm hx := by
    cases hx
    exact hm.stepped
  cause _ hx := nomatch hx

instance leads_bind {Q : β → Context → Prop} (x : Exec ε α) (f : α → Exec ε β)
    [hx : Leads (fun _ => Afoot) x] [hf : ∀ a, Leads Q (f a)] : Leads Q (x >>= f) where
  ok hm h := by
    obtain ⟨a, m1, hfst, hrest⟩ := bind_ok h
    exact (hf a).ok (hx.ok hm hfst) hrest
  cause {m e m'} hm := by
    refine bind_cases (Q := fun r => r = .error (.cause e) m' → m'.ctx.Clear)
      (fun a m1 hfst h => ?_) fun stop m1 hfst h => ?_
    · exact (hf a).cause (hx.ok hm hfst) h
    · cases h
      exact hx.cause hm hfst

instance leads_ite {Q : α → Context → Prop} (p : Prop) [Decidable p] (x y : Exec ε α) [Leads Q x]
    [Leads Q y] : Leads Q (if p then x else y) := by
  split <;> infer_instance

instance recovers_placeArgs (callee : Func) : Recovers (placeArgs callee) where
  holds m _ _ := by
    have hmark := congrArg Machine.mark ((keeps_placeArgs callee).view_after m)
    exact hmark

instance afoot_callScript (callee : Func) : Leads (fun _ => Afoot) (callScript callee) := by
  have hsaved {m m1 : Machine} {fp : Pointer} (hm : m.ctx.Afoot)
      (h : placeArgs callee m = .ok fp m1) (caller : Func) (block : Nat)
      (module : Option ModuleId) :
      (m1.saved caller block module fp).ctx.Clear ∧
        (m1.saved caller block module fp).ctx.state = .active := by
    have hplaced := Machine.afoot_of_mark hm (Recovers.of_ok hm.toClear h)
    rw [saved_ctx]
    exact ⟨{ hplaced.toClear with }, hplaced.active⟩
  constructor
  · intro m a m' hm hx
    have hcases := callScript_cases callee m
    rw [hx] at hcases
    cases hcases with
    | @begun _ _ m1 caller h =>
      obtain ⟨hclear, hst⟩ := hsaved hm h caller m.ctx.stack.current (moduleOf? m1 callee)
      refine Machine.afoot_of_mark ?_ (Machine.mark_of_bearing (bearing_entered ..))
      exact ⟨{ hclear with }, hst, rfl⟩
  · intro m e m' hm hx
    have hcases := callScript_cases callee m
    rw [hx] at hcases
    cases hcases with
    | unplaced h => exact Machine.clear_of_mark hm.toClear (Recovers.of_cause hm.toClear h)
    | orphan h => exact Machine.clear_of_mark hm.toClear (Recovers.of_ok hm.toClear h)
    | cramped h => exact (hsaved hm h _ _ _).1

theorem clear_restore (h : m.ctx.Clear) (frame : Frame) (calls : CallStack) :
    (m.restore frame calls).ctx.Clear := by
  rw [restore_ctx]
  exact { h with }

instance stepped_ret (nested : Nested) (words : UInt16) :
    Leads Stepped (exec nested (.ret words)) := by
  constructor
  · intro m flow m' hm hx
    cases hpop : m.ctx.calls.pop? with
    | none =>
      rw [exec_ret_outermost nested words hpop] at hx
      cases hx
      have hfrs : m.ctx.calls.frames = [] := by
        unfold CallStack.pop? at hpop
        split at hpop
        · assumption
        · cases hpop
      exact ⟨{ hm.toClear with }, .inr ⟨rfl, hfrs⟩⟩
    | some popped =>
      obtain ⟨frame, calls⟩ := popped
      have hclear := clear_restore hm.toClear frame calls
      have hrst := restore_ctx m frame calls
      rw [exec_ret_caller nested words hpop] at hx
      split at hx
      · cases hx
        have hst : (m.restore frame calls).ctx.state = .active := by rw [hrst, hm.active]
        have hfn : (m.restore frame calls).ctx.function = some frame.function := by rw [hrst]
        refine ⟨{ hclear with }, .inl ⟨.inl ⟨rfl, hst⟩, ?_⟩⟩
        show (m.restore frame calls).ctx.function.isSome = true
        rw [hfn]
        rfl
      · cases hx
  · intro m e m' hm hx
    cases hpop : m.ctx.calls.pop? with
    | none =>
      rw [exec_ret_outermost nested words hpop] at hx
      cases hx
    | some popped =>
      obtain ⟨frame, calls⟩ := popped
      rw [exec_ret_caller nested words hpop] at hx
      split at hx
      · cases hx
      · cases hx
        exact clear_restore hm.toClear frame calls

instance recovers_jumpBy (offset : Int) : Recovers (jumpBy offset) := by
  have (pc : Nat) : Keeps Machine.mark (modifyCtx fun c => { c with pc } : Exec Fault Unit) :=
    obeys_modifyCtx fun _ => rfl
  exact obeys_bind _ _

instance recovers_simple (i : Instr) : Recovers (simple i) := by
  cases h : i.isJump with
  | false =>
    have := plain_simple h
    infer_instance
  | true =>
    cases i with
    | jump offset => exact recovers_jumpBy _
    | branch | jumpTable => exact obeys_bind _ _
    | _ => cases h

instance recovers_invokeLineCallback : Recovers invokeLineCallback := by
  refine .bind fun c => ?_
  cases c.lineCallback with
  | none => exact recovers_of_mark (pure ())
  | some callback =>
    have (callback : LineCallback) :
        Keeps Machine.mark (modifyCtx fun c => c.heed callback : Exec Fault Unit) :=
      obeys_modifyCtx fun _ => rfl
    infer_instance

instance stepped_checkInterrupt : Leads Stepped checkInterrupt := by
  constructor
  · intro m flow m' hm hx
    rw [checkInterrupt_eq] at hx
    split at hx
    · cases hx
      exact ⟨{ hm.toClear with }, .inl ⟨.inr rfl, hm.function⟩⟩
    · cases hx
      exact hm.stepped
  · intro m e m' _ hx
    rw [checkInterrupt_eq] at hx
    split at hx <;> cases hx

instance calling_bareMark : (Rule.keeps Machine.bareMark).Calling :=
  calling_of_standing Machine.bareMark_of_standing

theorem mark_endCall (call : HostCall) (error : Option String) (m : Machine) :
    ((endCall call error).after m).mark = m.bareMark := by
  let m1 := (m.onContext fun c => { c with hostFunction := none }).releaseArgs call.args 0
    call.function.signature.params
  have hafter : (endCall call error).after m = m1.onContext fun c =>
      { c with pendingException := none } := by
    unfold endCall
    iterate 4 refine (after_bind_of_ok (by rfl) _).trans ?_
    cases error.or m1.ctx.pendingException <;> rfl
  have hrel : m1.mark = (m.onContext fun c => { c with hostFunction := none }).mark :=
    Machine.mark_of_bearing (Machine.bearing_releaseArgs _ _ _ _)
  rw [hafter]
  exact congrArg (fun mark : Mark => { mark with pendingException := none }) hrel

instance sure_attempt (x : Exec Fault α) : Sure (attempt x) :=
  sure_of fun m => by
    unfold attempt
    cases x m with
    | ok a m' => rfl
    | error stop m' => cases stop <;> rfl

instance asking_sure : Rule.sure.Asking where
  asks _ := by simp [Rule.sure]
  tell _ _ := by simp [Rule.sure]
  modify _ _ _ := by simp [Rule.sure]
  newObject := sure_newObject
  addRef := sure_addRef

section Nesting

variable (nested : Nested) [hctx : ∀ id args,
    Keeps Machine.ctx (nested id args)] [hsure : ∀ id args, Sure (nested id args)]

omit hsure in
instance keeps_bareMark_actAll (c : HostCall) (body : HostBody) :
    Keeps Machine.bareMark (actAll nested c body) := by
  have (id : FunctionId) (args : List UInt32) : Keeps Machine.bareMark (nested id args) :=
    (hctx id args).coarser fun c => Machine.bareMark { engine := default, ctx := c }
  exact obeys_actAll nested c body

omit hctx in
instance sure_actAll (c : HostCall) (body : HostBody) : Sure (actAll nested c body) :=
  obeys_actAll_of fun _ _ =>
    obeys_act_of nested c (fun _ => ⟨inferInstance, inferInstance⟩) fun _ _ _ _ =>
    ⟨inferInstance, inferInstance⟩

instance recovers_carryOut (call : HostCall) (body : HostBody) :
    Recovers (carryOut nested call body) where
  holds m hm hstl := by
    let m1 := m.onContext fun c =>
      { c with hostFunction := some call.function, pendingException := none }
    have hrest : carryOut nested call body m = (actAll nested call body >>= endCall call) m1 := rfl
    have hbegun : m1.bareMark = m.mark := Machine.bareMark_of_clear hm
    rw [hrest] at hstl ⊢
    have hnone := Sure.no_cause (x := actAll nested call body) m1
    cases hacts : actAll nested call body m1 with
    | ok error m2 =>
      have hkept : m2.bareMark = m1.bareMark := Keeps.of_ok hacts
      rw [bind_of_ok hacts]
      exact (mark_endCall call error m2).trans (hkept.trans hbegun)
    | error stop m2 =>
      have herr : (actAll nested call body >>= endCall call) m1 = .error stop m2 := by
        simp only [bind, EStateM.bind, hacts]
      rw [herr] at hstl
      rw [hacts] at hnone
      cases stop with
      | cause e => cases hnone
      | overflow | outOfFuel => cases hstl

instance recovers_callHost (f : Func) (this : Option Handle) : Recovers (callHost nested f this) :=
  obeys_bind _ _

instance recovers_runConstructor (f : Func) (h : Handle) : Recovers (runConstructor nested f h) where
  holds m := by
    refine Rule.Holds.bind (((recovers_callHost nested f (some h)).holds m).handled (fun e => ?_)
      ⟨rfl, rfl⟩) fun words m1 _ => ?_
    · exact obeys_bind (Q := .recovers) (abandonNew f.signature.paramWords h) _
    · exact (inferInstance : Recovers (do moveTop words; storeNew (← popAddress) h)).holds m1

instance stepped_callHostFrom (f : Func) : Leads Stepped (callHostFrom nested f) := leads_bind _ _

instance stepped_exec (i : Instr) : Leads Stepped (exec nested i) := by
  cases i with
  | callBound id =>
    have : Leads (fun _ => Afoot) (callBoundTo id) := leads_bind _ _
    exact leads_bind _ _
  | callMethod id => exact leads_bind _ _
  | alloc type constructor =>
    have (f : Func) (h : Handle) : Leads (fun _ => Afoot) (enterConstructor f h) := leads_bind _ _
    refine @leads_bind _ _ _ _ _ _ _ fun e => ?_
    refine @leads_bind _ _ _ _ _ _ _ fun objectType => ?_
    refine @leads_bind _ _ _ _ _ _ _ fun h => ?_
    refine @leads_ite _ _ _ _ _ _ _ _ ?_
    exact leads_bind _ _
  | ret words => exact stepped_ret nested words
  | _ => exact leads_bind _ _

variable {nested}

theorem step_begun {flow : Flow} (h : m.ctx.Orderly) (hact : m.ctx.state = .active)
    (hstep : step nested m = .ok flow m') :
    m'.ctx.Begun ∧ (flow = .halt → m'.ctx.state ≠ .active) := by
  have hafoot : (m.onContext Context.advance).ctx.Afoot :=
    let hm := h.afoot hact
    ⟨{ hm.toClear with }, hm.active, hm.function⟩
  have hraised {m1 : Machine} (hclear : m1.ctx.Clear) (fault : Fault) :
      (m1.raise fault).ctx.Begun ∧ (flow = .halt → (m1.raise fault).ctx.state ≠ .active) :=
    ⟨Machine.begun_raise hclear fault, fun _ => by rw [raise_ctx]; simp⟩
  cases hfetch : fetch? m.ctx with
  | none =>
    rw [step_no_instr nested hfetch] at hstep
    cases hstep
    exact hraised hafoot.toClear _
  | some i =>
    rw [step_eq nested hfetch] at hstep
    obtain hok | ⟨fault, m1, herr, rfl, rfl⟩ := raising_ok hstep
    · have hstepped := (stepped_exec nested i).ok hafoot hok
      exact ⟨hstepped.begun, fun hhalt => (hhalt ▸ hstepped).halted⟩
    · exact hraised ((stepped_exec nested i).cause hafoot herr) fault

theorem steps_begun {n : Nat} {f : Machine} (h : m.ctx.Begun)
    (hsteps : steps nested n m = .ok () f) : f.ctx.Begun ∧ f.ctx.state ≠ .active := by
  induction n generalizing m with
  | zero => cases hsteps
  | succ n ih =>
    by_cases hact : m.ctx.state = .active
    · obtain ⟨flow, m', hstep, hgo, hhalt⟩ := steps_ok hact hsteps
      obtain ⟨hm', hidle⟩ := step_begun h.toOrderly hact hstep
      cases flow with
      | go => exact ih hm' (hgo rfl)
      | halt => exact hhalt rfl ▸ ⟨hm', hidle rfl⟩
    · exact steps_idle hact hsteps ▸ ⟨h, hact⟩

instance (priority := low) begun_of_afoot (x : Exec ε α) [h : Leads (fun _ => Afoot) x] :
    Leads (fun _ => Context.Begun) x where
  ok hm hx := (h.ok hm hx).stepped.begun
  cause hm hx := h.cause hm hx

instance begun_raise (fault : Fault) :
    Leads (fun _ => Context.Begun) (modify fun m => m.raise fault : Exec ε PUnit) where
  ok hm hx := by
    cases hx
    exact Machine.begun_raise hm.toClear fault
  cause _ hx := nomatch hx

instance afoot_setFunction (f : Func) :
    Leads (fun _ => Afoot) (modifyCtx fun c => { c with function := some f } : Exec ε Unit) where
  ok hm hx := by
    cases hx
    exact ⟨{ hm.toClear with }, hm.active, rfl⟩
  cause _ hx := nomatch hx

instance recovers_setModule (f : Func) :
    Recovers (modify fun m => m.setModule (liveModuleOf? m f) : Exec ε PUnit) where
  holds m _ _ := by
    show (m.setModule (liveModuleOf? m f)).mark = m.mark
    rw [Machine.mark, Machine.setModule_ctx]
    rfl

instance recovers_clearObjectVars (f : Func) :
    Recovers (modify fun m => m.clearObjectVars f : Exec ε PUnit) where
  holds m _ _ := Machine.mark_of_bearing (m.bearing_clearObjectVars f)

instance begun_beginMethod (f : Func) : Leads (fun _ => Context.Begun) (beginMethod f) := by
  have : Keeps Machine.mark
      (modifyCtx fun c =>
        { c with sp := { c.fp with offset := c.fp.offset - f.locals } } : Exec RequestError Unit) :=
    obeys_modifyCtx fun _ => rfl
  refine @leads_bind _ _ _ _ _ _ _ fun _ => ?_
  refine @leads_bind _ _ _ _ _ _ _ fun _ => ?_
  refine @leads_bind _ _ _ _ _ _ _ fun c => ?_
  exact leads_ite _ _ _

theorem enterHost_begun {f : Func} (h : m.ctx.Afoot) (hflat : m.ctx.calls.frames = [])
    (hrun : enterHost nested f m = .ok () m') : m'.ctx.Begun := by
  let m1 := m.onContext fun c => { c with sp := c.fp }
  have hm1 : m1.ctx.Clear := { h.toClear with }
  obtain hok | ⟨fault, m2, herr, -, rfl⟩ := raising_ok hrun
  · obtain ⟨words, m2, hcall, hfinish⟩ := bind_ok (x := callHost nested f none) (m := m1) hok
    cases hfinish
    have hmark := Recovers.of_ok hm1 hcall
    have hclear := Machine.clear_of_mark hm1 hmark
    have hcl : m2.ctx.calls = m.ctx.calls := congrArg Mark.calls hmark
    have hstepped : Stepped .halt { m2.ctx with state := .finished } :=
      ⟨{ hclear with }, .inr ⟨rfl, hcl ▸ hflat⟩⟩
    exact hstepped.begun
  · have hcall := bind_cause (x := callHost nested f none) (m := m1) herr
    exact Machine.begun_raise (Machine.clear_of_mark hm1 (Recovers.of_cause hm1 hcall)) fault

theorem enterMethod_begun {declared : Func} (h : m.ctx.Afoot) (hflat : m.ctx.calls.frames = [])
    (hrun : enterMethod nested declared m = .ok () m') : m'.ctx.Begun := by
  obtain ⟨m1, m2, hget, hrun⟩ := bind_ok hrun
  cases hget
  cases hfd : (m.handleAt? m.ctx.fp).bind (m.engine.resolveMethod? declared) with
  | none =>
    simp only [hfd] at hrun
    exact (begun_raise _).ok h hrun
  | some f =>
    simp only [hfd] at hrun
    split at hrun
    · obtain ⟨_, m1, hfn, hrun⟩ := bind_ok hrun
      have hm1 := (afoot_setFunction f).ok h hfn
      cases hfn
      exact enterHost_begun hm1 hflat hrun
    · exact (begun_beginMethod f).ok h hrun

theorem enter_begun (h : m.ctx.Afoot) (hflat : m.ctx.calls.frames = [])
    (hrun : enter nested m = .ok () m') : m'.ctx.Begun := by
  replace hrun := ctx_ok hrun
  obtain ⟨f, hf⟩ := Option.isSome_iff_exists.mp h.function
  cases hkind : f.kind with
  | virtual | interface =>
    simp only [hf, hkind] at hrun
    exact enterMethod_begun h hflat hrun
  | host =>
    simp only [hf, hkind] at hrun
    exact enterHost_begun h hflat hrun
  | script | imported =>
    simp only [hf, hkind] at hrun
    cases hrun
    exact h.stepped.begun

theorem activate_begun (h : m.ctx.Orderly) (hprep : m.ctx.state = .prepared)
    (hrun : activate nested .prepared m = .ok () m') : m'.ctx.Begun := by
  obtain ⟨_, m1, hact, hrun⟩ := bind_ok hrun
  cases hact
  obtain ⟨_, m2, henter, hrun⟩ := bind_ok (x := enter nested) hrun
  have hclear := h.clear (.inl hprep)
  have hm2 : m2.ctx.Begun := by
    refine enter_begun (m := m.onContext fun c => { c with state := .active }) ⟨{ hclear with },
      rfl, ?_⟩ ?_ henter
    · exact h.function (.inl hprep)
    · exact h.flat (.inr (.inl hprep))
  have hentd : ¬ (m2.ctx.state = .active ∧ m2.ctx.function.isNone = true) := by
    rintro ⟨hact, hnone⟩
    have hsome := hm2.function (.inr (.inl hact))
    rw [Option.isNone_iff_eq_none.mp hnone] at hsome
    cases hsome
  change (if m2.ctx.state = .active ∧
      m2.ctx.function.isNone = true then _ else _ : Exec RequestError Unit) m2 = _ at hrun
  rw [if_neg hentd] at hrun
  cases hrun
  exact hm2

theorem startRun_begun (h : m.ctx.Orderly) (hrun : startRun nested m = .ok () m') :
    m'.ctx.Begun := by
  by_cases hsus : m.ctx.state = .suspended
  · have hclear := h.clear (.inr (.inr hsus))
    have hfn := h.function (.inr (.inr hsus))
    rw [startRun_suspended nested hsus] at hrun
    cases hrun
    split
    · exact Machine.begun_abortNow { hclear with }
    · have hact : (resumed m).ctx.state = .active := by
        show (if m.ctx.function.isNone then _ else _) = _
        rw [if_neg (by simpa [Option.isSome_iff_ne_none] using hfn)]
      have hstepped : (resumed m).ctx.Stepped .go := ⟨{ hclear with }, .inl ⟨.inl ⟨rfl, hact⟩, hfn⟩⟩
      exact hstepped.begun
  by_cases hprep : m.ctx.state = .prepared
  · have hclear := h.clear (.inl hprep)
    rw [startRun_prepared nested hprep] at hrun
    split at hrun
    · cases hrun
      exact Machine.begun_abortNow { hclear with }
    · exact activate_begun (m := m.onContext fun c => { c with suspendRequested := false })
        { h with } hprep hrun
  · rw [startRun_refused nested hprep hsus] at hrun
    cases hrun

end Nesting

theorem concluded_begun (h : m.ctx.Begun) (hidle : m.ctx.state ≠ .active) :
    (concluded m).ctx.Begun ∧ (concluded m).ctx.state ≠ .active := by
  unfold concluded
  split
  · rename_i habt
    have hclear := h.clear (.inr (.inr habt.2))
    have haborted := Machine.begun_abortNow
      (m := m.onContext fun c => { c with abortRequested := false }) { hclear with }
    have hst :
        (m.onContext fun c => { c with abortRequested := false }).abortNow.ctx.state = .aborted :=
      Machine.state_cleanStack _
    exact ⟨haborted, by simp [hst]⟩
  · exact ⟨{ h with }, hidle⟩

end Exec

def Outcome.state : Outcome → ContextState
  | .finished => .finished
  | .suspended => .suspended
  | .exception => .exception
  | .aborted => .aborted

namespace Exec

theorem state_outcomeOf {c : Context} (h : c.Begun) (hidle : c.state ≠ .active) :
    (outcomeOf c.state).state = c.state := by
  cases hs : c.state with
  | uninitialized => exact absurd hs h.not_fresh
  | prepared => exact absurd hs h.not_ready
  | active => exact absurd hs hidle
  | finished | suspended | exception | aborted => rfl

theorem endRun_begun {m m' : Machine} {outcome : Outcome} (h : m.ctx.Begun)
    (hidle : m.ctx.state ≠ .active) (hrun : endRun m = .ok outcome m') :
    m'.ctx.Begun ∧ m'.ctx.state ≠ .active ∧ m'.ctx.state = outcome.state := by
  rw [endRun_eq] at hrun
  cases hrun
  obtain ⟨hbegun, hended⟩ := concluded_begun h hidle
  exact ⟨hbegun, hended, (state_outcomeOf hbegun hended).symm⟩

/-- However a run ends, the context is in order and the outcome names its state. -/
theorem execute_begun {n : Nat} {m m' : Machine} {outcome : Outcome} (h : m.ctx.Orderly)
    (hrun : execute n m = .ok outcome m') :
    m'.ctx.Begun ∧ m'.ctx.state ≠ .active ∧ m'.ctx.state = outcome.state := by
  cases n with
  | zero => cases hrun
  | succ n =>
    obtain ⟨_, m1, hstart, hrun⟩ := bind_ok hrun
    replace hrun := ctx_ok hrun
    have hm1 := startRun_begun h hstart
    split at hrun
    · obtain ⟨_, f, hsteps, hended⟩ := bind_ok hrun
      obtain ⟨hf, hidle⟩ := steps_begun hm1 hsteps
      exact endRun_begun hf hidle hended
    · rename_i hidle
      exact endRun_begun hm1 hidle hrun

end Exec
end ScriptVm
