import ScriptVm.Proofs.Execution.Plain

namespace ScriptVm

/-- The action stores something through an address. -/
def HostAction.stores : HostAction → Bool
  | .writeThrough .. | .writeThrough64 .. | .write .. => true
  | _ => false

/-- The host function does this after some answers. -/
inductive HostBody.Does (a : HostAction) : HostBody → Prop where
  | here (next : HostBody) : Does a (.act a next)
  | later {b : HostAction} {next : HostBody} (h : Does a next) : Does a (.act b next)
  | answered {q : HostQuestion} {next : q.Answer → HostBody} (r : q.Answer) (h : Does a (next r)) :
    Does a (.ask q next)

namespace Context

/-- A context without results, without what was asked of it and without what it knows of the
host. -/
def body (c : Context) : Context :=
  { c with
    register := 0, objectRegister := none, suspendRequested := false, abortRequested :=
      false, hostFunction := none
    pendingException := none, lineCallback := none }

/-- Only results, requests and what is known of the host change. A request to abort is not lost. -/
structure Asks (c c' : Context) : Prop where
  body : c'.body = c.body
  abort : c.abortRequested = true → c'.abortRequested = true

/-- The body of a context without its place in the code, its state and its exception. -/
def footing (c : Context) : Context := { c.body with state := .active, pc := 0, exception := none }

/-- Also the place in the code changes, and the state. No context is made new or prepared. -/
structure Notes (c c' : Context) : Prop where
  footing : c'.footing = c.footing
  abort : c.abortRequested = true → c'.abortRequested = true
  state : c'.state = c.state ∨ c'.state ≠ .uninitialized ∧ c'.state ≠ .prepared

theorem Asks.notes {c c' : Context} (h : c.Asks c') : c.Notes c' where
  footing := congrArg (fun c => { c with state := .active, pc := 0, exception := none }) h.body
  abort := h.abort
  state := .inl (congrArg (fun c => c.state) h.body)

end Context

namespace Exec

variable {ε α β : Type} {m m' : Machine}

instance obeys_steps {Q : Rule} (nested : Nested) [Obeys Q (step nested)]
    [hfuel : Obeys Q (throw .outOfFuel : Exec RequestError Unit)]
    (n : Nat) : Obeys Q (steps nested n) := by
  induction n with
  | zero => exact hfuel
  | succ n ih =>
    refine .bind fun c => ?_
    refine @obeys_ite _ _ _ _ _ _ _ ?_ _
    refine .bind fun flow => ?_
    cases flow with
    | go => exact ih
    | halt => exact obeys_pure ()

/-- A rule that leaves requests and the heap to host functions. -/
class Rule.Asking (Q : Rule) : Prop where
  asks : ∀ {m : Machine} {f : Context → Context}, m.ctx.Asks (f m.ctx) →
    Q.Allows .done m (m.onContext f)
  tell : ∀ m event, Q.Allows .done m (m.onEngine fun e => e.tell event)
  modify : ∀ m h f, Q.Allows .done m (m.onEngine fun e => { e with heap := e.heap.modify h f })
  newObject : ∀ type, Obeys Q (newObject type : Exec Fault Handle)
  addRef : ∀ {ε : Type} h, Obeys Q (addRef h : Exec ε Bool)

/-- A rule under which host functions act. -/
class Rule.Serving (Q : Rule) : Prop extends Rule.Asking Q where
  elementary : ∀ {ε α : Type} (x : Exec ε α) [Elementary x], Obeys Q x
  release : ∀ h, Obeys Q (onHeap fun heap => heap.release h : Exec Fault Bool)
  releaseArgs : ∀ m args params, Q.Allows .done m (m.releaseArgs args 0 params)
  outOfFuel : ∀ m, Q.Allows .outOfFuel m m

/-- A number may be found out of range. -/
class Rule.Calling (Q : Rule) : Prop extends Rule.Serving Q where
  overflow : ∀ m, Q.Allows .overflow m m

/-- A rule under which a run comes to an end. -/
class Rule.Noting (Q : Rule) : Prop extends Rule.Serving Q where
  notes : ∀ {m : Machine} {f : Context → Context}, m.ctx.Notes (f m.ctx) →
    Q.Allows .done m (m.onContext f)
  asks h := notes h.notes

/-- Words may be pushed. -/
class Rule.Pushing (Q : Rule) : Prop extends Rule.Noting Q where
  moveTop : ∀ words, Obeys Q (moveTop words)
  clear : ∀ m p n, Q.Allows .done m (m.onStack fun s => s.clear p n)

/-- A rule under which code runs. -/
class Rule.Stepping (Q : Rule) : Prop extends Rule.Pushing Q, Rule.Calling Q where
  callScript : ∀ f, Obeys Q (callScript f)
  returnFrom : ∀ words, Obeys Q (returnFrom words)

/-- A rule under which runs begin. -/
class Rule.Entering (Q : Rule) : Prop extends Rule.Noting Q, Rule.Calling Q where
  toBase : ∀ m : Machine, Q.Allows .done m (m.onContext fun c => { c with sp := c.fp })
  setFunction :
    ∀ (m : Machine) f, Q.Allows .done m (m.onContext fun c => { c with function := some f })
  beginMethod : ∀ f, Obeys Q (beginMethod f)

section Asking

variable {Q : Rule} [hQ : Q.Asking]

theorem obeys_asks {f : Context → Context} (h : ∀ c, Context.Asks c (f c)) :
    Obeys Q (modifyCtx f : Exec ε Unit) :=
  ⟨fun m => hQ.asks (h m.ctx)⟩

instance obeys_tell (event : Event) : Obeys Q (tell event : Exec ε Unit) :=
  ⟨fun m => hQ.tell m event⟩

instance obeys_newObject (type : ObjectType) : Obeys Q (newObject type : Exec Fault Handle) :=
  hQ.newObject type

instance obeys_addRef (h : Handle) : Obeys Q (addRef h : Exec ε Bool) := hQ.addRef h

instance obeys_setObject (object : Option Handle) :
    Obeys Q (modifyCtx fun c => { c with objectRegister := object } : Exec ε Unit) :=
  obeys_asks fun _ => ⟨rfl, id⟩

instance obeys_giveObject (object : Option Handle) : Obeys Q (giveObject object) := by
  cases object with
  | none => exact obeys_setObject none
  | some h => exact obeys_bind _ _

/-- Addresses apart, actions do nothing that such a rule forbids. -/
theorem obeys_act_of (nested : Nested) [∀ id args, Obeys Q (nested id args)] (c : HostCall)
    {a : HostAction}
    (hread : ∀ a, Obeys Q (attempt (loadWord a)) ∧ Obeys Q (attempt (loadWord64 a)))
    (hstore : a.stores = true → ∀ a v w,
      Obeys Q (attempt (storeWord a v)) ∧ Obeys Q (attempt (storeWord64 a w))) :
    Obeys Q (act nested c a) := by
  have (bits : UInt64) : Obeys Q (setRegister bits) := obeys_asks fun _ => ⟨rfl, id⟩
  have (message : Option String) :
      Obeys Q (modifyCtx fun c => { c with pendingException := message } : Exec Fault Unit) :=
    obeys_asks fun _ => ⟨rfl, id⟩
  have : Obeys Q (modifyCtx fun c => { c with suspendRequested := true } : Exec Fault Unit) :=
    obeys_asks fun _ => ⟨rfl, id⟩
  have : Obeys Q (modifyCtx fun c => { c with abortRequested := true } : Exec Fault Unit) :=
    obeys_asks fun _ => ⟨rfl, fun _ => rfl⟩
  have (object : Option Handle) (field : Nat) (v : UInt32) :
      Obeys Q (setObjectField object field v) := by
    cases object with
    | none => exact obeys_pure ()
    | some h => exact ⟨fun m => hQ.modify m h _⟩
  cases a with
  | giveNew type =>
    refine .bind fun e => ?_
    cases e.types.get? type <;> infer_instance
  | keepArg i =>
    refine .bind fun x => ?_
    cases c.object? x.stack i <;> infer_instance
  | readThrough i =>
    have (a : Address) := (hread a).1
    have (a : Address) := (hread a).2
    exact obeys_bind _ _
  | writeThrough i v =>
    have (a : Address) := (hstore rfl a v 0).1
    exact obeys_bind _ _
  | writeThrough64 i v =>
    have (a : Address) := (hstore rfl a 0 v).2
    exact obeys_bind _ _
  | write a v =>
    have := (hstore rfl a v 0).1
    exact obeys_bind _ _
  | _ =>
    unfold act
    infer_instance

end Asking

theorem obeys_actAll_of {Q : Rule} {nested : Nested} {c : HostCall} {body : HostBody}
    (h : ∀ a, body.Does a → Obeys Q (act nested c a)) : Obeys Q (actAll nested c body) := by
  induction body with
  | done error => exact obeys_pure error
  | act a next ih =>
    have := h a (.here next)
    refine .bind fun r => ?_
    cases r with
    | go => exact ih fun b hb => h b hb.later
    | done error => exact obeys_pure error
  | ask q next ih => exact .bind fun m => ih _ fun b hb => h b (.answered _ hb)

/-- An elementary step finds no number out of range. -/
theorem Elementary.cause_of_error {x : Exec ε α} (hx : Elementary x) {stop : Stop ε}
    (h : x m = .error stop m') : ∃ e, stop = .cause e := by
  induction hx generalizing m m' with
  | fail e =>
    cases h
    exact ⟨e, rfl⟩
  | bind hx hf ihx ihf =>
    revert h
    refine bind_cases (Q := fun r => r = .error stop m' → _)
      (fun a m1 _ h => ihf a h) fun s m1 hs h => ?_
    cases h
    exact ihx hs
  | look _ hf ih => exact ih _ h
  | @raiseTop words _ =>
    change (orFail _ (m.ctx.sp.shift? words) >>= _) m = _ at h
    cases hsp : m.ctx.sp.shift? words with
    | none =>
      rw [hsp] at h
      cases h
      exact ⟨_, rfl⟩
    | some sp =>
      rw [hsp] at h
      cases h
  | _ => cases h

section Serving

variable {Q : Rule} [hQ : Q.Serving]

instance (priority := low) obeys_of_elementary (x : Exec ε α) [Elementary x] : Obeys Q x :=
  hQ.elementary x

instance obeys_release (h : Handle) :
    Obeys Q (onHeap fun heap => heap.release h : Exec Fault Bool) := hQ.release h

instance obeys_outOfFuel : Obeys Q (throw .outOfFuel : Exec ε α) := ⟨hQ.outOfFuel⟩

instance obeys_storeNew (a : Address) (h : Handle) : Obeys Q (storeNew a h) where
  holds m := by
    have hstored := (hQ.elementary (storeWord64 a h.bits)).holds m
    unfold storeNew
    cases hstore : storeWord64 a h.bits m with
    | ok _ m' =>
      rw [hstore] at hstored
      exact hstored
    | error stop m' =>
      rw [hstore] at hstored
      obtain ⟨e, rfl⟩ := Elementary.cause_of_error inferInstance hstore
      have hgive := (hQ.elementary
        (do modify fun m => m.giveUp h; fail .nullPointer : Exec Fault Unit)).holds m'
      exact Q.trans (Q.caught hstored) hgive

instance obeys_assignTop : Obeys Q assignTop := by
  refine .bind fun target => ?_
  refine .bind fun bits => ?_
  refine .bind fun old => ?_
  cases old <;> cases Handle.ofBits? bits <;> infer_instance

instance obeys_invokeLineCallback : Obeys Q invokeLineCallback := by
  refine .bind fun c => ?_
  cases c.lineCallback with
  | none => exact obeys_pure ()
  | some callback =>
    have (callback : LineCallback) :
        Obeys Q (modifyCtx fun c => c.heed callback : Exec Fault Unit) :=
      obeys_asks fun c => ⟨rfl, fun h => by simp [Context.heed, h]⟩
    dsimp only
    infer_instance

instance obeys_abandonNew (args : Nat) (h : Handle) : Obeys Q (abandonNew args h) := by
  refine .bind fun _ => ?_
  refine .bind fun _ => ?_
  refine .bind fun a => ?_
  cases a <;> infer_instance

instance obeys_endCall (call : HostCall) (error : Option String) : Obeys Q (endCall call error) := by
  have : Obeys Q (modifyCtx fun c => { c with hostFunction := none } : Exec Fault Unit) :=
    obeys_asks fun _ => ⟨rfl, id⟩
  have : Obeys Q (modifyCtx fun c => { c with pendingException := none } : Exec Fault Unit) :=
    obeys_asks fun _ => ⟨rfl, id⟩
  have : Obeys Q (modify fun m =>
      m.releaseArgs call.args 0 call.function.signature.params : Exec Fault PUnit) :=
    obeys_modify fun m => hQ.releaseArgs m _ _
  refine .bind fun _ => ?_
  refine .bind fun _ => ?_
  refine .bind fun x => ?_
  refine .bind fun _ => ?_
  cases error.or x.pendingException <;> infer_instance

section Acting

variable (nested : Nested) [∀ id args, Obeys Q (nested id args)]

instance obeys_act (c : HostCall) (a : HostAction) : Obeys Q (act nested c a) :=
  obeys_act_of nested c (fun _ => ⟨inferInstance, inferInstance⟩) fun _ _ _ _ =>
    ⟨inferInstance, inferInstance⟩

instance obeys_actAll (c : HostCall) (body : HostBody) : Obeys Q (actAll nested c body) :=
  obeys_actAll_of fun _ _ => inferInstance

instance obeys_carryOut (call : HostCall) (body : HostBody) :
    Obeys Q (carryOut nested call body) := by
  have : Obeys Q (modifyCtx fun c =>
      { c with hostFunction := some call.function, pendingException := none } : Exec Fault Unit) :=
    obeys_asks fun _ => ⟨rfl, id⟩
  exact obeys_bind _ _

end Acting

section Steps

variable (nested : Nested)

theorem Rule.Holds.constructed {f : Func} {h : Handle}
    (hcall : Q.Holds m (callHost nested f (some h) m)) :
    Q.Holds m (runConstructor nested f h m) := by
  refine Rule.Holds.bind (hcall.handled (fun e => ?_) ⟨rfl, rfl⟩) fun words m1 _ => ?_
  · have : Obeys Q (throw (.cause e) : Exec Fault Nat) := hQ.elementary (fail e)
    exact obeys_bind _ _
  · exact Obeys.holds (x := do moveTop words; storeNew (← popAddress) h) m1

end Steps

end Serving

section Noting

variable {Q : Rule} [hQ : Q.Noting]

theorem obeys_notes {f : Context → Context} (h : ∀ c, Context.Notes c (f c)) :
    Obeys Q (modifyCtx f : Exec ε Unit) :=
  ⟨fun m => hQ.notes (h m.ctx)⟩

theorem obeys_setState {state : ContextState} (h : state ≠ .uninitialized ∧ state ≠ .prepared) :
    Obeys Q (modifyCtx fun c => { c with state } : Exec ε Unit) :=
  obeys_notes fun _ => ⟨rfl, id, .inr h⟩

instance obeys_finish : Obeys Q (modifyCtx fun c => { c with state := .finished } : Exec ε Unit) :=
  obeys_setState (by decide)

theorem allows_raise (m : Machine) (fault : Fault) : Q.Allows .done m (m.raise fault) := by
  have hmark := hQ.notes (m := m)
    (f := fun c => { c with exception := some (m.ctx.exceptionOf fault), state := .exception })
    ⟨rfl, id, .inr (by simp)⟩
  unfold Machine.raise
  dsimp only
  split
  · exact Q.trans hmark (hQ.tell _ _)
  · exact hmark

instance obeys_raise (fault : Fault) : Obeys Q (modify fun m => m.raise fault : Exec ε PUnit) :=
  ⟨fun m => allows_raise m fault⟩

theorem Rule.Holds.raising (ended : α) {x : Exec Fault α} (h : Q.Holds m (x m)) :
    Q.Holds m (raising ended x m) := by
  unfold Exec.raising
  cases hx : x m with
  | ok a m' =>
    rw [hx] at h
    exact h
  | error stop m' =>
    rw [hx] at h
    cases stop with
    | cause fault => exact Q.trans (Q.caught h) (allows_raise m' fault)
    | overflow | outOfFuel => exact h

instance obeys_raising (ended : α) (x : Exec Fault α) [hx : Obeys Q x] : Obeys Q (raising ended x) :=
  ⟨fun m => (hx.holds m).raising ended⟩

instance obeys_jumpBy (offset : Int) : Obeys Q (jumpBy offset) := by
  have (pc : Nat) : Obeys Q (modifyCtx fun c => { c with pc } : Exec Fault Unit) :=
    obeys_notes fun _ => ⟨rfl, id, .inl rfl⟩
  exact obeys_bind _ _

instance obeys_checkInterrupt : Obeys Q checkInterrupt := by
  have : Obeys Q (modifyCtx fun c => { c with state := .suspended } : Exec Fault Unit) :=
    obeys_setState (by decide)
  exact obeys_bind _ _

instance obeys_callHostFrom (nested : Nested) (f : Func) [Obeys Q (callHost nested f none)] :
    Obeys Q (callHostFrom nested f) :=
  obeys_bind _ _

instance obeys_step (nested : Nested) [hexec : ∀ i, Obeys Q (exec nested i)] :
    Obeys Q (step nested) := by
  have : Obeys Q (modifyCtx fun c => { c with pc := c.pc + 1 } : Exec RequestError Unit) :=
    obeys_notes fun _ => ⟨rfl, id, .inl rfl⟩
  have hperform (i : Option Instr) : Obeys Q (perform nested i) := by
    cases i with
    | none => exact obeys_bind _ _
    | some i => exact obeys_raising _ _
  exact .bind fun c => .bind fun _ => hperform (fetch? c)

end Noting

section Pushing

variable {Q : Rule} [hQ : Q.Pushing]

instance obeys_moveTop (words : Int) : Obeys Q (moveTop words) := hQ.moveTop words

instance obeys_push (v : UInt32) : Obeys Q (push v) := obeys_bind _ _

instance obeys_push64 (v : UInt64) : Obeys Q (push64 v) := obeys_bind _ _

instance obeys_simple (i : Instr) : Obeys Q (simple i) := by
  cases i with
  | push words =>
    have (sp : Pointer) :
        Obeys Q (modify fun m => m.onStack fun s => s.clear sp words.toNat : Exec Fault PUnit) :=
      obeys_modify fun m => hQ.clear m sp words.toNat
    exact obeys_bind _ _
  | _ =>
    unfold simple
    infer_instance

end Pushing

section Calling

variable {Q : Rule} [hQ : Q.Calling]

instance obeys_wordOrStop (n : Nat) : Obeys Q (wordOrStop n : Exec ε Unit) := by
  unfold wordOrStop
  split
  · exact obeys_pure ()
  · exact ⟨hQ.overflow⟩

variable (nested : Nested) [∀ id args, Obeys Q (nested id args)]

instance obeys_callHost (f : Func) (this : Option Handle) : Obeys Q (callHost nested f this) := by
  have : Obeys Q (hostCall f this) := by
    refine .bind fun c => ?_
    exact obeys_bind _ _
  exact obeys_bind _ _

instance obeys_runConstructor (f : Func) (h : Handle) : Obeys Q (runConstructor nested f h) :=
  ⟨fun m => Rule.Holds.constructed nested (Obeys.holds m)⟩

end Calling

instance obeys_exec {Q : Rule} [hQ : Q.Stepping] (nested : Nested)
    [∀ id args, Obeys Q (nested id args)] (i : Instr) : Obeys Q (exec nested i) := by
  have (f : Func) : Obeys Q (callScript f) := hQ.callScript f
  cases i with
  | callBound id =>
    have : Obeys Q (callBoundTo id) := obeys_bind _ _
    exact obeys_bind _ _
  | callMethod id => exact obeys_bind _ _
  | alloc type constructor =>
    have (f : Func) (h : Handle) : Obeys Q (enterConstructor f h) := obeys_bind _ _
    -- The search for instances does not get through these binds in one go.
    refine .bind fun e => ?_
    refine .bind fun objectType => ?_
    refine .bind fun h => ?_
    refine @obeys_ite _ _ _ _ _ _ _ _ ?_
    exact obeys_bind _ _
  | ret words =>
    have := hQ.returnFrom words.toNat
    exact obeys_bind _ _
  | _ =>
    unfold exec
    infer_instance

section Entering

variable {Q : Rule} [hQ : Q.Entering] (nested : Nested) [∀ id args, Obeys Q (nested id args)]

instance obeys_enterHost (f : Func) : Obeys Q (enterHost nested f) := by
  have : Obeys Q (modifyCtx fun c => { c with sp := c.fp } : Exec Fault Unit) :=
    obeys_modifyCtx hQ.toBase
  exact obeys_raising _ _

instance obeys_enter : Obeys Q (enter nested) := by
  have (f : Func) :
      Obeys Q (modifyCtx fun c => { c with function := some f } : Exec RequestError Unit) :=
    obeys_modifyCtx fun m => hQ.setFunction m f
  have (f : Func) : Obeys Q (beginMethod f) := hQ.beginMethod f
  have (declared : Func) : Obeys Q (enterMethod nested declared) := by
    refine .bind fun m => ?_
    cases (m.handleAt? m.ctx.fp).bind (m.engine.resolveMethod? declared) <;> infer_instance
  refine .bind fun c => ?_
  cases c.function with
  | none => exact obeys_finish
  | some f =>
    dsimp only
    cases f.kind <;> infer_instance

instance obeys_activate (state : ContextState) : Obeys Q (activate nested state) := by
  have : Obeys Q (modifyCtx fun c => { c with state := .active } : Exec RequestError Unit) :=
    obeys_setState (by decide)
  exact obeys_bind _ _

end Entering

end Exec
end ScriptVm
