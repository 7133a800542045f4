import ScriptVm.Proofs.Execution.FieldAccess
import ScriptVm.Proofs.Execution.NewObjects
import ScriptVm.Proofs.Execution.Orderly
import ScriptVm.Proofs.Execution.Unwinding

namespace ScriptVm

/-- The slots of the owned arguments of a call. -/
def HostCall.slots (c : HostCall) : List FrameSlot :=
  Func.argSlots c.args 0 c.function.signature.params

/-- What unpreparing does to the heap: the slots of the frames are cleaned if that is still to be
done, and the object in the register is given up. -/
def Machine.lastOps (m : Machine) : List HeapOp :=
  FrameSlot.ops m.ctx.stack m.engine (if m.ctx.needsCleanup then m.ctx.frameSlots else []) ++
    m.ctx.objectRegister.toList.map .free

/-- The machine in which a host function begins. -/
def Machine.hosting (m : Machine) (f : Func) : Machine :=
  m.onContext fun c => { c with hostFunction := some f, pendingException := none }

/-- What is left by a host call whose actions are over. -/
def Machine.endedCall (m : Machine) (call : HostCall) : Machine :=
  ((m.onContext fun c => { c with hostFunction := none }).releaseArgs call.args 0
    call.function.signature.params).onContext
    fun c => { c with pendingException := none }

theorem DataType.words_of_isOwned {t : DataType} (h : t.isOwned = true) : t.words = 2 := by
  obtain ⟨hobj, -⟩ := Bool.and_eq_true_iff.mp h
  rw [words, hobj, Bool.or_true, if_pos rfl]
  rfl

namespace Func

theorem place_of_mem_argSlots {args : Pointer} {offset : Nat} {params : List Parameter}
    {slot : FrameSlot} (h : slot ∈ argSlots args offset params) :
    slot.place.block = args.block ∧ args.offset.toNat + offset ≤ slot.place.offset.toNat := by
  induction params generalizing offset with
  | nil => cases h
  | cons p params ih =>
    obtain hfst | hrest := List.mem_append.mp h
    · split at hfst
      · obtain ⟨q, hq, rfl⟩ := List.mem_map.mp hfst
        obtain ⟨hblk, hoff⟩ := Pointer.shift?_eq_some_iff.mp (Option.mem_toList.mp hq)
        exact ⟨hblk, by show _ ≤ q.offset.toNat; omega⟩
      · cases hfst
    · obtain ⟨hblk, hoff⟩ := ih hrest
      exact ⟨hblk, by omega⟩

/-- An owned parameter takes two words, so the slots of the later ones begin after it. -/
theorem pairwise_argSlots (args : Pointer) (offset : Nat) (params : List Parameter) :
    (argSlots args offset params).Pairwise FrameSlot.Apart := by
  induction params generalizing offset with
  | nil => exact .nil
  | cons p params ih =>
    refine List.pairwise_append.mpr ⟨?_, ih _, fun a ha b hb => ?_⟩
    · split
      · cases args.shift? offset <;> simp
      · exact .nil
    · split at ha
      · rename_i howned
        obtain ⟨q, hq, rfl⟩ := List.mem_map.mp ha
        obtain ⟨hblk, hoff⟩ := Pointer.shift?_eq_some_iff.mp (Option.mem_toList.mp hq)
        obtain ⟨-, hlater⟩ := place_of_mem_argSlots hb
        rw [DataType.words_of_isOwned howned] at hlater
        exact .inr (.inl (by show q.offset.toNat + 2 ≤ _; omega))
      · cases ha

end Func

namespace Machine

variable {m : Machine} {slot : FrameSlot} {slots : List FrameSlot} {p : Pointer}

theorem read64?_cleanSlot_self {h : Handle} (hhdl : m.handleAt? slot.place = some h) :
    (m.cleanSlot slot).ctx.stack.read64? slot.place = some 0 := by
  obtain ⟨v, hv, -⟩ := Option.bind_eq_some_iff.mp hhdl
  rw [cleanSlot, hhdl]
  dsimp only
  rw [setWords, if_pos (Stack.contains64_of_read64? hv)]
  exact Stack.read64?_set64_self _ hv 0

theorem read64?_cleanSlot_apart (h : slot.place.Apart p) :
    (m.cleanSlot slot).ctx.stack.read64? p = m.ctx.stack.read64? p := by
  unfold cleanSlot
  split
  · rfl
  · unfold setWords
    split
    · rename_i hthere
      obtain ⟨q, hq, -⟩ := (Option.any_eq_true _ _).mp hthere
      exact Stack.read64?_set64_apart _ hq 0 h
    · rfl

theorem read64?_foldl_apart (h : ∀ slot ∈ slots, slot.place.Apart p) :
    (slots.foldl cleanSlot m).ctx.stack.read64? p = m.ctx.stack.read64? p := by
  induction slots generalizing m with
  | nil => rfl
  | cons slot slots ih =>
    rw [List.foldl_cons, ih fun slot hmem => h slot (List.mem_cons_of_mem _ hmem)]
    exact read64?_cleanSlot_apart (h slot List.mem_cons_self)

theorem read64?_foldl_cleanSlot (hapart : slots.Pairwise FrameSlot.Apart) (hmem : slot ∈ slots)
    (hheld : (m.handleAt? slot.place).isSome = true) :
    (slots.foldl cleanSlot m).ctx.stack.read64? slot.place = some 0 := by
  induction slots generalizing m with
  | nil => cases hmem
  | cons first slots ih =>
    obtain ⟨hfst, hrest⟩ := List.pairwise_cons.mp hapart
    rw [List.foldl_cons]
    obtain rfl | hlater := List.mem_cons.mp hmem
    · obtain ⟨h, hh⟩ := Option.isSome_iff_exists.mp hheld
      rw [read64?_foldl_apart fun other hother => (hfst other hother).symm]
      · exact read64?_cleanSlot_self hh
    · refine ih hrest hlater ?_
      rwa [handleAt?, read64?_cleanSlot_apart (hfst slot hlater)]

theorem op?_of_null {s : Stack} (heap : Heap) (h : s.read64? slot.place = some 0) :
    slot.op? s heap = none := by
  have hnone : s.handle? slot.place = none := by rw [Stack.handle?, h]; rfl
  cases slot with
  | owned p | this p => rw [FrameSlot.op?, show s.handle? p = none from hnone]; rfl

variable (m : Machine)

theorem objectRegister_cleanFrame : m.cleanFrame.ctx.objectRegister = m.ctx.objectRegister := by
  rw [cleanFrame_eq]
  obtain ⟨stack, hctx⟩ :=
    m.ctx_foldl_cleanSlot (m.ctx.function.toList.flatMap fun f => f.frameSlots m.ctx.fp)
  rw [hctx]

theorem objectRegister_cleanStack : m.cleanStack.ctx.objectRegister = m.ctx.objectRegister := by
  refine view_cleanStack (fun m => m.ctx.objectRegister) objectRegister_cleanFrame
    (fun m f calls => ?_) (fun _ => rfl) m
  rw [Exec.restore_ctx]

theorem engine_dropObject : m.dropObject.engine =
      (m.ctx.objectRegister.toList.map HeapOp.free).foldl HeapOp.run m.engine := by
  unfold dropObject
  cases m.ctx.objectRegister <;> rfl

/-- Giving up all that a run holds does what the slots of its frames and its register ask for, and
nothing else to the heap. -/
theorem engine_releaseRun (h : m.ctx.frameSlots.Pairwise FrameSlot.Apart) :
    ∃ modules, m.releaseRun.engine = (m.lastOps.foldl HeapOp.run m.engine).withModules modules := by
  let slots := if m.ctx.needsCleanup then m.ctx.frameSlots else []
  let cleaned := if m.ctx.needsCleanup then m.cleanStack else m
  have hcleaned : ∃ modules, cleaned.engine =
      ((FrameSlot.ops m.ctx.stack m.engine slots).foldl HeapOp.run m.engine).withModules modules := by
    dsimp only [slots, cleaned]
    split
    · exact (m.cleans_cleanStack h).engine
    · exact ⟨m.engine.modules, rfl⟩
  have hregr : cleaned.ctx.objectRegister = m.ctx.objectRegister := by
    dsimp only [cleaned]
    split
    · exact m.objectRegister_cleanStack
    · rfl
  obtain ⟨modules, heng⟩ := hcleaned
  obtain ⟨modules', hleft⟩ :=
    (cleaned.dropObject.onContext fun c => { c with module := none }).engine_leaveModule
      cleaned.dropObject.ctx.module
  refine ⟨modules', hleft.trans ?_⟩
  show cleaned.dropObject.engine.withModules modules' = _
  rw [engine_dropObject, hregr, heng, HeapOp.foldl_run_withModules, lastOps, List.foldl_append]
  rfl

theorem engine_unprepare (hst : m.ctx.state = .exception)
    (h : m.ctx.frameSlots.Pairwise FrameSlot.Apart) : ∃ modules, (Exec.unprepare.after m).engine =
      (m.lastOps.foldl HeapOp.run m.engine).withModules modules := by
  obtain ⟨m', hdone, heng⟩ := Exec.unprepare_idle (.inr hst)
  rw [Exec.after_of_ok hdone, heng]
  exact m.engine_releaseRun h

end Machine

namespace Exec

variable {m m0 m1 m' : Machine} {f : Func} {this : Option Handle} {call : HostCall} {words : Nat}
    {body : HostBody}
  {error : Option String}
variable {nested : Nested} {p : Pointer} {i : Instr}

section Acting

variable {ε α : Type}

instance keeps_stack_onHeap (f : Heap → α × Heap) :
    Keeps (fun m => m.ctx.stack) (onHeap f : Exec ε α) :=
  keeps_of fun m => by rw [after, onHeap_eq]; rfl

instance asking_stack : (Rule.keeps fun m => m.ctx.stack).Asking where
  asks h := by
    have hbody := congrArg (fun c => c.stack) h.body
    exact hbody
  tell _ _ := rfl
  modify _ _ _ := rfl
  newObject _ := obeys_bind _ _
  addRef _ := obeys_bind _ _

theorem keeps_stack_actAll [hnst : ∀ id args, Keeps Machine.ctx (nested id args)]
    (h : ∀ a, body.Does a → a.stores = false) :
    Keeps (fun m => m.ctx.stack) (actAll nested call body) := by
  have (id : FunctionId) (args : List UInt32) : Keeps (fun m => m.ctx.stack) (nested id args) :=
    (hnst id args).coarser fun c => c.stack
  have hword (a : Address) : Keeps (fun m => m.ctx.stack) (loadWord a) := obeys_bind _ _
  have hws (a : Address) : Keeps (fun m => m.ctx.stack) (loadWord64 a) := obeys_bind _ _
  refine obeys_actAll_of fun a ha =>
    obeys_act_of nested call (fun a => ⟨inferInstance, inferInstance⟩) fun hstores => ?_
  rw [h a ha] at hstores
  cases hstores

end Acting

instance keeps_hostCall (f : Func) (this : Option Handle) :
    Keeps (fun m => m) (hostCall f this) := by
  refine .bind fun c => ?_
  refine .bind fun _ => ?_
  split <;> infer_instance

theorem hostCall_of_value (h : value? (hostCall f this m) = some (call, words)) :
    hostCall f this m = .ok (call, words) m := by
  have hok := ok_of_value h
  rwa [(keeps_hostCall f this).view_after m] at hok

theorem callHost_refused (h : m.engine.host? f.id = none ∨ value? (hostCall f this m) = none) :
    ∃ stop, callHost nested f this m = .error stop m := by
  have hstart := callHost_eq nested f this m
  cases hhost : m.engine.host? f.id with
  | none =>
    rw [show (m.engine.hosts.find? fun h => h.1 == f.id).map Prod.snd = none from hhost] at hstart
    exact ⟨_, hstart⟩
  | some body =>
    rw [show (m.engine.hosts.find? fun h => h.1 == f.id).map Prod.snd = some body from hhost] at hstart
    have hvalue := h.resolve_left (by simp [hhost])
    cases hcall : hostCall f this m with
    | ok a m1 =>
      rw [hcall] at hvalue
      cases hvalue
    | error stop m1 =>
      obtain rfl := (keeps_hostCall f this).of_error hcall
      exact ⟨stop, hstart.trans (bind_of_error hcall _)⟩

theorem endCall_cases (m : Machine) (call : HostCall) (error : Option String) :
    (error.or m.ctx.pendingException = none → endCall call error m = .ok () (m.endedCall call)) ∧
      ∀ message, error.or m.ctx.pendingException = some message →
        endCall call error m = .error (.cause (.host message)) (m.endedCall call) := by
  let begun := m.onContext fun c => { c with hostFunction := none }
  let released := begun.releaseArgs call.args 0 call.function.signature.params
  have hbegun :
      (modifyCtx fun c => { c with hostFunction := none } : Exec Fault Unit) m = .ok () begun := rfl
  have hrel : (modify fun m =>
      m.releaseArgs call.args 0 call.function.signature.params : Exec Fault PUnit) begun =
      .ok () released := rfl
  have hended : (modifyCtx fun c => { c with pendingException := none } : Exec Fault Unit)
      released = .ok () (m.endedCall call) := rfl
  have hpend : released.ctx.pendingException = m.ctx.pendingException :=
    congrArg Bearing.pendingException
      (begun.bearing_releaseArgs call.args 0 call.function.signature.params)
  rw [endCall, bind_of_ok hbegun, bind_of_ok hrel, ctx_bind]
  rw [bind_of_ok hended, hpend]
  refine ⟨fun hnone => ?_, fun message hsome => ?_⟩
  · rw [hnone]
    rfl
  · rw [hsome]
    rfl

/-- A host call whose actions are over has given up its arguments, and it faults if they ended in an
error or set an exception. -/
theorem callHost_reached (hhost : m.engine.host? f.id = some body)
    (hcall : value? (hostCall f this m) = some (call, words))
    (hacts : actAll nested call body (m.hosting call.function) = .ok error m1) :
    (error.or m1.ctx.pendingException = none →
      callHost nested f this m = .ok words (m1.endedCall call)) ∧
      ∀ message, error.or m1.ctx.pendingException = some message →
        callHost nested f this m = .error (.cause (.host message)) (m1.endedCall call) := by
  have hstart := callHost_eq nested f this m
  rw [show (m.engine.hosts.find? fun h => h.1 == f.id).map Prod.snd = some body from hhost] at hstart
  have hbegun : callHost nested f this m = (carryOut nested call body >>= fun _ => pure words) m :=
    hstart.trans (bind_of_ok (hostCall_of_value hcall))
  have hcarry : carryOut nested call body m = endCall call error m1 := by
    show (actAll nested call body >>= endCall call) (m.hosting call.function) = _
    exact bind_of_ok hacts
  obtain ⟨hfine, hflt⟩ := endCall_cases m1 call error
  constructor
  · intro hnone
    rw [hbegun, bind_of_ok (hcarry.trans (hfine hnone))]
    rfl
  · intro message hsome
    rw [hbegun, bind_of_error (hcarry.trans (hflt message hsome))]

-- It fails on a negative number, and it raises an exception on zero.
example :
    let check : HostBody := .ask (.word 0) fun n =>
      if n.toInt32 < 0 then .done (some ("negative: " ++ toString n.toInt32.toInt))
      else if n = 0 then .act (.setException "zero") (.done none)
      else .done none
    let call : HostCall :=
      { function := { name := "check", signature := { params := [{ type := .int }] } },
        args := { offset := 4 }, this := none }
    let m (n : UInt32) : Machine :=
      { engine := {}, ctx := { stack := (Stack.reset {} 8).set { offset := 4 } n } }
    [5, 0, 4294967292].map (fun n => cause? (carryOut (runNested (execute 0)) call check (m n))) =
      [none, some (.host "zero"), some (.host "negative: -4")] := by
  decide +kernel

theorem cleans_endedCall (m : Machine) (call : HostCall) :
    Machine.Cleans call.slots m (m.endedCall call) := by
  have hcleans := (m.onContext fun c => { c with hostFunction := none }).cleans_foldl
    (Func.pairwise_argSlots call.args 0 call.function.signature.params)
  rw [← Machine.releaseArgs_eq] at hcleans
  exact ⟨hcleans.engine, hcleans.cleared, hcleans.others⟩

theorem read64?_endedCall {slot : FrameSlot} (hmem : slot ∈ call.slots)
    (hheld : (m.handleAt? slot.place).isSome = true) :
    (m.endedCall call).ctx.stack.read64? slot.place = some 0 := by
  have hzero :=
    Machine.read64?_foldl_cleanSlot (m := m.onContext fun c => { c with hostFunction := none })
    (Func.pairwise_argSlots call.args 0 call.function.signature.params) hmem hheld
  rwa [← Machine.releaseArgs_eq] at hzero

/-- A word that is null stays so. -/
def Rule.null (p : Pointer) : Rule where
  Allows _ m m' := m.ctx.stack.read? p = some 0 → m'.ctx.stack.read? p = some 0
  refl _ := id
  trans h k := k ∘ h
  caught := id

instance (priority := low) null_of_stack {ε α : Type} (x : Exec ε α)
    [h : Keeps (fun m => m.ctx.stack) x] : Obeys (.null p) x :=
  ⟨fun m hm => (congrArg (fun s => s.read? p) (h.view_after m)).trans hm⟩

instance null_storeWord (a : Address) : Obeys (.null p) (storeWord a 0) where
  holds m h := by
    obtain ⟨m', -, hstores, hok⟩ | ⟨-, hflt⟩ := storeWord_cases a 0 m
    · rw [hok]
      cases hstores with
      | stack =>
        show (m.ctx.stack.set _ 0).read? p = some 0
        rw [Stack.read?_set]
        split
        · rfl
        · exact h
      | global | field => exact h
    · rw [hflt]
      exact h

instance null_abandonNew (words : Nat) (object : Handle) :
    Obeys (.null p) (abandonNew words object) := by
  have hmove (words : Int) : Keeps (fun m => m.ctx.stack) (moveTop words) := by
    have (sp : Pointer) :
        Keeps (fun m => m.ctx.stack) (modifyCtx fun c => { c with sp } : Exec Fault Unit) :=
      obeys_modifyCtx fun _ => rfl
    exact obeys_bind _ _
  have hread (p : Pointer) : Keeps (fun m => m.ctx.stack) (readStack64 p .badCode) := obeys_bind _ _
  have hslot : Keeps (fun m => m.ctx.stack) (slotPointer 0) := obeys_bind _ _
  have hpeek : Keeps (fun m => m.ctx.stack) (peek64 0) := obeys_bind _ _
  have hqword : Keeps (fun m => m.ctx.stack) pop64 := obeys_bind _ _
  have hpop : Keeps (fun m => m.ctx.stack) popAddress := obeys_bind _ _
  have hstore (a : Address) : Obeys (.null p) (storeWord64 a 0) :=
    .bind fun high => @obeys_bind _ _ _ _ _ _ (null_storeWord a) fun _ => null_storeWord high
  have hgive : Obeys (.null p) (modify fun m => m.giveUp object : Exec Fault PUnit) :=
    obeys_modify fun _ => id
  refine .bind fun _ => .bind fun _ => .bind fun found => ?_
  cases found <;> infer_instance

/-- An instruction calls a host function: the function, the object that it is given, and the machine
in which the call begins. -/
inductive Calls (m : Machine) : Instr → Func → Option Handle → Machine → Prop where
  | direct {id : FunctionId} {f : Func} (hf : m.engine.function? id = some f) :
    Calls m (.callHost id) f none m
  | method {id : FunctionId} {declared f : Func} {object : Handle}
      (hdeclared : m.engine.function? id = some declared)
      (hobject : m.handleAt? m.ctx.sp = some object)
      (hf : m.engine.resolveMethod? declared object = some f) (hhost : f.kind = .host) :
    Calls m (.callMethod id) f none m
  | construction {type : TypeId} {t : ObjectType} {constructor : FunctionId} {f : Func}
      {object : Handle} {m0 : Machine} (htype : m.engine.types.get? type = some t)
      (hnew : (newObject t : Exec Fault Handle) m = .ok object m0) (hsome : constructor ≠ .none)
      (hf : m0.engine.function? constructor = some f) (hkind : f.kind ≠ .script)
      (hwords : f.signature.paramWords < 4294967296) :
    Calls m (.alloc type constructor) f (some object) m0

/-- What follows a host call that succeeds. -/
def completing (words : Nat) : Option Handle → Exec Fault Flow
  | none => do
    moveTop words
    checkInterrupt
  | some object => do
    moveTop words
    storeNew (← popAddress) object
    checkInterrupt

/-- What follows a host call that faults: a constructor leaves an object to be given up. -/
def failing (f : Func) : Option Handle → Exec Fault Unit
  | none => pure ()
  | some object => abandonNew f.signature.paramWords object

theorem exec_of_calls (nested : Nested) (h : Calls m i f this m0) :
    (this = none → m0 = m ∧ exec nested i m = callHostFrom nested f m) ∧
      ∀ object, this = some object →
        exec nested i m = (runConstructor nested f object >>= fun _ => checkInterrupt) m0 := by
  cases h with
  | @direct id _ hf =>
    refine ⟨fun _ => ⟨rfl, ?_⟩, fun _ hsome => by cases hsome⟩
    have hfd : functionOf id m = .ok f m := functionOf_of_some hf
    exact bind_of_ok hfd
  | @method id declared _ object hdecl hobj hf hhost =>
    refine ⟨fun _ => ⟨rfl, ?_⟩, fun _ hsome => by cases hsome⟩
    rw [exec_callMethod nested hdecl hobj hf, if_pos hhost]
  | @construction type t constructor _ object _ htype hnew hsome hf hkind hws =>
    refine ⟨fun hnone => (by cases hnone), fun object' hobj => ?_⟩
    obtain rfl := Option.some.inj hobj
    rw [exec_alloc nested htype hnew hsome hf hws, if_neg hkind]

theorem exec_of_callHost_ok (h : Calls m i f this m0)
    (hcall : callHost nested f this m0 = .ok words m1) :
    exec nested i m = completing words this m1 := by
  obtain ⟨hdir, hcons⟩ := exec_of_calls nested h
  cases this with
  | none =>
    obtain ⟨rfl, hexec⟩ := hdir rfl
    rw [hexec]
    exact bind_of_ok hcall
  | some object =>
    rw [hcons object rfl, runConstructor, bind_assoc, bind_of_ok (tryCatch_of_ok hcall _)]
    simp only [completing, bind_assoc]

theorem exec_of_callHost_error {stop : Stop Fault} (h : Calls m i f this m0)
    (hcall : callHost nested f this m0 = .error stop m1)
    (hcause : ∀ object, this = some object → ∃ e, stop = .cause e) :
    ∃ stop', exec nested i m = .error stop' ((failing f this).after m1) := by
  obtain ⟨hdir, hcons⟩ := exec_of_calls nested h
  cases this with
  | none =>
    obtain ⟨rfl, hexec⟩ := hdir rfl
    exact ⟨stop, hexec.trans (bind_of_error hcall _)⟩
  | some object =>
    obtain ⟨e, rfl⟩ := hcause object rfl
    rw [hcons object rfl, runConstructor, bind_assoc]
    cases haban : abandonNew f.signature.paramWords object m1 with
    | ok u m2 =>
      rw [failing, after_of_ok haban]
      refine ⟨.cause e, bind_of_error ?_ _⟩
      rw [tryCatch_of_error hcall]
      show (abandonNew f.signature.paramWords object >>= _) m1 = _
      rw [bind_of_ok haban]
      rfl
    | error stop2 m2 =>
      rw [failing, after_of_error haban]
      refine ⟨stop2, bind_of_error ?_ _⟩
      rw [tryCatch_of_error hcall]
      exact bind_of_error haban _

/-- A call that stops leaves no result, and only a fault of the call makes an instruction give up
the object of a constructor. -/
theorem exec_of_callHost_stop {stop : Stop Fault} (h : Calls m i f this m0)
    (hcall : callHost nested f this m0 = .error stop m1) :
    value? (exec nested i m) = none ∧ ∀ fault m', exec nested i m = .error (.cause fault) m' →
      m' = (failing f this).after m1 := by
  by_cases hcause : ∃ e, stop = .cause e
  · obtain ⟨stop', hexec⟩ := exec_of_callHost_error h hcall fun _ _ => hcause
    rw [hexec]
    refine ⟨rfl, fun fault m' hflt => ?_⟩
    cases hflt
    rfl
  · obtain ⟨hdir, hcons⟩ := exec_of_calls nested h
    have hexec : exec nested i m = .error stop m1 := by
      cases this with
      | none =>
        obtain ⟨rfl, hexec⟩ := hdir rfl
        exact hexec.trans (bind_of_error hcall _)
      | some object =>
        rw [hcons object rfl, runConstructor, bind_assoc]
        refine bind_of_error ?_ _
        rw [tryCatch_of_error hcall]
        cases stop with
        | cause e => exact absurd ⟨e, rfl⟩ hcause
        | overflow | outOfFuel => rfl
    rw [hexec]
    refine ⟨rfl, fun fault m' hflt => ?_⟩
    cases hflt
    exact absurd ⟨fault, rfl⟩ hcause

/-- What an instruction that calls a host function in machine `m0` does with the owned arguments of
the call. -/
structure Disposal (nested : Nested) (i : Instr) (f : Func) (this : Option Handle)
    (m m0 : Machine) : Prop where
  /-- If the host function does not begin, none is given up. -/
  refused : m0.engine.host? f.id = none ∨ value? (hostCall f this m0) = none →
    value? (exec nested i m) = none ∧ ∀ fault m', exec nested i m = .error (.cause fault) m' →
      m' = (failing f this).after m0
  /-- Once its actions are over, each is given up where it then is, in order, and its slot holds
  null. If the call succeeds, the instruction goes on; else it ends, and the slot still holds
  null. -/
  ended : ∀ body call words error m1, m0.engine.host? f.id = some body →
    value? (hostCall f this m0) = some (call, words) →
    actAll nested call body (m0.hosting call.function) = .ok error m1 →
    ((∀ a, body.Does a → a.stores = false) → m1.ctx.stack = m0.ctx.stack) ∧
    Machine.Cleans call.slots m1 (m1.endedCall call) ∧
    (FrameSlot.ops m1.ctx.stack m1.engine call.slots).filterMap HeapOp.freed? =
      call.slots.filterMap (FrameSlot.owned? m1.ctx.stack) ∧
    (error.or m1.ctx.pendingException = none →
      exec nested i m = completing words this (m1.endedCall call)) ∧
    (∀ message, error.or m1.ctx.pendingException = some message →
      ∃ stop, exec nested i m = .error stop ((failing f this).after (m1.endedCall call))) ∧
    ∀ slot ∈ call.slots, (m1.handleAt? slot.place).isSome = true →
      (m1.endedCall call).ctx.stack.read64? slot.place = some 0 ∧
      ((failing f this).after (m1.endedCall call)).ctx.stack.read64? slot.place = some 0
  /-- After a fault, unpreparing does to the heap what the slots of the frames and the register ask
  for, and a slot that holds null asks for nothing. -/
  unprepared : ∀ fault m', exec nested i m = .error (.cause fault) m' →
    m'.ctx.frameSlots.Pairwise FrameSlot.Apart →
    (∃ modules, (unprepare.after (m'.raise fault)).engine =
      ((m'.raise fault).lastOps.foldl HeapOp.run (m'.raise fault).engine).withModules modules) ∧
    ∀ slot : FrameSlot, m'.ctx.stack.read64? slot.place = some 0 →
      ∀ heap, slot.op? (m'.raise fault).ctx.stack heap = none

theorem read64?_zero_iff {s : Stack} :
    s.read64? p = some 0 ↔ s.read? p = some 0 ∧ ∃ q, p.shift? 1 = some q ∧ s.read? q = some 0 := by
  have hzero {lo hi : UInt32} (hjoin : joinWords lo hi = 0) : lo = 0 ∧ hi = 0 := by
    have hnat := joinWords_toNat lo hi
    rw [hjoin, UInt64.toNat_zero] at hnat
    refine ⟨UInt32.toNat_inj.mp ?_, UInt32.toNat_inj.mp ?_⟩ <;> rw [UInt32.toNat_zero] <;> omega
  unfold Stack.read64?
  simp only [Option.bind_eq_bind, Option.bind_eq_some_iff]
  constructor
  · rintro ⟨lo, hlo, q, hq, hi, hhi, hjoin⟩
    obtain ⟨rfl, rfl⟩ := hzero (Option.some.inj hjoin)
    exact ⟨hlo, q, hq, hhi⟩
  · rintro ⟨hlo, q, hq, hhi⟩
    exact ⟨0, hlo, q, hq, 0, hhi, rfl⟩

theorem null_failing (f : Func) (this : Option Handle) (h : m.ctx.stack.read64? p = some 0) :
    ((failing f this).after m).ctx.stack.read64? p = some 0 := by
  cases this with
  | none => exact h
  | some object =>
    obtain ⟨hlo, q, hq, hhi⟩ := read64?_zero_iff.mp h
    exact read64?_zero_iff.mpr ⟨(null_abandonNew _ object).holds m hlo, q, hq,
      (null_abandonNew _ object).holds m hhi⟩

theorem host_call_arguments (execute : Exec RequestError Outcome) {i : Instr}
    (h : Calls m i f this m0) : Disposal (runNested execute) i f this m m0 where
  refused hrefused := by
    obtain ⟨stop, hstop⟩ := callHost_refused hrefused
    exact exec_of_callHost_stop h hstop
  ended body call words error m1 hhost hcall hactions := by
    obtain ⟨hfine, hfails⟩ := callHost_reached hhost hcall hactions
    refine ⟨fun hstores => ?_, cleans_endedCall m1 call, FrameSlot.freed_ops _, fun hnone => ?_,
      fun message hsome => ?_, ?_⟩
    · have hkept : m1.ctx.stack = (m0.hosting call.function).ctx.stack :=
        (keeps_stack_actAll hstores).of_ok hactions
      exact hkept
    · exact exec_of_callHost_ok h (hfine hnone)
    · exact exec_of_callHost_error h (hfails message hsome) fun _ _ => ⟨_, rfl⟩
    · intro slot hmem hheld
      have hnull := read64?_endedCall hmem hheld
      exact ⟨hnull, null_failing f this hnull⟩
  unprepared fault m' _ hslots := by
    have hctx := raise_ctx m' fault
    refine ⟨(m'.raise fault).engine_unprepare (by rw [hctx]) (by rw [hctx]; exact hslots),
      fun slot hnull heap => ?_⟩
    rw [hctx]
    exact Machine.op?_of_null heap hnull

/-- Takes a handle of a node. -/
def link : Func :=
  { id := ⟨1⟩, name := "link", kind := .host, owner := some ⟨1⟩
    signature := { params := [{ type := { kind := .object ⟨1⟩, handle := true } }] } }

/-- About to call a method of the host: the object is on top, and the handle that it takes is above
it. -/
def joining (hosts : List (FunctionId × HostBody)) (this : UInt64) : Machine where
  engine := { ({} : Engine) with functions := #[none, some link], hosts, heap := Machine.nodes }
  ctx :=
    { state := .active, function := some { name := "join" }, fp := { offset := 8 },
      sp := { offset := 4 }, needsCleanup := true
      stack := ((Stack.reset {} 8).set64 { offset := 4 } this).set64 { offset := 6 }
        (Handle.bits ⟨1, 1⟩) }

/-- The host function fails. The reference of its argument is given up nevertheless, and unpreparing
finds nothing more to do. -/
theorem host_call_arguments_failed : ∃ m', exec (runNested (execute 0)) (.callHost ⟨1⟩)
      (joining [(⟨1⟩, .ofActions [.fail "no"])] (Handle.bits ⟨0, 1⟩)) =
        .error (.cause (.host "no")) m' ∧
      (joining [(⟨1⟩, .ofActions [.fail "no"])] (Handle.bits ⟨0, 1⟩)).counts ⟨1, 1⟩ = some 2 ∧
        m'.counts ⟨1, 1⟩ = some 1 ∧
      m'.ctx.stack.read64? { offset := 6 } = some 0 ∧ (m'.raise (.host "no")).lastOps = [] ∧
      ∃ modules, (unprepare.after (m'.raise (.host "no"))).engine =
        (m'.raise (.host "no")).engine.withModules modules := by
  let m := joining [(⟨1⟩, .ofActions [.fail "no"])] (Handle.bits ⟨0, 1⟩)
  let call : HostCall := { function := link, args := { offset := 6 }, this := some ⟨0, 1⟩ }
  let m' := (failing link none).after ((m.hosting link).endedCall call)
  have hcalls : Calls m (.callHost ⟨1⟩) link none m := .direct (by rfl)
  have hdisposal := host_call_arguments (execute 0) hcalls
  have hcall : value? (hostCall link none m) = some (call, 4) := by
    have hobject : m.handleAt? m.ctx.sp = some ⟨0, 1⟩ := by decide +kernel
    show value? ((orFail Fault.nullPointer (m.handleAt? m.ctx.sp) >>= _) m) = _
    rw [hobject]
    rfl
  obtain ⟨-, -, -, -, hfails, hnull⟩ := hdisposal.ended (.ofActions [.fail "no"]) call 4 (some "no")
    (m.hosting link) (by rfl) hcall (by rfl)
  obtain ⟨stop, hended⟩ := hfails "no" (by rfl)
  have hcause : cause? (exec (runNested (execute 0)) (.callHost ⟨1⟩) m) = some (.host "no") := by
    decide +kernel
  have hstop : stop = .cause (.host "no") := by
    rw [hended] at hcause
    cases stop with
    | cause e => exact congrArg Stop.cause (Option.some.inj hcause)
    | overflow | outOfFuel => cases hcause
  rw [hstop] at hended
  have hops : (m'.raise (.host "no")).lastOps = [] := by decide +kernel
  obtain ⟨hunprepared, -⟩ := hdisposal.unprepared _ m' hended (by decide +kernel)
  rw [hops] at hunprepared
  refine ⟨m', hended, by decide +kernel, by decide +kernel, ?_, hops, hunprepared⟩
  exact (hnull (.owned { offset := 6 }) (by decide +kernel) (by decide +kernel)).2

/-- The reference of the argument is never given up if the object of the method is null, and if
there is no host function. -/
theorem refused_call_keeps_argument :
    (cause? (exec (runNested (execute 0)) (.callHost ⟨1⟩) (joining [(⟨1⟩, .done none)] 0)) =
      some .nullPointer ∧
      (unprepare.after (((exec (runNested (execute 0)) (.callHost ⟨1⟩)).after
        (joining [(⟨1⟩, .done none)] 0)).raise .nullPointer)).counts ⟨1, 1⟩ = some 2) ∧
    cause? (exec (runNested (execute 0)) (.callHost ⟨1⟩) (joining [] (Handle.bits ⟨0, 1⟩))) =
      some .unboundFunction ∧
      (unprepare.after (((exec (runNested (execute 0)) (.callHost ⟨1⟩)).after
        (joining [] (Handle.bits ⟨0, 1⟩))).raise .unboundFunction)).counts ⟨1, 1⟩ = some 2 := by
  refine ⟨⟨?_, ?_⟩, ?_, ?_⟩ <;> decide +kernel

end Exec
end ScriptVm
