import ScriptVm.Proofs.Execution.HostCalls
import ScriptVm.Proofs.Memory.Places

namespace ScriptVm

/-- The stack pointer that a call saves. A constructor is called with the object on top. -/
def Instr.callBase? (i : Instr) (sp : Pointer) : Option Pointer :=
  match i with
  | .alloc _ _ => sp.shift? (-2)
  | _ => some sp

/-- The context while its instruction is carried out: it is already at the next one. -/
def Context.advance (c : Context) : Context := { c with pc := c.pc + 1 }

def Context.frame (c : Context) (caller : Func) (sp : Pointer) : Frame :=
  { function := caller, pc := c.pc, fp := c.fp, sp, block := c.stack.current, module := c.module }

/-- How an instruction moves control. `ended` tells whether the run ends with it; only then control
stays at an instruction that never goes on to the next one. -/
inductive Transfer (e : Engine) (i : Instr) (ended : Prop) (c c' : Context) : Prop where
  | stay (hcontrol : c'.control = c.control) (hend : i.isTerminator = true → ended)
  | jump {pc : Nat} {f : Func} (hcontrol : c'.control = { c.control with pc })
      (hf : c.function = some f) (hpc : pc < f.code.size)
  | enter {caller : Func} {sp : Pointer} (hcaller : c.function = some caller)
    (hsp : i.callBase? c.sp = some sp)
    (hi : i.isTerminator = false) (hcalls : c'.calls = c.calls.push (c.frame caller sp))
    (hcallee : c'.function = none ∨
      c'.pc = 0 ∧ ∃ id callee, e.function? id = some callee ∧ c'.function = some callee)
    (hmodule : ∀ callee,
      c'.function = some callee → c'.module = Exec.moduleOf? { engine := e, ctx := c } callee)
  | leave {frame : Frame} {calls : CallStack} (hpop : c.calls.pop? = some (frame, calls))
      (hcalls : c'.calls = calls) (hf : c'.function = some frame.function) (hpc : c'.pc = frame.pc)
      (hmodule : c'.module = frame.module)

theorem Transfer.imp {e : Engine} {i : Instr} {ended ended' : Prop} {c c' : Context}
    (h : Transfer e i ended c c') (himp : ended → ended') : Transfer e i ended' c c' := by
  cases h with
  | stay hctl hend => exact .stay hctl fun hi => himp (hend hi)
  | jump hctl hf hpc => exact .jump hctl hf hpc
  | enter hclr hsp hi hcl hcee hmod => exact .enter hclr hsp hi hcl hcee hmod
  | leave hpop hcl hf hpc hmod => exact .leave hpop hcl hf hpc hmod

/-- A machine without the memory of its stack. -/
def Machine.bare (m : Machine) : Machine := m.onStack fun _ => {}

/-- The machine once its caller is saved. -/
def Machine.saved (m : Machine) (caller : Func) (block : Nat) (module : Option ModuleId)
    (fp : Pointer) : Machine :=
  (Exec.saveCaller caller block module fp).after m

/-- The machine at the beginning of the callee. -/
def Machine.entered (m : Machine) (callee : Func) (sp : Pointer) : Machine :=
  ((m.onContext fun c => { c with sp }).clearObjectVars callee).onContext fun c =>
    { c with pc := 0, function := some callee }

namespace Exec

variable {ε α β : Type}
variable {x : Exec ε α} {f : α → Exec ε β} {m m' m0 : Machine} {a : α} {stop : Stop ε} {i : Instr}
    {callee : Func}
  {calls : CallStack}

/-- After such a result no instruction follows. -/
def Ends : EStateM.Result (Stop ε) Machine α → Prop
  | .ok _ m => m.ctx.state = .finished
  | .error _ _ => True

/-- The callee is given the room it needs, but not its locals. -/
def Cramped (callee : Func) : Prop :=
  ∃ m m' fp, placeArgs callee m = .ok fp m' ∧ fp.shift? (-callee.locals.toNat) = none

/-- An instruction that began at `m` and gave the result moved control in one of the four ways. A
fault leaves control where it was, but for one of a return or of a call that finds no room for the
locals. -/
structure Moved (i : Instr) (m : Machine) (r : EStateM.Result (Stop ε) Machine α) : Prop where
  transfer : Transfer m.engine i (Ends r) m.ctx (left r).ctx
  fault : ∀ e m', r = .error (.cause e) m' → m'.ctx.control = m.ctx.control ∨
    (∃ words, i = .ret words) ∨
    ∃ id callee, m.engine.function? id = some callee ∧ Cramped callee

theorem Moved.stay {r : EStateM.Result (Stop ε) Machine α}
    (hcontrol : (left r).ctx.control = m.ctx.control)
    (hend : i.isTerminator = true → Ends r) : Moved i m r where
  transfer := .stay hcontrol hend
  fault e m' h := .inl (by rwa [h] at hcontrol)

theorem after_bind_induct {P : Machine → Prop} (hx : P (x.after m))
    (hf : ∀ a m', x m = .ok a m' → P m' → P ((f a).after m')) : P ((x >>= f).after m) := by
  apply bind_cases (Q := fun r => P (left r))
  · intro a m1 h
    rw [after_of_ok h] at hx
    exact hf a m1 h hx
  · intro stop m1 h
    rwa [after_of_error h] at hx

theorem bind_ok {b : β} (h : (x >>= f) m = .ok b m') :
    ∃ a m1, x m = .ok a m1 ∧ f a m1 = .ok b m' := by
  revert h
  exact bind_cases (Q := fun r => r = .ok b m' → _)
    (fun a m1 hx hf => ⟨a, m1, hx, hf⟩) fun _ _ _ h => nomatch h

theorem ctx_bind (f : Context → Exec ε β) (m : Machine) : (ctx >>= f) m = f m.ctx m := rfl

theorem ctx_ok {f : Context → Exec ε β} {b : β} (h : (ctx >>= f) m = .ok b m') :
    f m.ctx m = .ok b m' := h

theorem engine_ok {f : Engine → Exec ε β} {b : β} (h : (engine >>= f) m = .ok b m') :
    f m.engine m = .ok b m' := h

theorem orFail_ok {e : ε} {o : Option α} (h : orFail e o m = .ok a m') : o = some a ∧ m' = m := by
  cases o with
  | none => cases h
  | some b =>
    cases h
    exact ⟨rfl, rfl⟩

theorem readStack_ok {p : Pointer} {fault : Fault} {v : UInt32}
    (h : readStack p fault m = .ok v m') : m' = m := by
  have hread := ctx_ok h
  exact (orFail_ok hread).2

theorem getVar_ok {offset : Int16} {v : UInt32} (h : getVar offset m = .ok v m') : m' = m := by
  obtain ⟨p, m1, hp, hread⟩ := bind_ok h
  replace hp := ctx_ok hp
  rw [readStack_ok hread, (orFail_ok hp).2]

theorem peek64_ok {words : Nat} {v : UInt64} (h : peek64 words m = .ok v m') : m' = m := by
  obtain ⟨p, m1, hp, hread⟩ := bind_ok h
  replace hp := ctx_ok hp
  replace hread := ctx_ok hread
  rw [(orFail_ok hread).2, (orFail_ok hp).2]

theorem functionOf_ok {id : FunctionId} {f : Func} (h : functionOf id m = .ok f m') :
    m.engine.function? id = some f ∧ m' = m := by
  have hf := engine_ok h
  exact orFail_ok hf

theorem functionOf_of_some {id : FunctionId} {f : Func} (h : m.engine.function? id = some f) :
    functionOf id m = .ok f m := by
  show orFail Fault.badCode (m.engine.function? id) m = _
  rw [h]
  rfl

theorem wordOrStop_ok {n : Nat} {u : Unit} (h : (wordOrStop n : Exec ε Unit) m = .ok u m') :
    n < 4294967296 ∧ m' = m := by
  unfold wordOrStop at h
  split at h
  · cases h
    exact ⟨‹_›, rfl⟩
  · cases h

theorem wordOrStop_of_lt {n : Nat} (h : n < 4294967296) (m : Machine) :
    (wordOrStop n : Exec ε Unit) m = .ok () m := by
  rw [wordOrStop, if_pos h]
  rfl

theorem ensure_ok {b : Bool} {u : Unit} (h : (ensure b : Exec ε Unit) m = .ok u m') :
    b = true ∧ m' = m := by
  unfold ensure at h
  split at h
  · cases h
    exact ⟨‹_›, rfl⟩
  · cases h

theorem wordOrStop_error {n : Nat} (h : (wordOrStop n : Exec ε Unit) m = .error stop m') :
    stop = .overflow := by
  unfold wordOrStop at h
  split at h
  · cases h
  · cases h
    rfl

theorem ensure_error {b : Bool} (h : (ensure b : Exec ε Unit) m = .error stop m') :
    stop = .overflow := by
  unfold ensure at h
  split at h
  · cases h
  · cases h
    rfl

theorem newObject_ok {type : ObjectType} {h : Handle}
    (hnew : (newObject type : Exec ε Handle) m = .ok h m') :
    m'.ctx = m.ctx ∧ m'.engine = (m.engine.onHeap fun heap => heap.alloc type).2 := by
  replace hnew := engine_ok hnew
  obtain ⟨_, m2, hslot, halloc⟩ := bind_ok hnew
  obtain ⟨-, rfl⟩ := ensure_ok hslot
  rw [onHeap_eq] at halloc
  cases halloc
  exact ⟨rfl, rfl⟩

/-- What a store makes of a machine in which its address leads to a word. -/
inductive Stores (m : Machine) (v : UInt32) : Address → Machine → Prop where
  | stack {p : Pointer} (h : m.ctx.stack.contains p = true) :
    Stores m v (.stack p) (m.onStack fun s => s.set p v)
  | global {id : ModuleId} {offset : UInt32} {g : Module} (hg : addressedModule? m id = some g)
      (hword : g.hasGlobalWord offset = true) :
      Stores m v (.global id offset)
        (m.onEngine fun e => e.changeModule id fun g => g.writeGlobal offset v)
  | field {index : UInt32} {generation : UInt16} {offset : UInt32}
      (h : (m.engine.heap.field? index generation offset).isSome = true) :
      Stores m v (.field index generation offset)
        (m.onEngine fun e => { e with heap := e.heap.setField index generation offset v })

theorem storeWord_cases (a : Address) (v : UInt32) (m : Machine) :
    (∃ m', (load? m a).isSome = true ∧ Stores m v a m' ∧ storeWord a v m = .ok () m') ∨
      load? m a = none ∧ storeWord a v m = .error (.cause .nullPointer) m := by
  have hchecked (b : Bool) (f : Machine → Machine) (hread : (load? m a).isSome = b)
      (hstores : b = true → Stores m v a (f m))
      (hstore : storeWord a v m = (if b then modify f else fail .nullPointer : Exec Fault Unit) m) :
      (∃ m', (load? m a).isSome = true ∧ Stores m v a m' ∧ storeWord a v m = .ok () m') ∨
        load? m a = none ∧ storeWord a v m = .error (.cause .nullPointer) m := by
    cases b with
    | true => exact .inl ⟨_, hread, hstores rfl, hstore⟩
    | false =>
      exact .inr ⟨Option.isSome_eq_false_iff.mp hread |> Option.isNone_iff_eq_none.mp, hstore⟩
  cases a with
  | null | string => exact .inr ⟨rfl, rfl⟩
  | stack p => exact hchecked _ _ (m.ctx.stack.contains_eq p).symm .stack rfl
  | global id offset =>
    refine hchecked ((addressedModule? m id).any fun g => g.hasGlobalWord offset) _ ?_ (fun h => ?_) rfl
    · cases hg : addressedModule? m id with
      | none => simp [load?, hg]
      | some g =>
        rw [load?, hg, Bool.eq_iff_iff]
        simp [Module.readGlobal?, Module.hasGlobalWord]
    · obtain ⟨g, hg, hword⟩ := (Option.any_eq_true _ _).mp h
      exact .global hg hword
  | field index generation offset =>
    exact hchecked (m.engine.heap.field? index generation offset).isSome _ rfl
      (fun h => .field h) rfl

theorem stores_of_ok {a : Address} (h : storeWord a v m = .ok () m') : Stores m v a m' := by
  obtain ⟨m1, -, hstores, hok⟩ | ⟨-, hflt⟩ := storeWord_cases a v m
  · cases hok.symm.trans h
    exact hstores
  · cases hflt.symm.trans h

theorem storeWord_of_load? {a : Address} {w : UInt32} (h : load? m a = some w) (v : UInt32) :
    ∃ m', storeWord a v m = .ok () m' := by
  obtain ⟨m', -, -, hok⟩ | ⟨hnone, -⟩ := storeWord_cases a v m
  · exact ⟨m', hok⟩
  · cases hnone.symm.trans h

theorem storeWord_of_none {a : Address} (h : load? m a = none) (v : UInt32) :
    storeWord a v m = .error (.cause .nullPointer) m := by
  obtain ⟨m', hsome, -⟩ | ⟨-, hflt⟩ := storeWord_cases a v m
  · rw [h] at hsome
    cases hsome
  · exact hflt

theorem keeps_storeWord {γ : Type} {view : Machine → γ}
    (h : ∀ {m a v m'}, Stores m v a m' → view m' = view m) (a : Address) (v : UInt32) :
    Keeps view (storeWord a v) :=
  keeps_of fun m => by
    obtain ⟨m', -, hstores, hok⟩ | ⟨-, hflt⟩ := storeWord_cases a v m
    · rw [after_of_ok hok, h hstores]
    · rw [after_of_error hflt]

theorem moved_steady (x : Exec ε α) [h : Keeps Machine.outline x] (hi : i.isTerminator = false)
    (hout : m.outline = m0.outline) : Moved i m0 (x m) := by
  refine .stay (congrArg Outline.control ((h.view_after m).trans hout)) fun hterm => ?_
  rw [hi] at hterm
  cases hterm

theorem moved_bind [hx : Keeps Machine.outline x] (hout : m.outline = m0.outline)
    (h : ∀ a m', x m = .ok a m' → m'.outline = m0.outline → Moved i m0 (f a m')) :
    Moved i m0 ((x >>= f) m) := by
  refine bind_cases (Q := Moved i m0)
    (fun a m' hok => h a m' hok ((hx.of_ok hok).trans hout)) fun stop m' herr => ?_
  exact .stay (congrArg Outline.control ((hx.of_error herr).trans hout)) fun _ => trivial

theorem bind_of_ok (h : x m = .ok a m') : (x >>= f) m = f a m' := by
  simp only [bind, EStateM.bind, h]

theorem bind_of_error (h : x m = .error stop m') (f : α → Exec ε β) :
    (x >>= f) m = .error stop m' := by
  simp only [bind, EStateM.bind, h]

/-- How a search for room that has failed is reported. -/
def stopOf : GrowFailure → Stop Fault
  | .full => .cause .stackOverflow
  | .overflow => .overflow

theorem growStack_of_ok {needed args : Nat} {p : Pointer} {s : Stack}
    (h : m.ctx.stack.grow m.ctx.sp needed args = (.ok p, s)) :
    growStack needed args m = .ok p (m.onStack fun _ => s) := by
  unfold growStack
  rw [ctx_bind, bind_of_ok (x := modifyGet _) rfl, h]
  rfl

theorem growStack_of_error {needed args : Nat} {failure : GrowFailure} {s : Stack}
    (h : m.ctx.stack.grow m.ctx.sp needed args = (.error failure, s)) :
    growStack needed args m = .error (stopOf failure) (m.onStack fun _ => s) := by
  unfold growStack
  rw [ctx_bind, bind_of_ok (x := modifyGet _) rfl, h]
  cases failure <;> rfl

/-- How the search for room for a function ends: at once, since a number of words is no word;
without room; or at a place. If that is not the top, the arguments are copied to it as far as they
are there. -/
inductive Places (f : Func) (m : Machine) : EStateM.Result (Stop Fault) Machine Pointer → Prop where
  | large (h : f.argWords < 4294967296 → 4294967296 ≤ f.stackNeeded.toNat + Context.reserve) :
    Places f m (.error .overflow m)
  | none {failure : GrowFailure} {s : Stack}
      (h : m.ctx.stack.grow m.ctx.sp (f.stackNeeded.toNat + Context.reserve) f.argWords =
        (.error failure, s)) :
      Places f m (.error (stopOf failure) (m.onStack fun _ => s))
  | here {s : Stack} (h : m.ctx.stack.grow m.ctx.sp
    (f.stackNeeded.toNat + Context.reserve) f.argWords = (.ok m.ctx.sp, s)) :
      Places f m (.ok m.ctx.sp (m.onStack fun _ => s))
  | moved {fp : Pointer} {s t : Stack} (hne : fp ≠ m.ctx.sp)
      (h : m.ctx.stack.grow m.ctx.sp (f.stackNeeded.toNat + Context.reserve) f.argWords = (.ok fp, s))
      (hcopy : s.copy m.ctx.sp fp f.argWords = (true, t)) :
        Places f m (.ok fp (m.onStack fun _ => t))
  | torn {fp : Pointer} {s t : Stack} (hne : fp ≠ m.ctx.sp)
      (h : m.ctx.stack.grow m.ctx.sp (f.stackNeeded.toNat + Context.reserve) f.argWords = (.ok fp, s))
      (hcopy : s.copy m.ctx.sp fp f.argWords = (false, t)) :
        Places f m (.error (.cause .stackOverflow) (m.onStack fun _ => t))

theorem placeArgs_cases (f : Func) (m : Machine) : Places f m (placeArgs f m) := by
  unfold placeArgs
  by_cases hargs : f.argWords < 4294967296
  · by_cases hneed : f.stackNeeded.toNat + Context.reserve < 4294967296
    · rw [bind_of_ok (wordOrStop_of_lt hargs m), bind_of_ok (wordOrStop_of_lt hneed m), ctx_bind]
      cases hgrow : m.ctx.stack.grow m.ctx.sp (f.stackNeeded.toNat + Context.reserve) f.argWords with
      | mk result s =>
        cases result with
        | error failure =>
          rw [bind_of_error (growStack_of_error hgrow)]
          exact .none hgrow
        | ok fp =>
          rw [bind_of_ok (growStack_of_ok hgrow)]
          by_cases hmoved : fp = m.ctx.sp
          · subst hmoved
            rw [if_neg fun h => h rfl]
            exact .here hgrow
          · rw [if_pos hmoved]
            cases hcopy : s.copy m.ctx.sp fp f.argWords with
            | mk copied t =>
              show Places f m
                  ((if !(s.copy m.ctx.sp fp f.argWords).1 then _ else _ : Exec Fault Pointer)
                (m.onStack fun _ => (s.copy m.ctx.sp fp f.argWords).2))
              rw [hcopy]
              cases copied with
              | true => exact .moved hmoved hgrow hcopy
              | false => exact .torn hmoved hgrow hcopy
    · rw [wordOrStop, if_pos hargs, wordOrStop, if_neg hneed]
      exact .large fun _ => by omega
  · rw [wordOrStop, if_neg hargs]
    exact .large fun h => absurd h hargs

theorem deaf_modifyGet (f : Stack → α × Stack) : Deaf (modifyGet fun m : Machine =>
      ((f m.ctx.stack).1, { m with ctx := { m.ctx with stack := (f m.ctx.stack).2 } }) : Exec ε α) :=
  ⟨fun _ _ => rfl⟩

instance deaf_growStack (needed args : Nat) : Deaf (growStack needed args) := by
  refine misses_ctx (fun _ _ => rfl) fun c => ?_
  have hgrow := deaf_modifyGet (ε := Fault) fun s => s.grow c.sp needed args
  refine .bind fun result => ?_
  cases result with
  | ok p => exact misses_pure p
  | error failure => cases failure <;> infer_instance

instance keeps_placeArgs (callee : Func) : Keeps Machine.bare (placeArgs callee) :=
  keeps_of fun m => by
    have hplaces := placeArgs_cases callee m
    show (left (placeArgs callee m)).bare = m.bare
    generalize placeArgs callee m = r at hplaces ⊢
    cases hplaces <;> rfl

instance deaf_placeArgs (callee : Func) : Deaf (placeArgs callee) := by
  refine .bind fun _ => ?_
  refine .bind fun _ => ?_
  refine misses_ctx (fun _ _ => rfl) fun c => ?_
  refine .bind fun newSp => ?_
  have := deaf_modifyGet (ε := Fault) fun s => s.copy c.sp newSp callee.argWords
  infer_instance

theorem beginCallee_eq (callee : Func) (fp : Pointer) (m : Machine) : beginCallee callee fp m =
      match fp.shift? (-callee.locals.toNat) with
      | none => .error (.cause .stackOverflow) m
      | some sp => .ok () (((m.onContext fun c => { c with sp }).clearObjectVars callee).onContext
          fun c => { c with pc := 0, function := some callee }) := by
  unfold beginCallee
  cases fp.shift? (-callee.locals.toNat) <;> rfl

theorem moduleOf?_of_catalog (hcat : m'.catalog = m.catalog) (hmod : m'.ctx.module = m.ctx.module)
    (f : Func) : moduleOf? m' f = moduleOf? m f := by
  simp only [moduleOf?, hmod, Engine.module?_isSome_of_catalog hcat]

theorem saved_ctx (m : Machine) (caller : Func) (block : Nat) (module : Option ModuleId)
    (fp : Pointer) : (m.saved caller block module fp).ctx =
      { m.ctx with
        function := none, module, fp
        calls := m.ctx.calls.push
          { function := caller, pc := m.ctx.pc, fp := m.ctx.fp, sp := m.ctx.sp, block,
            module := m.ctx.module } } := by
  cases module <;> rfl

theorem bearing_entered (m : Machine) (callee : Func) (sp : Pointer) :
    (m.entered callee sp).bearing =
      (m.onContext fun c => { c with pc := 0, function := some callee }).bearing :=
  congrArg (fun b : Bearing =>
    { b with control := { b.control with pc := 0, function := some callee } })
    ((m.onContext fun c => { c with sp }).bearing_clearObjectVars callee)

theorem entered_calls (m : Machine) (callee : Func) (sp : Pointer) :
    (m.entered callee sp).ctx.calls = m.ctx.calls :=
  congrArg (fun b => b.control.calls) (bearing_entered m callee sp)

/-- How a call ends: the arguments find no place, there is no function to return to, the locals find
none, or the callee begins. -/
inductive CallEnds (callee : Func) (m : Machine) :
    EStateM.Result (Stop Fault) Machine Unit → Prop where
  | unplaced {stop : Stop Fault} {m1 : Machine} (h : placeArgs callee m = .error stop m1) :
    CallEnds callee m (.error stop m1)
  | orphan {fp : Pointer} {m1 : Machine} (h : placeArgs callee m = .ok fp m1)
      (hf : m1.ctx.function = none) : CallEnds callee m (.error (.cause .badCode) m1)
  | cramped {fp : Pointer} {m1 : Machine} {caller : Func} (h : placeArgs callee m = .ok fp m1)
    (hf : m1.ctx.function = some caller)
      (hsp : fp.shift? (-callee.locals.toNat) = none) :
      CallEnds callee m (.error (.cause .stackOverflow)
        (m1.saved caller m.ctx.stack.current (moduleOf? m1 callee) fp))
  | begun {fp sp : Pointer} {m1 : Machine} {caller : Func} (h : placeArgs callee m = .ok fp m1)
    (hf : m1.ctx.function = some caller)
      (hsp : fp.shift? (-callee.locals.toNat) = some sp) :
      CallEnds callee m
        (.ok () ((m1.saved caller m.ctx.stack.current (moduleOf? m1 callee) fp).entered callee sp))

theorem callScript_cases (callee : Func) (m : Machine) :
    CallEnds callee m (callScript callee m) := by
  cases h : placeArgs callee m with
  | error stop m1 =>
    have herr : callScript callee m = .error stop m1 := bind_of_error h _
    rw [herr]
    exact .unplaced h
  | ok fp m1 =>
    have hrest : callScript callee m = (orFail Fault.badCode m1.ctx.function >>= fun caller => do
        saveCaller caller m.ctx.stack.current (moduleOf? (← get) callee) fp
        beginCallee callee fp) m1 := by
      show (placeArgs callee >>= _) m = _
      rw [bind_of_ok h]
      rfl
    cases hf : m1.ctx.function with
    | none =>
      rw [hrest, hf]
      exact .orphan h hf
    | some caller =>
      have hbegin : callScript callee m =
          beginCallee callee fp (m1.saved caller m.ctx.stack.current (moduleOf? m1 callee) fp) := by
        rw [hrest, hf]
        rfl
      rw [hbegin, beginCallee_eq]
      cases hsp : fp.shift? (-callee.locals.toNat) with
      | none => exact .cramped h hf hsp
      | some sp => exact .begun h hf hsp

theorem callScript_moved (hout : m.outline = m0.outline)
    (hsp : i.callBase? m0.ctx.sp = some m.ctx.sp) (hi : i.isTerminator = false)
    (hcee : ∃ id, m.engine.function? id = some callee) :
    Moved i m0 (callScript callee m) := by
  obtain ⟨id, hid⟩ := hcee
  have hid0 : m0.engine.function? id = some callee := by
    rw [← hid]
    exact (Engine.function?_of_catalog (congrArg Outline.catalog hout) id).symm
  have hctl {m1 : Machine} (hbare : m1.bare = m.bare) : m1.ctx.control = m0.ctx.control := by
    rw [← show m.ctx.control = m0.ctx.control from congrArg Outline.control hout]
    exact congrArg (fun m => m.ctx.control) hbare
  have hentered {fp : Pointer} {m1 m2 : Machine} {caller : Func} {ended : Prop}
      (h : placeArgs callee m = .ok fp m1) (hf : m1.ctx.function = some caller)
      (hkept : m2.ctx.calls = (m1.saved caller m.ctx.stack.current (moduleOf? m1 callee) fp).ctx.calls)
      (hmodule : m2.ctx.module = moduleOf? m1 callee)
      (hbegun : m2.ctx.function = none ∨ m2.ctx.pc = 0 ∧ m2.ctx.function = some callee) :
      Transfer m0.engine i ended m0.ctx m2.ctx := by
    have hbare : m1.bare = m.bare := Keeps.of_ok h
    have hsp1 : m1.ctx.sp = m.ctx.sp := congrArg (fun m => m.ctx.sp) hbare
    have hblk : m.ctx.stack.current = m0.ctx.stack.current := congrArg Outline.block hout
    have hcat : m1.catalog = m0.catalog :=
      (congrArg Machine.catalog hbare).trans (congrArg Outline.catalog hout)
    obtain ⟨hfn, hmod, hpc, hfp, hfrs⟩ := Control.mk.inj (hctl hbare)
    refine .enter (hfn.symm.trans hf) hsp hi ?_ ?_ ?_
    · rw [hkept, saved_ctx, hsp1, hblk, hpc, hfp, hmod, hfrs]
      rfl
    · exact hbegun.imp_right fun hfun => ⟨hfun.1, id, callee, hid0, hfun.2⟩
    · intro entered hentd
      obtain hnone | ⟨-, hfun⟩ := hbegun
      · cases hnone.symm.trans hentd
      · cases hfun.symm.trans hentd
        exact hmodule.trans (moduleOf?_of_catalog hcat hmod callee)
  have hcases := callScript_cases callee m
  generalize callScript callee m = r at hcases ⊢
  cases hcases with
  | unplaced h => exact .stay (hctl (Keeps.of_error h)) fun _ => trivial
  | orphan h hf => exact .stay (hctl (Keeps.of_ok h)) fun _ => trivial
  | cramped h hf hlocs =>
    exact ⟨hentered h hf rfl rfl (.inl rfl),
      fun _ _ _ => .inr (.inr ⟨id, callee, hid0, _, _, _, h, hlocs⟩)⟩
  | begun h hf hlocs =>
    exact ⟨hentered h hf (entered_calls ..)
      (congrArg (fun b => b.control.module) (bearing_entered ..)) (.inr ⟨rfl, rfl⟩),
      fun _ _ hr => nomatch hr⟩

theorem frames_of_pop {rest : CallStack} {top : Frame} (h : calls.pop? = some (top, rest)) :
    calls.frames = top :: rest.frames := by
  unfold CallStack.pop? at h
  split at h
  · cases h
  · rename_i hcl
    cases h
    exact hcl

theorem restore_ctx (m : Machine) (f : Frame) (calls : CallStack) : (m.restore f calls).ctx =
      { m.ctx with
        module := f.module, fp := f.fp, function := some f.function, pc := f.pc, sp := f.sp, calls
        stack := { m.ctx.stack with current := f.block } } := by
  unfold Machine.restore
  cases m.ctx.module <;> rfl

theorem restore_catalog (m : Machine) (f : Frame) (calls : CallStack) :
    (m.restore f calls).catalog = m.catalog :=
  congrArg Outline.catalog (m.outline_leaveModule m.ctx.module)

theorem returnFrom_outermost (words : Nat) (h : m.ctx.calls.pop? = none) :
    returnFrom words m = .ok false m := by
  rw [returnFrom, ctx_bind, h]
  rfl

theorem returnFrom_caller (words : Nat) {frame : Frame}
    (h : m.ctx.calls.pop? = some (frame, calls)) : returnFrom words m =
      match frame.sp.shift? words with
      | some sp => .ok true ((m.restore frame calls).onContext fun c => { c with sp })
      | none => .error (.cause .badCode) (m.restore frame calls) := by
  have hsp : (m.restore frame calls).ctx.sp = frame.sp := by rw [restore_ctx]
  rw [returnFrom, ctx_bind, h]
  show (orFail Fault.badCode ((m.restore frame calls).ctx.sp.shift? words) >>= _)
      (m.restore frame calls) = _
  rw [hsp]
  cases frame.sp.shift? words <;> rfl

theorem exec_ret_outermost (nested : Nested) (words : UInt16) (h : m.ctx.calls.pop? = none) :
    exec nested (.ret words) m = .ok .halt (m.onContext fun c => { c with state := .finished }) := by
  show (returnFrom words.toNat >>= _) m = _
  rw [bind_of_ok (returnFrom_outermost words.toNat h)]
  rfl

theorem exec_ret_caller (nested : Nested) (words : UInt16) {frame : Frame}
    (h : m.ctx.calls.pop? = some (frame, calls)) : exec nested (.ret words) m =
      match frame.sp.shift? words.toNat with
      | some sp => .ok .go ((m.restore frame calls).onContext fun c => { c with sp })
      | none => .error (.cause .badCode) (m.restore frame calls) := by
  show (returnFrom words.toNat >>= _) m = _
  simp only [bind, EStateM.bind, returnFrom_caller words.toNat h]
  cases frame.sp.shift? words.toNat <;> rfl

theorem ret_moved (nested : Nested) (words : UInt16) (m : Machine) :
    Moved (.ret words) m (exec nested (.ret words) m) := by
  cases h : m.ctx.calls.pop? with
  | none =>
    rw [exec_ret_outermost nested words h]
    exact .stay rfl fun _ => rfl
  | some popped =>
    obtain ⟨frame, calls⟩ := popped
    have hrst := restore_ctx m frame calls
    rw [exec_ret_caller nested words h]
    cases frame.sp.shift? words.toNat with
    | none | some sp =>
      exact ⟨.leave h (congrArg Context.calls hrst) (congrArg Context.function hrst)
        (congrArg Context.pc hrst) (congrArg Context.module hrst),
          fun _ _ _ => .inr (.inl ⟨words, rfl⟩)⟩

theorem jumpBy_eq {f : Func} (hf : m.ctx.function = some f) (offset : Int) : jumpBy offset m =
      if 0 ≤ (m.ctx.pc : Int) + offset ∧ (m.ctx.pc : Int) + offset < f.code.size then
        .ok () (m.onContext fun c => { c with pc := ((m.ctx.pc : Int) + offset).toNat })
      else .error (.cause .badCode) m := by
  show (if 0 ≤ (m.ctx.pc : Int) + offset ∧
      (m.ctx.pc : Int) + offset < (m.ctx.function.map fun f => (f.code.size : Int)).getD 0
        then _ else _ : Exec Fault Unit) m = _
  rw [hf]
  simp only [Option.map_some, Option.getD_some]
  by_cases h : 0 ≤ (m.ctx.pc : Int) + offset ∧ (m.ctx.pc : Int) + offset < f.code.size
  · rw [if_pos h, if_pos h]
    rfl
  · rw [if_neg h, if_neg h]
    rfl

theorem jumpBy_no_function (hf : m.ctx.function = none) (offset : Int) :
    jumpBy offset m = .error (.cause .badCode) m := by
  show (if 0 ≤ (m.ctx.pc : Int) + offset ∧
      (m.ctx.pc : Int) + offset < (m.ctx.function.map fun f => (f.code.size : Int)).getD 0
        then _ else _ : Exec Fault Unit) m = _
  rw [hf]
  simp only [Option.map_none, Option.getD_none]
  rw [if_neg (by omega)]
  rfl

theorem jumpBy_moved (i : Instr) (offset : Int) (m : Machine) : Moved i m (jumpBy offset m) := by
  cases hf : m.ctx.function with
  | none =>
    rw [jumpBy_no_function hf]
    exact .stay rfl fun _ => trivial
  | some f =>
    rw [jumpBy_eq hf]
    split
    · rename_i h
      have hpc : ((m.ctx.pc : Int) + offset).toNat < f.code.size := by omega
      exact ⟨.jump rfl hf hpc, fun _ _ hr => nomatch hr⟩
    · exact .stay rfl fun _ => trivial

theorem moved_go {x : Exec Fault Unit} (h : Moved i m0 (x m)) :
    Moved i m0 ((do x; pure Flow.go) m) := by
  refine bind_cases (Q := Moved i m0) (fun a m' hx => ?_) fun stop m' hx => ?_
  · rw [hx] at h
    exact ⟨h.transfer, fun _ _ hr => nomatch hr⟩
  · rw [hx] at h
    refine ⟨h.transfer, fun e m1 hr => h.fault e m1 ?_⟩
    cases hr
    rfl

theorem simple_moved (hret : ∀ words, i ≠ .ret words) (m : Machine) : Moved i m (simple i m) := by
  cases hjump : i.isJump with
  | false =>
    have hplain := plain_simple hjump
    have hi : i.isTerminator = false := by
      cases i with
      | ret words => exact absurd rfl (hret words)
      | jump | jumpTable => cases hjump
      | _ => rfl
    exact moved_steady (simple i) hi rfl
  | true =>
    cases i with
    | jump offset => exact jumpBy_moved _ _ m
    | branch test offset =>
      show Moved _ m ((if test.holds m.ctx.register then jumpBy offset.toInt else pure ()) m)
      split
      · exact jumpBy_moved _ _ m
      · exact .stay rfl fun hterm => nomatch hterm
    | jumpTable var =>
      refine moved_bind rfl fun v m' h _ => ?_
      rw [getVar_ok h]
      exact jumpBy_moved _ _ m
    | _ => cases hjump

theorem checkInterrupt_eq (m : Machine) : checkInterrupt m =
      if m.ctx.interruptRequested then
        .ok .halt (m.onContext fun c => { c with state := .suspended }) else .ok .go m := by
  show (if m.ctx.interruptRequested then _ else _ : Exec Fault Flow) m = _
  by_cases h : m.ctx.interruptRequested
  · rw [if_pos h, if_pos h]
    rfl
  · rw [if_neg h, if_neg h]
    rfl

theorem checkInterrupt_moved (hi : i.isTerminator = false) (hout : m.outline = m0.outline) :
    Moved i m0 (checkInterrupt m) := by
  have hctl : m.ctx.control = m0.ctx.control := congrArg Outline.control hout
  rw [checkInterrupt_eq]
  split
  · exact .stay hctl fun hterm => nomatch hi.symm.trans hterm
  · exact .stay hctl fun hterm => nomatch hi.symm.trans hterm

theorem callHostFrom_moved (nested : Nested)
    [∀ id args, Keeps Machine.outline (nested id args)] (f : Func)
    (hi : i.isTerminator = false) (m : Machine) : Moved i m (callHostFrom nested f m) := by
  refine moved_bind rfl fun words m1 _ hout1 => ?_
  refine moved_bind hout1 fun _ m2 _ hout2 => ?_
  exact checkInterrupt_moved hi hout2

instance plain_abandonNew (args : Nat) (h : Handle) : Plain (abandonNew args h) := by
  refine .bind fun _ => ?_
  refine .bind fun _ => ?_
  refine .bind fun a => ?_
  cases a <;> infer_instance

instance keeps_sp_modifyEngine (f : Engine → Engine) :
    Keeps (fun m => m.ctx.sp) (modifyEngine f : Exec ε Unit) :=
  ⟨fun _ => rfl⟩

instance keeps_sp_onStack (f : Stack → Stack) :
    Keeps (fun m => m.ctx.sp) (modify fun m => m.onStack f : Exec ε PUnit) :=
  ⟨fun _ => rfl⟩

instance keeps_sp_writeStack64 (p : Pointer) (v : UInt64) (fault : Fault) :
    Keeps (fun m => m.ctx.sp) (writeStack64 p v fault) := obeys_bind _ _

instance keeps_sp_storeWord (a : Address) (v : UInt32) :
    Keeps (fun m => m.ctx.sp) (storeWord a v) := by
  cases a with
  | null | string => exact keeps_fail _
  | stack | global | field => exact obeys_bind _ _

theorem storeNew_sp {a : Address} {h : Handle} (hstore : storeNew a h m = .ok () m') :
    m'.ctx.sp = m.ctx.sp := by
  have hkeeps : Keeps (fun m => m.ctx.sp) (storeWord64 a h.bits) := obeys_bind _ _
  cases hword : storeWord64 a h.bits m with
  | ok u m1 =>
    simp only [storeNew, hword] at hstore
    cases hstore
    exact hkeeps.of_ok hword
  | error stop m1 =>
    simp only [storeNew, hword] at hstore
    cases hstore

theorem push64_sp {v : UInt64} (h : push64 v m = .ok () m') :
    m.ctx.sp.shift? (-2) = some m'.ctx.sp := by
  obtain ⟨u, m1, hmove, hwr⟩ := bind_ok h
  have hkeeps : Keeps (fun m => m.ctx.sp) (do writeStack64 (← ctx).sp v .stackOverflow) :=
    obeys_bind _ _
  have hsp : m'.ctx.sp = m1.ctx.sp := hkeeps.of_ok hwr
  replace hmove := ctx_ok hmove
  obtain ⟨sp, m3, hshift, hset⟩ := bind_ok hmove
  obtain ⟨hshift, rfl⟩ := orFail_ok hshift
  cases hset
  rw [hshift, hsp]
  rfl

theorem enterConstructor_moved (type : TypeId) (constructor : FunctionId) {f : Func} (h : Handle)
    (hout : m.outline = m0.outline) (hsp : m.ctx.sp = m0.ctx.sp)
    (hf : ∃ id, m0.engine.function? id = some f) :
    Moved (.alloc type constructor) m0 (enterConstructor f h m) := by
  refine moved_bind hout fun bits m1 h1 _ => ?_
  obtain rfl := peek64_ok h1
  refine moved_bind hout fun a m2 h2 _ => ?_
  obtain ⟨-, rfl⟩ := orFail_ok h2
  refine moved_bind hout fun _ m3 h3 hout3 => ?_
  refine moved_bind hout3 fun _ m4 h4 hout4 => ?_
  have hbase : m0.ctx.sp.shift? (-2) = some m4.ctx.sp := by
    rw [← hsp, ← storeNew_sp h3]
    exact push64_sp h4
  obtain ⟨id, hid⟩ := hf
  have hid4 : m4.engine.function? id = some f := by
    rw [Engine.function?_of_catalog (congrArg Outline.catalog hout4), hid]
  exact callScript_moved hout4 hbase rfl ⟨id, hid4⟩

theorem resolveMethod?_table {e : Engine} {declared f : Func} {object : Handle}
    (h : e.resolveMethod? declared object = some f) : ∃ id, e.function? id = some f := by
  unfold Engine.resolveMethod? at h
  simp only [Option.bind_eq_bind, Option.bind_eq_some_iff] at h
  obtain ⟨o, -, h⟩ := h
  split at h
  · obtain ⟨real, hreal, h⟩ := Option.bind_eq_some_iff.mp h
    obtain ⟨index, -, hreal⟩ := Option.bind_eq_some_iff.mp hreal
    obtain ⟨id, -, hid⟩ := Option.bind_eq_some_iff.mp hreal
    split at h
    · cases h
      exact ⟨id, hid⟩
    · cases h
  · obtain ⟨real, hreal, h⟩ := Option.bind_eq_some_iff.mp h
    obtain ⟨method, hmeth, hreal⟩ := Option.bind_eq_some_iff.mp hreal
    obtain ⟨id, -, hid⟩ := List.mem_filterMap.mp (List.mem_of_find?_eq_some hmeth)
    split at h
    · cases h
      split at hreal
      · obtain ⟨id, -, hid⟩ := Option.bind_eq_some_iff.mp hreal
        exact ⟨id, hid⟩
      · cases hreal
        exact ⟨id, hid⟩
    · cases h
  · cases h

theorem exec_moved (nested : Nested) [∀ id args, Keeps Machine.outline (nested id args)] (i : Instr)
    (m : Machine) : Moved i m (exec nested i m) := by
  cases i with
  | call id =>
    refine moved_bind rfl fun f m' h _ => ?_
    obtain ⟨hf, rfl⟩ := functionOf_ok h
    exact moved_go (callScript_moved rfl rfl rfl ⟨id, hf⟩)
  | callHost id =>
    refine moved_bind rfl fun f m' h _ => ?_
    obtain ⟨-, rfl⟩ := functionOf_ok h
    exact callHostFrom_moved nested f rfl m'
  | callBound id =>
    refine moved_go ?_
    refine moved_bind (x := orFail Fault.unboundFunction _) rfl fun f m' h _ => ?_
    obtain ⟨htgt, rfl⟩ := orFail_ok h
    simp only [Option.bind_eq_bind, Option.bind_eq_some_iff] at htgt
    obtain ⟨g, -, k, -, slot, -, target, -, hf⟩ := htgt
    exact callScript_moved rfl rfl rfl ⟨target, hf⟩
  | callMethod id =>
    refine moved_bind rfl fun declared m1 h1 _ => ?_
    obtain ⟨-, rfl⟩ := functionOf_ok h1
    refine moved_bind rfl fun bits m2 h2 _ => ?_
    obtain rfl := peek64_ok h2
    refine moved_bind rfl fun object m3 h3 _ => ?_
    obtain ⟨-, rfl⟩ := orFail_ok h3
    refine moved_bind (x := orFail Fault.nullPointer _) rfl fun f m4 h4 _ => ?_
    obtain ⟨hf, rfl⟩ := orFail_ok h4
    split
    · exact callHostFrom_moved nested f rfl _
    · exact moved_go (callScript_moved rfl rfl rfl (resolveMethod?_table hf))
  | alloc type constructor =>
    refine moved_bind (x := orFail Fault.badCode _) rfl fun t m1 h1 _ => ?_
    obtain ⟨-, rfl⟩ := orFail_ok h1
    refine moved_bind rfl fun h m2 h2 hout2 => ?_
    have hsp2 : m2.ctx.sp = m1.ctx.sp := congrArg Context.sp (newObject_ok h2).1
    split
    · exact moved_steady (do storeNew (← popAddress) h; pure Flow.go) rfl hout2
    · refine moved_bind hout2 fun f m3 h3 _ => ?_
      obtain ⟨hf, rfl⟩ := functionOf_ok h3
      refine moved_bind hout2 fun _ m4 h4 _ => ?_
      obtain ⟨-, rfl⟩ := wordOrStop_ok h4
      split
      · refine moved_go (enterConstructor_moved type constructor h hout2 hsp2 ⟨constructor, ?_⟩)
        rw [← hf, Engine.function?_of_catalog (congrArg Outline.catalog hout2)]
      · exact moved_bind hout2 fun _ m4 _ hout4 => checkInterrupt_moved rfl hout4
  | ret words => exact ret_moved nested words m
  | suspend => exact moved_bind rfl fun _ m' _ hout => checkInterrupt_moved rfl hout
  | _ => exact moved_go (simple_moved (by simp) m)

theorem raise_ctx (m : Machine) (fault : Fault) : (m.raise fault).ctx =
      { m.ctx with exception := some (m.ctx.exceptionOf fault), state := .exception } := by
  unfold Machine.raise
  dsimp only
  split <;> rfl

theorem raising_of_ok {x : Exec Fault α} (h : x m = .ok a m') (ended : α) :
    raising ended x m = .ok a m' := by
  rw [raising, h]

theorem raising_ok {x : Exec Fault α} {ended : α} (h : raising ended x m = .ok a m') :
    x m = .ok a m' ∨ ∃ fault m1, x m = .error (.cause fault) m1 ∧ a = ended ∧
      m' = m1.raise fault := by
  unfold raising at h
  cases hx : x m with
  | ok a1 m1 =>
    rw [hx] at h
    cases h
    exact .inl rfl
  | error stop m1 =>
    rw [hx] at h
    cases stop with
    | cause fault =>
      cases h
      exact .inr ⟨fault, m1, rfl, rfl, rfl⟩
    | overflow => cases h
    | outOfFuel => cases h

theorem after_raising (ended : α) (x : Exec Fault α) (m : Machine) :
    (raising ended x).after m = x.after m ∨
      ∃ fault, (raising ended x).after m = (x.after m).raise fault := by
  unfold after raising
  cases x m with
  | ok a m' => exact .inl rfl
  | error stop m' =>
    cases stop with
    | cause fault => exact .inr ⟨fault, rfl⟩
    | overflow => exact .inl rfl
    | outOfFuel => exact .inl rfl

theorem step_no_instr (nested : Nested) (h : fetch? m.ctx = none) :
    step nested m = .ok .halt ((m.onContext Context.advance).raise .badCode) :=
  congrFun (congrArg (perform nested) h) (m.onContext Context.advance)

theorem fetch_of_go {nested : Nested} (h : step nested m = .ok .go m') :
    ∃ i, fetch? m.ctx = some i := by
  cases hfetch : fetch? m.ctx with
  | some i => exact ⟨i, rfl⟩
  | none =>
    rw [step_no_instr nested hfetch] at h
    cases h

theorem step_eq (nested : Nested) (h : fetch? m.ctx = some i) :
    step nested m = raising .halt (exec nested i) (m.onContext Context.advance) :=
  congrFun (congrArg (perform nested) h) (m.onContext Context.advance)

theorem exec_of_go {nested : Nested} (hfetch : fetch? m.ctx = some i)
    (h : step nested m = .ok .go m') :
    exec nested i (m.onContext Context.advance) = .ok .go m' := by
  rw [step_eq nested hfetch] at h
  obtain hexec | ⟨_, _, _, hgo, _⟩ := raising_ok h
  · exact hexec
  · cases hgo

/-- What one step does to control. -/
theorem step_transfer (nested : Nested) [∀ id args, Keeps Machine.outline (nested id args)]
    {flow : Flow} (hfetch : fetch? m.ctx = some i) (h : step nested m = .ok flow m') :
    Transfer m.engine i
      (m'.ctx.state = .finished ∨ m'.ctx.state = .exception) m.ctx.advance m'.ctx := by
  have hmoved := exec_moved nested i (m.onContext Context.advance)
  rw [step_eq nested hfetch] at h
  obtain hexec | ⟨fault, m1, hexec, -, rfl⟩ := raising_ok h
  · rw [hexec] at hmoved
    exact hmoved.transfer.imp .inl
  · rw [hexec] at hmoved
    have hraise := raise_ctx m1 fault
    have hst : (m1.raise fault).ctx.state = .exception := by rw [hraise]
    cases hmoved.transfer with
    | stay hctl hend => exact .stay (by rw [hraise]; exact hctl) fun _ => .inr hst
    | jump hctl hf hpc => exact .jump (by rw [hraise]; exact hctl) hf hpc
    | enter hclr hsp hi hcl hcee hmod =>
      exact .enter hclr hsp hi (by rw [hraise]; exact hcl) (by rw [hraise]; exact hcee)
        (by rw [hraise]; exact hmod)
    | leave hpop hcl hf hpc hmod =>
      exact .leave hpop (by rw [hraise]; exact hcl) (by rw [hraise]; exact hf)
        (by rw [hraise]; exact hpc)
        (by rw [hraise]; exact hmod)

end Exec
end ScriptVm
