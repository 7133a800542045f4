import ScriptVm.Proofs.Execution.Frame

namespace ScriptVm

/-- All that asks for suspension of a run. -/
structure Requests where
  suspend : Bool
  /-- The calls of the line callback that ask for it. -/
  suspendAt : List Nat
  /-- Host functions, which may ask for it. -/
  hosts : List (FunctionId × HostBody)

def Context.asking (c : Context) (r : Requests) : Context :=
  { c with
    suspendRequested := r.suspend
    lineCallback := c.lineCallback.map fun callback => { callback with suspendAt := r.suspendAt } }

def Engine.asking (e : Engine) (r : Requests) : Engine := { e with hosts := r.hosts }

/-- The same machine with other requests. -/
def Machine.asking (m : Machine) (r : Requests) : Machine :=
  { engine := m.engine.asking r, ctx := m.ctx.asking r }

/-- Requests, and the function that was prepared. -/
structure Guise extends Requests where
  entry : Option Func

def Context.guised (c : Context) (g : Guise) : Context :=
  { c.asking g.toRequests with entry := g.entry }

/-- The same machine with other requests and another function that was prepared. -/
def Machine.guised (m : Machine) (g : Guise) : Machine :=
  { engine := m.engine.asking g.toRequests, ctx := m.ctx.guised g }

/-- What a machine is in itself. -/
def Machine.guise (m : Machine) : Guise :=
  { suspend := m.ctx.suspendRequested
    suspendAt := (m.ctx.lineCallback.map LineCallback.suspendAt).getD []
    hosts := m.engine.hosts
    entry := m.ctx.entry }

namespace Engine

theorem asking_onHeap {α : Type} (e : Engine) (r : Requests) (f : Heap → α × Heap) :
    (e.asking r).onHeap f = ((e.onHeap f).1, (e.onHeap f).2.asking r) := by
  have hheap : (e.asking r).heap = e.heap := rfl
  simp only [onHeap, hheap]
  split <;> rfl

@[simp] theorem asking_changeHeap (e : Engine) (r : Requests) (f : Heap → Heap) :
    (e.asking r).changeHeap f = (e.changeHeap f).asking r := by
  unfold changeHeap
  rw [asking_onHeap]

@[simp] theorem asking_changeModule (e : Engine) (r : Requests) (id : ModuleId)
    (f : Module → Module) : (e.asking r).changeModule id f = (e.changeModule id f).asking r := by
  unfold changeModule
  split <;> rfl

end Engine

namespace Machine

section

variable (m : Machine)

section

variable (g : Guise)

@[simp] theorem guised_giveUp (h : Handle) : (m.guised g).giveUp h = (m.giveUp h).guised g := by
  simp only [giveUp, onEngine, guised, Engine.asking_changeHeap]

@[simp] theorem guised_setWords (p : Pointer) (v : UInt64) :
    (m.guised g).setWords p v = (m.setWords p v).guised g := by
  have hstk : (m.guised g).ctx.stack = m.ctx.stack := rfl
  simp only [setWords, hstk]
  split <;> rfl

@[simp] theorem guised_clearObjectVars (f : Func) :
    (m.guised g).clearObjectVars f = (m.clearObjectVars f).guised g := by
  refine List.foldl_hom (fun m : Machine => m.guised g) fun m v => ?_
  have hfp : (m.guised g).ctx.fp = m.ctx.fp := rfl
  rw [hfp]
  cases m.ctx.fp.shift? (-v.offset.toInt) with
  | none => rfl
  | some p => exact guised_setWords m g p 0

theorem guised_cleanSlot (slot : FrameSlot) :
    (m.guised g).cleanSlot slot = (m.cleanSlot slot).guised g := by
  have hhdl : (m.guised g).handleAt? slot.place = m.handleAt? slot.place := rfl
  have hop : slot.op? (m.guised g).ctx.stack (m.guised g).engine.heap =
      slot.op? m.ctx.stack m.engine.heap := rfl
  have hrun (op : HeapOp) :
      op.run (m.engine.asking g.toRequests) = (op.run m.engine).asking g.toRequests := by
    cases op <;> exact Engine.asking_changeHeap _ _ _
  unfold cleanSlot
  rw [hhdl, hop]
  split
  · rfl
  · cases slot.op? m.ctx.stack m.engine.heap with
    | none => exact guised_setWords m g slot.place 0
    | some op =>
      have hrun := congrArg
        (fun e => Machine.setWords { engine := e, ctx := m.ctx.guised g } slot.place 0) (hrun op)
      exact hrun.trans (guised_setWords { m with engine := op.run m.engine } g slot.place 0)

theorem guised_cleanSlots (slots : List FrameSlot) :
    slots.foldl cleanSlot (m.guised g) = (slots.foldl cleanSlot m).guised g :=
  List.foldl_hom (fun m : Machine => m.guised g) fun m slot => guised_cleanSlot m g slot

@[simp] theorem guised_releaseArgs (args : Pointer) (offset : Nat) (params : List Parameter) :
    (m.guised g).releaseArgs args offset params = (m.releaseArgs args offset params).guised g := by
  rw [releaseArgs_eq, releaseArgs_eq, guised_cleanSlots]

@[simp] theorem guised_cleanFrame : (m.guised g).cleanFrame = m.cleanFrame.guised g := by
  rw [cleanFrame_eq, cleanFrame_eq, ← guised_cleanSlots]
  rfl

@[simp] theorem guised_holdModule (id : Option ModuleId) :
    (m.guised g).holdModule id = (m.holdModule id).guised g := by
  cases id with
  | none => rfl
  | some id => simp only [holdModule, onEngine, guised, Engine.asking_changeModule]

@[simp] theorem guised_leaveModule (id : Option ModuleId) :
    (m.guised g).leaveModule id = (m.leaveModule id).guised g := by
  cases id with
  | none => rfl
  | some id => simp only [leaveModule, onEngine, guised, Engine.asking_changeModule]

theorem guised_setModule (id : Option ModuleId) :
    (m.guised g).setModule id = (m.setModule id).guised g := by
  unfold setModule
  rw [guised_holdModule]
  exact guised_leaveModule ((m.holdModule id).onContext fun c => { c with module := id }) g m.ctx.module

@[simp] theorem guised_restore (f : Frame) (calls : CallStack) :
    (m.guised g).restore f calls = (m.restore f calls).guised g := by
  have hleave :
      (m.guised g).leaveModule (m.guised g).ctx.module = (m.leaveModule m.ctx.module).guised g :=
    guised_leaveModule m g m.ctx.module
  unfold restore
  rw [hleave]
  rfl

theorem guised_cleanCallers (frames : List Frame) :
    (m.guised g).cleanCallers frames = (m.cleanCallers frames).guised g := by
  induction frames generalizing m with
  | nil => rfl
  | cons f frames ih => rw [cleanCallers, cleanCallers, guised_restore, guised_cleanFrame, ih]

theorem guised_cleanStack : (m.guised g).cleanStack = m.cleanStack.guised g := by
  have hcl : (m.guised g).ctx.calls = m.ctx.calls := rfl
  simp only [cleanStack, hcl, guised_cleanFrame, guised_cleanCallers]
  rfl

theorem guised_abortNow : (m.guised g).abortNow = m.abortNow.guised g :=
  guised_cleanStack (m.onContext fun c => { c with state := .aborted }) g

theorem guised_raise (fault : Fault) : (m.guised g).raise fault = (m.raise fault).guised g := by
  have hcb : (m.guised g).ctx.exceptionCallback = m.ctx.exceptionCallback := rfl
  unfold raise
  dsimp only [onContext]
  rw [hcb]
  split <;> rfl

end

theorem entry_raise (fault : Fault) : (m.raise fault).ctx.entry = m.ctx.entry := by
  unfold raise
  dsimp only
  split <;> rfl

end

theorem asking_eq_guised {m m' : Machine} (h : m'.ctx.entry = m.ctx.entry) (r : Requests) :
    m'.asking r = m'.guised { r with entry := m.ctx.entry } := by
  rw [← h]
  rfl

theorem asking_raise (m : Machine) (r : Requests) (fault : Fault) :
    (m.asking r).raise fault = (m.raise fault).asking r := by
  rw [asking_eq_guised rfl, asking_eq_guised (m.entry_raise fault), guised_raise]

@[simp] theorem guised_guise (m : Machine) : m.guised m.guise = m := by
  have hcb : (m.ctx.lineCallback.map fun callback =>
      { callback with suspendAt := (m.ctx.lineCallback.map LineCallback.suspendAt).getD [] }) =
        m.ctx.lineCallback := by
    cases m.ctx.lineCallback <;> rfl
  simp only [guised, guise, Context.guised, Context.asking, Engine.asking, hcb]

end Machine

namespace Exec

variable {ε α β : Type}

def withRequests (r : Requests) :
    EStateM.Result (Stop ε) Machine α → EStateM.Result (Stop ε) Machine α
  | .ok a m => .ok a (m.asking r)
  | .error stop m => .error stop (m.asking r)

def mapLeft (f : Machine → Machine) :
    EStateM.Result (Stop ε) Machine α → EStateM.Result (Stop ε) Machine α
  | .ok a m => .ok a (f m)
  | .error stop m => .error stop (f m)

/-- The step sees no such change of a machine, and leaves what is changed as it is. -/
class Misses {ι : Type} (T : ι → Machine → Machine) (x : Exec ε α) : Prop where
  misses : ∀ m i, x (T i m) = mapLeft (T i) (x m)

/-- The step sees neither requests nor the function that was prepared, and changes none of them. -/
abbrev Deaf (x : Exec ε α) : Prop := Misses (fun g m => Machine.guised m g) x

theorem Deaf.guised {x : Exec ε α} [hx : Deaf x] (m : Machine) (g : Guise) :
    x (m.guised g) = mapLeft (·.guised g) (x m) :=
  hx.misses m g

theorem Deaf.entry_after {x : Exec ε α} [hx : Deaf x] (m : Machine) :
    (after x m).ctx.entry = m.ctx.entry := by
  have hself := hx.misses m m.guise
  rw [Machine.guised_guise] at hself
  rw [after, hself]
  cases x m <;> rfl

theorem Deaf.asking {x : Exec ε α} [hx : Deaf x] (m : Machine) (r : Requests) :
    x (m.asking r) = withRequests r (x m) := by
  have hent := hx.entry_after m
  rw [Machine.asking_eq_guised rfl, hx.misses]
  rw [after] at hent
  cases h : x m with
  | ok a m' =>
    rw [h] at hent
    exact congrArg (EStateM.Result.ok a) (Machine.asking_eq_guised hent r).symm
  | error stop m' =>
    rw [h] at hent
    exact congrArg (EStateM.Result.error stop) (Machine.asking_eq_guised hent r).symm

section Combinators

variable {ι : Type} {T : ι → Machine → Machine}

instance misses_pure (a : α) : Misses T (pure a : Exec ε α) := ⟨fun _ _ => rfl⟩

instance misses_throw (stop : Stop ε) : Misses T (throw stop : Exec ε α) := ⟨fun _ _ => rfl⟩

instance misses_fail (e : ε) : Misses T (fail e : Exec ε α) := ⟨fun _ _ => rfl⟩

instance misses_orFail (e : ε) (o : Option α) : Misses T (orFail e o) := by
  cases o with
  | none | some a => exact ⟨fun _ _ => rfl⟩

instance misses_bind (x : Exec ε α) (f : α → Exec ε β) [hx : Misses T x]
    [hf : ∀ a, Misses T (f a)] : Misses T (x >>= f) where
  misses m i := by
    simp only [bind, EStateM.bind, hx.misses]
    cases x m with
    | ok a m1 => exact (hf a).misses m1 i
    | error stop m1 => rfl

theorem Misses.bind {x : Exec ε α} {f : α → Exec ε β} [Misses T x] (hf : ∀ a, Misses T (f a)) :
    Misses T (x >>= f) := misses_bind x f

instance misses_ite (p : Prop) [Decidable p] (x y : Exec ε α) [Misses T x] [Misses T y] :
    Misses T (if p then x else y) := by
  split <;> infer_instance

instance misses_tryCatch (x : Exec ε α) (f : Stop ε → Exec ε α) [hx : Misses T x]
    [hf : ∀ stop, Misses T (f stop)] : Misses T (tryCatch x f) where
  misses m i := by
    have hother := hx.misses m i
    cases h : x m with
    | ok a m' =>
      rw [h] at hother
      rw [tryCatch_of_ok h f, tryCatch_of_ok hother f]
      rfl
    | error stop m' =>
      rw [h] at hother
      rw [tryCatch_of_error h f, tryCatch_of_error hother f]
      exact (hf stop).misses m' i

theorem misses_modify {f : Machine → Machine} (h : ∀ m i, f (T i m) = T i (f m)) :
    Misses T (modify f : Exec ε PUnit) :=
  ⟨fun m i => congrArg (EStateM.Result.ok PUnit.unit) (h m i)⟩

theorem misses_modifyCtx {f : Context → Context}
    (h : ∀ m i, (T i m).onContext f = T i (m.onContext f)) :
    Misses T (modifyCtx f : Exec ε Unit) := misses_modify h

theorem misses_get {f : Machine → Exec ε α} (h : ∀ m i, f (T i m) = f m)
    (hf : ∀ m, Misses T (f m)) : Misses T (get >>= f) where
  misses m i := by
    show f (T i m) (T i m) = mapLeft (T i) (f m m)
    rw [h, (hf m).misses]

theorem misses_ctx {f : Context → Exec ε α} (h : ∀ m i, f (T i m).ctx = f m.ctx)
    (hf : ∀ c, Misses T (f c)) :
    Misses T (ctx >>= f) := misses_get (f := fun m => f m.ctx) h fun m => hf m.ctx

theorem misses_engine {f : Engine → Exec ε α} (h : ∀ m i, f (T i m).engine = f m.engine)
    (hf : ∀ e, Misses T (f e)) :
    Misses T (engine >>= f) := misses_get (f := fun m => f m.engine) h fun m => hf m.engine

end Combinators

end Exec
end ScriptVm
