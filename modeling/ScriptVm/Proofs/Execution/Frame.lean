import ScriptVm.Proofs.Execution.Slots

namespace ScriptVm

/-- Where a context stands in its code. -/
structure Control where
  function : Option Func
  module : Option ModuleId
  pc : Nat
  fp : Pointer
  calls : CallStack

def Context.control (c : Context) : Control :=
  { function := c.function, module := c.module, pc := c.pc, fp := c.fp, calls := c.calls }

/-- A module with nothing in its globals and without the number of contexts that hold it. -/
def Module.fixed (m : Module) : Module :=
  { m with store := Array.replicate m.store.size 0, contextRefs := 0 }

/-- An engine without what changes while code runs. -/
def Engine.catalog (e : Engine) : Engine :=
  { e with heap := {}, trace := #[], modules := e.modules.map fun m => m.map Module.fixed }

/-- A module with nothing in its globals. -/
def Module.hollow (m : Module) : Module := m.clearStore

theorem Module.fixed_hollow (m : Module) : m.hollow.fixed = m.fixed := by
  simp only [fixed, hollow, clearStore, Array.size_replicate]

theorem Module.hollow_clearStore (m : Module) : m.clearStore.hollow = m.hollow := by
  simp only [hollow, clearStore, Array.size_replicate]

theorem Module.hollow_writeGlobal (m : Module) (offset v : UInt32) :
    (m.writeGlobal offset v).hollow = m.hollow := by
  simp only [hollow, clearStore, writeGlobal, Array.size_setIfInBounds]

/-- An engine without objects and globals. -/
def Engine.hollow (e : Engine) : Engine :=
  { e with heap := {}, trace := #[], modules := e.modules.map fun m => m.map Module.hollow }

/-- What only calls, returns, jumps and the end of a run change. -/
structure Outline where
  catalog : Engine
  control : Control
  state : ContextState
  /-- The stack block in use. -/
  block : Nat

/-- The outline of a machine, the number of contexts that hold each module, whether frames are still
to be cleaned, and the exception that ended the run. -/
structure Standing where
  hollow : Engine
  control : Control
  state : ContextState
  block : Nat
  needsCleanup : Bool
  exception : Option ScriptException

/-- The standing of a machine and what a context knows of the host function that it calls. -/
structure Bearing extends Standing where
  hostFunction : Option Func
  pendingException : Option String

namespace Engine

variable {e e' : Engine} {f : Module → Module}

theorem catalog_of_hollow (h : e'.hollow = e.hollow) : e'.catalog = e.catalog := by
  have hcat (e : Engine) : e.hollow.catalog = e.catalog := by
    simp only [catalog, hollow, Array.map_map]
    congr 2
    funext m
    cases m with
    | none => rfl
    | some m => exact congrArg some m.fixed_hollow
  rw [← hcat e', h, hcat]

theorem modules_changeModule {γ : Type} (view : Module → γ) (e : Engine) (id : ModuleId)
    (h : ∀ m, view (f m) = view m) :
    (e.changeModule id f).modules.map (fun m => m.map view) = e.modules.map fun m => m.map view := by
  unfold changeModule
  split
  · rfl
  · apply Array.ext_getElem?
    intro k
    simp only [Array.getElem?_map, Array.getElem?_modify]
    split
    · cases e.modules[k]? with
      | none => rfl
      | some slot => cases slot <;> simp [h]
    · rfl

theorem changeModule_eq (e : Engine) (id : ModuleId) (f : Module → Module) :
    e.changeModule id f = { e with modules := (e.changeModule id f).modules } := by
  unfold changeModule
  split <;> rfl

theorem catalog_changeModule (e : Engine) (id : ModuleId) (h : ∀ m, (f m).fixed = m.fixed) :
    (e.changeModule id f).catalog = e.catalog := by
  have hmods := modules_changeModule Module.fixed e id h
  rw [changeModule_eq]
  simp only [catalog, hmods]

theorem hollow_changeModule (e : Engine) (id : ModuleId) (h : ∀ m, (f m).hollow = m.hollow) :
    (e.changeModule id f).hollow = e.hollow := by
  have hmods := modules_changeModule Module.hollow e id h
  rw [changeModule_eq]
  simp only [hollow, hmods]

@[simp] theorem hollow_onHeap {α : Type} (e : Engine) (f : Heap → α × Heap) :
    (e.onHeap f).2.hollow = e.hollow := by
  unfold onHeap
  split
  split <;> rfl

@[simp] theorem hollow_changeHeap (e : Engine) (f : Heap → Heap) :
    (e.changeHeap f).hollow = e.hollow :=
  hollow_onHeap e _

variable (h : e'.catalog = e.catalog)
include h

theorem hosts_of_catalog : e'.hosts = e.hosts := by
  have hhosts : e'.catalog.hosts = e.catalog.hosts := by rw [h]
  exact hhosts

theorem config_of_catalog : e'.config = e.config := by
  have hcfg : e'.catalog.config = e.catalog.config := by rw [h]
  exact hcfg

theorem function?_of_catalog (id : FunctionId) : e'.function? id = e.function? id := by
  have hfns : e'.catalog.functions = e.catalog.functions := by rw [h]
  exact congrArg (fun functions : Array (Option Func) => functions[id.val.toNat]?.join) hfns

theorem module?_of_catalog (id : ModuleId) :
    (e'.module? id).map Module.fixed = (e.module? id).map Module.fixed := by
  have hcat (e : Engine) : e.catalog.module? id = (e.module? id).map Module.fixed := by
    simp only [module?, built?, catalog, Array.getElem?_map]
    split
    · split
      · rfl
      · cases e.modules[id.val.toNat - 1]? <;> rfl
    · rfl
  rw [← hcat e', h, hcat]

theorem module?_isSome_of_catalog (id : ModuleId) :
    (e'.module? id).isSome = (e.module? id).isSome := by
  rw [← Option.isSome_map (f := Module.fixed), module?_of_catalog h, Option.isSome_map]

end Engine

namespace Machine

variable {m m' : Machine}

def catalog (m : Machine) : Engine := m.engine.catalog

def outline (m : Machine) : Outline :=
  { catalog := m.catalog, control := m.ctx.control, state := m.ctx.state, block := m.ctx.stack.current }

theorem outline_ext (he : m'.catalog = m.catalog) (hc : m'.ctx.control = m.ctx.control)
    (hs : m'.ctx.state = m.ctx.state) (hb : m'.ctx.stack.current = m.ctx.stack.current) :
    m'.outline = m.outline := by
  simp only [outline, he, hc, hs, hb]

def standing (m : Machine) : Standing :=
  { hollow := m.engine.hollow, control := m.ctx.control, state := m.ctx.state,
    block := m.ctx.stack.current
    needsCleanup := m.ctx.needsCleanup, exception := m.ctx.exception }

def bearing (m : Machine) : Bearing :=
  { toStanding := m.standing, hostFunction := m.ctx.hostFunction,
    pendingException := m.ctx.pendingException }

theorem standing_of_bearing (h : m'.bearing = m.bearing) : m'.standing = m.standing :=
  congrArg Bearing.toStanding h

theorem bearing_onEngine (m : Machine) {f : Engine → Engine} (h : ∀ e, (f e).hollow = e.hollow) :
    (m.onEngine f).bearing = m.bearing := by
  simp only [bearing, standing, onEngine, h]

theorem outline_of_standing (h : m'.standing = m.standing) : m'.outline = m.outline :=
  outline_ext (Engine.catalog_of_hollow (congrArg Standing.hollow h)) (congrArg Standing.control h)
    (congrArg Standing.state h) (congrArg Standing.block h)

end Machine

namespace Exec

variable {ε α β γ δ : Type} {x : Exec ε α} {m m' : Machine} {a : α} {stop : Stop ε}

def left : EStateM.Result (Stop ε) Machine α → Machine
  | .ok _ m => m
  | .error _ m => m

/-- The machine that a step leaves, whether it stops or not. -/
def after (x : Exec ε α) (m : Machine) : Machine := left (x m)

def value? : EStateM.Result (Stop ε) Machine α → Option α
  | .ok a _ => some a
  | .error _ _ => none

theorem ok_of_value (h : value? (x m) = some a) : x m = .ok a (x.after m) := by
  unfold after
  cases hx : x m with
  | ok b m' =>
    rw [hx] at h
    cases h
    rfl
  | error stop m' =>
    rw [hx] at h
    cases h

theorem after_of_ok (h : x m = .ok a m') : x.after m = m' := by
  rw [after, h, left]

theorem after_of_error (h : x m = .error stop m') : x.after m = m' := by
  rw [after, h, left]

theorem after_bind_of_ok (h : x m = .ok a m') (f : α → Exec ε β) :
    (x >>= f).after m = (f a).after m' := by
  simp only [after, bind, EStateM.bind, h]

theorem after_bind_of_error (h : x m = .error stop m') (f : α → Exec ε β) :
    (x >>= f).after m = m' := by
  simp only [after, bind, EStateM.bind, h, left]

theorem bind_cases {f : α → Exec ε β} {Q : EStateM.Result (Stop ε) Machine β → Prop}
    (hok : ∀ a m', x m = .ok a m' → Q (f a m'))
    (herr : ∀ stop m', x m = .error stop m' → Q (.error stop m')) : Q ((x >>= f) m) := by
  show Q (EStateM.bind x f m)
  unfold EStateM.bind
  split
  · exact hok _ _ ‹_›
  · exact herr _ _ ‹_›

inductive Ending where
  | done
  | cause
  | overflow
  | outOfFuel

/-- Something can follow. -/
def Ending.Settled : Ending → Prop
  | done | cause => True
  | overflow | outOfFuel => False

def ending : EStateM.Result (Stop ε) Machine α → Ending
  | .ok _ _ => .done
  | .error (.cause _) _ => .cause
  | .error .overflow _ => .overflow
  | .error .outOfFuel _ => .outOfFuel

/-- What may lie between two machines, by the way in which a step ends. It can be put together, and
a cause may be caught. -/
structure Rule where
  Allows : Ending → Machine → Machine → Prop
  refl : ∀ m, Allows .done m m
  trans : ∀ {e m m1 m2}, Allows .done m m1 → Allows e m1 m2 → Allows e m m2
  caught : ∀ {m m'}, Allows .cause m m' → Allows .done m m'

def Rule.Holds (Q : Rule) (m : Machine) (r : EStateM.Result (Stop ε) Machine α) : Prop :=
  Q.Allows (ending r) m (left r)

class Obeys (Q : Rule) (x : Exec ε α) : Prop where
  holds : ∀ m, Q.Holds m (x m)

section Combinators

variable {Q : Rule}

theorem Rule.Holds.bind {x : Exec ε α} {f : α → Exec ε β} (hx : Q.Holds m (x m))
    (hf : ∀ a m', x m = .ok a m' → Q.Holds m' (f a m')) : Q.Holds m ((x >>= f) m) := by
  refine bind_cases (fun a m' h => ?_) fun stop m' h => ?_
  · rw [h] at hx
    exact Q.trans hx (hf a m' h)
  · rw [h] at hx
    cases stop <;> exact hx

instance obeys_bind (x : Exec ε α) (f : α → Exec ε β) [hx : Obeys Q x] [hf : ∀ a, Obeys Q (f a)] :
    Obeys Q (x >>= f) :=
  ⟨fun m => (hx.holds m).bind fun a m' _ => (hf a).holds m'⟩

theorem Obeys.bind {x : Exec ε α} {f : α → Exec ε β} [Obeys Q x] (hf : ∀ a, Obeys Q (f a)) :
    Obeys Q (x >>= f) := obeys_bind x f

instance obeys_ite (p : Prop) [Decidable p] (x y : Exec ε α) [Obeys Q x] [Obeys Q y] :
    Obeys Q (if p then x else y) := by
  split <;> infer_instance

instance obeys_pure (a : α) : Obeys Q (pure a : Exec ε α) := ⟨Q.refl⟩

instance obeys_get : Obeys Q (get : Exec ε Machine) := ⟨Q.refl⟩

instance obeys_ctx : Obeys Q (ctx : Exec ε Context) := ⟨Q.refl⟩

instance obeys_engine : Obeys Q (engine : Exec ε Engine) := ⟨Q.refl⟩

theorem obeys_modify {f : Machine → Machine} (h : ∀ m, Q.Allows .done m (f m)) :
    Obeys Q (modify f : Exec ε PUnit) := ⟨h⟩

theorem obeys_modifyCtx {f : Context → Context}
    (h : ∀ m : Machine, Q.Allows .done m (m.onContext f)) :
    Obeys Q (modifyCtx f : Exec ε Unit) := ⟨h⟩

instance obeys_attempt (x : Exec Fault α) [hx : Obeys Q x] : Obeys Q (attempt x) where
  holds m := by
    have h := hx.holds m
    unfold attempt
    cases hr : x m with
    | ok a m' =>
      rw [hr] at h
      exact h
    | error stop m' =>
      rw [hr] at h
      cases stop with
      | cause e => exact Q.caught h
      | overflow | outOfFuel => exact h

theorem tryCatch_of_ok (h : x m = .ok a m') (f : Stop ε → Exec ε α) : tryCatch x f m = .ok a m' := by
  change EStateM.tryCatch x f m = _
  delta EStateM.tryCatch
  dsimp only
  rw [h]

theorem tryCatch_of_error (h : x m = .error stop m') (f : Stop ε → Exec ε α) :
    tryCatch x f m = f stop m' := by
  change EStateM.tryCatch x f m = _
  delta EStateM.tryCatch
  dsimp only
  rw [h]
  rfl

/-- A handler may follow a cause to stop, and passes on everything else. -/
theorem Rule.Holds.handled {x : Exec ε α} {f : Stop ε → Exec ε α} (hx : Q.Holds m (x m))
    (hf : ∀ e, Obeys Q (f (.cause e)))
    (hpass : f .overflow = throw .overflow ∧ f .outOfFuel = throw .outOfFuel) :
    Q.Holds m (tryCatch x f m) := by
  cases h : x m with
  | ok a m' =>
    rw [h] at hx
    rw [tryCatch_of_ok h]
    exact hx
  | error stop m' =>
    rw [h] at hx
    rw [tryCatch_of_error h]
    cases stop with
    | cause e => exact Q.trans (Q.caught hx) ((hf e).holds m')
    | overflow =>
      rw [hpass.1]
      exact hx
    | outOfFuel =>
      rw [hpass.2]
      exact hx

end Combinators

/-- A view of the machine is what it was, however the step ends. -/
def Rule.keeps (view : Machine → γ) : Rule where
  Allows _ m m' := view m' = view m
  refl _ := rfl
  trans h k := k.trans h
  caught := id

abbrev Keeps (view : Machine → γ) (x : Exec ε α) : Prop := Obeys (.keeps view) x

section Keeping

variable {view : Machine → γ}

theorem keeps_of (h : ∀ m, view (x.after m) = view m) : Keeps view x := ⟨h⟩

theorem Keeps.view_after [h : Keeps view x] (m : Machine) : view (x.after m) = view m := h.holds m

theorem Keeps.of_ok [h : Keeps view x] (hx : x m = .ok a m') : view m' = view m := by
  rw [← h.view_after m, after_of_ok hx]

theorem Keeps.of_error [h : Keeps view x] (hx : x m = .error stop m') : view m' = view m := by
  rw [← h.view_after m, after_of_error hx]

instance keeps_throw (stop : Stop ε) : Keeps view (throw stop : Exec ε α) := ⟨fun _ => rfl⟩

instance keeps_fail (e : ε) : Keeps view (fail e : Exec ε α) := ⟨fun _ => rfl⟩

instance keeps_orFail (e : ε) (o : Option α) : Keeps view (orFail e o) := by
  cases o with
  | none => exact ⟨fun _ => rfl⟩
  | some a => exact ⟨fun _ => rfl⟩

instance keeps_wordOrStop (n : Nat) : Keeps view (wordOrStop n : Exec ε Unit) := by
  unfold wordOrStop
  split
  · exact obeys_pure ()
  · exact keeps_throw _

instance keeps_ensure (b : Bool) : Keeps view (ensure b : Exec ε Unit) := by
  unfold ensure
  split
  · exact obeys_pure ()
  · exact keeps_throw _

theorem Keeps.coarser (coarse : γ → δ) (h : Keeps view x) : Keeps (fun m => coarse (view m)) x :=
  ⟨fun m => congrArg coarse (h.view_after m)⟩

end Keeping

end Exec

namespace Machine

@[simp] theorem catalog_onContext (m : Machine) (f : Context → Context) :
    (m.onContext f).catalog = m.catalog := rfl

theorem outline_holdModule (m : Machine) (id : Option ModuleId) :
    (m.holdModule id).outline = m.outline := by
  cases id with
  | none => rfl
  | some id => exact outline_ext (m.engine.catalog_changeModule id fun _ => rfl) rfl rfl rfl

theorem outline_leaveModule (m : Machine) (id : Option ModuleId) :
    (m.leaveModule id).outline = m.outline := by
  cases id with
  | none => rfl
  | some id => exact outline_ext (m.engine.catalog_changeModule id fun _ => rfl) rfl rfl rfl

@[simp] theorem bearing_giveUp (m : Machine) (h : Handle) : (m.giveUp h).bearing = m.bearing :=
  m.bearing_onEngine fun e => e.hollow_changeHeap _

theorem bearing_onStack (m : Machine) {f : Stack → Stack} (h : ∀ s, (f s).current = s.current) :
    (m.onStack f).bearing = m.bearing := by
  simp only [bearing, standing, onStack, h]
  rfl

@[simp] theorem bearing_setWords (m : Machine) (p : Pointer) (v : UInt64) :
    (m.setWords p v).bearing = m.bearing := by
  unfold setWords
  split
  · exact bearing_onStack m fun _ => rfl
  · rfl

theorem bearing_robust (b : Bearing) : Robust fun m => m.bearing = b where
  giveUp h object := (bearing_giveUp _ object).trans h
  release h _ := (bearing_onEngine _ fun e => e.hollow_changeHeap _).trans h
  setWords h p v := (bearing_setWords _ p v).trans h

variable (m : Machine)

@[simp] theorem bearing_clearObjectVars (f : Func) : (m.clearObjectVars f).bearing = m.bearing :=
  (bearing_robust m.bearing).clearObjectVars rfl f

@[simp] theorem bearing_releaseArgs (args : Pointer) (offset : Nat) (params : List Parameter) :
    (m.releaseArgs args offset params).bearing = m.bearing :=
  (bearing_robust m.bearing).releaseArgs rfl args offset params

@[simp] theorem bearing_cleanFrame : m.cleanFrame.bearing = m.bearing :=
  (bearing_robust m.bearing).cleanFrame rfl

@[simp] theorem outline_giveUp (h : Handle) : (m.giveUp h).outline = m.outline :=
  outline_of_standing (standing_of_bearing (m.bearing_giveUp h))

@[simp] theorem outline_clearObjectVars (f : Func) : (m.clearObjectVars f).outline = m.outline :=
  outline_of_standing (standing_of_bearing (m.bearing_clearObjectVars f))

@[simp] theorem outline_cleanFrame : m.cleanFrame.outline = m.outline :=
  outline_of_standing (standing_of_bearing m.bearing_cleanFrame)

end Machine
end ScriptVm
