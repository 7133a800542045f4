import ScriptVm.Proofs.Execution.Moves
import ScriptVm.Proofs.Heap.Slots

namespace ScriptVm

/-- The words of a frame, with its arguments and the words kept free, are counted by a word. -/
def Func.Modest (f : Func) : Prop :=
  f.argWords + f.locals.toNat + f.stackNeeded.toNat + Context.reserve < 4294967296

instance (f : Func) : Decidable f.Modest := inferInstanceAs (Decidable (_ < _))

/-- The functions in the table are modest, and the empty slots of the heap are there. -/
structure Engine.Firm (e : Engine) : Prop where
  table : ∀ id f, e.function? id = some f → f.Modest
  heap : e.heap.Listed

/-- The context is seated, and its functions are modest. -/
structure Context.Firm (c : Context) : Prop extends Context.Seated c where
  current : ∀ f, c.function = some f → f.Modest
  saved : ∀ frame ∈ c.calls.frames, frame.function.Modest

structure Machine.Firm (m : Machine) : Prop where
  engine : m.engine.Firm
  ctx : m.ctx.Firm

namespace Engine

variable {e e' : Engine}

theorem Firm.of_same (h : e.Firm) (hfns : e'.functions = e.functions) (hheap : e'.heap.Listed) :
    e'.Firm := by
  constructor
  · intro id f hf
    apply h.table id f
    rwa [function?, ← hfns]
  · exact hheap

theorem Firm.onHeap {α : Type} (h : e.Firm) {f : Heap → α × Heap} (hf : (f e.heap).2.Listed) :
    (e.onHeap f).2.Firm := by
  unfold Engine.onHeap
  dsimp only
  split
  · exact h.of_same rfl hf
  · exact h.of_same rfl (hf.of_same rfl rfl)

theorem Firm.changeHeap (h : e.Firm) {f : Heap → Heap} (hf : (f e.heap).Listed) :
    (e.changeHeap f).Firm := h.onHeap hf

theorem Firm.changeModule (h : e.Firm) (id : ModuleId) (f : Module → Module) :
    (e.changeModule id f).Firm := by
  unfold Engine.changeModule
  split
  · exact h
  · exact h.of_same rfl h.heap

variable {m : Machine}

theorem Firm.holdModule (h : m.engine.Firm) (id : Option ModuleId) :
    (m.holdModule id).engine.Firm := by
  cases id with
  | none => exact h
  | some id => exact h.changeModule id _

theorem Firm.leaveModule (h : m.engine.Firm) (id : Option ModuleId) :
    (m.leaveModule id).engine.Firm := by
  cases id with
  | none => exact h
  | some id => exact h.changeModule id _

theorem Firm.setModule (h : m.engine.Firm) (id : Option ModuleId) : (m.setModule id).engine.Firm :=
  Firm.leaveModule (m := (m.holdModule id).onContext fun c => { c with module := id })
    (h.holdModule id) m.ctx.module

end Engine

theorem Context.firm_new (limit : UInt32) : (Context.new limit).Firm where
  toSeated := Context.seated_new limit
  current f hf := by cases hf
  saved frame hfr := by cases hfr

namespace Machine

variable {m : Machine}

theorem Firm.onContext (h : m.Firm) {f : Context → Context} (hf : (f m.ctx).Firm) :
    (m.onContext f).Firm := ⟨h.engine, hf⟩

theorem Firm.withStack (h : m.Firm) {s : Stack} (hs : { m.ctx with stack := s }.Seated) :
    (m.onStack fun _ => s).Firm :=
  ⟨h.engine, { hs with current := h.ctx.current, saved := h.ctx.saved }⟩

theorem Firm.onStack (h : m.Firm) {f : Stack → Stack}
    (hf : (f m.ctx.stack).layout = m.ctx.stack.layout) : (m.onStack f).Firm := by
  have hstays : m.ctx.Stays { m.ctx with stack := f m.ctx.stack } := .of_same hf rfl rfl rfl
  exact h.withStack (hstays.seated h.ctx.toSeated)

theorem Firm.setTop (h : m.Firm) {p sp : Pointer} {words : Int} (hp : m.ctx.stack.Holds p)
    (hsp : p.shift? words = some sp) : (m.onContext fun c => { c with sp }).Firm :=
  h.onContext { h.ctx with top := hp.of_block (Pointer.shift?_eq_some_iff.mp hsp).1 }

theorem Firm.setFunction (h : m.Firm) {f : Func} (hf : f.Modest) :
    (m.onContext fun c => { c with function := some f }).Firm := by
  refine h.onContext { h.ctx with current := ?_ }
  intro g hg
  cases hg
  exact hf

theorem Firm.giveUp (h : m.Firm) (object : Handle) : (m.giveUp object).Firm :=
  ⟨h.engine.changeHeap (h.engine.heap.giveUp object), h.ctx⟩

theorem Firm.setWords (h : m.Firm) (p : Pointer) (v : UInt64) : (m.setWords p v).Firm := by
  unfold Machine.setWords
  split
  · exact h.onStack (m.ctx.stack.layout_set64 p v)
  · exact h

theorem Firm.setModule (h : m.Firm) (id : Option ModuleId) : (m.setModule id).Firm := by
  refine ⟨h.engine.setModule id, ?_⟩
  rw [setModule_ctx]
  exact { h.ctx with }

theorem firm_robust : Robust Firm where
  giveUp h object := h.giveUp object
  release h object := ⟨h.engine.changeHeap (h.engine.heap.release object), h.ctx⟩
  setWords h p v := h.setWords p v

variable (h : m.Firm)
include h

theorem Firm.clearObjectVars (f : Func) : (m.clearObjectVars f).Firm :=
  firm_robust.clearObjectVars h f

theorem Firm.raise (fault : Fault) : (m.raise fault).Firm := by
  have hraised : (m.onContext fun c =>
      { c with exception := some (m.ctx.exceptionOf fault), state := .exception }).Firm :=
    h.onContext { h.ctx with }
  unfold Machine.raise
  dsimp only
  split
  · exact ⟨hraised.engine.of_same rfl hraised.engine.heap, hraised.ctx⟩
  · exact hraised

theorem Firm.restore {frame : Frame} {calls : CallStack}
    (hfrs : m.ctx.calls.frames = frame :: calls.frames) : (m.restore frame calls).Firm := by
  have hsaved := h.ctx.saved
  rw [hfrs] at hsaved
  refine ⟨h.engine.leaveModule m.ctx.module,
    { (m.passes_restore hfrs).seated h.ctx.toSeated with current := ?_, saved := ?_ }⟩
  · intro f hf
    cases hf
    exact hsaved frame List.mem_cons_self
  · exact fun f hf => hsaved f (List.mem_cons_of_mem _ hf)

theorem Firm.cleanStack : m.cleanStack.Firm :=
  cleanStack_induct (P := Firm) firm_robust.cleanFrame (fun hfrs hm => hm.restore hfrs)
    (fun hm => hm.onContext { hm.ctx with }) h

theorem Firm.dropObject : m.dropObject.Firm := by
  have hcld : (m.onContext fun c => { c with objectRegister := none }).Firm :=
    h.onContext { h.ctx with }
  unfold Machine.dropObject
  cases m.ctx.objectRegister with
  | none => exact hcld
  | some object => exact hcld.giveUp object

theorem Firm.releaseRun : m.releaseRun.Firm := by
  apply Firm.setModule
  apply Firm.dropObject
  split
  · exact h.cleanStack
  · exact h

theorem Firm.abortNow : m.abortNow.Firm := by
  have hset : (m.onContext fun c => { c with state := .aborted }).Firm := h.onContext { h.ctx with }
  exact hset.cleanStack

theorem Firm.drop : m.drop.Firm := by
  unfold Machine.drop
  split
  · exact h
  · exact h.releaseRun

end Machine

end ScriptVm
