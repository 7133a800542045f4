import ScriptVm.Proofs.Execution.Runs
import Mathlib.Algebra.Module.Submodule.Lattice
import Mathlib.Data.List.Permutation

namespace ScriptVm

/-- The engine with other modules. -/
def Engine.withModules (e : Engine) (modules : Array (Option Module)) : Engine := { e with modules }

def HeapOp.freed? : HeapOp → Option Handle
  | free h => some h
  | release _ => none

namespace FrameSlot

def owned? (s : Stack) : FrameSlot → Option Handle
  | owned p => s.handle? p
  | this _ => none

/-- What the handles in slots ask for, one slot after the other. -/
def ops (s : Stack) (e : Engine) : List FrameSlot → List HeapOp
  | [] => []
  | slot :: slots =>
    match slot.op? s e.heap with
    | some op => op :: ops s (op.run e) slots
    | none => ops s e slots

def Apart (a b : FrameSlot) : Prop := a.place.Apart b.place

instance (a b : FrameSlot) : Decidable (a.Apart b) :=
  inferInstanceAs (Decidable (a.place.Apart b.place))

end FrameSlot

/-- The slots of all frames, the innermost first. -/
def Context.frameSlots (c : Context) : List FrameSlot :=
  (c.function.toList.flatMap fun f => f.frameSlots c.fp) ++
    c.calls.frames.flatMap fun frame => frame.function.frameSlots frame.fp

namespace HeapOp

theorem run_withModules (e : Engine) (modules : Array (Option Module)) (op : HeapOp) :
    op.run (e.withModules modules) = (op.run e).withModules modules := by
  have h (f : Heap → Heap) :
      (e.withModules modules).changeHeap f = (e.changeHeap f).withModules modules := by
    unfold Engine.changeHeap Engine.onHeap Engine.withModules
    dsimp only
    split
    · rfl
    · rfl
  cases op with
  | free r => exact h _
  | release r => exact h _

theorem foldl_run_withModules (e : Engine) (modules : Array (Option Module)) (l : List HeapOp) :
    l.foldl run (e.withModules modules) = (l.foldl run e).withModules modules :=
  List.foldl_hom (fun e : Engine => e.withModules modules) fun e op => run_withModules e modules op

end HeapOp

namespace FrameSlot

variable {s : Stack} {e : Engine} {slot : FrameSlot}

theorem ops_cons_none (h : slot.op? s e.heap = none) (slots : List FrameSlot) :
    ops s e (slot :: slots) = ops s e slots := by
  rw [ops, h]

theorem ops_cons_some {op : HeapOp} (h : slot.op? s e.heap = some op) (slots : List FrameSlot) :
    ops s e (slot :: slots) = op :: ops s (op.run e) slots := by
  rw [ops, h]

theorem ops_withModules (e : Engine) (modules : Array (Option Module)) (slots : List FrameSlot) :
    ops s (e.withModules modules) slots = ops s e slots := by
  induction slots generalizing e with
  | nil => rfl
  | cons slot slots ih =>
    have hheap : (e.withModules modules).heap = e.heap := rfl
    cases h : slot.op? s e.heap with
    | none => rw [ops_cons_none h, ops_cons_none (hheap ▸ h), ih]
    | some op => rw [ops_cons_some h, ops_cons_some (hheap ▸ h), HeapOp.run_withModules, ih]

theorem ops_append (xs ys : List FrameSlot) :
    ops s e (xs ++ ys) = ops s e xs ++ ops s ((ops s e xs).foldl HeapOp.run e) ys := by
  induction xs generalizing e with
  | nil => rfl
  | cons slot xs ih =>
    cases h : slot.op? s e.heap with
    | none => rw [List.cons_append, ops_cons_none h, ops_cons_none h, ih]
    | some op =>
      rw [List.cons_append, ops_cons_some h, ops_cons_some h, ih, List.foldl_cons, List.cons_append]

theorem ops_congr {s' : Stack} {slots : List FrameSlot}
    (h : ∀ slot ∈ slots, s'.handle? slot.place = s.handle? slot.place) :
    ops s' e slots = ops s e slots := by
  induction slots generalizing e with
  | nil => rfl
  | cons slot slots ih =>
    have hslot : slot.op? s' e.heap = slot.op? s e.heap := by
      have hpl := h slot List.mem_cons_self
      cases slot with
      | owned p => exact congrArg (Option.map HeapOp.free) hpl
      | this p => rw [op?, op?, show s'.handle? p = s.handle? p from hpl]
    have hrest (e : Engine) := @ih e fun slot hmem => h slot (List.mem_cons_of_mem _ hmem)
    cases hop : slot.op? s e.heap with
    | none => rw [ops_cons_none hop, ops_cons_none (hslot.trans hop), hrest]
    | some op => rw [ops_cons_some hop, ops_cons_some (hslot.trans hop), hrest]

/-- Each owned slot with a handle asks for one object to be given up, in the order of the slots. -/
theorem freed_ops (slots : List FrameSlot) :
    (ops s e slots).filterMap HeapOp.freed? = slots.filterMap (owned? s) := by
  induction slots generalizing e with
  | nil => rfl
  | cons slot slots ih =>
    rw [List.filterMap_cons]
    cases hop : slot.op? s e.heap with
    | none =>
      have howned : slot.owned? s = none := by
        cases slot with
        | owned p => exact Option.map_eq_none_iff.mp hop
        | this p => rfl
      rw [ops_cons_none hop, ih, howned]
    | some op =>
      have howned : slot.owned? s = op.freed? := by
        cases slot with
        | owned p =>
          obtain ⟨h, hh, rfl⟩ := Option.map_eq_some_iff.mp hop
          exact hh
        | this p =>
          obtain ⟨h, -, rfl⟩ := Option.map_eq_some_iff.mp hop
          rfl
      rw [ops_cons_some hop, List.filterMap_cons, ih, howned]

end FrameSlot

namespace Machine

/-- A machine and what is left of it after the slots are cleaned, one by one. -/
structure Cleans (slots : List FrameSlot) (m m' : Machine) : Prop where
  engine : ∃ modules,
    m'.engine =
      ((FrameSlot.ops m.ctx.stack m.engine slots).foldl HeapOp.run m.engine).withModules modules
  cleared : ∀ slot ∈ slots, m'.handleAt? slot.place = none
  others : ∀ p, (∀ slot ∈ slots, slot.place.Apart p) → m'.handleAt? p = m.handleAt? p

namespace Cleans

variable {m m1 m2 : Machine} {xs ys : List FrameSlot}

theorem nil {modules : Array (Option Module)} (heng : m1.engine = m.engine.withModules modules)
    (hstk : ∀ p, m1.handleAt? p = m.handleAt? p) : Cleans [] m m1 where
  engine := ⟨modules, heng⟩
  cleared := nofun
  others p _ := hstk p

theorem refl (m : Machine) : Cleans [] m m :=
  have heng : m.engine = m.engine.withModules m.engine.modules := rfl
  nil heng fun _ => rfl

theorem append (h : Cleans xs m m1) (h' : Cleans ys m1 m2)
    (hapart : ∀ x ∈ xs, ∀ y ∈ ys, x.Apart y) : Cleans (xs ++ ys) m m2 where
  engine := by
    -- The slots still to be cleaned are as they were at the start.
    have hstk : ∀ y ∈ ys, m1.ctx.stack.handle? y.place = m.ctx.stack.handle? y.place :=
      fun y hy => h.others y.place fun x hx => hapart x hx y hy
    obtain ⟨modules, heng⟩ := h.engine
    obtain ⟨modules', heng'⟩ := h'.engine
    refine ⟨modules', ?_⟩
    rw [heng', FrameSlot.ops_congr hstk, heng, FrameSlot.ops_withModules,
      HeapOp.foldl_run_withModules,
      FrameSlot.ops_append, List.foldl_append]
    rfl
  cleared slot hmem := by
    obtain hx | hy := List.mem_append.mp hmem
    · rw [h'.others slot.place fun y hy => (hapart slot hx y hy).symm]
      exact h.cleared slot hx
    · exact h'.cleared slot hy
  others p hp := by
    rw [h'.others p fun y hy => hp y (List.mem_append_right _ hy)]
    exact h.others p fun x hx => hp x (List.mem_append_left _ hx)

theorem slot {slot : FrameSlot} {h : Handle} {e : Engine} (hhdl : m.handleAt? slot.place = some h)
    (heng : e = (FrameSlot.ops m.ctx.stack m.engine [slot]).foldl HeapOp.run m.engine) :
    Cleans [slot] m (Machine.setWords { m with engine := e } slot.place 0) := by
  obtain ⟨bits, hbits, -⟩ := Option.bind_eq_some_iff.mp hhdl
  obtain ⟨q, hq, -⟩ := Stack.read64?_eq_some hbits
  have hset : Machine.setWords { m with engine := e } slot.place 0 =
      { m with engine := e, ctx := { m.ctx with stack := m.ctx.stack.set64 slot.place 0 } } :=
    if_pos (Stack.contains64_of_read64? hbits)
  rw [hset]
  refine ⟨⟨e.modules, ?_⟩, ?_, ?_⟩
  · rw [← heng]
    rfl
  · intro slot' hmem
    rw [List.mem_singleton.mp hmem]
    exact congrArg (·.bind Handle.ofBits?) (Stack.read64?_set64_self _ hbits 0)
  · intro p hp
    have hapart := hp slot (List.mem_singleton.mpr rfl)
    exact congrArg (·.bind Handle.ofBits?) (Stack.read64?_set64_apart _ hq 0 hapart)

theorem empty {slot : FrameSlot} (hhdl : m.handleAt? slot.place = none) : Cleans [slot] m m where
  engine := by
    have hop : slot.op? m.ctx.stack m.engine.heap = none := by
      have hstk : m.ctx.stack.handle? slot.place = none := hhdl
      cases slot with
      | owned p | this p => rw [FrameSlot.op?, show m.ctx.stack.handle? p = none from hstk]; rfl
    exact ⟨m.engine.modules, by rw [FrameSlot.ops_cons_none hop]; rfl⟩
  cleared slot' hmem := by
    rw [List.mem_singleton.mp hmem]
    exact hhdl
  others _ _ := rfl

end Cleans

theorem cleans_cleanSlot (m : Machine) (slot : FrameSlot) : Cleans [slot] m (m.cleanSlot slot) := by
  cases h : m.handleAt? slot.place with
  | none =>
    rw [cleanSlot_of_none h]
    exact .empty h
  | some r =>
    rw [cleanSlot, h]
    refine Cleans.slot h ?_
    cases hop : slot.op? m.ctx.stack m.engine.heap with
    | none => rw [FrameSlot.ops_cons_none hop]; rfl
    | some op => rw [FrameSlot.ops_cons_some hop]; rfl

/-- Cleaning some slots leaves those that are apart from them as they are for the rest. -/
theorem cleans_foldl (m : Machine) {slots : List FrameSlot} (h : slots.Pairwise FrameSlot.Apart) :
    Cleans slots m (slots.foldl cleanSlot m) := by
  induction slots generalizing m with
  | nil => exact .refl m
  | cons slot slots ih =>
    obtain ⟨hfst, hrest⟩ := List.pairwise_cons.mp h
    refine (m.cleans_cleanSlot slot).append (ih (m.cleanSlot slot) hrest) fun x hx y hy => ?_
    rw [List.mem_singleton.mp hx]
    exact hfst y hy

theorem foldl_cleanSlot_of_none {m : Machine} {slots : List FrameSlot}
    (h : ∀ slot ∈ slots, m.handleAt? slot.place = none) : slots.foldl cleanSlot m = m := by
  induction slots with
  | nil => rfl
  | cons slot slots ih =>
    rw [List.foldl_cons, cleanSlot_of_none (h slot List.mem_cons_self)]
    exact ih fun slot hmem => h slot (List.mem_cons_of_mem _ hmem)

theorem cleans_cleanFrame (m : Machine)
    (h : (m.ctx.function.toList.flatMap fun f => f.frameSlots m.ctx.fp).Pairwise FrameSlot.Apart) :
    Cleans (m.ctx.function.toList.flatMap fun f => f.frameSlots m.ctx.fp) m m.cleanFrame := by
  rw [cleanFrame_eq]
  exact m.cleans_foldl h

theorem engine_leaveModule (m : Machine) (id : Option ModuleId) :
    ∃ modules, (m.leaveModule id).engine = m.engine.withModules modules := by
  cases id with
  | none => exact ⟨m.engine.modules, rfl⟩
  | some id => exact ⟨_, m.engine.changeModule_eq id _⟩

theorem cleans_restore (m : Machine) (f : Frame) (calls : CallStack) :
    Cleans [] m (m.restore f calls) := by
  have hstk (p : Pointer) : (m.restore f calls).handleAt? p = m.handleAt? p := by
    unfold handleAt?
    rw [Exec.restore_ctx]
    rfl
  obtain ⟨modules, heng⟩ := m.engine_leaveModule m.ctx.module
  exact .nil heng hstk

theorem cleans_cleanCallers (m : Machine) (frames : List Frame)
    (h : (frames.flatMap fun frame => frame.function.frameSlots frame.fp).Pairwise FrameSlot.Apart) :
    Cleans (frames.flatMap fun frame => frame.function.frameSlots frame.fp) m
      (m.cleanCallers frames) := by
  induction frames generalizing m with
  | nil => exact .refl m
  | cons f frames ih =>
    rw [List.flatMap_cons] at h ⊢
    obtain ⟨hfr, hrest, hapart⟩ := List.pairwise_append.mp h
    unfold cleanCallers
    have hslots : ((m.restore f ⟨frames⟩).ctx.function.toList.flatMap fun g =>
        g.frameSlots (m.restore f ⟨frames⟩).ctx.fp) = f.function.frameSlots f.fp := by
      rw [Exec.restore_ctx]
      exact List.flatMap_singleton _ _
    have hclean := cleans_cleanFrame (m.restore f ⟨frames⟩) (by rw [hslots]; exact hfr)
    rw [hslots] at hclean
    have hnone : ∀ a ∈ [], ∀ b ∈ f.function.frameSlots f.fp, FrameSlot.Apart a b :=
      fun _ hmem => absurd hmem List.not_mem_nil
    exact ((m.cleans_restore f ⟨frames⟩).append hclean hnone).append (ih _ hrest) hapart

theorem cleans_cleanStack (m : Machine) (h : m.ctx.frameSlots.Pairwise FrameSlot.Apart) :
    Cleans m.ctx.frameSlots m m.cleanStack := by
  obtain ⟨hfr, hrest, hapart⟩ := List.pairwise_append.mp h
  have hcleans := (m.cleans_cleanFrame hfr).append
    (m.cleanFrame.cleans_cleanCallers m.ctx.calls.frames hrest) hapart
  exact ⟨hcleans.engine, hcleans.cleared, hcleans.others⟩

theorem mem_frameSlots_of_cleanStack {m : Machine} {f : Func}
    (hf : m.cleanStack.ctx.function = some f) {slot : FrameSlot}
    (hmem : slot ∈ f.frameSlots m.cleanStack.ctx.fp) : slot ∈ m.ctx.frameSlots := by
  obtain ⟨-, hctl⟩ | ⟨frame, hframe, hctl⟩ := m.control_cleanStack
  · -- There was no caller: the current frame is still that of the start.
    obtain ⟨hfn, -, -, hfp, -⟩ := Control.mk.inj hctl
    refine List.mem_append_left
      _ (List.mem_flatMap.mpr ⟨f, Option.mem_toList.mpr (hfn.symm.trans hf), ?_⟩)
    rwa [← hfp]
  · obtain ⟨hfn, -, -, hfp, -⟩ := Control.mk.inj hctl
    have hf' : frame.function = f := Option.some.inj (hfn.symm.trans hf)
    refine List.mem_append_right _ (List.mem_flatMap.mpr ⟨frame, hframe, ?_⟩)
    rwa [hf', ← hfp]

theorem cleanStack_cleanStack (m : Machine) (h : m.ctx.frameSlots.Pairwise FrameSlot.Apart) :
    m.cleanStack.cleanStack = m.cleanStack := by
  have hcld := (m.cleans_cleanStack h).cleared
  have hcl : m.cleanStack.ctx.calls.frames = [] := by rw [calls_cleanStack]
  have hfr : m.cleanStack.cleanFrame = m.cleanStack := by
    rw [cleanFrame_eq]
    refine foldl_cleanSlot_of_none fun slot hmem => ?_
    obtain ⟨f, hf, hslot⟩ := List.mem_flatMap.mp hmem
    exact hcld slot (mem_frameSlots_of_cleanStack (Option.mem_toList.mp hf) hslot)
  rw [cleanStack, hcl, hfr]
  rfl

/-- Where no two slots of the frames overlap, cleaning gives up what each owned slot holds, from the
innermost frame to the outermost one, releases the objects that methods were called on, does nothing
else to the heap and leaves every slot empty. Cleaning once more changes nothing. -/
theorem cleanStack_releases_once (m : Machine) (h : m.ctx.frameSlots.Pairwise FrameSlot.Apart) :
    let ops := FrameSlot.ops m.ctx.stack m.engine m.ctx.frameSlots
    (∃ modules, m.cleanStack.engine = (ops.foldl HeapOp.run m.engine).withModules modules) ∧
      ops.filterMap HeapOp.freed? = m.ctx.frameSlots.filterMap (FrameSlot.owned? m.ctx.stack) ∧
      (∀ slot ∈ m.ctx.frameSlots, m.cleanStack.handleAt? slot.place = none) ∧
      m.cleanStack.ctx.calls = {} ∧
      m.cleanStack.cleanStack = m.cleanStack := by
  have hcleans := m.cleans_cleanStack h
  refine ⟨hcleans.engine, FrameSlot.freed_ops _, hcleans.cleared, m.calls_cleanStack, ?_⟩
  exact m.cleanStack_cleanStack h

/-- A counted object with three references, another one with two, and one that is not counted. -/
def nodes : Heap :=
  let node : ObjectType := { id := ⟨1⟩, name := "Node", refCounted := true }
  let blob : ObjectType := { id := ⟨2⟩, name := "Blob" }
  { slots := #[
      { generation := 1, object := some { type := node, refs := 3, fields := .zeros 0 } },
      { generation := 1, object := some { type := node, refs := 2, fields := .zeros 0 } },
      { generation := 1, object := some { type := blob, refs := 1, fields := .zeros 0 } }] }

/-- A method runs in a second block. It was called by a function that keeps its argument, and that
one by a function with an object of its own. -/
def chained : Machine :=
  let node : DataType := { kind := .object ⟨1⟩, handle := true }
  let method : Func :=
    { name := "visit", owner := some ⟨1⟩,
      signature := { params := [{ type := .int }, { type := node }] }, locals := 2
      objectVars := [{ offset := 2, type := ⟨2⟩ }] }
  let keeper : Func :=
    { name := "keep", keepsArgs := true, signature := { params := [{ type := node }] }, locals := 2
      objectVars := [{ offset := 2, type := ⟨1⟩ }] }
  let outer : Func := { name := "outer", locals := 2, objectVars := [{ offset := 2, type := ⟨1⟩ }] }
  let stack : Stack := { blocks := #[.zeros 16, .zeros 32], base := 16, current := 1 }
  -- The locals of the outer function, its argument for the next one and the locals of that one.
  let stack := stack.set64 { offset := 14 } (Handle.bits ⟨1, 1⟩)
  let stack := stack.set64 { offset := 12 } (Handle.bits ⟨1, 1⟩)
  let stack := stack.set64 { offset := 10 } (Handle.bits ⟨0, 1⟩)
  -- The locals of the method, the object it is called on and its second argument.
  let stack := stack.set64 { block := 1, offset := 25 } (Handle.bits ⟨2, 1⟩)
  let stack := stack.set64 { block := 1, offset := 27 } (Handle.bits ⟨0, 1⟩)
  let stack := stack.set64 { block := 1, offset := 30 } (Handle.bits ⟨0, 1⟩)
  { engine := { heap := nodes }
    ctx :=
      { state := .exception, function := some method, fp := { block := 1, offset := 27 }, stack
        calls := ⟨[
          { function := keeper, pc := 1, fp := { offset := 12 } },
          { function := outer, pc := 1, fp := { offset := 16 } }]⟩
        needsCleanup := true } }

/-- The handle in the argument that is kept is not given up. -/
theorem cleanStack_releases_once_chained : chained.ctx.frameSlots.Pairwise FrameSlot.Apart ∧
      FrameSlot.ops chained.ctx.stack chained.engine chained.ctx.frameSlots =
        [.free ⟨2, 1⟩, .release ⟨0, 1⟩, .free ⟨0, 1⟩, .free ⟨0, 1⟩, .free ⟨1, 1⟩] ∧
      (∃ modules, chained.cleanStack.engine =
        ((FrameSlot.ops chained.ctx.stack chained.engine chained.ctx.frameSlots).foldl HeapOp.run
          chained.engine).withModules modules) ∧
      chained.cleanStack.cleanStack = chained.cleanStack := by
  have hslots : chained.ctx.frameSlots.Pairwise FrameSlot.Apart := by decide +kernel
  obtain ⟨hengine, -, -, -, hagain⟩ := cleanStack_releases_once chained hslots
  exact ⟨hslots, by cbv, hengine, hagain⟩

end Machine
end ScriptVm
