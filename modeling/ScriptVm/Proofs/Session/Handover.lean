import ScriptVm.Proofs.Execution.Addressing
import ScriptVm.Proofs.Execution.Blind
import ScriptVm.Proofs.Memory.Layers
import ScriptVm.Proofs.Session.Workspace

namespace ScriptVm

namespace Engine

/-- Changes a module, if one is given. -/
def changeSome (e : Engine) (id : Option ModuleId) (f : Module → Module) : Engine :=
  id.elim e fun id => e.changeModule id f

variable {f g : Module → Module}

theorem changeModule_comm (h : ∀ m, f (g m) = g (f m)) (e : Engine) (a b : ModuleId) :
    (e.changeModule a f).changeModule b g = (e.changeModule b g).changeModule a f := by
  have hmods (e : Engine) (id : ModuleId) (f : Module → Module) (hid : id.val ≠ 0) :
      e.changeModule id f =
        { e with modules := e.modules.modify (id.val.toNat - 1) fun m => m.map f } := if_neg hid
  by_cases ha : a.val = 0
  · simp only [changeModule, ha, if_true]
  by_cases hb : b.val = 0
  · simp only [changeModule, hb, if_true]
  rw [hmods _ _ _ ha, hmods _ _ _ hb, hmods _ _ _ hb, hmods _ _ _ ha]
  refine congrArg (fun modules => { e with modules }) (Array.ext_getElem? fun i => ?_)
  simp only [Array.getElem?_modify]
  by_cases hi : a.val.toNat - 1 = i
  · by_cases hj : b.val.toNat - 1 = i
    · simp only [hi, hj, if_true, Option.map_map]
      refine congrArg (fun k => Option.map k e.modules[i]?) (funext fun m => ?_)
      cases m with
      | none => rfl
      | some m => exact congrArg some (h m).symm
    · simp only [hi, hj, if_true, if_false]
  · simp only [hi, if_false]

theorem changeModule_cancel (h : ∀ m, g (f m) = m) (e : Engine) (id : ModuleId) :
    (e.changeModule id f).changeModule id g = e := by
  unfold changeModule
  split
  · rfl
  · have hmods :
        (e.modules.modify (id.val.toNat - 1) fun m => m.map f).modify (id.val.toNat - 1)
          (fun m => m.map g) = e.modules := by
      refine Array.ext_getElem? fun i => ?_
      simp only [Array.getElem?_modify]
      by_cases hi : id.val.toNat - 1 = i
      · simp only [hi, if_true, Option.map_map]
        cases e.modules[i]? with
        | none => rfl
        | some m =>
          cases m with
          | none => rfl
          | some m => exact congrArg (fun m => some (some m)) (h m)
      · simp only [hi, if_false]
    rw [hmods]

theorem changeModule_onHeap {α : Type} (e : Engine) (id : ModuleId) (heap : Heap → α × Heap) :
    (e.changeModule id f).onHeap heap =
      ((e.onHeap heap).1, (e.onHeap heap).2.changeModule id f) := by
  unfold changeModule
  split
  · rfl
  · unfold onHeap
    dsimp only
    split <;> rfl

theorem changeSome_comm (h : ∀ m, f (g m) = g (f m)) (e : Engine) (a b : Option ModuleId) :
    (e.changeSome a f).changeSome b g = (e.changeSome b g).changeSome a f := by
  cases a with
  | none => rfl
  | some a =>
    cases b with
    | none => rfl
    | some b => exact changeModule_comm h e a b

theorem changeSome_cancel (h : ∀ m, g (f m) = m) (e : Engine) (id : Option ModuleId) :
    (e.changeSome id f).changeSome id g = e := by
  cases id with
  | none => rfl
  | some id => exact changeModule_cancel h e id

theorem changeSome_onHeap {α : Type} (e : Engine) (id : Option ModuleId) (heap : Heap → α × Heap) :
    (e.changeSome id f).onHeap heap = ((e.onHeap heap).1, (e.onHeap heap).2.changeSome id f) := by
  cases id with
  | none => rfl
  | some id => exact changeModule_onHeap e id heap

end Engine

namespace Module

@[simp] theorem dropContextRef_addContextRef (m : Module) : m.addContextRef.dropContextRef = m := by
  unfold addContextRef dropContextRef
  simp

@[simp] theorem addContextRef_dropContextRef (m : Module) : m.dropContextRef.addContextRef = m := by
  unfold addContextRef dropContextRef
  simp

end Module

namespace Machine

theorem setModule_eq (m : Machine) (id : Option ModuleId) : m.setModule id =
      { engine :=
          (m.engine.changeSome id Module.addContextRef).changeSome m.ctx.module Module.dropContextRef
        ctx := { m.ctx with module := id } } := by
  unfold setModule
  cases id with
  | none | some id => cases m.ctx.module <;> rfl

theorem setModule_setModule (m : Machine) (a b : Option ModuleId) :
    (m.setModule a).setModule b = m.setModule b := by
  -- The reference that is added first is the one that is dropped last.
  simp only [setModule_eq]
  rw [Engine.changeSome_comm (by simp) _ m.ctx.module b,
    Engine.changeSome_comm (fun _ => rfl) _ m.ctx.module a,
    Engine.changeSome_comm (by simp) _ b a,
      Engine.changeSome_cancel Module.dropContextRef_addContextRef]

end Machine

/-- The object variables lie below the frame pointer, and so do both of their words. -/
def Func.VarsBelow (f : Func) : Prop := ∀ v ∈ f.objectVars, 2 ≤ v.offset.toInt

instance (f : Func) : Decidable f.VarsBelow :=
  inferInstanceAs (Decidable (∀ v ∈ f.objectVars, 2 ≤ v.offset.toInt))

/-- A place at or above a frame pointer, where the arguments lie. -/
structure Pointer.AtArgs (p fp : Pointer) : Prop where
  block : p.block = fp.block
  offset : fp.offset.toNat ≤ p.offset.toNat

theorem Pointer.AtArgs.next {p q fp : Pointer} (hp : p.AtArgs fp) (hq : p.shift? 1 = some q) :
    q.AtArgs fp := by
  obtain ⟨hblk, hoff⟩ := shift?_eq_some_iff.mp hq
  have habove := hp.offset
  exact ⟨hblk.trans hp.block, by omega⟩

namespace Stack

def vacate (s : Stack) (p : Pointer) : Stack := if s.contains64 p then s.set64 p 0 else s

def clearVars (s : Stack) (fp : Pointer) : List ObjectVar → Stack
  | [] => s
  | v :: vars => ((fp.shift? (-v.offset.toInt)).elim s s.vacate).clearVars fp vars

end Stack

namespace Machine

theorem clearObjectVars_eq (m : Machine) (f : Func) :
    m.clearObjectVars f = m.onStack fun s => s.clearVars m.ctx.fp f.objectVars := by
  have hws (m : Machine) (p : Pointer) : m.setWords p 0 = m.onStack fun s => s.vacate p := by
    unfold setWords Stack.vacate
    dsimp only [onStack]
    split <;> rfl
  unfold clearObjectVars
  induction f.objectVars generalizing m with
  | nil => rfl
  | cons v vars ih =>
    rw [List.foldl_cons]
    show _ = m.onStack fun s =>
        ((m.ctx.fp.shift? (-v.offset.toInt)).elim s s.vacate).clearVars m.ctx.fp vars
    cases m.ctx.fp.shift? (-v.offset.toInt) with
    | none => exact ih m
    | some p =>
      dsimp only
      rw [hws]
      exact ih _

end Machine

namespace Stack

variable {s : Stack} {p fp : Pointer} {vars : List ObjectVar}

theorem ne_of_atArgs {q r : Pointer} {offset : Int16} (hp : p.AtArgs fp) (hoff : 2 ≤ offset.toInt)
    (hq : fp.shift? (-offset.toInt) = some q) (hr : q.shift? 1 = some r) : p ≠ q ∧ p ≠ r := by
  obtain ⟨hblk, hpl⟩ := Pointer.shift?_eq_some_iff.mp hq
  obtain ⟨hnext, hnextPlace⟩ := Pointer.shift?_eq_some_iff.mp hr
  have habove := hp.offset
  constructor
  · rintro rfl
    omega
  · rintro rfl
    omega

theorem layout_clearVars (s : Stack) (fp : Pointer) (vars : List ObjectVar) :
    (s.clearVars fp vars).layout = s.layout := by
  induction vars generalizing s with
  | nil => rfl
  | cons v vars ih =>
    rw [clearVars, ih]
    cases fp.shift? (-v.offset.toInt) with
    | none => rfl
    | some q =>
      rw [Option.elim_some, vacate]
      split
      · exact s.layout_set64 q 0
      · rfl

theorem contains_clearVars (s : Stack) (fp : Pointer) (vars : List ObjectVar) :
    (s.clearVars fp vars).contains = s.contains := by
  funext p
  rw [contains, contains, blockSize_of_layout (s.layout_clearVars fp vars)]

variable (hvars : ∀ v ∈ vars, 2 ≤ v.offset.toInt)
include hvars

theorem read?_clearVars (hp : p.AtArgs fp) (s : Stack) :
    (s.clearVars fp vars).read? p = s.read? p := by
  induction vars generalizing s with
  | nil => rfl
  | cons v vars ih =>
    rw [clearVars, ih fun w hw => hvars w (List.mem_cons_of_mem _ hw)]
    cases hq : fp.shift? (-v.offset.toInt) with
    | none => rfl
    | some q =>
      rw [Option.elim_some, vacate]
      split
      · rename_i hthere
        obtain ⟨r, hr, -⟩ := (Option.any_eq_true _ _).mp hthere
        obtain ⟨hpq, hpr⟩ := ne_of_atArgs hp (hvars v List.mem_cons_self) hq hr
        exact read?_set64 s hr 0 hpq hpr
      · rfl

theorem read64?_clearVars (hp : p.AtArgs fp) (s : Stack) :
    (s.clearVars fp vars).read64? p = s.read64? p :=
  read64?_congr (read?_clearVars hvars hp s) fun _ hq => read?_clearVars hvars (hp.next hq) s

theorem clearVars_set (hp : p.AtArgs fp) (s : Stack) (u : UInt32) :
    (s.set p u).clearVars fp vars = (s.clearVars fp vars).set p u := by
  induction vars generalizing s with
  | nil => rfl
  | cons v vars ih =>
    rw [clearVars, clearVars, ← ih fun w hw => hvars w (List.mem_cons_of_mem _ hw)]
    cases hq : fp.shift? (-v.offset.toInt) with
    | none => rfl
    | some q =>
      rw [Option.elim_some, Option.elim_some]
      unfold vacate
      rw [contains64_set]
      split
      · rename_i hthere
        obtain ⟨r, hr, -⟩ := (Option.any_eq_true _ _).mp hthere
        obtain ⟨hpq, hpr⟩ := ne_of_atArgs hp (hvars v List.mem_cons_self) hq hr
        rw [set64_set_comm s hr hpq hpr]
      · rfl

theorem clearVars_set64 {q : Pointer} (hp : p.AtArgs fp) (hq : p.shift? 1 = some q) (s : Stack)
    (u : UInt64) :
    (s.set64 p u).clearVars fp vars = (s.clearVars fp vars).set64 p u := by
  rw [set64, set64, ← Pointer.shift?_one hq, clearVars_set hvars (hp.next hq),
    clearVars_set hvars hp]

end Stack

namespace Machine

open Exec

/-- The frame belongs to another function, which was prepared instead. -/
def handOver (m : Machine) (g : Func) : Machine where
  engine := (m.engine.changeSome (liveModuleOf? m g) Module.addContextRef).changeSome m.ctx.module
    Module.dropContextRef
  ctx :=
    { m.ctx with
      module := liveModuleOf? m g
      sp := { m.ctx.fp with offset := m.ctx.fp.offset - g.locals }
      stack := m.ctx.stack.clearVars m.ctx.fp g.objectVars
      function := some g
      entry := some g }

theorem heap_handOver (m : Machine) (g : Func) : (m.handOver g).engine.heap = m.engine.heap := by
  have hchg (e : Engine) (id : Option ModuleId) (f : Module → Module) :
      (e.changeSome id f).heap = e.heap := by
    cases id with
    | none => rfl
    | some id => exact e.heap_changeModule id f
  exact (hchg _ _ _).trans (hchg _ _ _)

def posture (m : Machine) : Context := { m.ctx with stack := {} }

theorem fp_of_posture {m m' : Machine} (h : m'.posture = m.posture) : m'.ctx.fp = m.ctx.fp := by
  have hfp := congrArg Context.fp h
  exact hfp

end Machine

namespace Exec

variable {ε α β : Type} {f g : Func} {m : Machine}

/-- The step does the same before and after the frame is handed over, and changes nothing of the
context but the stack. -/
structure Transfers (g : Func) (m : Machine) (x : Exec ε α) : Prop where
  handOver : x (m.handOver g) = mapLeft (·.handOver g) (x m)
  posture : (after x m).posture = m.posture

theorem transfers_pure (a : α) : Transfers g m (pure a : Exec ε α) := ⟨rfl, rfl⟩

theorem transfers_fail (e : ε) : Transfers g m (fail e : Exec ε α) := ⟨rfl, rfl⟩

theorem transfers_orFail (e : ε) (o : Option α) : Transfers g m (orFail e o) := by
  cases o <;> exact ⟨rfl, rfl⟩

theorem transfers_wordOrStop (n : Nat) : Transfers g m (wordOrStop n : Exec ε Unit) := by
  unfold wordOrStop
  split <;> exact ⟨rfl, rfl⟩

theorem transfers_ensure (b : Bool) : Transfers g m (ensure b : Exec ε Unit) := by
  unfold ensure
  split <;> exact ⟨rfl, rfl⟩

theorem transfers_bind {x : Exec ε α} {k : α → Exec ε β} (hx : Transfers g m x)
    (hk : ∀ a m', x m = .ok a m' → m'.posture = m.posture → Transfers g m' (k a)) :
    Transfers g m (x >>= k) := by
  cases h : x m with
  | ok a m' =>
    have hho := hx.handOver
    have hpost := hx.posture
    rw [h] at hho
    rw [after_of_ok h] at hpost
    obtain ⟨hnext, hrest⟩ := hk a m' h hpost
    constructor
    · rw [bind_of_ok hho, bind_of_ok h, hnext]
    · rw [after, bind_of_ok h]
      exact hrest.trans hpost
  | error stop m' =>
    have hho := hx.handOver
    have hpost := hx.posture
    rw [h] at hho
    rw [after_of_error h] at hpost
    constructor
    · rw [bind_of_error hho, bind_of_error h]
      rfl
    · rw [after, bind_of_error h]
      exact hpost

theorem transfers_ctx {k : Context → Exec ε α} (h : k (m.handOver g).ctx = k m.ctx)
    (hk : Transfers g m (k m.ctx)) : Transfers g m (ctx >>= k) := by
  refine ⟨?_, hk.posture⟩
  show k (m.handOver g).ctx (m.handOver g) = _
  rw [h]
  exact hk.handOver

theorem transfers_get {k : Machine → Exec ε α} (h : k (m.handOver g) = k m)
    (hk : Transfers g m (k m)) : Transfers g m (get >>= k) := by
  refine ⟨?_, hk.posture⟩
  show k (m.handOver g) (m.handOver g) = _
  rw [h]
  exact hk.handOver

theorem transfers_engine {k : Engine → Exec ε α} (h : k (m.handOver g).engine = k m.engine)
    (hk : Transfers g m (k m.engine)) : Transfers g m (engine >>= k) := by
  refine ⟨?_, hk.posture⟩
  show k (m.handOver g).engine (m.handOver g) = _
  rw [h]
  exact hk.handOver

theorem transfers_onHeap (h : Heap → α × Heap) : Transfers g m (onHeap h : Exec ε α) := by
  refine ⟨?_, rfl⟩
  have hmod (e : Engine) (id : ModuleId) :
      ((e.onHeap h).2.module? id).isSome = (e.module? id).isSome :=
    Engine.module?_isSome_of_catalog (Engine.catalog_of_hollow (e.hollow_onHeap h)) id
  have hlive : liveModuleOf? { m with engine := (m.engine.onHeap h).2 } g = liveModuleOf? m g := by
    simp only [liveModuleOf?, hmod]
  rw [onHeap_eq, onHeap_eq]
  show EStateM.Result.ok _ _ =
      EStateM.Result.ok _ (Machine.handOver { m with engine := (m.engine.onHeap h).2 } g)
  simp only [Machine.handOver, hlive, Engine.changeSome_onHeap]

theorem transfers_giveUp (h : Handle) : Transfers g m (modify fun m => m.giveUp h : Exec ε PUnit) :=
  transfers_onHeap fun heap => ((), heap.giveUp h)

theorem transfers_addRef (h : Handle) : Transfers g m (addRef h : Exec ε Bool) := by
  refine transfers_bind (transfers_onHeap _) fun ok m' _ _ => ?_
  refine transfers_engine (by rw [m'.heap_handOver]) ?_
  exact transfers_bind (transfers_ensure _) fun _ _ _ _ => transfers_pure ok

theorem transfers_copyObject (h : Handle) :
    Transfers g m (copyObject h : Exec ε (Option Handle)) := by
  refine transfers_engine (by rw [m.heap_handOver]) ?_
  cases m.engine.heap.get? h with
  | none => exact transfers_pure none
  | some o =>
    refine transfers_engine (by rw [m.heap_handOver]) ?_
    refine transfers_bind (transfers_ensure _) fun _ _ _ _ => ?_
    refine transfers_bind (transfers_onHeap _) fun copy m' _ _ => ?_
    refine transfers_engine (by rw [m'.heap_handOver]) ?_
    exact transfers_bind (transfers_ensure _) fun _ _ _ _ => transfers_pure copy

section Places

variable {p : Pointer} (hvars : g.VarsBelow) (hp : p.AtArgs m.ctx.fp)

include hvars hp

theorem transfers_setStack (v : UInt32) : Transfers g m (setStack p v) := by
  have hwr :
      Transfers g m (modify fun m => m.onStack fun s => s.set p v : Exec RequestError PUnit) := by
    refine ⟨?_, rfl⟩
    refine congrArg (EStateM.Result.ok PUnit.unit) ?_
    show (m.handOver g).onStack (fun s => s.set p v) = (m.onStack fun s => s.set p v).handOver g
    unfold Machine.handOver Machine.onStack
    simp only [Stack.clearVars_set hvars hp]
    rfl
  refine transfers_ctx ?_ ?_
  · have hcont : (m.handOver g).ctx.stack.contains = m.ctx.stack.contains :=
      m.ctx.stack.contains_clearVars _ _
    simp only [hcont]
  · split
    · exact hwr
    · exact transfers_pure ()

theorem transfers_setStack64 (v : UInt64) : Transfers g m (setStack64 p v) := by
  have hthere : (m.handOver g).ctx.stack.contains64 p = m.ctx.stack.contains64 p := by
    unfold Stack.contains64
    exact congrArg (fun c => (p.shift? 1).any c) (m.ctx.stack.contains_clearVars _ _)
  constructor
  · refine congrArg (EStateM.Result.ok PUnit.unit) ?_
    show (m.handOver g).setWords p v = (m.setWords p v).handOver g
    unfold Machine.setWords
    rw [hthere]
    split
    · rename_i hcont
      obtain ⟨q, hq, -⟩ := (Option.any_eq_true _ _).mp hcont
      unfold Machine.handOver Machine.onStack
      simp only [Stack.clearVars_set64 hvars hp hq]
      rfl
    · rfl
  · show (m.setWords p v).posture = m.posture
    unfold Machine.setWords
    split <;> rfl

theorem handleAt?_handOver : (m.handOver g).handleAt? p = m.handleAt? p := by
  unfold Machine.handleAt?
  exact congrArg (fun v : Option UInt64 => v.bind Handle.ofBits?)
    (Stack.read64?_clearVars hvars hp m.ctx.stack)

end Places

end Exec

/-- The same types of parameters and of the result, and methods both or none. -/
structure Func.Accords (g f : Func) : Prop where
  method : g.owner.isSome = f.owner.isSome
  params : g.signature.params.map Parameter.type = f.signature.params.map Parameter.type
  returns : g.signature.returns = f.signature.returns

namespace Exec

variable {ε α β : Type} {f g : Func} {m : Machine}

theorem total_map (count : β → Nat) (k : α → β) (l : List α) :
    total count (l.map k) = total (fun a => count (k a)) l := by
  induction l with
  | nil => rfl
  | cons a l ih => exact congrArg (count (k a) + ·) ih

/-- The place of an argument, by the types of all of them. -/
def argPlace (this : Nat) (types : List DataType) (index : Nat) (c : Context) :
    Exec RequestError (Pointer × DataType) := do
  if c.state ≠ .prepared then fail .notPrepared
  let type ← orFail (.argIndex index) types[index]?
  let offset := this + total DataType.words (types.take index)
  wordOrStop (c.fp.offset.toNat + offset)
  pure ({ block := c.fp.block, offset := c.fp.offset + offset.toUInt32 }, type)

theorem argSlot_eq (hent : m.ctx.entry = some f) (index : Nat) : argSlot index m =
      argPlace f.thisWords (f.signature.params.map Parameter.type) index m.ctx m := by
  unfold argSlot argPlace
  rw [ctx_bind]
  by_cases hst : m.ctx.state = .prepared
  · rw [if_neg (not_not.mpr hst), if_neg (not_not.mpr hst), hent]
    show (orFail (RequestError.argIndex index) (f.paramOffset? index) >>= _) m =
        (orFail (RequestError.argIndex index) _ >>= _) m
    by_cases hidx : index < f.signature.params.length
    · have hoff : f.paramOffset? index =
          some (f.thisWords +
            total DataType.words ((f.signature.params.map Parameter.type).take index)) := by
        rw [Func.paramOffset?, if_pos hidx, ← List.map_take, total_map]
      have htype : (f.signature.params.map Parameter.type)[index]? =
          f.signature.params[index]?.map Parameter.type :=
        List.getElem?_map
      rw [hoff, htype, List.getElem?_eq_getElem hidx]
      rfl
    · have hoff : f.paramOffset? index = none := if_neg hidx
      have htype : (f.signature.params.map Parameter.type)[index]? = none :=
        List.getElem?_eq_none (by rw [List.length_map]; omega)
      rw [hoff, htype]
      rfl
  · rw [if_pos hst, if_pos hst]
    rfl

theorem argPlace_ok {this index : Nat} {types : List DataType} {c : Context}
    {slot : Pointer × DataType} {m' : Machine} (h : argPlace this types index c m = .ok slot m') :
    slot.1.AtArgs c.fp := by
  unfold argPlace at h
  split at h
  · cases h
  obtain ⟨type, m1, -, h1⟩ := bind_ok h
  obtain ⟨_, m2, hword, h2⟩ := bind_ok h1
  obtain ⟨hword, -⟩ := wordOrStop_ok hword
  cases h2
  refine ⟨rfl, ?_⟩
  show c.fp.offset.toNat ≤ (c.fp.offset + Nat.toUInt32 _).toNat
  rw [UInt32.toNat_add]
  simp only [Nat.toUInt32_eq, UInt32.toNat_ofNat']
  omega

theorem transfers_argPlace (this index : Nat) (types : List DataType) (c : Context) :
    Transfers g m (argPlace this types index c) := by
  unfold argPlace
  split
  · exact transfers_fail _
  · refine transfers_bind (transfers_orFail _ _) fun type _ _ _ => ?_
    exact transfers_bind (transfers_wordOrStop _) fun _ _ _ _ => transfers_pure _

/-- What follows at the place of an argument may be done before and after the frame is handed
over. -/
theorem transfers_argSlot (hacc : g.Accords f) (hent : m.ctx.entry = some f) (index : Nat)
    {k : Pointer × DataType → Exec RequestError α}
    (hk : ∀ slot, slot.1.AtArgs m.ctx.fp → Transfers g m (k slot)) :
    Transfers g m (argSlot index >>= k) := by
  have hthis : g.thisWords = f.thisWords := by rw [Func.thisWords, Func.thisWords, hacc.method]
  have hslot : Transfers g m (argSlot index) := by
    refine ⟨?_, (keeps_argSlot index).view_after m⟩
    rw [argSlot_eq hent, argSlot_eq (f := g) rfl, hacc.params, hthis]
    exact (transfers_argPlace _ _ _ m.ctx).handOver
  refine transfers_bind hslot fun slot m' hok _ => ?_
  have hlook : Keeps (fun m => m) (argSlot index) := keeps_argSlot index
  have hsame : m' = m := hlook.of_ok hok
  rw [argSlot_eq hent] at hok
  exact hsame ▸ hk slot (argPlace_ok hok)

theorem transfers_primitiveSlot (hacc : g.Accords f) (hent : m.ctx.entry = some f)
    (index bytes : Nat) (what : String) {k : Pointer → Exec RequestError α}
    (hk : ∀ p, p.AtArgs m.ctx.fp → Transfers g m (k p)) :
    Transfers g m (primitiveSlot index bytes what >>= k) := by
  unfold primitiveSlot
  rw [bind_assoc]
  refine transfers_argSlot hacc hent index fun slot hslot => ?_
  dsimp only
  split
  · exact transfers_fail _
  · exact hk slot.1 hslot

section Setting

variable (hacc : g.Accords f) (hvars : g.VarsBelow) (hent : m.ctx.entry = some f)

include hacc hvars hent

theorem transfers_setArgObject (index : Nat) (object : Option Handle) :
    Transfers g m (setArgObject index object) := by
  refine transfers_argSlot hacc hent index fun slot hslot => ?_
  have howned (m : Machine) : Transfers g m (ownedArg slot.2 object) := by
    unfold ownedArg
    cases object with
    | none => exact transfers_pure none
    | some h =>
      dsimp only
      split
      · exact transfers_bind (transfers_addRef h) fun ok _ _ _ => transfers_pure _
      · exact transfers_copyObject h
  have hstore {m' : Machine} (hm' : m'.posture = m.posture) :
      Transfers g m' (do setStack64 slot.1 (Handle.optBits (← ownedArg slot.2 object))) := by
    refine transfers_bind (howned m') fun stored m2 _ hm2 => transfers_setStack64 hvars ?_ _
    rw [Machine.fp_of_posture (hm2.trans hm')]
    exact hslot
  dsimp only
  split
  · exact transfers_fail _
  · refine transfers_get (by rw [handleAt?_handOver hvars hslot]) ?_
    cases m.handleAt? slot.1 with
    | none => exact hstore rfl
    | some old => exact transfers_bind (transfers_giveUp old) fun _ m' _ hm' => hstore hm'

theorem transfers_setThis (object : Option Handle) : Transfers g m (setThis object) := by
  have hst : (m.handOver g).ctx.state = m.ctx.state := rfl
  have hfp : (m.handOver g).ctx.fp = m.ctx.fp := rfl
  have hmeth : ((m.handOver g).ctx.entry.any fun f => f.owner.isSome) = m.ctx.entry.any fun f =>
      f.owner.isSome := by
    rw [hent]
    exact hacc.method
  have hbase : m.ctx.fp.AtArgs m.ctx.fp := ⟨rfl, Nat.le_refl _⟩
  have hstore {m' : Machine} (hm' : m'.posture = m.posture) (stored : Option Handle) :
      Transfers g m' (setStack64 m.ctx.fp (Handle.optBits stored)) :=
    transfers_setStack64 hvars (Machine.fp_of_posture hm' ▸ hbase) _
  have hadd {m' : Machine} (hm' : m'.posture = m.posture) (h : Handle) :
      Transfers g m' (do setStack64 m.ctx.fp (Handle.optBits (if ← addRef h then some h else none))) :=
    transfers_bind (transfers_addRef h) fun _ _ _ hm2 => hstore (hm2.trans hm') _
  refine transfers_ctx (by simp only [hst, hfp, hmeth]) ?_
  dsimp only
  split
  · exact transfers_fail _
  · split
    · exact transfers_fail _
    · refine transfers_get (by rw [handleAt?_handOver hvars hbase]) ?_
      cases m.handleAt? m.ctx.fp with
      | none =>
        cases object with
        | none => exact hstore rfl none
        | some h => exact hadd rfl h
      | some old =>
        refine transfers_bind (transfers_onHeap _) fun _ m' _ hm' => ?_
        cases object with
        | none => exact hstore hm' none
        | some h => exact hadd hm' h

end Setting

end Exec

namespace Request

/-- Requests one after the other, whether they are refused or not. -/
def performAll : List Request → Machine → Machine
  | [], m => m
  | r :: rs, m => performAll rs (r.perform.after m)

open Exec

variable {f g : Func} {m : Machine}

theorem transfers_perform (hacc : g.Accords f) (hvars : g.VarsBelow) (hent : m.ctx.entry = some f)
    {r : Request} (hr : r.setsArg = true) : Transfers g m r.perform := by
  cases r with
  | setArgByte | setArgHalf | setArgWord =>
    exact transfers_primitiveSlot hacc hent _ _ _ fun p hp => transfers_setStack hvars hp _
  | setArgQword =>
    exact transfers_primitiveSlot hacc hent _ _ _ fun p hp => transfers_setStack64 hvars hp _
  | setArgFloat =>
    refine transfers_argSlot hacc hent _ fun slot hslot => ?_
    dsimp only
    split
    · exact transfers_fail _
    · exact transfers_setStack hvars hslot _
  | setArgDouble | setArgAddress =>
    refine transfers_argSlot hacc hent _ fun slot hslot => ?_
    dsimp only
    split
    · exact transfers_fail _
    · exact transfers_setStack64 hvars hslot _
  | setArgObject index object => exact transfers_setArgObject hacc hvars hent index object
  | setThis object => exact transfers_setThis hacc hvars hent object
  | _ => cases hr

/-- The frame may be handed over before the arguments are set or after that. -/
theorem performAll_handOver (hacc : g.Accords f) (hvars : g.VarsBelow) {rs : List Request}
    (hrs : ∀ r ∈ rs, r.setsArg = true) (hent : m.ctx.entry = some f) :
    performAll rs (m.handOver g) = (performAll rs m).handOver g ∧
      (performAll rs m).posture = m.posture := by
  induction rs generalizing m with
  | nil => exact ⟨rfl, rfl⟩
  | cons r rs ih =>
    obtain ⟨hho, hpost⟩ := transfers_perform hacc hvars hent (hrs r List.mem_cons_self)
    have hafter : r.perform.after (m.handOver g) = (r.perform.after m).handOver g := by
      rw [after, after, hho]
      cases r.perform m <;> rfl
    have hent' : (r.perform.after m).ctx.entry = some f := by
      have hsame := congrArg Context.entry hpost
      exact hsame.trans hent
    obtain ⟨hrest, hrestPosture⟩ := ih (fun r' hr' => hrs r' (List.mem_cons_of_mem _ hr')) hent'
    refine ⟨?_, hrestPosture.trans hpost⟩
    rw [performAll, performAll, hafter, hrest]

end Request

end ScriptVm
