import ScriptVm.Execution.Run

namespace ScriptVm

def Stack.handle? (s : Stack) (p : Pointer) : Option Handle := (s.read64? p).bind Handle.ofBits?

/-- Two words in which a frame owns an object. -/
inductive FrameSlot where
  | owned (place : Pointer)
  | this (place : Pointer)
  deriving DecidableEq, Inhabited, Repr

/-- What cleaning does to the heap. -/
inductive HeapOp where
  | free (h : Handle)
  | release (h : Handle)
  deriving DecidableEq, Inhabited, Repr

def HeapOp.run (e : Engine) : HeapOp → Engine
  | free h => e.changeHeap fun heap => heap.giveUp h
  | release h => e.changeHeap fun heap => (heap.release h).2

namespace FrameSlot

def place : FrameSlot → Pointer
  | owned p | this p => p

/-- What the handle in a slot asks for. The object of a method is released only while it lives, and
only if it is counted. -/
def op? (s : Stack) (heap : Heap) : FrameSlot → Option HeapOp
  | owned p => (s.handle? p).map .free
  | this p =>
    ((s.handle? p).filter fun h => (heap.get? h).any fun o => o.type.refCounted).map .release

end FrameSlot

namespace Func

def varSlots (f : Func) (fp : Pointer) : List FrameSlot :=
  f.objectVars.filterMap fun v => (fp.shift? (-v.offset.toInt)).map .owned

/-- The slots of the owned object parameters, the first of them `offset` words after `args`. -/
def argSlots (args : Pointer) (offset : Nat) : List Parameter → List FrameSlot
  | [] => []
  | p :: params =>
    (if p.type.isOwned then (args.shift? offset).toList.map .owned else []) ++
      argSlots args (offset + p.type.words) params

/-- The slots that a frame is cleaned of, in that order. -/
def frameSlots (f : Func) (fp : Pointer) : List FrameSlot :=
  f.varSlots fp ++
    if f.keepsArgs then []
    else (if f.owner.isSome then [.this fp] else []) ++ argSlots fp f.thisWords f.signature.params

end Func

namespace Machine

variable {m : Machine} {P : Machine → Prop}

/-- What the handle in a slot asks for is done, and the slot is emptied. -/
def cleanSlot (m : Machine) (slot : FrameSlot) : Machine :=
  match m.handleAt? slot.place with
  | none => m
  | some _ =>
    Machine.setWords
      { m with
        engine := ((slot.op? m.ctx.stack m.engine.heap).map (HeapOp.run m.engine)).getD m.engine }
      slot.place 0

theorem cleanSlot_of_none {m : Machine} {slot : FrameSlot} (h : m.handleAt? slot.place = none) :
    m.cleanSlot slot = m := by
  rw [cleanSlot, h]

section

variable (m : Machine)

theorem giveUpSlot_eq (p : Pointer) : m.giveUpSlot p = m.cleanSlot (.owned p) := by
  cases h : m.handleAt? p with
  | none =>
    have hpl : m.handleAt? (FrameSlot.owned p).place = none := h
    rw [giveUpSlot, h, cleanSlot_of_none hpl]
  | some r =>
    have hpl : m.handleAt? (FrameSlot.owned p).place = some r := h
    have hop : (FrameSlot.owned p).op? m.ctx.stack m.engine.heap = some (.free r) :=
      congrArg (Option.map HeapOp.free) h
    rw [giveUpSlot, h, cleanSlot, hpl, hop]
    rfl

theorem releaseThis_eq : m.releaseThis = m.cleanSlot (.this m.ctx.fp) := by
  cases h : m.handleAt? m.ctx.fp with
  | none =>
    have hpl : m.handleAt? (FrameSlot.this m.ctx.fp).place = none := h
    rw [releaseThis, h, cleanSlot_of_none hpl]
  | some r =>
    have hpl : m.handleAt? (FrameSlot.this m.ctx.fp).place = some r := h
    have hhdl : m.ctx.stack.handle? m.ctx.fp = some r := h
    rw [releaseThis, h, cleanSlot, hpl, FrameSlot.op?, hhdl, Option.filter_some]
    dsimp only
    split
    · rfl
    · rfl

theorem ctx_cleanSlot (slot : FrameSlot) :
    ∃ stack, (m.cleanSlot slot).ctx = { m.ctx with stack } := by
  unfold cleanSlot
  split
  · exact ⟨m.ctx.stack, rfl⟩
  · unfold setWords
    split
    · exact ⟨_, rfl⟩
    · exact ⟨m.ctx.stack, rfl⟩

theorem ctx_foldl_cleanSlot (slots : List FrameSlot) :
    ∃ stack, (slots.foldl cleanSlot m).ctx = { m.ctx with stack } := by
  induction slots generalizing m with
  | nil => exact ⟨m.ctx.stack, rfl⟩
  | cons slot slots ih =>
    obtain ⟨stack, hslot⟩ := m.ctx_cleanSlot slot
    obtain ⟨stack', hrest⟩ := ih (m.cleanSlot slot)
    exact ⟨stack', by rw [List.foldl_cons, hrest, hslot]⟩

theorem releaseVars_eq (f : Func) : m.releaseVars f = (f.varSlots m.ctx.fp).foldl cleanSlot m := by
  unfold releaseVars Func.varSlots
  induction f.objectVars generalizing m with
  | nil => rfl
  | cons v vars ih =>
    rw [List.filterMap_cons, List.foldl_cons]
    cases hp : m.ctx.fp.shift? (-v.offset.toInt) with
    | none => exact ih m
    | some p =>
      obtain ⟨stack, hctx⟩ := m.ctx_cleanSlot (.owned p)
      have hrest := ih (m.cleanSlot (.owned p))
      rw [hctx] at hrest
      dsimp only [Option.map_some]
      rw [giveUpSlot_eq, hrest, List.foldl_cons]

theorem releaseArgs_eq (args : Pointer) (offset : Nat) (params : List Parameter) :
    m.releaseArgs args offset params = (Func.argSlots args offset params).foldl cleanSlot m := by
  induction params generalizing m offset with
  | nil => rfl
  | cons p params ih =>
    unfold releaseArgs Func.argSlots
    rw [List.foldl_append, ih]
    split
    · cases args.shift? offset with
      | none => rfl
      | some place =>
        dsimp only
        rw [giveUpSlot_eq]
        rfl
    · rfl

theorem cleanFrame_eq : m.cleanFrame =
      (m.ctx.function.toList.flatMap fun f => f.frameSlots m.ctx.fp).foldl cleanSlot m := by
  unfold cleanFrame
  cases hf : m.ctx.function with
  | none => rfl
  | some f =>
    have hfp : (m.releaseVars f).ctx.fp = m.ctx.fp := by
      obtain ⟨stack, hctx⟩ := m.ctx_foldl_cleanSlot (f.varSlots m.ctx.fp)
      rw [releaseVars_eq, hctx]
    have hthis : (m.releaseVars f).releaseThis.ctx.fp = m.ctx.fp := by
      obtain ⟨stack, hctx⟩ := (m.releaseVars f).ctx_cleanSlot (.this (m.releaseVars f).ctx.fp)
      rw [releaseThis_eq, hctx, hfp]
    rw [Option.toList_some, List.flatMap_singleton]
    unfold Func.frameSlots
    rw [List.foldl_append, ← releaseVars_eq]
    dsimp only
    split
    · rfl
    · rw [List.foldl_append]
      cases f.owner.isSome with
      | false =>
        rw [if_neg Bool.false_ne_true, if_neg Bool.false_ne_true, hfp, releaseArgs_eq]
        rfl
      | true =>
        rw [if_pos rfl, if_pos rfl, hthis, releaseArgs_eq, releaseThis_eq, hfp]
        rfl

end

/-- The property is kept when objects are given up and words of the stack are set. -/
structure Robust (P : Machine → Prop) : Prop where
  giveUp : ∀ {m}, P m → ∀ object, P (m.giveUp object)
  release : ∀ {m}, P m →
    ∀ object, P (m.onEngine fun e => e.changeHeap fun heap => (heap.release object).2)
  setWords : ∀ {m}, P m → ∀ p v, P (m.setWords p v)

theorem Robust.clearObjectVars (hP : Robust P) (h : P m) (f : Func) : P (m.clearObjectVars f) := by
  refine List.foldlRecOn f.objectVars _ h fun m hm v _ => ?_
  cases m.ctx.fp.shift? (-v.offset.toInt) with
  | none => exact hm
  | some p => exact hP.setWords hm p 0

theorem Robust.cleanSlot (hP : Robust P) (h : P m) (slot : FrameSlot) : P (m.cleanSlot slot) := by
  unfold Machine.cleanSlot
  split
  · exact h
  · apply hP.setWords
    cases slot.op? m.ctx.stack m.engine.heap with
    | none => exact h
    | some op =>
      cases op with
      | free object => exact hP.giveUp h object
      | release object => exact hP.release h object

theorem Robust.releaseArgs (hP : Robust P) (h : P m) (args : Pointer) (offset : Nat)
    (params : List Parameter) : P (m.releaseArgs args offset params) := by
  rw [releaseArgs_eq]
  exact List.foldlRecOn _ _ h fun _ hm slot _ => hP.cleanSlot hm slot

theorem Robust.cleanFrame (hP : Robust P) (h : P m) : P m.cleanFrame := by
  rw [cleanFrame_eq]
  exact List.foldlRecOn _ _ h fun _ hm slot _ => hP.cleanSlot hm slot

end Machine

end ScriptVm
