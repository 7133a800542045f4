import ScriptVm.Heap.Basic

namespace ScriptVm.Heap

/-- Gives up the children of a destroyed object. Those to be destroyed in turn come out last
first. -/
def dropChildren (h : Heap) : List Handle → List Handle → Heap × List Handle
  | [], pending => (h, pending)
  | child :: children, pending =>
    match h.get? child with
    | none => dropChildren h children pending
    | some o =>
      if o.type.refCounted then
        if 1 < o.refs then dropChildren (h.lowerRefs child o (o.refs - 1)) children pending
        else dropChildren (h.lowerRefs child o 0) children (child :: pending)
      else dropChildren h children (child :: pending)

def vacate (h : Heap) (r : Handle) (o : Object) : Heap :=
  let h : Heap :=
    { h with
      slots := h.slots.modify r.index.toNat fun slot =>
        { generation := slot.generation + 1, object := none }
      free := r.index :: h.free
      stats := { h.stats with frees := h.stats.frees + 1 } }
  h.note .destruct o

theorem modify_eq_set {α : Type} {xs : Array α} {i : Nat} (hi : i < xs.size) (f : α → α) :
    xs.modify i f = xs.set i (f xs[i]) hi := by
  apply Array.ext_getElem?
  intro j
  rw [Array.getElem?_modify, Array.getElem?_set]
  split
  · rename_i hj
    rw [← hj, Array.getElem?_eq_getElem hi]
    rfl
  · rfl

theorem liveCount_modifySlot (slots : Array HeapSlot) (i : Nat) (f : HeapSlot → HeapSlot)
    (hf : ∀ s, (f s).object.isSome = s.object.isSome) :
    (slots.modify i f).countP (fun s => s.object.isSome) =
      slots.countP fun s => s.object.isSome := by
  by_cases hi : i < slots.size
  · rw [modify_eq_set hi, Array.countP_set hi, hf]
    by_cases hs : slots[i].object.isSome = true
    · have : 0 < slots.countP fun s => s.object.isSome :=
        Array.countP_pos_iff.mpr ⟨slots[i], Array.getElem_mem hi, hs⟩
      simp [hs]; omega
    · simp [hs]
  · have hm : slots.modify i f = slots := by
      apply Array.ext
      · simp
      · intro j h1 h2
        rw [Array.getElem_modify, if_neg (by omega)]
    rw [hm]

@[simp] theorem liveCount_note (h : Heap) (c : LifeChange) (o : Object) :
    (h.note c o).liveCount = h.liveCount := by
  unfold note; split <;> rfl

@[simp] theorem liveCount_modify (h : Heap) (r : Handle) (f : Object → Object) :
    (h.modify r f).liveCount = h.liveCount := by
  refine liveCount_modifySlot h.slots r.index.toNat _ fun s => ?_
  by_cases hs : s.generation = r.generation <;> simp [hs]

@[simp] theorem liveCount_lowerRefs (h : Heap) (r : Handle) (o : Object) (refs : Nat) :
    (h.lowerRefs r o refs).liveCount = h.liveCount := by
  have := liveCount_note (h.modify r fun o => { o with refs }) .release { o with refs }
  rw [liveCount_modify] at this
  exact this

theorem liveCount_dropChildren (h : Heap) (children pending : List Handle) :
    (h.dropChildren children pending).1.liveCount = h.liveCount := by
  induction children generalizing h pending with
  | nil => rfl
  | cons child children ih =>
    rw [dropChildren]
    split
    · exact ih ..
    · split
      · split <;> rw [ih, liveCount_lowerRefs]
      · exact ih ..

theorem get?_eq_some_iff {h : Heap} {r : Handle} {o : Object} : h.get? r = some o ↔
    ∃ slot, h.slots[r.index.toNat]? = some slot ∧ slot.generation = r.generation ∧
      slot.object = some o := by
  unfold get?
  cases hs : h.slots[r.index.toNat]? with
  | none => simp
  | some slot =>
    by_cases hg : slot.generation = r.generation <;> simp [hg]

theorem liveCount_vacate_add_one {h : Heap} {r : Handle} {o : Object} (hr : h.get? r = some o) :
    (h.vacate r o).liveCount + 1 = h.liveCount := by
  obtain ⟨slot, hs, -, ho⟩ := get?_eq_some_iff.mp hr
  obtain ⟨hi, rfl⟩ := Array.getElem?_eq_some_iff.mp hs
  have hpos : 0 < h.slots.countP fun s => s.object.isSome :=
    Array.countP_pos_iff.mpr ⟨_, Array.getElem_mem hi, by simp [ho]⟩
  rw [vacate, liveCount_note]
  simp only [liveCount, modify_eq_set hi, Array.countP_set hi, ho, Option.isSome_some, if_true,
    Option.isSome_none, Bool.false_eq_true, if_false]
  omega

/-- Destroys objects. Each gives up the handles it owns, which may destroy more. -/
def destroyAll (h : Heap) : List Handle → Heap
  | [] => h
  | r :: pending =>
    match hr : h.get? r with
    | none => destroyAll h pending
    | some o =>
      have := liveCount_vacate_add_one hr
      have := liveCount_dropChildren (h.vacate r o) o.children pending
      let next := (h.vacate r o).dropChildren o.children pending
      destroyAll next.1 next.2
termination_by pending => (h.liveCount, pending.length)
decreasing_by
  · exact Prod.Lex.right _ (by simp)
  · exact Prod.Lex.left _ _ (by omega)

def destroy (h : Heap) (r : Handle) : Heap := h.destroyAll [r]

/-- Gives up a reference; true if it was the last and the object is gone. -/
def release (h : Heap) (r : Handle) : Bool × Heap :=
  match h.get? r with
  | none => (false, h)
  | some o =>
    let h := h.lowerRefs r o (o.refs - 1)
    if o.refs - 1 = 0 then (true, h.destroy r) else (false, h)

/-- Gives up an owned object: a counted one loses a reference, another one is destroyed. -/
def giveUp (h : Heap) (r : Handle) : Heap :=
  match h.get? r with
  | none => h
  | some o => if o.type.refCounted then (h.release r).2 else h.destroy r

def addRefs (h : Heap) (refs : List Handle) : Heap := refs.foldl (fun h r => (h.addRef r).2) h

def duplicate (h : Heap) (r : Handle) : Option Handle × Heap :=
  match h.get? r with
  | none => (none, h)
  | some o =>
    let (copy, h) := h.alloc o.type
    let h := h.modify copy fun c => { c with fields := o.fields }
    (some copy, h.addRefs o.children)

end ScriptVm.Heap
