import ScriptVm.Proofs.Heap.Access

namespace ScriptVm.Heap

variable {h k : Heap} {r : Handle} {o : Object}

/-- Every slot in the list of empty ones is there. -/
def Listed (h : Heap) : Prop := ∀ i ∈ h.free, i.toNat < h.slots.size

/-- Some object has as many references as a word can count. -/
def Crowded (h : Heap) : Prop := ∃ r o, h.get? r = some o ∧ 4294967295 ≤ o.refs

theorem Listed.hasSlot (hl : h.Listed) : h.hasSlot = true := by
  unfold Heap.hasSlot
  cases hfree : h.free with
  | nil => rfl
  | cons i free =>
    have hlt : i.toNat < h.slots.size := by
      apply hl
      rw [hfree]
      exact List.mem_cons_self
    simpa using hlt

theorem crowded_of_countFits (hcnt : h.countFits r = false) : h.Crowded := by
  unfold countFits at hcnt
  cases hr : h.get? r with
  | none => simp [hr] at hcnt
  | some o =>
    have hrefs : 4294967296 ≤ o.refs := by simpa [hr] using hcnt
    refine ⟨r, o, hr, ?_⟩
    omega

variable (hl : h.Listed)
include hl

theorem Listed.of_same (hfree : k.free = h.free) (hsize : k.slots.size = h.slots.size) :
    k.Listed := by
  intro i hi
  rw [hfree] at hi
  rw [hsize]
  exact hl i hi

theorem Listed.note (change : LifeChange) (o : Object) : (h.note change o).Listed :=
  hl.of_same (note_free h change o) (by rw [note_slots])

theorem Listed.modify (r : Handle) (f : Object → Object) : (h.modify r f).Listed :=
  hl.of_same rfl (by simp [Heap.modify])

theorem Listed.setField (index : UInt32) (generation : UInt16) (offset value : UInt32) :
    (h.setField index generation offset value).Listed :=
  hl.of_same rfl (by simp [Heap.setField])

theorem Listed.lowerRefs (r : Handle) (o : Object) (refs : Nat) : (h.lowerRefs r o refs).Listed := by
  have hmodified := hl.modify r fun o => { o with refs }
  exact (hmodified.note .release { o with refs }).of_same rfl rfl

theorem Listed.addRef (r : Handle) : (h.addRef r).2.Listed := by
  unfold Heap.addRef
  cases h.get? r with
  | none => exact hl
  | some o =>
    have hmodified := hl.modify r fun o => { o with refs := o.refs + 1 }
    exact (hmodified.note .addRef { o with refs := o.refs + 1 }).of_same rfl rfl

theorem Listed.insert (o : Object) : (h.insert o).2.Listed := by
  cases hfree : h.free with
  | nil =>
    rw [insert_append hfree]
    intro i hi
    have hi : i ∈ h.free := hi
    rw [hfree] at hi
    cases hi
  | cons index free =>
    intro i hi
    unfold Heap.insert at hi ⊢
    simp only [hfree, Array.size_modify] at hi ⊢
    apply hl
    rw [hfree]
    exact List.mem_cons_of_mem _ hi

theorem Listed.alloc (type : ObjectType) : (h.alloc type).2.Listed := by
  let o : Object := { type, refs := 1, fields := .zeros type.fieldWords.toNat }
  have hnoted := hl.note .construct o
  apply Listed.insert
  exact hnoted.of_same rfl rfl

theorem Listed.vacate (hr : h.get? r = some o) : (h.vacate r o).Listed := by
  have hlt := index_lt_of_get? hr
  apply Listed.note
  intro i hi
  simp only [Array.size_modify]
  rcases List.mem_cons.mp hi with rfl | hi
  · exact hlt
  · exact hl i hi

theorem Listed.dropChildren (children pending : List Handle) :
    (h.dropChildren children pending).1.Listed := by
  induction children generalizing h pending with
  | nil => exact hl
  | cons child children ih =>
    rw [Heap.dropChildren]
    split
    · exact ih hl pending
    · split
      · split
        · exact ih (hl.lowerRefs child _ _) pending
        · exact ih (hl.lowerRefs child _ _) _
      · exact ih hl _

theorem Listed.destroyAll (pending : List Handle) : (h.destroyAll pending).Listed := by
  fun_induction Heap.destroyAll h pending with
  | case1 => exact hl
  | case2 h r pending hr ih => exact ih hl
  | case3 h r pending o hr hvacate hdrop next ih =>
    apply ih
    exact (hl.vacate hr).dropChildren o.children pending

theorem Listed.release (r : Handle) : (h.release r).2.Listed := by
  unfold Heap.release
  cases h.get? r with
  | none => exact hl
  | some o =>
    have hlower := hl.lowerRefs r o (o.refs - 1)
    dsimp only
    split
    · exact hlower.destroyAll [r]
    · exact hlower

theorem Listed.giveUp (r : Handle) : (h.giveUp r).Listed := by
  unfold Heap.giveUp
  cases h.get? r with
  | none => exact hl
  | some o =>
    dsimp only
    split
    · exact hl.release r
    · exact hl.destroyAll [r]

theorem Listed.addRefs (children : List Handle) :
    (h.addRefs children).Listed := by
  induction children generalizing h with
  | nil => exact hl
  | cons child children ih => exact ih (hl.addRef child)

theorem Listed.duplicate (r : Handle) : (h.duplicate r).2.Listed := by
  unfold Heap.duplicate
  cases h.get? r with
  | none => exact hl
  | some o =>
    have hcopy := (hl.alloc o.type).modify (h.alloc o.type).1 fun c => { c with fields := o.fields }
    exact hcopy.addRefs o.children

end ScriptVm.Heap
