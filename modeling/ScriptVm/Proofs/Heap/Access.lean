import ScriptVm.Heap.Release

namespace ScriptVm.Heap

variable {r : Handle} {h : Heap} {o : Object}

theorem handle_ext {q : Handle} (hi : r.index = q.index)
    (hg : r.generation = q.generation) : r = q := by
  cases r
  cases q
  simp_all

theorem isLive_iff : h.isLive r = true ↔ ∃ o, h.get? r = some o := Option.isSome_iff_exists

theorem index_lt_of_get? (hr : h.get? r = some o) : r.index.toNat < h.slots.size := by
  obtain ⟨slot, hs, -, -⟩ := get?_eq_some_iff.mp hr
  exact (Array.getElem?_eq_some_iff.mp hs).1

theorem get?_of_slots {k : Heap} (hs : h.slots = k.slots) (q : Handle) : h.get? q = k.get? q := by
  unfold get?
  rw [hs]

@[simp] theorem note_slots (h : Heap) (c : LifeChange) (o : Object) :
    (h.note c o).slots = h.slots := by
  unfold note
  split <;> rfl

@[simp] theorem note_free (h : Heap) (c : LifeChange) (o : Object) : (h.note c o).free = h.free := by
  unfold note
  split <;> rfl

theorem get?_modify (h : Heap) (r : Handle) (f : Object → Object) (q : Handle) :
    (h.modify r f).get? q = if q = r then (h.get? q).map f else h.get? q := by
  unfold get? modify
  simp only [Array.getElem?_modify]
  by_cases hi : r.index.toNat = q.index.toNat
  · rw [if_pos hi]
    have hidx : q.index = r.index := UInt32.toNat_inj.mp hi.symm
    cases hs : h.slots[q.index.toNat]? with
    | none => simp
    | some slot =>
      by_cases he : q = r
      · by_cases hr : slot.generation = r.generation <;> simp [he, hr]
      · have hne : q.generation ≠ r.generation := fun hg => he (handle_ext hidx hg)
        by_cases hr : slot.generation = r.generation
        · simp [he, hr, Ne.symm hne]
        · simp [he, hr]
  · have he : q ≠ r := fun e => hi (by rw [e])
    rw [if_neg hi, if_neg he]

theorem get?_lowerRefs (h : Heap) (r : Handle) (o : Object) (refs : Nat) (q : Handle) :
    (h.lowerRefs r o refs).get? q = if q = r then (h.get? q).map fun o =>
      { o with refs } else h.get? q := by
  rw [← get?_modify]
  exact get?_of_slots (by simp [lowerRefs]) q

theorem get?_vacate (hr : h.get? r = some o) (q : Handle) :
    (h.vacate r o).get? q = if q = r then none else h.get? q := by
  obtain ⟨slot, hs, hg, ho⟩ := get?_eq_some_iff.mp hr
  rw [vacate, get?_of_slots (note_slots _ .destruct o)]
  unfold get?
  simp only [Array.getElem?_modify]
  by_cases hi : r.index.toNat = q.index.toNat
  · have hidx : q.index = r.index := UInt32.toNat_inj.mp hi.symm
    rw [if_pos hi, ← hi, hs]
    by_cases he : q = r
    · simp [he]
    · have hne : slot.generation ≠ q.generation := fun hq => he (handle_ext hidx (hq.symm.trans hg))
      simp [he, hne]
  · have he : q ≠ r := fun e => hi (by rw [e])
    rw [if_neg hi, if_neg he]

/-- There is a slot of this number and it holds no object. -/
def EmptyAt (h : Heap) (i : Nat) : Prop := ∃ slot, h.slots[i]? = some slot ∧ slot.object = none

/-- The list of free slots holds each empty slot once and no other, and slot numbers leave room for
the mark of null. -/
structure Tidy (h : Heap) : Prop where
  nodup : h.free.Nodup
  mem_free : ∀ i : UInt32, i ∈ h.free ↔ h.EmptyAt i.toNat
  size_lt : h.slots.size < 4294967296

theorem tidy_empty : Tidy {} := by
  refine ⟨List.nodup_nil, fun i => ?_, by decide⟩
  simp [EmptyAt]

theorem Tidy.index_lt (ht : h.Tidy) (hr : h.get? r = some o) : r.index.toNat + 1 < 4294967296 := by
  have hi := index_lt_of_get? hr
  have hs := ht.size_lt
  omega

theorem Tidy.of_same {k : Heap} (ht : h.Tidy) (hfree : k.free = h.free)
    (hsize : k.slots.size = h.slots.size) (hempty : ∀ i, k.EmptyAt i ↔ h.EmptyAt i) : k.Tidy := by
  refine ⟨hfree ▸ ht.nodup, fun i => ?_, hsize ▸ ht.size_lt⟩
  rw [hfree, hempty, ht.mem_free]

theorem not_emptyAt (hr : h.get? r = some o) : ¬ h.EmptyAt r.index.toNat := by
  obtain ⟨slot, hs, -, ho⟩ := get?_eq_some_iff.mp hr
  rintro ⟨slot', hs', ho'⟩
  rw [hs] at hs'
  cases hs'
  rw [ho] at ho'
  cases ho'

theorem emptyAt_modify (h : Heap) (r : Handle) (f : Object → Object) (i : Nat) :
    (h.modify r f).EmptyAt i ↔ h.EmptyAt i := by
  unfold EmptyAt modify
  simp only [Array.getElem?_modify]
  by_cases hi : r.index.toNat = i
  · rw [if_pos hi]
    cases h.slots[i]? with
    | none => simp
    | some slot => by_cases hg : slot.generation = r.generation <;> simp [hg]
  · rw [if_neg hi]

theorem Tidy.modify (ht : h.Tidy) (r : Handle) (f : Object → Object) : (h.modify r f).Tidy :=
  ht.of_same rfl (by simp [Heap.modify]) (emptyAt_modify h r f)

theorem Tidy.lowerRefs (ht : h.Tidy) (r : Handle) (o : Object) (refs : Nat) :
    (h.lowerRefs r o refs).Tidy := by
  refine (ht.modify r fun o => { o with refs }).of_same ?_ ?_ fun i => ?_
  · exact note_free _ _ _
  · simp [Heap.lowerRefs]
  · simp [EmptyAt, Heap.lowerRefs]

theorem Tidy.vacate (ht : h.Tidy) (hr : h.get? r = some o) : (h.vacate r o).Tidy := by
  have hsome := not_emptyAt hr
  have hi := index_lt_of_get? hr
  refine ⟨?_, fun i => ?_, ?_⟩
  · rw [Heap.vacate, note_free]
    exact List.nodup_cons.mpr ⟨fun hm => hsome ((ht.mem_free _).mp hm), ht.nodup⟩
  · rw [Heap.vacate, note_free, List.mem_cons, ht.mem_free]
    unfold EmptyAt
    simp only [note_slots, Array.getElem?_modify]
    by_cases he : r.index.toNat = i.toNat
    · have hri : i = r.index := UInt32.toNat_inj.mp he.symm
      rw [if_pos he, ← he, Array.getElem?_eq_getElem hi]
      simp [hri]
    · have hri : i ≠ r.index := fun e => he (by rw [e])
      simp [he, hri]
  · simpa [Heap.vacate] using ht.size_lt

/-- A new object finds a slot: a free one, or one with the next number. -/
def HasRoom (h : Heap) : Prop := h.free = [] → h.slots.size + 1 < 4294967296

theorem insert_reuse {i : UInt32} {free : List UInt32} {slot : HeapSlot} (hf : h.free = i :: free)
    (hs : h.slots[i.toNat]? = some slot) (o : Object) :
    h.insert o = ({ index := i, generation := slot.generation },
      { h with free, slots := h.slots.modify i.toNat fun slot => { slot with object := some o } }) := by
  simp [insert, hf, hs]

theorem insert_append (hf : h.free = []) (o : Object) :
    h.insert o = ({ index := h.slots.size.toUInt32, generation := 0 },
      { h with slots := h.slots.push { object := some o } }) := by
  simp [insert, hf]

theorem Tidy.slot_of_free (ht : h.Tidy) {i : UInt32} {free : List UInt32} (hf : h.free = i :: free) :
    ∃ slot, h.slots[i.toNat]? = some slot ∧ slot.object = none :=
  (ht.mem_free i).mp (by simp [hf])

theorem get?_insert_self (ht : h.Tidy) (o : Object) : h.get? (h.insert o).1 = none := by
  cases hf : h.free with
  | nil =>
    have hsize := ht.size_lt
    rw [insert_append hf]
    simp [get?, Nat.mod_eq_of_lt hsize]
  | cons i free =>
    obtain ⟨slot, hs, ho⟩ := ht.slot_of_free hf
    rw [insert_reuse hf hs]
    simp [get?, hs, ho]

theorem get?_insert (ht : h.Tidy) (o : Object) (q : Handle) :
    (h.insert o).2.get? q = if q = (h.insert o).1 then some o else h.get? q := by
  cases hf : h.free with
  | nil =>
    have hsize := ht.size_lt
    rw [insert_append hf]
    unfold get?
    simp only [Array.getElem?_push]
    by_cases hi : q.index.toNat = h.slots.size
    · have hidx : q.index = h.slots.size.toUInt32 := by
        apply UInt32.toNat_inj.mp
        simp [hi, Nat.mod_eq_of_lt hsize]
      rw [if_pos hi, Array.getElem?_eq_none (by omega)]
      by_cases hg : q.generation = 0
      · have he : q = ⟨h.slots.size.toUInt32, 0⟩ := handle_ext hidx hg
        simp [he]
      · have he : q ≠ ⟨h.slots.size.toUInt32, 0⟩ := fun e => hg (by rw [e])
        simp [he, Ne.symm hg]
    · have he : q ≠ ⟨h.slots.size.toUInt32, 0⟩ := by
        intro e
        rw [e] at hi
        simp [Nat.mod_eq_of_lt hsize] at hi
      rw [if_neg hi, if_neg he]
  | cons i free =>
    obtain ⟨slot, hs, ho⟩ := ht.slot_of_free hf
    rw [insert_reuse hf hs]
    unfold get?
    simp only [Array.getElem?_modify]
    by_cases hi : i.toNat = q.index.toNat
    · have hidx : q.index = i := UInt32.toNat_inj.mp hi.symm
      rw [if_pos hi, ← hi, hs]
      by_cases hg : q.generation = slot.generation
      · have he : q = ⟨i, slot.generation⟩ := handle_ext hidx hg
        simp [he]
      · have he : q ≠ ⟨i, slot.generation⟩ := fun e => hg (by rw [e])
        simp [he, Ne.symm hg]
    · have he : q ≠ ⟨i, slot.generation⟩ := fun e => hi (by rw [e])
      rw [if_neg hi, if_neg he]

theorem Tidy.insert (ht : h.Tidy) (hroom : h.HasRoom) (o : Object) : (h.insert o).2.Tidy := by
  cases hf : h.free with
  | nil =>
    have hsize := ht.size_lt
    have hroom := hroom hf
    have hnone : ∀ i, ¬ h.EmptyAt i := by
      intro i hi
      obtain ⟨slot, hs, -⟩ := id hi
      have hlt := (Array.getElem?_eq_some_iff.mp hs).1
      have hm :=
        (ht.mem_free i.toUInt32).mpr (by simpa [Nat.mod_eq_of_lt (Nat.lt_trans hlt hsize)] using hi)
      simp [hf] at hm
    rw [insert_append hf]
    refine ⟨hf ▸ List.nodup_nil, fun i => ?_, by simpa using hroom⟩
    have hi := hnone i.toNat
    simp only [hf, List.not_mem_nil, EmptyAt, Array.getElem?_push, false_iff]
    rintro ⟨slot, hs, ho⟩
    split at hs
    · cases hs
      cases ho
    · exact hi ⟨slot, hs, ho⟩
  | cons i free =>
    obtain ⟨slot, hs, ho⟩ := ht.slot_of_free hf
    have hnd := ht.nodup
    rw [hf, List.nodup_cons] at hnd
    rw [insert_reuse hf hs]
    refine ⟨hnd.2, fun j => ?_, by simpa using ht.size_lt⟩
    have hj := ht.mem_free j
    rw [hf, List.mem_cons] at hj
    simp only [EmptyAt, Array.getElem?_modify] at hj ⊢
    by_cases he : i.toNat = j.toNat
    · have hji : j = i := UInt32.toNat_inj.mp he.symm
      rw [if_pos he, ← he, hs]
      simp [hji, hnd.1]
    · have hji : j ≠ i := fun e => he (by rw [e])
      rw [if_neg he, ← hj]
      simp [hji]

end ScriptVm.Heap
