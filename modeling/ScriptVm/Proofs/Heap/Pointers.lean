import ScriptVm.Proofs.Bits
import ScriptVm.Proofs.Heap.Access

namespace ScriptVm

variable {α : Type}

theorem getElem?_push_of_some {xs : Array α} {n : Nat} {a : α} (h : xs[n]? = some a) (b : α) :
    (xs.push b)[n]? = some a := by
  have hlt := (Array.getElem?_eq_some_iff.mp h).1
  rw [Array.getElem?_push, if_neg (Nat.ne_of_lt hlt), h]

@[simp] theorem total_cons (count : α → Nat) (a : α) (xs : List α) :
    total count (a :: xs) = count a + total count xs := rfl

theorem total_append (count : α → Nat) (xs ys : List α) :
    total count (xs ++ ys) = total count xs + total count ys := by
  induction xs with
  | nil => simp [total]
  | cons a xs ih =>
    rw [List.cons_append, total_cons, total_cons, ih]
    omega

theorem total_modify (count : α → Nat) (f : α → α) (xs : List α) (i : Nat) (a : α)
    (hi : xs[i]? = some a) :
    total count (xs.modify i f) + count a = total count xs + count (f a) := by
  induction xs generalizing i with
  | nil => simp at hi
  | cons x xs ih =>
    cases i with
    | zero =>
      have hx : x = a := by simpa using hi
      subst hx
      simp only [List.modify_zero_cons, total_cons]
      omega
    | succ i =>
      have hrest := ih i (by simpa using hi)
      simp only [List.modify_succ_cons, total_cons]
      omega

theorem total_eq_zero {count : α → Nat} {xs : List α} (h : ∀ a ∈ xs, count a = 0) :
    total count xs = 0 := by
  induction xs with
  | nil => rfl
  | cons a xs ih =>
    rw [total_cons, h a (by simp), ih fun b hb => h b (List.mem_cons_of_mem _ hb)]

/-- The handle fields of an object that hold a handle. -/
def Object.pointersTo (o : Object) (r : Handle) : Nat :=
  o.type.handleFields.countP fun offset => o.handleAt? offset == some r

theorem Object.count_children (o : Object) (r : Handle) : o.children.count r = o.pointersTo r :=
  List.count_filterMap

theorem Object.mem_children {o : Object} {r : Handle} :
    r ∈ o.children ↔ ∃ offset ∈ o.type.handleFields, o.handleAt? offset = some r :=
  List.mem_filterMap

def HeapSlot.pointersTo (s : HeapSlot) (r : Handle) : Nat :=
  match s.object with
  | some o => o.pointersTo r
  | none => 0

namespace Heap

variable {h : Heap} {r : Handle} {o : Object}

/-- The handle fields of live objects that hold a handle. -/
def pointersTo (h : Heap) (r : Handle) : Nat := total (fun slot => slot.pointersTo r) h.slots.toList

theorem pointersTo_of_slots {k : Heap} (hs : h.slots = k.slots) (q : Handle) :
    h.pointersTo q = k.pointersTo q := by
  unfold pointersTo
  rw [hs]

theorem pointersTo_modifySlot {k : Heap} {i : Nat} {slot : HeapSlot} (f : HeapSlot → HeapSlot)
    (hk : k.slots = h.slots.modify i f) (hs : h.slots[i]? = some slot) (q : Handle) :
    k.pointersTo q + slot.pointersTo q = h.pointersTo q + (f slot).pointersTo q := by
  unfold pointersTo
  rw [hk, Array.toList_modify]
  exact total_modify _ f _ i slot (by simpa using hs)

theorem pointersTo_modify (hr : h.get? r = some o) (f : Object → Object) (q : Handle) :
    (h.modify r f).pointersTo q + o.pointersTo q = h.pointersTo q + (f o).pointersTo q := by
  obtain ⟨slot, hs, hg, ho⟩ := get?_eq_some_iff.mp hr
  have hslot := pointersTo_modifySlot (k := h.modify r f)
    (fun slot => if slot.generation = r.generation then { slot with object := slot.object.map f }
      else slot) rfl hs q
  simpa [HeapSlot.pointersTo, hg, ho] using hslot

theorem pointersTo_lowerRefs (hr : h.get? r = some o) (refs : Nat) (q : Handle) :
    (h.lowerRefs r o refs).pointersTo q = h.pointersTo q := by
  have hslots : (h.lowerRefs r o refs).slots = (h.modify r fun o => { o with refs }).slots := by
    simp [lowerRefs]
  have hsame : Object.pointersTo { o with refs } q = o.pointersTo q := rfl
  have hmod := pointersTo_modify hr (fun o => { o with refs }) q
  rw [pointersTo_of_slots hslots]
  omega

theorem pointersTo_vacate (hr : h.get? r = some o) (q : Handle) :
    (h.vacate r o).pointersTo q + o.pointersTo q = h.pointersTo q := by
  obtain ⟨slot, hs, -, ho⟩ := get?_eq_some_iff.mp hr
  have hslot := pointersTo_modifySlot (k := h.vacate r o)
    (fun slot => { generation := slot.generation + 1, object := none }) (by simp [vacate]) hs q
  simpa [HeapSlot.pointersTo, ho] using hslot

theorem pointersTo_insert (ht : h.Tidy) (o : Object) (q : Handle) :
    (h.insert o).2.pointersTo q = h.pointersTo q + o.pointersTo q := by
  cases hf : h.free with
  | nil =>
    rw [insert_append hf, pointersTo, Array.toList_push, total_append]
    rfl
  | cons i free =>
    obtain ⟨slot, hs, ho⟩ := ht.slot_of_free hf
    have hslot :=
      pointersTo_modifySlot (k := (h.insert o).2) (fun slot => { slot with object := some o })
      (by rw [insert_reuse hf hs]) hs q
    simpa [HeapSlot.pointersTo, ho] using hslot

theorem pointersTo_le {p : Handle} (hp : h.get? p = some o) (q : Handle) :
    o.pointersTo q ≤ h.pointersTo q := by
  have := pointersTo_vacate hp q
  omega

theorem pointersTo_pos {p : Handle} (hp : h.get? p = some o) (hr : r ∈ o.children) :
    0 < h.pointersTo r := by
  have hle := pointersTo_le hp r
  have hpos : 0 < o.children.count r := List.count_pos_iff.mpr hr
  rw [Object.count_children] at hpos
  omega

theorem get?_of_mem (ht : h.Tidy) {slot : HeapSlot} (hs : slot ∈ h.slots.toList)
    (ho : slot.object = some o) : ∃ r, h.get? r = some o := by
  obtain ⟨i, hi, rfl⟩ := List.getElem_of_mem hs
  have hsize := ht.size_lt
  have hlt : i < h.slots.size := by simpa using hi
  refine ⟨⟨i.toUInt32, h.slots.toList[i].generation⟩,
    get?_eq_some_iff.mpr ⟨h.slots.toList[i], ?_, rfl, ho⟩⟩
  simp [Nat.mod_eq_of_lt (Nat.lt_trans hlt hsize), hlt]

theorem pointersTo_eq_zero (ht : h.Tidy) (hr : ∀ p o, h.get? p = some o → r ∉ o.children) :
    h.pointersTo r = 0 := by
  refine total_eq_zero fun slot hs => ?_
  cases ho : slot.object with
  | none => simp [HeapSlot.pointersTo, ho]
  | some o =>
    obtain ⟨p, hp⟩ := get?_of_mem ht hs ho
    have hcnt := List.count_eq_zero.mpr (hr p o hp)
    rw [Object.count_children] at hcnt
    simpa [HeapSlot.pointersTo, ho] using hcnt

end Heap
end ScriptVm
