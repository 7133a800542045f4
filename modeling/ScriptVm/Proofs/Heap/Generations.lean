import ScriptVm.Proofs.Heap.Representation

namespace ScriptVm

/-- The generation of a slot and whether it holds an object, which is all that decides which handles
are good. -/
def HeapSlot.mark (slot : HeapSlot) : UInt32 × Bool := (slot.generation, slot.object.isSome)

namespace Heap

def mark? (h : Heap) (i : Nat) : Option (UInt32 × Bool) := h.slots[i]?.map HeapSlot.mark

/-- No slot was emptied more often than objects went. -/
def Dated (h : Heap) : Prop := ∀ i mark, h.mark? i = some mark → mark.1.toNat ≤ h.stats.frees

/-- What time does to a heap: a slot stays, its generation does not go back, and while it is the
same an object stays. -/
structure Ages (h k : Heap) : Prop where
  later : ∀ i mark, h.mark? i = some mark →
    ∃ mark', k.mark? i = some mark' ∧ mark.1.toNat ≤ mark'.1.toNat ∧
      (mark'.1 = mark.1 → mark.2 = true → mark'.2 = true)
  frees_le : h.stats.frees ≤ k.stats.frees
  dated : k.Dated

def made? (h : Heap) : Op → Option Handle
  | .alloc type => some (h.alloc type).1
  | .duplicate r => (h.duplicate r).1
  | _ => none

/-- The handle that the operation of this number gives out. -/
def madeAt? (ops : List Op) (i : Nat) : Option Handle := ops[i]?.bind (uses (ops.take i)).made?

/-- Nothing is found through a handle, and nothing is changed. -/
structure Ignores (h : Heap) (r : Handle) : Prop where
  get?_eq : h.get? r = none
  isLive_eq : h.isLive r = false
  addRef_eq : h.addRef r = (false, h)
  release_eq : h.release r = (false, h)
  giveUp_eq : h.giveUp r = h
  duplicate_eq : h.duplicate r = (none, h)

variable {h k : Heap} {r : Handle} {o : Object}

theorem ignores_of_not_isLive (hr : h.isLive r = false) : h.Ignores r := by
  have hnone : h.get? r = none := Option.isNone_iff_eq_none.mp (by simpa [isLive] using hr)
  exact ⟨hnone,
    hr, by simp [addRef, hnone], by simp [release, hnone], by simp [giveUp, hnone], by
      simp [duplicate, hnone]⟩

theorem isLive_iff_mark : h.isLive r = true ↔ h.mark? r.index.toNat = some (r.generation, true) := by
  unfold isLive get? mark? HeapSlot.mark
  cases h.slots[r.index.toNat]? with
  | none => simp
  | some slot => by_cases hg : slot.generation = r.generation <;> simp [hg]

theorem mark?_of_slots (hslots : k.slots = h.slots) (i : Nat) : k.mark? i = h.mark? i := by
  rw [mark?, hslots, mark?]

theorem mark?_modifySlot {f : HeapSlot → HeapSlot} (hf : ∀ slot, (f slot).mark = slot.mark)
    (h : Heap) (j i : Nat) : mark? { h with slots := h.slots.modify j f } i = h.mark? i := by
  unfold mark?
  rw [Array.getElem?_modify]
  split
  · cases h.slots[i]? with
    | none => rfl
    | some slot => exact congrArg some (hf slot)
  · rfl

theorem mark?_modify (h : Heap) (r : Handle) (f : Object → Object) (i : Nat) :
    (h.modify r f).mark? i = h.mark? i := by
  refine mark?_modifySlot (fun slot => ?_) h r.index.toNat i
  by_cases hg : slot.generation = r.generation <;> simp [hg, HeapSlot.mark]

theorem mark?_setField (h : Heap) (index : UInt32) (generation : UInt16) (offset value : UInt32)
    (i : Nat) :
    (h.setField index generation offset value).mark? i = h.mark? i := by
  refine mark?_modifySlot (fun slot => ?_) h index.toNat i
  by_cases hg : slot.generation.toUInt16 = generation <;> simp [hg, HeapSlot.mark]

theorem mark?_setWords (h : Heap) (r : Handle) (offset : Nat) (ws : List UInt32) (i : Nat) :
    (h.setWords r offset ws).2.mark? i = h.mark? i := by
  unfold setWords
  split
  · exact mark?_modify ..
  · rfl

theorem mark?_lowerRefs (h : Heap) (r : Handle) (o : Object) (refs : Nat) (i : Nat) :
    (h.lowerRefs r o refs).mark? i = h.mark? i := by
  rw [← mark?_modify h r fun o => { o with refs }]
  exact mark?_of_slots (by simp [lowerRefs]) i

theorem mark?_addRef (h : Heap) (r : Handle) (i : Nat) : (h.addRef r).2.mark? i = h.mark? i := by
  unfold addRef
  split
  · rfl
  · rw [← mark?_modify h r fun o => { o with refs := o.refs + 1 }]
    exact mark?_of_slots (by simp) i

theorem mark?_addRefs (h : Heap) (children : List Handle) (i : Nat) :
    (h.addRefs children).mark? i = h.mark? i := by
  induction children generalizing h with
  | nil => rfl
  | cons child children ih => exact (ih _).trans (mark?_addRef h child i)

theorem mark?_dropChildren (h : Heap) (children pending : List Handle) (i : Nat) :
    (h.dropChildren children pending).1.mark? i = h.mark? i := by
  induction children generalizing h pending with
  | nil => rfl
  | cons child children ih =>
    rw [dropChildren]
    split
    · exact ih ..
    · split
      · split <;> rw [ih, mark?_lowerRefs]
      · exact ih ..

theorem mark?_vacate (h : Heap) (r : Handle) (o : Object) (i : Nat) : (h.vacate r o).mark? i =
      if r.index.toNat = i then (h.mark? i).map fun mark => (mark.1 + 1, false) else h.mark? i := by
  rw [vacate, mark?_of_slots (note_slots _ .destruct o)]
  unfold mark?
  rw [Array.getElem?_modify]
  split
  · cases h.slots[i]? <;> rfl
  · rfl

theorem mark?_insert (ht : h.Tidy) (o : Object) (i : Nat) : (h.insert o).2.mark? i =
      if (h.insert o).1.index.toNat = i then some ((h.insert o).1.generation, true)
      else h.mark? i := by
  cases hfree : h.free with
  | nil =>
    have hsize : h.slots.size.toUInt32.toNat = h.slots.size := by simp [Nat.mod_eq_of_lt ht.size_lt]
    rw [insert_append hfree]
    dsimp only
    rw [hsize, mark?, Array.getElem?_push]
    by_cases hi : i = h.slots.size
    · rw [if_pos hi, if_pos hi.symm]
      rfl
    · rw [if_neg hi, if_neg (Ne.symm hi)]
      rfl
  | cons j free =>
    obtain ⟨slot, hs, -⟩ := ht.slot_of_free hfree
    rw [insert_reuse hfree hs]
    dsimp only
    rw [mark?, Array.getElem?_modify]
    split
    · rename_i hi
      rw [← hi, hs]
      rfl
    · rfl

theorem mark?_insert_slot (ht : h.Tidy) (o : Object) :
    h.mark? (h.insert o).1.index.toNat = some ((h.insert o).1.generation, false) ∨
      h.mark? (h.insert o).1.index.toNat = none ∧ (h.insert o).1.generation = 0 := by
  cases hfree : h.free with
  | nil =>
    rw [insert_append hfree]
    refine .inr ⟨?_, rfl⟩
    simp [mark?, Nat.mod_eq_of_lt ht.size_lt]
  | cons j free =>
    obtain ⟨slot, hs, ho⟩ := ht.slot_of_free hfree
    rw [insert_reuse hfree hs]
    exact .inl (by simp [mark?, hs, ho, HeapSlot.mark])

theorem Ages.refl (hd : h.Dated) : Ages h h :=
  ⟨fun _ mark hmark => ⟨mark, hmark, Nat.le_refl _, fun _ => id⟩, Nat.le_refl _, hd⟩

theorem Ages.trans {j : Heap} (hk : Ages h k) (hj : Ages k j) : Ages h j := by
  refine ⟨fun i mark hmark => ?_, Nat.le_trans hk.frees_le hj.frees_le, hj.dated⟩
  obtain ⟨mark1, hmark1, hle1, hstay1⟩ := hk.later i mark hmark
  obtain ⟨mark2, hmark2, hle2, hstay2⟩ := hj.later i mark1 hmark1
  refine ⟨mark2, hmark2, Nat.le_trans hle1 hle2, fun hsame hobj => ?_⟩
  -- A generation that comes out the same was the same all the time.
  have hmid : mark1.1 = mark.1 := UInt32.toNat_inj.mp (Nat.le_antisymm (hsame ▸ hle2) hle1)
  exact hstay2 (hsame.trans hmid.symm) (hstay1 hmid hobj)

theorem ages_of_same (hd : h.Dated) (hmark : ∀ i, k.mark? i = h.mark? i)
    (hfrees : k.stats.frees = h.stats.frees) : Ages h k := by
  refine ⟨fun i mark hi => ⟨mark, (hmark i).trans hi, Nat.le_refl _, fun _ => id⟩,
    Nat.le_of_eq hfrees.symm, fun i mark hi => ?_⟩
  rw [hfrees]
  exact hd i mark ((hmark i).symm.trans hi)

theorem ages_vacate (hd : h.Dated) (r : Handle) (o : Object)
    (hfit : (h.vacate r o).stats.frees < 4294967296) : Ages h (h.vacate r o) := by
  have hfrees := frees_vacate h r o
  have hnext {i : Nat} {mark : UInt32 × Bool} (hmark : h.mark? i = some mark) :
      (mark.1 + 1).toNat = mark.1.toNat + 1 := by
    have hle := hd i mark hmark
    rw [UInt32.toNat_add]
    exact Nat.mod_eq_of_lt (by show mark.1.toNat + 1 < 4294967296; omega)
  refine ⟨fun i mark hmark => ?_, by omega, fun i mark hmark => ?_⟩
  · rw [mark?_vacate]
    split
    · have hstep := hnext hmark
      refine ⟨(mark.1 + 1, false), by rw [hmark]; rfl, by dsimp only; omega, fun hsame => ?_⟩
      replace hsame : mark.1 + 1 = mark.1 := hsame
      rw [hsame] at hstep
      omega
    · exact ⟨mark, hmark, Nat.le_refl _, fun _ => id⟩
  · rw [mark?_vacate] at hmark
    split at hmark
    · obtain ⟨old, hold, rfl⟩ := Option.map_eq_some_iff.mp hmark
      have hle := hd i old hold
      show (old.1 + 1).toNat ≤ _
      rw [hnext hold]
      omega
    · have hle := hd i mark hmark
      omega

theorem ages_insert (ht : h.Tidy) (hd : h.Dated) (o : Object) : Ages h (h.insert o).2 := by
  have hfrees : (h.insert o).2.stats.frees = h.stats.frees := by rw [insert_stats]
  refine ⟨fun i mark hmark => ?_, Nat.le_of_eq hfrees.symm, fun i mark hmark => ?_⟩
  · rw [mark?_insert ht]
    split
    · rename_i hi
      rw [← hi] at hmark
      rcases mark?_insert_slot ht o with hslot | ⟨hslot, -⟩ <;> rw [hslot] at hmark <;> cases hmark
      exact ⟨_, rfl, Nat.le_refl _, fun _ _ => rfl⟩
    · exact ⟨mark, hmark, Nat.le_refl _, fun _ => id⟩
  · rw [hfrees]
    rw [mark?_insert ht] at hmark
    split at hmark
    · cases hmark
      show (h.insert o).1.generation.toNat ≤ _
      rcases mark?_insert_slot ht o with hslot | ⟨-, hzero⟩
      · exact hd _ _ hslot
      · rw [hzero]
        exact Nat.zero_le _
    · exact hd i mark hmark

theorem ages_alloc (ht : h.Tidy) (hd : h.Dated) (t : ObjectType) : Ages h (h.alloc t).2 := by
  obtain ⟨j, hslots, hfree, hfrees, -, -, halloc⟩ := h.alloc_insert t
  have htidy : j.Tidy := ht.of_same hfree (by rw [hslots]) fun i => by simp [EmptyAt, hslots]
  have hsame := ages_of_same hd (mark?_of_slots hslots) hfrees
  rw [halloc]
  exact hsame.trans (ages_insert htidy hsame.dated _)

theorem Destroys.ages {pending : List Handle} {gone : List (Handle × Object)} {turns : Nat}
    (hdestroys : Destroys h pending gone turns k) (hd : h.Dated)
    (hfit : k.stats.frees < 4294967296) : Ages h k := by
  induction hdestroys with
  | done h => exact .refl hd
  | stale _ _ ih => exact ih hd hfit
  | @object h k r o pending gone turns hr hrest ih =>
    have hquiet := quiet_dropChildren (h.vacate r o) o.children pending
    have hless : (h.vacate r o).stats.frees < 4294967296 := by
      have htotal := hrest.ended.frees_eq
      rw [hquiet.frees_eq] at htotal
      omega
    have hvacate := ages_vacate hd r o hless
    have hdrop := ages_of_same hvacate.dated
      (mark?_dropChildren (h.vacate r o) o.children pending) hquiet.frees_eq
    exact (hvacate.trans hdrop).trans (ih hdrop.dated hfit)

theorem ages_destroyAll (hd : h.Dated) (pending : List Handle)
    (hfit : (h.destroyAll pending).stats.frees < 4294967296) : Ages h (h.destroyAll pending) := by
  obtain ⟨gone, turns, hdestroys⟩ := destroys_destroyAll h pending
  exact hdestroys.ages hd hfit

theorem ages_release (hd : h.Dated) (r : Handle) (hfit : (h.release r).2.stats.frees < 4294967296) :
    Ages h (h.release r).2 := by
  cases hr : h.get? r with
  | none =>
    rw [release, hr]
    exact .refl hd
  | some o =>
    have hlow : Ages h (h.lowerRefs r o (o.refs - 1)) :=
      ages_of_same hd (mark?_lowerRefs h r o _) (quiet_lowerRefs hr _).frees_eq
    rw [release, hr] at hfit ⊢
    dsimp only at hfit ⊢
    split at hfit
    · rename_i hlast
      rw [if_pos hlast]
      exact hlow.trans (ages_destroyAll hlow.dated [r] hfit)
    · rename_i hmore
      rw [if_neg hmore]
      exact hlow

theorem ages_giveUp (hd : h.Dated) (r : Handle) (hfit : (h.giveUp r).stats.frees < 4294967296) :
    Ages h (h.giveUp r) := by
  cases hr : h.get? r with
  | none =>
    rw [giveUp, hr]
    exact .refl hd
  | some o =>
    rw [giveUp, hr] at hfit ⊢
    dsimp only at hfit ⊢
    split at hfit
    · rename_i hcntd
      rw [if_pos hcntd]
      exact ages_release hd r hfit
    · rename_i hplain
      rw [if_neg hplain]
      exact ages_destroyAll hd [r] hfit

theorem ages_duplicate (ht : h.Tidy) (hd : h.Dated) (r : Handle) : Ages h (h.duplicate r).2 := by
  cases hr : h.get? r with
  | none =>
    rw [duplicate, hr]
    exact .refl hd
  | some o =>
    have halloc := ages_alloc ht hd o.type
    have hfields := ages_of_same halloc.dated
      (mark?_modify (h.alloc o.type).2 (h.alloc o.type).1 fun c => { c with fields := o.fields }) rfl
    rw [Heap.duplicate_eq hr]
    exact (halloc.trans hfields).trans
      (ages_of_same hfields.dated (mark?_addRefs _ o.children) (quiet_addRefs ..).frees_eq)

theorem ages_perform (hs : h.Sound []) (hd : h.Dated) (op : Op)
    (hfit : (h.perform op).stats.frees < 4294967296) : Ages h (h.perform op) := by
  cases op with
  | alloc type => exact ages_alloc hs.tidy hd type
  | addRef r => exact ages_of_same hd (mark?_addRef h r) (quiet_addRef h r).frees_eq
  | release r => exact ages_release hd r hfit
  | giveUp r => exact ages_giveUp hd r hfit
  | duplicate r => exact ages_duplicate hs.tidy hd r
  | setWords r offset ws =>
    refine ages_of_same hd (mark?_setWords h r offset ws) ?_
    show (h.setWords r offset ws).2.stats.frees = _
    rw [(writes_setWords h r offset ws).rest]
  | setField index generation offset value =>
    exact ages_of_same hd (mark?_setField h index generation offset value) rfl
  | refill r fields => exact ages_of_same hd (mark?_modify h r _) rfl

structure Kept (h : Heap) : Prop extends Sound h [] where
  dated : h.Dated

theorem kept_empty : Kept {} := ⟨sound_empty, fun i mark hmark => by simp [mark?] at hmark⟩

theorem Kept.run (hk : h.Kept) {ops : List Op}
    (hslots : (ops.foldl Heap.perform h).slots.size < 4294967296)
    (hfrees : (ops.foldl Heap.perform h).stats.frees < 4294967296) :
    (ops.foldl Heap.perform h).Kept ∧ Ages h (ops.foldl Heap.perform h) := by
  induction ops generalizing h with
  | nil => exact ⟨hk, .refl hk.dated⟩
  | cons op ops ih =>
    have hsize : (h.perform op).slots.size < 4294967296 :=
      Nat.lt_of_le_of_lt (size_le_run _ ops) hslots
    obtain ⟨hsound, -⟩ := hk.toSound.perform op hsize
    obtain ⟨-, deaths, hdeaths⟩ := hsound.run hslots
    have hless : (h.perform op).stats.frees < 4294967296 := by
      have htotal := hdeaths.total.1
      rw [List.foldl_cons] at hfrees
      omega
    have hstep := ages_perform hk.toSound hk.dated op hless
    obtain ⟨hkept, hrest⟩ := ih ⟨hsound, hstep.dated⟩ hslots hfrees
    exact ⟨hkept, hstep.trans hrest⟩

theorem made_fresh (hs : h.Sound []) {op : Op} (hmade : h.made? op = some r) :
    (h.mark? r.index.toNat).all (fun mark => mark = (r.generation, false)) = true ∧
      (h.perform op).isLive r = true := by
  simp only [isLive_iff_mark]
  have halloc (t : ObjectType) :
      (h.mark? (h.alloc t).1.index.toNat).all
        (fun mark => mark = ((h.alloc t).1.generation, false)) = true ∧
      (h.alloc t).2.mark? (h.alloc t).1.index.toNat = some ((h.alloc t).1.generation, true) := by
    obtain ⟨j, hslots, hfree, -, -, -, halloc⟩ := h.alloc_insert t
    have htidy : j.Tidy := hs.tidy.of_same hfree (by rw [hslots]) fun i => by simp [EmptyAt, hslots]
    rw [halloc, ← mark?_of_slots hslots, mark?_insert htidy, if_pos rfl]
    refine ⟨?_, rfl⟩
    rcases mark?_insert_slot htidy
      { type := t, refs := 1, fields := .zeros t.fieldWords.toNat } with hslot | ⟨hslot, -⟩ <;>
      simp [hslot]
  cases op with
  | alloc type =>
    cases hmade
    exact halloc type
  | duplicate q =>
    cases hq : h.get? q with
    | none => simp [made?, duplicate, hq] at hmade
    | some o =>
      rw [made?, Heap.duplicate_eq hq] at hmade
      cases hmade
      refine ⟨(halloc o.type).1, ?_⟩
      rw [perform, Heap.duplicate_eq hq, mark?_addRefs, mark?_modify]
      exact (halloc o.type).2
  | _ => cases hmade

theorem Ages.not_isLive_of {j : Heap} (hhk : Ages h k) (hkj : Ages k j) (hlive : h.isLive r = true)
    (hdead : k.isLive r = false) : j.isLive r = false := by
  obtain ⟨mark1, hmark1, hle1, hstay1⟩ := hhk.later _ _ (isLive_iff_mark.mp hlive)
  obtain ⟨mark2, hmark2, hle2, -⟩ := hkj.later _ _ hmark1
  have hgone : mark1.1 ≠ r.generation := by
    intro hsame
    have hback : k.isLive r = true := by
      rw [isLive_iff_mark, hmark1, ← hsame, ← hstay1 hsame rfl]
    rw [hdead] at hback
    cases hback
  by_contra hj
  have hback := isLive_iff_mark.mp (Bool.not_eq_false _ ▸ hj)
  rw [hmark2] at hback
  cases hback
  exact hgone (UInt32.toNat_inj.mp (Nat.le_antisymm hle2 hle1))

theorem uses_take {ops : List Op} {i j : Nat} (hij : i ≤ j) :
    uses (ops.take j) = ((ops.take j).drop i).foldl perform (uses (ops.take i)) := by
  have hsplit := List.take_append_drop i (ops.take j)
  rw [List.take_take, Nat.min_eq_left hij] at hsplit
  rw [uses, uses, ← List.foldl_append, hsplit]

/-- The heap after some of the operations, and what becomes of it until more of them are done. -/
theorem ages_take {ops : List Op} (hslots : (uses ops).slots.size < 4294967296)
    (hfrees : (uses ops).stats.frees < 4294967296) {i j : Nat} (hij : i ≤ j) :
    (uses (ops.take i)).Kept ∧ (uses (ops.take i)).Ages (uses (ops.take j)) := by
  have hends (n : Nat) : (uses (ops.take n)).slots.size < 4294967296 ∧
      (uses (ops.take n)).stats.frees < 4294967296 := by
    have hall : uses ops = (ops.drop n).foldl perform (uses (ops.take n)) := by
      rw [uses, uses, ← List.foldl_append, List.take_append_drop]
    rw [hall] at hslots hfrees
    have hsize := Nat.lt_of_le_of_lt (size_le_run _ (ops.drop n)) hslots
    have hsound : (uses (ops.take n)).Sound [] := (sound_empty.run hsize).1
    obtain ⟨-, deaths, hdeaths⟩ := hsound.run hslots
    have htotal := hdeaths.total.1
    exact ⟨hsize, by omega⟩
  have hkept : (uses (ops.take i)).Kept := (kept_empty.run (hends i).1 (hends i).2).1
  obtain ⟨hsize, hless⟩ := hends j
  rw [uses_take hij] at hsize hless ⊢
  exact ⟨hkept, (hkept.run hsize hless).2⟩

/-- Handles of destroyed objects, in a heap in which a word can number the objects that went and the
slots: a handle given out is none of those before it, is good at first and comes back from the two
words it is kept in; and once its object was destroyed, or it is no longer good, it stays so, and is
refused without a trace wherever it is passed, whatever has its slot. -/
theorem stale_handles_stay_stale (ops : List Op) (hfrees : (uses ops).stats.frees < 4294967296)
    (hslots : (uses ops).slots.size < 4294967295) : ∃ deaths, Deaths {} ops deaths ∧
    (∀ i r, madeAt? ops i = some r →
      (∀ j < i, madeAt? ops j ≠ some r) ∧
      (uses (ops.take (i + 1))).isLive r = true ∧
      (∀ j k gone,
        deaths[j]? = some gone → (∃ o, (r, o) ∈ gone) → j < k → (uses (ops.take k)).Ignores r) ∧
      (∀ j k, i < j → j ≤ k → (uses (ops.take j)).isLive r = false → (uses (ops.take k)).Ignores r) ∧
      Handle.ofBits? (Handle.optBits (some r)) = some r) ∧
    Handle.ofBits? (Handle.optBits none) = none := by
  have hages {i j : Nat} (hij : i ≤ j) := ages_take (Nat.lt_trans hslots (by decide)) hfrees hij
  have hmade {i : Nat} {r : Handle} (hr : madeAt? ops i = some r) :
      ((uses (ops.take i)).mark? r.index.toNat).all (fun mark => mark = (r.generation, false)) =
        true ∧
        (uses (ops.take (i + 1))).isLive r = true := by
    obtain ⟨op, hop, hr⟩ := Option.bind_eq_some_iff.mp hr
    have hnext : uses (ops.take (i + 1)) = (uses (ops.take i)).perform op := by
      rw [List.take_add_one, hop, uses, List.foldl_append]
      rfl
    rw [hnext]
    exact made_fresh (hages (Nat.le_refl i)).1.toSound hr
  have hbefore {i j : Nat} {r : Handle} (hr : madeAt? ops i = some r) (hj : j ≤ i) :
      (uses (ops.take j)).isLive r ≠ true := by
    -- The slot would hold the object still, and it is empty under the same generation.
    intro hlive
    obtain ⟨mark, hmark, -, hstay⟩ := (hages hj).2.later _ _ (isLive_iff_mark.mp hlive)
    have hempty : mark = (r.generation, false) := by
      have hall := (hmade hr).1
      rw [hmark] at hall
      simpa using hall
    rw [hempty] at hstay
    cases hstay rfl rfl
  have hgone {i j k : Nat} {r : Handle} (hr : madeAt? ops i = some r) (hij : i < j) (hjk : j ≤ k)
      (hdead : (uses (ops.take j)).isLive r = false) : (uses (ops.take k)).Ignores r :=
    ignores_of_not_isLive
      ((hages (show i + 1 ≤ j by omega)).2.not_isLive_of (hages hjk).2 (hmade hr).2 hdead)
  obtain ⟨-, deaths, hdeaths⟩ := sound_empty.run (Nat.lt_trans hslots (by decide))
  refine ⟨deaths, hdeaths,
    fun i r hr => ⟨fun j hj hsame => ?_, (hmade hr).2, ?_, fun j k => hgone hr, ?_⟩, rfl⟩
  · exact hbefore hr hj (hmade hsame).2
  · intro j k gone hj hmem hjk
    obtain ⟨hlive, hdead⟩ := ((hdeaths.ended j gone hj).mem_iff r).mp hmem
    have hij : i < j := Nat.lt_of_not_le fun hji => hbefore hr hji hlive
    exact hgone hr (show i < j + 1 by omega) hjk (Bool.eq_false_iff.mpr hdead)
  · obtain ⟨o, ho⟩ := isLive_iff.mp (hmade hr).2
    exact Handle.ofBits?_bits r ((hages (Nat.le_refl (i + 1))).1.tidy.index_lt ho)

/-- A cell that holds a counted object and goes with it; both slots used again, one of them
twice. -/
def turnover : List Op :=
  [.alloc ringType, .alloc cellType, .setWords ⟨1, 0⟩ 0 [1, 0], .giveUp ⟨1, 0⟩, .alloc cellType,
    .duplicate ⟨0, 1⟩,
    .giveUp ⟨0, 1⟩, .release ⟨0, 0⟩, .alloc cellType]

/-- The first handle goes in a cascade. Two more are given out for its slot, none of which it is
taken for. -/
theorem stale_handles_stay_stale_turnover :
    (uses turnover).stats.frees < 4294967296 ∧ (uses turnover).slots.size < 4294967295 ∧
    madeAt? turnover 0 = some ⟨0, 0⟩ ∧ madeAt? turnover 4 = some ⟨0, 1⟩ ∧
      madeAt? turnover 8 = some ⟨0, 2⟩ ∧
    (∃ deaths gone, Deaths {} turnover deaths ∧ deaths[3]? = some gone ∧ ∃ o, (⟨0, 0⟩, o) ∈ gone) ∧
    (uses (turnover.take 4)).Ignores ⟨0, 0⟩ ∧ (uses (turnover.take 9)).Ignores ⟨0, 0⟩ ∧
    (uses (turnover.take 9)).Ignores ⟨0, 1⟩ ∧ (uses (turnover.take 9)).isLive ⟨0, 2⟩ = true := by
  have hfrees : (uses turnover).stats.frees < 4294967296 := by
    have hthree : (uses turnover).stats.frees = 3 := by cbv
    omega
  have hslots : (uses turnover).slots.size < 4294967295 :=
    Nat.lt_of_le_of_lt (size_run_le {} turnover) (by decide)
  have hfirst : madeAt? turnover 0 = some ⟨0, 0⟩ := by cbv
  have hsecond : madeAt? turnover 4 = some ⟨0, 1⟩ := by cbv
  have hthird : madeAt? turnover 8 = some ⟨0, 2⟩ := by cbv
  obtain ⟨deaths, hdeaths, hmade, -⟩ := stale_handles_stay_stale turnover hfrees hslots
  obtain ⟨gone, hgone⟩ : ∃ gone, deaths[3]? = some gone :=
    ⟨_, List.getElem?_eq_getElem (hdeaths.length_eq ▸ by decide : 3 < deaths.length)⟩
  have hbefore : (uses (turnover.take 3)).isLive ⟨0, 0⟩ = true := by cbv
  have hafter : (uses (turnover.take 4)).isLive ⟨0, 0⟩ = false := by cbv
  have hcascade :=
    ((hdeaths.ended 3 gone hgone).mem_iff ⟨0, 0⟩).mpr ⟨hbefore, Bool.eq_false_iff.mp hafter⟩
  have hfreed : (uses (turnover.take 7)).isLive ⟨0, 1⟩ = false := by cbv
  obtain ⟨-, -, hdestroyed, -, -⟩ := hmade 0 _ hfirst
  obtain ⟨-, -, -, hstale, -⟩ := hmade 4 _ hsecond
  exact ⟨hfrees, hslots, hfirst, hsecond, hthird, ⟨deaths, gone, hdeaths, hgone, hcascade⟩,
    hdestroyed 3 4 gone hgone hcascade (by decide), hdestroyed 3 9 gone hgone hcascade (by decide),
    hstale 7 9 (by decide) (by decide) hfreed, (hmade 8 _ hthird).2.1⟩

end Heap
end ScriptVm
