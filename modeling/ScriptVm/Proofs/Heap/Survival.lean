import ScriptVm.Proofs.Heap.Consistency

namespace ScriptVm.Heap

variable {h k : Heap} {r q : Handle} {o : Object} {children pending : List Handle} {spare : Nat}

/-- A counted object with so many references beyond those in handle fields and those of `owed`,
which are still to be given up. -/
def Anchored (h : Heap) (r : Handle) (owed : List Handle) (spare : Nat) : Prop :=
  ∃ o, h.get? r = some o ∧ o.type.refCounted = true ∧ o.refs = spare + h.pointersTo r + owed.count r

theorem Anchored.recount (hs : h.Anchored r children spare) {refs : Nat}
    (hk : h.Recounts k q o refs) (hne : q ≠ r) : k.Anchored r children spare := by
  obtain ⟨a, ha, hcntd, hrefs⟩ := hs
  refine ⟨a, ?_, hcntd, ?_⟩
  · rw [hk.get?_eq, if_neg (Ne.symm hne), ha]
  · rw [hk.pointers, hrefs]

theorem Anchored.skip (hs : h.Anchored r (q :: children) spare) (hne : q ≠ r) :
    h.Anchored r children spare := by
  obtain ⟨a, ha, hcntd, hrefs⟩ := hs
  rw [List.count_cons_of_ne hne] at hrefs
  exact ⟨a, ha, hcntd, hrefs⟩

theorem Anchored.lower (hs : h.Anchored r (r :: children) spare) (hr : h.get? r = some o) :
    (h.lowerRefs r o (o.refs - 1)).Anchored r children spare := by
  have hk := recounts_lowerRefs hr (o.refs - 1)
  obtain ⟨a, ha, hcntd, hrefs⟩ := hs
  rw [hr] at ha
  cases ha
  rw [List.count_cons_self] at hrefs
  refine ⟨{ o with refs := o.refs - 1 }, ?_, hcntd, ?_⟩
  · rw [hk.get?_eq, if_pos rfl]
  · rw [hk.pointers]
    show o.refs - 1 = _
    omega

theorem Anchored.vacate (hs : h.Anchored r [] spare) (hq : h.get? q = some o) (hne : q ≠ r) :
    (h.vacate q o).Anchored r o.children spare := by
  obtain ⟨a, ha, hcntd, hrefs⟩ := hs
  refine ⟨a, ?_, hcntd, ?_⟩
  · rw [get?_vacate hq, if_neg (Ne.symm hne), ha]
  · have hpointers := pointersTo_vacate hq r
    rw [Object.count_children, hrefs, List.count_nil]
    omega

theorem Anchored.dropChildren (hspare : 0 < spare) (hs : h.Anchored r children spare)
    (hpend : r ∉ pending) : (h.dropChildren children pending).1.Anchored r [] spare ∧
      r ∉ (h.dropChildren children pending).2 := by
  induction children generalizing h pending with
  | nil => exact ⟨hs, hpend⟩
  | cons child children ih =>
    by_cases hchild : child = r
    · subst hchild
      obtain ⟨o, ho, hcntd, hrefs⟩ := id hs
      rw [List.count_cons_self] at hrefs
      -- One of its references is owed and another one is spare, so it is not the last that goes.
      have hmany : 1 < o.refs := by omega
      rw [Heap.dropChildren, ho]
      simp only [hcntd, hmany, if_true]
      exact ih (hs.lower ho) hpend
    · have hrest := hs.skip hchild
      have hwait : r ∉ child :: pending := by
        rw [List.mem_cons]
        rintro (rfl | hmem)
        · exact hchild rfl
        · exact hpend hmem
      rw [Heap.dropChildren]
      split
      · exact ih hrest hpend
      · rename_i o ho
        split
        · split
          · exact ih (hrest.recount (recounts_lowerRefs ho _) hchild) hpend
          · exact ih (hrest.recount (recounts_lowerRefs ho _) hchild) hwait
        · exact ih hrest hwait

theorem Anchored.destroyAll (hspare : 0 < spare) (hs : h.Anchored r [] spare) (hpend : r ∉ pending) :
    (h.destroyAll pending).Anchored r [] spare := by
  fun_induction Heap.destroyAll h pending with
  | case1 h => exact hs
  | case2 h q pending hq ih => exact ih hs fun hmem => hpend (List.mem_cons_of_mem _ hmem)
  | case3 h q pending o hq _ _ next ih =>
    have hne : q ≠ r := fun e => hpend (e ▸ List.mem_cons_self)
    obtain ⟨hdrop, hwait⟩ :=
      (hs.vacate hq hne).dropChildren hspare fun hmem => hpend (List.mem_cons_of_mem _ hmem)
    exact ih hdrop hwait

theorem Anchored.release (hspare : 0 < spare) (hs : h.Anchored r [] spare) (hne : q ≠ r) :
    (h.release q).2.Anchored r [] spare := by
  unfold Heap.release
  split
  · exact hs
  · rename_i o ho
    have hlowered := hs.recount (recounts_lowerRefs ho (o.refs - 1)) hne
    dsimp only
    split
    · refine hlowered.destroyAll hspare ?_
      rw [List.mem_singleton]
      exact Ne.symm hne
    · exact hlowered

theorem mem_dropChildren_of_mem (hmem : r ∈ pending) : r ∈ (h.dropChildren children pending).2 := by
  induction children generalizing h pending with
  | nil => exact hmem
  | cons child children ih =>
    rw [dropChildren]
    split
    · exact ih hmem
    · split
      · split
        · exact ih hmem
        · exact ih (List.mem_cons_of_mem _ hmem)
      · exact ih (List.mem_cons_of_mem _ hmem)

theorem mem_dropChildren (hr : h.get? r = some o) (hlast : o.refs ≤ 1) (hmem : r ∈ children) :
    r ∈ (h.dropChildren children pending).2 := by
  induction children generalizing h pending with
  | nil => cases hmem
  | cons child children ih =>
    by_cases hchild : child = r
    · subst hchild
      have hnot : ¬ 1 < o.refs := by omega
      rw [dropChildren, hr]
      simp only [hnot, if_false]
      split
      · exact mem_dropChildren_of_mem List.mem_cons_self
      · exact mem_dropChildren_of_mem List.mem_cons_self
    · have hrest : r ∈ children := (List.mem_cons.mp hmem).resolve_left (Ne.symm hchild)
      have hother {a : Object} (ha : h.get? child = some a) (refs : Nat) :
          (h.lowerRefs child a refs).get? r = some o := by
        rw [get?_lowerRefs, if_neg (Ne.symm hchild), hr]
      rw [dropChildren]
      split
      · exact ih hr hrest
      · rename_i a ha
        split
        · split
          · exact ih (hother ha _) hrest
          · exact ih (hother ha _) hrest
        · exact ih hr hrest

/-- What is there after a destruction was there before and did not wait for it. -/
theorem isLive_of_destroyAll (hlive : (h.destroyAll pending).isLive r = true) :
    h.isLive r = true ∧ r ∉ pending := by
  fun_induction Heap.destroyAll h pending with
  | case1 h => exact ⟨hlive, List.not_mem_nil⟩
  | case2 h q pending hq ih =>
    obtain ⟨hbef, hwait⟩ := ih hlive
    refine ⟨hbef, fun hmem => ?_⟩
    obtain rfl | hmem := List.mem_cons.mp hmem
    · rw [isLive, hq] at hbef
      cases hbef
    · exact hwait hmem
  | case3 h q pending o hq _ _ next ih =>
    obtain ⟨hbef, hwait⟩ := ih hlive
    rw [isLive_dropChildren, isLive, get?_vacate hq] at hbef
    split at hbef
    · cases hbef
    · rename_i hne
      refine ⟨hbef, fun hmem => ?_⟩
      obtain rfl | hmem := List.mem_cons.mp hmem
      · exact hne rfl
      · exact hwait (mem_dropChildren_of_mem hmem)

theorem destroyAll_cons (hq : h.get? q = some o) : h.destroyAll (q :: pending) =
      ((h.vacate q o).dropChildren o.children pending).1.destroyAll
        ((h.vacate q o).dropChildren o.children pending).2 := by
  rw [destroyAll]
  split
  · rename_i hnone
    rw [hq] at hnone
    cases hnone
  · rename_i a ha
    rw [hq] at ha
    cases ha
    rfl

/-- If the object that holds the only reference to another one loses its own last reference, both
go. -/
theorem release_last {p : Object} (hq : h.get? q = some p) (hlastq : p.refs ≤ 1)
    (hr : h.get? r = some o) (hlast : o.refs ≤ 1) (hmem : r ∈ p.children) :
    (h.release q).2.isLive r = false := by
  have hk := recounts_lowerRefs hq (p.refs - 1)
  have hzero : p.refs - 1 = 0 := by omega
  have hlowered : (h.lowerRefs q p (p.refs - 1)).get? q = some { p with refs := p.refs - 1 } := by
    rw [hk.get?_eq, if_pos rfl]
  have hdestroy : (h.release q).2 = (h.lowerRefs q p (p.refs - 1)).destroyAll [q] := by
    simp only [release, hq, hzero, if_true]
    rfl
  refine Bool.eq_false_iff.mpr fun hlive => ?_
  rw [hdestroy] at hlive
  have hne : r ≠ q := fun e => (isLive_of_destroyAll hlive).2 (e ▸ List.mem_cons_self)
  rw [destroyAll_cons hlowered] at hlive
  refine (isLive_of_destroyAll hlive).2 (mem_dropChildren ?_ hlast hmem)
  rw [get?_vacate hlowered, if_neg hne, hk.get?_eq, if_neg hne, hr]

theorem get?_release_self (hr : h.get? r = some o) :
    (h.release r).2.get? r = if 2 ≤ o.refs then some { o with refs := o.refs - 1 } else none := by
  have hk := recounts_lowerRefs hr (o.refs - 1)
  unfold release
  rw [hr]
  dsimp only
  by_cases hmany : 2 ≤ o.refs
  · have hsome : o.refs - 1 ≠ 0 := by omega
    rw [if_neg hsome, if_pos hmany, hk.get?_eq, if_pos rfl]
  · have hzero : o.refs - 1 = 0 := by omega
    rw [if_pos hzero, if_neg hmany, ← Option.not_isSome_iff_eq_none]
    exact fun hlive => (isLive_of_destroyAll hlive).2 List.mem_cons_self

def refs? (h : Heap) (r : Handle) : Option Nat := (h.get? r).map Object.refs

theorem isLive_eq_refs? (h : Heap) (r : Handle) : h.isLive r = (h.refs? r).isSome := by
  rw [refs?, Option.isSome_map, isLive]

theorem refs?_of_slots {h k : Heap} (hs : h.slots = k.slots) : h.refs? = k.refs? := by
  funext r
  rw [refs?, refs?, get?_of_slots hs]

theorem refs?_addRef (h : Heap) (r q : Handle) :
    (h.addRef r).2.refs? q = if q = r then (h.refs? q).map (· + 1) else h.refs? q := by
  cases hr : h.get? r with
  | none =>
    have hsame : (h.addRef r).2 = h := by simp [addRef, hr]
    rw [hsame]
    split
    · rename_i hq
      rw [hq, refs?, hr]
      rfl
    · rfl
  | some o =>
    unfold refs?
    rw [(recounts_addRef hr).get?_eq]
    split
    · rename_i hq
      rw [hq, hr]
      rfl
    · rfl

/-- The heap after an object has lost a reference, if one is named. -/
def without (h : Heap) : Option Handle → Heap
  | some r => (h.release r).2
  | none => h

theorem refs?_without_self (hr : h.get? r = some o) :
    (h.without (some r)).refs? r = if 2 ≤ o.refs then some (o.refs - 1) else none := by
  rw [refs?, without, get?_release_self hr]
  split <;> rfl

theorem refs?_without_of_stays {old : Option Handle}
    (hstays : ∀ q, old = some q → q ≠ r ∧ ∀ p, h.get? q = some p → 2 ≤ p.refs) :
    (h.without old).refs? r = h.refs? r := by
  cases old with
  | none => rfl
  | some q =>
    obtain ⟨hne, hmany⟩ := hstays q rfl
    cases hq : h.get? q with
    | none => rw [without, release, hq]
    | some p =>
      have hsome : p.refs - 1 ≠ 0 := by
        have := hmany p hq
        omega
      rw [without, release, hq]
      simp only [hsome, if_false]
      rw [refs?, refs?, get?_lowerRefs, if_neg (Ne.symm hne)]

theorem refs?_without_of_spare {old : Option Handle} (hr : h.get? r = some o)
    (hcntd : o.type.refCounted = true) (hspare : h.pointersTo r < o.refs) (hother : old ≠ some r) :
    ∃ refs, (h.without old).refs? r = some refs ∧ o.refs - h.pointersTo r ≤ refs := by
  have hbef : h.Anchored r [] (o.refs - h.pointersTo r) := by
    refine ⟨o, hr, hcntd, ?_⟩
    rw [List.count_nil]
    omega
  have hafter : (h.without old).Anchored r [] (o.refs - h.pointersTo r) := by
    cases old with
    | none => exact hbef
    | some q => exact hbef.release (by omega) fun e => hother (congrArg some e)
  obtain ⟨a, ha, -, hrefs⟩ := hafter
  refine ⟨a.refs, ?_, by omega⟩
  rw [refs?, ha]
  rfl

theorem refs?_without_last {p : Object} (hq : h.get? q = some p) (hlastq : p.refs ≤ 1)
    (hr : h.get? r = some o) (hlast : o.refs ≤ 1) (hmem : r ∈ p.children) :
    (h.without (some q)).refs? r = none := by
  have hgone := release_last hq hlastq hr hlast hmem
  rw [isLive_eq_refs?] at hgone
  exact Option.not_isSome_iff_eq_none.mp (Bool.eq_false_iff.mp hgone)

end ScriptVm.Heap
