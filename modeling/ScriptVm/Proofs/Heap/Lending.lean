import ScriptVm.Proofs.Heap.Representation
import ScriptVm.Proofs.Heap.Survival

namespace ScriptVm.Heap

/-- Every object is counted and has a reference, and handle fields name objects. -/
structure Sturdy (h : Heap) : Prop where
  tidy : h.Tidy
  refs_pos : ∀ r o, h.get? r = some o → 1 ≤ o.refs
  counted : ∀ r o, h.get? r = some o → o.type.refCounted = true
  closed : ∀ r o, h.get? r = some o → ∀ q ∈ o.children, h.isLive q = true

/-- A heap `h` that was `h0` before references were lent. Those of `held` are out; `copies` are the
objects made since, each with what it holds; references of `owed` are still counted but held by
nobody, those of `due` are held but not yet counted. -/
structure Lending (h0 h : Heap) (held : List Handle) (copies : List (Handle × List Handle))
    (owed due : List Handle) : Prop where
  tidy : h.Tidy
  kept : ∀ r o, h0.get? r = some o → ∃ refs, h.get? r = some { o with refs } ∧
    refs + due.count r = o.refs + held.count r + (copies.flatMap Prod.snd).count r + owed.count r
  copied : ∀ r kids, (r, kids) ∈ copies → h0.get? r = none ∧ r ∈ held ∧
    (∀ q ∈ kids, h0.isLive q = true) ∧
    ∃ o, h.get? r = some o ∧ o.type.refCounted = true ∧ o.children = kids ∧ o.refs = held.count r
  once : (copies.map Prod.fst).Nodup
  rest : ∀ r, h.isLive r = true → h0.isLive r = true ∨ r ∈ copies.map Prod.fst
  lent : ∀ r ∈ held, h.isLive r = true
  owed_live : ∀ r ∈ owed, h0.isLive r = true
  due_live : ∀ r ∈ due, h0.isLive r = true

/-- What is taken for a place that owns an object: nothing, one more reference, or a copy. -/
inductive Takes (h : Heap) : Option Handle → Heap → Prop where
  | null : Takes h none h
  | share {r : Handle} {o : Object} (hr : h.get? r = some o) : Takes h (some r) (h.addRef r).2
  | copy {r : Handle} {o : Object} (hr : h.get? r = some o) :
    Takes h (h.duplicate r).1 (h.duplicate r).2

variable {h0 h k : Heap} {r : Handle} {a : Object} {held held' owed owed' due due' : List Handle}
  {copies : List (Handle × List Handle)} {refs : Nat}

theorem lending_refl (hs : h.Sturdy) : Lending h h [] [] [] [] where
  tidy := hs.tidy
  kept r o hr := ⟨o.refs, hr, rfl⟩
  copied := by simp
  once := List.nodup_nil
  rest r hr := .inl hr
  lent := by simp
  owed_live := by simp
  due_live := by simp

namespace Lending

theorem of_slots (hl : Lending h0 h held copies owed due) (hslots : k.slots = h.slots)
    (hfree : k.free = h.free) : Lending h0 k held copies owed due := by
  have hget (q : Handle) : k.get? q = h.get? q := get?_of_slots hslots q
  have hlive (q : Handle) : k.isLive q = h.isLive q := congrArg Option.isSome (hget q)
  exact
    { tidy := hl.tidy.of_same hfree (by rw [hslots]) fun i => by simp [EmptyAt, hslots]
      kept := fun r o hr => by rw [hget]; exact hl.kept r o hr
      copied := fun r kids hr => by rw [hget]; exact hl.copied r kids hr
      once := hl.once
      rest := fun r hr => hl.rest r ((hlive r).symm.trans hr)
      lent := fun r hr => (hlive r).trans (hl.lent r hr)
      owed_live := hl.owed_live
      due_live := hl.due_live }

theorem perm (hl : Lending h0 h held copies owed due) (hperm : held.Perm held') :
    Lending h0 h held' copies owed due :=
  { hl with
    kept := fun r o hr => by rw [← hperm.count_eq]; exact hl.kept r o hr
    copied := fun r kids hr => by rw [← hperm.count_eq, ← hperm.mem_iff]; exact hl.copied r kids hr
    lent := fun r hr => hl.lent r (hperm.mem_iff.mpr hr) }

theorem copied_of_not_live (hl : Lending h0 h held copies owed due) (hr : h.get? r = some a)
    (hnew : h0.get? r = none) : ∃ kids, (r, kids) ∈ copies := by
  obtain hold | hcopy := hl.rest r (isLive_iff.mpr ⟨a, hr⟩)
  · simp [isLive, hnew] at hold
  · obtain ⟨⟨q, kids⟩, hmem, rfl⟩ := List.mem_map.mp hcopy
    exact ⟨kids, hmem⟩

theorem counted (hs : h0.Sturdy) (hl : Lending h0 h held copies owed due) (hr : h.get? r = some a) :
    a.type.refCounted = true ∧ ∀ q ∈ a.children, h0.isLive q = true := by
  cases hold : h0.get? r with
  | some o =>
    obtain ⟨refs, hget, -⟩ := hl.kept r o hold
    rw [hr] at hget
    cases hget
    exact ⟨hs.counted r o hold, hs.closed r o hold⟩
  | none =>
    obtain ⟨kids, hmem⟩ := hl.copied_of_not_live hr hold
    obtain ⟨-, -, hkids, o, hget, hcntd, hchn, -⟩ := hl.copied r kids hmem
    rw [hr] at hget
    cases hget
    exact ⟨hcntd, hchn ▸ hkids⟩

/-- A new count settles a reference that is lent, given back, owed or due. -/
theorem recount (hl : Lending h0 h held copies owed due) (hk : h.Recounts k r a refs)
    (hold : ∀ q, h0.isLive q = true →
      (if r == q then refs else 0) + due'.count q + held.count q + owed.count q =
      (if r == q then a.refs else 0) + due.count q + held'.count q + owed'.count q)
    (hnew : ∀ q, h0.get? q = none →
      (if r == q then refs else 0) + held.count q = (if r == q then a.refs else 0) + held'.count q)
    (hcopies : ∀ q ∈ copies.map Prod.fst, q ∈ held') (hheld : held' ⊆ r :: held)
    (howed : owed' ⊆ owed) (hdue : due' ⊆ due) : Lending h0 k held' copies owed' due' where
  tidy := hk.tidy hl.tidy
  kept q o hq := by
    obtain ⟨n, hget, hbal⟩ := hl.kept q o hq
    have hcnt := hold q (isLive_iff.mpr ⟨o, hq⟩)
    rw [hk.get?_eq]
    by_cases hqr : q = r
    · subst hqr
      cases hk.found.symm.trans hget
      simp only [beq_self_eq_true, if_true] at hcnt ⊢
      exact ⟨refs, rfl, by omega⟩
    · simp only [beq_false_of_ne (Ne.symm hqr), Bool.false_eq_true, if_neg hqr, if_false] at hcnt ⊢
      exact ⟨n, hget, by omega⟩
  copied q kids hq := by
    obtain ⟨hfresh, -, hkids, o, hget, hcntd, hchn, hrefs⟩ := hl.copied q kids hq
    have hcnt := hnew q hfresh
    refine ⟨hfresh, hcopies q (List.mem_map_of_mem hq), hkids, ?_⟩
    rw [hk.get?_eq]
    by_cases hqr : q = r
    · subst hqr
      cases hk.found.symm.trans hget
      simp only [beq_self_eq_true, if_true] at hcnt ⊢
      exact ⟨_, rfl, hcntd, hchn, by show refs = _; omega⟩
    · simp only [beq_false_of_ne (Ne.symm hqr), Bool.false_eq_true, if_neg hqr, if_false] at hcnt ⊢
      exact ⟨o, hget, hcntd, hchn, by omega⟩
  once := hl.once
  rest q hq := hl.rest q ((hk.isLive_eq q).symm.trans hq)
  lent q hq := by
    rw [hk.isLive_eq]
    obtain rfl | hbef := List.mem_cons.mp (hheld hq)
    · exact isLive_iff.mpr ⟨a, hk.found⟩
    · exact hl.lent q hbef
  owed_live q hq := hl.owed_live q (howed hq)
  due_live q hq := hl.due_live q (hdue hq)

theorem held_of_copies (hl : Lending h0 h held copies owed due) :
    ∀ q ∈ copies.map Prod.fst, q ∈ held := by
  intro q hq
  obtain ⟨⟨c, kids⟩, hmem, rfl⟩ := List.mem_map.mp hq
  exact (hl.copied c kids hmem).2.1

theorem addRef (hl : Lending h0 h held copies [] []) (hr : h.get? r = some a) :
    Lending h0 (h.addRef r).2 (r :: held) copies [] [] := by
  refine hl.recount (recounts_addRef hr) (fun q _ => ?_) (fun q _ => ?_) (fun q hq => ?_)
    (List.Subset.refl _) (by simp) (by simp)
  · rw [List.count_cons]
    split <;> omega
  · rw [List.count_cons]
    split <;> omega
  · exact List.mem_cons_of_mem r (hl.held_of_copies q hq)

theorem addRefs {kids : List Handle} (hl : Lending h0 h held copies [] kids) :
    Lending h0 (h.addRefs kids) held copies [] [] := by
  induction kids generalizing h with
  | nil => exact hl
  | cons child kids ih =>
    obtain ⟨o, ho⟩ := isLive_iff.mp (hl.due_live child List.mem_cons_self)
    obtain ⟨refs, hget, -⟩ := hl.kept child o ho
    refine ih (hl.recount (recounts_addRef hget) (fun q _ => ?_) (fun q hq => ?_) hl.held_of_copies
      (List.subset_cons_self ..) (by simp) (List.subset_cons_self ..))
    · rw [List.count_cons]
      split <;> omega
    · have hne : child ≠ q := by
        rintro rfl
        cases ho.symm.trans hq
      simp [hne]

/-- Giving up what a copy held. Its objects were there before and keep a reference, so none of them
goes. -/
theorem dropChildren (hs : h0.Sturdy) {kids : List Handle} (hl : Lending h0 h held copies kids [])
    (pending : List Handle) : Lending h0 (h.dropChildren kids pending).1 held copies []
    [] ∧ (h.dropChildren kids pending).2 = pending := by
  induction kids generalizing h with
  | nil => exact ⟨hl, rfl⟩
  | cons child kids ih =>
    obtain ⟨o, ho⟩ := isLive_iff.mp (hl.owed_live child List.mem_cons_self)
    obtain ⟨refs, hget, hbal⟩ := hl.kept child o ho
    have hpos := hs.refs_pos child o ho
    rw [List.count_nil, List.count_cons_self] at hbal
    have hmore : 1 < refs := by omega
    rw [Heap.dropChildren, hget]
    simp only [hs.counted child o ho, hmore, if_true]
    refine ih (hl.recount (recounts_lowerRefs hget _) (fun q _ => ?_) (fun q hq => ?_) hl.held_of_copies
      (List.subset_cons_self ..) (List.subset_cons_self ..) (by simp))
    · rw [List.count_cons]
      dsimp only
      split <;> omega
    · have hne : child ≠ q := by
        rintro rfl
        cases ho.symm.trans hq
      simp [hne]

theorem refs_eq (hl : Lending h0 h held copies [] []) (hr : h.get? r = some a) :
    a.refs = ((h0.get? r).elim 0 Object.refs) + held.count r +
      (if h0.isLive r then (copies.flatMap Prod.snd).count r else 0) := by
  cases hold : h0.get? r with
  | some o =>
    obtain ⟨refs, hget, hbal⟩ := hl.kept r o hold
    cases hr.symm.trans hget
    simp only [isLive, hold, Option.isSome_some, if_true, Option.elim_some]
    simpa using hbal
  | none =>
    obtain ⟨kids, hmem⟩ := hl.copied_of_not_live hr hold
    obtain ⟨-, -, -, o, hget, -, -, hrefs⟩ := hl.copied r kids hmem
    cases hr.symm.trans hget
    simp [isLive, hold, hrefs]

theorem lower (hl : Lending h0 h (r :: held) copies [] []) (hr : h.get? r = some a)
    (hmore : a.refs - 1 ≠ 0) (hnew : h0.get? r = none → r ∈ held) :
    Lending h0 (h.lowerRefs r a (a.refs - 1)) held copies [] [] := by
  refine hl.recount (recounts_lowerRefs hr _) (fun q _ => ?_) (fun q _ => ?_) (fun q hq => ?_)
    (fun q hq => List.mem_cons_of_mem r (List.mem_cons_of_mem r hq)) (by simp) (by simp)
  · rw [List.count_cons]
    split <;> omega
  · rw [List.count_cons]
    split <;> omega
  · obtain ⟨⟨c, kids⟩, hmem, rfl⟩ := List.mem_map.mp hq
    obtain ⟨hfresh, hheld, -⟩ := hl.copied c kids hmem
    obtain rfl | hheld := List.mem_cons.mp hheld
    · exact hnew hfresh
    · exact hheld

theorem remove {kids : List Handle} (hl : Lending h0 h (r :: held) copies [] [])
    (hmem : (r, kids) ∈ copies) (hlast : r ∉ held)
    (hk : ∀ q, k.get? q = if q = r then none else h.get? q) (htidy : k.Tidy) :
    Lending h0 k held (copies.erase (r, kids)) kids [] := by
  obtain ⟨hfresh, -, hkids, -⟩ := hl.copied r kids hmem
  have hperm := List.perm_cons_erase hmem
  have hnodup := (hperm.map Prod.fst).nodup_iff.mp hl.once
  rw [List.map_cons, List.nodup_cons] at hnodup
  have hne {c : Handle} {kids' : List Handle} (hc : (c, kids') ∈ copies.erase (r, kids)) :
      c ≠ r := by
    rintro rfl
    exact hnodup.1 (List.mem_map.mpr ⟨_, hc, rfl⟩)
  have hflat (q : Handle) : (copies.flatMap Prod.snd).count q =
      kids.count q + ((copies.erase (r, kids)).flatMap Prod.snd).count q := by
    rw [(hperm.flatMap_right Prod.snd).count_eq, List.flatMap_cons, List.count_append]
  refine ⟨htidy, fun q o hq => ?_, fun c kids' hc => ?_, hnodup.2, fun q hq => ?_, fun q hq => ?_,
    hkids, by simp⟩
  · have hqr : q ≠ r := by
      rintro rfl
      rw [hfresh] at hq
      cases hq
    obtain ⟨refs, hget, hbal⟩ := hl.kept q o hq
    rw [hflat, List.count_cons_of_ne hqr.symm] at hbal
    rw [hk, if_neg hqr]
    simp only [List.count_nil] at hbal ⊢
    exact ⟨refs, hget, by omega⟩
  · obtain ⟨hfresh', hheld, hkids', o, hget, hcntd, hchn, hrefs⟩ :=
      hl.copied c kids' (List.mem_of_mem_erase hc)
    refine ⟨hfresh', List.mem_of_ne_of_mem (hne hc) hheld, hkids', o, ?_, hcntd, hchn, ?_⟩
    · rw [hk, if_neg (hne hc), hget]
    · rw [hrefs, List.count_cons_of_ne (hne hc).symm]
  · have hqr : q ≠ r := by
      rintro rfl
      simp [isLive, hk] at hq
    obtain hold | hcopy := hl.rest q (by simpa [isLive, hk, hqr] using hq)
    · exact .inl hold
    · right
      have hmem' := (hperm.map Prod.fst).mem_iff.mp hcopy
      rw [List.map_cons] at hmem'
      exact List.mem_of_ne_of_mem hqr hmem'
  · have hqr : q ≠ r := fun h => hlast (h ▸ hq)
    have hlive := hl.lent q (List.mem_cons_of_mem r hq)
    simpa [isLive, hk, hqr] using hlive

theorem release (hs : h0.Sturdy) (hl : Lending h0 h (r :: held) copies [] []) :
    ∃ copies', Lending h0 (h.release r).2 held copies' [] [] := by
  obtain ⟨a, hr⟩ := isLive_iff.mp (hl.lent r List.mem_cons_self)
  have hrefs := hl.refs_eq hr
  rw [List.count_cons_self] at hrefs
  simp only [Heap.release, hr]
  cases hold : h0.get? r with
  | some o =>
    have hpos := hs.refs_pos r o hold
    simp only [hold, Option.elim_some] at hrefs
    have hmore : a.refs - 1 ≠ 0 := by omega
    rw [if_neg hmore]
    exact ⟨copies, hl.lower hr hmore (by simp [hold])⟩
  | none =>
    simp only [hold, isLive, Option.elim_none, Option.isSome_none, Bool.false_eq_true,
      if_false] at hrefs
    by_cases hmore : a.refs - 1 = 0
    · -- the copy goes, and with it the references it holds
      have hlast : r ∉ held := List.count_eq_zero.mp (by omega)
      obtain ⟨kids, hmem⟩ := hl.copied_of_not_live hr hold
      obtain ⟨-, -, -, o, hget, -, hchn, -⟩ := hl.copied r kids hmem
      cases hr.symm.trans hget
      have hlow : (h.lowerRefs r a (a.refs - 1)).get? r = some { a with refs := a.refs - 1 } := by
        rw [get?_lowerRefs, if_pos rfl, hr]
        rfl
      have hgone (q : Handle) :
          ((h.lowerRefs r a (a.refs - 1)).vacate r { a with refs := a.refs - 1 }).get? q =
          if q = r then none else h.get? q := by
        rw [get?_vacate hlow, get?_lowerRefs]
        by_cases hqr : q = r
        · simp [hqr]
        · simp [hqr]
      have howed := hl.remove hmem hlast hgone ((hl.tidy.lowerRefs ..).vacate hlow)
      obtain ⟨hdone, hpend⟩ := howed.dropChildren hs []
      rw [if_pos hmore, destroy, destroyAll_cons hlow]
      rw [← hchn] at hdone hpend
      refine ⟨copies.erase (r, a.children), ?_⟩
      show Lending h0 (Heap.destroyAll _ (Heap.dropChildren _ a.children []).2) held _ [] []
      rw [hpend, destroyAll]
      exact hdone
    · rw [if_neg hmore]
      exact ⟨copies, hl.lower hr hmore fun _ => List.count_pos_iff.mp (by omega)⟩

theorem giveUp (hs : h0.Sturdy) (hl : Lending h0 h (r :: held) copies [] []) :
    ∃ copies', Lending h0 (h.giveUp r) held copies' [] [] := by
  obtain ⟨a, hr⟩ := isLive_iff.mp (hl.lent r List.mem_cons_self)
  have hrls := hl.release hs
  rw [Heap.giveUp, hr]
  simpa only [(hl.counted hs hr).1, if_true] using hrls

theorem enroll (hl : Lending h0 h held copies [] []) (hr : h.get? r = none)
    (hcntd : a.type.refCounted = true) (hkids : ∀ q ∈ a.children, h0.isLive q = true)
    (hk : ∀ q, k.get? q = if q = r then some { a with refs := 1 } else h.get? q) (htidy : k.Tidy) :
    Lending h0 k (r :: held) ((r, a.children) :: copies) [] a.children := by
  have hfresh : h0.get? r = none := by
    cases hold : h0.get? r with
    | none => rfl
    | some o =>
      obtain ⟨refs, hget, -⟩ := hl.kept r o hold
      rw [hr] at hget
      cases hget
  have hdead {q : Handle} {o : Object} (hq : h.get? q = some o) : q ≠ r := by
    rintro rfl
    rw [hr] at hq
    cases hq
  have hunheld : r ∉ held := fun hmem => by
    have hlive := hl.lent r hmem
    simp [isLive, hr] at hlive
  refine ⟨htidy, fun q o hq => ?_, fun c kids hc => ?_, ?_, fun q hq => ?_,
    fun q hq => ?_, by simp, hkids⟩
  · obtain ⟨refs, hget, hbal⟩ := hl.kept q o hq
    rw [hk, if_neg (hdead hget), List.count_cons_of_ne (hdead hget).symm, List.flatMap_cons,
      List.count_append]
    simp only [List.count_nil] at hbal ⊢
    exact ⟨refs, hget, by omega⟩
  · obtain hself | hc := List.mem_cons.mp hc
    · cases hself
      refine ⟨hfresh, List.mem_cons_self, hkids, { a with refs := 1 }, ?_, hcntd, rfl, ?_⟩
      · rw [hk, if_pos rfl]
      · rw [List.count_cons_self, List.count_eq_zero.mpr hunheld]
    · obtain ⟨hfresh', hheld, hkids', o, hget, hrest⟩ := hl.copied c kids hc
      rw [hk, if_neg (hdead hget), List.count_cons_of_ne (hdead hget).symm]
      exact ⟨hfresh', List.mem_cons_of_mem r hheld, hkids', o, hget, hrest⟩
  · rw [List.map_cons, List.nodup_cons]
    exact ⟨fun hmem => hunheld (hl.held_of_copies r hmem), hl.once⟩
  · by_cases hqr : q = r
    · exact .inr (by simp [hqr])
    · obtain hold | hcopy := hl.rest q (by simpa [isLive, hk, hqr] using hq)
      · exact .inl hold
      · exact .inr (List.mem_cons_of_mem r hcopy)
  · by_cases hqr : q = r
    · simp [isLive, hk, hqr]
    · have hlive := hl.lent q (List.mem_of_ne_of_mem hqr hq)
      simpa [isLive, hk, hqr] using hlive

theorem duplicate (hs : h0.Sturdy) (hl : Lending h0 h held copies [] []) (hr : h.get? r = some a)
    (hsize : (h.duplicate r).2.slots.size < 4294967296) : ∃ c copies', (h.duplicate r).1 = some c ∧
      Lending h0 (h.duplicate r).2 (c :: held) copies' [] [] := by
  have hroom : h.HasRoom := hasRoom_of_alloc (by rwa [← size_duplicate hr])
  obtain ⟨hcntd, hkids⟩ := hl.counted hs hr
  have halloc := get?_alloc hl.tidy a.type
  obtain ⟨j, hslots, hfree, hj⟩ := h.alloc_eq a.type
  have hjtidy : j.Tidy := hl.tidy.of_same hfree (by rw [hslots]) fun i => by simp [EmptyAt, hslots]
  have htidy : (h.alloc a.type).2.Tidy := by
    rw [hj]
    exact hjtidy.insert (by simpa only [HasRoom, hslots, hfree] using hroom) _
  have hfresh : h.get? (h.alloc a.type).1 = none := by
    rw [hj, ← get?_of_slots hslots]
    exact get?_insert_self hjtidy _
  have hcopy (q : Handle) :
      ((h.alloc a.type).2.modify (h.alloc a.type).1 fun c => { c with fields := a.fields }).get? q =
        if q = (h.alloc a.type).1 then some { a with refs := 1 } else h.get? q := by
    rw [get?_modify, halloc]
    split
    · rfl
    · rfl
  rw [duplicate_eq hr]
  exact ⟨_, _, rfl, addRefs (hl.enroll hfresh hcntd hkids hcopy (htidy.modify ..))⟩

theorem takes (hs : h0.Sturdy) (hl : Lending h0 h held copies [] []) {new : Option Handle}
    (ht : h.Takes new k) (hsize : k.slots.size < 4294967296) :
    ∃ copies', Lending h0 k (new.toList ++ held) copies' [] [] := by
  cases ht with
  | null => exact ⟨copies, hl⟩
  | share hr => exact ⟨copies, hl.addRef hr⟩
  | copy hr =>
    obtain ⟨c, copies', hc, hl'⟩ := hl.duplicate hs hr hsize
    rw [hc]
    exact ⟨copies', hl'⟩

theorem restored (hl : Lending h0 h [] copies [] []) (q : Handle) : h.get? q = h0.get? q := by
  have hnone : copies = [] := List.eq_nil_iff_forall_not_mem.mpr fun c hc => by
    have hheld := (hl.copied c.1 c.2 hc).2.1
    cases hheld
  subst hnone
  cases hold : h0.get? q with
  | some o =>
    obtain ⟨refs, hget, hbal⟩ := hl.kept q o hold
    have hrefs : refs = o.refs := by simpa using hbal
    rw [hget, hrefs]
  | none =>
    refine Option.eq_none_iff_forall_ne_some.mpr fun a hq => ?_
    obtain ⟨kids, hmem⟩ := hl.copied_of_not_live hq hold
    cases hmem

end Lending

end ScriptVm.Heap
