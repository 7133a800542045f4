import Mathlib.Data.List.Pairwise
import Mathlib.Logic.Function.Basic
import ScriptVm.Proofs.Heap.Pointers

namespace ScriptVm

/-- Instances are released by count, and their handle fields share no words. -/
structure ObjectType.Counted (t : ObjectType) : Prop where
  refCounted : t.refCounted = true
  apart : t.handleFields.Pairwise fun a b => a.toNat + 2 ≤ b.toNat ∨ b.toNat + 2 ≤ a.toNat

theorem countP_add_one {α : Type} [DecidableEq α] {p p' : α → Bool} {xs : List α} {a : α}
    (hnd : xs.Nodup) (ha : a ∈ xs) (hother : ∀ x ∈ xs, x ≠ a → p' x = p x) (hp : p a = false)
    (hp' : p' a = true) :
    xs.countP p' = xs.countP p + 1 := by
  have hperm := List.perm_cons_erase ha
  rw [hperm.countP_eq, hperm.countP_eq, List.countP_cons_of_pos hp',
    List.countP_cons_of_neg (by simp [hp])]
  have hrest : (xs.erase a).countP p' = (xs.erase a).countP p := by
    refine List.countP_congr fun x hx => ?_
    have hx := (List.Nodup.mem_erase_iff hnd).mp hx
    rw [hother x hx.2 hx.1]
  rw [hrest]

namespace Object

/-- The object after two words were written. -/
def withHandle (o : Object) (offset : UInt32) (r : Handle) : Object :=
  { o with fields := o.fields.put offset.toNat [lowWord r.bits, highWord r.bits] }

variable {o : Object} {offset : UInt32} {r : Handle}

theorem handleAt?_withHandle_self (hfit : offset.toNat + 2 ≤ o.fields.size)
    (hr : r.index.toNat + 1 < 4294967296) : (o.withHandle offset r).handleAt? offset = some r := by
  have h0 : offset.toNat < o.fields.size := by omega
  have h1 : offset.toNat + 1 < o.fields.size := by omega
  simp [handleAt?, withHandle, Words.put, Words.get?_set, h0, h1, Handle.ofBits?_bits r hr]

theorem handleAt?_withHandle_other {other : UInt32}
    (hapart : offset.toNat + 2 ≤ other.toNat ∨ other.toNat + 2 ≤ offset.toNat) :
    (o.withHandle offset r).handleAt? other = o.handleAt? other := by
  have h0 : offset.toNat ≠ other.toNat := by omega
  have h1 : offset.toNat ≠ other.toNat + 1 := by omega
  have h2 : offset.toNat + 1 ≠ other.toNat := by omega
  simp [handleAt?, withHandle, Words.put, Words.get?_set, h0, h1, h2]

theorem pointersTo_withHandle (ht : o.type.Counted) (hmem : offset ∈ o.type.handleFields)
    (hnull : o.handleAt? offset = none) (hfit : offset.toNat + 2 ≤ o.fields.size)
    (hr : r.index.toNat + 1 < 4294967296) (q : Handle) :
    (o.withHandle offset r).pointersTo q = o.pointersTo q + if q = r then 1 else 0 := by
  have hself := handleAt?_withHandle_self hfit hr
  have hother : ∀ x ∈ o.type.handleFields, x ≠ offset →
      (o.withHandle offset r).handleAt? x = o.handleAt? x := by
    intro x hx hne
    have : Std.Symm fun a b : UInt32 => a.toNat + 2 ≤ b.toNat ∨ b.toNat + 2 ≤ a.toNat :=
      ⟨fun _ _ => Or.symm⟩
    exact handleAt?_withHandle_other (ht.apart.forall hmem hx (Ne.symm hne))
  have hnd : o.type.handleFields.Nodup := by
    refine ht.apart.imp fun {a b} hab e => ?_
    subst e
    omega
  unfold pointersTo
  by_cases hq : q = r
  · rw [if_pos hq]
    refine countP_add_one hnd hmem (fun x hx hne => ?_) (by simp [hnull]) ?_
    · rw [hother x hx hne]
    · simp [hself, hq]
  · rw [if_neg hq]
    refine List.countP_congr fun x hx => ?_
    by_cases hne : x = offset
    · subst hne
      simp [hself, hnull, Ne.symm hq]
    · rw [hother x hx hne]

end Object

namespace Heap

variable {h : Heap} {ext : Handle → Nat} {q : Handle} {pending : List Handle}

/-- Every object is of a counted type. -/
def AllCounted (h : Heap) : Prop := ∀ r o, h.get? r = some o → o.type.Counted

/-- The count of each object is the number of references from outside and from handle fields, and
handle fields name objects that exist. -/
structure Consistent (h : Heap) (ext : Handle → Nat) : Prop where
  refs_eq : ∀ r o, h.get? r = some o → o.refs = ext r + h.pointersTo r
  closed : ∀ p o, h.get? p = some o →
    ∀ offset ∈ o.type.handleFields, ∀ r, o.handleAt? offset = some r → h.isLive r

/-- Counts while references move: those of `owed` are still counted but held by nobody, those of
`due` are held but not yet counted. -/
structure Ledger (h : Heap) (ext : Handle → Nat) (owed due : List Handle) : Prop where
  tidy : h.Tidy
  counted : h.AllCounted
  balance : ∀ r o, h.get? r = some o → o.refs + due.count r = ext r + h.pointersTo r + owed.count r
  closed : ∀ p o, h.get? p = some o → ∀ r ∈ o.children, h.isLive r
  owed_live : ∀ r ∈ owed, h.isLive r
  due_live : ∀ r ∈ due, h.isLive r

theorem ledger_iff : h.Ledger ext [] [] ↔ h.Tidy ∧ h.AllCounted ∧ h.Consistent ext := by
  constructor
  · intro hl
    refine ⟨hl.tidy, hl.counted,
      ⟨fun r o hr => by simpa using hl.balance r o hr, fun p o hp offset ho r hr => ?_⟩⟩
    exact hl.closed p o hp r (Object.mem_children.mpr ⟨offset, ho, hr⟩)
  · rintro ⟨ht, hc, hk⟩
    refine ⟨ht, hc, fun r o hr => by simpa using hk.refs_eq r o hr,
      fun p o hp r hr => ?_, by simp, by simp⟩
    obtain ⟨offset, ho, hr⟩ := Object.mem_children.mp hr
    exact hk.closed p o hp offset ho r hr

section Ledger

variable {h : Heap} {ext : Handle → Nat} {owed due : List Handle} {r : Handle} {o : Object}

/-- Another heap that differs in the count of one object. -/
structure Recounts (h k : Heap) (r : Handle) (o : Object) (refs : Nat) : Prop where
  found : h.get? r = some o
  get?_eq : ∀ q, k.get? q = if q = r then some { o with refs } else h.get? q
  pointers : ∀ q, k.pointersTo q = h.pointersTo q
  tidy : h.Tidy → k.Tidy

theorem recounts_lowerRefs (hr : h.get? r = some o) (refs : Nat) :
    h.Recounts (h.lowerRefs r o refs) r o refs := by
  refine ⟨hr, fun q => ?_, pointersTo_lowerRefs hr refs, fun ht => ht.lowerRefs ..⟩
  rw [get?_lowerRefs]
  split
  · rename_i hq
    rw [hq, hr]
    rfl
  · rfl

theorem recounts_addRef (hr : h.get? r = some o) : h.Recounts (h.addRef r).2 r o (o.refs + 1) := by
  have hs : (h.addRef r).2.slots = (h.modify r fun o => { o with refs := o.refs + 1 }).slots := by
    simp [addRef, hr]
  have hf : (h.addRef r).2.free = h.free := by simp [addRef, hr, modify]
  refine ⟨hr, fun q => ?_, fun q => ?_, fun ht => ?_⟩
  · rw [get?_of_slots hs, get?_modify]
    split
    · rename_i hq
      rw [hq, hr]
      rfl
    · rfl
  · have hmod := pointersTo_modify hr (fun o => { o with refs := o.refs + 1 }) q
    have hsame : Object.pointersTo { o with refs := o.refs + 1 } q = o.pointersTo q := rfl
    rw [pointersTo_of_slots hs]
    omega
  · exact (ht.modify r fun o => { o with refs := o.refs + 1 }).of_same hf (by rw [hs]) fun i => by
      simp [EmptyAt, hs]

variable {k : Heap} {refs : Nat}

theorem Recounts.isLive_eq (hk : h.Recounts k r o refs) (q : Handle) : k.isLive q = h.isLive q := by
  unfold isLive
  rw [hk.get?_eq]
  split
  · rename_i hq
    rw [hq, hk.found]
    rfl
  · rfl

theorem Recounts.get?_old (hk : h.Recounts k r o refs) {a : Object} (hq : k.get? q = some a) :
    ∃ b, h.get? q = some b ∧ a.type = b.type ∧ a.children = b.children ∧
      a.refs = if q = r then refs else b.refs := by
  rw [hk.get?_eq] at hq
  split at hq
  · rename_i hqr
    cases hq
    exact ⟨o, hqr ▸ hk.found, rfl, rfl, (if_pos hqr).symm⟩
  · rename_i hqr
    exact ⟨a, hq, rfl, rfl, (if_neg hqr).symm⟩

/-- A new count settles references that were owed or due. -/
theorem Ledger.recount {owed' due' : List Handle} (hl : h.Ledger ext owed due)
    (hk : h.Recounts k r o refs) (howed : owed' ⊆ owed) (hdue : due' ⊆ due)
    (hcnt : ∀ q, (if q = r then refs else 0) + due'.count q + owed.count q =
      (if q = r then o.refs else 0) + due.count q + owed'.count q) : k.Ledger ext owed' due' := by
  refine ⟨hk.tidy hl.tidy, fun q a hq => ?_, fun q a hq => ?_, fun p a hp q hq => ?_,
    fun q hq => ?_, fun q hq => ?_⟩
  · obtain ⟨b, hb, ht, -, -⟩ := hk.get?_old hq
    exact ht ▸ hl.counted q b hb
  · obtain ⟨b, hb, -, -, hrefs⟩ := hk.get?_old hq
    have hbal := hl.balance q b hb
    have hq := hcnt q
    rw [hk.pointers, hrefs]
    by_cases hqr : q = r
    · subst hqr
      rw [hk.found] at hb
      cases hb
      simp only [if_true] at hq ⊢
      omega
    · simp only [if_neg hqr] at hq ⊢
      omega
  · obtain ⟨b, hb, -, hc, -⟩ := hk.get?_old hp
    rw [hk.isLive_eq]
    exact hl.closed p b hb q (hc ▸ hq)
  · rw [hk.isLive_eq]
    exact hl.owed_live q (howed hq)
  · rw [hk.isLive_eq]
    exact hl.due_live q (hdue hq)

theorem Ledger.lower (hl : h.Ledger ext (r :: owed) []) (hr : h.get? r = some o) :
    (h.lowerRefs r o (o.refs - 1)).Ledger ext owed [] := by
  have hbal := hl.balance r o hr
  simp only [List.count_nil, List.count_cons_self] at hbal
  refine hl.recount (recounts_lowerRefs hr _) (List.subset_cons_self ..)
    (List.Subset.refl _) fun q => ?_
  by_cases hqr : q = r
  · subst hqr
    simp
    omega
  · simp [hqr, Ne.symm hqr]

theorem Ledger.addRef (hl : h.Ledger ext [] (r :: due)) : (h.addRef r).2.Ledger ext [] due := by
  obtain ⟨o, ho⟩ := isLive_iff.mp (hl.due_live r (by simp))
  refine hl.recount (recounts_addRef ho) (List.Subset.refl _) (List.subset_cons_self ..) fun q => ?_
  by_cases hqr : q = r
  · subst hqr
    simp
    omega
  · simp [hqr, Ne.symm hqr]

/-- An object without references is held by nobody, so that taking it away makes no handle field
dangle; what it held is owed. -/
theorem Ledger.vacate (hl : h.Ledger ext [] []) (hr : h.get? r = some o) (hzero : o.refs = 0) :
    ext r = 0 ∧ (h.vacate r o).Ledger ext o.children [] := by
  have hbal := hl.balance r o hr
  simp only [hzero, List.count_nil] at hbal
  have hnone : ∀ p a, h.get? p = some a → r ∉ a.children := by
    intro p a hp hm
    have := pointersTo_pos hp hm
    omega
  have hkeep : ∀ p a q, h.get? p = some a → q ∈ a.children → (h.vacate r o).isLive q := by
    intro p a q hp hq
    have hne : q ≠ r := fun e => hnone p a hp (e ▸ hq)
    have hlive := hl.closed p a hp q hq
    unfold isLive at hlive ⊢
    rw [get?_vacate hr, if_neg hne]
    exact hlive
  have hold : ∀ q a, (h.vacate r o).get? q = some a → h.get? q = some a := by
    intro q a hq
    rw [get?_vacate hr] at hq
    split at hq
    · cases hq
    · exact hq
  refine ⟨by omega, hl.tidy.vacate hr, fun q a hq => hl.counted q a (hold q a hq), fun q a hq => ?_,
    fun p a hp q hq => hkeep p a q (hold p a hp) hq, fun q hq => hkeep r o q hr hq, by simp⟩
  have hq := hl.balance q a (hold q a hq)
  have hpoint := pointersTo_vacate hr q
  rw [Object.count_children]
  simp only [List.count_nil] at hq ⊢
  omega

/-- Objects that wait for their destruction have no references left. -/
def Spent (h : Heap) (pending : List Handle) : Prop :=
  ∀ q ∈ pending, ∀ a, h.get? q = some a → a.refs = 0

theorem Spent.lower (hp : h.Spent pending) (hr : h.get? r = some o) (hrefs : refs ≤ o.refs) :
    (h.lowerRefs r o refs).Spent pending := by
  intro q hq a ha
  obtain ⟨b, hb, -, -, hab⟩ := (recounts_lowerRefs hr refs).get?_old ha
  have hzero := hp q hq b hb
  by_cases hqr : q = r
  · subst hqr
    rw [hr] at hb
    cases hb
    simp at hab
    omega
  · rw [hab, if_neg hqr, hzero]

theorem isLive_dropChildren (children pending : List Handle) (q : Handle) :
    (h.dropChildren children pending).1.isLive q = h.isLive q := by
  induction children generalizing h pending with
  | nil => rfl
  | cons child children ih =>
    rw [dropChildren]
    split
    · exact ih ..
    · rename_i o ho
      split
      · split <;> rw [ih, (recounts_lowerRefs ho _).isLive_eq]
      · exact ih ..

theorem Ledger.dropChildren {children : List Handle} (hl : h.Ledger ext children [])
    (hp : h.Spent pending) : (h.dropChildren children pending).1.Ledger ext [] [] ∧
      (h.dropChildren children pending).1.Spent (h.dropChildren children pending).2 := by
  induction children generalizing h pending with
  | nil => exact ⟨hl, hp⟩
  | cons child children ih =>
    obtain ⟨o, ho⟩ := isLive_iff.mp (hl.owed_live child (by simp))
    -- What is owed is still counted, so there is a reference to take away.
    have hbal := hl.balance child o ho
    simp only [List.count_nil, List.count_cons_self] at hbal
    have hlow := hl.lower ho
    rw [Heap.dropChildren, ho]
    simp only [(hl.counted child o ho).refCounted, if_true]
    split
    · exact ih hlow (hp.lower ho (by omega))
    · have hzero : o.refs - 1 = 0 := by omega
      rw [hzero] at hlow
      refine ih hlow ?_
      intro q hq a ha
      rcases List.mem_cons.mp hq with rfl | hq
      · obtain ⟨b, -, -, -, hrefs⟩ := (recounts_lowerRefs ho 0).get?_old ha
        simpa using hrefs
      · exact hp.lower ho (by omega) q hq a ha

/-- Destroying objects without references settles the counts again. What goes is held by nobody. -/
theorem Ledger.destroyAll (hl : h.Ledger ext [] []) (hp : h.Spent pending) :
    (h.destroyAll pending).Ledger ext []
    [] ∧ ∀ q, h.isLive q → (h.destroyAll pending).isLive q ∨ ext q = 0 := by
  fun_induction Heap.destroyAll h pending with
  | case1 h => exact ⟨hl, fun q hq => Or.inl hq⟩
  | case2 h r pending hr ih => exact ih hl fun q hq => hp q (List.mem_cons_of_mem _ hq)
  | case3 h r pending o hr _ _ next ih =>
    -- Once its slot is empty, the object owes what it held, and dropping that settles the counts
    -- for the rest of the work.
    obtain ⟨hext, hvac⟩ := hl.vacate hr (hp r (by simp) o hr)
    have hrest : (h.vacate r o).Spent pending := by
      intro q hq a ha
      rw [get?_vacate hr] at ha
      split at ha
      · cases ha
      · exact hp q (List.mem_cons_of_mem _ hq) a ha
    obtain ⟨hdrop, hspent⟩ := hvac.dropChildren hrest
    obtain ⟨hdone, hgone⟩ := ih hdrop hspent
    refine ⟨hdone, fun q hq => ?_⟩
    by_cases hqr : q = r
    · exact Or.inr (hqr ▸ hext)
    · refine hgone q ?_
      have hstill : (h.vacate r o).isLive q = true := by
        unfold isLive at hq ⊢
        rw [get?_vacate hr, if_neg hqr]
        exact hq
      rw [← hstill]
      exact isLive_dropChildren ..

theorem Ledger.of_slots (hl : h.Ledger ext owed due) (hs : k.slots = h.slots)
    (hf : k.free = h.free) : k.Ledger ext owed due := by
  have hget : ∀ q, k.get? q = h.get? q := get?_of_slots hs
  have hlive : ∀ q, k.isLive q = h.isLive q := fun q => congrArg Option.isSome (hget q)
  refine ⟨hl.tidy.of_same hf (by rw [hs]) (fun i => by simp [EmptyAt, hs]), fun q a hq => ?_,
    fun q a hq => ?_,
    fun p a hp q hq => ?_, fun q hq => ?_, fun q hq => ?_⟩
  · exact hl.counted q a (hget q ▸ hq)
  · rw [pointersTo_of_slots hs]
    exact hl.balance q a (hget q ▸ hq)
  · rw [hlive]
    exact hl.closed p a (hget p ▸ hp) q hq
  · rw [hlive]
    exact hl.owed_live q hq
  · rw [hlive]
    exact hl.due_live q hq

theorem Ledger.owe (hl : h.Ledger ext [] []) (hr : h.isLive r) (hext : 0 < ext r) :
    h.Ledger (Function.update ext r (ext r - 1)) [r] [] := by
  refine ⟨hl.tidy, hl.counted, fun q a hq => ?_, hl.closed, by simpa using hr, by simp⟩
  have hbal := hl.balance q a hq
  by_cases hqr : q = r
  · subst hqr
    simp at hbal ⊢
    omega
  · simp [hqr, Ne.symm hqr] at hbal ⊢
    omega

theorem Ledger.release (hl : h.Ledger ext [] []) (hr : h.isLive r) (hext : 0 < ext r) :
    (h.release r).2.Ledger (Function.update ext r (ext r - 1)) [] [] ∧
      ∀ q, h.isLive q → (h.release r).2.isLive q ∨ Function.update ext r (ext r - 1) q = 0 := by
  obtain ⟨o, ho⟩ := isLive_iff.mp hr
  have hlow := (hl.owe hr hext).lower ho
  have hsame := (recounts_lowerRefs ho (o.refs - 1)).isLive_eq
  rw [Heap.release, ho]
  simp only
  split
  · have hspent : (h.lowerRefs r o (o.refs - 1)).Spent [r] := by
      intro q hq a ha
      obtain ⟨b, -, -, -, hrefs⟩ := (recounts_lowerRefs ho _).get?_old ha
      rw [if_pos (List.mem_singleton.mp hq)] at hrefs
      omega
    obtain ⟨hdone, hgone⟩ := hlow.destroyAll hspent
    exact ⟨hdone, fun q hq => hgone q ((hsame q).trans hq)⟩
  · exact ⟨hlow, fun q hq => Or.inl ((hsame q).trans hq)⟩

theorem Ledger.giveUp_eq (hl : h.Ledger ext [] []) (hr : h.isLive r) :
    h.giveUp r = (h.release r).2 := by
  obtain ⟨o, ho⟩ := isLive_iff.mp hr
  rw [giveUp, ho]
  simp [(hl.counted r o ho).refCounted]

theorem Ledger.insert (hl : h.Ledger ext [] []) (hroom : h.HasRoom) (ht : o.type.Counted)
    (hrefs : o.refs = 1) (hc : o.children = []) :
    (h.insert o).2.Ledger (Function.update ext (h.insert o).1 1) [] [] := by
  have hfresh := get?_insert_self hl.tidy o
  have hget := get?_insert hl.tidy o
  have hempty : ∀ q, o.pointersTo q = 0 := fun q => by
    rw [← Object.count_children, hc, List.count_nil]
  have hnobody : h.pointersTo (h.insert o).1 = 0 := by
    refine pointersTo_eq_zero hl.tidy fun p a hp hm => ?_
    have hlive := hl.closed p a hp _ hm
    rw [isLive, hfresh] at hlive
    cases hlive
  refine ⟨hl.tidy.insert hroom o, fun q a hq => ?_, fun q a hq => ?_,
    fun p a hp q hq => ?_, by simp, by simp⟩
  · rw [hget] at hq
    split at hq
    · cases hq
      exact ht
    · exact hl.counted q a hq
  · rw [hget] at hq
    rw [pointersTo_insert hl.tidy, hempty]
    split at hq
    · rename_i hqn
      cases hq
      rw [hqn, Function.update_self, hnobody, hrefs]
    · rename_i hqn
      rw [Function.update_of_ne hqn]
      exact hl.balance q a hq
  · rw [hget] at hp
    split at hp
    · cases hp
      rw [hc] at hq
      cases hq
    · have hlive := hl.closed p a hp q hq
      unfold isLive at hlive ⊢
      rw [hget]
      split
      · rfl
      · exact hlive

theorem blank_children (t : ObjectType) (refs : Nat) (n : Nat) :
    Object.children { type := t, refs, fields := .zeros n } = [] := by
  refine List.filterMap_eq_nil_iff.mpr fun offset _ => ?_
  have hnull : Handle.ofBits? (joinWords 0 0) = none := by decide
  simp only [Object.handleAt?, Words.get?_zeros]
  by_cases h1 : offset.toNat < n <;> by_cases h2 : offset.toNat + 1 < n <;> simp [h1, h2, hnull]

theorem alloc_eq (h : Heap) (t : ObjectType) : ∃ k : Heap, k.slots = h.slots ∧ k.free = h.free ∧
    h.alloc t = k.insert { type := t, refs := 1, fields := .zeros t.fieldWords.toNat } := by
  refine ⟨_, ?_, ?_, rfl⟩
  · exact note_slots ..
  · exact note_free ..

theorem Ledger.alloc (hl : h.Ledger ext [] []) (hroom : h.HasRoom) {t : ObjectType}
    (ht : t.Counted) : (h.alloc t).2.Ledger (Function.update ext (h.alloc t).1 1) [] [] := by
  obtain ⟨k, hs, hf, hk⟩ := h.alloc_eq t
  rw [hk]
  refine (hl.of_slots hs hf).insert ?_ ht rfl (blank_children ..)
  rw [HasRoom, hs, hf]
  exact hroom

theorem get?_alloc (ht : h.Tidy) (t : ObjectType) (q : Handle) : (h.alloc t).2.get? q =
      if q = (h.alloc t).1 then some { type := t, refs := 1, fields := .zeros t.fieldWords.toNat }
      else h.get? q := by
  obtain ⟨k, hs, hf, hk⟩ := h.alloc_eq t
  have hkt : k.Tidy := ht.of_same hf (by rw [hs]) fun i => by simp [EmptyAt, hs]
  rw [hk, get?_insert hkt, get?_of_slots hs]

theorem isLive_modify (f : Object → Object) (q : Handle) : (h.modify r f).isLive q = h.isLive q := by
  unfold isLive
  rw [get?_modify]
  split <;> simp

/-- Writing the fields of an object. The handles it holds afterwards and did not hold before are
due, or come from outside. -/
theorem Ledger.refill {ext' : Handle → Nat} (hl : h.Ledger ext [] []) (hr : h.get? r = some o)
    {f : Object → Object} {fields : Words} (hf : f o = { o with fields })
    (hlive : ∀ q ∈ (f o).children, h.isLive q) (hdue : ∀ q ∈ due, h.isLive q)
    (hcnt : ∀ q, ext q + due.count q + o.pointersTo q = ext' q + (f o).pointersTo q) :
    (h.modify r f).Ledger ext' [] due := by
  have hget := get?_modify h r f
  have hold : ∀ q a, (h.modify r f).get? q = some a → (q = r ∧ a = f o) ∨
      (q ≠ r ∧ h.get? q = some a) := by
    intro q a hq
    rw [hget] at hq
    split at hq
    · rename_i hqr
      rw [hqr, hr] at hq
      cases hq
      exact Or.inl ⟨hqr, rfl⟩
    · exact Or.inr ⟨‹_›, hq⟩
  have hbalance : ∀ q b, h.get? q = some b →
      b.refs + due.count q = ext' q + (h.modify r f).pointersTo q := by
    intro q b hb
    have hbal := hl.balance q b hb
    have hpoint := pointersTo_modify hr f q
    have hq := hcnt q
    simp only [List.count_nil] at hbal
    omega
  refine ⟨hl.tidy.modify .., fun q a hq => ?_, fun q a hq => ?_, fun p a hp q hq => ?_, by simp,
    fun q hq => ?_⟩
  · rcases hold q a hq with ⟨rfl, rfl⟩ | ⟨-, hq⟩
    · rw [hf]
      exact hl.counted q o hr
    · exact hl.counted q a hq
  · rcases hold q a hq with ⟨rfl, rfl⟩ | ⟨-, hq⟩
    · rw [show (f o).refs = o.refs by rw [hf]]
      exact hbalance q o hr
    · exact hbalance q a hq
  · rw [isLive_modify]
    rcases hold p a hp with ⟨rfl, rfl⟩ | ⟨-, hp⟩
    · exact hlive q hq
    · exact hl.closed p a hp q hq
  · rw [isLive_modify]
    exact hdue q hq

theorem Ledger.addRefs (hl : h.Ledger ext [] due) :
    (h.addRefs due).Ledger ext [] [] := by
  induction due generalizing h with
  | nil => exact hl
  | cons child due ih => exact ih hl.addRef

theorem duplicate_eq (hr : h.get? r = some o) :
    h.duplicate r = (some (h.alloc o.type).1,
      ((h.alloc o.type).2.modify (h.alloc o.type).1 fun c => { c with fields := o.fields }).addRefs
        o.children) := by
  rw [duplicate, hr]

theorem isLive_addRefs (children : List Handle) (hq : h.isLive q) :
    (h.addRefs children).isLive q := by
  induction children generalizing h with
  | nil => exact hq
  | cons child children ih =>
    refine ih ?_
    cases hc : h.get? child with
    | none => simpa [Heap.addRef, hc] using hq
    | some o => rw [(recounts_addRef hc).isLive_eq, hq]

theorem isLive_alloc (ht : h.Tidy) (t : ObjectType) (hq : h.isLive q) : (h.alloc t).2.isLive q := by
  unfold isLive at hq ⊢
  rw [get?_alloc ht]
  split
  · rfl
  · exact hq

theorem Ledger.duplicate (hl : h.Ledger ext [] []) (hroom : h.HasRoom) (hr : h.get? r = some o) :
    (h.duplicate r).2.Ledger (Function.update ext (h.alloc o.type).1 1) [] [] ∧
      ∀ q, h.isLive q → (h.duplicate r).2.isLive q := by
  have hfd := get?_alloc hl.tidy o.type (h.alloc o.type).1
  rw [if_pos rfl] at hfd
  have hlive : ∀ q ∈ o.children, (h.alloc o.type).2.isLive q :=
    fun q hq => isLive_alloc hl.tidy _ (hl.closed r o hr q hq)
  rw [duplicate_eq hr]
  refine ⟨Ledger.addRefs
    ((hl.alloc hroom (hl.counted r o hr)).refill hfd rfl hlive hlive fun q => ?_), fun q hq => ?_⟩
  · have hblank : Object.pointersTo
        { type := o.type, refs := 1, fields := .zeros o.type.fieldWords.toNat } q = 0 := by
      rw [← Object.count_children, blank_children, List.count_nil]
    rw [Object.count_children, hblank]
    rfl
  · refine isLive_addRefs _ ?_
    rw [isLive_modify]
    exact isLive_alloc hl.tidy _ hq

theorem Ledger.store {p : Handle} {offset : UInt32} (hl : h.Ledger ext [] [])
    (hp : h.get? p = some o) (hr : h.isLive r) (hext : 0 < ext r)
    (hmem : offset ∈ o.type.handleFields) (hnull : o.handleAt? offset = none)
    (hfit : offset.toNat + 2 ≤ o.fields.size) :
    (h.modify p fun o => o.withHandle offset r).Ledger (Function.update ext r (ext r - 1)) []
    [] := by
  obtain ⟨a, ha⟩ := isLive_iff.mp hr
  have hpoint :=
    Object.pointersTo_withHandle (hl.counted p o hp) hmem hnull hfit (hl.tidy.index_lt ha)
  refine hl.refill hp rfl (fun q hq => ?_) (by simp) fun q => ?_
  · have hpos : 0 < (o.withHandle offset r).children.count q := List.count_pos_iff.mpr hq
    rw [Object.count_children, hpoint] at hpos
    by_cases hqr : q = r
    · rw [hqr]
      exact hr
    · rw [if_neg hqr, Nat.add_zero, ← Object.count_children] at hpos
      exact hl.closed p o hp q (List.count_pos_iff.mp hpos)
  · rw [hpoint]
    by_cases hqr : q = r
    · subst hqr
      simp
      omega
    · simp [hqr]

end Ledger

/-- The uses of a heap, each with the references held outside afterwards. No reference count has a
bound here; slot numbers have one. -/
inductive Use (h : Heap) (ext : Handle → Nat) : Heap → (Handle → Nat) → Prop
  | alloc {t : ObjectType} (ht : t.Counted) (hroom : h.HasRoom) :
    Use h ext (h.alloc t).2 (Function.update ext (h.alloc t).1 1)
  | addRef {r : Handle} (hr : h.isLive r) :
    Use h ext (h.addRef r).2 (Function.update ext r (ext r + 1))
  | release {r : Handle} (hr : h.isLive r) (hext : 0 < ext r) :
    Use h ext (h.release r).2 (Function.update ext r (ext r - 1))
  | giveUp {r : Handle} (hr : h.isLive r) (hext : 0 < ext r) :
    Use h ext (h.giveUp r) (Function.update ext r (ext r - 1))
  | duplicate {r copy : Handle} (hroom : h.HasRoom) (hcopy : (h.duplicate r).1 = some copy) :
    Use h ext (h.duplicate r).2 (Function.update ext copy 1)
  /-- A reference moves from outside into a handle field that is null. -/
  | store {p r : Handle} {o : Object} {offset : UInt32} (hp : h.get? p = some o) (hr : h.isLive r)
      (hext : 0 < ext r)
    (hmem : offset ∈ o.type.handleFields) (hnull : o.handleAt? offset = none)
    (hfit : offset.toNat + 2 ≤ o.fields.size) :
    Use h ext (h.setWords p offset.toNat [lowWord r.bits, highWord r.bits]).2
      (Function.update ext r (ext r - 1))

theorem Use.ledger {h' : Heap} {ext' : Handle → Nat} (hu : Use h ext h' ext')
    (hl : h.Ledger ext [] []) :
    h'.Ledger ext' [] [] ∧ ∀ q, h.isLive q → h'.isLive q ∨ ext' q = 0 := by
  cases hu with
  | alloc ht hroom => exact ⟨hl.alloc hroom ht, fun q hq => Or.inl (isLive_alloc hl.tidy _ hq)⟩
  | @addRef r hr =>
    -- The reference is held first and counted then.
    have hdue : h.Ledger (Function.update ext r (ext r + 1)) [] [r] := by
      refine ⟨hl.tidy, hl.counted, fun q a hq => ?_, hl.closed, by simp, by simpa using hr⟩
      have hbal := hl.balance q a hq
      by_cases hqr : q = r
      · subst hqr
        simp at hbal ⊢
        omega
      · simpa [hqr, Ne.symm hqr] using hbal
    exact ⟨hdue.addRef, fun q hq => Or.inl (isLive_addRefs [r] hq)⟩
  | release hr hext => exact hl.release hr hext
  | giveUp hr hext =>
    rw [hl.giveUp_eq hr]
    exact hl.release hr hext
  | @duplicate r copy hroom hcopy =>
    cases hr : h.get? r with
    | none => simp [Heap.duplicate, hr] at hcopy
    | some o =>
      obtain ⟨hdone, hlive⟩ := hl.duplicate hroom hr
      rw [duplicate_eq hr] at hcopy
      cases hcopy
      exact ⟨hdone, fun q hq => Or.inl (hlive q hq)⟩
  | @store p r o offset hp hr hext hmem hnull hfit =>
    have hset : (h.setWords p offset.toNat [lowWord r.bits, highWord r.bits]).2 =
        h.modify p fun o => o.withHandle offset r := by
      simp [setWords, hp, hfit, Object.withHandle]
    rw [hset]
    exact ⟨hl.store hp hr hext hmem hnull hfit, fun q hq => Or.inl (by rw [isLive_modify]; exact hq)⟩

/-- What is reached from an empty heap, with the references held outside. -/
inductive Used : Heap → (Handle → Nat) → Prop
  | empty : Used {} fun _ => 0
  | use {h h' : Heap} {ext ext' : Handle → Nat} (hrun : Used h ext) (hu : Use h ext h' ext') :
    Used h' ext'

theorem Used.ledger (hrun : Used h ext) : h.Ledger ext [] [] := by
  induction hrun with
  | empty =>
    have hnone : ∀ q, get? {} q = none := fun q => by simp [get?]
    refine ⟨tidy_empty, fun q a hq => ?_, fun q a hq => ?_, fun p a hp => ?_, by simp, by simp⟩
    · rw [hnone] at hq
      cases hq
    · rw [hnone] at hq
      cases hq
    · rw [hnone] at hp
      cases hp
  | use _ hu ih => exact (hu.ledger ih).1

/-- Every use of a consistent heap leaves a consistent heap. An object that it destroys has no
reference left, neither outside nor in an object that is still there. -/
theorem use_consistent {h h' : Heap} {ext ext' : Handle → Nat} (ht : h.Tidy) (hall : h.AllCounted)
    (hc : h.Consistent ext) (hu : Use h ext h' ext') :
    h'.Tidy ∧ h'.AllCounted ∧ h'.Consistent ext' ∧
      ∀ r, h.isLive r → ¬ h'.isLive r → ext' r = 0 ∧ h'.pointersTo r = 0 := by
  obtain ⟨hl, hgone⟩ := hu.ledger (ledger_iff.mpr ⟨ht, hall, hc⟩)
  obtain ⟨ht', hall', hc'⟩ := ledger_iff.mp hl
  refine ⟨ht', hall', hc', fun r hr hdead => ⟨(hgone r hr).resolve_left hdead, ?_⟩⟩
  exact pointersTo_eq_zero ht' fun p o hp hm => hdead (hl.closed p o hp r hm)

def forkType : ObjectType :=
  { name := "Fork", refCounted := true, fieldWords := 4, handleFields := [0, 2] }

/-- A fork whose two handle fields hold the same object. -/
def forked : Heap :=
  let h := (Heap.alloc {} forkType).2
  let h := (h.alloc forkType).2
  let h := (h.addRef ⟨1, 0⟩).2
  let h := (h.setWords ⟨0, 0⟩ 0 [2, 0]).2
  (h.setWords ⟨0, 0⟩ 2 [2, 0]).2

theorem forked_used : ∃ ext, Used forked ext ∧ ext ⟨0, 0⟩ = 1 := by
  have ht : forkType.Counted := ⟨rfl, by decide⟩
  have h1 := Used.empty.use (.alloc ht (by simp [HasRoom]))
  have h2 := h1.use (.alloc ht (by simp [HasRoom]; decide))
  have h3 := h2.use (.addRef (r := ⟨1, 0⟩) (by decide))
  have h4 := h3.use (.store (p := ⟨0, 0⟩) (r := ⟨1, 0⟩) (o := ⟨forkType, 1, .zeros 4⟩)
    (by decide) (by decide) (by decide) (show 0 ∈ forkType.handleFields by decide) (by decide)
      (by decide))
  have h5 :=
    h4.use (.store (p := ⟨0, 0⟩) (r := ⟨1, 0⟩) (o := ⟨forkType, 1, (Words.zeros 4).put 0 [2, 0]⟩)
    (by decide) (by decide) (by decide) (show 2 ∈ forkType.handleFields by decide) (by decide)
      (by decide))
  exact ⟨_, h5, by decide⟩

/-- Releasing the fork takes two references from one object in one go. -/
theorem use_consistent_forked : ∃ ext, forked.Consistent ext ∧ ext ⟨0, 0⟩ = 1 ∧
    (forked.release ⟨0, 0⟩).2.Consistent (Function.update ext ⟨0, 0⟩ 0) := by
  obtain ⟨ext, hrun, hone⟩ := forked_used
  obtain ⟨ht, hall, hc⟩ := ledger_iff.mp hrun.ledger
  have hafter := use_consistent ht hall hc (.release (r := ⟨0, 0⟩) (by decide) (by omega))
  exact ⟨ext, hc, hone, by simpa [hone] using hafter.2.2.1⟩

end Heap
end ScriptVm
