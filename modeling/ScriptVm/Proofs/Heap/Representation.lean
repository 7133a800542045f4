import Mathlib.Algebra.Module.Submodule.Lattice
import Mathlib.Data.List.Permutation
import ScriptVm.Proofs.Heap.Consistency

namespace ScriptVm

/-- What the destruction of an object tells the host. -/
def Object.farewell (o : Object) : LifeEvent :=
  { change := .destruct, typeName := o.type.name, refs := o.refs, fields := o.fields }

namespace Heap

/-- The destructions told and not yet passed on. -/
def farewells (h : Heap) : List LifeEvent :=
  h.journal.toList.filter fun event => event.change = .destruct

/-- The destruction of objects, turn by turn: a turn takes the first handle of the list, and its
object, if it still has one, goes and puts the objects it gives up onto the list. `gone` says what
went, in turn. -/
inductive Destroys : Heap → List Handle → List (Handle × Object) → Nat → Heap → Prop
  | done (h : Heap) : Destroys h [] [] 0 h
  | stale {h k : Heap} {r : Handle} {pending : List Handle} {gone : List (Handle × Object)}
      {turns : Nat} (hr : h.get? r = none) (hrest : Destroys h pending gone turns k) :
    Destroys h (r :: pending) gone (turns + 1) k
  | object {h k : Heap} {r : Handle} {o : Object} {pending : List Handle}
      {gone : List (Handle × Object)} {turns : Nat}
    (hr : h.get? r = some o) (hrest : Destroys ((h.vacate r o).dropChildren o.children pending).1
      ((h.vacate r o).dropChildren o.children pending).2
      gone turns k) :
    Destroys h (r :: pending) ((r, o) :: gone) (turns + 1) k

/-- The objects of `gone` are those that an operation takes away, and each of an observed type tells
so once. -/
structure Ended (h k : Heap) (gone : List (Handle × Object)) : Prop where
  nodup : (gone.map Prod.fst).Nodup
  mem_iff : ∀ q, (∃ o, (q, o) ∈ gone) ↔ h.isLive q ∧ ¬ k.isLive q
  found : ∀ q o, (q, o) ∈ gone → ∃ a, h.get? q = some a ∧ a.type = o.type ∧ a.fields = o.fields
  frees_eq : k.stats.frees = h.stats.frees + gone.length
  farewells_eq :
    k.farewells = h.farewells ++ (gone.filter fun d => d.2.type.observed).map fun d => d.2.farewell

/-- What holds of a heap while the objects of `pending` wait for their destruction. -/
structure Sound (h : Heap) (pending : List Handle) : Prop where
  tidy : h.Tidy
  live_eq : h.liveCount + h.stats.frees = h.stats.allocations
  waiting : ∀ r o, h.get? r = some o → o.refs = 0 → r ∈ pending

variable {h k : Heap} {r : Handle} {o : Object} {pending : List Handle} {gone : List (Handle × Object)}

@[simp] theorem note_stats (h : Heap) (c : LifeChange) (o : Object) :
    (h.note c o).stats = h.stats := by
  unfold note
  split <;> rfl

theorem farewells_note (h : Heap) {c : LifeChange} (hc : c ≠ .destruct) (o : Object) :
    (h.note c o).farewells = h.farewells := by
  unfold note farewells
  split
  · simp [hc]
  · rfl

theorem farewells_note_destruct (h : Heap) (o : Object) :
    (h.note .destruct o).farewells = h.farewells ++ if o.type.observed then [o.farewell]
      else [] := by
  unfold note farewells
  split
  · simp [Object.farewell]
  · simp

theorem frees_vacate (h : Heap) (r : Handle) (o : Object) :
    (h.vacate r o).stats.frees = h.stats.frees + 1 := by
  simp [vacate]

theorem farewells_vacate (h : Heap) (r : Handle) (o : Object) :
    (h.vacate r o).farewells = h.farewells ++ if o.type.observed then [o.farewell] else [] := by
  rw [vacate, farewells_note_destruct]
  rfl

theorem liveCount_insert (ht : h.Tidy) (o : Object) :
    (h.insert o).2.liveCount = h.liveCount + 1 := by
  cases hf : h.free with
  | nil =>
    rw [insert_append hf]
    simp [liveCount]
  | cons i free =>
    obtain ⟨slot, hs, ho⟩ := ht.slot_of_free hf
    obtain ⟨hi, rfl⟩ := Array.getElem?_eq_some_iff.mp hs
    rw [insert_reuse hf hs]
    simp [liveCount, modify_eq_set hi, Array.countP_set hi, ho]

/-- A change that takes no object away, makes none and writes no field. -/
structure Quiet (h k : Heap) : Prop where
  isLive_eq : ∀ q, k.isLive q = h.isLive q
  found : ∀ q a, k.get? q = some a → ∃ b, h.get? q = some b ∧ b.type = a.type ∧ b.fields = a.fields
  size_eq : k.slots.size = h.slots.size
  frees_eq : k.stats.frees = h.stats.frees
  farewells_eq : k.farewells = h.farewells

theorem Quiet.refl (h : Heap) : Quiet h h :=
  ⟨fun _ => rfl, fun _ a ha => ⟨a, ha, rfl, rfl⟩, rfl, rfl, rfl⟩

theorem Quiet.trans {j : Heap} (hk : Quiet h k) (hj : Quiet k j) : Quiet h j where
  isLive_eq q := (hj.isLive_eq q).trans (hk.isLive_eq q)
  found q a ha := by
    obtain ⟨b, hb, htype, hfields⟩ := hj.found q a ha
    obtain ⟨c, hc, htype', hfields'⟩ := hk.found q b hb
    exact ⟨c, hc, htype'.trans htype, hfields'.trans hfields⟩
  size_eq := hj.size_eq.trans hk.size_eq
  frees_eq := hj.frees_eq.trans hk.frees_eq
  farewells_eq := hj.farewells_eq.trans hk.farewells_eq

theorem quiet_of_recounts {refs : Nat} (hk : h.Recounts k r o refs)
    (hsize : k.slots.size = h.slots.size) (hfrees : k.stats.frees = h.stats.frees)
    (hfar : k.farewells = h.farewells) : Quiet h k := by
  refine ⟨hk.isLive_eq, fun q a ha => ?_, hsize, hfrees, hfar⟩
  rw [hk.get?_eq] at ha
  split at ha
  · rename_i hq
    cases ha
    exact ⟨o, hq ▸ hk.found, rfl, rfl⟩
  · exact ⟨a, ha, rfl, rfl⟩

theorem quiet_lowerRefs (hr : h.get? r = some o) (refs : Nat) : Quiet h (h.lowerRefs r o refs) := by
  apply quiet_of_recounts (recounts_lowerRefs hr refs)
  · simp [lowerRefs, modify]
  · simp [lowerRefs, modify]
  · exact farewells_note (h.modify r fun o => { o with refs }) (by decide) _

theorem quiet_addRef (h : Heap) (r : Handle) : Quiet h (h.addRef r).2 := by
  cases hr : h.get? r with
  | none =>
    rw [addRef, hr]
    exact Quiet.refl h
  | some o =>
    apply quiet_of_recounts (recounts_addRef hr)
    · simp [addRef, hr, modify]
    · simp [addRef, hr, modify]
    · rw [addRef, hr]
      exact farewells_note (h.modify r fun o => { o with refs := o.refs + 1 }) (by decide) _

theorem quiet_addRefs (h : Heap) (children : List Handle) :
    Quiet h (h.addRefs children) := by
  induction children generalizing h with
  | nil => exact Quiet.refl h
  | cons child children ih => exact (quiet_addRef h child).trans (ih _)

theorem quiet_dropChildren (h : Heap) (children pending : List Handle) :
    Quiet h (h.dropChildren children pending).1 := by
  induction children generalizing h pending with
  | nil => exact Quiet.refl h
  | cons child children ih =>
    rw [dropChildren]
    split
    · exact ih h pending
    · rename_i o ho
      split
      · split
        · exact (quiet_lowerRefs ho _).trans (ih _ _)
        · exact (quiet_lowerRefs ho _).trans (ih _ _)
      · exact ih h _

theorem length_dropChildren_le (h : Heap) (children pending : List Handle) :
    (h.dropChildren children pending).2.length ≤ pending.length + children.length := by
  induction children generalizing h pending with
  | nil => exact Nat.le_refl _
  | cons child children ih =>
    have hless (j : Heap) :
        (j.dropChildren children pending).2.length ≤ pending.length + (children.length + 1) := by
      have hrest := ih j pending
      omega
    have hmore (j : Heap) : (j.dropChildren children (child :: pending)).2.length ≤
        pending.length + (children.length + 1) := by
      have hrest := ih j (child :: pending)
      rw [List.length_cons] at hrest
      omega
    rw [dropChildren, List.length_cons]
    split
    · exact hless h
    · split
      · split
        · exact hless _
        · exact hmore _
      · exact hmore h

theorem destroys_destroyAll (h : Heap) (pending : List Handle) :
    ∃ gone turns, Destroys h pending gone turns (h.destroyAll pending) := by
  fun_induction Heap.destroyAll h pending with
  | case1 h => exact ⟨[], 0, .done h⟩
  | case2 h r pending hr ih =>
    obtain ⟨gone, turns, hrest⟩ := ih
    exact ⟨gone, turns + 1, .stale hr hrest⟩
  | case3 h r pending o hr _ _ next ih =>
    obtain ⟨gone, turns, hrest⟩ := ih
    exact ⟨(r, o) :: gone, turns + 1, .object hr hrest⟩

variable {turns : Nat}

/-- A turn is taken for each handle on the list and for each handle that an object gives up. -/
theorem Destroys.turns_le (hd : Destroys h pending gone turns k) :
    turns ≤ pending.length + (gone.map fun d => d.2.children.length).sum := by
  induction hd with
  | done => exact Nat.le_refl _
  | stale _ _ ih =>
    rw [List.length_cons]
    omega
  | @object h k r o pending gone turns hr _ ih =>
    have hlen := length_dropChildren_le (h.vacate r o) o.children pending
    simp only [List.length_cons, List.map_cons, List.sum_cons]
    omega

theorem Destroys.size_eq (hd : Destroys h pending gone turns k) : k.slots.size = h.slots.size := by
  induction hd with
  | done => rfl
  | stale _ _ ih => exact ih
  | @object h k r o pending gone turns hr _ ih =>
    rw [ih, (quiet_dropChildren ..).size_eq]
    simp [vacate]

theorem Destroys.isLive_of (hd : Destroys h pending gone turns k) {q : Handle} (hq : k.isLive q) :
    h.isLive q := by
  induction hd with
  | done => exact hq
  | stale _ _ ih => exact ih hq
  | @object h k r o pending gone turns hr _ ih =>
    have hlive := ih hq
    rw [(quiet_dropChildren ..).isLive_eq, isLive, get?_vacate hr] at hlive
    split at hlive
    · cases hlive
    · exact hlive

theorem Ended.of_quiet {j : Heap} (hj : Quiet h j) (hk : Ended j k gone) : Ended h k gone where
  nodup := hk.nodup
  mem_iff q := by
    rw [hk.mem_iff, hj.isLive_eq]
  found q o ho := by
    obtain ⟨a, ha, htype, hfields⟩ := hk.found q o ho
    obtain ⟨b, hb, htype', hfields'⟩ := hj.found q a ha
    exact ⟨b, hb, htype'.trans htype, hfields'.trans hfields⟩
  frees_eq := by rw [hk.frees_eq, hj.frees_eq]
  farewells_eq := by rw [hk.farewells_eq, hj.farewells_eq]

theorem Destroys.ended (hd : Destroys h pending gone turns k) : Ended h k gone := by
  induction hd with
  | done h => exact ⟨List.nodup_nil, by simp, by simp, by simp, by simp⟩
  | stale _ _ ih => exact ih
  | @object h k r o pending gone turns hr hrest ih =>
    -- What is left to do starts from a heap in which nothing but the object is missing.
    have hrest' := ih.of_quiet (quiet_dropChildren (h.vacate r o) o.children pending)
    have hlive : ∀ q, (h.vacate r o).isLive q ↔ q ≠ r ∧ h.isLive q := by
      intro q
      rw [isLive, get?_vacate hr]
      split
      · rename_i hq
        simp [hq]
      · rename_i hq
        simp [hq, isLive]
    have hgone : ¬ k.isLive r := by
      intro hk
      have hback := hrest.isLive_of hk
      rw [(quiet_dropChildren ..).isLive_eq, hlive] at hback
      exact hback.1 rfl
    have hfresh : r ∉ gone.map Prod.fst := by
      intro hm
      obtain ⟨⟨q, a⟩, hq, rfl⟩ := List.mem_map.mp hm
      exact ((hlive q).mp ((hrest'.mem_iff q).mp ⟨a, hq⟩).1).1 rfl
    refine ⟨List.nodup_cons.mpr ⟨hfresh, hrest'.nodup⟩, fun q => ?_, fun q a ha => ?_, ?_, ?_⟩
    · by_cases hq : q = r
      · subst hq
        have hbef : h.isLive q := isLive_iff.mpr ⟨o, hr⟩
        simp [hgone, hbef]
      · have hmem := hrest'.mem_iff q
        rw [hlive] at hmem
        simpa [hq] using hmem
    · rcases List.mem_cons.mp ha with he | ha
      · cases he
        exact ⟨o, hr, rfl, rfl⟩
      · obtain ⟨b, hb, htype, hfields⟩ := hrest'.found q a ha
        rw [get?_vacate hr] at hb
        split at hb
        · cases hb
        · exact ⟨b, hb, htype, hfields⟩
    · rw [hrest'.frees_eq, frees_vacate, List.length_cons]
      omega
    · rw [hrest'.farewells_eq, farewells_vacate, List.append_assoc]
      by_cases ho : o.type.observed <;> simp [ho]

theorem Sound.recount {pending' : List Handle} {refs : Nat} (hs : h.Sound pending)
    (hk : h.Recounts k r o refs) (hlive : k.liveCount = h.liveCount)
    (hfrees : k.stats.frees = h.stats.frees) (halls : k.stats.allocations = h.stats.allocations)
    (hsub : pending ⊆ pending') (hzero : refs = 0 → r ∈ pending') : k.Sound pending' := by
  refine ⟨hk.tidy hs.tidy, ?_, fun q a ha hrefs => ?_⟩
  · rw [hlive, hfrees, halls]
    exact hs.live_eq
  · obtain ⟨b, hb, -, -, hab⟩ := hk.get?_old ha
    split at hab
    · rename_i hq
      rw [hq]
      exact hzero (hab.symm.trans hrefs)
    · exact hsub (hs.waiting q b hb (hab.symm.trans hrefs))

theorem Sound.lowerRefs {pending' : List Handle} {refs : Nat} (hs : h.Sound pending)
    (hr : h.get? r = some o) (hsub : pending ⊆ pending') (hzero : refs = 0 → r ∈ pending') :
    (h.lowerRefs r o refs).Sound pending' :=
  hs.recount (recounts_lowerRefs hr refs) (liveCount_lowerRefs ..)
    (by simp [Heap.lowerRefs, Heap.modify])
    (by simp [Heap.lowerRefs, Heap.modify]) hsub hzero

theorem Sound.addRef (hs : h.Sound pending) (r : Handle) : (h.addRef r).2.Sound pending := by
  cases hr : h.get? r with
  | none => simpa [Heap.addRef, hr] using hs
  | some o =>
    have hlive : (h.addRef r).2.liveCount = h.liveCount := by
      have hnote := liveCount_note (h.modify r fun o => { o with refs := o.refs + 1 }) .addRef
        { o with refs := o.refs + 1 }
      rw [liveCount_modify] at hnote
      rw [Heap.addRef, hr]
      exact hnote
    refine hs.recount (recounts_addRef hr) hlive ?_ ?_ (List.Subset.refl _) (by omega)
    · simp [Heap.addRef, hr, Heap.modify]
    · simp [Heap.addRef, hr, Heap.modify]

theorem Sound.addRefs (hs : h.Sound pending) (children : List Handle) :
    (h.addRefs children).Sound pending := by
  induction children generalizing h with
  | nil => exact hs
  | cons child children ih => exact ih (hs.addRef child)

theorem Sound.dropChildren (hs : h.Sound pending) (children : List Handle) :
    (h.dropChildren children pending).1.Sound (h.dropChildren children pending).2 := by
  induction children generalizing h pending with
  | nil => exact hs
  | cons child children ih =>
    have hmore : h.Sound (child :: pending) :=
      ⟨hs.tidy, hs.live_eq, fun q a ha hrefs => List.mem_cons_of_mem _ (hs.waiting q a ha hrefs)⟩
    rw [Heap.dropChildren]
    split
    · exact ih hs
    · rename_i o ho
      split
      · split
        · exact ih (hs.lowerRefs ho (List.Subset.refl _) (by omega))
        · exact ih (hmore.lowerRefs ho (List.Subset.refl _) fun _ => List.mem_cons_self)
      · exact ih hmore

theorem Sound.vacate (hs : h.Sound (r :: pending)) (hr : h.get? r = some o) :
    (h.vacate r o).Sound pending := by
  have hlive := liveCount_vacate_add_one hr
  have hbal := hs.live_eq
  have halls : (h.vacate r o).stats.allocations = h.stats.allocations := by simp [Heap.vacate]
  refine ⟨hs.tidy.vacate hr, ?_, fun q a ha hrefs => ?_⟩
  · rw [frees_vacate, halls]
    omega
  · rw [get?_vacate hr] at ha
    split at ha
    · cases ha
    · rename_i hq
      exact (List.mem_cons.mp (hs.waiting q a ha hrefs)).resolve_left hq

theorem Destroys.sound (hd : Destroys h pending gone turns k) (hs : h.Sound pending) :
    k.Sound [] := by
  induction hd with
  | done => exact hs
  | @stale h k r pending gone turns hr _ ih =>
    refine ih ⟨hs.tidy, hs.live_eq, fun q a ha hrefs => ?_⟩
    have hq : q ≠ r := by
      rintro rfl
      rw [hr] at ha
      cases ha
    exact (List.mem_cons.mp (hs.waiting q a ha hrefs)).resolve_left hq
  | object hr _ ih => exact ih ((hs.vacate hr).dropChildren _)

/-- What a host can do to a heap, with handles and words of its choice. -/
inductive Op where
  | alloc (type : ObjectType)
  | addRef (r : Handle)
  | release (r : Handle)
  | giveUp (r : Handle)
  | duplicate (r : Handle)
  | setWords (r : Handle) (offset : Nat) (ws : List UInt32)
  | setField (index : UInt32) (generation : UInt16) (offset value : UInt32)
  /-- All fields at once, as many as the host likes. -/
  | refill (r : Handle) (fields : Words)

def perform (h : Heap) : Op → Heap
  | .alloc type => (h.alloc type).2
  | .addRef r => (h.addRef r).2
  | .release r => (h.release r).2
  | .giveUp r => h.giveUp r
  | .duplicate r => (h.duplicate r).2
  | .setWords r offset ws => (h.setWords r offset ws).2
  | .setField index generation offset value => h.setField index generation offset value
  | .refill r fields => h.modify r fun o => { o with fields }

def uses (ops : List Op) : Heap := ops.foldl perform {}

theorem ended_nil (hlive : ∀ q, h.isLive q → k.isLive q) (hfrees : k.stats.frees = h.stats.frees)
    (hfar : k.farewells = h.farewells) : Ended h k [] := by
  refine ⟨List.nodup_nil, fun q => ?_, by simp, by simpa using hfrees, by simpa using hfar⟩
  have := hlive q
  simpa using this

theorem Quiet.ended (hk : Quiet h k) : Ended h k [] :=
  ended_nil (fun q hq => (hk.isLive_eq q).trans hq) hk.frees_eq hk.farewells_eq

/-- Writing into the slots so that an object stays where one was, with its count. -/
structure Writes (h k : Heap) : Prop where
  rest : k = { h with slots := k.slots }
  size_eq : k.slots.size = h.slots.size
  empty_iff : ∀ i, k.EmptyAt i ↔ h.EmptyAt i
  live_eq : k.liveCount = h.liveCount
  isLive_eq : ∀ q, k.isLive q = h.isLive q
  refs_eq : ∀ q a, k.get? q = some a → ∃ b, h.get? q = some b ∧ b.refs = a.refs

theorem Writes.sound (hk : Writes h k) (hs : h.Sound pending) : k.Sound pending := by
  have hfree : k.free = h.free := by rw [hk.rest]
  have hstats : k.stats = h.stats := by rw [hk.rest]
  refine ⟨hs.tidy.of_same hfree hk.size_eq hk.empty_iff, ?_, fun q a ha hrefs => ?_⟩
  · rw [hk.live_eq, hstats]
    exact hs.live_eq
  · obtain ⟨b, hb, hba⟩ := hk.refs_eq q a ha
    exact hs.waiting q b hb (hba.trans hrefs)

theorem Writes.ended (hk : Writes h k) : Ended h k [] := by
  apply ended_nil
  · intro q hq
    rw [hk.isLive_eq]
    exact hq
  · rw [hk.rest]
  · unfold farewells
    rw [hk.rest]

theorem writes_refl (h : Heap) : Writes h h :=
  ⟨rfl, rfl, fun _ => Iff.rfl, rfl, fun _ => rfl, fun _ a ha => ⟨a, ha, rfl⟩⟩

theorem writes_modify (h : Heap) (r : Handle) {f : Object → Object}
    (hf : ∀ o, (f o).refs = o.refs) : Writes h (h.modify r f) := by
  refine ⟨rfl, by simp [modify], emptyAt_modify h r f, liveCount_modify h r f, isLive_modify f,
    fun q a ha => ?_⟩
  rw [get?_modify] at ha
  split at ha
  · obtain ⟨b, hb, rfl⟩ := Option.map_eq_some_iff.mp ha
    exact ⟨b, hb, (hf b).symm⟩
  · exact ⟨a, ha, rfl⟩

theorem writes_setWords (h : Heap) (r : Handle) (offset : Nat) (ws : List UInt32) :
    Writes h (h.setWords r offset ws).2 := by
  unfold setWords
  split
  · exact writes_modify h r fun _ => rfl
  · exact writes_refl h

/-- A field is found by slot and half of the generation, which any handle with these shares. -/
theorem get?_setField (h : Heap) (index : UInt32) (generation : UInt16) (offset value : UInt32)
    (q : Handle) : (h.setField index generation offset value).get? q =
      if q.index = index ∧ q.generation.toUInt16 = generation then
        (h.get? q).map fun o => { o with fields := o.fields.set offset.toNat value }
      else h.get? q := by
  unfold get? setField
  simp only [Array.getElem?_modify]
  by_cases hi : q.index = index
  · subst hi
    rw [if_pos rfl]
    cases h.slots[q.index.toNat]? with
    | none => simp
    | some slot =>
      by_cases hg : slot.generation = q.generation
      · by_cases hq : q.generation.toUInt16 = generation <;> simp [hg, hq]
      · by_cases hq : slot.generation.toUInt16 = generation <;> simp [hg, hq]
  · have hne : index.toNat ≠ q.index.toNat := fun e => hi (UInt32.toNat_inj.mp e.symm)
    rw [if_neg hne, if_neg fun hq => hi hq.1]

theorem writes_setField (h : Heap) (index : UInt32) (generation : UInt16) (offset value : UInt32) :
    Writes h (h.setField index generation offset value) := by
  refine ⟨rfl, by simp [setField], fun i => ?_, ?_, fun q => ?_, fun q a ha => ?_⟩
  · unfold EmptyAt setField
    simp only [Array.getElem?_modify]
    by_cases hi : index.toNat = i
    · rw [if_pos hi]
      cases h.slots[i]? with
      | none => simp
      | some slot => by_cases hg : slot.generation.toUInt16 = generation <;> simp [hg]
    · rw [if_neg hi]
  · refine liveCount_modifySlot h.slots index.toNat _ fun slot => ?_
    by_cases hg : slot.generation.toUInt16 = generation <;> simp [hg]
  · unfold isLive
    rw [get?_setField]
    split <;> simp
  · rw [get?_setField] at ha
    split at ha
    · obtain ⟨b, hb, rfl⟩ := Option.map_eq_some_iff.mp ha
      exact ⟨b, hb, rfl⟩
    · exact ⟨a, ha, rfl⟩

theorem size_insert (h : Heap) (o : Object) :
    (h.insert o).2.slots.size = if h.free = [] then h.slots.size + 1 else h.slots.size := by
  unfold insert
  split <;> simp [*]

theorem alloc_insert (h : Heap) (t : ObjectType) : ∃ j : Heap, j.slots = h.slots ∧ j.free = h.free ∧
    j.stats.frees = h.stats.frees ∧ j.stats.allocations = h.stats.allocations + 1 ∧
      j.farewells = h.farewells ∧
    h.alloc t = j.insert { type := t, refs := 1, fields := .zeros t.fieldWords.toNat } := by
  refine ⟨_, ?_, ?_, ?_, ?_, ?_, rfl⟩
  · exact note_slots ..
  · exact note_free ..
  · simp
  · simp
  · exact farewells_note h (by decide) _

theorem size_alloc (h : Heap) (t : ObjectType) :
    (h.alloc t).2.slots.size = if h.free = [] then h.slots.size + 1 else h.slots.size := by
  obtain ⟨j, hslots, hfree, -, -, -, halloc⟩ := h.alloc_insert t
  rw [halloc, size_insert, hfree, hslots]

theorem hasRoom_of_alloc {t : ObjectType} (hfit : (h.alloc t).2.slots.size < 4294967296) :
    h.HasRoom := by
  intro hfree
  rw [size_alloc, if_pos hfree] at hfit
  exact hfit

theorem insert_stats (h : Heap) (o : Object) : (h.insert o).2.stats = h.stats := by
  unfold insert
  split <;> rfl

theorem insert_journal (h : Heap) (o : Object) : (h.insert o).2.journal = h.journal := by
  unfold insert
  split <;> rfl

theorem Sound.alloc {t : ObjectType} (hs : h.Sound [])
    (hfit : (h.alloc t).2.slots.size < 4294967296) : (h.alloc t).2.Sound [] := by
  have hroom := hasRoom_of_alloc hfit
  obtain ⟨j, hslots, hfree, hfrees, halls, -, halloc⟩ := h.alloc_insert t
  have htidy : j.Tidy := hs.tidy.of_same hfree (by rw [hslots]) fun i => by simp [EmptyAt, hslots]
  have hlive : j.liveCount = h.liveCount := by simp only [liveCount, hslots]
  have hbal := hs.live_eq
  refine ⟨?_, ?_, fun q a ha hrefs => ?_⟩
  · rw [halloc]
    apply htidy.insert
    rw [HasRoom, hfree, hslots]
    exact hroom
  · rw [halloc, liveCount_insert htidy, insert_stats]
    omega
  · rw [get?_alloc hs.tidy] at ha
    split at ha
    · cases ha
      cases hrefs
    · exact hs.waiting q a ha hrefs

theorem ended_alloc (ht : h.Tidy) (t : ObjectType) : Ended h (h.alloc t).2 [] := by
  obtain ⟨j, -, -, hfrees, -, hfar, halloc⟩ := h.alloc_insert t
  apply ended_nil
  · exact fun q hq => isLive_alloc ht t hq
  · rw [halloc, insert_stats, hfrees]
  · rw [halloc, ← hfar]
    unfold farewells
    rw [insert_journal]

theorem Ended.live_of_nil (hk : Ended h k []) {q : Handle} (hq : h.isLive q) : k.isLive q := by
  by_contra hdead
  have hmem := (hk.mem_iff q).mpr ⟨hq, hdead⟩
  simp at hmem

theorem Ended.trans_nil {j : Heap} (hj : Ended h j []) (hk : Ended j k []) : Ended h k [] := by
  refine ended_nil (fun q hq => hk.live_of_nil (hj.live_of_nil hq)) ?_ ?_
  · rw [hk.frees_eq, hj.frees_eq]
    rfl
  · rw [hk.farewells_eq, hj.farewells_eq]
    simp

theorem size_destroyAll (h : Heap) (pending : List Handle) :
    (h.destroyAll pending).slots.size = h.slots.size := by
  obtain ⟨gone, turns, hd⟩ := destroys_destroyAll h pending
  exact hd.size_eq

theorem Sound.weaken (hs : h.Sound []) (pending : List Handle) : h.Sound pending :=
  ⟨hs.tidy, hs.live_eq, fun q a ha hrefs => absurd (hs.waiting q a ha hrefs) List.not_mem_nil⟩

theorem Sound.destroyAll (hs : h.Sound pending) :
    (h.destroyAll pending).Sound [] ∧ ∃ gone, Ended h (h.destroyAll pending) gone := by
  obtain ⟨gone, turns, hd⟩ := destroys_destroyAll h pending
  exact ⟨hd.sound hs, gone, hd.ended⟩

theorem Sound.release (hs : h.Sound []) (r : Handle) :
    (h.release r).2.Sound [] ∧ ∃ gone, Ended h (h.release r).2 gone := by
  cases hr : h.get? r with
  | none =>
    rw [Heap.release, hr]
    exact ⟨hs, [], (Quiet.refl h).ended⟩
  | some o =>
    have hquiet := quiet_lowerRefs hr (o.refs - 1)
    rw [Heap.release, hr]
    dsimp only
    split
    · have hlow : (h.lowerRefs r o (o.refs - 1)).Sound [r] :=
        hs.lowerRefs hr (List.nil_subset _) fun _ => List.mem_cons_self
      obtain ⟨hdone, gone, hended⟩ := hlow.destroyAll
      exact ⟨hdone, gone, hended.of_quiet hquiet⟩
    · rename_i hrefs
      exact ⟨hs.lowerRefs hr (List.Subset.refl _) fun hzero => absurd hzero hrefs, [], hquiet.ended⟩

theorem Sound.giveUp (hs : h.Sound []) (r : Handle) :
    (h.giveUp r).Sound [] ∧ ∃ gone, Ended h (h.giveUp r) gone := by
  cases hr : h.get? r with
  | none =>
    rw [Heap.giveUp, hr]
    exact ⟨hs, [], (Quiet.refl h).ended⟩
  | some o =>
    rw [Heap.giveUp, hr]
    dsimp only
    split
    · exact hs.release r
    · exact (hs.weaken [r]).destroyAll

theorem size_duplicate (hr : h.get? r = some o) :
    (h.duplicate r).2.slots.size = (h.alloc o.type).2.slots.size := by
  rw [duplicate_eq hr, (quiet_addRefs ..).size_eq]
  simp [modify]

theorem Sound.duplicate (hs : h.Sound []) (r : Handle)
    (hfit : (h.duplicate r).2.slots.size < 4294967296) :
    (h.duplicate r).2.Sound [] ∧ ∃ gone, Ended h (h.duplicate r).2 gone := by
  cases hr : h.get? r with
  | none =>
    rw [Heap.duplicate, hr]
    exact ⟨hs, [], (Quiet.refl h).ended⟩
  | some o =>
    rw [size_duplicate hr] at hfit
    have hwr : Writes (h.alloc o.type).2
        ((h.alloc o.type).2.modify (h.alloc o.type).1 fun c => { c with fields := o.fields }) :=
      writes_modify _ _ fun _ => rfl
    rw [duplicate_eq hr]
    refine ⟨(hwr.sound (hs.alloc hfit)).addRefs o.children, [], ?_⟩
    exact ((ended_alloc hs.tidy o.type).trans_nil hwr.ended).trans_nil
      (quiet_addRefs _ o.children).ended

/-- Every operation leaves the heap in order, and there is a list of what it destroys. -/
theorem Sound.perform (hs : h.Sound []) (op : Op) (hfit : (h.perform op).slots.size < 4294967296) :
    (h.perform op).Sound [] ∧ ∃ gone, Ended h (h.perform op) gone := by
  cases op with
  | alloc type => exact ⟨hs.alloc hfit, [], ended_alloc hs.tidy type⟩
  | addRef r => exact ⟨hs.addRef r, [], (quiet_addRef h r).ended⟩
  | release r => exact hs.release r
  | giveUp r => exact hs.giveUp r
  | duplicate r => exact hs.duplicate r hfit
  | setWords r offset ws =>
    have hwr := writes_setWords h r offset ws
    exact ⟨hwr.sound hs, [], hwr.ended⟩
  | setField index generation offset value =>
    have hwr := writes_setField h index generation offset value
    exact ⟨hwr.sound hs, [], hwr.ended⟩
  | refill r fields =>
    have hwr : Writes h (h.modify r fun o => { o with fields }) := writes_modify h r fun _ => rfl
    exact ⟨hwr.sound hs, [], hwr.ended⟩

theorem size_release (h : Heap) (r : Handle) : (h.release r).2.slots.size = h.slots.size := by
  cases hr : h.get? r with
  | none => rw [release, hr]
  | some o =>
    have hlow := (quiet_lowerRefs hr (o.refs - 1)).size_eq
    rw [release, hr]
    dsimp only
    split
    · rw [destroy, size_destroyAll, hlow]
    · exact hlow

theorem size_giveUp (h : Heap) (r : Handle) : (h.giveUp r).slots.size = h.slots.size := by
  unfold giveUp
  split
  · rfl
  · split
    · exact size_release h r
    · exact size_destroyAll h [r]

theorem size_perform (h : Heap) (op : Op) :
    h.slots.size ≤ (h.perform op).slots.size ∧ (h.perform op).slots.size ≤ h.slots.size + 1 := by
  have hsame {k : Heap} (hk : k.slots.size = h.slots.size) : h.slots.size ≤ k.slots.size ∧
      k.slots.size ≤ h.slots.size + 1 := by
    omega
  have halloc (t : ObjectType) :
      h.slots.size ≤ (h.alloc t).2.slots.size ∧ (h.alloc t).2.slots.size ≤ h.slots.size + 1 := by
    rw [size_alloc]
    split <;> omega
  cases op with
  | alloc type => exact halloc type
  | addRef r => exact hsame (quiet_addRef h r).size_eq
  | release r => exact hsame (size_release h r)
  | giveUp r => exact hsame (size_giveUp h r)
  | duplicate r =>
    cases hr : h.get? r with
    | none => exact hsame (by simp [perform, duplicate, hr])
    | some o =>
      have hsize := size_duplicate hr
      simp only [perform, hsize]
      exact halloc o.type
  | setWords r offset ws => exact hsame (writes_setWords h r offset ws).size_eq
  | setField index generation offset value =>
    exact hsame (writes_setField h index generation offset value).size_eq
  | refill r fields => exact hsame (by simp [perform, modify])

theorem size_le_run (h : Heap) (ops : List Op) :
    h.slots.size ≤ (ops.foldl perform h).slots.size := by
  induction ops generalizing h with
  | nil => exact Nat.le_refl _
  | cons op ops ih => exact Nat.le_trans (size_perform h op).1 (ih _)

theorem size_run_le (h : Heap) (ops : List Op) :
    (ops.foldl perform h).slots.size ≤ h.slots.size + ops.length := by
  induction ops generalizing h with
  | nil => exact Nat.le_refl _
  | cons op ops ih =>
    have hstep := (size_perform h op).2
    have hrest := ih (h.perform op)
    rw [List.length_cons, List.foldl_cons]
    omega

/-- The objects that went in each of a series of operations. -/
structure Deaths (h : Heap) (ops : List Op) (deaths : List (List (Handle × Object))) : Prop where
  length_eq : deaths.length = ops.length
  ended : ∀ i gone, deaths[i]? = some gone →
    Ended ((ops.take i).foldl perform h) ((ops.take (i + 1)).foldl perform h) gone

theorem Deaths.cons {op : Op} {ops : List Op} {deaths : List (List (Handle × Object))}
    (hgone : Ended h (h.perform op) gone) (hrest : Deaths (h.perform op) ops deaths) :
    Deaths h (op :: ops) (gone :: deaths) := by
  refine ⟨by simp [hrest.length_eq], fun i went hi => ?_⟩
  cases i with
  | zero =>
    cases hi
    exact hgone
  | succ i => exact hrest.ended i went hi

theorem Deaths.total {ops : List Op} {deaths : List (List (Handle × Object))}
    (hd : Deaths h ops deaths) :
    (ops.foldl perform h).stats.frees = h.stats.frees + deaths.flatten.length ∧
      (ops.foldl perform h).farewells =
        h.farewells ++ (deaths.flatten.filter fun d => d.2.type.observed).map fun d =>
          d.2.farewell := by
  induction ops generalizing h deaths with
  | nil =>
    have hnil : deaths = [] := List.eq_nil_of_length_eq_zero hd.length_eq
    simp [hnil]
  | cons op ops ih =>
    cases deaths with
    | nil => cases hd.length_eq
    | cons gone deaths =>
      have hfst : Ended h (h.perform op) gone := hd.ended 0 gone rfl
      have hrest : Deaths (h.perform op) ops deaths :=
        ⟨Nat.succ.inj hd.length_eq, fun i went hi => hd.ended (i + 1) went hi⟩
      obtain ⟨hfrees, hfar⟩ := ih hrest
      refine ⟨?_, ?_⟩
      · rw [List.foldl_cons, hfrees, hfst.frees_eq, List.flatten_cons, List.length_append]
        omega
      · rw [List.foldl_cons, hfar, hfst.farewells_eq, List.flatten_cons, List.filter_append,
          List.map_append,
          List.append_assoc]

theorem Sound.run (hs : h.Sound []) {ops : List Op}
    (hfit : (ops.foldl Heap.perform h).slots.size < 4294967296) :
    (ops.foldl Heap.perform h).Sound [] ∧ ∃ deaths, Deaths h ops deaths := by
  induction ops generalizing h with
  | nil => exact ⟨hs, [], rfl, by simp⟩
  | cons op ops ih =>
    have hstep : (h.perform op).slots.size < 4294967296 :=
      Nat.lt_of_le_of_lt (size_le_run _ ops) hfit
    obtain ⟨hnext, gone, hgone⟩ := hs.perform op hstep
    obtain ⟨hdone, deaths, hdeaths⟩ := ih hnext hfit
    exact ⟨hdone, gone :: deaths, hdeaths.cons hgone⟩

/-- How a heap looks between operations. -/
structure Represented (h : Heap) : Prop where
  /-- An empty slot is in the list of free slots once, one that holds an object is not. -/
  count_free : ∀ i slot, h.slots[i]? = some slot →
    (h.free.map UInt32.toNat).count i = if slot.object.isNone then 1 else 0
  free_lt : ∀ i ∈ h.free, i.toNat < h.slots.size
  frees_le : h.stats.frees ≤ h.stats.allocations
  live_eq : h.liveCount = h.stats.allocations - h.stats.frees
  refs_pos : ∀ r o, h.get? r = some o → 1 ≤ o.refs

theorem Sound.represented (hs : h.Sound []) : h.Represented := by
  have hinj : Function.Injective UInt32.toNat := fun a b hab => UInt32.toNat_inj.mp hab
  have hsize := hs.tidy.size_lt
  have hbal := hs.live_eq
  refine ⟨fun i slot hi => ?_, fun i hi => ?_, by omega, by omega, fun r o hr => ?_⟩
  · have hlt := (Array.getElem?_eq_some_iff.mp hi).1
    have hback : i.toUInt32.toNat = i := by simp [Nat.mod_eq_of_lt (Nat.lt_trans hlt hsize)]
    have hmem : i.toUInt32 ∈ h.free ↔ slot.object.isNone := by
      rw [hs.tidy.mem_free, hback]
      simp [EmptyAt, hi]
    calc (h.free.map UInt32.toNat).count i
      _ = (h.free.map UInt32.toNat).count i.toUInt32.toNat := by rw [hback]
      _ = h.free.count i.toUInt32 := List.count_map_of_injective _ _ hinj _
      _ = if slot.object.isNone then 1 else 0 := by
        rw [hs.tidy.nodup.count]
        exact if_congr hmem rfl rfl
  · obtain ⟨slot, hslot, -⟩ := (hs.tidy.mem_free i).mp hi
    exact (Array.getElem?_eq_some_iff.mp hslot).1
  · refine Nat.pos_of_ne_zero fun hzero => ?_
    exact absurd (hs.waiting r o hr hzero) List.not_mem_nil

theorem sound_empty : Sound {} [] := by
  refine ⟨tidy_empty, rfl, fun r o hr => ?_⟩
  simp [get?] at hr

theorem Destroys.liveCount_add (hd : Destroys h pending gone turns k) :
    k.liveCount + gone.length = h.liveCount := by
  induction hd with
  | done => rfl
  | stale _ _ ih => exact ih
  | @object h k r o pending gone turns hr _ ih =>
    have hvacate := liveCount_vacate_add_one hr
    rw [liveCount_dropChildren] at ih
    rw [List.length_cons]
    omega

/-- Whatever is done to a heap, with whatever handles and words in handle fields: each destruction
ends after as many turns as it is given handles, and takes no more objects than there are; the free
slots, the counters and the counts of references are right between operations; and the objects that
go in an operation are those found before it and not after it, each of which tells so once if its
type is observed. -/
theorem uses_represented (ops : List Op) (hfit : (uses ops).slots.size < 4294967296) :
    (uses ops).Represented ∧
    (∀ (h : Heap) (r : Handle), ∃ gone turns, Destroys h [r] gone turns (h.destroy r) ∧
      turns ≤ 1 + (gone.map fun d => d.2.children.length).sum ∧ gone.length ≤ h.liveCount) ∧
    ∃ deaths, Deaths {} ops deaths ∧ (uses ops).stats.frees = deaths.flatten.length ∧
      (uses ops).farewells = (deaths.flatten.filter fun d => d.2.type.observed).map fun d =>
        d.2.farewell := by
  obtain ⟨hsound, deaths, hdeaths⟩ := sound_empty.run hfit
  obtain ⟨hfrees, hfarewells⟩ := hdeaths.total
  refine ⟨hsound.represented, fun h r => ?_, deaths, hdeaths, ?_, ?_⟩
  · obtain ⟨gone, turns, hd⟩ := destroys_destroyAll h [r]
    have hlive := hd.liveCount_add
    exact ⟨gone, turns, hd, hd.turns_le, by omega⟩
  · rw [uses, hfrees]
    exact Nat.zero_add _
  · rw [uses, hfarewells]
    rfl

/-- Counted, with handle fields that share words. -/
def ringType : ObjectType :=
  { name := "Ring", refCounted := true, fieldWords := 4, handleFields := [0, 2, 1], observed := true }

def cellType : ObjectType :=
  { name := "Cell", refCounted := false, fieldWords := 2, handleFields := [0], observed := true }

/-- A ring that holds itself and a cell, which holds the ring; a copy of the ring; and handles that
were never given out or are no longer good. -/
def tangle : List Op :=
  [.alloc ringType, .alloc cellType, .setWords ⟨0, 0⟩ 0 [2, 0, 1, 0], .setWords ⟨1, 0⟩ 0 [1, 0],
    .duplicate ⟨0, 0⟩,
    .release ⟨7, 3⟩, .setField 0 9 1 5, .release ⟨0, 0⟩, .release ⟨0, 0⟩, .giveUp ⟨0,
      0⟩, .addRef ⟨1, 0⟩, .alloc cellType,
    .refill ⟨1, 1⟩ (.zeros 7), .giveUp ⟨2, 0⟩]

/-- The ring, the cell and the copy go, and a new object has the slot of one of them. -/
theorem uses_represented_tangle :
    (uses tangle).slots.size < 4294967296 ∧ (uses tangle).Represented ∧ (uses tangle).liveCount = 1 ∧
    ∃ deaths, Deaths {} tangle deaths ∧ deaths.flatten.length = 3 ∧
      (uses tangle).farewells = (deaths.flatten.filter fun d => d.2.type.observed).map fun d =>
        d.2.farewell := by
  have hfit : (uses tangle).slots.size < 4294967296 :=
    Nat.lt_of_le_of_lt (size_run_le {} tangle) (by decide)
  have hthree : (uses tangle).stats.frees = 3 := by cbv
  obtain ⟨hrep, -, deaths, hdeaths, hfrees, hfarewells⟩ := uses_represented tangle hfit
  exact ⟨hfit, hrep, by cbv, deaths, hdeaths, hfrees.symm.trans hthree, hfarewells⟩

end Heap
end ScriptVm
