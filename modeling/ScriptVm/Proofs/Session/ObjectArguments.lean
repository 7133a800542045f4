import ScriptVm.Proofs.Execution.FrameBounds
import ScriptVm.Proofs.Heap.Lending
import ScriptVm.Proofs.Session.Preparation

namespace ScriptVm

open Exec

namespace Func

/-- The slots that the host may fill: the object of a method, and the object arguments. -/
def ownedSlots (f : Func) (fp : Pointer) : List FrameSlot :=
  (if f.owner.isSome then [.this fp] else []) ++ argSlots fp f.thisWords f.signature.params

variable {f : Func} {fp : Pointer} {slot : FrameSlot}

theorem frameSlots_eq (h : f.keepsArgs = false) (fp : Pointer) :
    f.frameSlots fp = f.varSlots fp ++ f.ownedSlots fp := by
  rw [frameSlots, if_neg (by simp [h]), ownedSlots]

theorem mem_argSlots_iff {offset : Nat} {params : List Parameter} :
    slot ∈ argSlots fp offset params ↔ ∃ (index : Nat) (p : Parameter)
    (q : Pointer), params[index]? = some p ∧ p.type.isOwned = true ∧
      fp.shift? (offset + total (fun p => p.type.words) (params.take index) : Nat) = some q ∧
        slot = .owned q := by
  induction params generalizing offset with
  | nil => simp [argSlots]
  | cons p params ih =>
    rw [argSlots, List.mem_append, ih]
    constructor
    · rintro (hfst | ⟨index, p', q, hidx, howned, hq, rfl⟩)
      · split at hfst
        · rename_i howned
          obtain ⟨q, hq, rfl⟩ := List.mem_map.mp hfst
          exact ⟨0, p, q, rfl, howned, Option.mem_toList.mp hq, rfl⟩
        · cases hfst
      · refine ⟨index + 1, p', q, hidx, howned, ?_, rfl⟩
        rw [← hq, Nat.add_assoc]
        rfl
    · rintro ⟨index, p', q, hidx, howned, hq, rfl⟩
      cases index with
      | zero =>
        cases hidx
        left
        rw [if_pos howned]
        exact List.mem_map_of_mem (Option.mem_toList.mpr hq)
      | succ index =>
        refine .inr ⟨index, p', q, hidx, howned, ?_, rfl⟩
        rw [← hq, Nat.add_assoc]
        rfl

theorem shift?_of_mem_ownedSlots (h : slot ∈ f.ownedSlots fp) : ∃ i :
    Nat, i + 2 ≤ f.argWords ∧ fp.shift? i = some slot.place := by
  obtain hthis | harg := List.mem_append.mp h
  · split at hthis
    · rename_i hown
      rw [List.mem_singleton.mp hthis]
      refine ⟨0, ?_, Pointer.shift?_eq_some_iff.mpr ⟨rfl, by simp [FrameSlot.place]⟩⟩
      rw [argWords, thisWords, if_pos hown]
      exact Nat.le_add_right 2 _
    · cases hthis
  · obtain ⟨index, p, q, hidx, howned, hq, rfl⟩ := mem_argSlots_iff.mp harg
    refine ⟨_, ?_, hq⟩
    have hnext := f.argOffset_le (index + 1)
    rw [List.take_add_one, hidx, total_append] at hnext
    have hws : total (fun p : Parameter => p.type.words) (some p).toList = 2 :=
      DataType.words_of_isOwned howned
    omega

theorem pairwise_ownedSlots (f : Func) (fp : Pointer) :
    (f.ownedSlots fp).Pairwise FrameSlot.Apart := by
  refine List.pairwise_append.mpr ⟨?_, pairwise_argSlots .., fun a ha b hb => ?_⟩
  · split <;> simp
  · split at ha
    · rename_i hown
      obtain ⟨-, hlater⟩ := place_of_mem_argSlots hb
      rw [thisWords, if_pos hown] at hlater
      rw [List.mem_singleton.mp ha]
      exact .inr (.inl hlater)
    · cases ha

end Func

namespace Engine

theorem slots_onHeap {α : Type} (e : Engine) (f : Heap → α × Heap) :
    (e.onHeap f).2.heap.slots = (f e.heap).2.slots ∧
      (e.onHeap f).2.heap.free = (f e.heap).2.free := by
  unfold onHeap
  dsimp only
  split <;> exact ⟨rfl, rfl⟩

theorem changeHeap_eq_onHeap {α : Type} (e : Engine) (f : Heap → α × Heap) :
    (e.changeHeap fun h => (f h).2) = (e.onHeap f).2 := by
  unfold changeHeap onHeap
  dsimp only
  split <;> rfl

theorem value_onHeap {α : Type} (e : Engine) (f : Heap → α × Heap) :
    (e.onHeap f).1 = (f e.heap).1 := by
  unfold onHeap
  dsimp only
  split <;> rfl

end Engine

/-- What is done with an object that leaves its slot. -/
def FrameSlot.drop : FrameSlot → Handle → HeapOp
  | owned _, h => .free h
  | this _, h => .release h

namespace Heap.Lending

variable {h0 : Heap} {held : List Handle} {copies : List (Handle × List Handle)} {e : Engine}
    {r : Handle}

theorem drop (hs : h0.Sturdy) (hl : Lending h0 e.heap (r :: held) copies [] []) (slot : FrameSlot) :
    ∃ copies', Lending h0 ((slot.drop r).run e).heap held copies' [] [] := by
  have hrun {f : Heap → Heap} (hf : ∃ copies', Lending h0 (f e.heap) held copies' [] []) :
      ∃ copies', Lending h0 (e.changeHeap f).heap held copies' [] [] := by
    obtain ⟨copies', hl'⟩ := hf
    obtain ⟨hslots, hfree⟩ := e.slots_onHeap fun h => ((), f h)
    exact ⟨copies', hl'.of_slots hslots hfree⟩
  cases slot with
  | owned p => exact hrun (hl.giveUp hs)
  | this p => exact hrun (hl.release hs)

/-- An object in a slot is counted, so it is dropped in any case when the slot is cleaned. -/
theorem op?_eq (hs : h0.Sturdy) (hl : Lending h0 e.heap (r :: held) copies [] []) {s : Stack}
    {slot : FrameSlot} (hr : s.handle? slot.place = some r) :
    slot.op? s e.heap = some (slot.drop r) := by
  cases slot with
  | owned p => exact congrArg (Option.map HeapOp.free) hr
  | this p =>
    obtain ⟨a, ha⟩ := isLive_iff.mp (hl.lent r List.mem_cons_self)
    have hcntd : ((e.heap.get? r).any fun o => o.type.refCounted) = true := by
      rw [ha]
      exact (hl.counted hs ha).1
    have hr : s.handle? p = some r := hr
    rw [FrameSlot.op?, hr, Option.filter_some, if_pos hcntd]
    rfl

theorem ops (hs : h0.Sturdy) {s : Stack} {slots : List FrameSlot}
    (hl : Lending h0 e.heap (slots.filterMap fun slot => s.handle? slot.place) copies [] []) :
    ∃ copies', Lending h0 ((FrameSlot.ops s e slots).foldl HeapOp.run e).heap [] copies' [] [] := by
  induction slots generalizing e copies with
  | nil => exact ⟨copies, hl⟩
  | cons slot slots ih =>
    rw [List.filterMap_cons] at hl
    cases hr : s.handle? slot.place with
    | none =>
      have hop : slot.op? s e.heap = none := by
        cases slot with
        | owned p => exact congrArg (Option.map HeapOp.free) hr
        | this p =>
          have hr : s.handle? p = none := hr
          rw [FrameSlot.op?, hr]
          rfl
      rw [hr] at hl
      rw [FrameSlot.ops_cons_none hop]
      exact ih hl
    | some r =>
      rw [hr] at hl
      obtain ⟨copies', hl'⟩ := hl.drop hs slot
      rw [FrameSlot.ops_cons_some (hl.op?_eq hs hr), List.foldl_cons]
      exact ih hl'

end Heap.Lending

/-- The place is one of the words of the slots. -/
def Pointer.InSlots (p : Pointer) (slots : List FrameSlot) : Prop :=
  ∃ slot ∈ slots, p.Among slot.place 2

namespace Machine

/-- What the host does to a slot: the object there is dropped, and what is taken instead is kept
there. -/
inductive Refills (m : Machine) (slot : FrameSlot) : Machine → Prop where
  | mk {e e' : Engine} {new : Option Handle} {k : Heap}
      (hdrop : e = ((m.handleAt? slot.place).map fun r => (slot.drop r).run m.engine).getD m.engine)
      (htake : e.heap.Takes new k) (hslots : e'.heap.slots = k.slots) (hfree : e'.heap.free = k.free) :
      Refills m slot (setWords { m with engine := e' } slot.place (Handle.optBits new))

/-- A machine that was `m0` before slots were filled. The objects in the slots are those that are
lent. -/
structure Lends (m0 m : Machine) (slots : List FrameSlot) : Prop where
  posture : m.posture = m0.posture
  words : m0.ctx.stack.Alters (·.InSlots slots) m.ctx.stack
  there : ∀ slot ∈ slots, ∃ v, m.ctx.stack.read64? slot.place = some v
  heap : ∃ copies, m0.engine.heap.Lending m.engine.heap
    (slots.filterMap fun slot => m.handleAt? slot.place) copies [] []

variable {m0 m m' : Machine} {slots : List FrameSlot} {slot : FrameSlot}

theorem lends_refl (hs : m.engine.heap.Sturdy)
    (hzero : ∀ slot ∈ slots, m.ctx.stack.read64? slot.place = some 0) : m.Lends m slots where
  posture := rfl
  words := .refl _ _
  there slot hslot := ⟨0, hzero slot hslot⟩
  heap := by
    have hnone : (slots.filterMap fun slot => m.handleAt? slot.place) = [] :=
      List.filterMap_eq_nil_iff.mpr fun slot hslot => by rw [handleAt?, hzero slot hslot]; rfl
    rw [hnone]
    exact ⟨[], Heap.lending_refl hs⟩

theorem others_apart (hapart : slots.Pairwise FrameSlot.Apart) (hslot : slot ∈ slots) :
    ∃ others, slots.Perm (slot :: others) ∧ ∀ other ∈ others, slot.place.Apart other.place := by
  obtain ⟨before, later, rfl⟩ := List.append_of_mem hslot
  refine ⟨before ++ later, List.perm_middle, fun other hother => ?_⟩
  obtain ⟨-, hlater, hbef⟩ := List.pairwise_append.mp hapart
  obtain hother | hother := List.mem_append.mp hother
  · exact (hbef other hother slot List.mem_cons_self).symm
  · exact (List.pairwise_cons.mp hlater).1 other hother

theorem perm_filterMap {α β : Type} {l others : List α} {a : α} (h : l.Perm (a :: others))
    (g : α → Option β) : (l.filterMap g).Perm ((g a).toList ++ others.filterMap g) := by
  refine (h.filterMap g).trans ?_
  rw [List.filterMap_cons]
  cases g a <;> exact .refl _

theorem Lends.refill (hs : m0.engine.heap.Sturdy) (hl : m0.Lends m slots)
    (hapart : slots.Pairwise FrameSlot.Apart) (hslot : slot ∈ slots) (hr : m.Refills slot m')
    (hsize : m'.engine.heap.slots.size < 4294967296) : m0.Lends m' slots := by
  obtain ⟨v, hv⟩ := hl.there slot hslot
  obtain ⟨q, hq, -⟩ := Stack.read64?_eq_some hv
  obtain ⟨copies, hheap⟩ := hl.heap
  obtain ⟨others, hperm, hoth⟩ := others_apart hapart hslot
  cases hr with
  | mk hdrop htake hslots hfree =>
    rename_i e e' new k
    have hset : setWords { m with engine := e' } slot.place (Handle.optBits new) =
        { m with
          engine := e'
          ctx := { m.ctx with stack := m.ctx.stack.set64 slot.place (Handle.optBits new) } } :=
      if_pos (Stack.contains64_of_read64? hv)
    rw [hset] at hsize ⊢
    have hself := m.ctx.stack.read64?_set64_self hv (Handle.optBits new)
    have hrest : ∀ other ∈ others,
        (m.ctx.stack.set64 slot.place (Handle.optBits new)).read64? other.place =
          m.ctx.stack.read64? other.place :=
      fun other hother => m.ctx.stack.read64?_set64_apart hq _ (hoth other hother)
    -- first what was in the slot goes, then what is taken comes in its place
    have hdropped : ∃ copies', m0.engine.heap.Lending e.heap
        (others.filterMap fun other => m.handleAt? other.place) copies' [] [] := by
      have hheap := hheap.perm (perm_filterMap hperm _)
      rw [hdrop]
      cases hold : m.handleAt? slot.place with
      | none =>
        rw [hold] at hheap
        exact ⟨copies, hheap⟩
      | some r =>
        rw [hold] at hheap
        exact hheap.drop hs slot
    obtain ⟨copies', hdropped⟩ := hdropped
    obtain ⟨copies'', htaken⟩ := hdropped.takes hs htake (hslots ▸ hsize)
    have hback : Handle.ofBits? (Handle.optBits new) = new := by
      cases new with
      | none => rfl
      | some r =>
        obtain ⟨a, ha⟩ := Heap.isLive_iff.mp (htaken.lent r List.mem_cons_self)
        exact Handle.ofBits?_bits r (htaken.tidy.index_lt ha)
    refine ⟨hl.posture, hl.words.trans ?_, fun other hother => ?_, copies'', ?_⟩
    · exact (m.ctx.stack.alters_set64 hq _).weaken fun p hp => ⟨slot, hslot, hp⟩
    · obtain ⟨u, hu⟩ := hl.there other hother
      obtain rfl | hother := List.mem_cons.mp (hperm.mem_iff.mp hother)
      · exact ⟨_, hself⟩
      · exact ⟨u, (hrest other hother).trans hu⟩
    · have hnew : (m.ctx.stack.set64 slot.place (Handle.optBits new)).handle? slot.place = new := by
        rw [Stack.handle?, hself, Option.bind_some, hback]
      have hkept : (others.filterMap fun other =>
            (m.ctx.stack.set64 slot.place (Handle.optBits new)).handle? other.place) =
          others.filterMap fun other => m.handleAt? other.place :=
        List.filterMap_congr fun other hother =>
          congrArg (·.bind Handle.ofBits?) (hrest other hother)
      have hheld := perm_filterMap hperm fun other =>
        (m.ctx.stack.set64 slot.place (Handle.optBits new)).handle? other.place
      rw [hnew, hkept] at hheld
      exact (htaken.of_slots hslots hfree).perm hheld.symm

end Machine

namespace Exec

variable {m : Machine} {f : Func}

instance decidableSettled {ε α : Type} :
    (r : EStateM.Result (Stop ε) Machine α) → Decidable (Settled r)
  | .ok _ _ | .error (.cause _) _ => .isTrue trivial
  | .error .overflow _ | .error .outOfFuel _ => .isFalse id

/-- The step takes something for a slot. -/
def Obtains (m : Machine) (x : Exec RequestError (Option Handle)) : Prop :=
  ∃ (new : Option Handle) (e : Engine) (k : Heap), x m = .ok new { m with engine := e } ∧
    m.engine.heap.Takes new k ∧
    e.heap.slots = k.slots ∧ e.heap.free = k.free

theorem settled_of_bind {ε α β : Type} {x : Exec ε α} {k : α → Exec ε β}
    (h : Settled ((x >>= k) m)) : Settled (x m) := by
  cases hx : x m with
  | ok a m' => trivial
  | error stop m' =>
    rw [bind_of_error hx] at h
    cases stop <;> exact h

theorem bind_ensure {ε α : Type} {b : Bool} {x : Exec ε α}
    (h : Settled ((ensure b >>= fun _ => x) m)) : (ensure b >>= fun _ => x) m = x m := by
  cases b with
  | true => rfl
  | false => cases h

theorem obtains_null : Obtains m (pure none) := ⟨none, m.engine, m.engine.heap, rfl, .null, rfl, rfl⟩

theorem obtains_addRef {r : Handle} (h : Settled ((addRef r : Exec RequestError Bool) m)) :
    Obtains m (do pure (if ← addRef r then some r else none)) := by
  have hadd : (addRef r : Exec RequestError Bool) m =
      .ok (m.engine.onHeap fun heap => heap.addRef r).1
        { m with engine := (m.engine.onHeap fun heap => heap.addRef r).2 } := by
    rw [addRef, bind_of_ok (onHeap_eq _ m)] at h ⊢
    exact bind_ensure h
  obtain ⟨hslots, hfree⟩ := m.engine.slots_onHeap fun heap => heap.addRef r
  refine ⟨_, _, (m.engine.heap.addRef r).2, bind_of_ok hadd, ?_, hslots, hfree⟩
  rw [Engine.value_onHeap]
  cases hr : m.engine.heap.get? r with
  | none =>
    have hsame : m.engine.heap.addRef r = (false, m.engine.heap) := by rw [Heap.addRef, hr]
    rw [hsame]
    exact .null
  | some o =>
    have hok : (m.engine.heap.addRef r).1 = true := by rw [Heap.addRef, hr]
    rw [hok]
    exact .share hr

theorem obtains_copyObject {r : Handle}
    (h : Settled ((copyObject r : Exec RequestError (Option Handle)) m)) :
    Obtains m (copyObject r) := by
  cases hr : m.engine.heap.get? r with
  | none =>
    refine ⟨none, m.engine, m.engine.heap, ?_, .null, rfl, rfl⟩
    rw [copyObject, bind_of_ok (x := engine) rfl, hr]
    rfl
  | some o =>
    obtain ⟨hslots, hfree⟩ := m.engine.slots_onHeap fun heap => heap.duplicate r
    refine ⟨(m.engine.onHeap fun heap => heap.duplicate r).1, _, (m.engine.heap.duplicate r).2, ?_,
      ?_, hslots, hfree⟩
    · rw [copyObject, bind_of_ok (x := engine) rfl, hr] at h ⊢
      dsimp only at h ⊢
      rw [bind_of_ok (x := engine) rfl] at h ⊢
      have hroom := bind_ensure h
      rw [hroom, bind_of_ok (onHeap_eq _ m)] at h ⊢
      exact bind_ensure h
    · rw [Engine.value_onHeap]
      exact .copy hr

theorem obtains_ownedArg (type : DataType) (object : Option Handle)
    (h : Settled (ownedArg type object m)) : Obtains m (ownedArg type object) := by
  cases object with
  | none => exact obtains_null
  | some r =>
    unfold ownedArg at h ⊢
    by_cases hhdl : type.handle = true
    · simp only [hhdl, if_true] at h ⊢
      exact obtains_addRef (settled_of_bind h)
    · simp only [hhdl] at h ⊢
      exact obtains_copyObject h

theorem refills_fill (slot : FrameSlot) {old : Option Handle} {x : Exec RequestError (Option Handle)}
    (hold : m.handleAt? slot.place = old)
    (hx : Obtains { m with engine := (old.map fun r => (slot.drop r).run m.engine).getD m.engine } x) :
    m.Refills slot (left ((do setStack64 slot.place (Handle.optBits (← x)) : Exec RequestError Unit)
      { m with engine := (old.map fun r => (slot.drop r).run m.engine).getD m.engine })) := by
  obtain ⟨new, e, k, hx, htake, hslots, hfree⟩ := hx
  rw [bind_of_ok hx]
  exact .mk (by rw [hold]) htake hslots hfree

theorem argSlot_ok {index : Nat} {place : Pointer × DataType} {m' : Machine}
    (hent : m.ctx.entry = some f) (h : argSlot index m = .ok place m')
    (howned : place.2.isOwned = true) :
    .owned place.1 ∈ f.ownedSlots m.ctx.fp := by
  rw [argSlot_eq hent, argPlace] at h
  split at h
  · cases h
  obtain ⟨type, m1, hfd, hrest⟩ := bind_ok h
  obtain ⟨htype, rfl⟩ := orFail_ok hfd
  obtain ⟨_, m2, hsum, hpure⟩ := bind_ok hrest
  obtain ⟨hword, rfl⟩ := wordOrStop_ok hsum
  cases hpure
  rw [List.getElem?_map] at htype
  obtain ⟨p, hp, rfl⟩ := Option.map_eq_some_iff.mp htype
  refine List.mem_append_right _ (Func.mem_argSlots_iff.mpr ⟨index, p, _, hp, howned, ?_, rfl⟩)
  rw [← List.map_take, total_map] at hword ⊢
  refine Pointer.shift?_eq_some_iff.mpr ⟨rfl, ?_⟩
  dsimp only
  rw [UInt32.toNat_add]
  simp only [Nat.toUInt32_eq, UInt32.toNat_ofNat']
  omega

theorem setArgObject_cases {index : Nat} {object : Option Handle} (hent : m.ctx.entry = some f)
    (h : Settled (setArgObject index object m)) : (setArgObject index object).after m = m ∨
      ∃ slot ∈ f.ownedSlots m.ctx.fp, m.Refills slot ((setArgObject index object).after m) := by
  have hlook : Keeps (fun m => m) (argSlot index) := keeps_argSlot index
  cases hpl : argSlot index m with
  | error stop m' =>
    have hsame := hlook.view_after m
    rw [after_of_error hpl] at hsame
    exact .inl ((after_of_error (bind_of_error hpl _)).trans hsame)
  | ok place m' =>
    have hsame : m' = m := hlook.of_ok hpl
    subst hsame
    have hmem := argSlot_ok hent hpl
    rw [after, setArgObject, bind_of_ok hpl] at *
    obtain ⟨p, type⟩ := place
    dsimp only at h hmem ⊢
    by_cases howned : type.isOwned = true
    · refine .inr ⟨.owned p, hmem howned, ?_⟩
      simp only [howned, Bool.not_true, Bool.false_eq_true, if_false] at h ⊢
      rw [bind_of_ok (x := get) rfl] at h ⊢
      cases hold : m'.handleAt? p with
      | none | some r =>
        rw [hold] at h
        exact refills_fill (.owned p) hold (obtains_ownedArg type object (settled_of_bind h))
    · simp only [howned, Bool.not_false, if_true] at h ⊢
      exact .inl rfl

/-- The object of a method is set as an argument is that is a handle. -/
theorem setThis_eq {type : DataType} (htype : type.handle = true) {old : Option Handle}
    (hold : m.handleAt? m.ctx.fp = old) (hst : m.ctx.state = .prepared)
    (hmeth : (m.ctx.entry.any fun f => f.owner.isSome) = true) (object : Option Handle) :
    setThis object m =
      (do setStack64 m.ctx.fp (Handle.optBits (← ownedArg type object)) : Exec RequestError Unit)
      { m with
        engine := (old.map fun r => ((FrameSlot.this m.ctx.fp).drop r).run m.engine).getD
          m.engine } := by
  rw [setThis, ctx_bind]
  simp only [hst, hmeth, ne_eq, not_true_eq_false, if_false, Bool.not_true, Bool.false_eq_true]
  rw [bind_of_ok (x := get) rfl, hold]
  cases old with
  | none =>
    cases object with
    | none => rfl
    | some h =>
      dsimp only
      rw [ownedArg, if_pos htype, bind_assoc]
      rfl
  | some r =>
    dsimp only
    rw [bind_of_ok (onHeap_eq _ m), ← Engine.changeHeap_eq_onHeap]
    cases object with
    | none => rfl
    | some h =>
      dsimp only
      rw [ownedArg, if_pos htype, bind_assoc]
      rfl

theorem setThis_cases {object : Option Handle} (hent : m.ctx.entry = some f)
    (h : Settled (setThis object m)) : (setThis object).after m = m ∨
      ∃ slot ∈ f.ownedSlots m.ctx.fp, m.Refills slot ((setThis object).after m) := by
  by_cases hready : m.ctx.state = .prepared ∧ f.owner.isSome = true
  · obtain ⟨hst, hown⟩ := hready
    refine .inr ⟨.this m.ctx.fp,
      List.mem_append_left _ (by rw [if_pos hown]; exact List.mem_singleton_self _), ?_⟩
    have htype : ({ kind := .object ⟨0⟩, handle := true } : DataType).handle = true := rfl
    have hset := setThis_eq htype rfl hst (by rw [hent]; exact hown) object
    rw [hset] at h
    rw [after, hset]
    exact refills_fill (.this m.ctx.fp) rfl (obtains_ownedArg _ object (settled_of_bind h))
  · left
    rw [after, setThis, ctx_bind]
    by_cases hst : m.ctx.state = .prepared
    · have hown : f.owner.isSome = false := by simpa [hst] using hready
      simp only [hst, hent, hown, ne_eq, not_true_eq_false, if_false, Option.any_some,
        Bool.not_false, if_true]
      rfl
    · simp only [hst, ne_eq, not_false_eq_true, if_true]
      rfl

end Exec

namespace Machine.Refills

variable {m m' : Machine} {slot : FrameSlot}

theorem posture (h : m.Refills slot m') : m'.posture = m.posture := by
  cases h with
  | mk =>
    unfold setWords
    split <;> rfl

theorem size_le (h : m.Refills slot m') : m.engine.heap.slots.size ≤ m'.engine.heap.slots.size := by
  cases h with
  | mk hdrop htake hslots hfree =>
    rename_i e e' new k
    have hdropped : e.heap.slots.size = m.engine.heap.slots.size := by
      have hrun {f : Heap → Heap} (hf : (f m.engine.heap).slots.size = m.engine.heap.slots.size) :
          (m.engine.changeHeap f).heap.slots.size = m.engine.heap.slots.size := by
        have hslots := (m.engine.slots_onHeap fun h => ((), f h)).1
        exact (congrArg Array.size hslots).trans hf
      rw [hdrop]
      cases m.handleAt? slot.place with
      | none => rfl
      | some r =>
        cases slot with
        | owned p => exact hrun (Heap.size_giveUp ..)
        | this p => exact hrun (Heap.size_release ..)
    have htaken : e.heap.slots.size ≤ k.slots.size := by
      cases htake with
      | null => exact Nat.le_refl _
      | share => exact (Heap.size_perform _ (.addRef _)).1
      | copy => exact (Heap.size_perform _ (.duplicate _)).1
    have hstored :
        (setWords { m with engine := e' } slot.place (Handle.optBits new)).engine = e' := by
      unfold setWords
      split <;> rfl
    rw [hstored, hslots]
    omega

end Machine.Refills

namespace Request

/-- It sets an object argument, or the object of a method. -/
def setsObject : Request → Bool
  | setArgObject _ _ | setThis _ => true
  | _ => false

/-- None of the requests, one after the other, stops because a count is too large. -/
def AllSettled : List Request → Machine → Prop
  | [], _ => True
  | r :: rs, m => Settled (r.perform m) ∧ AllSettled rs (r.perform.after m)

instance decidableAllSettled : (rs : List Request) → (m : Machine) → Decidable (AllSettled rs m)
  | [], _ => .isTrue trivial
  | r :: rs, m => @instDecidableAnd _ _ (decidableSettled (r.perform m))
      (decidableAllSettled rs (r.perform.after m))

variable {m0 m : Machine} {f : Func} {rs : List Request}

theorem refills_perform {r : Request} (hr : r.setsObject = true) (hent : m.ctx.entry = some f)
    (h : Settled (r.perform m)) :
    r.perform.after m = m ∨ ∃ slot ∈ f.ownedSlots m.ctx.fp, m.Refills slot (r.perform.after m) := by
  cases r with
  | setArgObject index object => exact setArgObject_cases hent h
  | setThis object => exact setThis_cases hent h
  | _ => cases hr

theorem posture_perform {r : Request} (hr : r.setsObject = true) (hent : m.ctx.entry = some f)
    (h : Settled (r.perform m)) : (r.perform.after m).posture = m.posture := by
  obtain hsame | ⟨slot, -, hrefill⟩ := refills_perform hr hent h
  · rw [hsame]
  · exact hrefill.posture

theorem entry_of_posture {m m' : Machine} (h : m'.posture = m.posture) :
    m'.ctx.entry = m.ctx.entry := by
  have hent := congrArg Context.entry h
  exact hent

theorem size_le_performAll (hrs : ∀ r ∈ rs, r.setsObject = true) (hent : m.ctx.entry = some f)
    (h : AllSettled rs m) :
    m.engine.heap.slots.size ≤ (performAll rs m).engine.heap.slots.size := by
  induction rs generalizing m with
  | nil => exact Nat.le_refl _
  | cons r rs ih =>
    have hr := hrs r List.mem_cons_self
    have hpost := posture_perform hr hent h.1
    have hrest := ih (fun r' hr' => hrs r' (List.mem_cons_of_mem _ hr'))
      ((entry_of_posture hpost).trans hent) h.2
    refine Nat.le_trans ?_ hrest
    obtain hsame | ⟨slot, -, hrefill⟩ := refills_perform hr hent h.1
    · rw [hsame]
    · exact hrefill.size_le

theorem lends_performAll (hs : m0.engine.heap.Sturdy) (hent : m0.ctx.entry = some f)
    (hl : m0.Lends m (f.ownedSlots m0.ctx.fp)) (hrs : ∀ r ∈ rs, r.setsObject = true)
    (h : AllSettled rs m) (hsize : (performAll rs m).engine.heap.slots.size < 4294967296) :
    m0.Lends (performAll rs m) (f.ownedSlots m0.ctx.fp) := by
  induction rs generalizing m with
  | nil => exact hl
  | cons r rs ih =>
    have hr := hrs r List.mem_cons_self
    have hlater : ∀ r' ∈ rs, r'.setsObject = true :=
      fun r' hr' => hrs r' (List.mem_cons_of_mem _ hr')
    have hent' := (entry_of_posture hl.posture).trans hent
    have hpost := posture_perform hr hent' h.1
    have hnext := size_le_performAll hlater ((entry_of_posture hpost).trans hent') h.2
    refine ih ?_ hlater h.2 hsize
    obtain hsame | ⟨slot, hslot, hrefill⟩ := refills_perform hr hent' h.1
    · rw [hsame]
      exact hl
    · rw [Machine.fp_of_posture hl.posture] at hslot
      exact hl.refill hs (f.pairwise_ownedSlots _) hslot hrefill (Nat.lt_of_le_of_lt hnext hsize)

end Request

/-- A function is prepared, and no slot of its frame has been filled. -/
structure Context.Unfilled (c : Context) (f : Func) : Prop extends c.Ready f where
  cleanup : c.needsCleanup = true
  slots : ∀ slot ∈ f.ownedSlots c.fp, c.stack.read64? slot.place = some 0
  vars : ∀ slot ∈ f.varSlots c.fp, c.stack.contains64 slot.place = true →
    c.stack.read? slot.place = some 0

namespace Machine

variable {m0 m : Machine} {f : Func}

theorem unfilled_settled (hm : m.ctx.stack.Layered) (hword : f.entryWords < 4294967296) :
    (m.settled f).ctx.Unfilled f := by
  have hent := holdsEntry_firstStack hm hword
  refine { m.ready_settled f with cleanup := ?_, slots := fun slot hslot => ?_,
                                  vars := fun slot hslot hthere => ?_ }
  · rw [settled_ctx]
    rfl
  · rw [settled_ctx] at hslot ⊢
    obtain ⟨i, hi, hpl⟩ := Func.shift?_of_mem_ownedSlots hslot
    obtain ⟨p, hp, hlow⟩ := hent.zero_args (i := i) (by omega)
    obtain ⟨q, hq, hhigh⟩ := hent.zero_args (i := i + 1) (by omega)
    cases hp.symm.trans hpl
    obtain ⟨hblk, hoff⟩ := Pointer.shift?_eq_some_iff.mp hp
    obtain ⟨hblk', hoff'⟩ := Pointer.shift?_eq_some_iff.mp hq
    exact read64?_zero_iff.mpr ⟨hlow, q,
      Pointer.shift?_eq_some_iff.mpr ⟨hblk'.trans hblk.symm, by omega⟩, hhigh⟩
  · rw [settled_ctx] at hslot hthere ⊢
    obtain ⟨v, hv, hpl⟩ := List.mem_filterMap.mp hslot
    obtain ⟨p, hp, rfl⟩ := Option.map_eq_some_iff.mp hpl
    rw [Stack.contains64_of_layout (Stack.layout_clearVars ..)] at hthere
    exact Stack.cleared_clearVars hv hp hthere ⟨rfl, Nat.le_refl _,
      Nat.lt_add_of_pos_right (by decide)⟩

/-- The first word of an object variable is none of the words of arguments, so no variable holds an
object. -/
theorem Lends.vars_none (h : m0.ctx.Unfilled f) (hl : m0.Lends m (f.ownedSlots m0.ctx.fp))
    (hvars : ∀ v ∈ f.objectVars, 1 ≤ v.offset.toInt) {slot : FrameSlot}
    (hslot : slot ∈ f.varSlots m0.ctx.fp) : m.handleAt? slot.place = none := by
  cases hread : m.ctx.stack.read64? slot.place with
  | none => rw [handleAt?, hread]; rfl
  | some w =>
    have hthere := Stack.contains64_of_read64? hread
    rw [Stack.contains64_of_layout hl.words.layout] at hthere
    have hlow : m.ctx.stack.read? slot.place = some 0 := by
      rw [hl.words.words slot.place ?_]
      · exact h.vars slot hslot hthere
      · rintro ⟨arg, harg, hamong⟩
        obtain ⟨v, hv, hpl⟩ := List.mem_filterMap.mp hslot
        obtain ⟨p, hp, rfl⟩ := Option.map_eq_some_iff.mp hpl
        obtain ⟨i, -, hi⟩ := Func.shift?_of_mem_ownedSlots harg
        obtain ⟨-, hbelow⟩ := Pointer.shift?_eq_some_iff.mp hp
        obtain ⟨-, habove⟩ := Pointer.shift?_eq_some_iff.mp hi
        have hplaces : arg.place.offset.toNat ≤ p.offset.toNat := hamong.first
        have hpositive := hvars v hv
        omega
    obtain ⟨q, hq, -, hi, hhi⟩ := Stack.read64?_eq_some hread
    have hjoin : m.ctx.stack.read64? slot.place = some (joinWords 0 hi) := by
      simp only [Stack.read64?, hlow, hq, hhi, Option.bind_eq_bind, Option.bind_some]
      rfl
    have hzero : lowWord (joinWords 0 hi) = 0 := by
      apply UInt32.toNat_inj.mp
      rw [lowWord_toNat, joinWords_toNat]
      simp
    rw [handleAt?, hjoin, Option.bind_some, Handle.ofBits?, if_pos hzero]

theorem Lends.unprepare (hs : m0.engine.heap.Sturdy) (h : m0.ctx.Unfilled f)
    (hkeeps : f.keepsArgs = false) (hvars : ∀ v ∈ f.objectVars, 1 ≤ v.offset.toInt)
    (hl : m0.Lends m (f.ownedSlots m0.ctx.fp)) :
    ∃ m', Exec.unprepare m = .ok () m' ∧ ∀ r, m'.engine.heap.get? r = m0.engine.heap.get? r := by
  have hst : m.ctx.state = .prepared := (congrArg Context.state hl.posture).trans h.state
  have hfn : m.ctx.function = some f := (congrArg Context.function hl.posture).trans h.function
  have hcl : m.ctx.calls.frames = [] := (congrArg (fun c => c.calls.frames) hl.posture).trans h.calls
  have hobj : m.ctx.objectRegister = none :=
    (congrArg Context.objectRegister hl.posture).trans h.object
  have hclup : m.ctx.needsCleanup = true :=
    (congrArg Context.needsCleanup hl.posture).trans h.cleanup
  have hfp := fp_of_posture hl.posture
  have hfr : m.cleanFrame = (f.ownedSlots m0.ctx.fp).foldl cleanSlot m := by
    rw [cleanFrame_eq, hfn, Option.toList_some, List.flatMap_singleton, hfp,
      Func.frameSlots_eq hkeeps, List.foldl_append,
      foldl_cleanSlot_of_none fun slot hslot => hl.vars_none h hvars hslot]
  obtain ⟨copies, hheap⟩ := hl.heap
  obtain ⟨modules, heng⟩ := (m.cleans_foldl (f.pairwise_ownedSlots m0.ctx.fp)).engine
  obtain ⟨copies', hback⟩ := hheap.ops hs
  have hclean : m.cleanStack.engine = m.cleanFrame.engine := by
    rw [cleanStack, hcl]
    rfl
  obtain ⟨modules', hleft⟩ := m.cleanStack.dropObject.engine_setModule none
  have hrun : m.releaseRun.engine.heap = m.cleanFrame.engine.heap := by
    rw [releaseRun, if_pos hclup, hleft, engine_dropObject, objectRegister_cleanStack, hobj, hclean]
    rfl
  obtain ⟨m', hdone, hsame⟩ := unprepare_idle (.inl hst)
  refine ⟨m', hdone, fun r => ?_⟩
  rw [hsame, hrun, hfr, heng]
  exact hback.restored r

end Machine

namespace Workspace

/-- Objects that the host sets for a prepared function, and takes back by ending the preparation.
Whichever calls there are, and in whatever order, afterwards every object has the count and the
fields that it had, and there is no other one. -/
theorem object_arguments_balance {w : Workspace} (h : w.Evolved) {number : Nat} {f : Func}
    {s : Scope} (hcheck : s.check f = .ok ()) (hkind : f.kind = .script)
    (hkeeps : f.keepsArgs = false) {m : Machine}
    (hprepared : prepareFunction f (w.machine number) = .ok () m) (hsturdy : m.engine.heap.Sturdy)
    {calls : List Request} (hcalls : ∀ r ∈ calls, r.setsObject = true)
    (hsettled : Request.AllSettled calls m)
    (hsize : (Request.performAll calls m).engine.heap.slots.size < 4294967296) :
    ∃ m', unprepare (Request.performAll calls m) = .ok () m' ∧
      ∀ r, m'.engine.heap.get? r = m.engine.heap.get? r := by
  have hseated := (h.proper.context number).toSeated
  obtain ⟨hword, rfl⟩ :=
    prepareFunction_ok (m := w.machine number) hseated (by simp [hkind]) hprepared
  have hunfilled := Machine.unfilled_settled (layered_vacated (m := w.machine number) hseated) hword
  have hvars : ∀ v ∈ f.objectVars, 1 ≤ v.offset.toInt := by
    intro v hv
    obtain ⟨-, hlocals, -⟩ := Scope.checkFunc_script (Scope.checkFunc_of_check hcheck) hkind
    have hlocal := List.find?_eq_none.mp hlocals v hv
    exact (Func.isLocal_bounds (by simpa using hlocal)).1
  have hlends := Request.lends_performAll hsturdy hunfilled.entry
    (Machine.lends_refl hsturdy hunfilled.slots) hcalls hsettled hsize
  exact hlends.unprepare hsturdy hunfilled hkeeps hvars

def crate : ObjectType :=
  { name := "Crate", refCounted := true, fieldWords := 2, handleFields := [0] }

/-- The second crate holds the first one. -/
def packed : Heap :=
  Heap.uses [.alloc crate, .alloc crate, .addRef ⟨0, 0⟩, .setWords ⟨1, 0⟩ 0 [1, 0]]

theorem packed_sturdy : packed.Sturdy := by
  have hall : ∀ slot ∈ packed.slots, ∀ o ∈ slot.object,
      1 ≤ o.refs ∧ o.type.refCounted = true ∧ ∀ q ∈ o.children, packed.isLive q = true := by
        decide +kernel
  have hobj {r : Handle} {o : Object} (hr : packed.get? r = some o) :
      1 ≤ o.refs ∧ o.type.refCounted = true ∧ ∀ q ∈ o.children, packed.isLive q = true := by
    obtain ⟨slot, hslot, -, ho⟩ := Heap.get?_eq_some_iff.mp hr
    exact hall slot (Array.mem_of_getElem? hslot) o ho
  exact
    { tidy := (Heap.sound_empty.run (by decide +kernel)).1.tidy
      refs_pos := fun r o hr => (hobj hr).1
      counted := fun r o hr => (hobj hr).2.1
      closed := fun r o hr => (hobj hr).2.2 }

/-- A method with a crate by value, a handle and a number. The second word of its object variable is
the first of its arguments. -/
def ship : Func :=
  let type : DataType := { kind := .object ⟨1⟩ }
  { name := "ship", owner := some ⟨1⟩, locals := 1, stackNeeded := 1, objectVars := [⟨1, ⟨1⟩⟩],
    code := #[.ret 7]
    signature :=
      { params := [{ type }, { type := { type with handle := true } }, { type := .int }] } }

def dock : Workspace :=
  { engine := (Engine.onHeap { config := { initialStack := 16 } } fun _ => ((), packed)).2 }

theorem dock_reachable : dock.Reachable :=
  (Reachable.new { initialStack := 16 }).step (.engine (.onHeap fun _ => ((), packed)))

def loading : Machine := (prepareFunction ship).after (dock.machine 1)

/-- Two copies of the second crate are made, the first of which is passed on as a handle before the
second takes its place. The object of the method is replaced by a stale one for a while, and two
calls are refused. -/
def cargo : List Request :=
  [.setThis (some ⟨0, 0⟩), .setArgObject 0 (some ⟨1, 0⟩), .setArgObject 1 (some ⟨2, 0⟩),
    .setArgObject 0 (some ⟨1, 0⟩),
    .setThis (some ⟨9, 0⟩), .setArgObject 2 (some ⟨1, 0⟩), .setArgObject 9 none,
      .setThis (some ⟨0, 0⟩)]

theorem object_arguments_balance_cargo :
    (loading.engine.heap.get? ⟨0, 0⟩).map Object.refs = some 2 ∧
      ((Request.performAll cargo loading).engine.heap.get? ⟨0, 0⟩).map Object.refs = some 5 ∧
      (Request.performAll cargo loading).engine.heap.liveCount = 4 ∧
      ∃ m', unprepare (Request.performAll cargo loading) = .ok () m' ∧
        ∀ r, m'.engine.heap.get? r = loading.engine.heap.get? r := by
  have hprepared : prepareFunction ship (dock.machine 1) = .ok () loading :=
    ok_of_value (by decide +kernel)
  have hheap : loading.engine.heap = packed := by decide +kernel
  have hsettled : Request.AllSettled cargo loading := by decide +kernel
  refine ⟨by decide +kernel, by decide +kernel, by decide +kernel, ?_⟩
  exact object_arguments_balance dock_reachable.evolved (s := emptyScope) rfl rfl rfl hprepared
    (hheap ▸ packed_sturdy)
    (by decide +kernel) hsettled (by decide +kernel)

end Workspace

end ScriptVm
