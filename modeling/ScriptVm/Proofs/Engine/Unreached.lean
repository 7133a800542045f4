import ScriptVm.Proofs.Engine.Growth
import Mathlib.Logic.Function.Iterate
import Mathlib.Logic.Relation

namespace ScriptVm.Engine

variable {e : Engine} {id k root : ModuleId} {set : List ModuleId}

/-- An import of the first module is bound to a function of the second. -/
def Imports (e : Engine) (k id : ModuleId) : Prop := ∃ slot ∈ e.importsOf k, e.bindsTo id slot = true

/-- What stays, whether it is imported or not: modules in use, modules that contexts hold, and what
is left of destroyed modules that were bound again. -/
inductive Root (e : Engine) (id : ModuleId) : Prop where
  | live (h : id ∈ e.live)
  | held (h : id ∈ e.discarded) (hrefs : e.contextRefs id ≠ 0)
  | bound (h : id ∉ e.present) {slot : ImportSlot} (hslot : slot ∈ e.importsOf id)
      (hbound : slot.bound ≠ none)

/-- A module stays or is imported, directly or not, by one that does. -/
def Reached (e : Engine) (id : ModuleId) : Prop :=
  ∃ root, e.Root root ∧ Relation.ReflTransGen e.Imports root id

/-- The discarded modules that no context holds. -/
def candidates (e : Engine) : List ModuleId :=
  e.discarded.filter fun id => (e.built? id).any fun m => m.contextRefs == 0

/-- One round of the search for a set that is referred to only from within. -/
def sift (e : Engine) (set : List ModuleId) : List ModuleId := set.filter (e.isClosedIn set)

theorem Root.reached (h : e.Root id) : e.Reached id := ⟨id, h, .refl⟩

theorem Reached.import (hk : e.Reached k) (himps : e.Imports k id) : e.Reached id := by
  obtain ⟨root, hroot, hpath⟩ := hk
  exact ⟨root, hroot, hpath.tail himps⟩

theorem Filed.mem_candidates (h : e.Filed) :
    id ∈ e.candidates ↔ id ∈ e.discarded ∧ e.contextRefs id = 0 := by
  rw [candidates, List.mem_filter]
  refine and_congr_right fun hid => ?_
  obtain ⟨m, hm⟩ := h.present_built id (List.mem_append_right _ hid)
  simp [contextRefs, hm]

theorem sift_closedPart (e : Engine) (set : List ModuleId) :
    e.sift (e.closedPart set) = e.closedPart set :=
  List.filter_eq_self.mpr (closedPart_closed e set)

/-- The search is over after at most as many rounds as there are modules in the set. -/
theorem closedPart_eq_iterate (e : Engine) (set : List ModuleId) :
    ∃ n ≤ set.length, e.closedPart set = e.sift^[n] set := by
  induction set using WellFounded.induction (measure List.length).wf with
  | _ set ih =>
    rw [closedPart]
    split
    · rename_i hlt
      obtain ⟨n, hn, heq⟩ := ih (e.sift set) hlt
      exact ⟨n + 1, Nat.lt_of_le_of_lt hn hlt, heq⟩
    · exact ⟨0, Nat.zero_le _, rfl⟩

theorem isClosedIn_mono {part : List ModuleId} (hpart : part.Nodup) (hsub : part ⊆ set)
    (h : e.isClosedIn part id = true) : e.isClosedIn set id = true := by
  obtain ⟨m, hm, hle⟩ := (Option.any_eq_true _ _).mp h
  refine (Option.any_eq_true _ _).mpr ⟨m, hm,
    decide_eq_true (Nat.le_trans (of_decide_eq_true hle) ?_)⟩
  rw [refsFrom_eq, refsFrom_eq]
  exact total_le_of_subset _ hpart hsub

theorem subset_closedPart {part : List ModuleId} (hpart : part.Nodup)
    (hclsd : ∀ id ∈ part, e.isClosedIn part id = true)
    (hsub : part ⊆ set) : part ⊆ e.closedPart set := by
  induction set using WellFounded.induction (measure List.length).wf with
  | _ set ih =>
    rw [closedPart]
    split
    · rename_i hlt
      refine ih _ hlt fun id hid => ?_
      exact List.mem_filter.mpr ⟨hsub hid, isClosedIn_mono hpart hsub (hclsd id hid)⟩
    · exact hsub

theorem ids_nodup (h : e.modules.size < 4294967296) : e.ids.Nodup := by
  refine List.Nodup.map_on (fun i hi j hj heq => ?_) List.nodup_range
  have hi := List.mem_range.mp hi
  have hj := List.mem_range.mp hj
  have hval := congrArg (fun id : ModuleId => id.val.toNat) heq
  simp at hval
  omega

theorem total_filter_pos {α : Type} (count : α → Nat) (l : List α) :
    total count (l.filter fun a => 0 < count a) = total count l := by
  induction l with
  | nil => rfl
  | cons a l ih =>
    by_cases hpos : 0 < count a
    · rw [List.filter_cons_of_pos (by simpa using hpos), total_cons, total_cons, ih]
    · rw [List.filter_cons_of_neg (by simpa using hpos), total_cons, ih]
      omega

theorem bindingsTo_le_refsFrom (h : e.modules.size < 4294967296)
    (hset : ∀ k, e.Imports k id → k ∈ set) : e.bindingsTo id ≤ e.refsFrom set id := by
  have hcnt : e.bindingsTo id = total (fun k => (e.importsOf k).countP (e.bindsTo id)) e.ids := by
    rw [bindingsTo, slots_eq h, countP_flatMap_eq_total]
    simp only [Array.countP_toList]
  rw [hcnt, refsFrom_eq, ← total_filter_pos]
  refine total_le_of_subset _ ((ids_nodup h).filter _) fun k hk => hset k ?_
  have hpos := (List.mem_filter.mp hk).2
  exact Array.countP_pos_iff.mp (of_decide_eq_true hpos)

theorem Linked.isClosedIn (h : e.Linked) (hfits : e.Fits) (hid : id ∈ e.present)
    (hset : ∀ k, e.Imports k id → k ∈ set) : e.isClosedIn set id = true := by
  obtain ⟨m, hm⟩ := h.present_built id hid
  refine (Option.any_eq_true _ _).mpr ⟨m, hm, decide_eq_true ?_⟩
  have hrefs := h.counted id
  simp only [moduleRefs, hm, Option.map_some, Option.getD_some] at hrefs
  rw [hrefs]
  exact Nat.le_trans (Nat.mod_le _ _) (bindingsTo_le_refsFrom hfits.modules hset)

/-- What imports a module that is not reached is itself discarded, held by no context and not
reached. -/
theorem Linked.unreached_importer (h : e.Linked) (hid : ¬ e.Reached id) (himps : e.Imports k id) :
    k ∈ e.candidates ∧ ¬ e.Reached k := by
  have hk : ¬ e.Reached k := fun hk => hid (hk.import himps)
  refine ⟨h.toFiled.mem_candidates.mpr ?_, hk⟩
  have hdisc : k ∈ e.discarded := by
    by_contra hnot
    obtain ⟨slot, hslot, hbinds⟩ := himps
    by_cases hlive : k ∈ e.live
    · exact hk (Root.live hlive).reached
    · refine hk (Root.bound (fun hpres => ?_) hslot fun hnone => ?_).reached
      · exact (List.mem_append.mp hpres).elim hlive hnot
      · rw [bindsTo_unbound e slot hnone] at hbinds
        cases hbinds
  refine ⟨hdisc, ?_⟩
  by_contra hrefs
  exact hk (Root.held hdisc hrefs).reached

theorem Filed.root_not_candidate (h : e.Filed) (hroot : e.Root root) : root ∉ e.candidates := by
  intro hcandidate
  obtain ⟨hdisc, hrefs⟩ := h.mem_candidates.mp hcandidate
  cases hroot with
  | live hlive => exact (List.nodup_append.mp h.present_once).2.2 root hlive root hdisc rfl
  | held _ hheld => exact hheld hrefs
  | bound hpres => exact hpres (List.mem_append_right _ hdisc)

theorem Linked.root_stays (h : e.Linked) (hroot : e.Root root) : root ∉ e.doomed :=
  fun hdoomed =>
    h.toFiled.root_not_candidate hroot ((closedPart_sublist e e.candidates).subset hdoomed)

theorem Linked.import_stays (h : e.Linked) (hfits : e.Fits) (hk : k ∉ e.doomed)
    (himps : e.Imports k id) : id ∉ e.doomed := by
  obtain ⟨slot, hslot, hbinds⟩ := himps
  exact fun hid => hk (h.doomed_closed hfits hid hslot hbinds)

theorem Linked.path_stays (h : e.Linked) (hfits : e.Fits) (hroot : e.Root root)
    (hpath : Relation.ReflTransGen e.Imports root id) : id ∉ e.doomed := by
  induction hpath with
  | refl => exact h.root_stays hroot
  | tail _ himps ih => exact h.import_stays hfits ih himps

theorem Linked.mem_doomed_iff (h : e.Linked) (hfits : e.Fits) :
    id ∈ e.doomed ↔ id ∈ e.discarded ∧ e.contextRefs id = 0 ∧ ¬ e.Reached id := by
  constructor
  · intro hid
    obtain ⟨hdisc, hrefs⟩ :=
      h.toFiled.mem_candidates.mp ((closedPart_sublist e e.candidates).subset hid)
    exact ⟨hdisc, hrefs, fun ⟨root, hroot, hpath⟩ => h.path_stays hfits hroot hpath hid⟩
  · rintro ⟨hdisc, hrefs, hid⟩
    classical
    -- The candidates that are not reached are referred to only from within.
    let unreached := e.candidates.filter fun k => ¬ e.Reached k
    have hmem {k : ModuleId} : k ∈ unreached ↔ k ∈ e.candidates ∧ ¬ e.Reached k := by
      simp [unreached]
    have hnodup : unreached.Nodup := ((List.nodup_append.mp h.present_once).2.1.filter _).filter _
    have hclsd : ∀ k ∈ unreached, e.isClosedIn unreached k = true := by
      intro k hk
      obtain ⟨hk, hunr⟩ := hmem.mp hk
      refine h.isClosedIn hfits
        (List.mem_append_right _ (h.toFiled.mem_candidates.mp hk).1) fun k' himps => ?_
      exact hmem.mpr (h.unreached_importer hunr himps)
    refine subset_closedPart hnodup hclsd List.filter_sublist.subset ?_
    exact hmem.mpr ⟨h.toFiled.mem_candidates.mpr ⟨hdisc, hrefs⟩, hid⟩

theorem importsOf_collect (e : Engine) (hk : k ∉ e.doomed) :
    e.collect.2.importsOf k = e.importsOf k := by
  have hmap := modules_coarser Module.hollow Module.imports (fun _ => rfl) (modules_collect e)
  rw [importsOf, built?_of_map Module.imports hmap, ← importsOf, doomedUnbound,
    importsOf_unbindAll_foldl, if_neg hk]

theorem Linked.imports_collect (h : e.Linked) (hfits : e.Fits) (hk : k ∉ e.doomed)
    (himps : e.Imports k id) : e.collect.2.Imports k id := by
  have hid := h.import_stays hfits hk himps
  obtain ⟨slot, hslot, hbinds⟩ := himps
  refine ⟨slot, (importsOf_collect e hk).symm ▸ hslot, ?_⟩
  obtain ⟨f, hf, hmod⟩ := (Option.any_eq_true _ _).mp hbinds
  obtain ⟨target, htgt, hf⟩ := Option.bind_eq_some_iff.mp hf
  have hstays : e.collect.2.function? target = some f := by
    refine h.toFiled.function?_collect_iff.mpr ⟨hf, fun d hd hd' => hid ?_⟩
    rw [hd'] at hmod
    rwa [← Option.some.inj (beq_iff_eq.mp hmod)]
  rw [bindsTo_bound htgt hstays, hmod]

theorem mem_discarded_collect : id ∈ e.collect.2.discarded ↔ id ∈ e.discarded ∧ id ∉ e.doomed := by
  have hdisc : e.collect.2.discarded = _ := congrArg Prod.snd (lists_collect e)
  simp [hdisc]

theorem Linked.root_collect (h : e.Linked) (hroot : e.Root root) : e.collect.2.Root root := by
  have hdoomed := h.root_stays hroot
  cases hroot with
  | live hlive =>
    have hsame : e.collect.2.live = e.live := congrArg Prod.fst (lists_collect e)
    exact .live (hsame ▸ hlive)
  | held hdisc hrefs =>
    refine .held (mem_discarded_collect.mpr ⟨hdisc, hdoomed⟩) ?_
    rwa [(tended_collect e).refs]
  | bound hpres hslot hbnd =>
    refine .bound (fun hmem => hpres ((mem_present_collect h.toFiled).mp hmem).1) ?_ hbnd
    exact (importsOf_collect e hdoomed).symm ▸ hslot

theorem Linked.reached_collect (h : e.Linked) (hfits : e.Fits) (hid : e.Reached id) :
    e.collect.2.Reached id := by
  obtain ⟨root, hroot, hpath⟩ := hid
  induction hpath with
  | refl => exact (h.root_collect hroot).reached
  | tail hpath himps ih =>
    exact ih.import (h.imports_collect hfits (h.path_stays hfits hroot hpath) himps)

theorem Linked.doomed_collect (h : e.Linked) (hfits : e.Fits) : e.collect.2.doomed = [] := by
  refine List.eq_nil_iff_forall_not_mem.mpr fun id hid => ?_
  obtain ⟨hdisc, hrefs, hunr⟩ := ((h.collect hfits).mem_doomed_iff hfits.collect).mp hid
  obtain ⟨hdisc, hdoomed⟩ := mem_discarded_collect.mp hdisc
  refine hdoomed ((h.mem_doomed_iff hfits).mpr ⟨hdisc, ?_,
    fun hreached => hunr (h.reached_collect hfits hreached)⟩)
  rwa [(tended_collect e).refs] at hrefs

end ScriptVm.Engine
