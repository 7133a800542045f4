import ScriptVm.Proofs.Engine.Linked
import Mathlib.Data.List.Perm.Subperm

namespace ScriptVm

variable {α : Type} {xs ys : List α}

theorem total_le_of_sublist (count : α → Nat) (h : xs.Sublist ys) :
    total count xs ≤ total count ys := by
  induction h with
  | slnil => exact Nat.le_refl _
  | cons a _ ih =>
    rw [total_cons]
    omega
  | cons_cons a _ ih =>
    rw [total_cons, total_cons]
    omega

theorem total_perm (count : α → Nat) (h : xs.Perm ys) : total count xs = total count ys := by
  induction h with
  | nil => rfl
  | cons a _ ih => rw [total_cons, total_cons, ih]
  | swap a b xs =>
    simp only [total_cons]
    omega
  | trans _ _ ih1 ih2 => exact ih1.trans ih2

theorem total_le_of_subset (count : α → Nat) (hxs : xs.Nodup) (h : xs ⊆ ys) :
    total count xs ≤ total count ys := by
  obtain ⟨zs, hperm, hsub⟩ := hxs.subperm h
  rw [← total_perm count hperm]
  exact total_le_of_sublist count hsub

theorem countP_flatMap_eq_total {β : Type} (p : β → Bool) (f : α → List β) (l : List α) :
    (l.flatMap f).countP p = total (fun a => (f a).countP p) l := by
  induction l with
  | nil => rfl
  | cons a l ih => rw [List.flatMap_cons, List.countP_append, total_cons, ih]

namespace Engine

variable {e : Engine} {id : ModuleId} {m : Module} {slot : ImportSlot} {k : FunctionId} {f : Func}

def importsOf (e : Engine) (id : ModuleId) : Array ImportSlot :=
  ((e.built? id).map Module.imports).getD #[]

def functionIds (e : Engine) (id : ModuleId) : List FunctionId :=
  ((e.built? id).map fun m => m.functions.toList.map Func.id).getD []

/-- No id and no count of the engine has run out of its 32 bits. -/
structure Fits (e : Engine) : Prop where
  modules : e.modules.size < 4294967296
  functions : e.functions.size ≤ 4294967296
  slots : e.slots.length < 4294967296

def ids (e : Engine) : List ModuleId := (List.range e.modules.size).map fun i => ⟨(i + 1).toUInt32⟩

theorem built?_ids (h : e.modules.size < 4294967296) {i : Nat} (hi : i < e.modules.size) :
    e.built? ⟨(i + 1).toUInt32⟩ = e.modules[i]?.join := by
  have hval : (i + 1).toUInt32.toNat = i + 1 := Nat.mod_eq_of_lt (by omega)
  have hne : (i + 1).toUInt32 ≠ 0 := by
    intro h0
    rw [h0] at hval
    simp at hval
  simp only [built?, hne, if_false, hval, Nat.add_sub_cancel]

theorem slots_eq (h : e.modules.size < 4294967296) :
    e.slots = e.ids.flatMap fun id => (e.importsOf id).toList := by
  have hmods : e.modules.toList = (List.range e.modules.size).map fun i => e.modules[i]?.join := by
    apply List.ext_getElem?
    intro i
    by_cases hi : i < e.modules.size
    · simp [hi]
    · simp [Nat.not_lt.mp hi]
  rw [slots, hmods, ids, List.flatMap_map, List.flatMap_map]
  apply List.flatMap_congr
  intro i hi
  rw [importsOf, built?_ids h (List.mem_range.mp hi)]
  cases e.modules[i]?.join <;> rfl

theorem mem_ids (hm : e.built? id = some m) : id ∈ e.ids := by
  obtain ⟨hid, hmod⟩ := built?_eq_some.mp hm
  have hlt := (Array.getElem?_eq_some_iff.mp hmod).1
  have hpos : id.val.toNat ≠ 0 := fun h0 => hid (UInt32.toNat_inj.mp h0)
  refine List.mem_map.mpr ⟨id.val.toNat - 1, List.mem_range.mpr hlt, ?_⟩
  cases id
  simp only [ModuleId.mk.injEq]
  rw [Nat.sub_add_cancel (Nat.pos_of_ne_zero hpos)]
  simp

theorem mem_slots (h : e.modules.size < 4294967296) (hslot : slot ∈ e.slots) :
    ∃ id, slot ∈ e.importsOf id := by
  rw [slots_eq h, List.mem_flatMap] at hslot
  obtain ⟨id, -, hslot⟩ := hslot
  exact ⟨id, Array.mem_toList_iff.mp hslot⟩

theorem built?_of_mem_importsOf (h : slot ∈ e.importsOf id) : ∃ m, e.built? id = some m := by
  cases hm : e.built? id with
  | none => simp [importsOf, hm] at h
  | some m => exact ⟨m, rfl⟩

theorem total_importsOf_le (h : e.modules.size < 4294967296) (p : ImportSlot → Bool)
    {set : List ModuleId} (hset : set.Nodup) (hbuilt : ∀ id ∈ set, ∃ m, e.built? id = some m) :
    total (fun id => (e.importsOf id).countP p) set ≤ e.slots.countP p := by
  have hsub : set ⊆ e.ids := by
    intro id hid
    obtain ⟨m, hm⟩ := hbuilt id hid
    exact mem_ids hm
  rw [slots_eq h, countP_flatMap_eq_total]
  simp only [Array.countP_toList]
  exact total_le_of_subset _ hset hsub

theorem refsFrom_eq (e : Engine) (set : List ModuleId) (target : ModuleId) :
    e.refsFrom set target = total (fun id => (e.importsOf id).countP (e.bindsTo target)) set := by
  unfold refsFrom
  congr 1
  funext id
  unfold importsOf
  cases e.built? id <;> rfl

theorem closedPart_sublist (e : Engine) (set : List ModuleId) : (e.closedPart set).Sublist set := by
  induction set using WellFounded.induction (measure List.length).wf with
  | _ set ih =>
    rw [closedPart]
    split
    · rename_i hlt
      exact (ih _ hlt).trans List.filter_sublist
    · exact List.Sublist.refl _

theorem closedPart_closed (e : Engine) (set : List ModuleId) :
    ∀ id ∈ e.closedPart set, e.isClosedIn (e.closedPart set) id = true := by
  induction set using WellFounded.induction (measure List.length).wf with
  | _ set ih =>
    rw [closedPart]
    split
    · rename_i hlt
      exact ih _ hlt
    · rename_i hlt
      have hall : set.filter (e.isClosedIn set) = set := by
        apply List.filter_sublist.eq_of_length_le
        exact Nat.not_lt.mp hlt
      exact List.filter_eq_self.mp hall

theorem doomed_sublist (e : Engine) : e.doomed.Sublist e.discarded :=
  (closedPart_sublist e _).trans List.filter_sublist

theorem Linked.doomed_closed (h : e.Linked) (hfits : e.Fits) {d k : ModuleId} (hd : d ∈ e.doomed)
    (hslot : slot ∈ e.importsOf k) (hbinds : e.bindsTo d slot = true) : k ∈ e.doomed := by
  have hclsd := closedPart_closed e _ d hd
  obtain ⟨m, hm, hle⟩ := (Option.any_eq_true _ _).mp hclsd
  have hle : m.moduleRefs.toNat ≤ e.refsFrom e.doomed d := of_decide_eq_true hle
  have hcnt : m.moduleRefs.toNat = e.bindingsTo d := by
    have hrefs := h.counted d
    have hlt : e.bindingsTo d < 4294967296 := Nat.lt_of_le_of_lt List.countP_le_length hfits.slots
    simp only [moduleRefs, hm, Option.map_some, Option.getD_some] at hrefs
    rw [hrefs]
    simpa using hlt
  by_contra hk
  have hnodup : (k :: e.doomed).Nodup := by
    refine List.nodup_cons.mpr ⟨hk, (doomed_sublist e).nodup ?_⟩
    exact (List.nodup_append.mp h.present_once).2.1
  have hbuilt : ∀ id ∈ k :: e.doomed, ∃ m, e.built? id = some m := by
    intro id hid
    obtain rfl | hid := List.mem_cons.mp hid
    · exact built?_of_mem_importsOf hslot
    · exact h.present_built id (List.mem_append_right _ ((doomed_sublist e).subset hid))
  have htotal := total_importsOf_le hfits.modules (e.bindsTo d) hnodup hbuilt
  have hpos : 0 < (e.importsOf k).countP (e.bindsTo d) :=
    Array.countP_pos_iff.mpr ⟨slot, hslot, hbinds⟩
  rw [total_cons, ← refsFrom_eq, ← bindingsTo] at htotal
  omega

theorem importsOf_changeModule (e : Engine) (id : ModuleId) (f : Module → Module) (k : ModuleId)
    {g : Array ImportSlot → Array ImportSlot} (hg : ∀ m, (f m).imports = g m.imports)
    (hempty : g #[] = #[]) :
    (e.changeModule id f).importsOf k = if k = id then g (e.importsOf k) else e.importsOf k := by
  unfold importsOf
  rw [built?_changeModule]
  split
  · cases e.built? k with
    | none => exact hempty.symm
    | some m => exact hg m
  · rfl

theorem importsOf_dropBinding (e : Engine) (target : FunctionId) (k : ModuleId) :
    (e.dropBinding target).importsOf k = e.importsOf k := by
  unfold dropBinding
  split
  · rename_i id _
    have hmap := modules_changeModule Module.imports e id (f := Module.dropModuleRef) fun _ => rfl
    rw [importsOf, importsOf, built?_of_map Module.imports hmap]
  · rfl

theorem importsOf_unbind (e : Engine) (id : ModuleId) (index : Nat) (k : ModuleId) :
    (e.unbind id index).2.importsOf k =
      if k = id then (e.importsOf k).modify index ImportSlot.cleared else e.importsOf k := by
  have hset : (e.setBinding id index none).importsOf k =
      if k = id then (e.importsOf k).modify index ImportSlot.cleared else e.importsOf k :=
    importsOf_changeModule e id _ k (g := fun imports => imports.modify index ImportSlot.cleared)
      (fun _ => rfl) (by simp)
  unfold unbind
  split
  · rename_i hnone
    split
    · rename_i hk
      -- There is no such slot to change.
      subst hk
      apply Array.ext_getElem?
      intro j
      rw [Array.getElem?_modify]
      split
      · rename_i hj
        subst hj
        cases hm : e.built? k with
        | none => simp [importsOf, hm]
        | some m =>
          rw [hm] at hnone
          simp only [importsOf, hm, Option.map_some, Option.getD_some]
          rw [show m.imports[index]? = none from hnone]
          rfl
      · rfl
    · rfl
  · rename_i slot _
    cases slot.bound with
    | none => exact hset
    | some old => exact (importsOf_dropBinding _ old k).trans hset

theorem getElem?_foldl_modify {α : Type} (f : α → α) (a : Array α) (n j : Nat) :
    ((List.range n).foldl (fun b i => b.modify i f) a)[j]? = if j < n then a[j]?.map f
      else a[j]? := by
  induction n with
  | zero => rfl
  | succ n ih =>
    rw [List.range_succ, List.foldl_append, List.foldl_cons, List.foldl_nil,
      Array.getElem?_modify, ih]
    by_cases hj : n = j
    · simp [hj]
    · by_cases hlt : j < n
      · simp [hj, hlt, Nat.lt_succ_of_lt hlt]
      · have hnot : ¬ j < n + 1 := by omega
        simp [hj, hlt, hnot]

theorem importsOf_unbindAll (e : Engine) (id k : ModuleId) :
    (e.unbindAll id).importsOf k = if k = id then (e.importsOf k).map ImportSlot.cleared
      else e.importsOf k := by
  have hfold (indices : List Nat) (e : Engine) :
      (indices.foldl (fun e index => (e.unbind id index).2) e).importsOf k =
      if k = id then indices.foldl (fun b i => b.modify i ImportSlot.cleared) (e.importsOf k)
      else e.importsOf k := by
    induction indices generalizing e with
    | nil => simp
    | cons index indices ih =>
      rw [List.foldl_cons, ih, importsOf_unbind]
      split <;> rfl
  have hcnt : ((e.built? id).map fun m => m.imports.size).getD 0 = (e.importsOf id).size := by
    unfold importsOf
    cases e.built? id <;> rfl
  rw [unbindAll, hcnt, hfold]
  split
  · rename_i hk
    subst hk
    apply Array.ext_getElem?
    intro j
    rw [getElem?_foldl_modify, Array.getElem?_map]
    split
    · rfl
    · rename_i hj
      simp [Nat.not_lt.mp hj]
  · rfl

theorem importsOf_unbindAll_foldl (set : List ModuleId) (e : Engine) (k : ModuleId) :
    (set.foldl unbindAll e).importsOf k =
      if k ∈ set then (e.importsOf k).map ImportSlot.cleared else e.importsOf k := by
  induction set generalizing e with
  | nil => simp
  | cons id set ih =>
    rw [List.foldl_cons, ih, importsOf_unbindAll]
    by_cases hk : k = id
    · by_cases hset : k ∈ set
      · simp [hk, hk ▸ hset, ImportSlot.cleared, Function.comp_def]
      · simp [hk, hk ▸ hset]
    · simp [hk]

theorem getElem?_foldl_none {fs : List Func} {table : Array (Option Func)} (n : Nat) :
    (fs.foldl (fun table f => table.setIfInBounds f.id.val.toNat none) table)[n]?.join =
      if n ∈ fs.map (fun f => f.id.val.toNat) then none else table[n]?.join := by
  induction fs generalizing table with
  | nil => rfl
  | cons f fs ih =>
    have hset : (table.setIfInBounds f.id.val.toNat none)[n]?.join = if f.id.val.toNat = n then none
        else table[n]?.join := by
      rw [Array.getElem?_setIfInBounds]
      split
      · split <;> rfl
      · rfl
    rw [List.foldl_cons, ih, hset, List.map_cons]
    by_cases hn : f.id.val.toNat = n
    · simp [hn]
    · simp [hn, Ne.symm hn]

theorem mem_map_index {fs : List Func} :
    k.val.toNat ∈ fs.map (fun f => f.id.val.toNat) ↔ k ∈ fs.map Func.id := by
  constructor
  · intro h
    obtain ⟨f, hf, hk⟩ := List.mem_map.mp h
    exact List.mem_map.mpr ⟨f, hf, function_index_inj hk⟩
  · intro h
    obtain ⟨f, hf, rfl⟩ := List.mem_map.mp h
    exact List.mem_map.mpr ⟨f, hf, rfl⟩

theorem functionIds_of_directory {e' : Engine} (h : e'.directory.modules = e.directory.modules)
    (id : ModuleId) : e'.functionIds id = e.functionIds id := by
  have hmap := built?_of_map Module.core h id
  have hview (e : Engine) : e.functionIds id =
      (((e.built? id).map Module.core).map fun m => m.functions.toList.map Func.id).getD [] := by
    unfold functionIds
    cases e.built? id <;> rfl
  rw [hview, hview, hmap]

theorem destroyModule_eq (e : Engine) (id : ModuleId) :
    e.destroyModule id = { e.exitModule id with functions := (e.destroyModule id).functions } := by
  unfold destroyModule
  dsimp only
  split <;> rfl

theorem function?_destroyModule (e : Engine) (id : ModuleId) (k : FunctionId) :
    (e.destroyModule id).function? k = if k ∈ e.functionIds id then none else e.function? k := by
  have hdir := directory_of_catalog (catalog_exitModule e id)
  rw [← functionIds_of_directory (congrArg Directory.modules hdir) id, ← function?_of_directory hdir]
  unfold destroyModule functionIds
  dsimp only
  split
  · rename_i hnone
    simp [hnone]
  · rename_i m hm
    simp only [hm, Option.map_some, Option.getD_some, function?, ← Array.foldl_toList,
      getElem?_foldl_none, mem_map_index]

theorem hollow_destroyModule (e : Engine) (id : ModuleId) :
    (e.destroyModule id).hollow = { e.hollow with functions := (e.destroyModule id).functions } := by
  rw [← hollow_exitModule e id]
  exact congrArg hollow (destroyModule_eq e id)

theorem hollow_destroyAll (set : List ModuleId) (e : Engine) : (set.foldl destroyModule e).hollow =
      { e.hollow with functions := (set.foldl destroyModule e).functions } := by
  induction set generalizing e with
  | nil => rfl
  | cons id set ih => rw [List.foldl_cons, ih, hollow_destroyModule]

theorem function?_destroyAll (set : List ModuleId) (e : Engine) (k : FunctionId) :
    (set.foldl destroyModule e).function? k = if k ∈ set.flatMap e.functionIds then none
      else e.function? k := by
  induction set generalizing e with
  | nil => simp
  | cons id set ih =>
    have hids : (e.destroyModule id).functionIds = e.functionIds := by
      funext d
      rw [destroyModule_eq]
      exact functionIds_of_directory
        (congrArg Directory.modules (directory_of_catalog (catalog_exitModule e id))) d
    rw [List.foldl_cons, ih, hids, function?_destroyModule, List.flatMap_cons]
    by_cases hset : k ∈ set.flatMap e.functionIds
    · simp [hset]
    · by_cases hid : k ∈ e.functionIds id <;> simp [hset, hid]

def doomedUnbound (e : Engine) : Engine := e.doomed.foldl unbindAll e

theorem roster_doomedUnbound (e : Engine) : e.doomedUnbound.roster = e.roster :=
  List.foldlRecOn _ _ (motive := fun e' : Engine => e'.roster = e.roster) rfl fun e' h id _ =>
    (roster_unbindAll e' id).trans h

theorem Linked.doomedUnbound (h : e.Linked) : e.doomedUnbound.Linked :=
  List.foldlRecOn _ _ h fun _ he id _ => he.unbindAll id

theorem modules_collect (e : Engine) :
    (e.collect.2.modules.map fun m => m.map Module.hollow) = e.doomedUnbound.modules.map fun m =>
      m.map Module.hollow := by
  have hmods := congrArg Engine.modules (hollow_destroyAll e.doomed e.doomedUnbound)
  exact hmods

theorem function?_collect (e : Engine) (k : FunctionId) :
    e.collect.2.function? k = if k ∈ e.doomed.flatMap e.functionIds then none
      else e.function? k := by
  have hdir := directory_of_roster (roster_doomedUnbound e)
  have hids : e.doomedUnbound.functionIds = e.functionIds :=
    funext (functionIds_of_directory (congrArg Directory.modules hdir))
  have hdestroy := function?_destroyAll e.doomed e.doomedUnbound k
  rw [hids, function?_of_directory hdir] at hdestroy
  exact hdestroy

theorem lists_collect (e : Engine) : (e.collect.2.live, e.collect.2.discarded) =
      (e.live, e.discarded.filter fun id => !e.doomed.contains id) := by
  have hdest :=
    congrArg (fun e => (e.live, e.discarded)) (hollow_destroyAll e.doomed e.doomedUnbound)
  have hlists := hdest.trans (congrArg (fun e => (e.live, e.discarded)) (roster_doomedUnbound e))
  exact congrArg (fun lists => (lists.1, lists.2.filter fun id => !e.doomed.contains id)) hlists

theorem present_collect (e : Engine) :
    e.collect.2.present = e.live ++ e.discarded.filter fun id => !e.doomed.contains id :=
  congrArg (fun lists => lists.1 ++ lists.2) (lists_collect e)

theorem mem_present_collect (h : e.Filed) :
    id ∈ e.collect.2.present ↔ id ∈ e.present ∧ id ∉ e.doomed := by
  have hdisjoint : id ∈ e.live → id ∉ e.doomed := by
    intro hid hdoomed
    have hdisc := (doomed_sublist e).subset hdoomed
    exact (List.nodup_append.mp h.present_once).2.2 id hid id hdisc rfl
  rw [present_collect, present]
  simp only [List.mem_append, List.mem_filter, List.contains_eq_mem, Bool.not_eq_true',
    decide_eq_false_iff_not]
  grind

theorem Filed.mem_doomed_ids (h : e.Filed) (hf : e.function? k = some f) :
    k ∈ e.doomed.flatMap e.functionIds ↔ ∃ d ∈ e.doomed, f.module = some d := by
  have hpres {d : ModuleId} (hd : d ∈ e.doomed) : d ∈ e.present :=
    List.mem_append_right _ ((doomed_sublist e).subset hd)
  rw [List.mem_flatMap]
  constructor
  · rintro ⟨d, hd, hk⟩
    obtain ⟨m, hm⟩ := h.present_built d (hpres hd)
    simp only [functionIds, hm, Option.map_some, Option.getD_some] at hk
    obtain ⟨g, hg, rfl⟩ := List.mem_map.mp hk
    obtain ⟨hg, hmod⟩ := h.filed (hpres hd) hm (Array.mem_toList_iff.mp hg)
    rw [hf] at hg
    cases hg
    exact ⟨d, hd, hmod⟩
  · rintro ⟨d, hd, hmod⟩
    refine ⟨d, hd, ?_⟩
    obtain ⟨rfl, ⟨-, hnone⟩ | ⟨id, m, hid, -, hm, hmem⟩⟩ := h.owned hf
    · rw [hmod] at hnone
      cases hnone
    · rw [hmod] at hid
      cases hid
      simp only [functionIds, hm, Option.map_some, Option.getD_some]
      exact List.mem_map_of_mem (Array.mem_toList_iff.mpr hmem)

theorem Filed.function?_collect_iff (h : e.Filed) :
    e.collect.2.function? k = some f ↔ e.function? k = some f ∧
      ∀ d ∈ e.doomed, f.module ≠ some d := by
  rw [function?_collect]
  constructor
  · intro hk
    split at hk
    · cases hk
    · rename_i hnot
      refine ⟨hk, fun d hd hmod => hnot ?_⟩
      exact (h.mem_doomed_ids hk).mpr ⟨d, hd, hmod⟩
  · rintro ⟨hk, hmod⟩
    rw [if_neg, hk]
    intro hmem
    obtain ⟨d, hd, hd'⟩ := (h.mem_doomed_ids hk).mp hmem
    exact hmod d hd hd'

theorem built?_collect (e : Engine) (id : ModuleId) :
    (e.collect.2.built? id).map Module.core = (e.built? id).map Module.core := by
  have hcore (m : Module) : m.hollow.core = m.core := by
    simp only [Module.core, Module.hollow, Module.clearStore, Array.size_replicate]
  have hmap := modules_coarser Module.hollow Module.core hcore (modules_collect e)
  rw [built?_of_map Module.core hmap]
  exact core_of_directory (directory_of_roster (roster_doomedUnbound e)) id

theorem Filed.collect (h : e.Filed) : e.collect.2.Filed := by
  constructor
  · intro id m hm
    obtain ⟨m', hm', hcore⟩ := built?_of_core (built?_collect e id).symm hm
    rw [← Module.id_of_core hcore]
    exact h.own_id hm'
  · intro id hid
    obtain ⟨hid, -⟩ := (mem_present_collect h).mp hid
    obtain ⟨m, hm⟩ := h.present_built id hid
    obtain ⟨m', hm', -⟩ := built?_of_core (built?_collect e id) hm
    exact ⟨m', hm'⟩
  · have hsub : e.collect.2.present.Sublist e.present := by
      rw [present_collect]
      exact (List.Sublist.refl _).append List.filter_sublist
    exact hsub.nodup h.present_once
  · intro id m f hid hm hf
    obtain ⟨hid, hdoomed⟩ := (mem_present_collect h).mp hid
    obtain ⟨m', hm', hcore⟩ := built?_of_core (built?_collect e id).symm hm
    rw [← Module.functions_of_core hcore] at hf
    obtain ⟨hfd, hmod⟩ := h.filed hid hm' hf
    refine ⟨h.function?_collect_iff.mpr ⟨hfd, fun d hd hd' => ?_⟩, hmod⟩
    rw [hmod] at hd'
    cases hd'
    exact hdoomed hd
  · intro k f hf
    obtain ⟨hf, hmod⟩ := h.function?_collect_iff.mp hf
    obtain ⟨hk, hhost | ⟨id, m, hid, hpres, hm, hmem⟩⟩ := h.owned hf
    · exact ⟨hk, .inl hhost⟩
    · obtain ⟨m', hm', hcore⟩ := built?_of_core (built?_collect e id) hm
      rw [← Module.functions_of_core hcore] at hmem
      have hdoomed : id ∉ e.doomed := fun hd => hmod id hd hid
      exact ⟨hk, .inr ⟨id, m', hid, (mem_present_collect h).mpr ⟨hpres, hdoomed⟩, hm', hmem⟩⟩

theorem Linked.slot_stays (h : e.Linked) (hfits : e.Fits) (hslot : slot ∈ e.doomedUnbound.slots)
    {target : FunctionId} (htgt : slot.bound = some target) (hf : e.function? target = some f) :
    e.collect.2.function? target = some f := by
  have hsize : e.doomedUnbound.modules.size = e.modules.size := by
    have hsizes := congrArg (fun e => e.modules.size) (roster_doomedUnbound e)
    simpa [roster] using hsizes
  obtain ⟨k, hk⟩ := mem_slots (hsize ▸ hfits.modules) hslot
  rw [Engine.doomedUnbound, importsOf_unbindAll_foldl] at hk
  split at hk
  · obtain ⟨old, -, rfl⟩ := Array.mem_map.mp hk
    cases htgt
  · rename_i hdoomed
    refine h.toFiled.function?_collect_iff.mpr ⟨hf, fun d hd hmod => hdoomed ?_⟩
    refine h.doomed_closed hfits hd hk ?_
    rw [bindsTo_bound htgt hf, hmod]
    exact beq_self_eq_true _

theorem Linked.collect (h : e.Linked) (hfits : e.Fits) : e.collect.2.Linked := by
  have hunb := h.doomedUnbound
  have hfn := function?_of_directory (directory_of_roster (roster_doomedUnbound e))
  have hslots :=
    slots_of_map (modules_coarser Module.hollow Module.imports (fun _ => rfl) (modules_collect e))
  have hmap := modules_coarser Module.hollow Module.moduleRefs (fun _ => rfl) (modules_collect e)
  have hstays {slot : ImportSlot} (hslot : slot ∈ e.doomedUnbound.slots) {target : FunctionId}
      (htgt : slot.bound = some target) : ∃ f, e.doomedUnbound.function? target = some f ∧
        e.collect.2.function? target = some f ∧ f.kind = .script ∧
          f.signature = slot.declaration.signature := by
    obtain ⟨f, hf, hfits'⟩ := hunb.resolved slot hslot target htgt
    exact ⟨f, hf, h.slot_stays hfits hslot htgt (hfn target ▸ hf), hfits'⟩
  refine { h.toFiled.collect with resolved := ?_, counted := ?_ }
  · intro slot hslot target htgt
    rw [hslots] at hslot
    obtain ⟨f, -, hf⟩ := hstays hslot htgt
    exact ⟨f, hf⟩
  · intro id
    have hbinds : ∀ slot ∈ e.doomedUnbound.slots, e.collect.2.bindsTo id slot =
        e.doomedUnbound.bindsTo id slot := by
      intro slot hslot
      cases htgt : slot.bound with
      | none => rw [bindsTo_unbound _ slot htgt, bindsTo_unbound _ slot htgt]
      | some target =>
        obtain ⟨f, hbef, hafter, -⟩ := hstays hslot htgt
        rw [bindsTo_bound htgt hbef, bindsTo_bound htgt hafter]
    have hcnt : e.collect.2.bindingsTo id = e.doomedUnbound.bindingsTo id := by
      rw [bindingsTo, bindingsTo, hslots]
      exact List.countP_congr fun slot hslot => by rw [hbinds slot hslot]
    have hrefs : e.collect.2.moduleRefs id = e.doomedUnbound.moduleRefs id := by
      rw [moduleRefs, moduleRefs, built?_of_map Module.moduleRefs hmap]
    rw [hrefs, hunb.counted, hcnt]

/-- A module is taken out of use, before anything is collected. -/
def retire (e : Engine) (id : ModuleId) : Engine :=
  { e with live := e.live.erase id, discarded := e.discarded ++ [id] }.changeModule id fun m =>
    { m with discarded := true }

theorem functions_retire (e : Engine) (id : ModuleId) : (e.retire id).functions = e.functions :=
  functions_changeModule _ id _

theorem map_retire {γ : Type} (view : Module → γ)
    (hview : ∀ m : Module, view { m with discarded := true } = view m) (e : Engine)
    (id : ModuleId) :
      ((e.retire id).modules.map fun m => m.map view) = e.modules.map fun m => m.map view :=
  modules_changeModule view
    { e with live := e.live.erase id, discarded := e.discarded ++ [id] } id hview

theorem present_retire (hid : id ∈ e.live) : (e.retire id).present.Perm e.present := by
  rw [retire, present_changeModule]
  show (e.live.erase id ++ (e.discarded ++ [id])).Perm (e.live ++ e.discarded)
  rw [← List.append_assoc]
  refine (List.perm_append_singleton id _).trans ?_
  rw [← List.cons_append]
  exact (List.perm_cons_erase hid).symm.append_right _

theorem Linked.retire (h : e.Linked) (hid : id ∈ e.live) : (e.retire id).Linked := by
  refine h.of_same ?_ ?_ (present_retire hid) ?_ ?_
  · intro k
    exact function?_changeModule _ id _ k
  · exact built?_of_map Module.core (map_retire Module.core (fun _ => rfl) e id)
  · exact slots_of_map (map_retire Module.imports (fun _ => rfl) e id)
  · intro k
    rw [moduleRefs, moduleRefs,
      built?_of_map Module.moduleRefs (map_retire Module.moduleRefs (fun _ => rfl) e id)]

theorem mem_live_of_moduleNamed? (h : e.Filed) {name : String} (hm : e.moduleNamed? name = some m) :
    m.id ∈ e.live := by
  obtain ⟨id, hid, hbuilt⟩ := List.mem_filterMap.mp (List.mem_of_find?_eq_some hm)
  rwa [h.own_id hbuilt]

theorem discard_eq {name : String} (hm : e.moduleNamed? name = some m) :
    (e.discard name).2 = (e.retire m.id).collect.2 := by
  rw [discard, hm]
  rfl

theorem Linked.discard (h : e.Linked) (hfits : e.Fits) (name : String) :
    (e.discard name).2.Linked := by
  cases hm : e.moduleNamed? name with
  | none =>
    rw [Engine.discard, hm]
    exact h
  | some m =>
    rw [discard_eq hm]
    refine (h.retire (mem_live_of_moduleNamed? h.toFiled hm)).collect ?_
    have hmap := map_retire Module.imports (fun _ => rfl) e m.id
    have hsize : (e.retire m.id).modules.size = e.modules.size := by
      simpa using congrArg Array.size hmap
    exact
      { modules := hsize ▸ hfits.modules
        functions := functions_retire e m.id ▸ hfits.functions
        slots := slots_of_map hmap ▸ hfits.slots }

end Engine
end ScriptVm
