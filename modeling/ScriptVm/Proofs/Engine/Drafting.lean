import ScriptVm.Proofs.Engine.Collecting
import ScriptVm.Proofs.Engine.Verified
import Mathlib.Data.List.Flatten
import Mathlib.Data.List.Nodup

namespace ScriptVm

variable {d d' : Draft}

/-- A draft whose module is not built and whose functions have reserved ids. -/
structure Draft.Open (e : Engine) (d : Draft) : Prop where
  begun : d.id.val ≠ 0 ∧ d.id.val.toNat ≤ e.modules.size
  unbuilt : e.built? d.id = none
  reserved : ∀ p ∈ d.declared, e.functions[p.1.val.toNat]? = some none
  defined : ∀ p ∈ d.defined, p.2.id = p.1 ∧ p.2.module = some d.id

/-- What is written into a draft without the engine. -/
inductive Draft.Edit : Draft → Draft → Prop where
  | define (d : Draft) (id : FunctionId) (f : Func) : Edit d (d.define id f)
  | setInitializer (d : Draft) (f : Func) : Edit d (d.setInitializer f)
  | addGlobal (d : Draft) (name : String) (type : DataType) : Edit d (d.addGlobal name type).2
  | addString (d : Draft) (text : String) : Edit d (d.addString text).2
  | addImport (d : Draft) (f : Func) : Edit d (d.addImport f).2

theorem Draft.Edit.id_eq (h : d.Edit d') : d'.id = d.id := by
  cases h with
  | addString text =>
    unfold Draft.addString
    split <;> rfl
  | _ => rfl

theorem Draft.Edit.declared_eq (h : d.Edit d') : d'.declared = d.declared := by
  cases h with
  | addString text =>
    unfold Draft.addString
    split <;> rfl
  | _ => rfl

theorem Draft.Edit.defined_mem (h : d.Edit d') {p : FunctionId × Func} (hp : p ∈ d'.defined) :
    p ∈ d.defined ∨ p.2.id = p.1 ∧ p.2.module = some d.id := by
  cases h with
  | define id f =>
    obtain rfl | hp := List.mem_cons.mp hp
    · exact .inr ⟨rfl, rfl⟩
    · exact .inl (List.mem_filter.mp hp).1
  | addString text =>
    unfold Draft.addString at hp
    split at hp <;> exact .inl hp
  | _ => exact .inl hp

theorem Draft.Open.edit {e : Engine} (h : d.Open e) (hedit : d.Edit d') : d'.Open e := by
  constructor
  · rw [hedit.id_eq]
    exact h.begun
  · rw [hedit.id_eq]
    exact h.unbuilt
  · rw [hedit.declared_eq]
    exact h.reserved
  · intro p hp
    rw [hedit.id_eq]
    obtain hp | hp := hedit.defined_mem hp
    · exact h.defined p hp
    · exact hp

theorem mapM_ok_map {ε α β γ : Type} {f : α → Except ε β} {g : α → γ} {k : β → γ}
    (h : ∀ a b, f a = .ok b → k b = g a) {l : List α} {r : List β} (hr : l.mapM f = .ok r) :
    r.map k = l.map g := by
  induction l generalizing r with
  | nil =>
    cases hr
    rfl
  | cons a l ih =>
    rw [List.mapM_cons] at hr
    obtain ⟨b, hb, hrest⟩ := Scope.bind_ok hr
    obtain ⟨bs, hbs, hcons⟩ := Scope.bind_ok hrest
    cases hcons
    rw [List.map_cons, List.map_cons, h a b hb, ih hbs]

theorem Draft.map_functions {γ : Type} {functions : Array Func} (h : d.functions = .ok functions)
    {k : Func → γ} {g : FunctionId × String → γ}
    (hfound : ∀ p q, (d.defined.find? fun e => e.1 == p.1) = some q → k q.2 = g p) :
    functions.toList.map k = d.declared.toList.map g := by
  have hlist := congrArg (Functor.map Array.toList) h
  rw [Draft.functions, Array.toList_mapM] at hlist
  refine mapM_ok_map (fun p f hf => ?_) hlist
  cases hfind : d.defined.find? fun e => e.1 == p.1 with
  | none =>
    simp only [hfind] at hf
    cases hf
  | some q =>
    simp only [hfind] at hf
    cases hf
    exact hfound p q hfind

theorem Draft.Open.functions_ok {e : Engine} (h : d.Open e) {functions : Array Func}
    (hok : d.functions = .ok functions) :
    functions.toList.map Func.id = d.declared.toList.map Prod.fst ∧
      ∀ f ∈ functions, f.module = some d.id := by
  have hboth : (functions.toList.map fun f => (f.id, f.module)) = d.declared.toList.map fun p =>
      (p.1, some d.id) := by
    refine map_functions hok fun p q hfind => ?_
    have hkey : q.1 = p.1 := by simpa using List.find?_some hfind
    obtain ⟨hid, hmod⟩ := h.defined q (List.mem_of_find?_eq_some hfind)
    exact Prod.ext (hid.trans hkey) hmod
  constructor
  · simpa [List.map_map, Function.comp_def] using congrArg (List.map Prod.fst) hboth
  · intro f hf
    have hmem : (f.id, f.module) ∈ functions.toList.map fun f => (f.id, f.module) :=
      List.mem_map_of_mem (Array.mem_toList_iff.mpr hf)
    rw [hboth] at hmem
    obtain ⟨p, -, hp⟩ := List.mem_map.mp hmem
    exact (congrArg Prod.snd hp).symm

namespace Engine

variable {e e' : Engine} {after before drafts : List Draft} {d : Draft} {n : Nat} {m : Module}

/-- The drafts are open, and no two of them share an id. -/
structure Drafting (e : Engine) (drafts : List Draft) : Prop where
  is_open : ∀ d ∈ drafts, d.Open e
  ids_once : (drafts.map Draft.id).Nodup
  declared_once : (drafts.flatMap fun d => d.declared.toList.map Prod.fst).Nodup

theorem drafting_nil (e : Engine) : e.Drafting [] where
  is_open _ hd := nomatch hd
  ids_once := List.nodup_nil
  declared_once := List.nodup_nil

theorem Drafting.of_same (h : e.Drafting drafts) (hsize : e.modules.size ≤ e'.modules.size)
    (hbuilt : ∀ d ∈ drafts, e'.built? d.id = none)
    (hrsv : ∀ d ∈ drafts, ∀ p ∈ d.declared, e'.functions[p.1.val.toNat]? = some none) :
    e'.Drafting drafts := by
  refine { h with is_open := fun d hd => ?_ }
  have hopen := h.is_open d hd
  exact { hopen with
    begun := ⟨hopen.begun.1, Nat.le_trans hopen.begun.2 hsize⟩
    unbuilt := hbuilt d hd
    reserved := hrsv d hd }

theorem Drafting.sublist {drafts' : List Draft} (h : e.Drafting drafts)
    (hsub : drafts'.Sublist drafts) : e.Drafting drafts' where
  is_open d hd := h.is_open d (hsub.subset hd)
  ids_once := (hsub.map Draft.id).nodup h.ids_once
  declared_once := (hsub.flatMap _).nodup h.declared_once

theorem built?_beginModule (e : Engine) (name : String) (id : ModuleId) :
    (e.beginModule name).2.built? id = e.built? id := by
  unfold built? beginModule
  split
  · rfl
  · rw [Array.getElem?_push]
    split
    · rename_i hidx
      rw [hidx]
      simp
    · rfl

theorem function?_reserveFunction (e : Engine) (k : FunctionId) :
    e.reserveFunction.2.function? k = e.function? k := by
  unfold function? reserveFunction
  rw [Array.getElem?_push]
  split
  · rename_i hidx
    rw [hidx]
    simp
  · rfl

theorem slots_beginModule (e : Engine) (name : String) : (e.beginModule name).2.slots = e.slots := by
  simp [slots, beginModule]

theorem Linked.beginModule (h : e.Linked) (name : String) : (e.beginModule name).2.Linked := by
  refine h.of_same (fun _ => rfl) (fun id => ?_) (.refl _) (slots_beginModule e name) fun id => ?_
  · rw [built?_beginModule]
  · rw [moduleRefs, moduleRefs, built?_beginModule]

theorem Linked.reserveFunction (h : e.Linked) : e.reserveFunction.2.Linked :=
  h.of_same (function?_reserveFunction e) (fun _ => rfl) (.refl _) rfl fun _ => rfl

theorem Drafting.beginModule (h : e.Drafting drafts) (name : String)
    (hfits : (e.beginModule name).2.modules.size < 4294967296) :
    (e.beginModule name).2.Drafting ((e.beginModule name).1 :: drafts) := by
  have hsize : (e.beginModule name).2.modules.size = e.modules.size + 1 := Array.size_push _
  have hold : (e.beginModule name).2.Drafting drafts :=
    h.of_same (by omega) (fun d hd => by rw [built?_beginModule]; exact (h.is_open d hd).unbuilt)
      fun d hd => (h.is_open d hd).reserved
  have hid : (e.beginModule name).1.id.val.toNat = e.modules.size + 1 :=
    Nat.mod_eq_of_lt (by omega)
  constructor
  · intro d hd
    obtain rfl | hd := List.mem_cons.mp hd
    · have hne : (e.beginModule name).1.id.val ≠ 0 := by
        intro h0
        rw [h0] at hid
        simp at hid
      refine ⟨⟨hne, by omega⟩, ?_, by simp [Engine.beginModule], by simp [Engine.beginModule]⟩
      rw [built?_beginModule]
      unfold built?
      rw [if_neg hne, hid]
      simp
    · exact hold.is_open d hd
  · rw [List.map_cons, List.nodup_cons]
    refine ⟨fun hmem => ?_, h.ids_once⟩
    obtain ⟨d, hd, heq⟩ := List.mem_map.mp hmem
    have hbegun := (h.is_open d hd).begun.2
    rw [heq, hid] at hbegun
    omega
  · exact h.declared_once

theorem Drafting.replace {d' : Draft} (h : e.Drafting (before ++ d :: after)) (hid : d'.id = d.id)
    (hopen : d'.Open e)
    (hdecl : ((before ++ d' :: after).flatMap fun d => d.declared.toList.map Prod.fst).Nodup) :
    e.Drafting (before ++ d' :: after) where
  is_open x hx := by
    have hold := h.is_open x
    simp only [List.mem_append, List.mem_cons] at hx hold
    obtain hx | rfl | hx := hx
    · exact hold (.inl hx)
    · exact hopen
    · exact hold (.inr (.inr hx))
  ids_once := by
    have hids := h.ids_once
    simp only [List.map_append, List.map_cons, hid] at hids ⊢
    exact hids
  declared_once := hdecl

theorem Drafting.edit {d' : Draft} (h : e.Drafting (before ++ d :: after)) (hedit : d.Edit d') :
    e.Drafting (before ++ d' :: after) := by
  have hopen := h.is_open d (by simp)
  refine h.replace hedit.id_eq (hopen.edit hedit) ?_
  have hdecl := h.declared_once
  simp only [List.flatMap_append, List.flatMap_cons, hedit.declared_eq] at hdecl ⊢
  exact hdecl

theorem functions_reserved (h : e.functions[n]? = some none) :
    e.reserveFunction.2.functions[n]? = some none :=
  getElem?_push_of_some h none

theorem next_function_toNat (h : e.functions.size < 4294967296) :
    (⟨e.functions.size.toUInt32⟩ : FunctionId).val.toNat = e.functions.size := by
  simpa using h

theorem Drafting.declare (h : e.Drafting (before ++ d :: after)) (name : String)
    (hfits : (e.declare d name).2.1.functions.size ≤ 4294967296) :
    (e.declare d name).2.1.Drafting (before ++ (e.declare d name).2.2 :: after) := by
  have hsize : (e.declare d name).2.1.functions.size = e.functions.size + 1 := Array.size_push _
  have hid : (e.declare d name).1.val.toNat = e.functions.size := next_function_toNat (by omega)
  have hold : (e.declare d name).2.1.Drafting (before ++ d :: after) :=
    h.of_same (Nat.le_refl _) (fun d hd => (h.is_open d hd).unbuilt)
      fun d hd p hp => functions_reserved ((h.is_open d hd).reserved p hp)
  have hopen := hold.is_open d (by simp)
  -- Every id that is declared so far is below the new one.
  have hfresh : (e.declare d name).1 ∉ (before ++ d :: after).flatMap fun d =>
      d.declared.toList.map Prod.fst := by
    intro hmem
    obtain ⟨x, hx, hmem⟩ := List.mem_flatMap.mp hmem
    obtain ⟨p, hp, heq⟩ := List.mem_map.mp hmem
    have hrsv := (h.is_open x hx).reserved p (Array.mem_toList_iff.mp hp)
    have hlt := (Array.getElem?_eq_some_iff.mp hrsv).1
    rw [heq, hid] at hlt
    omega
  refine hold.replace rfl { hopen with reserved := ?_ } ?_
  · intro p hp
    obtain hp | rfl := Array.mem_push.mp hp
    · exact hopen.reserved p hp
    · show (e.functions.push none)[(e.declare d name).1.val.toNat]? = some none
      rw [hid]
      simp
  · have hdecl := List.nodup_cons.mpr ⟨hfresh, h.declared_once⟩
    have hpush : (e.declare d name).2.2.declared.toList.map Prod.fst =
        d.declared.toList.map Prod.fst ++ [(e.declare d name).1] := by
      show (d.declared.push _).toList.map Prod.fst = _
      rw [Array.toList_push, List.map_append]
      rfl
    rw [List.flatMap_append, List.flatMap_cons] at hdecl ⊢
    rw [hpush]
    refine (List.Perm.nodup_iff ?_).mp hdecl
    rw [List.append_assoc, List.singleton_append, ← List.append_assoc, ← List.append_assoc]
    exact List.perm_middle.symm

theorem getElem?_foldl_some {fs : List Func} {table : Array (Option Func)}
    (hnodup : (fs.map Func.id).Nodup) (n : Nat) :
    (fs.foldl (fun table f => table.setIfInBounds f.id.val.toNat (some f)) table)[n]? =
      match fs.find? fun f => f.id.val.toNat = n with
      | some f => if n < table.size then some (some f) else none
      | none => table[n]? := by
  induction fs generalizing table with
  | nil => rfl
  | cons f fs ih =>
    obtain ⟨hf, hnodup⟩ := List.nodup_cons.mp hnodup
    rw [List.foldl_cons, ih hnodup, List.find?_cons, Array.size_setIfInBounds,
      Array.getElem?_setIfInBounds]
    by_cases hn : f.id.val.toNat = n
    · have hnone : (fs.find? fun f => f.id.val.toNat = n) = none := by
        rw [List.find?_eq_none]
        intro g hg hgn
        have hgn : g.id.val.toNat = n := of_decide_eq_true hgn
        have hsame : g.id = f.id := function_index_inj (hgn.trans hn.symm)
        exact hf (hsame ▸ List.mem_map_of_mem hg)
      simp [hn, hnone]
    · simp [hn]

/-- A module whose places in the engine are free: its own and those of its functions. -/
structure Fresh (e : Engine) (m : Module) : Prop where
  begun : m.id.val ≠ 0 ∧ m.id.val.toNat ≤ e.modules.size
  unbuilt : e.built? m.id = none
  ids_once : (m.functions.toList.map Func.id).Nodup
  reserved : ∀ f ∈ m.functions, e.functions[f.id.val.toNat]? = some none
  belongs : ∀ f ∈ m.functions, f.module = some m.id
  unbound : ∀ slot ∈ m.imports, slot.bound = none
  unused : m.moduleRefs = 0

theorem Drafting.fresh (h : e.Drafting drafts) (hd : d ∈ drafts) {functions : Array Func}
    (hok : d.functions = .ok functions) : e.Fresh (d.toModule functions) := by
  have hopen := h.is_open d hd
  obtain ⟨hids, hmod⟩ := hopen.functions_ok hok
  have hids :
      (d.toModule functions).functions.toList.map Func.id = d.declared.toList.map Prod.fst := hids
  constructor
  · exact hopen.begun
  · exact hopen.unbuilt
  · rw [hids]
    refine List.Sublist.nodup ?_ h.declared_once
    rw [List.flatMap_def]
    exact List.sublist_flatten_of_mem (List.mem_map_of_mem hd)
  · intro f hf
    have hmem : f.id ∈ (d.toModule functions).functions.toList.map Func.id :=
      List.mem_map_of_mem (Array.mem_toList_iff.mpr hf)
    rw [hids] at hmem
    obtain ⟨p, hp, heq⟩ := List.mem_map.mp hmem
    rw [← heq]
    exact hopen.reserved p (Array.mem_toList_iff.mp hp)
  · exact hmod
  · intro slot hslot
    obtain ⟨declaration, -, rfl⟩ := Array.mem_map.mp hslot
    rfl
  · rfl

theorem index_lt {id : ModuleId} (hid : id.val ≠ 0) (hbegun : id.val.toNat ≤ n) :
    id.val.toNat - 1 < n := by
  have hpos : id.val.toNat ≠ 0 := fun h0 => hid (UInt32.toNat_inj.mp h0)
  omega

theorem built?_install (h : e.Fresh m) (k : ModuleId) :
    (e.install m).built? k = if k = m.id then some m else e.built? k := by
  by_cases hk : k.val = 0
  · have hne : k ≠ m.id := fun heq => h.begun.1 (heq ▸ hk)
    simp [built?, hk, hne]
  · simp only [built?, hk, if_false, install, Array.getElem?_setIfInBounds]
    by_cases heq : k = m.id
    · simp [heq, index_lt h.begun.1 h.begun.2]
    · have hidx : m.id.val.toNat - 1 ≠ k.val.toNat - 1 :=
        fun hidx => heq (index_inj h.begun.1 hk hidx)
      simp [heq, hidx]

theorem Fresh.built?_other (h : e.Fresh m) {id : ModuleId} {m' : Module}
    (hm' : e.built? id = some m') : (e.install m).built? id = some m' := by
  rw [built?_install h, if_neg, hm']
  rintro rfl
  rw [h.unbuilt] at hm'
  cases hm'

theorem function?_install (h : e.Fresh m) {k : FunctionId} {f : Func} :
    (e.install m).function? k = some f ↔ e.function? k = some f ∨ f ∈ m.functions ∧ f.id = k := by
  have htable : (e.install m).function? k =
      match m.functions.toList.find? fun f => f.id.val.toNat = k.val.toNat with
      | some f => if k.val.toNat < e.functions.size then some f else none
      | none => e.function? k := by
    simp only [function?, install, ← Array.foldl_toList, getElem?_foldl_some h.ids_once]
    split
    · split <;> rfl
    · rfl
  rw [htable]
  cases hfind : m.functions.toList.find? fun f => f.id.val.toNat = k.val.toNat with
  | none =>
    have hnone := List.find?_eq_none.mp hfind
    refine ⟨.inl, fun hor => hor.resolve_right fun hin => ?_⟩
    exact hnone f (Array.mem_toList_iff.mpr hin.1) (by simp [hin.2])
  | some g =>
    have hg := Array.mem_toList_iff.mp (List.mem_of_find?_eq_some hfind)
    have hgk : g.id = k := function_index_inj (by simpa using List.find?_some hfind)
    have hrsv := h.reserved g hg
    rw [hgk] at hrsv
    have hlt := (Array.getElem?_eq_some_iff.mp hrsv).1
    have hnone : e.function? k = none := by simp [function?, hrsv]
    simp only [hlt, if_true, hnone, Option.some.injEq]
    constructor
    · rintro rfl
      exact .inr ⟨hg, hgk⟩
    · rintro (hf | ⟨hf, hid⟩)
      · cases hf
      · exact List.inj_on_of_nodup_map h.ids_once (Array.mem_toList_iff.mpr hg)
          (Array.mem_toList_iff.mpr hf) (hgk.trans hid.symm)

theorem present_install (e : Engine) (m : Module) :
    (e.install m).present.Perm (m.id :: e.present) := by
  show ((e.live ++ [m.id]) ++ e.discarded).Perm (m.id :: (e.live ++ e.discarded))
  rw [List.append_assoc]
  exact List.perm_middle

theorem Filed.install (h : e.Filed) (hm : e.Fresh m) : (e.install m).Filed := by
  have hpres {id : ModuleId} : id ∈ (e.install m).present ↔ id = m.id ∨ id ∈ e.present := by
    rw [(present_install e m).mem_iff, List.mem_cons]
  have habsent : m.id ∉ e.present := by
    intro hid
    obtain ⟨m', hm'⟩ := h.present_built m.id hid
    rw [hm.unbuilt] at hm'
    cases hm'
  constructor
  · intro id m' hm'
    rw [built?_install hm] at hm'
    split at hm'
    · rename_i hid
      cases hm'
      exact hid.symm
    · exact h.own_id hm'
  · intro id hid
    obtain rfl | hid := hpres.mp hid
    · exact ⟨m, by rw [built?_install hm, if_pos rfl]⟩
    · obtain ⟨m', hm'⟩ := h.present_built id hid
      exact ⟨m', hm.built?_other hm'⟩
  · rw [(present_install e m).nodup_iff, List.nodup_cons]
    exact ⟨habsent, h.present_once⟩
  · intro id m' f hid hm' hf
    rw [built?_install hm] at hm'
    split at hm'
    · rename_i hid
      cases hm'
      rw [hid]
      exact ⟨(function?_install hm).mpr (.inr ⟨hf, rfl⟩), hm.belongs f hf⟩
    · rename_i hne
      have hid := (hpres.mp hid).resolve_left hne
      obtain ⟨hfd, hmod⟩ := h.filed hid hm' hf
      exact ⟨(function?_install hm).mpr (.inl hfd), hmod⟩
  · intro k f hf
    obtain hold | ⟨hnew, rfl⟩ := (function?_install hm).mp hf
    · obtain ⟨hk, hhost | ⟨id, m', hmod, hid, hm', hmem⟩⟩ := h.owned hold
      · exact ⟨hk, .inl hhost⟩
      · exact ⟨hk, .inr ⟨id, m', hmod, hpres.mpr (.inr hid), hm.built?_other hm', hmem⟩⟩
    · refine ⟨rfl, .inr ⟨m.id, m, hm.belongs f hnew, hpres.mpr (.inl rfl), ?_, hnew⟩⟩
      rw [built?_install hm, if_pos rfl]

/-- Functions are added to the table, and slots that are bound to nothing. -/
theorem Linked.grown (h : e.Linked) (hfiled : e'.Filed)
    (hgrown : ∀ k f, e.function? k = some f → e'.function? k = some f)
    {before new after : List ImportSlot} (hslots : e.slots = before ++ after)
    (hslots' : e'.slots = before ++ new ++ after) (hnew : ∀ slot ∈ new, slot.bound = none)
    (hrefs : ∀ id, e'.moduleRefs id = e.moduleRefs id) :
    e'.Linked := by
  have hold {slot : ImportSlot} (hslot : slot ∈ before ++ after) {target : FunctionId}
      (htgt : slot.bound = some target) :=
    h.resolved slot (hslots ▸ hslot) target htgt
  have hbinds (id : ModuleId) :
      ∀ slot ∈ before ++ after, e'.bindsTo id slot = e.bindsTo id slot := by
    intro slot hslot
    cases htgt : slot.bound with
    | none => rw [bindsTo_unbound _ slot htgt, bindsTo_unbound _ slot htgt]
    | some target =>
      obtain ⟨f, hf, -⟩ := hold hslot htgt
      rw [bindsTo_bound htgt hf, bindsTo_bound htgt (hgrown target f hf)]
  refine { hfiled with resolved := ?_, counted := ?_ }
  · intro slot hslot target htgt
    rw [hslots', List.mem_append, List.mem_append] at hslot
    have hmem : slot ∈ before ++ after := by
      obtain (hslot | hslot) | hslot := hslot
      · exact List.mem_append_left _ hslot
      · rw [hnew slot hslot] at htgt
        cases htgt
      · exact List.mem_append_right _ hslot
    obtain ⟨f, hf, hfits⟩ := hold hmem htgt
    exact ⟨f, hgrown target f hf, hfits⟩
  · intro id
    have hzero : new.countP (e'.bindsTo id) = 0 := by
      rw [List.countP_eq_zero]
      intro slot hslot
      rw [bindsTo_unbound _ slot (hnew slot hslot)]
      exact Bool.false_ne_true
    have hcnt : e'.bindingsTo id = e.bindingsTo id := by
      rw [bindingsTo, bindingsTo, hslots, hslots', List.countP_append, List.countP_append, hzero,
        Nat.add_zero, ← List.countP_append]
      exact List.countP_congr fun slot hslot => by rw [hbinds id slot hslot]
    rw [hrefs, h.counted, hcnt]

theorem slots_install (hm : e.Fresh m) : ∃ before after, e.slots = before ++ after ∧
      (e.install m).slots = before ++ m.imports.toList ++ after := by
  have hlt := index_lt hm.begun.1 hm.begun.2
  have hnone : e.modules.toList[m.id.val.toNat - 1]? = some none := by
    have hunbuilt := hm.unbuilt
    rw [built?, if_neg hm.begun.1, Array.getElem?_eq_getElem hlt] at hunbuilt
    rw [Array.getElem?_toList, Array.getElem?_eq_getElem hlt]
    exact congrArg some hunbuilt
  obtain ⟨before, after, hmods, hmods'⟩ := modify_split hnone fun _ => some m
  have hset : (e.install m).modules.toList = before ++ some m :: after := by
    rw [← hmods', ← List.set_eq_modify, ← Array.toList_setIfInBounds]
    rfl
  refine ⟨before.flatMap fun m => (m.map fun m => m.imports.toList).getD [],
    after.flatMap fun m => (m.map fun m => m.imports.toList).getD [], ?_, ?_⟩
  · simp [slots, hmods]
  · simp [slots, hset]

theorem Linked.install (h : e.Linked) (hm : e.Fresh m) : (e.install m).Linked := by
  obtain ⟨before, after, hslots, hslots'⟩ := slots_install hm
  refine h.grown (h.toFiled.install hm)
    (fun k f hf => (function?_install hm).mpr (.inl hf)) hslots hslots' ?_ ?_
  · intro slot hslot
    exact hm.unbound slot (Array.mem_toList_iff.mp hslot)
  · intro id
    rw [moduleRefs, moduleRefs, built?_install hm]
    split
    · rename_i hid
      rw [hid, hm.unbuilt]
      exact hm.unused
    · rfl

/-- A module is put into use if its functions are defined and pass their checks and its name is
free, or else nothing changes. -/
theorem finish_cases (e : Engine) (d : Draft) : (∃ err, e.finish d = (.error err, e)) ∨
      ∃ functions, d.functions = .ok functions ∧
        (e.config.verify = true → e.checkModule (d.toModule functions) = .ok ()) ∧
        e.moduleNamed? d.name = none ∧
          e.finish d = (.ok d.id, e.install (d.toModule functions)) := by
  unfold finish
  split
  · exact .inl ⟨_, rfl⟩
  · rename_i functions hok
    dsimp only
    split
    · exact .inl ⟨_, rfl⟩
    · rename_i hchk
      split
      · exact .inl ⟨_, rfl⟩
      · rename_i hname
        refine .inr ⟨functions, hok, ?_, Option.not_isSome_iff_eq_none.mp hname, rfl⟩
        intro hver
        rwa [if_pos hver] at hchk

theorem build_of_building (h : e.building = true) (d : Draft) :
    e.build d = (.error .buildInProgress, e) := by
  simp only [build, beginBuild, h, if_true]

theorem build_of_idle (h : e.building = false) (d : Draft) : e.build d = e.finish d := by
  have hback : { { e with building := true } with building := false } = e := by rw [← h]
  have hchecks (m : Module) : { e with building := true }.checkModule m = e.checkModule m := rfl
  have hname (name : String) :
      { e with building := true }.moduleNamed? name = e.moduleNamed? name := rfl
  have hinst (m : Module) :
      { { e with building := true }.install m with building := false } = e.install m := by
    simp only [install, ← h]
  simp only [build, beginBuild, h, Bool.false_eq_true, if_false, finish, hchecks, hname]
  split
  · rw [hback]
  · split
    · rw [hback]
    · split
      · rw [hback]
      · rw [hinst]

/-- A build that succeeds puts the module of the draft into use, and one that fails changes
nothing. -/
theorem build_cases (e : Engine) (d : Draft) :
    (e.build d).2 = e ∨ ∃ functions, d.functions = .ok functions ∧
      (e.build d).2 = e.install (d.toModule functions) := by
  cases hbld : e.building with
  | true => exact .inl (by rw [build_of_building hbld])
  | false =>
    rw [build_of_idle hbld]
    obtain ⟨err, herr⟩ | ⟨functions, hok, -, -, hinst⟩ := finish_cases e d
    · exact .inl (by rw [herr])
    · exact .inr ⟨functions, hok, by rw [hinst]⟩

theorem Linked.build (h : e.Linked) (hdrs : e.Drafting drafts) (hd : d ∈ drafts) :
    (e.build d).2.Linked := by
  obtain heq | ⟨functions, hok, heq⟩ := build_cases e d
  · rw [heq]
    exact h
  · rw [heq]
    exact h.install (hdrs.fresh hd hok)

theorem Drafting.disjoint (h : e.Drafting (before ++ d :: after)) {x : Draft}
    (hx : x ∈ before ++ after) : x.id ≠ d.id ∧ ∀ p ∈ x.declared, ∀ q ∈ d.declared, p.1 ≠ q.1 := by
  have hids := h.ids_once
  have hdecl := h.declared_once
  rw [(List.perm_middle.map Draft.id).nodup_iff, List.map_cons, List.nodup_cons] at hids
  rw [(List.perm_middle.flatMap_right _).nodup_iff, List.flatMap_cons, List.nodup_append] at hdecl
  constructor
  · intro heq
    exact hids.1 (heq ▸ List.mem_map_of_mem hx)
  · intro p hp q hq heq
    have hp : p.1 ∈ (before ++ after).flatMap fun d => d.declared.toList.map Prod.fst :=
      List.mem_flatMap.mpr ⟨x, hx, List.mem_map_of_mem (Array.mem_toList_iff.mpr hp)⟩
    exact hdecl.2.2 q.1 (List.mem_map_of_mem (Array.mem_toList_iff.mpr hq)) p.1 hp heq.symm

theorem functions_install (h : e.Fresh m) (hn : ∀ f ∈ m.functions, f.id.val.toNat ≠ n) :
    (e.install m).functions[n]? = e.functions[n]? := by
  have hnone : (m.functions.toList.find? fun f => f.id.val.toNat = n) = none := by
    rw [List.find?_eq_none]
    intro f hf heq
    exact hn f (Array.mem_toList_iff.mp hf) (of_decide_eq_true heq)
  simp only [install, ← Array.foldl_toList, getElem?_foldl_some h.ids_once, hnone]

theorem Drafting.build (h : e.Drafting (before ++ d :: after)) :
    (e.build d).2.Drafting (before ++ after) := by
  have hsub : (before ++ after).Sublist (before ++ d :: after) :=
    (List.Sublist.refl _).append (List.sublist_cons_self _ _)
  have hrest := h.sublist hsub
  obtain heq | ⟨functions, hok, heq⟩ := build_cases e d
  · rw [heq]
    exact hrest
  · rw [heq]
    have hd : d ∈ before ++ d :: after := by simp
    have hfresh := h.fresh hd hok
    refine hrest.of_same ?_ ?_ ?_
    · exact Nat.le_of_eq Array.size_setIfInBounds.symm
    · intro x hx
      have hne : x.id ≠ (d.toModule functions).id := (h.disjoint hx).1
      rw [built?_install hfresh, if_neg hne, (hrest.is_open x hx).unbuilt]
    · intro x hx p hp
      rw [functions_install hfresh, (hrest.is_open x hx).reserved p hp]
      intro f hf heq
      have hids := ((h.is_open d hd).functions_ok hok).1
      have hmem : f.id ∈ functions.toList.map Func.id :=
        List.mem_map_of_mem (Array.mem_toList_iff.mpr hf)
      rw [hids] at hmem
      obtain ⟨q, hq, hqf⟩ := List.mem_map.mp hmem
      refine (h.disjoint hx).2 p hp q (Array.mem_toList_iff.mp hq) ?_
      rw [hqf]
      exact (function_index_inj heq).symm

theorem function?_registerHost (f : Func) (body : HostBody) {k : FunctionId} {g : Func} :
    (e.registerHost f body).2.function? k = some g ↔
      e.function? k = some g ∨ k.val.toNat = e.functions.size ∧
        g = { f with id := (e.registerHost f body).1, kind := .host, module := none } := by
  show (e.functions.push (some _))[k.val.toNat]?.join = some g ↔ _
  rw [Array.getElem?_push]
  by_cases hk : k.val.toNat = e.functions.size
  · have hnone : e.function? k = none := by simp [function?, hk]
    rw [if_pos hk, hnone]
    simp only [hk, true_and, reduceCtorEq, false_or, Option.join_some, Option.some.injEq]
    exact eq_comm
  · simp [hk, function?]

theorem Filed.registerHost (h : e.Filed) (f : Func) (body : HostBody)
    (hfits : (e.registerHost f body).2.functions.size ≤ 4294967296) :
    (e.registerHost f body).2.Filed := by
  have hsize : (e.registerHost f body).2.functions.size = e.functions.size + 1 := Array.size_push _
  refine { own_id := h.own_id, present_built := h.present_built, present_once := h.present_once,
           filed := ?_, owned := ?_ }
  · intro id m g hid hm hg
    obtain ⟨hfd, hmod⟩ := h.filed hid hm hg
    exact ⟨(function?_registerHost f body).mpr (.inl hfd), hmod⟩
  · intro k g hg
    obtain hold | ⟨hk, rfl⟩ := (function?_registerHost f body).mp hg
    · exact h.owned hold
    · refine ⟨function_index_inj ?_, .inl ⟨rfl, rfl⟩⟩
      exact (next_function_toNat (by omega)).trans hk.symm

theorem Linked.registerHost (h : e.Linked) (f : Func) (body : HostBody)
    (hfits : (e.registerHost f body).2.functions.size ≤ 4294967296) :
    (e.registerHost f body).2.Linked := by
  have hgrown (k : FunctionId) (g : Func) (hg : e.function? k = some g) :
      (e.registerHost f body).2.function? k = some g :=
    (function?_registerHost f body).mpr (.inl hg)
  have hslots : e.slots = e.slots ++ [] := (List.append_nil _).symm
  have hslots' : (e.registerHost f body).2.slots = e.slots ++ [] ++ [] := by
    rw [← hslots, ← hslots]
    rfl
  exact h.grown (h.toFiled.registerHost f body hfits) hgrown hslots hslots' (by simp) fun _ => rfl

theorem Drafting.registerHost (h : e.Drafting drafts) (f : Func) (body : HostBody) :
    (e.registerHost f body).2.Drafting drafts := by
  refine h.of_same (Nat.le_refl _) (fun d hd => (h.is_open d hd).unbuilt) fun d hd p hp => ?_
  exact getElem?_push_of_some ((h.is_open d hd).reserved p hp) _

theorem built?_none_of_core {id : ModuleId}
    (h : (e'.built? id).map Module.core = (e.built? id).map Module.core)
    (hnone : e.built? id = none) : e'.built? id = none := by
  rw [hnone] at h
  exact Option.map_eq_none_iff.mp h

theorem Drafting.of_directory (h : e.Drafting drafts) (hdir : e'.directory = e.directory) :
    e'.Drafting drafts := by
  have hfns : e'.functions = e.functions := congrArg Directory.functions hdir
  have hsize : e.modules.size = e'.modules.size := by
    simpa [directory] using (congrArg (fun d => d.modules.size) hdir).symm
  refine h.of_same (Nat.le_of_eq hsize) (fun d hd => ?_) fun d hd => ?_
  · exact built?_none_of_core (core_of_directory hdir d.id) (h.is_open d hd).unbuilt
  · rw [hfns]
    exact (h.is_open d hd).reserved

theorem functions_exitModule (e : Engine) (id : ModuleId) :
    (e.exitModule id).functions = e.functions :=
  congrArg Directory.functions (directory_of_catalog (catalog_exitModule e id))

theorem reserved_destroyModule (h : e.functions[n]? = some none) (id : ModuleId) :
    (e.destroyModule id).functions[n]? = some none := by
  rw [← functions_exitModule e id] at h
  unfold destroyModule
  dsimp only
  split
  · exact h
  · rw [← Array.foldl_toList]
    refine List.foldlRecOn _ _ (motive :=
      fun table : Array (Option Func) => table[n]? = some none) h fun table htable f _ => ?_
    have hlt := (Array.getElem?_eq_some_iff.mp htable).1
    rw [Array.getElem?_setIfInBounds, htable]
    split
    · rename_i hn
      rw [if_pos (hn ▸ hlt)]
    · rfl

theorem Drafting.collect (h : e.Drafting drafts) : e.collect.2.Drafting drafts := by
  have hsize : e.modules.size = e.collect.2.modules.size := by
    have hcollect := congrArg Array.size (modules_collect e)
    have hunb := congrArg (fun e => e.modules.size) (roster_doomedUnbound e)
    simp only [Array.size_map, roster] at hcollect hunb
    exact (hcollect.trans hunb).symm
  refine h.of_same (Nat.le_of_eq hsize) (fun d hd => ?_) fun d hd p hp => ?_
  · exact built?_none_of_core (built?_collect e d.id) (h.is_open d hd).unbuilt
  · have hfns : e.doomedUnbound.functions = e.functions :=
      congrArg Directory.functions (directory_of_roster (roster_doomedUnbound e))
    have hrsv := (h.is_open d hd).reserved p hp
    rw [← hfns] at hrsv
    exact List.foldlRecOn e.doomed _ (motive :=
      fun e : Engine => e.functions[p.1.val.toNat]? = some none) hrsv
      fun _ he id _ => reserved_destroyModule he id

theorem Drafting.discard (h : e.Drafting drafts) (name : String) :
    (e.discard name).2.Drafting drafts := by
  cases hm : e.moduleNamed? name with
  | none =>
    rw [Engine.discard, hm]
    exact h
  | some m =>
    rw [discard_eq hm]
    have hmap := map_retire Module.core (fun _ => rfl) e m.id
    refine Drafting.collect (h.of_same ?_ (fun d hd => ?_) fun d hd => ?_)
    · exact Nat.le_of_eq (by simpa using (congrArg Array.size hmap).symm)
    · exact built?_none_of_core (built?_of_map Module.core hmap d.id) (h.is_open d hd).unbuilt
    · rw [functions_retire]
      exact (h.is_open d hd).reserved

end Engine
end ScriptVm
