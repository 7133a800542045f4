import ScriptVm.Proofs.Engine.Roster
import ScriptVm.Proofs.Heap.Pointers

namespace ScriptVm

/-- A module as it was built. -/
def Module.core (m : Module) : Module :=
  { m with store := Array.replicate m.store.size 0, imports := #[], moduleRefs := 0,
           contextRefs := 0, discarded := false }

theorem Module.id_of_core {m m' : Module} (h : m'.core = m.core) : m'.id = m.id := by
  have hid : m'.core.id = m.core.id := by rw [h]
  exact hid

theorem Module.functions_of_core {m m' : Module} (h : m'.core = m.core) :
    m'.functions = m.functions := by
  have hfns : m'.core.functions = m.core.functions := by rw [h]
  exact hfns

namespace Engine

variable {e e' : Engine} {id : ModuleId} {m : Module} {f : Func} {slot : ImportSlot}
    {target : FunctionId}

def slots (e : Engine) : List ImportSlot :=
  e.modules.toList.flatMap fun m => (m.map fun m => m.imports.toList).getD []

/-- A slot is bound to a function of the module. -/
def bindsTo (e : Engine) (id : ModuleId) (slot : ImportSlot) : Bool :=
  (slot.bound.bind e.function?).any fun f => f.module == some id

/-- The number of import slots that are bound to functions of a module. -/
def bindingsTo (e : Engine) (id : ModuleId) : Nat := e.slots.countP (e.bindsTo id)

/-- The number of bindings that is kept for a module; 0 if it was not built. -/
def moduleRefs (e : Engine) (id : ModuleId) : UInt32 := ((e.built? id).map Module.moduleRefs).getD 0

/-- Functions and modules are found where they belong: a module under its id, and in the table the
functions of the modules that exist and those of the host. -/
structure Filed (e : Engine) : Prop where
  own_id : ∀ {id m}, e.built? id = some m → m.id = id
  present_built : ∀ id ∈ e.present, ∃ m, e.built? id = some m
  present_once : e.present.Nodup
  filed : ∀ {id m f}, id ∈ e.present → e.built? id = some m → f ∈ m.functions →
    e.function? f.id = some f ∧ f.module = some id
  owned : ∀ {k f}, e.function? k = some f → f.id = k ∧
    (f.kind = .host ∧ f.module = none ∨
      ∃ id m, f.module = some id ∧ id ∈ e.present ∧ e.built? id = some m ∧ f ∈ m.functions)

/-- Every bound import is bound to a script function of its signature, and the bindings of every
module are counted. -/
structure Linked (e : Engine) : Prop extends Filed e where
  resolved : ∀ slot ∈ e.slots, ∀ target, slot.bound = some target →
    ∃ f, e.function? target = some f ∧ f.kind = .script ∧ f.signature = slot.declaration.signature
  counted : ∀ id, e.moduleRefs id = (e.bindingsTo id).toUInt32

/-- The functions, the modules in use, and the modules as they were built. -/
structure Directory where
  functions : Array (Option Func)
  live : List ModuleId
  discarded : List ModuleId
  modules : Array (Option Module)

def directory (e : Engine) : Directory :=
  { functions := e.functions
    live := e.live
    discarded := e.discarded
    modules := e.modules.map fun m => m.map Module.core }

theorem directory_of_roster (h : e'.roster = e.roster) : e'.directory = e.directory := by
  have hroster (e : Engine) : e.roster.directory = e.directory := by
    simp only [directory, roster, Array.map_map]
    congr 2
    funext m
    cases m <;> simp [Module.core, Module.unlinked]
  rw [← hroster e', h, hroster]

theorem directory_of_catalog (h : e'.catalog = e.catalog) : e'.directory = e.directory := by
  have hcat (e : Engine) : e.catalog.directory = e.directory := by
    simp only [directory, catalog, Array.map_map]
    congr 2
    funext m
    cases m <;> simp [Module.core, Module.fixed]
  rw [← hcat e', h, hcat]

theorem function?_of_directory (h : e'.directory = e.directory) (k : FunctionId) :
    e'.function? k = e.function? k := by
  have hfns : e'.functions = e.functions := congrArg Directory.functions h
  simp only [function?, hfns]

theorem present_of_directory (h : e'.directory = e.directory) : e'.present = e.present := by
  obtain ⟨-, hlive, hdisc, -⟩ := Directory.mk.inj h
  simp only [present, hlive, hdisc]

theorem built?_of_map {γ : Type} (view : Module → γ)
    (h : (e'.modules.map fun m => m.map view) = e.modules.map fun m => m.map view) (id : ModuleId) :
    (e'.built? id).map view = (e.built? id).map view := by
  have hview (e : Engine) : (e.built? id).map view =
      if id.val = 0 then none
      else ((e.modules.map fun m => m.map view)[id.val.toNat - 1]?).join := by
    unfold built?
    split
    · rfl
    · rw [Array.getElem?_map]
      cases e.modules[id.val.toNat - 1]? <;> rfl
  rw [hview, hview, h]

theorem core_of_directory (h : e'.directory = e.directory) (id : ModuleId) :
    (e'.built? id).map Module.core = (e.built? id).map Module.core :=
  built?_of_map Module.core (congrArg Directory.modules h) id

theorem built?_of_core (h : (e'.built? id).map Module.core = (e.built? id).map Module.core)
    (hm : e.built? id = some m) : ∃ m', e'.built? id = some m' ∧ m'.core = m.core := by
  rw [hm, Option.map_some, Option.map_eq_some_iff] at h
  exact h

theorem Filed.of_same (h : e.Filed) (hfn : ∀ k, e'.function? k = e.function? k)
    (hcore : ∀ id, (e'.built? id).map Module.core = (e.built? id).map Module.core)
    (hpres : e'.present.Perm e.present) : e'.Filed := by
  constructor
  · intro id m hm
    obtain ⟨m', hm', hsame⟩ := built?_of_core (hcore id).symm hm
    rw [← Module.id_of_core hsame]
    exact h.own_id hm'
  · intro id hid
    obtain ⟨m, hm⟩ := h.present_built id (hpres.mem_iff.mp hid)
    obtain ⟨m', hm', -⟩ := built?_of_core (hcore id) hm
    exact ⟨m', hm'⟩
  · exact hpres.nodup_iff.mpr h.present_once
  · intro id m f hid hm hf
    obtain ⟨m', hm', hsame⟩ := built?_of_core (hcore id).symm hm
    rw [← Module.functions_of_core hsame] at hf
    rw [hfn]
    exact h.filed (hpres.mem_iff.mp hid) hm' hf
  · intro k f hf
    rw [hfn] at hf
    obtain ⟨hk, hhost | ⟨id, m, hmod, hid, hm, hmem⟩⟩ := h.owned hf
    · exact ⟨hk, .inl hhost⟩
    · obtain ⟨m', hm', hsame⟩ := built?_of_core (hcore id) hm
      rw [← Module.functions_of_core hsame] at hmem
      exact ⟨hk, .inr ⟨id, m', hmod, hpres.mem_iff.mpr hid, hm', hmem⟩⟩

theorem Filed.of_directory (h : e.Filed) (hdir : e'.directory = e.directory) : e'.Filed :=
  h.of_same (function?_of_directory hdir) (core_of_directory hdir) (.of_eq (present_of_directory hdir))

theorem Filed.module_of_script (h : e.Filed) {k : FunctionId} (hf : e.function? k = some f)
    (hkind : f.kind = .script) : ∃ id, f.module = some id ∧ (e.module? id).isSome = true := by
  obtain ⟨-, ⟨hhost, -⟩ | ⟨id, m, hmod, hid, hm, -⟩⟩ := h.owned hf
  · rw [hkind] at hhost
    cases hhost
  · exact ⟨id, hmod, by rw [module?_eq, if_pos hid, hm]; rfl⟩

theorem slots_of_map (h : (e'.modules.map fun m => m.map Module.imports) = e.modules.map fun m =>
      m.map Module.imports) :
    e'.slots = e.slots := by
  have hslots (e : Engine) : e.slots =
      (e.modules.map fun m => m.map Module.imports).toList.flatMap fun imports =>
        (imports.map Array.toList).getD [] := by
    rw [slots, Array.toList_map, List.flatMap_map]
    congr 1
    funext m
    cases m <;> rfl
  rw [hslots, hslots, h]

theorem bindsTo_of_functions (h : ∀ k, e'.function? k = e.function? k) (id : ModuleId) :
    e'.bindsTo id = e.bindsTo id := by
  have hfn : e'.function? = e.function? := funext h
  funext slot
  simp only [bindsTo, hfn]

theorem slots_of_catalog (h : e'.catalog.modules = e.catalog.modules) : e'.slots = e.slots :=
  slots_of_map (modules_coarser Module.fixed Module.imports (fun _ => rfl) h)

theorem moduleRefs_of_catalog (h : e'.catalog.modules = e.catalog.modules) (id : ModuleId) :
    e'.moduleRefs id = e.moduleRefs id := by
  have hmap := modules_coarser Module.fixed Module.moduleRefs (fun _ => rfl) h
  rw [moduleRefs, moduleRefs, built?_of_map Module.moduleRefs hmap]

theorem Linked.of_same (h : e.Linked) (hfn : ∀ k, e'.function? k = e.function? k)
    (hcore : ∀ id, (e'.built? id).map Module.core = (e.built? id).map Module.core)
    (hpres : e'.present.Perm e.present) (hslots : e'.slots = e.slots)
    (hrefs : ∀ id, e'.moduleRefs id = e.moduleRefs id) :
    e'.Linked := by
  refine { h.toFiled.of_same hfn hcore hpres with resolved := ?_, counted := ?_ }
  · intro slot hslot target htgt
    rw [hslots] at hslot
    rw [hfn]
    exact h.resolved slot hslot target htgt
  · intro id
    rw [hrefs, h.counted, bindingsTo, bindingsTo, hslots, bindsTo_of_functions hfn]

/-- Nothing but the catalog matters to linking. -/
theorem Linked.of_catalog (h : e.Linked) (hcat : e'.catalog = e.catalog) : e'.Linked := by
  have hdir := directory_of_catalog hcat
  have hmods : e'.catalog.modules = e.catalog.modules := by rw [hcat]
  exact h.of_same (function?_of_directory hdir) (core_of_directory hdir)
    (.of_eq (present_of_directory hdir))
    (slots_of_catalog hmods) (moduleRefs_of_catalog hmods)

theorem modify_split {α : Type} {l : List α} {i : Nat} {a : α} (h : l[i]? = some a) (f : α → α) :
    ∃ before after, l = before ++ a :: after ∧ l.modify i f = before ++ f a :: after := by
  induction l generalizing i with
  | nil => simp at h
  | cons b l ih =>
    cases i with
    | zero =>
      have hb : b = a := by simpa using h
      exact ⟨[], l, by simp [hb], by simp [hb]⟩
    | succ i =>
      obtain ⟨before, after, hl, hmodify⟩ := ih (by simpa using h)
      exact ⟨b :: before, after, by simp [hl], by simp [hmodify]⟩

theorem slots_setBinding {index : Nat} (hm : e.built? id = some m)
    (hslot : m.imports[index]? = some slot) (bound : Option FunctionId) :
    ∃ before after, e.slots = before ++ slot :: after ∧
      (e.setBinding id index bound).slots = before ++ { slot with bound } :: after := by
  obtain ⟨hid, hmod⟩ := built?_eq_some.mp hm
  rw [← Array.getElem?_toList] at hmod hslot
  obtain ⟨modules1, modules2, hmods, hmods'⟩ := modify_split hmod
    (Option.map fun m : Module =>
      { m with imports := m.imports.modify index fun slot => { slot with bound } })
  obtain ⟨slots1, slots2, hslots, hslots'⟩ := modify_split hslot fun slot => { slot with bound }
  have hset : (e.setBinding id index bound).modules.toList = modules1 ++ some
      { m with imports := m.imports.modify index fun slot => { slot with bound } } :: modules2 := by
    simp only [setBinding, changeModule, hid, if_false, Array.toList_modify]
    exact hmods'
  refine ⟨modules1.flatMap (fun m => (m.map fun m => m.imports.toList).getD []) ++ slots1,
    slots2 ++ modules2.flatMap (fun m => (m.map fun m => m.imports.toList).getD []), ?_, ?_⟩
  · simp [slots, hmods, hslots]
  · simp [slots, hset, hslots', Array.toList_modify]

theorem slots_changeModule (e : Engine) (id : ModuleId) {f : Module → Module}
    (h : ∀ m, (f m).imports = m.imports) : (e.changeModule id f).slots = e.slots :=
  slots_of_map (modules_changeModule Module.imports e id h)

theorem slots_holdBinding (e : Engine) (f : Func) : (e.holdBinding f).slots = e.slots := by
  unfold holdBinding
  split
  · exact slots_changeModule e _ fun _ => rfl
  · rfl

theorem imports_holdBinding (f : Func) (hm : e.built? id = some m) :
    ∃ m', (e.holdBinding f).built? id = some m' ∧ m'.imports = m.imports := by
  unfold holdBinding
  split
  · rw [built?_changeModule, hm]
    split
    · exact ⟨_, rfl, rfl⟩
    · exact ⟨_, rfl, rfl⟩
  · exact ⟨m, hm, rfl⟩

theorem slots_dropBinding (e : Engine) (target : FunctionId) :
    (e.dropBinding target).slots = e.slots := by
  unfold dropBinding
  split
  · exact slots_changeModule e _ fun _ => rfl
  · rfl

theorem moduleRefs_changeModule (e : Engine) (id : ModuleId) (f : Module → Module) (k : ModuleId)
    (hm : e.built? id = some m) :
    (e.changeModule id f).moduleRefs k = if k = id then (f m).moduleRefs else e.moduleRefs k := by
  unfold moduleRefs
  rw [built?_changeModule]
  split
  · rename_i hk
    rw [hk, hm]
    rfl
  · rfl

theorem moduleRefs_setBinding (e : Engine) (id : ModuleId) (index : Nat) (bound : Option FunctionId)
    (k : ModuleId) : (e.setBinding id index bound).moduleRefs k = e.moduleRefs k := by
  have hmap := modules_changeModule Module.moduleRefs e id
    (f := fun m => { m with imports := m.imports.modify index fun slot => { slot with bound } })
      fun _ => rfl
  rw [moduleRefs, moduleRefs, ← built?_of_map Module.moduleRefs hmap]
  rfl

theorem filter_module (hmod : f.module = some id) (hid : (e.module? id).isSome = true) :
    (f.module.filter fun id => (e.module? id).isSome) = some id := by
  simp [hmod, hid]

theorem built?_of_module? (h : (e.module? id).isSome = true) : ∃ m, e.built? id = some m := by
  rw [module?_eq] at h
  split at h
  · exact Option.isSome_iff_exists.mp h
  · cases h

theorem moduleRefs_holdBinding (hmod : f.module = some id) (hid : (e.module? id).isSome = true)
    (k : ModuleId) :
    (e.holdBinding f).moduleRefs k = e.moduleRefs k + (f.module == some k).toNat.toUInt32 := by
  obtain ⟨m, hm⟩ := built?_of_module? hid
  simp only [holdBinding, filter_module hmod hid, moduleRefs_changeModule e id _ k hm]
  by_cases hk : k = id
  · simp [hk, hmod, moduleRefs, hm, Module.addModuleRef]
  · have hne : (some id == some k) = false := by simpa using Ne.symm hk
    simp [hk, hmod, hne]

theorem moduleRefs_dropBinding (hf : e.function? target = some f) (hmod : f.module = some id)
    (hid : (e.module? id).isSome = true) (k : ModuleId) :
    (e.dropBinding target).moduleRefs k = e.moduleRefs k - (f.module == some k).toNat.toUInt32 := by
  obtain ⟨m, hm⟩ := built?_of_module? hid
  simp only [dropBinding, hf, Option.bind_some, filter_module hmod hid,
    moduleRefs_changeModule e id _ k hm]
  by_cases hk : k = id
  · simp [hk, hmod, moduleRefs, hm, Module.dropModuleRef]
  · have hne : (some id == some k) = false := by simpa using Ne.symm hk
    simp [hk, hmod, hne]

theorem bindsTo_bound (hslot : slot.bound = some target) (hf : e.function? target = some f)
    (k : ModuleId) : e.bindsTo k slot = (f.module == some k) := by
  simp [bindsTo, hslot, hf]

theorem bindsTo_unbound (e : Engine) (slot : ImportSlot) (hslot : slot.bound = none)
    (k : ModuleId) : e.bindsTo k slot = false := by
  simp [bindsTo, hslot]

/-- One slot has got another binding, and the counts have followed. -/
theorem Linked.rebound (h : e.Linked) (hroster : e'.roster = e.roster)
    {before after : List ImportSlot} {bound : Option FunctionId}
    (hslots : e.slots = before ++ slot :: after)
    (hslots' : e'.slots = before ++ { slot with bound } :: after)
    (hbnd : ∀ target, bound = some target →
      ∃ f, e.function? target = some f ∧ f.kind = .script ∧ f.signature = slot.declaration.signature)
    (hrefs : ∀ k, e'.moduleRefs k =
      e.moduleRefs k + (e.bindsTo k { slot with bound }).toNat.toUInt32 -
        (e.bindsTo k slot).toNat.toUInt32) : e'.Linked := by
  have hdir := directory_of_roster hroster
  have hfn := function?_of_directory hdir
  refine { h.toFiled.of_directory hdir with resolved := ?_, counted := ?_ }
  · intro s hs target htgt
    rw [hfn]
    rw [hslots', List.mem_append, List.mem_cons] at hs
    have hold (hs : s ∈ e.slots) := h.resolved s hs target htgt
    rw [hslots, List.mem_append, List.mem_cons] at hold
    obtain hs | rfl | hs := hs
    · exact hold (.inl hs)
    · exact hbnd target htgt
    · exact hold (.inr (.inr hs))
  · intro k
    have hcnt : e'.bindingsTo k + (e.bindsTo k slot).toNat =
        e.bindingsTo k + (e.bindsTo k { slot with bound }).toNat := by
      simp only [bindingsTo, bindsTo_of_functions hfn, hslots, hslots', List.countP_append,
        List.countP_cons]
      cases e.bindsTo k slot <;> cases e.bindsTo k { slot with bound } <;> simp <;> omega
    have hws := congrArg Nat.toUInt32 hcnt
    simp only [Nat.toUInt32_eq, UInt32.ofNat_add] at hws ⊢
    rw [hrefs k, h.counted k]
    grind

theorem Linked.script_module (h : e.Linked) (hslot : slot ∈ e.slots)
    (htgt : slot.bound = some target) :
    ∃ f id, e.function? target = some f ∧ f.module = some id ∧ (e.module? id).isSome = true := by
  obtain ⟨f, hf, hkind, -⟩ := h.resolved slot hslot target htgt
  obtain ⟨id, hmod, hid⟩ := h.toFiled.module_of_script hf hkind
  exact ⟨f, id, hf, hmod, hid⟩

theorem module?_isSome_of_roster (h : e'.roster = e.roster) (id : ModuleId) :
    (e'.module? id).isSome = (e.module? id).isSome := by
  have hdir := directory_of_roster h
  have hbuilt : (e'.built? id).isSome = (e.built? id).isSome := by
    rw [← Option.isSome_map (f := Module.core), core_of_directory hdir, Option.isSome_map]
  rw [module?_eq, module?_eq, present_of_directory hdir]
  split
  · exact hbuilt
  · rfl

theorem Linked.released (h : e.Linked) (hroster : e'.roster = e.roster) (hslot : slot ∈ e.slots)
    {old : FunctionId} (hold : slot.bound = some old) (k : ModuleId) :
    (e'.dropBinding old).moduleRefs k = e'.moduleRefs k - (e.bindsTo k slot).toNat.toUInt32 := by
  obtain ⟨f, id, hf, hmod, hid⟩ := h.script_module hslot hold
  have hf' : e'.function? old = some f := by
    rw [function?_of_directory (directory_of_roster hroster), hf]
  have hid' : (e'.module? id).isSome = true := by rw [module?_isSome_of_roster hroster, hid]
  rw [moduleRefs_dropBinding hf' hmod hid', bindsTo_bound hold hf]

theorem Linked.bind (h : e.Linked) (id : ModuleId) (index : Nat) (target : FunctionId) :
    (e.bind id index target).2.Linked := by
  have hroster := roster_bind e id index target
  unfold Engine.bind at hroster ⊢
  split
  · exact h
  · rename_i slot hfd
    obtain ⟨m, hm, hslot⟩ := Option.bind_eq_some_iff.mp hfd
    rw [hfd] at hroster
    split
    · exact h
    · rename_i f hf
      simp only [hf] at hroster
      split
      · exact h
      · rename_i hfits
        rw [if_neg hfits] at hroster
        simp only [not_or, Decidable.not_not] at hfits
        obtain ⟨hsig, -, hkind⟩ := hfits
        obtain ⟨t, hmod, ht⟩ := h.toFiled.module_of_script hf hkind
        obtain ⟨m', hm', himps⟩ := imports_holdBinding f hm
        rw [← himps] at hslot
        obtain ⟨before, after, hslots, hslots'⟩ := slots_setBinding hm' hslot (some target)
        rw [slots_holdBinding] at hslots
        have hmem : slot ∈ e.slots := by simp [hslots]
        have hbnd (k : FunctionId) (hk : some target = some k) :
            ∃ f, e.function? k = some f ∧ f.kind = .script ∧
              f.signature = slot.declaration.signature := by
          cases hk
          exact ⟨f, hf, hkind, hsig⟩
        have hheld (k : ModuleId) :
            ((e.holdBinding f).setBinding id index (some target)).moduleRefs k =
            e.moduleRefs k + (e.bindsTo k { slot with bound := some target }).toNat.toUInt32 := by
          rw [moduleRefs_setBinding, moduleRefs_holdBinding hmod ht, bindsTo_bound rfl hf]
        have hset : ((e.holdBinding f).setBinding id index (some target)).roster = e.roster := by
          rw [roster_setBinding, roster_holdBinding]
        cases hold : slot.bound with
        | none =>
          rw [hold] at hroster
          refine h.rebound hroster hslots hslots' hbnd fun k => ?_
          rw [hheld, bindsTo_unbound e slot hold]
          simp
        | some old =>
          rw [hold] at hroster
          refine h.rebound hroster hslots ((slots_dropBinding _ old).trans hslots') hbnd fun k => ?_
          rw [h.released hset hmem hold, hheld]

theorem Linked.unbind (h : e.Linked) (id : ModuleId) (index : Nat) :
    (e.unbind id index).2.Linked := by
  have hroster := roster_unbind e id index
  unfold Engine.unbind at hroster ⊢
  split
  · exact h
  · rename_i slot hfd
    obtain ⟨m, hm, hslot⟩ := Option.bind_eq_some_iff.mp hfd
    rw [hfd] at hroster
    obtain ⟨before, after, hslots, hslots'⟩ := slots_setBinding hm hslot none
    have hmem : slot ∈ e.slots := by simp [hslots]
    have hset := roster_setBinding e id index none
    cases hold : slot.bound with
    | none =>
      simp only [hold] at hroster
      refine h.rebound hroster hslots hslots' (by simp) fun k => ?_
      rw [moduleRefs_setBinding, bindsTo_unbound e { slot with bound := none } rfl,
        bindsTo_unbound e slot hold]
      simp
    | some old =>
      simp only [hold] at hroster
      refine h.rebound hroster hslots ((slots_dropBinding _ old).trans hslots') (by simp) fun k => ?_
      rw [h.released hset hmem hold, moduleRefs_setBinding,
        bindsTo_unbound e { slot with bound := none } rfl]
      simp

theorem Linked.bindAll (h : e.Linked) (id : ModuleId) : (e.bindAll id).2.Linked :=
  bindAll_keeps (fun _ index target he => he.bind id index target) h

theorem Linked.unbindAll (h : e.Linked) (id : ModuleId) : (e.unbindAll id).Linked :=
  List.foldlRecOn _ _ h fun _ he index _ => he.unbind id index

theorem built?_new (config : Config) (id : ModuleId) : ({ config } : Engine).built? id = none := by
  simp [built?]

theorem function?_new (config : Config) (k : FunctionId) :
    ({ config } : Engine).function? k = none := by
  unfold function?
  cases h : (#[none] : Array (Option Func))[k.val.toNat]? with
  | none => rfl
  | some f =>
    have hmem := Array.mem_of_getElem? h
    rw [Array.mem_singleton.mp hmem]
    rfl

theorem linked_new (config : Config) : ({ config } : Engine).Linked where
  own_id hm := by
    rw [built?_new] at hm
    cases hm
  present_built id hid := nomatch hid
  present_once := List.nodup_nil
  filed hid := nomatch hid
  owned hf := by
    rw [function?_new] at hf
    cases hf
  resolved slot hslot := nomatch hslot
  counted id := by
    rw [moduleRefs, built?_new]
    rfl

end Engine
end ScriptVm
