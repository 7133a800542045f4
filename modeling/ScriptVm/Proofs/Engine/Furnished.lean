import ScriptVm.Proofs.Engine.Registered

namespace ScriptVm

namespace Instr

def global? : Instr → Option UInt16
  | .pushGlobal slot | .pushGlobalAddress slot | .storeGlobal slot _ | .loadGlobal _ slot
  | .setGlobal slot _ | .referGlobal slot
  | .referLoadGlobal _ slot => some slot
  | _ => none

def string? : Instr → Option UInt16
  | .pushString index => some index
  | _ => none

def type? : Instr → Option TypeId
  | .alloc type _ | .free type | .assignHandle type | .pushType type => some type
  | _ => none

def callee? : Instr → Option FunctionId
  | .call id | .callHost id | .callMethod id | .alloc _ id => some id
  | _ => none

end Instr

namespace Scope

variable {s : Scope} {f : Func} {pc : Nat} {i : Instr}

theorem checkInstr_names (h : s.checkInstr f pc i = .ok ()) : s.checkNames pc i = .ok () := by
  have hvars : (i.vars.find? fun v => !f.inFrame v) = none := by
    apply List.find?_eq_none.mpr
    intro v hv
    simpa using checkInstr_vars h hv
  simp only [checkInstr, hvars] at h
  split at h
  · split at h
    · cases h
    · exact h
  · exact h

theorem checkNames_global {slot : UInt16} (h : s.checkNames pc i = .ok ())
    (hi : i.global? = some slot) : slot.toNat < s.globals := by
  have hgl : s.checkGlobal pc slot = .ok () := by
    cases i <;> cases hi <;> exact h
  unfold checkGlobal at hgl
  split at hgl
  · assumption
  · cases hgl

theorem checkNames_string {index : UInt16} (h : s.checkNames pc i = .ok ())
    (hi : i.string? = some index) : index.toNat < s.strings := by
  cases i <;> cases hi
  simp only [checkNames] at h
  split at h
  · assumption
  · cases h

theorem checkNames_type {id : TypeId} (h : s.checkNames pc i = .ok ()) (hi : i.type? = some id) :
    s.hasType id = true := by
  have htype : s.checkType pc id = .ok () := by
    cases i with
    | alloc type constructor =>
      cases hi
      obtain ⟨_, htype, -⟩ := bind_ok h
      exact htype
    | free | assignHandle | pushType =>
      cases hi
      exact h
    | _ => cases hi
  unfold checkType at htype
  split at htype
  · assumption
  · cases htype

end Scope

/-- The module has what an instruction names, and the engine the type. -/
structure Module.Provides (m : Module) (types : Registry) (i : Instr) : Prop where
  global : ∀ slot, i.global? = some slot → ∃ g, m.globals[slot.toNat]? = some g ∧
    g.offset.toNat < m.store.size
  string : ∀ index, i.string? = some index → index.toNat < m.strings.size
  type : ∀ id, i.type? = some id → (types.get? id).isSome = true

/-- The module has all that its script functions name. -/
structure Module.Furnished (m : Module) (types : Registry) : Prop where
  provides : ∀ f, f ∈ m.functions ∨ m.initializer = some f → f.kind = .script →
    ∀ i ∈ f.code, m.Provides types i
  initializer : ∀ f, m.initializer = some f → f.module = some m.id

theorem Module.Furnished.of_core {m m' : Module} {types types' : Registry} (h : m.Furnished types)
    (hcore : m'.core = m.core)
    (htypes : ∀ id, (types.get? id).isSome = true → (types'.get? id).isSome = true) :
    m'.Furnished types' := by
  have hid : m'.id = m.id := congrArg (fun m => m.id) hcore
  have hfns : m'.functions = m.functions := congrArg (fun m => m.functions) hcore
  have hini : m'.initializer = m.initializer := congrArg (fun m => m.initializer) hcore
  have hgls : m'.globals = m.globals := congrArg (fun m => m.globals) hcore
  have hstrings : m'.strings = m.strings := congrArg (fun m => m.strings) hcore
  have hstore : m'.store.size = m.store.size := by
    have hsize := congrArg (fun m => m.store.size) hcore
    simpa [Module.core] using hsize
  constructor
  · intro f hf hkind i hi
    rw [hfns, hini] at hf
    have hprov := h.provides f hf hkind i hi
    constructor
    · rw [hgls, hstore]
      exact hprov.global
    · rw [hstrings]
      exact hprov.string
    · intro id hid
      exact htypes id (hprov.type id hid)
  · rw [hini, hid]
    exact h.initializer

/-- The initializer of a draft belongs to its module, and every global begins in its store. -/
structure Draft.Laid (d : Draft) : Prop where
  initializer : ∀ f, d.initializer = some f → f.module = some d.id
  globals : ∀ g ∈ d.globals, g.offset.toNat < d.storeWords

theorem Draft.Laid.edit {d d' : Draft} (h : d.Laid) (hedit : d.Edit d') : d'.Laid := by
  cases hedit with
  | define id f | addImport f => exact ⟨h.initializer, h.globals⟩
  | setInitializer f =>
    refine ⟨?_, h.globals⟩
    intro g hg
    cases hg
    rfl
  | addGlobal name type =>
    refine ⟨h.initializer, ?_⟩
    have hroom : d.storeWords < d.storeWords + max type.words 1 := by omega
    intro g hg
    rcases Array.mem_push.mp hg with hg | rfl
    · exact Nat.lt_trans (h.globals g hg) hroom
    · show d.storeWords.toUInt32.toNat < d.storeWords + max type.words 1
      have hle : d.storeWords.toUInt32.toNat ≤ d.storeWords := Nat.mod_le _ _
      omega
  | addString text =>
    unfold Draft.addString
    split
    · exact h
    · exact ⟨h.initializer, h.globals⟩

theorem Draft.Laid.declare {d : Draft} (h : d.Laid) (id : FunctionId) (name : String) :
    (d.declare id name).Laid :=
  ⟨h.initializer, h.globals⟩

namespace Engine

variable {e e' : Engine}

/-- A module that passes its checks has all that its functions name. -/
theorem furnished_of_check {d : Draft} (h : d.Laid) {functions : Array Func}
    (hchk : e.checkModule (d.toModule functions) = .ok ()) :
    (d.toModule functions).Furnished e.types := by
  refine ⟨?_, h.initializer⟩
  intro f hf hkind i hi
  obtain ⟨pc, hpc⟩ := Array.getElem?_of_mem hi
  have hinstr := Scope.checkFunc_instr (checkModule_func hchk hf) hkind hpc
  have hnames := Scope.checkInstr_names hinstr
  constructor
  · intro slot hslot
    have hlt : slot.toNat < d.globals.size := Scope.checkNames_global hnames hslot
    refine ⟨d.globals[slot.toNat], Array.getElem?_eq_getElem hlt, ?_⟩
    have hoff := h.globals _ (Array.getElem_mem hlt)
    simpa [Draft.toModule] using hoff
  · intro index hidx
    exact Scope.checkNames_string hnames hidx
  · intro id hid
    exact Scope.checkNames_type hnames hid

/-- An engine that makes checks, in which every module that was built is furnished. -/
structure Furnished (e : Engine) : Prop where
  on : e.config.verify = true
  modules : ∀ {id m}, e.built? id = some m → m.Furnished e.types

/-- The engine makes checks as before, and types that were registered stay. -/
structure Supplies (e e' : Engine) : Prop where
  config : e'.config = e.config
  types : ∀ id, (e.types.get? id).isSome = true → (e'.types.get? id).isSome = true

theorem Supplies.of_eq (h : (e'.config, e'.types) = (e.config, e.types)) : e.Supplies e' where
  config := congrArg Prod.fst h
  types id hid := by
    have htypes : e'.types = e.types := congrArg Prod.snd h
    rwa [htypes]

theorem Supplies.trans {a b c : Engine} (h1 : a.Supplies b) (h2 : b.Supplies c) : a.Supplies c where
  config := h2.config.trans h1.config
  types id hid := h2.types id (h1.types id hid)

theorem supplies_registerType (e : Engine) (type : ObjectType) :
    e.Supplies (e.registerType type).2 where
  config := (untouched_registerType e type).config
  types id hid := by
    obtain ⟨found, hfd⟩ := Option.isSome_iff_exists.mp hid
    rw [(untouched_registerType e type).types hfd]
    rfl

theorem supplies_collect (e : Engine) : e.Supplies e.collect.2 := by
  apply Supplies.of_eq
  have hdest := congrArg (fun e => (e.config, e.types)) (hollow_destroyAll e.doomed e.doomedUnbound)
  exact hdest.trans (congrArg (fun e => (e.config, e.types)) (roster_doomedUnbound e))

theorem supplies_discard (e : Engine) (name : String) : e.Supplies (e.discard name).2 := by
  cases hm : e.moduleNamed? name with
  | none =>
    rw [discard, hm]
    exact .of_eq rfl
  | some m =>
    rw [discard_eq hm]
    have hretire : ((e.retire m.id).config, (e.retire m.id).types) = (e.config, e.types) := by
      rw [retire, changeModule_eq]
    exact (Supplies.of_eq hretire).trans (supplies_collect (e.retire m.id))

theorem supplies_build (e : Engine) (d : Draft) : e.Supplies (e.build d).2 := by
  rcases build_cases e d with heq | ⟨functions, -, heq⟩
  · rw [heq]
    exact .of_eq rfl
  · rw [heq]
    exact .of_eq rfl

theorem Furnished.of_core (h : e.Furnished) (hsup : e.Supplies e')
    (hcore : ∀ id, (e'.built? id).map Module.core = (e.built? id).map Module.core) :
    e'.Furnished where
  on := by
    rw [hsup.config]
    exact h.on
  modules {id m} hm := by
    obtain ⟨m', hm', hsame⟩ := built?_of_core (hcore id).symm hm
    exact (h.modules hm').of_core hsame.symm hsup.types

theorem Furnished.of_catalog (h : e.Furnished) (hcat : e'.catalog = e.catalog) : e'.Furnished := by
  have hsame : (e'.config, e'.types) = (e.config, e.types) :=
    congrArg (fun e => (e.config, e.types)) hcat
  exact h.of_core (.of_eq hsame) (core_of_directory (directory_of_catalog hcat))

theorem furnished_new {config : Config} (h : config.verify = true) :
    ({ config } : Engine).Furnished where
  on := h
  modules hm := by
    rw [built?_new] at hm
    cases hm

theorem Furnished.install (h : e.Furnished) {m : Module} (hfresh : e.Fresh m)
    (hm : m.Furnished e.types) : (e.install m).Furnished where
  on := h.on
  modules {id m'} hm' := by
    rw [built?_install hfresh] at hm'
    split at hm'
    · cases hm'
      exact hm
    · exact h.modules hm'

theorem Furnished.build (h : e.Furnished) {drafts : List Draft} (hdr : e.Drafting drafts)
    {d : Draft} (hd : d ∈ drafts) (hlaid : d.Laid) : (e.build d).2.Furnished := by
  rcases build_installs e d with heq | ⟨functions, hok, hchk, -, heq⟩
  · rw [heq]
    exact h
  · rw [heq]
    exact h.install (hdr.fresh hd hok) (furnished_of_check hlaid (hchk h.on))

theorem built?_discard (e : Engine) (name : String) (id : ModuleId) :
    ((e.discard name).2.built? id).map Module.core = (e.built? id).map Module.core := by
  cases hm : e.moduleNamed? name with
  | none => rw [discard, hm]
  | some m =>
    rw [discard_eq hm, built?_collect]
    exact built?_of_map Module.core (map_retire Module.core (fun _ => rfl) e m.id) id

end Engine

end ScriptVm
