import ScriptVm.Engine.Build
import ScriptVm.Proofs.Engine.Roster

namespace ScriptVm

/-- Control cannot leave such code: it ends with an instruction that never goes on to the next one,
and its jumps stay inside. -/
structure Func.Closed (f : Func) : Prop where
  ends : ∃ last, f.code.back? = some last ∧ last.isTerminator = true
  jumps : ∀ (pc : Nat) (i : Instr) (offset : Int32), f.code[pc]? = some i →
    i.jumpOffset? = some offset →
    0 ≤ (pc : Int) + 1 + offset.toInt ∧ (pc : Int) + 1 + offset.toInt < f.code.size

def Func.Sealed (f : Func) : Prop := f.kind = .script → f.Closed

theorem Func.Closed.size_pos {f : Func} (h : f.Closed) : 0 < f.code.size := by
  obtain ⟨last, hlast, -⟩ := h.ends
  cases hsize : f.code.size with
  | zero => simp [Array.back?, hsize] at hlast
  | succ n => omega

theorem Func.Closed.next_lt {f : Func} (h : f.Closed) {pc : Nat} {i : Instr}
    (hi : f.code[pc]? = some i) (hterm : i.isTerminator = false) : pc + 1 < f.code.size := by
  obtain ⟨last, hlast, hend⟩ := h.ends
  have hlt : pc < f.code.size := (Array.getElem?_eq_some_iff.mp hi).1
  by_cases hpc : pc = f.code.size - 1
  · rw [Array.back?, ← hpc, hi] at hlast
    cases hlast
    rw [hterm] at hend
    cases hend
  · omega

namespace Scope

variable {f : Func} {s : Scope} {pc : Nat} {i : Instr}

theorem bind_ok {ε α β : Type} {x : Except ε α} {f : α → Except ε β} {b : β}
    (h : (x >>= f) = .ok b) : ∃ a, x = .ok a ∧ f a = .ok b := by
  cases x with
  | error e => cases h
  | ok a => exact ⟨a, rfl, h⟩

theorem checkInstr_jump {offset : Int32} (h : s.checkInstr f pc i = .ok ())
    (hjump : i.jumpOffset? = some offset) :
    0 ≤ (pc : Int) + 1 + offset.toInt ∧ (pc : Int) + 1 + offset.toInt < f.code.size := by
  simp only [checkInstr, hjump] at h
  split at h
  · cases h
  · omega

theorem checkInstr_vars (h : s.checkInstr f pc i = .ok ()) {v : Int16} (hv : v ∈ i.vars) :
    f.inFrame v = true := by
  cases hfind : i.vars.find? fun v => !f.inFrame v with
  | none => simpa using List.find?_eq_none.mp hfind v hv
  | some offset =>
    simp only [checkInstr, hfind] at h
    split at h
    · split at h
      · cases h
      · cases h
    · cases h

theorem checkCode_ok {code : List Instr} (h : s.checkCode f pc code = .ok ()) {k : Nat}
    (hi : code[k]? = some i) : s.checkInstr f (pc + k) i = .ok () := by
  induction code generalizing pc k with
  | nil => cases hi
  | cons first code ih =>
    obtain ⟨_, hfst, hrest⟩ := bind_ok h
    cases k with
    | zero =>
      cases hi
      exact hfst
    | succ k =>
      have hnext := ih hrest hi
      rwa [Nat.add_assoc, Nat.add_comm 1 k] at hnext

theorem checkFunc_script (h : s.checkFunc f = .ok ()) (hkind : f.kind = .script) :
    (∃ last, f.code.back? = some last ∧ last.isTerminator = true) ∧
      (f.objectVars.find? fun v => !f.isLocal v.offset) = none ∧
        s.checkCode f 0 f.code.toList = .ok () := by
  simp only [checkFunc, hkind] at h
  cases hback : f.code.back? with
  | none =>
    simp only [hback] at h
    cases h
  | some last =>
    simp only [hback] at h
    split at h
    · cases h
    · rename_i hterm
      split at h
      · cases h
      · split at h
        · cases h
        · rename_i hvars
          exact ⟨⟨last, rfl, by simpa using hterm⟩, Option.eq_none_iff_forall_ne_some.mpr hvars, h⟩

theorem checkFunc_instr (h : s.checkFunc f = .ok ()) (hkind : f.kind = .script)
    (hi : f.code[pc]? = some i) : s.checkInstr f pc i = .ok () := by
  obtain ⟨-, -, hcode⟩ := checkFunc_script h hkind
  have hinstr := checkCode_ok hcode (k := pc) (by rwa [Array.getElem?_toList])
  rwa [Nat.zero_add] at hinstr

theorem checkFunc_sealed (h : s.checkFunc f = .ok ()) : f.Sealed := by
  intro hkind
  refine { ends := (checkFunc_script h hkind).1, jumps := fun pc i offset hi hjump => ?_ }
  exact checkInstr_jump (checkFunc_instr h hkind hi) hjump

theorem checkFunc_of_check (h : s.check f = .ok ()) : s.checkFunc f = .ok () := by
  unfold check at h
  cases hfunc : s.checkFunc f with
  | ok _ => rfl
  | error cause =>
    rw [hfunc] at h
    cases h

end Scope

namespace Engine

variable {e e' : Engine} {f : Func} {m : Module}

/-- The functions of a module that can run. -/
def codeOf (m : Module) : Array Func × Option Func := (m.functions, m.initializer)

/-- The code of an engine, and whether it is checked. -/
structure Code where
  verify : Bool
  functions : Array (Option Func)
  modules : Array (Option (Array Func × Option Func))

def code (e : Engine) : Code :=
  { verify := e.config.verify, functions := e.functions,
    modules := e.modules.map fun m => m.map codeOf }

/-- All script functions of an engine that makes checks are sealed, in the table and in modules. -/
structure Verified (e : Engine) : Prop where
  on : e.code.verify = true
  table : ∀ f, some f ∈ e.code.functions → f.Sealed
  modules : ∀ functions initializer, some (functions, initializer) ∈ e.code.modules →
    ∀ f, f ∈ functions ∨ initializer = some f → f.Sealed

theorem Verified.of_code (h : e.Verified) (hcode : e'.code = e.code) : e'.Verified := by
  constructor
  · rw [hcode]
    exact h.on
  · rw [hcode]
    exact h.table
  · rw [hcode]
    exact h.modules

theorem code_of_map (fine : Module → Module) (hfine : ∀ m, codeOf (fine m) = codeOf m)
    (hmods : (e'.modules.map fun m => m.map fine) = e.modules.map fun m => m.map fine)
    (hrest : (e'.config, e'.functions) = (e.config, e.functions)) : e'.code = e.code := by
  obtain ⟨hcfg, hfns⟩ := Prod.mk.inj hrest
  simp only [code, hcfg, hfns, modules_coarser fine codeOf hfine hmods]

theorem code_of_catalog (h : e'.catalog = e.catalog) : e'.code = e.code :=
  code_of_map Module.fixed (fun _ => rfl) (congrArg (fun e => e.modules) h)
    (congrArg (fun e => (e.config, e.functions)) h)

/-- An engine without objects, what the host is told, globals and the number of contexts that hold a
module. -/
def offer (e : Engine) : Engine :=
  { e with
    heap := {}, trace := #[]
    modules := e.modules.map fun m => m.map fun m => { m with store := #[], contextRefs := 0 } }

theorem code_of_offer (h : e'.offer = e.offer) : e'.code = e.code :=
  code_of_map (fun m => { m with store := #[], contextRefs := 0 }) (fun _ => rfl)
    (congrArg (fun e => e.modules) h)
    (congrArg (fun e => (e.config, e.functions)) h)

theorem code_of_roster (h : e'.roster = e.roster) : e'.code = e.code :=
  code_of_map Module.unlinked (fun _ => rfl) (congrArg (fun e => e.modules) h)
    (congrArg (fun e => (e.config, e.functions)) h)

theorem Verified.function? (h : e.Verified) {id : FunctionId} (hf : e.function? id = some f) :
    f.Sealed := by
  refine h.table f ?_
  obtain ⟨slot, hslot, rfl⟩ : ∃ slot, e.functions[id.val.toNat]? = some slot ∧ slot = some f := by
    simpa [Engine.function?, Option.join_eq_some_iff] using hf
  exact Array.mem_of_getElem? hslot

theorem Verified.initializer (h : e.Verified) {id : ModuleId} (hm : e.built? id = some m)
    (hf : m.initializer = some f) : f.Sealed := by
  refine h.modules m.functions m.initializer ?_ f (.inr hf)
  unfold built? at hm
  split at hm
  · cases hm
  · obtain ⟨slot, hslot, rfl⟩ : ∃ slot, e.modules[id.val.toNat - 1]? = some slot ∧
        slot = some m := by
      simpa [Option.join_eq_some_iff] using hm
    exact Array.mem_map.mpr ⟨some m, Array.mem_of_getElem? hslot, rfl⟩

theorem code_changeModule (e : Engine) (id : ModuleId) {f : Module → Module}
    (h : ∀ m, codeOf (f m) = codeOf m) : (e.changeModule id f).code = e.code := by
  have hmods := modules_changeModule codeOf e id h
  rw [changeModule_eq]
  simp only [code, hmods]

theorem mem_foldl_set {l : List Func} {value : Func → Option Func} {table : Array (Option Func)}
    {slot : Option Func}
    (h : slot ∈ l.foldl (fun fs f => fs.setIfInBounds f.id.val.toNat (value f)) table) :
    slot ∈ table ∨ ∃ f ∈ l, slot = value f := by
  induction l generalizing table with
  | nil => exact .inl h
  | cons f l ih =>
    obtain hmem | ⟨g, hg, hslot⟩ := ih h
    · obtain hmem | hslot := Array.mem_or_eq_of_mem_setIfInBounds hmem
      · exact .inl hmem
      · exact .inr ⟨f, List.mem_cons_self, hslot⟩
    · exact .inr ⟨g, List.mem_cons_of_mem f hg, hslot⟩

theorem Verified.destroyModule (h : e.Verified) (id : ModuleId) : (e.destroyModule id).Verified := by
  have hexit := h.of_code (code_of_catalog (catalog_of_hollow (hollow_exitModule e id)))
  unfold Engine.destroyModule
  dsimp only
  split
  · exact hexit
  · rename_i m _
    refine { on := hexit.on, table := fun f hf => ?_, modules := hexit.modules }
    change some f ∈ m.functions.foldl _ _ at hf
    rw [← Array.foldl_toList] at hf
    obtain hmem | ⟨g, -, hnone⟩ := mem_foldl_set hf
    · exact hexit.table f hmem
    · cases hnone

theorem Verified.collect (h : e.Verified) : e.collect.2.Verified := by
  have hunb : (e.doomed.foldl unbindAll e).Verified :=
    List.foldlRecOn e.doomed _ h fun e he id _ => he.of_code (code_of_roster (roster_unbindAll e id))
  have hdest : (e.doomed.foldl Engine.destroyModule (e.doomed.foldl unbindAll e)).Verified :=
    List.foldlRecOn e.doomed _ hunb fun _ he id _ => he.destroyModule id
  exact hdest.of_code rfl

theorem Verified.discard (h : e.Verified) (name : String) : (e.discard name).2.Verified := by
  unfold Engine.discard
  split
  · exact h
  · rename_i m _
    have hmarked := code_changeModule
      { e with live := e.live.erase m.id, discarded := e.discarded ++ [m.id] } m.id
      (f := fun m => { m with discarded := true }) fun _ => rfl
    exact (h.of_code hmarked).collect

theorem forM_ok {ε α : Type} {f : α → Except ε Unit} {l : List α} (h : l.forM f = .ok ()) {a : α}
    (ha : a ∈ l) : f a = .ok () := by
  induction l with
  | nil => cases ha
  | cons b l ih =>
    obtain ⟨_, hb, hl⟩ := Scope.bind_ok h
    cases ha with
    | head => exact hb
    | tail _ ha => exact ih hl ha

theorem checkModule_func (h : e.checkModule m = .ok ())
    (hf : f ∈ m.functions ∨ m.initializer = some f) : (e.scope m).checkFunc f = .ok () := by
  have hall : (m.functions.toList ++ m.initializer.toList).forM (e.scope m).check = .ok () := by
    unfold checkModule at h
    cases hforM : (m.functions.toList ++ m.initializer.toList).forM (e.scope m).check with
    | ok _ => rfl
    | error err =>
      rw [hforM] at h
      cases h
  have hmem : f ∈ m.functions.toList ++ m.initializer.toList := by
    rw [List.mem_append, Array.mem_toList_iff, Option.mem_toList]
    exact hf
  exact Scope.checkFunc_of_check (forM_ok hall hmem)

theorem checkModule_sealed (h : e.checkModule m = .ok ())
    (hf : f ∈ m.functions ∨ m.initializer = some f) : f.Sealed :=
  Scope.checkFunc_sealed (checkModule_func h hf)

section

variable (h : e.Verified)
include h

theorem Verified.install (hm : ∀ f, f ∈ m.functions ∨ m.initializer = some f → f.Sealed) :
    (e.install m).Verified where
  on := h.on
  table f hf := by
    change some f ∈ m.functions.foldl _ _ at hf
    rw [← Array.foldl_toList] at hf
    obtain hmem | ⟨g, hg, hsome⟩ := mem_foldl_set hf
    · exact h.table f hmem
    · cases hsome
      exact hm f (.inl (Array.mem_toList_iff.mp hg))
  modules functions initializer hmem := by
    obtain ⟨slot, hslot, hcode⟩ := Array.mem_map.mp hmem
    obtain hold | rfl := Array.mem_or_eq_of_mem_setIfInBounds hslot
    · exact h.modules functions initializer (Array.mem_map.mpr ⟨slot, hold, hcode⟩)
    · cases hcode
      exact hm

theorem Verified.finish (d : Draft) : (e.finish d).2.Verified := by
  unfold Engine.finish
  split
  · exact h
  · dsimp only
    split
    · exact h
    · rename_i functions _ _ _ hchk
      have hon : e.config.verify = true := h.on
      rw [if_pos hon] at hchk
      split
      · exact h
      · exact h.install fun f hf => checkModule_sealed hchk hf

theorem Verified.build (d : Draft) : (e.build d).2.Verified := by
  unfold Engine.build beginBuild
  split
  · exact h
  · rename_i e' hbegin
    split at hbegin
    · cases hbegin
    · cases hbegin
      have hbegun : { e with building := true }.Verified := h.of_code rfl
      exact (hbegun.finish d).of_code rfl

theorem Verified.registerHost (f : Func) (body : HostBody) : (e.registerHost f body).2.Verified where
  on := h.on
  table g hg := by
    obtain hold | hnew := Array.mem_push.mp hg
    · exact h.table g hold
    · cases hnew
      intro hkind
      cases hkind
  modules := h.modules

theorem Verified.reserveFunction : e.reserveFunction.2.Verified where
  on := h.on
  table f hf := by
    obtain hold | hnew := Array.mem_push.mp hf
    · exact h.table f hold
    · cases hnew
  modules := h.modules

theorem Verified.beginModule (name : String) : (e.beginModule name).2.Verified where
  on := h.on
  table := h.table
  modules functions initializer hmem := by
    obtain ⟨slot, hslot, hcode⟩ := Array.mem_map.mp hmem
    obtain hold | rfl := Array.mem_push.mp hslot
    · exact h.modules functions initializer (Array.mem_map.mpr ⟨slot, hold, hcode⟩)
    · cases hcode

theorem Verified.registerType (type : ObjectType) : (e.registerType type).2.Verified := by
  unfold Engine.registerType
  split
  · exact h.of_code rfl
  · exact h

end

/-- What can happen to an engine: all that its host does with it, and whatever code does to globals,
objects and counts. -/
inductive Change : Engine → Engine → Prop where
  | registerType (e : Engine) (type : ObjectType) : Change e (e.registerType type).2
  | registerHost (e : Engine) (f : Func) (body : HostBody) : Change e (e.registerHost f body).2
  | reserveFunction (e : Engine) : Change e e.reserveFunction.2
  | beginModule (e : Engine) (name : String) : Change e (e.beginModule name).2
  | build (e : Engine) (d : Draft) : Change e (e.build d).2
  | bind (e : Engine) (id : ModuleId) (index : Nat) (target : FunctionId) :
    Change e (e.bind id index target).2
  | bindAll (e : Engine) (id : ModuleId) : Change e (e.bindAll id).2
  | unbind (e : Engine) (id : ModuleId) (index : Nat) : Change e (e.unbind id index).2
  | unbindAll (e : Engine) (id : ModuleId) : Change e (e.unbindAll id)
  | discard (e : Engine) (name : String) : Change e (e.discard name).2
  | collect (e : Engine) : Change e e.collect.2
  | run {e e' : Engine} (h : e'.offer = e.offer) : Change e e'

theorem Verified.change (h : e.Verified) (hchg : Change e e') : e'.Verified := by
  cases hchg with
  | registerType type => exact h.registerType type
  | registerHost f body => exact h.registerHost f body
  | reserveFunction => exact h.reserveFunction
  | beginModule name => exact h.beginModule name
  | build d => exact h.build d
  | bind id index target => exact h.of_code (code_of_roster (roster_bind e id index target))
  | bindAll id => exact h.of_code (code_of_roster (roster_bindAll e id))
  | unbind id index => exact h.of_code (code_of_roster (roster_unbind e id index))
  | unbindAll id => exact h.of_code (code_of_roster (roster_unbindAll e id))
  | discard name => exact h.discard name
  | collect => exact h.collect
  | run hoffer => exact h.of_code (code_of_offer hoffer)

theorem verified_new {config : Config} (h : config.verify = true) :
    ({ config } : Engine).Verified where
  on := h
  table f hf := by simp [code] at hf
  modules functions initializer hmem := by simp [code] at hmem

end Engine

end ScriptVm
