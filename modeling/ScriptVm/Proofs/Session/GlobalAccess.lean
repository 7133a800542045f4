import ScriptVm.Proofs.Session.Preparation

namespace ScriptVm

/-- The global whose address an instruction computes. -/
def Instr.refers? : Instr → Option UInt16
  | .pushGlobalAddress slot | .referGlobal slot | .referLoadGlobal _ slot => some slot
  | _ => none

namespace Exec

variable {m m' : Machine} {id : ModuleId} {g : Module} {slot : UInt16} {v : Global} {nested : Nested}

/-- The address that such an instruction has left, on top of the stack or in the register. -/
def computed? (m : Machine) : Instr → Option Address
  | .pushGlobalAddress _ => topAddress? m
  | _ => Address.ofBits? m.ctx.register

/-- The instructions that name a global read and write it as this cell: no other cell changes, and
if the cell is not there they are bad code. -/
structure Names (nested : Nested) (m : Machine) (slot : UInt16) (c : Cell) : Prop where
  push : ∀ w, m.cell? c = some w →
    exec nested (.pushGlobal slot) m = (push w >>= fun _ => pure .go) m
  load : ∀ w, m.cell? c = some w →
    ∀ var, exec nested (.loadGlobal var slot) m = (setVar var w >>= fun _ => pure .go) m
  set : (m.cell? c).isSome = true → ∀ w, ∃ m', exec nested (.setGlobal slot w) m = .ok .go m' ∧
    ∀ d, m'.cell? d = if d = c then some w else m.cell? d
  store : ∀ var w, getVar var m = .ok w m →
    exec nested (.storeGlobal slot var) m = exec nested (.setGlobal slot w) m
  fault : m.cell? c = none → exec nested (.pushGlobal slot) m = .error (.cause .badCode) m ∧
    (∀ var, exec nested (.loadGlobal var slot) m = .error (.cause .badCode) m) ∧
    ∀ w, exec nested (.setGlobal slot w) m = .error (.cause .badCode) m

theorem setVar_ok {var : Int16} {w : UInt32} (h : setVar var w m = .ok () m') :
    ∃ stack, m' = m.onStack fun _ => stack := by
  obtain ⟨p, m1, hp, hwr⟩ := bind_ok h
  have hsame : m1 = m := (orFail_ok (m := m) hp).2
  subst hsame
  change (if m1.ctx.stack.contains p then modify fun m => m.onStack fun s =>
      s.set p w else fail .badCode : Exec Fault Unit) m1 = _
    at hwr
  split at hwr
  · cases hwr
    exact ⟨_, rfl⟩
  · cases hwr

section Current

variable (hmodule : m.ctx.module = some id) (hg : m.engine.built? id = some g) (hid : g.id = id)
  (hslot : g.globals[slot.toNat]? = some v)

include hmodule hg hid hslot

theorem names_current : Names nested m slot (.global id v.offset.toNat) := by
  have hcur := currentModule_eq hmodule hg
  have hcell : m.cell? (.global id v.offset.toNat) = g.store[v.offset.toNat]? := by
    rw [Machine.cell?, hg]
    rfl
  have hread {w : UInt32} (hw : m.cell? (.global id v.offset.toNat) = some w) :
      readGlobal slot m = .ok w m := by
    obtain ⟨hlt, rfl⟩ := Array.getElem?_eq_some_iff.mp (hcell.symm.trans hw)
    exact readGlobal_eq hcur hslot hlt
  have hnext {x : Exec Fault UInt32} {w : UInt32} (hx : x m = .ok w m) (f : UInt32 → Exec Fault Unit) :
      ((x >>= f) >>= fun _ => pure Flow.go) m = (f w >>= fun _ => pure Flow.go) m := by
    rw [bind_assoc, bind_of_ok hx]
  refine ⟨fun w hw => ?_, fun w hw var => ?_, fun hthere w => ?_, fun var w hw => ?_,
    fun hnone => ?_⟩
  · exact hnext (hread hw) push
  · exact hnext (hread hw) (setVar var)
  · obtain ⟨u, hu⟩ := Option.isSome_iff_exists.mp hthere
    obtain ⟨hlt, -⟩ := Array.getElem?_eq_some_iff.mp (hcell.symm.trans hu)
    refine ⟨_, bind_of_ok (writeGlobal_eq hcur hslot hlt w), fun d => ?_⟩
    rw [hid]
    exact cell?_setGlobal hg (by simpa [Module.hasGlobalWord] using hlt) w d
  · exact hnext hw (writeGlobal slot)
  · have hstore : g.store[v.offset.toNat]? = none := hcell.symm.trans hnone
    have hmiss : readGlobal slot m = .error (.cause .badCode) m := by
      rw [readGlobal, bind_of_ok (globalOffset_eq hcur hslot), bind_of_ok hcur,
        Module.readGlobal?, hstore]
      rfl
    have hroom : ¬ g.hasGlobalWord v.offset = true := by
      simpa [Module.hasGlobalWord] using Array.getElem?_eq_none_iff.mp hstore
    refine ⟨?_, fun var => ?_, fun w => ?_⟩
    · exact bind_of_error (bind_of_error hmiss push) _
    · exact bind_of_error (bind_of_error hmiss (setVar var)) _
    · have href : writeGlobal slot w m = .error (.cause .badCode) m := by
        rw [writeGlobal, bind_of_ok (globalOffset_eq hcur hslot), bind_of_ok hcur, if_neg hroom]
        rfl
      exact bind_of_error href _

/-- Such an instruction leaves the address of the global of the current module, less what there is
no room for, and the modules as they were. -/
theorem computed_of_refers {i : Instr} (hi : i.refers? = some slot)
    (hexec : exec nested i m = .ok .go m') :
    computed? m' i = some (Address.global id v.offset).kept ∧ m'.engine = m.engine ∧
      m'.ctx.module = m.ctx.module := by
  have haddr : globalAddress slot m = .ok (.global id v.offset) m := by
    rw [globalAddress_eq (currentModule_eq hmodule hg) hslot, hid]
  cases i with
  | pushGlobalAddress k =>
    cases hi
    obtain ⟨_, m1, hpush, hgo⟩ := bind_ok hexec
    cases hgo
    obtain ⟨a, m2, ha, hpush⟩ := bind_ok hpush
    cases haddr.symm.trans ha
    obtain ⟨stop, m3, herr, -⟩ | ⟨sp, hsp, hthere, hok⟩ :=
      push64_cases (Address.global id v.offset).bits m
    · rw [hpush] at herr
      cases herr
    · cases hok.symm.trans hpush
      obtain ⟨old, hold⟩ := Stack.read64?_of_contains64 hthere
      refine ⟨?_, rfl, rfl⟩
      show ((m.ctx.stack.set64 sp _).read64? sp).bind Address.ofBits? = _
      rw [Stack.read64?_set64_self _ hold, Option.bind_some, Address.ofBits?_bits]
  | referGlobal k =>
    cases hi
    obtain ⟨_, m1, hset, hgo⟩ := bind_ok hexec
    cases hgo
    obtain ⟨a, m2, ha, hset⟩ := bind_ok hset
    cases haddr.symm.trans ha
    cases hset
    exact ⟨Address.ofBits?_bits _, rfl, rfl⟩
  | referLoadGlobal var k =>
    cases hi
    obtain ⟨_, m1, hset, hgo⟩ := bind_ok hexec
    cases hgo
    obtain ⟨a, m2, ha, hset⟩ := bind_ok hset
    cases haddr.symm.trans ha
    obtain ⟨_, m3, hreg, hrest⟩ := bind_ok hset
    cases hreg
    obtain ⟨w, m4, hread, hvar⟩ := bind_ok hrest
    have hlook : Keeps (fun m => m) (readGlobal slot) := by
      unfold readGlobal globalOffset currentModule
      infer_instance
    have hsame := hlook.of_ok hread
    subst hsame
    obtain ⟨stack, rfl⟩ := setVar_ok hvar
    exact ⟨Address.ofBits?_bits _, rfl, rfl⟩
  | _ => cases hi

omit hid in
theorem referGlobal_ok : ∃ m', exec nested (.referGlobal slot) m = .ok .go m' :=
  ⟨_, bind_of_ok ((bind_of_ok (globalAddress_eq (currentModule_eq hmodule hg) hslot)).trans rfl)⟩

end Current

theorem touches_global (hg : addressedModule? m id = some g) (offset : UInt32) :
    Touches m (.global id offset) (.global id offset.toNat) := by
  apply touches_of_cellOf?
  show ((addressedModule? m id).map fun _ => Cell.global id offset.toNat) = _
  rw [hg]
  rfl

theorem fault_of_unknown (hnone : addressedModule? m id = none) (offset : UInt32) :
    loadWord (.global id offset) m = .error (.cause .nullPointer) m ∧
      ∀ w, storeWord (.global id offset) w m = .error (.cause .nullPointer) m := by
  have hload : load? m (.global id offset) = none := by
    rw [load?, hnone]
    rfl
  exact ⟨loadWord_of_none hload, storeWord_of_none hload⟩

end Exec

namespace Workspace

open Exec

/-- Whatever modules an engine has had, instructions that name a global of the module in which they
run reach its word. An address of the global that is computed there and found again on the stack or
in the register leads to the word of the module whose number is the low 16 bits of that of the
running one, and to that word alone, or to a fault if there is no such module or word. So it leads
to the word that is named if the number of the running module has no more bits. -/
theorem global_address_touches_kept (nested : Nested) {w : Workspace} (h : w.Evolved)
    (hfits : w.engine.Fits) {m : Machine} (hm : m.catalog = w.engine.catalog) {id : ModuleId}
    {g : Module} {slot : UInt16} {v : Global} (hmodule : m.ctx.module = some id)
    (hg : m.engine.built? id = some g) (hslot : g.globals[slot.toNat]? = some v) :
    Names nested m slot (.global id v.offset.toNat) ∧
      (∃ m', exec nested (.referGlobal slot) m = .ok .go m') ∧
      ∀ i, i.refers? = some slot → ∀ m', exec nested i m = .ok .go m' →
        computed? m' i = some (.global ⟨id.val % 65536⟩ v.offset) ∧
        (∀ k offset, m'.cell? (.global k offset) = m.cell? (.global k offset)) ∧
        (id.val < 65536 → Touches m' (.global ⟨id.val % 65536⟩ v.offset) (.global id v.offset.toNat)) ∧
        ((addressedModule? m' ⟨id.val % 65536⟩).isSome = true →
          Touches m' (.global ⟨id.val % 65536⟩ v.offset) (.global ⟨id.val % 65536⟩ v.offset.toNat)) ∧
        (addressedModule? m' ⟨id.val % 65536⟩ = none →
          loadWord (.global ⟨id.val % 65536⟩ v.offset) m' = .error (.cause .nullPointer) m' ∧
            ∀ x, storeWord (.global ⟨id.val % 65536⟩ v.offset) x m' =
              .error (.cause .nullPointer) m') := by
  have hfiled :=
    (h.ordered hfits).arranged.linked.toFiled.of_directory (Engine.directory_of_catalog hm)
  have hid : g.id = id := hfiled.own_id hg
  refine ⟨names_current hmodule hg hid hslot, referGlobal_ok hmodule hg hslot,
    fun i hi m' hexec => ?_⟩
  obtain ⟨haddress, hengine, hsame⟩ := computed_of_refers hmodule hg hid hslot hi hexec
  refine ⟨haddress, fun k offset => ?_, fun hlow => ?_, fun hknown => ?_,
    fun hnone => fault_of_unknown hnone v.offset⟩
  · rw [Machine.cell?, Machine.cell?, hengine]
  · have hwhole : id.val % 65536 = id.val := by
      apply UInt32.toNat_inj.mp
      rw [UInt32.toNat_mod]
      exact Nat.mod_eq_of_lt (UInt32.lt_iff_toNat_lt.mp hlow)
    have hcurrent : addressedModule? m' id = some g := by
      rw [addressedModule?, if_pos (hsame.trans hmodule), hengine, hg]
    rw [hwhole]
    exact touches_global hcurrent v.offset
  · obtain ⟨g', hg'⟩ := Option.isSome_iff_exists.mp hknown
    exact touches_global hg' v.offset

/-- The function that is paused in a discarded module would read its count. -/
theorem global_address_touches_kept_harbored : harbored.engine.discarded = [⟨1⟩] ∧
      Names (runNested (execute 9)) (harbored.machine 1) 0 (.global ⟨1⟩ 0) ∧
      ∃ m, exec (runNested (execute 9)) (.referGlobal 0) (harbored.machine 1) = .ok .go m ∧
        Address.ofBits? m.ctx.register = some (.global ⟨1⟩ 0) ∧
          Touches m (.global ⟨1⟩ 0) (.global ⟨1⟩ 0) := by
  have hglobal : ((harbored.engine.built? ⟨1⟩).bind fun g => g.globals[(0 : UInt16).toNat]?) =
      some ⟨"count", .int, 0⟩ := by
    decide +kernel
  obtain ⟨g, hg, hslot⟩ := Option.bind_eq_some_iff.mp hglobal
  obtain ⟨hnames, ⟨m, hrefer⟩, hrefers⟩ :=
    global_address_touches_kept (runNested (execute 9)) harbored_attended.evolved harbored_fits
      (m := harbored.machine 1) rfl
      (by decide +kernel) hg hslot
  obtain ⟨haddress, -, htouches, -, -⟩ := hrefers (.referGlobal 0) rfl m hrefer
  exact ⟨by decide +kernel, hnames, m, hrefer, haddress, htouches (by decide)⟩

end Workspace

namespace Engine

variable {e e' : Engine}

theorem built?_eq_of_module? {id : ModuleId} {g : Module} (h : e.module? id = some g) :
    e.built? id = some g := by
  rw [module?_eq] at h
  split at h
  · exact h
  · cases h

theorem Untouched.module? (h : e.Untouched e') (id : ModuleId) : e'.module? id = e.module? id := by
  rw [Engine.module?, Engine.module?, h.live, h.discarded, h.modules]

theorem module?_changeModule (e : Engine) (id : ModuleId) (f : Module → Module) (k : ModuleId) :
    (e.changeModule id f).module? k = if k = id then (e.module? k).map f else e.module? k := by
  rw [module?_eq, present_changeModule, built?_changeModule, module?_eq]
  split_ifs <;> rfl

theorem module?_install {m : Module} (h : e.Fresh m) (k : ModuleId) :
    (e.install m).module? k = if k = m.id then some m else e.module? k := by
  have hpres : k ∈ (e.install m).present ↔ k = m.id ∨ k ∈ e.present := by
    simp only [present, install, List.mem_append, List.mem_singleton]
    tauto
  rw [module?_eq, built?_install h, module?_eq]
  by_cases hk : k = m.id
  · rw [if_pos (hpres.mpr (.inl hk)), if_pos hk, if_pos hk]
  · simp only [hpres, hk, false_or, if_false]

theorem build_eq_install {d : Draft} {functions : Array Func} (hidle : e.building = false)
    (hok : d.functions = .ok functions) (hchk : e.checkModule (d.toModule functions) = .ok ())
    (hname : e.moduleNamed? d.name = none) :
    (e.build d).2 = e.install (d.toModule functions) := by
  have hname : e.moduleNamed? (d.toModule functions).name = none := hname
  simp only [build_of_idle hidle, finish, hok, hchk, ite_self, hname, Option.isSome_none,
    Bool.false_eq_true, if_false]

end Engine

open Exec in
theorem Machine.settled_of_live {m : Machine} (hnone : m.ctx.module = none) {f : Func}
    {id : ModuleId} (hlive : liveModuleOf? m f = some id) : (m.settled f).ctx.module = some id ∧
      (m.settled f).engine = m.engine.changeModule id Module.addContextRef := by
  rw [Machine.settled, Machine.setModule_eq, hlive]
  refine ⟨rfl, ?_⟩
  show Engine.changeSome _ m.ctx.module _ = _
  rw [hnone]
  rfl

open Exec in
/-- After a global is set in a module whose number is too large for an address, its address leads to
a word of another module. -/
theorem Exec.stray_access {m : Machine} {id : ModuleId} {g k : Module} {slot : UInt16} {v : Global}
    {old : UInt32} (nested : Nested) (hmodule : m.ctx.module = some id)
    (hg : m.engine.built? id = some g) (hid : g.id = id) (hslot : g.globals[slot.toNat]? = some v)
    (hroom : v.offset.toNat < g.store.size) (hother : (⟨id.val % 65536⟩ : ModuleId) ≠ id)
    (hk : m.engine.module? ⟨id.val % 65536⟩ = some k) (hold : k.store[v.offset.toNat]? = some old)
    (w : UInt32) :
    ∃ m1 m2 a, exec nested (.setGlobal slot w) m = .ok .go m1 ∧
      exec nested (.referGlobal slot) m1 = .ok .go m2 ∧
      readGlobal slot m2 = .ok w m2 ∧ Address.ofBits? m2.ctx.register = some a ∧
        loadWord a m2 = .ok old m2 := by
  have hset := writeGlobal_eq (currentModule_eq hmodule hg) hslot hroom w
  rw [hid] at hset
  generalize hm1 :
    (m.onEngine fun e => e.changeModule id fun g => g.writeGlobal v.offset w) = m1 at hset
  have hmodule1 : m1.ctx.module = some id := hm1 ▸ hmodule
  have hg1 : m1.engine.built? id = some (g.writeGlobal v.offset w) := by
    rw [← hm1]
    exact (m.engine.built?_changeModule id _ id).trans (by rw [if_pos rfl, hg, Option.map_some])
  have hk1 : m1.engine.module? ⟨id.val % 65536⟩ = some k := by
    rw [← hm1]
    exact (m.engine.module?_changeModule id _ _).trans (by rw [if_neg hother, hk])
  have hslot1 : (g.writeGlobal v.offset w).globals[slot.toNat]? = some v := hslot
  obtain ⟨m2, hrefer⟩ : ∃ m2, exec nested (.referGlobal slot) m1 = .ok .go m2 :=
    referGlobal_ok hmodule1 hg1 hslot1
  obtain ⟨haddr, heng, hsame⟩ := computed_of_refers hmodule1 hg1 hid hslot1 rfl hrefer
  refine ⟨m1, m2, _, bind_of_ok hset, hrefer, ?_, haddr, ?_⟩
  · have hroom1 : v.offset.toNat < (g.writeGlobal v.offset w).store.size := by
      simpa [Module.writeGlobal] using hroom
    have hread := readGlobal_eq (currentModule_eq (hsame.trans hmodule1) (heng ▸ hg1)) hslot1 hroom1
    simpa [Module.writeGlobal] using hread
  · have haway : ¬ m2.ctx.module = some ⟨id.val % 65536⟩ := by
      rw [hsame, hmodule1]
      exact fun heq => hother (Option.some.inj heq).symm
    have hload : load? m2 (.global ⟨id.val % 65536⟩ v.offset) = some old := by
      rw [load?, addressedModule?, if_neg haway, heng, hk1]
      exact hold
    exact loadWord_of_load? hload

namespace Workspace

open Exec

variable {w : Workspace}

theorem Reachable.ask (h : w.Reachable) {number : Nat} {r : Request} {m : Machine}
    (hok : r.perform (w.machine number) = .ok () m) :
    (w.ask number r).Reachable ∧ (w.ask number r).machine number = m := by
  obtain ⟨s, heng, hdone⟩ : ∃ s : Session, s.engine = m.engine ∧
      w.toSession.inContext number r.perform = (.ok (), s.setContext number m.ctx) := by
    unfold Session.inContext
    dsimp only
    rw [hok]
    exact ⟨_, rfl, rfl⟩
  refine ⟨h.step (.request number r ?_ ?_), ?_⟩
  · rw [hdone]
    simp
  · rw [hdone]
    simp
  · let later := (w.toSession.inContext number r.perform).2
    show Machine.mk later.engine (later.context number) = m
    simp only [later, hdone, Session.context_setContext]
    exact congrArg (Machine.mk · m.ctx) heng

theorem prepare_new (hnone : w.contexts = []) {id : FunctionId} {f : Func}
    (hfd : w.engine.function? id = some f) (hkind : f.kind ≠ .imported)
    (hword : f.entryWords < 4294967296) (number : Nat) :
    prepare id (w.machine number) = .ok () ((w.machine number).settled f) := by
  have hctx :
      w.machine number = { engine := w.engine, ctx := Context.new w.engine.config.maxStack } := by
    rw [Session.machine, Session.context, hnone]
    rfl
  have hlay : (w.machine number).ctx.stack.Layered := hctx ▸ Stack.layered_new _
  rw [prepare_eq hfd hkind, prepareFunction_eq hkind]
  rw [hctx] at hlay ⊢
  exact settle_eq hlay hword

/-- Modules are begun and never finished. -/
def skip (w : Workspace) : Nat → Workspace
  | 0 => w
  | n + 1 =>
    { w.skip n with
      engine := ((w.skip n).engine.beginModule "").2
      drafts := ((w.skip n).engine.beginModule "").1 :: (w.skip n).drafts }

theorem Reachable.skip (h : w.Reachable) (n : Nat) : (w.skip n).Reachable := by
  induction n with
  | zero => exact h
  | succ n ih => exact ih.step (.engine (.beginModule ""))

theorem skip_eq (w : Workspace) (n : Nat) : w.engine.Untouched (w.skip n).engine ∧
      (w.skip n).engine.modules.size = w.engine.modules.size + n ∧
      (w.skip n).engine.functions = w.engine.functions ∧ (w.skip n).contexts = w.contexts := by
  induction n with
  | zero => exact ⟨.refl _, rfl, rfl, rfl⟩
  | succ n ih =>
    obtain ⟨hunt, hsize, hfunctions, hctxs⟩ := ih
    refine ⟨hunt.trans (Engine.untouched_beginModule _ ""), ?_, hfunctions, hctxs⟩
    show ((w.skip n).engine.modules.push none).size = _
    rw [Array.size_push, hsize, Nat.add_assoc]

/-- Gives its variable a value and finds its address. -/
def setter : Func := { name := "setter", code := #[.setGlobal 0 7, .referGlobal 0, .ret 0] }

/-- A module with a variable and this function. -/
def outfit (e : Engine) (name : String) : Engine × Draft :=
  ((e.beginModule name).2.addFunction ((e.beginModule name).1.addGlobal "count" .int).2 setter).2

/-- Such a module is made and put into use. -/
def equip (w : Workspace) (name : String) : Workspace :=
  { w with engine := ((outfit w.engine name).1.build (outfit w.engine name).2).2 }

def nextModule (e : Engine) : ModuleId := ⟨(e.modules.size + 1).toUInt32⟩

def lodged (e : Engine) : Func :=
  { setter with id := ⟨e.functions.size.toUInt32⟩, module := some (nextModule e) }

theorem contexts_equip {name : String} : (w.equip name).contexts = w.contexts := rfl

theorem untouched_outfit (e : Engine) (name : String) : e.Untouched (outfit e name).1 :=
  (e.untouched_beginModule name).trans (Engine.untouched_reserveFunction _)

theorem functions_outfit (e : Engine) (name : String) :
    (outfit e name).2.functions = .ok #[lodged e] := by
  have hdecl : (outfit e name).2.declared = #[((lodged e).id, setter.name)] := rfl
  have hdefined : (outfit e name).2.defined = [((lodged e).id, lodged e)] := rfl
  simp [Draft.functions, hdecl, hdefined]

theorem Reachable.outfit (h : w.Reachable) (name : String) :
    Reachable { w with engine := (outfit w.engine name).1,
                       drafts := (outfit w.engine name).2 :: w.drafts } := by
  have hbegun := h.step (.engine (.beginModule name))
  have hgl := hbegun.step (.engine (.edit [] w.drafts _ _ rfl (.addGlobal _ "count" .int)))
  have hdecl := hgl.step (.engine (.declare [] w.drafts _ rfl setter.name))
  exact hdecl.step (.engine (.edit [] w.drafts _ _ rfl (.define _ (lodged w.engine).id setter)))

theorem Reachable.equip (h : w.Reachable) (name : String) : (w.equip name).Reachable :=
  (h.outfit name).step (.engine (.build [] w.drafts _ rfl))

section Equipped

variable {w : Workspace} {name : String} (h : w.Reachable) (hidle : w.engine.building = false)
  (hname : w.engine.moduleNamed? name = none) (hmodules : w.engine.modules.size + 1 < 4294967296)
  (hfunctions : w.engine.functions.size < 4294967296)

include h hidle hname hmodules hfunctions

theorem equip_lookups :
    (w.equip name).engine.function? (lodged w.engine).id = some (lodged w.engine) ∧
      ∃ g : Module, g.id = nextModule w.engine ∧ g.globals = #[⟨"count", .int, 0⟩] ∧ g.store = #[0] ∧
        ∀ k, (w.equip name).engine.module? k = if k = nextModule w.engine then some g
          else w.engine.module? k := by
  have hunt := untouched_outfit w.engine name
  have hmoduleSize : (outfit w.engine name).1.modules.size = w.engine.modules.size + 1 :=
    Array.size_push _
  have hfunctionSize : (outfit w.engine name).1.functions.size = w.engine.functions.size + 1 :=
    Array.size_push _
  have hdr := (h.outfit name).drafting (hmoduleSize ▸ hmodules) (hfunctionSize ▸ hfunctions)
  have hfresh := hdr.fresh List.mem_cons_self (functions_outfit w.engine name)
  have hinst : (w.equip name).engine = _ :=
    Engine.build_eq_install (hunt.building.trans hidle) (functions_outfit w.engine name) rfl
      ((hunt.moduleNamed? name).trans hname)
  rw [hinst]
  refine ⟨(Engine.function?_install hfresh).mpr (.inr ⟨by simp [Draft.toModule], rfl⟩),
    (outfit w.engine name).2.toModule #[lodged w.engine], rfl, rfl, rfl, fun k => ?_⟩
  rw [Engine.module?_install hfresh, hunt.module?]
  rfl

theorem equip_prepare (hnone : w.contexts = []) (number : Nat) :
    ∃ m g, prepare (lodged w.engine).id ((w.equip name).machine number) = .ok () m ∧
      m.ctx.state = .prepared ∧
      m.ctx.function = some (lodged w.engine) ∧ m.ctx.module = some (nextModule w.engine) ∧
      g.id = nextModule w.engine ∧ g.globals = #[⟨"count", .int, 0⟩] ∧ g.store = #[0] ∧
      ∀ k, m.engine.module? k = if k = nextModule w.engine then some g else w.engine.module? k := by
  obtain ⟨hfn, g, hid, hgls, hstore, hlookup⟩ := equip_lookups h hidle hname hmodules hfunctions
  have hlive : liveModuleOf? ((w.equip name).machine number) (lodged w.engine) =
      some (nextModule w.engine) := by
    have hthere : ((w.equip name).engine.module? (nextModule w.engine)).isSome = true := by
      rw [hlookup, if_pos rfl]; rfl
    exact Option.filter_some_pos hthere
  have hfresh : ((w.equip name).machine number).ctx.module = none := by
    show (Session.context _ number).module = none
    rw [Session.context, contexts_equip, hnone]
    rfl
  have hword : (lodged w.engine).entryWords < 4294967296 :=
    show setter.entryWords < 4294967296 by decide
  obtain ⟨hmodule, heng⟩ := Machine.settled_of_live hfresh hlive
  refine ⟨_, g.addContextRef,
    prepare_new (contexts_equip.trans hnone) hfn FuncKind.noConfusion hword number, ?_, ?_, hmodule,
    hid, hgls, hstore, fun k => ?_⟩
  · rw [Machine.settled_ctx]
    rfl
  · rw [Machine.settled_ctx]
    rfl
  · rw [heng, Engine.module?_changeModule]
    show (if k = nextModule w.engine
        then ((w.equip name).engine.module? k).map _ else (w.equip name).engine.module? k) = _
    rw [hlookup]
    split_ifs <;> rfl

end Equipped

def single : Workspace := equip { engine := {} } "first"

/-- A module and the numbers of 65535 other ones. -/
def spread : Workspace := single.skip 65535

/-- The next module is put into use, and a context is ready for its function. -/
def strayed : Workspace := (spread.equip "last").ask 1 (.prepare ⟨2⟩)

theorem spread_reachable : spread.Reachable := ((Reachable.new {}).equip "first").skip 65535

theorem spread_eq : single.engine.Untouched spread.engine ∧ spread.engine.modules.size = 65536 ∧
      spread.engine.functions.size = 2 ∧
      spread.contexts = [] := by
  obtain ⟨hunt, hmodules, hfunctions, hctxs⟩ := single.skip_eq 65535
  exact ⟨hunt, hmodules.trans (by decide +kernel),
    (congrArg Array.size hfunctions).trans (by decide +kernel), hctxs⟩

/-- The function sets the variable of its module, and the address that it finds next leads to the
variable of the first one. -/
theorem global_address_strays : strayed.Reachable ∧ (strayed.machine 1).ctx.state = .prepared ∧
      (strayed.machine 1).ctx.module = some ⟨65537⟩ ∧
      (strayed.machine 1).ctx.function.map Func.code =
        some #[.setGlobal 0 7, .referGlobal 0, .ret 0] ∧
      ∀ nested, ∃ m1 m2 a, exec nested (.setGlobal 0 7) (strayed.machine 1) = .ok .go m1 ∧
        exec nested (.referGlobal 0) m1 = .ok .go m2 ∧ readGlobal 0 m2 = .ok 7 m2 ∧
        Address.ofBits? m2.ctx.register = some a ∧ loadWord a m2 = .ok 0 m2 := by
  obtain ⟨huntouched, hmodules, hfunctions, hcontexts⟩ := spread_eq
  have hidle : spread.engine.building = false := huntouched.building.trans (by decide +kernel)
  have hname : spread.engine.moduleNamed? "last" = none := by
    rw [huntouched.moduleNamed?, ← Option.not_isSome_iff_eq_none]
    decide +kernel
  obtain ⟨m, g, hprepare, hstate, hfunction, hmodule, hid, hglobals, hstore, hlookup⟩ :=
    equip_prepare spread_reachable hidle hname (by omega) (by omega) hcontexts 1
  have hnext : nextModule spread.engine = ⟨65537⟩ := by rw [nextModule, hmodules]; rfl
  have hlodged : (lodged spread.engine).id = ⟨2⟩ := by rw [lodged, hfunctions]; rfl
  rw [hnext] at hmodule hid hlookup
  rw [hlodged] at hprepare
  obtain ⟨hreachable, rfl⟩ := (spread_reachable.equip "last").ask (r := .prepare ⟨2⟩) hprepare
  refine ⟨hreachable, hstate, hmodule, congrArg (Option.map Func.code) hfunction, fun nested => ?_⟩
  have hfirst : (single.engine.module? ⟨1⟩).any (fun k => k.store == #[0]) = true := by
    decide +kernel
  obtain ⟨k, hk, hzero⟩ := (Option.any_eq_true _ _).mp hfirst
  have hg := Engine.built?_eq_of_module? ((hlookup ⟨65537⟩).trans (if_pos rfl))
  have hslot : g.globals[(0 : UInt16).toNat]? = some ⟨"count", .int, 0⟩ := by rw [hglobals]; rfl
  have hstays := ((hlookup ⟨1⟩).trans (if_neg (by decide))).trans ((huntouched.module? ⟨1⟩).trans hk)
  refine stray_access nested hmodule hg hid hslot ?_ (by decide) hstays ?_ 7
  · rw [hstore]
    decide
  · rw [eq_of_beq hzero]
    rfl

end Workspace

end ScriptVm
