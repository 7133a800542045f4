import ScriptVm.Proofs.Execution.Frame

namespace ScriptVm

/-- A slot that is bound to nothing. -/
def ImportSlot.cleared (slot : ImportSlot) : ImportSlot := { slot with bound := none }

/-- A module with nothing in its globals and without what binding changes. -/
def Module.unlinked (m : Module) : Module :=
  { m with store := Array.replicate m.store.size 0, imports := m.imports.map ImportSlot.cleared,
           moduleRefs := 0 }

namespace Engine

variable {e : Engine} {id : ModuleId} {P : Engine → Prop}

/-- An engine without objects, globals and bindings. -/
def roster (e : Engine) : Engine :=
  { e with heap := {}, trace := #[], modules := e.modules.map fun m => m.map Module.unlinked }

def present (e : Engine) : List ModuleId := e.live ++ e.discarded

theorem modules_coarser {γ : Type} (fine : Module → Module) (view : Module → γ)
    (hview : ∀ m, view (fine m) = view m) {a b : Array (Option Module)}
    (h : (b.map fun m => m.map fine) = a.map fun m => m.map fine) :
    (b.map fun m => m.map view) = a.map fun m => m.map view := by
  have hfine (a : Array (Option Module)) :
      ((a.map fun m => m.map fine).map fun m => m.map view) = a.map fun m => m.map view := by
    rw [Array.map_map]
    congr 1
    funext m
    cases m <;> simp [hview]
  rw [← hfine b, h, hfine]

theorem module?_eq (e : Engine) (id : ModuleId) :
    e.module? id = if id ∈ e.present then e.built? id else none := by
  simp [module?, present]

theorem built?_eq_some {m : Module} :
    e.built? id = some m ↔ id.val ≠ 0 ∧ e.modules[id.val.toNat - 1]? = some (some m) := by
  unfold built?
  by_cases h : id.val = 0
  · simp [h]
  · simp [h, Option.join_eq_some_iff]

theorem function_index_inj {k l : FunctionId} (h : k.val.toNat = l.val.toNat) : k = l := by
  cases k
  cases l
  exact congrArg FunctionId.mk (UInt32.toNat_inj.mp h)

theorem index_inj {k : ModuleId} (hid : id.val ≠ 0) (hk : k.val ≠ 0)
    (h : id.val.toNat - 1 = k.val.toNat - 1) : k = id := by
  have hpos (v : UInt32) (hv : v ≠ 0) : 0 < v.toNat :=
    Nat.pos_of_ne_zero fun h0 => hv (UInt32.toNat_inj.mp h0)
  have hnat : k.val.toNat = id.val.toNat := by
    have := hpos id.val hid
    have := hpos k.val hk
    omega
  cases id
  cases k
  exact congrArg ModuleId.mk (UInt32.toNat_inj.mp hnat)

section

variable (e : Engine)

theorem built?_changeModule (id : ModuleId) (f : Module → Module) (k : ModuleId) :
    (e.changeModule id f).built? k = if k = id then (e.built? k).map f else e.built? k := by
  by_cases hk : k.val = 0
  · simp [built?, hk]
  · by_cases hid : id.val = 0
    · have hne : k ≠ id := fun h => hk (h ▸ hid)
      rw [if_neg hne, changeModule, if_pos hid]
    · simp only [changeModule, hid, if_false, built?, hk, Array.getElem?_modify]
      by_cases h : k = id
      · subst h
        rw [if_pos rfl, if_pos rfl]
        cases e.modules[k.val.toNat - 1]? <;> simp
      · rw [if_neg fun hidx => h (index_inj hid hk hidx), if_neg h]

@[simp] theorem functions_changeModule (id : ModuleId) (f : Module → Module) :
    (e.changeModule id f).functions = e.functions := by
  rw [changeModule_eq]

@[simp] theorem function?_changeModule (id : ModuleId) (f : Module → Module) (k : FunctionId) :
    (e.changeModule id f).function? k = e.function? k := by
  rw [function?, functions_changeModule, function?]

@[simp] theorem present_changeModule (id : ModuleId) (f : Module → Module) :
    (e.changeModule id f).present = e.present := by
  rw [changeModule_eq]
  rfl

theorem roster_changeModule (id : ModuleId) {f : Module → Module}
    (h : ∀ m, (f m).unlinked = m.unlinked) : (e.changeModule id f).roster = e.roster := by
  have hmods := modules_changeModule Module.unlinked e id h
  rw [changeModule_eq]
  simp only [roster, hmods]

theorem roster_setBinding (id : ModuleId) (index : Nat) (bound : Option FunctionId) :
    (e.setBinding id index bound).roster = e.roster := by
  refine roster_changeModule e id fun m => ?_
  have himps : (m.imports.modify index fun slot => { slot with bound }).map ImportSlot.cleared =
      m.imports.map ImportSlot.cleared := by
    apply Array.ext_getElem?
    intro i
    rw [Array.getElem?_map, Array.getElem?_map, Array.getElem?_modify]
    split
    · cases m.imports[i]? <;> rfl
    · rfl
  simp only [Module.unlinked, himps]

theorem roster_dropBinding (target : FunctionId) : (e.dropBinding target).roster = e.roster := by
  unfold dropBinding
  split
  · exact roster_changeModule e _ fun _ => rfl
  · rfl

theorem roster_holdBinding (f : Func) : (e.holdBinding f).roster = e.roster := by
  unfold holdBinding
  split
  · exact roster_changeModule e _ fun _ => rfl
  · rfl

theorem roster_bind (id : ModuleId) (index : Nat) (target : FunctionId) :
    (e.bind id index target).2.roster = e.roster := by
  unfold bind
  split
  · rfl
  · rename_i slot _
    split
    · rfl
    · rename_i f _
      split
      · rfl
      · have hheld := roster_holdBinding e f
        cases slot.bound with
        | some old =>
          exact (roster_dropBinding _ old).trans ((roster_setBinding _ id index _).trans hheld)
        | none => exact (roster_setBinding _ id index _).trans hheld

theorem roster_unbind (id : ModuleId) (index : Nat) : (e.unbind id index).2.roster = e.roster := by
  unfold unbind
  split
  · rfl
  · rename_i slot _
    cases slot.bound with
    | some old => exact (roster_dropBinding _ old).trans (roster_setBinding e id index none)
    | none => exact roster_setBinding e id index none

end

theorem bindFrom_keeps (hbind : ∀ e index target, P e → P (e.bind id index target).2) (h : P e)
    (index : Nat) (declarations : List Func) (failed : Nat) :
    P (e.bindFrom id index declarations failed).2 := by
  induction declarations generalizing e index failed with
  | nil => exact h
  | cons declaration rest ih =>
    rw [bindFrom]
    split
    · exact ih h (index + 1) (failed + 1)
    · rename_i target _
      have hbnd := hbind e index target h
      split
      · rename_i heq
        rwa [heq] at hbnd
      · rename_i e' heq
        rw [heq] at hbnd
        exact ih hbnd (index + 1) failed

theorem bindAll_keeps (hbind : ∀ e index target, P e → P (e.bind id index target).2) (h : P e) :
    P (e.bindAll id).2 := by
  have hbnd := bindFrom_keeps hbind h 0
    (((e.built? id).map fun m => m.imports.toList.map ImportSlot.declaration).getD []) 0
  unfold bindAll
  dsimp only
  split
  all_goals
    rename_i heq
    rwa [heq] at hbnd

theorem roster_bindAll (e : Engine) (id : ModuleId) : (e.bindAll id).2.roster = e.roster :=
  bindAll_keeps (P := fun e' => e'.roster = e.roster)
    (fun e' index target h => (roster_bind e' id index target).trans h) rfl

theorem roster_unbindAll (e : Engine) (id : ModuleId) : (e.unbindAll id).roster = e.roster :=
  List.foldlRecOn _ _ (motive := fun e' : Engine => e'.roster = e.roster) rfl fun e' h index _ =>
    (roster_unbind e' id index).trans h

theorem hollow_exitModule (e : Engine) (id : ModuleId) : (e.exitModule id).hollow = e.hollow := by
  unfold exitModule
  split
  · rfl
  · rw [hollow_changeHeap]
    exact hollow_changeModule e id Module.hollow_clearStore

theorem catalog_exitModule (e : Engine) (id : ModuleId) : (e.exitModule id).catalog = e.catalog :=
  catalog_of_hollow (hollow_exitModule e id)

end Engine
end ScriptVm
