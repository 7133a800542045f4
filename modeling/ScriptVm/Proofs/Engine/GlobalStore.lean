import ScriptVm.Proofs.Engine.Numbering

namespace ScriptVm

/-- The words of a global: two for objects, references and numbers of 64 bits, and one for
everything else. -/
def DataType.storeWords (t : DataType) : Nat :=
  if t.isObject || t.reference || t.primitive?.any (· ∈ [.int64, .uint64, .double]) then 2 else 1

theorem DataType.storeWords_eq (t : DataType) : max t.words 1 = t.storeWords := by
  obtain ⟨kind, handle, reference⟩ := t
  cases kind with
  | object id => cases reference <;> rfl
  | primitive p => cases handle <;> cases reference <;> cases p <;> decide

/-- The places of its words in the store. -/
def Global.cells (g : Global) : List Nat := List.range' g.offset.toNat g.type.storeWords

theorem Handle.ofBits?_joinWords (lo hi : UInt32) : ofBits? (joinWords lo hi) = if lo = 0 then none
      else some { index := lo - 1, generation := hi } := by
  have hlo := lo.toNat_lt
  have hlow : lowWord (joinWords lo hi) = lo := by
    apply UInt32.toNat_inj.mp
    rw [lowWord_toNat, joinWords_toNat]
    omega
  have hhigh : highWord (joinWords lo hi) = hi := by
    apply UInt32.toNat_inj.mp
    rw [highWord_toNat, joinWords_toNat]
    omega
  simp only [ofBits?, hlow, hhigh]

namespace Module

/-- The words of the global are those of the handle: its index plus one, and its generation. -/
def Holds (m : Module) (g : Global) (h : Handle) : Prop :=
  m.store[g.offset.toNat]? = some (h.index + 1) ∧ m.store[g.offset.toNat + 1]? = some h.generation

/-- The global is for an object and not null. -/
def occupied (m : Module) (g : Global) : Bool :=
  g.type.isObject && m.store[g.offset.toNat]? != some 0

variable {m : Module}

/-- Every global that is not null gives its handle, in the order of the globals. -/
theorem holds_globalHandles
    (hin : ∀ g ∈ m.globals, g.type.isObject = true → g.offset.toNat + 1 < m.store.size) :
    List.Forall₂ m.Holds (m.globals.toList.filter m.occupied) m.globalHandles := by
  replace hin (g : Global) (hg : g ∈ m.globals.toList) := hin g (Array.mem_toList_iff.mp hg)
  have hword {n : Nat} (hn : n < m.store.size) : ∃ w, m.store[n]? = some w ∧ m.store.getD n 0 = w :=
    ⟨m.store[n], by simp [hn], by simp [hn]⟩
  simp only [globalHandles, Handle.ofBits?_joinWords]
  generalize m.globals.toList = gs at hin ⊢
  induction gs with
  | nil => exact .nil
  | cons g gs ih =>
    have ih := ih fun g hg => hin g (List.mem_cons_of_mem _ hg)
    by_cases hobj : g.type.isObject = true
    · have hlt := hin g List.mem_cons_self hobj
      obtain ⟨lo, hlo, hlow⟩ := hword (Nat.lt_of_succ_lt hlt)
      obtain ⟨hi, hhi, hhigh⟩ := hword hlt
      rw [List.filter_cons_of_pos (p := fun g : Global => g.type.isObject) hobj,
        List.filterMap_cons, hlow, hhigh]
      by_cases hnull : lo = 0
      · rw [List.filter_cons_of_neg (by simp [occupied, hlo, hnull]), if_pos hnull]
        exact ih
      · rw [List.filter_cons_of_pos (by simp [occupied, hobj, hlo, hnull]), if_neg hnull]
        exact .cons ⟨by simpa using hlo, hhi⟩ ih
    · rw [List.filter_cons_of_neg (by simp [occupied, hobj]),
        List.filter_cons_of_neg (p := fun g : Global => g.type.isObject) hobj]
      exact ih

theorem globalHandles_clearStore (m : Module) : m.clearStore.globalHandles = [] := by
  refine List.filterMap_eq_nil_iff.mpr fun g _ => ?_
  have hzero (n : Nat) : m.clearStore.store.getD n 0 = 0 := by
    rw [Array.getD_eq_getD_getElem?, clearStore, Array.getElem?_replicate]
    split <;> rfl
  rw [Handle.ofBits?_joinWords, hzero, if_pos rfl]

end Module

/-- What is declared as a global. -/
def Ticket.global? : Ticket → Option (String × DataType)
  | global name type _ => some (name, type)
  | _ => none

/-- The globals of a draft stand in the order of their declaration and fill its store. -/
structure Draft.Fills (d : Draft) (tickets : List Ticket) : Prop where
  declared : d.globals.toList.map (fun g => (g.name, g.type)) = tickets.filterMap Ticket.global?
  cells : d.storeWords < 4294967296 → d.globals.toList.flatMap Global.cells = List.range d.storeWords

theorem Draft.Fills.addGlobal {d : Draft} {tickets : List Ticket} (h : d.Fills tickets)
    (name : String) (type : DataType) :
    (d.addGlobal name type).2.Fills (tickets ++ [.global name type (d.addGlobal name type).1]) := by
  have hglobals : (d.addGlobal name type).2.globals.toList =
      d.globals.toList ++ [{ name, type, offset := d.storeWords.toUInt32 }] :=
    Array.toList_push
  constructor
  · rw [hglobals, List.map_append, h.declared, List.filterMap_append]
    rfl
  · intro hwords
    have hwords : d.storeWords + max type.words 1 < 4294967296 := hwords
    have hoffset : d.storeWords.toUInt32.toNat = d.storeWords := Nat.mod_eq_of_lt (by omega)
    rw [hglobals, List.flatMap_append, h.cells (by omega), List.flatMap_singleton,
      Global.cells, hoffset,
      List.range'_eq_map_range, ← List.range_add, ← type.storeWords_eq]
    rfl

namespace Engine

variable {e e' : Engine} {d : Draft} {tickets : List Ticket} {id : ModuleId} {m : Module}

theorem Filling.fills (h : e.Filling e' d tickets) : d.Fills tickets := by
  induction h with
  | begun name => exact ⟨rfl, fun _ => rfl⟩
  | declared _ name ih => exact ⟨ih.declared, ih.cells⟩
  | defined _ id f ih => exact ⟨ih.declared, ih.cells⟩
  | initialized _ f ih => exact ⟨ih.declared, ih.cells⟩
  | @string e' d tickets _ text ih =>
    obtain ⟨_, strings, hadd, -⟩ := Load.addString_eq d text
    rw [hadd]
    exact ⟨ih.declared.trans (by rw [List.filterMap_append]; exact (List.append_nil _).symm),
      ih.cells⟩
  | global _ name type ih => exact ih.addGlobal name type
  | imported _ f ih =>
    exact ⟨ih.declared.trans (by rw [List.filterMap_append]; exact (List.append_nil _).symm),
      ih.cells⟩

theorem exitModule_eq (hm : e.built? id = some m) :
    e.exitModule id = (e.changeModule id Module.clearStore).changeHeap fun h =>
      m.globalHandles.foldl Heap.giveUp h := by
  rw [exitModule, hm]

theorem built?_exitModule (hm : e.built? id = some m) :
    (e.exitModule id).built? id = some m.clearStore := by
  have hheap (e : Engine) (f : Heap → Heap) : (e.changeHeap f).built? id = e.built? id := by
    unfold changeHeap onHeap
    dsimp only
    split <;> rfl
  rw [exitModule_eq hm, hheap, built?_changeModule, if_pos rfl, hm]
  rfl

theorem changeModule_same {f : Module → Module} (hm : e.built? id = some m) (hf : f m = m) :
    e.changeModule id f = e := by
  obtain ⟨hid, hplace⟩ := built?_eq_some.mp hm
  have hmodules : (e.modules.modify (id.val.toNat - 1) fun m => m.map f) = e.modules := by
    refine Array.ext_getElem? fun i => ?_
    rw [Array.getElem?_modify]
    by_cases hi : id.val.toNat - 1 = i
    · rw [if_pos hi, ← hi, hplace, Option.map_some, Option.map_some, hf]
    · rw [if_neg hi]
  rw [changeModule, if_neg hid, hmodules]

theorem changeHeap_id (e : Engine) (f : Heap → Heap) :
    (e.changeHeap f).changeHeap (fun h => h) = e.changeHeap f := by
  by_cases h : (f e.heap).journal.isEmpty = true <;> simp [changeHeap, onHeap, h]

/-- A module that has been left holds no handles, and is left as it is. -/
theorem exitModule_exitModule (hm : e.built? id = some m) :
    (e.exitModule id).exitModule id = e.exitModule id := by
  have hleft := built?_exitModule hm
  have hclear : m.clearStore.clearStore = m.clearStore := m.hollow_clearStore
  rw [exitModule_eq hleft, m.globalHandles_clearStore, changeModule_same hleft hclear,
    exitModule_eq hm]
  exact changeHeap_id _ _

/-- The globals of a module stand in its store in the order of their declaration and fill it.
Whatever the store holds later, the words of every global for an object are in it. When the module
is left, the handles of those that are not null are given up, one after the other, and all words are
zero. To leave it again changes nothing, and finds no handles. -/
theorem globals_fill_store (h : e.Filling e' d tickets) (hroom : e.modules.size + 1 < 4294967296)
    (hwords : d.storeWords < 4294967296) (hbuild : (e'.build d).1 = .ok id) :
    ∃ m, (e'.build d).2.built? id = some m ∧
      m.globals.toList.map (fun g => (g.name, g.type)) = tickets.filterMap Ticket.global? ∧
      m.globals.toList.flatMap Global.cells = List.range m.store.size ∧
      ∀ (e1 : Engine) (m1 : Module), e1.built? id = some m1 → m1.globals = m.globals →
        m1.store.size = m.store.size →
        (∀ g ∈ m1.globals, g.type.isObject = true → g.offset.toNat + 1 < m1.store.size) ∧
        List.Forall₂ m1.Holds (m1.globals.toList.filter m1.occupied) m1.globalHandles ∧
        e1.exitModule id = (e1.changeModule id Module.clearStore).changeHeap
          (fun h => m1.globalHandles.foldl Heap.giveUp h) ∧
        (e1.exitModule id).built? id = some { m1 with store := Array.replicate m1.store.size 0 } ∧
        m1.clearStore.globalHandles = [] ∧ (e1.exitModule id).exitModule id = e1.exitModule id := by
  obtain ⟨functions, hbuilt⟩ := h.built hroom hbuild
  have hsize : (d.toModule functions).store.size = d.storeWords := Array.size_replicate
  refine ⟨d.toModule functions, hbuilt, h.fills.declared, ?_, fun e1 m1 hm1 hglobals hstore => ?_⟩
  · rw [hsize]
    exact h.fills.cells hwords
  · have hin (g : Global) (hg : g ∈ m1.globals) (hobj : g.type.isObject = true) :
        g.offset.toNat + 1 < m1.store.size := by
      have hmem : g.offset.toNat + 1 ∈ List.range d.storeWords := by
        rw [← h.fills.cells hwords, List.mem_flatMap]
        rw [hglobals] at hg
        exact ⟨g, Array.mem_toList_iff.mpr hg, by simp [Global.cells, DataType.storeWords, hobj]⟩
      rw [hstore, hsize]
      exact List.mem_range.mp hmem
    exact ⟨hin, Module.holds_globalHandles hin, exitModule_eq hm1, built?_exitModule hm1,
      m1.globalHandles_clearStore,
      exitModule_exitModule hm1⟩

/-- A global without a value, an object, a number of 64 bits and one of 8 bits take six words. Later
the object is in use. -/
theorem globals_fill_store_mixed :
    let e := (({} : Engine).beginModule "shapes").2
    let d := (((((({} : Engine).beginModule "shapes").1.addGlobal "none" .void).2.addGlobal "node"
      { kind := .object ⟨1⟩, handle := true }).2.addGlobal "ratio" .double).2.addGlobal "small"
        (.ofPrimitive .uint8)).2
    let e1 := (e.build d).2.changeModule d.id fun m => { m with store := #[5, 1, 7, 0, 0, 9] }
    ∃ m1, e1.built? d.id = some m1 ∧ m1.globals.toList.flatMap Global.cells = List.range 6 ∧
      (m1.globals.toList.filter m1.occupied).map Global.name = ["node"] ∧
      List.Forall₂ m1.Holds (m1.globals.toList.filter m1.occupied) m1.globalHandles ∧
      (e1.exitModule d.id).built? d.id = some { m1 with store := #[0, 0, 0, 0, 0, 0] } := by
  intro e d e1
  have hfilling := ((((Filling.begun (e := {}) "shapes").global "none" .void).global "node"
    { kind := .object ⟨1⟩, handle := true }).global "ratio" .double).global "small"
      (.ofPrimitive .uint8)
  have hbuild := build_without_functions "shapes" (d := d) rfl rfl
  obtain ⟨functions, hmade⟩ := hfilling.built (by decide) hbuild
  obtain ⟨m, hbuilt, -, hcells, hlater⟩ := globals_fill_store hfilling (by decide) (by decide) hbuild
  cases hmade.symm.trans hbuilt
  have hm1 : e1.built? d.id = some { d.toModule functions with store := #[5, 1, 7, 0, 0, 9] } := by
    rw [built?_changeModule, if_pos rfl, hmade]
    rfl
  obtain ⟨-, hholds, -, hleft, -⟩ := hlater e1 _ hm1 rfl rfl
  exact ⟨_, hm1, hcells, rfl, hholds, hleft⟩

end Engine
end ScriptVm
