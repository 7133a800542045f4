import ScriptVm.Proofs.Engine.Drafting
import ScriptVm.Proofs.Execution.Holding

namespace ScriptVm.Engine

variable {e e' : Engine}

/-- What was built stays built, and the tables do not shrink. -/
structure Grown (e e' : Engine) : Prop where
  modules : e.modules.size ≤ e'.modules.size
  functions : e.functions.size ≤ e'.functions.size
  slots : e.slots.length ≤ e'.slots.length
  built : ∀ {id m}, e.built? id = some m → ∃ m', e'.built? id = some m'

/-- It has grown, and no context has taken or left a reference. -/
structure Tended (e e' : Engine) : Prop extends Grown e e' where
  refs : ∀ id, e'.contextRefs id = e.contextRefs id

theorem Grown.fits (h : e.Grown e') (hfits : e'.Fits) : e.Fits where
  modules := Nat.lt_of_le_of_lt h.modules hfits.modules
  functions := Nat.le_trans h.functions hfits.functions
  slots := Nat.lt_of_le_of_lt h.slots hfits.slots

theorem Grown.trans {a b c : Engine} (h1 : a.Grown b) (h2 : b.Grown c) : a.Grown c where
  modules := Nat.le_trans h1.modules h2.modules
  functions := Nat.le_trans h1.functions h2.functions
  slots := Nat.le_trans h1.slots h2.slots
  built hm := by
    obtain ⟨m', hm'⟩ := h1.built hm
    exact h2.built hm'

theorem Tended.refl (e : Engine) : e.Tended e :=
  ⟨⟨Nat.le_refl _, Nat.le_refl _, Nat.le_refl _, fun hm => ⟨_, hm⟩⟩, fun _ => rfl⟩

theorem Tended.trans {a b c : Engine} (h1 : a.Tended b) (h2 : b.Tended c) : a.Tended c :=
  ⟨h1.toGrown.trans h2.toGrown, fun id => (h2.refs id).trans (h1.refs id)⟩

theorem slots_length_of_map
    (h : (e'.modules.map fun m => m.map fun m => m.imports.size) = e.modules.map fun m =>
      m.map fun m => m.imports.size) :
    e'.slots.length = e.slots.length := by
  have hlen (e : Engine) : e.slots.length =
      ((e.modules.map fun m => m.map fun m => m.imports.size).toList.map fun n => n.getD 0).sum := by
    rw [slots, List.length_flatMap, Array.toList_map, List.map_map]
    congr 2
    funext m
    cases m <;> rfl
  rw [hlen, hlen, h]

theorem grown_of_map (view : Module → Module) (hview : ∀ m, (view m).imports.size = m.imports.size)
    (h : (e'.modules.map fun m => m.map view) = e.modules.map fun m => m.map view)
    (hfns : e.functions.size ≤ e'.functions.size) : e.Grown e' where
  modules := Nat.le_of_eq (by simpa using (congrArg Array.size h).symm)
  functions := hfns
  slots := Nat.le_of_eq
    (slots_length_of_map (modules_coarser view (fun m => m.imports.size) hview h)).symm
  built {id m} hm := by
    have hmap := built?_of_map view h id
    rw [hm, Option.map_some, Option.map_eq_some_iff] at hmap
    obtain ⟨m', hm', -⟩ := hmap
    exact ⟨m', hm'⟩

theorem tended_of_map (view : Module → Module) (himps : ∀ m, (view m).imports.size = m.imports.size)
    (hrefs : ∀ m, (view m).contextRefs = m.contextRefs)
    (h : (e'.modules.map fun m => m.map view) = e.modules.map fun m => m.map view)
    (hfns : e.functions.size ≤ e'.functions.size) : e.Tended e' := by
  refine ⟨grown_of_map view himps h hfns, fun id => ?_⟩
  rw [contextRefs, contextRefs,
    built?_of_map Module.contextRefs (modules_coarser view Module.contextRefs hrefs h)]

theorem grown_of_catalog (h : e'.catalog = e.catalog) : e.Grown e' := by
  have hfns : e'.functions = e.functions := congrArg (fun e => e.functions) h
  exact grown_of_map Module.fixed (fun _ => rfl) (congrArg (fun e => e.modules) h)
    (Nat.le_of_eq (by rw [hfns]))

theorem tended_of_hollow (h : e'.hollow = e.hollow) : e.Tended e' := by
  have hfns : e'.functions = e.functions := congrArg (fun e => e.functions) h
  exact tended_of_map Module.hollow (fun _ => rfl) (fun _ => rfl) (congrArg (fun e => e.modules) h)
    (Nat.le_of_eq (by rw [hfns]))

theorem tended_of_roster (h : e'.roster = e.roster) : e.Tended e' := by
  have hfns : e'.functions = e.functions := congrArg (fun e => e.functions) h
  exact tended_of_map Module.unlinked (fun _ => Array.size_map) (fun _ => rfl)
    (congrArg (fun e => e.modules) h)
    (Nat.le_of_eq (by rw [hfns]))

theorem tended_beginModule (e : Engine) (name : String) : e.Tended (e.beginModule name).2 := by
  refine ⟨⟨?_, Nat.le_refl _, ?_, fun hm => ⟨_, (built?_beginModule e name _).trans hm⟩⟩,
    fun id => ?_⟩
  · exact Nat.le_trans (Nat.le_succ _) (Nat.le_of_eq (Array.size_push _).symm)
  · exact Nat.le_of_eq (by rw [slots_beginModule])
  · rw [contextRefs, contextRefs, built?_beginModule]

theorem tended_of_functions (hmods : e'.modules = e.modules)
    (hfns : e.functions.size ≤ e'.functions.size) : e.Tended e' :=
  tended_of_map id (fun _ => rfl) (fun _ => rfl) (by rw [hmods]) hfns

theorem tended_declare (e : Engine) (d : Draft) (name : String) : e.Tended (e.declare d name).2.1 :=
  tended_of_functions rfl (Nat.le_trans (Nat.le_succ _) (Nat.le_of_eq (Array.size_push _).symm))

theorem tended_registerHost (e : Engine) (f : Func) (body : HostBody) :
    e.Tended (e.registerHost f body).2 :=
  tended_of_functions rfl (Nat.le_trans (Nat.le_succ _) (Nat.le_of_eq (Array.size_push _).symm))

theorem tended_registerType (e : Engine) (type : ObjectType) : e.Tended (e.registerType type).2 := by
  unfold registerType
  split
  · exact tended_of_functions rfl (Nat.le_refl _)
  · exact .refl e

theorem size_foldl_set (fs : List Func) (value : Func → Option Func) (table : Array (Option Func)) :
    (fs.foldl (fun table f => table.setIfInBounds f.id.val.toNat (value f)) table).size =
      table.size := by
  induction fs generalizing table with
  | nil => rfl
  | cons f fs ih => rw [List.foldl_cons, ih, Array.size_setIfInBounds]

theorem tended_install {m : Module} (h : e.Fresh m) (hunused : m.contextRefs = 0) :
    e.Tended (e.install m) := by
  obtain ⟨before, after, hslots, hslots'⟩ := slots_install h
  refine ⟨⟨?_, ?_, ?_, fun {id m'} hm' => ?_⟩, fun id => ?_⟩
  · exact Nat.le_of_eq Array.size_setIfInBounds.symm
  · simp only [install, ← Array.foldl_toList, size_foldl_set]
    exact Nat.le_refl _
  · rw [hslots, hslots']
    simp only [List.length_append]
    omega
  · exact ⟨m', h.built?_other hm'⟩
  · rw [contextRefs, contextRefs, built?_install h]
    split
    · rename_i hid
      rw [hid, h.unbuilt]
      exact hunused
    · rfl

theorem sizes_build (e : Engine) (d : Draft) : (e.build d).2.modules.size = e.modules.size ∧
      (e.build d).2.functions.size = e.functions.size := by
  obtain heq | ⟨functions, -, heq⟩ := build_cases e d
  · rw [heq]
    exact ⟨rfl, rfl⟩
  · rw [heq]
    refine ⟨Array.size_setIfInBounds, ?_⟩
    simp only [install, ← Array.foldl_toList, size_foldl_set]

theorem tended_build {drafts : List Draft} (h : e.Drafting drafts) {d : Draft} (hd : d ∈ drafts) :
    e.Tended (e.build d).2 := by
  obtain heq | ⟨functions, hok, heq⟩ := build_cases e d
  · rw [heq]
    exact .refl e
  · rw [heq]
    exact tended_install (h.fresh hd hok) rfl

theorem functions_size_destroyModule (e : Engine) (id : ModuleId) :
    (e.destroyModule id).functions.size = e.functions.size := by
  unfold destroyModule
  dsimp only
  split
  · rw [functions_exitModule]
  · rw [← Array.foldl_toList, size_foldl_set _ (fun _ => none), functions_exitModule]

theorem functions_size_collect (e : Engine) :
    e.collect.2.functions.size = e.doomedUnbound.functions.size :=
  List.foldlRecOn e.doomed _ (motive :=
    fun e' : Engine => e'.functions.size = e.doomedUnbound.functions.size) rfl
    fun e' h id _ => (functions_size_destroyModule e' id).trans h

theorem tended_collect (e : Engine) : e.Tended e.collect.2 := by
  have hdest : e.doomedUnbound.Tended e.collect.2 :=
    tended_of_map Module.hollow (fun _ => rfl) (fun _ => rfl) (modules_collect e)
      (Nat.le_of_eq (functions_size_collect e).symm)
  exact (tended_of_roster (roster_doomedUnbound e)).trans hdest

theorem Fits.collect (h : e.Fits) : e.collect.2.Fits := by
  have hdest : e.collect.2.Tended e.doomedUnbound :=
    tended_of_map Module.hollow (fun _ => rfl) (fun _ => rfl) (modules_collect e).symm
      (Nat.le_of_eq (functions_size_collect e))
  exact (hdest.trans (tended_of_roster (roster_doomedUnbound e).symm)).fits h

theorem tended_discard (e : Engine) (name : String) : e.Tended (e.discard name).2 := by
  cases hm : e.moduleNamed? name with
  | none =>
    rw [discard, hm]
    exact .refl e
  | some m =>
    rw [discard_eq hm]
    refine Tended.trans (b := e.retire m.id) ?_ (tended_collect _)
    refine tended_of_map (fun m => { m with discarded := true }) (fun _ => rfl) (fun _ => rfl)
      (map_retire _ (fun _ => rfl) e m.id) (Nat.le_of_eq ?_)
    rw [retire, functions_changeModule]

end ScriptVm.Engine
