import ScriptVm.Proofs.Engine.Linked
import ScriptVm.Proofs.Execution.Terms

namespace ScriptVm

namespace Engine

variable {e e' : Engine} {f : Func}

/-- The function is one of a module that exists, or the initializer of it. -/
def Owns (e : Engine) (id : ModuleId) (f : Func) : Prop :=
  f.module = some id ∧ ∃ m, e.module? id = some m ∧ (f ∈ m.functions ∨ m.initializer = some f)

/-- If it is a script function, the module is the one that owns it. -/
def Houses (e : Engine) (f : Func) (module : Option ModuleId) : Prop :=
  f.kind = .script → ∃ id, module = some id ∧ e.Owns id f

theorem Owns.of_fixed {id : ModuleId} (h : e.Owns id f)
    (hfixed : (e'.module? id).map Module.fixed = (e.module? id).map Module.fixed) :
    e'.Owns id f := by
  obtain ⟨hmod, m, hm, hf⟩ := h
  rw [hm, Option.map_some, Option.map_eq_some_iff] at hfixed
  obtain ⟨m', hm', hsame⟩ := hfixed
  have hfns : m'.functions = m.functions := congrArg (fun m => m.functions) hsame
  have hini : m'.initializer = m.initializer := congrArg (fun m => m.initializer) hsame
  refine ⟨hmod, m', hm', ?_⟩
  rwa [hfns, hini]

theorem Houses.of_catalog {module : Option ModuleId} (h : e.Houses f module)
    (hcat : e'.catalog = e.catalog) : e'.Houses f module := by
  intro hkind
  obtain ⟨id, hid, howns⟩ := h hkind
  exact ⟨id, hid, howns.of_fixed (module?_of_catalog hcat id)⟩

/-- A module that owns a function is not filtered away as long as modules that exist are kept. -/
theorem Owns.houses {id : ModuleId} (h : e.Owns id f) {p : ModuleId → Bool}
    (hp : ∀ id, (e.module? id).isSome = true → p id = true) : e.Houses f (f.module.filter p) := by
  intro _
  have howns := h
  obtain ⟨hmod, m, hm, -⟩ := h
  have hkept : p id = true := by
    apply hp
    rw [hm]
    rfl
  exact ⟨id, by rw [hmod, Option.filter_some_pos hkept], howns⟩

theorem Filed.owns (h : e.Filed) {k : FunctionId} (hf : e.function? k = some f)
    (hkind : f.kind = .script) : ∃ id, e.Owns id f := by
  obtain ⟨-, ⟨hhost, -⟩ | ⟨id, m, hmod, hid, hm, hmem⟩⟩ := h.owned hf
  · rw [hkind] at hhost
    cases hhost
  · refine ⟨id, hmod, m, ?_, .inl hmem⟩
    rw [module?_eq, if_pos hid, hm]

theorem Filed.houses (h : e.Filed) {k : FunctionId} (hf : e.function? k = some f)
    {p : ModuleId → Bool} (hp : ∀ id, (e.module? id).isSome = true → p id = true) :
    e.Houses f (f.module.filter p) := by
  intro hkind
  obtain ⟨id, howns⟩ := h.owns hf hkind
  exact howns.houses hp hkind

end Engine

/-- Every script function runs in the module that owns it. -/
def Terms.housing : Terms where
  Grants := Engine.Filed
  Runs := Engine.Houses
  At _ _ := True
  grants_of_catalog h hcat := h.of_directory (Engine.directory_of_catalog hcat)
  runs_of_catalog h hcat := h.of_catalog hcat
  listed h hf hp := h.houses hf hp
  unscripted hkind := fun hscr => absurd hscr hkind
  zero _ := trivial
  next _ _ _ := trivial
  target _ := trivial

/-- Every script function that runs, or waits for its return, is in the module that owns it. -/
abbrev Machine.Housed (m : Machine) : Prop := m.Abides .housing

theorem Machine.housed_new {e : Engine} (h : e.Filed) (max : UInt32) :
    Housed { engine := e, ctx := Context.new max } :=
  abides_new h max

end ScriptVm
