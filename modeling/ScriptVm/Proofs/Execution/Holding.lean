import ScriptVm.Proofs.Engine.Linked
import ScriptVm.Proofs.Execution.Runs

namespace ScriptVm

/-- The modules that a context holds: of the current function, then of the saved callers. -/
def Context.held (c : Context) : List (Option ModuleId) :=
  c.module :: c.calls.frames.map Frame.module

def Context.holds (c : Context) (id : ModuleId) : Nat := c.held.count (some id)

/-- The number of holders that is kept for a module; 0 if it was not built. -/
def Engine.contextRefs (e : Engine) (id : ModuleId) : UInt32 :=
  ((e.built? id).map Module.contextRefs).getD 0

namespace Engine

theorem contextRefs_of_hollow {e e' : Engine} (h : e'.hollow.modules = e.hollow.modules)
    (id : ModuleId) : e'.contextRefs id = e.contextRefs id := by
  have hmap := modules_coarser Module.hollow Module.contextRefs (fun _ => rfl) h
  rw [contextRefs, contextRefs, built?_of_map Module.contextRefs hmap]

theorem built?_of_hollow {e e' : Engine} (h : e'.hollow.modules = e.hollow.modules) {id : ModuleId}
    {g : Module} (hg : e.built? id = some g) : ∃ g', e'.built? id = some g' := by
  have hmap := built?_of_map Module.hollow h id
  rw [hg, Option.map_some, Option.map_eq_some_iff] at hmap
  obtain ⟨g', hg', -⟩ := hmap
  exact ⟨g', hg'⟩

theorem contextRefs_changeModule (e : Engine) (id : ModuleId) (f : Module → Module) (k : ModuleId)
    {g : Module} (hg : e.built? id = some g) : (e.changeModule id f).contextRefs k = if k = id
      then (f g).contextRefs else e.contextRefs k := by
  unfold contextRefs
  rw [built?_changeModule]
  split
  · rename_i hk
    rw [hk, hg]
    rfl
  · rfl

end Engine

namespace Machine

open Context (held holds)

variable {m m' : Machine} {module : Option ModuleId}

/-- The references to a module that are not those of the context. -/
def others (m : Machine) (id : ModuleId) : UInt32 :=
  m.engine.contextRefs id - (m.ctx.holds id).toUInt32

/-- The modules that the context holds were built. -/
def Anchored (m : Machine) : Prop := ∀ id, some id ∈ m.ctx.held → ∃ g, m.engine.built? id = some g

/-- A context that has begun to run, with frames that are still to be cleaned. -/
structure Live (m : Machine) : Prop where
  anchored : m.Anchored
  cleanup : m.ctx.needsCleanup = true
  begun : m.ctx.state ≠ .uninitialized

/-- A context between two requests. -/
structure Sound (m : Machine) : Prop where
  anchored : m.Anchored
  idle : m.ctx.needsCleanup = false →
    m.ctx.calls.frames = [] ∧ m.ctx.state ≠ .prepared ∧ m.ctx.state ≠ .active ∧
      m.ctx.state ≠ .suspended
  fresh : m.ctx.state = .uninitialized → m.ctx.module = none ∧ m.ctx.calls.frames = []

theorem Live.sound (h : m.Live) : m.Sound where
  anchored := h.anchored
  idle hclup := by
    rw [h.cleanup] at hclup
    cases hclup
  fresh hst := absurd hst h.begun

theorem Sound.live (h : m.Sound) (hst : m.ctx.state = .prepared ∨ m.ctx.state = .active ∨
      m.ctx.state = .suspended) : m.Live := by
  refine ⟨h.anchored, ?_, ?_⟩
  · cases hclup : m.ctx.needsCleanup with
    | true => rfl
    | false =>
      obtain ⟨-, hprep, hact, hsus⟩ := h.idle hclup
      obtain hst | hst | hst := hst
      · exact absurd hst hprep
      · exact absurd hst hact
      · exact absurd hst hsus
  · intro hfresh
    rw [hfresh] at hst
    simp at hst

/-- What the references of a context depend on. -/
structure Stake where
  hollow : Engine
  module : Option ModuleId
  calls : CallStack
  state : ContextState
  needsCleanup : Bool

def stake (m : Machine) : Stake :=
  { hollow := m.engine.hollow, module := m.ctx.module, calls := m.ctx.calls, state := m.ctx.state
    needsCleanup := m.ctx.needsCleanup }

theorem stake_of_standing (h : m'.standing = m.standing) : m'.stake = m.stake := by
  obtain ⟨hhollow, hctl, hst, -, hclup, -⟩ := Standing.mk.inj h
  obtain ⟨-, hmod, -, -, hcl⟩ := Control.mk.inj hctl
  simp only [stake, hhollow, hmod, hcl, hst, hclup]

theorem held_of_stake (h : m'.stake = m.stake) : m'.ctx.held = m.ctx.held := by
  obtain ⟨-, hmod, hcl, -, -⟩ := Stake.mk.inj h
  rw [held, held, hmod, hcl]

theorem others_of_stake (h : m'.stake = m.stake) : m'.others = m.others := by
  have hmods := congrArg (fun s => s.hollow.modules) h
  funext id
  rw [others, others, Engine.contextRefs_of_hollow hmods, holds, holds, held_of_stake h]

theorem Anchored.of_stake (h : m.Anchored) (hstake : m'.stake = m.stake) : m'.Anchored := by
  intro id hid
  rw [held_of_stake hstake] at hid
  obtain ⟨g, hg⟩ := h id hid
  exact Engine.built?_of_hollow (congrArg (fun s => s.hollow.modules) hstake) hg

theorem Live.of_stake (h : m.Live) (hstake : m'.stake = m.stake) : m'.Live where
  anchored := h.anchored.of_stake hstake
  cleanup := (congrArg Stake.needsCleanup hstake).trans h.cleanup
  begun := by
    have hst : m'.ctx.state = m.ctx.state := congrArg Stake.state hstake
    rw [hst]
    exact h.begun

theorem Sound.of_stake (h : m.Sound) (hstake : m'.stake = m.stake) : m'.Sound := by
  obtain ⟨-, hmod, hcl, hst, hclup⟩ := Stake.mk.inj hstake
  refine ⟨h.anchored.of_stake hstake, ?_, ?_⟩
  · rw [hclup, hcl, hst]
    exact h.idle
  · rw [hmod, hcl, hst]
    exact h.fresh

theorem Anchored.onContext (h : m.Anchored) (f : Context → Context)
    (hheld : (f m.ctx).held = m.ctx.held) : (m.onContext f).Anchored :=
  fun id hid => h id (hheld ▸ hid)

theorem others_onContext (m : Machine) (f : Context → Context)
    (hheld : (f m.ctx).held = m.ctx.held) : (m.onContext f).others = m.others := by
  funext id
  show m.engine.contextRefs id - ((f m.ctx).held.count (some id)).toUInt32 = _
  rw [hheld]
  rfl

theorem contextRefs_holdModule (m : Machine)
    (h : ∀ id, module = some id → ∃ g, m.engine.built? id = some g) (k : ModuleId) :
    (m.holdModule module).engine.contextRefs k = m.engine.contextRefs k +
    (if module == some k then 1 else 0 : Nat).toUInt32 := by
  cases module with
  | none => simp [holdModule]
  | some id =>
    obtain ⟨g, hg⟩ := h id rfl
    simp only [holdModule, onEngine, Engine.contextRefs_changeModule _ id _ k hg]
    by_cases hk : k = id
    · simp [hk, Engine.contextRefs, hg, Module.addContextRef]
    · simp [hk, Ne.symm hk]

theorem contextRefs_leaveModule (m : Machine)
    (h : ∀ id, module = some id → ∃ g, m.engine.built? id = some g) (k : ModuleId) :
    (m.leaveModule module).engine.contextRefs k = m.engine.contextRefs k -
    (if module == some k then 1 else 0 : Nat).toUInt32 := by
  cases module with
  | none => simp [leaveModule]
  | some id =>
    obtain ⟨g, hg⟩ := h id rfl
    simp only [leaveModule, onEngine, Engine.contextRefs_changeModule _ id _ k hg]
    by_cases hk : k = id
    · simp [hk, Engine.contextRefs, hg, Module.dropContextRef]
    · simp [hk, Ne.symm hk]

theorem built?_of_outline (h : m'.outline = m.outline) {id : ModuleId} {g : Module}
    (hg : m.engine.built? id = some g) : ∃ g', m'.engine.built? id = some g' := by
  have hdir := Engine.directory_of_catalog (congrArg Outline.catalog h)
  obtain ⟨g', hg', -⟩ := Engine.built?_of_core (Engine.core_of_directory hdir id) hg
  exact ⟨g', hg'⟩

theorem hold_push (hbuilt : ∀ id, module = some id → ∃ g, m.engine.built? id = some g)
    (heng : m'.engine = (m.holdModule module).engine) (hheld : m'.ctx.held = module :: m.ctx.held)
    (h : m.Anchored) : m'.Anchored ∧ m'.others = m.others := by
  have hkept {id : ModuleId} {g : Module} (hg : m.engine.built? id = some g) :
      ∃ g', m'.engine.built? id = some g' := by
    rw [heng]
    exact built?_of_outline (m.outline_holdModule module) hg
  constructor
  · intro id hid
    rw [hheld, List.mem_cons] at hid
    obtain hid | hid := hid
    · obtain ⟨g, hg⟩ := hbuilt id hid.symm
      exact hkept hg
    · obtain ⟨g, hg⟩ := h id hid
      exact hkept hg
  · funext id
    rw [others, others, heng, contextRefs_holdModule m hbuilt, holds, holds, hheld, List.count_cons]
    simp only [Nat.toUInt32_eq, UInt32.ofNat_add]
    grind

theorem Anchored.built_current (h : m.Anchored) (id : ModuleId) (hid : m.ctx.module = some id) :
    ∃ g, m.engine.built? id = some g :=
  h id (hid ▸ List.mem_cons_self)

theorem leave_pop (heng : m'.engine = (m.leaveModule m.ctx.module).engine)
    (hheld : m.ctx.held = m.ctx.module :: m'.ctx.held) (h : m.Anchored) :
    m'.Anchored ∧ m'.others = m.others := by
  constructor
  · intro id hid
    have hold : some id ∈ m.ctx.held := by
      rw [hheld]
      exact List.mem_cons_of_mem _ hid
    obtain ⟨g, hg⟩ := h id hold
    rw [heng]
    exact built?_of_outline (m.outline_leaveModule m.ctx.module) hg
  · funext id
    rw [others, others, heng, contextRefs_leaveModule m h.built_current, holds, holds, hheld,
      List.count_cons]
    simp only [Nat.toUInt32_eq, UInt32.ofNat_add]
    grind

theorem setModule_holding (module : Option ModuleId)
    (hbuilt : ∀ id, module = some id → ∃ g, m.engine.built? id = some g)
    (h : m.Anchored) : (m.setModule module).Anchored ∧ (m.setModule module).others = m.others := by
  have hkept {id : ModuleId} {g : Module} (hg : m.engine.built? id = some g) :
      ∃ g', ((m.holdModule module).onContext fun c => { c with module }).engine.built? id =
        some g' :=
    built?_of_outline (m.outline_holdModule module) hg
  constructor
  · intro id hid
    have hg : ∃ g, m.engine.built? id = some g := by
      rw [setModule_ctx, held, List.mem_cons] at hid
      obtain hid | hid := hid
      · exact hbuilt id hid.symm
      · exact h id (List.mem_cons_of_mem _ hid)
    obtain ⟨g, hg⟩ := hg
    obtain ⟨g', hg'⟩ := hkept hg
    exact built?_of_outline (outline_leaveModule _ m.ctx.module) hg'
  · funext id
    have hleft (id : ModuleId) (hid : m.ctx.module = some id) :=
      hkept (h.built_current id hid).choose_spec
    rw [others, others, setModule_ctx, setModule, contextRefs_leaveModule _ hleft]
    have hheld : ((m.holdModule module).onContext fun c => { c with module }).engine.contextRefs id =
        m.engine.contextRefs id + (if module == some id then 1 else 0 : Nat).toUInt32 :=
          contextRefs_holdModule m hbuilt id
    rw [hheld, holds, holds, held, held, List.count_cons, List.count_cons]
    simp only [Nat.toUInt32_eq, UInt32.ofNat_add]
    grind

theorem restore_holding {f : Frame} (calls : CallStack)
    (hcl : m.ctx.calls.frames = f :: calls.frames) (h : m.Anchored) :
    (m.restore f calls).Anchored ∧ (m.restore f calls).others = m.others := by
  refine leave_pop rfl ?_ h
  rw [Exec.restore_ctx, held, held, hcl]
  rfl

theorem cleanStack_holding (h : m.Anchored) :
    m.cleanStack.Anchored ∧ m.cleanStack.others = m.others := by
  refine cleanStack_induct (P := fun m' => m'.Anchored ∧ m'.others = m.others) ?_ ?_ id ⟨h, rfl⟩
  · rintro m' ⟨hanch, hoth⟩
    have hclean := stake_of_standing (standing_of_bearing m'.bearing_cleanFrame)
    exact ⟨hanch.of_stake hclean, (others_of_stake hclean).trans hoth⟩
  · rintro m' f calls hcl ⟨hanch, hoth⟩
    obtain ⟨hrest, hsame⟩ := restore_holding calls hcl hanch
    exact ⟨hrest, hsame.trans hoth⟩

theorem abortNow_holding (h : m.Anchored) : m.abortNow.Sound ∧ m.abortNow.others = m.others := by
  obtain ⟨hanch, hoth⟩ :=
    cleanStack_holding (m := m.onContext fun c => { c with state := .aborted }) h
  have hst : m.abortNow.ctx.state = .aborted := state_cleanStack _
  have hcl : m.abortNow.ctx.calls = {} := calls_cleanStack _
  refine ⟨⟨hanch, fun _ => ?_, fun hfresh => ?_⟩, hoth⟩
  · rw [hst, hcl]
    simp
  · rw [hst] at hfresh
    cases hfresh

theorem stake_dropObject (m : Machine) : m.dropObject.stake = m.stake := by
  unfold dropObject
  cases m.ctx.objectRegister with
  | none => rfl
  | some object => exact stake_of_standing (standing_of_bearing (bearing_giveUp _ object))

/-- A context that holds nothing. -/
structure Vacant (m : Machine) : Prop where
  module : m.ctx.module = none
  frames : m.ctx.calls.frames = []

theorem Vacant.held (h : m.Vacant) : m.ctx.held = [none] := by
  rw [Context.held, h.module, h.frames]
  rfl

theorem Vacant.anchored (h : m.Vacant) : m.Anchored := by
  intro id hid
  rw [h.held] at hid
  simp at hid

theorem Vacant.others_eq (h : m.Vacant) (id : ModuleId) : m.others id = m.engine.contextRefs id := by
  simp [others, holds, h.held]

theorem releaseRun_holding (h : m.Sound) : m.releaseRun.Vacant ∧ m.releaseRun.others = m.others := by
  -- What is left after the frames are cleaned, if they were not yet.
  obtain ⟨m1, hm1, hanch, hoth, hfrs⟩ : ∃ m1 : Machine, m.releaseRun = m1.dropObject.setModule none ∧
      m1.Anchored ∧ m1.others = m.others ∧ m1.ctx.calls.frames = [] := by
    unfold releaseRun
    cases hclup : m.ctx.needsCleanup with
    | true =>
      obtain ⟨hanch, hoth⟩ := cleanStack_holding h.anchored
      exact ⟨m.cleanStack, rfl, hanch, hoth, by rw [calls_cleanStack]⟩
    | false => exact ⟨m, rfl, h.anchored, rfl, (h.idle hclup).1⟩
  have hstake := m1.stake_dropObject
  have hcl : m1.dropObject.ctx.calls = m1.ctx.calls := congrArg Stake.calls hstake
  obtain ⟨-, hset⟩ := setModule_holding (m := m1.dropObject) none (by simp) (hanch.of_stake hstake)
  rw [hm1]
  refine ⟨⟨?_, ?_⟩, ?_⟩
  · rw [setModule_ctx]
  · rw [setModule_ctx, hcl, hfrs]
  · rw [hset, others_of_stake hstake, hoth]

/-- A context that is let go leaves the references of the others. -/
theorem drop_holding (h : m.Sound) (id : ModuleId) : m.drop.engine.contextRefs id = m.others id := by
  unfold drop
  split
  · rename_i hfresh
    obtain ⟨hmod, hfrs⟩ := h.fresh hfresh
    exact (Vacant.others_eq ⟨hmod, hfrs⟩ id).symm
  · obtain ⟨hvac, hoth⟩ := releaseRun_holding h
    rw [← hvac.others_eq, hoth]

end Machine
end ScriptVm
