import ScriptVm.Proofs.Engine.Unreached
import ScriptVm.Proofs.Session.Workspace

namespace ScriptVm

namespace Engine

theorem Linked.mem_destroyed_iff {e : Engine} (h : e.Linked) (hfits : e.Fits) {id : ModuleId}
    (hid : id ∈ e.present) :
    id ∉ e.collect.2.present ↔ id ∈ e.discarded ∧ e.contextRefs id = 0 ∧ ¬ e.Reached id := by
  rw [mem_present_collect h.toFiled, ← h.mem_doomed_iff hfits]
  simp [hid]

/-- Modules that are imported only by one another are not reached from elsewhere. -/
theorem Filed.group_unreached {e : Engine} (h : e.Filed) {group : ModuleId → Prop}
    (hgroup : ∀ id, group id → id ∈ e.discarded ∧ e.contextRefs id = 0)
    (hclsd : ∀ k id, group id → e.Imports k id → group k)
    {id : ModuleId} (hid : group id) : ¬ e.Reached id := by
  rintro ⟨root, hroot, hpath⟩
  have hstart : group root := by
    clear hroot
    induction hpath using Relation.ReflTransGen.head_induction_on with
    | refl => exact hid
    | head himps _ ih => exact hclsd _ _ ih himps
  exact h.root_not_candidate hroot (h.mem_candidates.mpr (hgroup root hstart))

theorem Filed.function?_collect_present {e : Engine} (h : e.Filed) {k : FunctionId} {f : Func} :
    e.collect.2.function? k = some f ↔ e.function? k = some f ∧ ∀ id, f.module = some id →
      id ∈ e.collect.2.present := by
  rw [h.function?_collect_iff]
  refine and_congr_right fun hf => ⟨fun hkept id hmod => ?_, fun hkept d hd hmod => ?_⟩
  · refine (mem_present_collect h).mpr ⟨?_, fun hd => hkept id hd hmod⟩
    obtain ⟨-, ⟨-, hnone⟩ | ⟨id', m, hid, hpres, -⟩⟩ := h.owned hf
    · rw [hnone] at hmod
      cases hmod
    · rw [hid] at hmod
      cases hmod
      exact hpres
  · exact ((mem_present_collect h).mp (hkept d hmod)).2 hd

end Engine

namespace Workspace

/-- A discarded module is destroyed if and only if no context holds it and no module that stays
imports it, be it through others. The search for these modules ends after a bounded number of
rounds. With the modules go their functions and only those, no import is left bound to one of them,
and at once after a collection there is nothing more to collect. -/
theorem collect_exact {w : Workspace} (h : w.Reachable) (hfits : w.engine.Fits) :
    (∀ id ∈ w.engine.present, id ∉ w.engine.collect.2.present ↔
        id ∈ w.engine.discarded ∧ w.engine.contextRefs id = 0 ∧ ¬ w.engine.Reached id) ∧
      (∀ group : ModuleId → Prop,
        (∀ id, group id → id ∈ w.engine.discarded ∧ w.engine.contextRefs id = 0) →
        (∀ k id, group id → w.engine.Imports k id → group k) → ∀ id,
          group id → id ∉ w.engine.collect.2.present) ∧
      (∃ n ≤ w.engine.candidates.length,
        w.engine.sift (w.engine.sift^[n] w.engine.candidates) =
          w.engine.sift^[n] w.engine.candidates ∧
          w.engine.collect.1 = (w.engine.sift^[n] w.engine.candidates).length ∧
          ∀ id ∈ w.engine.present,
            id ∉ w.engine.collect.2.present ↔ id ∈ w.engine.sift^[n] w.engine.candidates) ∧
      (∀ k f, w.engine.collect.2.function? k = some f ↔
        w.engine.function? k = some f ∧ ∀ id, f.module = some id → id ∈ w.engine.collect.2.present) ∧
      (∀ k, w.engine.collect.2.function? k = none → ∀ slot ∈ w.engine.collect.2.slots,
        slot.bound ≠ some k) ∧
      w.engine.collect.2.collect.1 = 0 := by
  obtain ⟨hlinked, -⟩ := h.linked_accounted hfits
  refine ⟨fun id hid => hlinked.mem_destroyed_iff hfits hid,
    fun group hgroup hclosed id hid => ?_, ?_,
    fun k f => hlinked.toFiled.function?_collect_present, fun k hk slot hslot hbound => ?_, ?_⟩
  · obtain ⟨hdiscarded, hrefs⟩ := hgroup id hid
    refine (hlinked.mem_destroyed_iff hfits (List.mem_append_right _ hdiscarded)).mpr
      ⟨hdiscarded, hrefs, ?_⟩
    exact hlinked.toFiled.group_unreached hgroup hclosed hid
  · obtain ⟨n, hn, hiterate⟩ := w.engine.closedPart_eq_iterate w.engine.candidates
    refine ⟨n, hn, ?_, ?_, fun id hid => ?_⟩
    · rw [← hiterate, Engine.sift_closedPart]
    · rw [← hiterate]
      rfl
    · rw [← hiterate, Engine.mem_present_collect hlinked.toFiled, not_and_not_right]
      exact ⟨fun hdoomed => hdoomed hid, fun hdoomed _ => hdoomed⟩
  · obtain ⟨f, hf, -⟩ := (hlinked.collect hfits).resolved slot hslot k hbound
    rw [hk] at hf
    cases hf
  · show w.engine.collect.2.doomed.length = 0
    rw [hlinked.doomed_collect hfits, List.length_nil]

/-- Two modules that import from one another, and one that imports from a third. -/
def ring : Workspace :=
  let w := load { engine := {} } "left" [{ leaf with source := some "right", code := #[] }] [leaf]
  let w := w.load "right" [{ leaf with source := some "left", code := #[] }] [leaf]
  let w := (w.load "base" [] [leaf]).load "user"
    [{ leaf with source := some "base", code := #[] }] [leaf]
  { w with engine := (((w.engine.bindAll ⟨1⟩).2.bindAll ⟨2⟩).2.bindAll ⟨4⟩).2 }

/-- All but the last module are discarded while a context holds the first one, which is then
unprepared. -/
def orphaned : Workspace :=
  let w := ring.ask 1 (.prepare ⟨1⟩)
  let w := { w with engine := (((w.engine.discard "left").2.discard "right").2.discard "base").2 }
  w.ask 1 .unprepare

theorem orphaned_reachable : orphaned.Reachable := by
  have hleft :=
    (Reachable.new {}).load "left" [{ leaf with source := some "right", code := #[] }] [leaf]
  have hright := hleft.load "right" [{ leaf with source := some "left", code := #[] }] [leaf]
  have huser := (hright.load "base" [] [leaf]).load "user"
    [{ leaf with source := some "base", code := #[] }] [leaf]
  have hring : ring.Reachable :=
    ((huser.step (.engine (.bindAll ⟨1⟩))).step (.engine (.bindAll ⟨2⟩))).step (.engine (.bindAll ⟨4⟩))
  have hheld := hring.step (.request 1 (.prepare ⟨1⟩) (by decide +kernel) (by decide +kernel))
  have hdisc := ((hheld.step (.engine (.discard "left"))).step (.engine (.discard "right"))).step
    (.engine (.discard "base"))
  exact hdisc.step (.request 1 .unprepare (by decide +kernel) (by decide +kernel))

theorem orphaned_fits : orphaned.engine.Fits where
  modules := by decide +kernel
  functions := by decide +kernel
  slots := by decide +kernel

/-- The two modules that import from one another go together; the third one is imported by a module
in use and stays. -/
theorem collect_exact_orphaned :
    orphaned.engine.discarded = [⟨1⟩, ⟨2⟩, ⟨3⟩] ∧ orphaned.engine.collect.1 = 2 ∧
      orphaned.engine.collect.2.present = [⟨4⟩, ⟨3⟩] ∧
      (¬ orphaned.engine.Reached ⟨1⟩ ∧ ¬ orphaned.engine.Reached ⟨2⟩ ∧ orphaned.engine.Reached ⟨3⟩) ∧
      orphaned.engine.collect.2.collect.1 = 0 := by
  obtain ⟨hexact, -, -, -, -, hagain⟩ := collect_exact orphaned_reachable orphaned_fits
  have hleft := (hexact ⟨1⟩ (by decide +kernel)).mp (by decide +kernel)
  have hright := (hexact ⟨2⟩ (by decide +kernel)).mp (by decide +kernel)
  have hbase : orphaned.engine.Reached ⟨3⟩ := by
    by_contra hunreached
    exact (hexact ⟨3⟩ (by decide +kernel)).mpr ⟨by decide +kernel, by decide +kernel,
      hunreached⟩ (by decide +kernel)
  exact ⟨by decide +kernel, by decide +kernel, by decide +kernel,
    ⟨hleft.2.2, hright.2.2, hbase⟩, hagain⟩

end Workspace

end ScriptVm
