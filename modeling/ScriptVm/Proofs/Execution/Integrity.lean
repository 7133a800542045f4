import ScriptVm.Proofs.Engine.Verified
import ScriptVm.Proofs.Execution.Terms

namespace ScriptVm

/-- Only checked code runs, and the next instruction of a script function is in its code. -/
def Terms.checked : Terms where
  Grants := Engine.Verified
  Runs _ f _ := f.Sealed
  At f pc := f.kind = .script → pc < f.code.size
  grants_of_catalog h hcat := h.of_code (Engine.code_of_catalog hcat)
  runs_of_catalog h _ := h
  listed h hf _ := h.function? hf
  unscripted hkind := fun hscr => absurd hscr hkind
  zero h hkind := (h hkind).size_pos
  next h hi hterm hkind := (h hkind).next_lt hi hterm
  target h _ := h

/-- Nothing but checked code runs, and control is inside of it. -/
abbrev Machine.Intact (m : Machine) : Prop := m.Abides .checked

namespace Exec

variable {m : Machine} {f : Func}

theorem leaveRun_intact (h : m.Intact) : (leaveRun.after m).Intact := by
  rw [after_of_ok (leaveRun_eq m)]
  split
  · obtain ⟨m1, h1, hrel⟩ := h.releaseRun
    rw [hrel]
    apply h1.of_placed (m1.catalog_setModule none)
    rw [m1.setModule_ctx]
    exact ⟨h1.position.callers, h1.position.current, h1.position.inside, h1.position.first⟩
  · exact h

theorem settle_intact (h : m.Intact) (hf : f.Sealed) : ((settle f).after m).Intact := by
  have hkept : Keeps Machine.stance (layoutEntry f) :=
    keeps_layoutEntry (fun _ _ => rfl) (fun _ _ _ => rfl) fun m =>
      Machine.stance_of_outline (m.outline_clearObjectVars f)
  have hlyt : ((layoutEntry f).after m).Intact :=
    h.of_stance ((keeps_catalog_layoutEntry f).view_after m) (hkept.view_after m)
  refine abides_bind hlyt fun _ m1 _ h1 => ?_
  exact abides_prepared h1.engine hf

theorem prepareFunction_intact (h : m.Intact) (hf : f.Sealed) :
    ((prepareFunction f).after m).Intact := by
  refine abides_bind (requireIdle_abides h) fun _ m1 _ h1 => ?_
  refine abides_bind (abides_keeps (entryOf f) h1) fun g m2 hg h2 => ?_
  refine abides_bind (leaveRun_intact h2) fun _ m3 _ h3 => ?_
  exact settle_intact h3 (entryOf_admits h1.engine hf hg)

theorem prepare_intact (h : m.Intact) (id : FunctionId) : ((prepare id).after m).Intact := by
  refine abides_bind (requireIdle_abides h) fun _ m1 _ h1 => ?_
  refine abides_bind (abides_keeps engine h1) fun e m2 he h2 => ?_
  cases he
  refine abides_bind (abides_keeps (orFail _ _) h2) fun f m3 hf h3 => ?_
  exact prepareFunction_intact h3 (h2.engine.function? (orFail_ok hf).1)

end Exec

end ScriptVm
