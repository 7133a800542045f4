import ScriptVm.Proofs.Execution.Cleaning
import ScriptVm.Proofs.Memory.Layers

namespace ScriptVm

namespace Context

/-- The stack is in layers, and the pointers of the context and of its callers are in blocks that
are there. -/
structure Seated (c : Context) : Prop where
  stack : c.stack.Layered
  top : c.stack.Holds c.sp
  base : c.stack.Holds c.fp
  callers : ∀ f ∈ c.calls.frames, c.stack.Holds f.sp ∧ c.stack.Holds f.fp

/-- What the blocks come from stays, and so does a seated context. -/
structure Stays (c c' : Context) : Prop where
  plan : c'.stack.plan = c.stack.plan
  seated : c.Seated → c'.Seated

/-- What the blocks come from stays, and a request to abort is not lost. -/
structure Marks (c c' : Context) : Prop where
  plan : c'.stack.plan = c.stack.plan
  abort : c.abortRequested = true → c'.abortRequested = true

structure Passes (c c' : Context) : Prop extends Stays c c', Marks c c'

/-- Changes that can be put together. -/
class Gradual (R : Context → Context → Prop) : Prop where
  refl : ∀ c, R c c
  trans : ∀ {a b c}, R a b → R b c → R a c

/-- Changes that allow for whatever leaves the pointers, the callers and the sizes of the blocks,
and for a top that is moved up. -/
class Lenient (R : Context → Context → Prop) : Prop extends Gradual R where
  of_still : ∀ {c c' : Context}, c'.stack.layout = c.stack.layout → c'.sp = c.sp → c'.fp = c.fp →
    c'.calls = c.calls →
    (c.abortRequested = true → c'.abortRequested = true) → R c c'
  of_raised : ∀ {c : Context} {words : Int} {sp : Pointer}, 0 ≤ words →
    c.sp.shift? words = some sp → R c { c with sp }

instance gradual_stays : Gradual Stays where
  refl _ := ⟨rfl, id⟩
  trans h k := ⟨k.plan.trans h.plan, fun hs => k.seated (h.seated hs)⟩

instance gradual_marks : Gradual Marks where
  refl _ := ⟨rfl, id⟩
  trans h k := ⟨k.plan.trans h.plan, fun ha => k.abort (h.abort ha)⟩

instance gradual_passes : Gradual Passes where
  refl c := { gradual_stays.refl c, gradual_marks.refl c with }
  trans h k :=
    { gradual_stays.trans h.toStays k.toStays, gradual_marks.trans h.toMarks k.toMarks with }

theorem seated_of_empty {c : Context} (hs : c.stack.Layered) (h : c.stack.blocks.size = 0) :
    c.Seated where
  stack := hs
  top hne := absurd h hne
  base hne := absurd h hne
  callers _ _ := ⟨fun hne => absurd h hne, fun hne => absurd h hne⟩

theorem seated_new (limit : UInt32) : (Context.new limit).Seated :=
  seated_of_empty (Stack.layered_new limit) rfl

variable {c c' : Context}

theorem Stays.of_same (hstk : c'.stack.layout = c.stack.layout) (hsp : c'.sp.block = c.sp.block)
    (hfp : c'.fp = c.fp) (hcl : c'.calls = c.calls) : c.Stays c' := by
  refine ⟨Stack.plan_of_layout hstk, fun hs => ⟨hs.stack.of_layout hstk, ?_, ?_, ?_⟩⟩
  · exact (hs.top.of_layout hstk).of_block hsp
  · rw [hfp]
    exact hs.base.of_layout hstk
  · intro f hf
    rw [hcl] at hf
    obtain ⟨hsp, hfp⟩ := hs.callers f hf
    exact ⟨hsp.of_layout hstk, hfp.of_layout hstk⟩

theorem Passes.of_same (hstk : c'.stack.layout = c.stack.layout) (hsp : c'.sp.block = c.sp.block)
    (hfp : c'.fp = c.fp) (hcl : c'.calls = c.calls)
    (habt : c.abortRequested = true → c'.abortRequested = true) :
    c.Passes c' :=
  { Stays.of_same hstk hsp hfp hcl with abort := habt }

instance lenient_passes : Lenient Passes where
  of_still hstk hsp hfp hcl habt := .of_same hstk (congrArg Pointer.block hsp) hfp hcl habt
  of_raised _ hsp := .of_same rfl (Pointer.shift?_eq_some_iff.mp hsp).1 rfl rfl id

theorem Seated.grow (hc : c.Seated) (needed args : Nat) :
    { c with stack := (c.stack.grow c.sp needed args).2 }.Seated := by
  obtain ⟨hlay, hgrown, -, -⟩ := hc.stack.grow hc.top needed args
  refine ⟨hlay, hc.top.grown hgrown, hc.base.grown hgrown, fun f hf => ?_⟩
  obtain ⟨hsp, hfp⟩ := hc.callers f hf
  exact ⟨hsp.grown hgrown, hfp.grown hgrown⟩

end Context

open Context

namespace Machine

section Lenient

variable {R : Context → Context → Prop} [hR : Lenient R] {m : Machine} {c : Context}

theorem moves_setWords (h : R c m.ctx) (p : Pointer) (v : UInt64) : R c (m.setWords p v).ctx := by
  refine hR.trans h ?_
  unfold setWords
  split
  · exact hR.of_still (m.ctx.stack.layout_set64 p v) rfl rfl rfl id
  · exact hR.refl _

theorem robust_of_lenient (c : Context) : Robust fun m => R c m.ctx where
  giveUp h _ := h
  release h _ := h
  setWords h p v := moves_setWords h p v

end Lenient

theorem passes_clearObjectVars (m : Machine) (f : Func) : m.ctx.Passes (m.clearObjectVars f).ctx :=
  (robust_of_lenient m.ctx).clearObjectVars (Gradual.refl _) f

theorem passes_restore (m : Machine) {frame : Frame} {calls : CallStack}
    (h : m.ctx.calls.frames = frame :: calls.frames) :
    m.ctx.Passes (m.restore frame calls).ctx := by
  rw [Exec.restore_ctx]
  refine { plan := rfl, abort := id, seated := fun hs => ?_ }
  have hclrs := hs.callers
  rw [h] at hclrs
  obtain ⟨hsp, hfp⟩ := hclrs frame List.mem_cons_self
  exact ⟨hs.stack.of_layout rfl, hsp.of_layout rfl, hfp.of_layout rfl,
    fun f hf => hclrs f (List.mem_cons_of_mem _ hf)⟩

end Machine

namespace Exec

variable {ε α β : Type} {R : Context → Context → Prop} {x : Exec ε α} {m m' : Machine} {fp : Pointer}

/-- The context before a step is related to the one after it. -/
def Rule.moves (R : Context → Context → Prop) [hR : Gradual R] : Rule where
  Allows _ m m' := R m.ctx m'.ctx
  refl m := hR.refl m.ctx
  trans := hR.trans
  caught := id

abbrev Moves (R : Context → Context → Prop) [Gradual R] (x : Exec ε α) : Prop := Obeys (.moves R) x

section Gradual

variable [hR : Gradual R]

theorem moves_of (h : ∀ m, R m.ctx (x.after m).ctx) : Moves R x := ⟨h⟩

theorem Moves.moves (h : Moves R x) (m : Machine) : R m.ctx (x.after m).ctx := h.holds m

theorem Moves.of_ok [h : Moves R x] {a : α} (hx : x m = .ok a m') : R m.ctx m'.ctx := by
  have hmoves := h.moves m
  rwa [after_of_ok hx] at hmoves

theorem moves_modifyCtx {f : Context → Context} (h : ∀ c, R c (f c)) :
    Moves R (modifyCtx f : Exec ε Unit) :=
  ⟨fun m => h m.ctx⟩

instance (priority := low) moves_of_keeps (x : Exec ε α) [h : Keeps Machine.ctx x] : Moves R x := by
  refine ⟨fun m => ?_⟩
  show R m.ctx (x.after m).ctx
  rw [h.view_after m]
  exact hR.refl m.ctx

instance moves_modifyEngine (f : Engine → Engine) : Moves R (modifyEngine f : Exec ε Unit) :=
  ⟨fun m => hR.refl m.ctx⟩

instance moves_onHeap (f : Heap → α × Heap) : Moves R (onHeap f : Exec ε α) :=
  ⟨fun m => hR.refl m.ctx⟩

instance moves_giveUp (h : Handle) : Moves R (modify fun m => m.giveUp h : Exec ε PUnit) :=
  ⟨fun m => hR.refl m.ctx⟩

end Gradual

instance (priority := low) stays_of_passes (x : Exec ε α) [h : Moves Passes x] : Moves Stays x :=
  ⟨fun m => (h.moves m).toStays⟩

theorem moves_bind_of_ok [hR : Gradual R] {f : α → Exec ε β} (hx : R m.ctx (x.after m).ctx)
    (hf : ∀ a m', x m = .ok a m' → R m'.ctx ((f a).after m').ctx) :
    R m.ctx ((x >>= f).after m).ctx :=
  after_bind_induct (P := fun m' => R m.ctx m'.ctx) hx fun a m' h hm' => hR.trans hm' (hf a m' h)

section Lenient

variable [hR : Lenient R]

theorem moves_onStack {f : Stack → Stack} (h : ∀ s, (f s).layout = s.layout) :
    Moves R (modify fun m => m.onStack f : Exec ε PUnit) :=
  obeys_modify fun m => hR.of_still (h m.ctx.stack) rfl rfl rfl id

theorem moves_raiseTop {words : Int} (h : 0 ≤ words) : Moves R (moveTop words) :=
  moves_of fun m => by
    refine moves_bind_of_ok (x := ctx) (hR.refl _) fun c m' hc => ?_
    cases hc
    cases hsp : m.ctx.sp.shift? words with
    | none => exact hR.refl _
    | some sp => exact hR.of_raised h hsp

instance noting_moves : (Rule.moves R).Noting where
  elementary x h := by
    induction h with
    | pure | fail | setGlobal | setField | giveUp => infer_instance
    | bind hx hf ihx ihf | look h hf ih => exact obeys_bind _ _
    | setWord p v => exact moves_onStack fun s => s.layout_set p v
    | setWords p v => exact moves_onStack fun s => s.layout_set64 p v
    | raiseTop h => exact moves_raiseTop h
    | setRegister | setObject => exact moves_modifyCtx fun _ => hR.of_still rfl rfl rfl rfl id
  notes h :=
    hR.of_still (congrArg (fun c => c.stack.layout) h.footing) (congrArg (fun c => c.sp) h.footing)
    (congrArg (fun c => c.fp) h.footing) (congrArg (fun c => c.calls) h.footing) h.abort
  tell m _ := hR.refl m.ctx
  modify m _ _ := hR.refl m.ctx
  newObject _ := obeys_bind _ _
  addRef _ := obeys_bind _ _
  release _ := moves_onHeap _
  releaseArgs m _ _ := (Machine.robust_of_lenient m.ctx).releaseArgs (hR.refl _) _ _ _
  outOfFuel m := hR.refl m.ctx

instance calling_moves : (Rule.moves R).Calling where
  overflow m := hR.refl m.ctx

end Lenient

instance passes_moveTop (words : Int) : Moves Passes (moveTop words) :=
  moves_of fun m => by
    refine moves_bind_of_ok (x := ctx) (Gradual.refl _) fun c m' hc => ?_
    cases hc
    cases hsp : m.ctx.sp.shift? words with
    | none => exact Gradual.refl _
    | some sp =>
      obtain ⟨hblk, -⟩ := Pointer.shift?_eq_some_iff.mp hsp
      exact .of_same rfl hblk rfl rfl id

theorem layout_of_copy {s t : Stack} {source target : Pointer} {count : Nat} {copied : Bool}
    (h : s.copy source target count = (copied, t)) : t.layout = s.layout :=
  (congrArg (fun r => r.2.layout) h).symm.trans (s.layout_copy source target count)

instance passes_placeArgs (callee : Func) : Moves Passes (placeArgs callee) :=
  moves_of fun m => by
    have hgrown : m.ctx.Passes
        { m.ctx with
          stack := (m.ctx.stack.grow m.ctx.sp (callee.stackNeeded.toNat + reserve) callee.argWords).2 } :=
      { plan := m.ctx.stack.plan_grow .., abort := id, seated := fun hs => hs.grow _ _ }
    have hcopied {s t : Stack} {fp : Pointer} {copied : Bool}
        (hcopy : s.copy m.ctx.sp fp callee.argWords = (copied, t)) :
        { m.ctx with stack := s }.Passes { m.ctx with stack := t } :=
      .of_same (layout_of_copy hcopy) rfl rfl rfl id
    have hplaces := placeArgs_cases callee m
    show m.ctx.Passes (left (placeArgs callee m)).ctx
    generalize placeArgs callee m = r at hplaces ⊢
    cases hplaces with
    | large => exact Gradual.refl _
    | none hgrow | here hgrow =>
      rw [hgrow] at hgrown
      exact hgrown
    | moved _ hgrow hcopy | torn _ hgrow hcopy =>
      rw [hgrow] at hgrown
      exact Gradual.trans hgrown (hcopied hcopy)

theorem placeArgs_holds {callee : Func} (hm : m.ctx.Seated) (h : placeArgs callee m = .ok fp m') :
    m'.ctx.stack.Holds fp := by
  have hfd := (hm.stack.grow hm.top (callee.stackNeeded.toNat + reserve) callee.argWords).2.2.1
  have hplaces := placeArgs_cases callee m
  rw [h] at hplaces
  cases hplaces with
  | here hgrow =>
    rw [hgrow] at hfd
    exact hfd _ rfl
  | moved _ hgrow hcopy =>
    rw [hgrow] at hfd
    exact (hfd _ rfl).of_layout (layout_of_copy hcopy)

theorem saved_seated (hm : m.ctx.Seated) (hfp : m.ctx.stack.Holds fp) (caller : Func) (block : Nat)
    (module : Option ModuleId) : (m.saved caller block module fp).ctx.Seated := by
  rw [saved_ctx]
  refine ⟨hm.stack, hm.top, hfp, fun f hf => ?_⟩
  rcases List.mem_cons.mp hf with rfl | hf
  · exact ⟨hm.top, hm.base⟩
  · exact hm.callers f hf

theorem entered_passes {callee : Func} {sp : Pointer}
    (hsp : m.ctx.fp.shift? (-callee.locals.toNat) = some sp) :
    m.ctx.Passes (m.entered callee sp).ctx := by
  obtain ⟨hblk, -⟩ := Pointer.shift?_eq_some_iff.mp hsp
  have hcld := (m.onContext fun c => { c with sp }).passes_clearObjectVars callee
  exact
    { hcld.toMarks with
      seated := fun hm => { hcld.seated { hm with top := hm.base.of_block hblk } with } }

/-- The caller is saved with the pointers it has, and the callee begins where room was found. -/
instance passes_callScript (callee : Func) : Moves Passes (callScript callee) :=
  moves_of fun m => by
    have hplaced := (passes_placeArgs callee).moves m
    have hsaved {fp : Pointer} {m1 : Machine} (h : placeArgs callee m = .ok fp m1) (caller : Func)
        (block : Nat)
        (module : Option ModuleId) : m.ctx.Passes (m1.saved caller block module fp).ctx := by
      rw [after_of_ok h] at hplaced
      refine { plan := ?_, seated := fun hm => ?_, abort := ?_ }
      · rw [saved_ctx]
        exact hplaced.plan
      · exact saved_seated (hplaced.seated hm) (placeArgs_holds hm h) caller block module
      · rw [saved_ctx]
        exact hplaced.abort
    have hcases := callScript_cases callee m
    unfold after at hplaced ⊢
    generalize callScript callee m = r at hcases ⊢
    cases hcases with
    | unplaced h | orphan h =>
      rw [h] at hplaced
      exact hplaced
    | cramped h => exact hsaved h _ _ _
    | begun h hf hsp => exact Gradual.trans (hsaved h _ _ _) (entered_passes hsp)

instance passes_returnFrom (words : Nat) : Moves Passes (returnFrom words) :=
  moves_of fun m => by
    refine moves_bind_of_ok (x := ctx) (Gradual.refl _) fun c m' hc => ?_
    cases hc
    cases hpop : m.ctx.calls.pop? with
    | none => exact Gradual.refl _
    | some popped =>
      refine moves_bind_of_ok (x := modify fun m => m.restore popped.1 popped.2)
        (m.passes_restore (frames_of_pop hpop)) ?_
      intro _ m1 _
      have hmove : Moves Passes (do
          let sp ← orFail Fault.badCode ((← ctx).sp.shift? words)
          modifyCtx fun c => { c with sp }
          pure true) := by
        refine ⟨fun m => moves_bind_of_ok (x := ctx) (Gradual.refl _) fun c m' hc => ?_⟩
        cases hc
        cases hsp : m.ctx.sp.shift? words with
        | none => exact Gradual.refl _
        | some sp =>
          obtain ⟨hblk, -⟩ := Pointer.shift?_eq_some_iff.mp hsp
          exact .of_same rfl hblk rfl rfl id
      exact hmove.moves m1

instance stepping_passes : (Rule.moves Passes).Stepping where
  moveTop := passes_moveTop
  clear m p n := .of_same (m.ctx.stack.layout_clear p n) rfl rfl rfl id
  callScript := passes_callScript
  returnFrom := passes_returnFrom

end Exec
end ScriptVm
