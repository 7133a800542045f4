import ScriptVm.Proofs.Execution.Upholding

namespace ScriptVm

namespace Func

variable {f : Func}

theorem Modest.argWords (h : f.Modest) : f.argWords < 4294967296 := by
  unfold Modest at h
  omega

theorem Modest.paramWords (h : f.Modest) : f.signature.paramWords < 4294967296 := by
  have hargs := h.argWords
  unfold Func.argWords at hargs
  omega

theorem Modest.methodWords (h : f.Modest) (hown : f.owner.isSome = true) :
    f.signature.paramWords + pointerWords < 4294967296 := by
  have hargs := h.argWords
  unfold Func.argWords thisWords at hargs
  rw [if_pos hown] at hargs
  omega

end Func

namespace Exec

open Machine (Firm)

variable {ε α β : Type} {m m' : Machine} {f : Func}

theorem upheld_functionOf {id : FunctionId} {g : Func → Exec Fault β} (hm : m.Firm)
    (hg : ∀ f : Func, f.Modest → Upheld Firm (g f m)) : Upheld Firm ((functionOf id >>= g) m) := by
  refine upheld_bind (upheld_after (functionOf id) hm) fun f m' hf _ => ?_
  obtain ⟨hf, rfl⟩ := functionOf_ok hf
  exact hg f (hm.engine.table id f hf)

theorem hostCall_upheld (hm : m.Firm) (hf : f.Modest) (this : Option Handle) :
    Upheld Firm (hostCall f this m) := by
  refine upheld_ctx (upheld_word hf.paramWords ?_)
  split
  · rename_i hmeth
    have hown : f.owner.isSome = true := by
      simp only [Bool.and_eq_true] at hmeth
      exact hmeth.2
    apply upheld_get
    refine upheld_orFail hm fun object _ => ?_
    refine upheld_orFail hm fun args _ => ?_
    exact upheld_word (hf.methodWords hown) hm
  · exact hm

section Acting

variable (nested : Nested) [∀ id args, Upholds Firm (nested id args)] (c : HostCall)

theorem callHost_upheld (hm : m.Firm) (hf : f.Modest) (this : Option Handle) :
    Upheld Firm (callHost nested f this m) := by
  apply upheld_engine
  refine upheld_orFail hm fun body _ => ?_
  refine upheld_bind (hostCall_upheld hm hf this) fun call m1 _ hm1 => ?_
  have hrest : Upholds Firm (do carryOut nested call.1 body; pure call.2) := obeys_bind _ _
  exact upheld_after _ hm1

theorem callHostFrom_upheld (hm : m.Firm) (hf : f.Modest) :
    Upheld Firm (callHostFrom nested f m) := by
  refine upheld_bind (callHost_upheld nested hm hf none) fun words m1 _ hm1 => ?_
  have hrest : Upholds Firm (do moveTop words; checkInterrupt) := obeys_bind _ _
  exact upheld_after _ hm1

end Acting

theorem placeArgs_upheld (hm : m.Firm) (hf : f.Modest) : Upheld Firm (placeArgs f m) := by
  have hneed : f.stackNeeded.toNat + Context.reserve < 4294967296 := by
    unfold Func.Modest at hf
    omega
  have hseated := ((passes_placeArgs f).moves m).seated hm.ctx.toSeated
  have hplaces := placeArgs_cases f m
  unfold after at hseated
  generalize placeArgs f m = r at hplaces hseated ⊢
  cases hplaces with
  | large hlarge => exact absurd (hlarge hf.argWords) (by omega)
  | @none failure s hgrow =>
    cases failure with
    | full => exact hm.withStack hseated
    | overflow =>
      exact absurd (congrArg Prod.fst hgrow) (hm.ctx.stack.grow_ne_overflow hm.ctx.top _ _)
  | here | moved | torn => exact hm.withStack hseated

theorem callScript_upheld (hm : m.Firm) (hf : f.Modest) : Upheld Firm (callScript f m) := by
  have hplaced := placeArgs_upheld hm hf
  have hsaved {fp : Pointer} {m1 : Machine} {caller : Func} (h : placeArgs f m = .ok fp m1)
      (hclr : m1.ctx.function = some caller)
      (block : Nat) : (m1.saved caller block (moduleOf? m1 f) fp).Firm := by
    rw [h] at hplaced
    have hseated := saved_seated hplaced.ctx.toSeated
      (placeArgs_holds hm.ctx.toSeated h) caller block (moduleOf? m1 f)
    refine ⟨hplaced.engine.holdModule (moduleOf? m1 f),
      { hseated with saved := ?_, current := fun _ hg => nomatch hg }⟩
    intro frame hfr
    rw [saved_ctx] at hfr
    rcases List.mem_cons.mp hfr with rfl | hfr
    · exact hplaced.ctx.current caller hclr
    · exact hplaced.ctx.saved frame hfr
  have hcases := callScript_cases f m
  generalize callScript f m = r at hcases ⊢
  cases hcases with
  | @unplaced stop _ h =>
    rw [h] at hplaced
    cases stop <;> exact hplaced
  | orphan h =>
    rw [h] at hplaced
    exact hplaced
  | cramped h hclr => exact hsaved h hclr _
  | begun h hclr hsp =>
    have hm2 := hsaved h hclr m.ctx.stack.current
    have hset := ((hm2.setTop hm2.ctx.base hsp).clearObjectVars f).setFunction hf
    exact ⟨hset.engine, { hset.ctx with }⟩

instance upholds_returnFrom (words : Nat) : Upholds Firm (returnFrom words) :=
  upholds_of fun m hm => by
    apply upheld_ctx
    cases hpop : m.ctx.calls.pop? with
    | none => exact hm
    | some popped =>
      have hrst : (m.restore popped.1 popped.2).Firm := hm.restore (frames_of_pop hpop)
      have hback :
          Upheld Firm ((modify fun m => m.restore popped.1 popped.2 : Exec Fault PUnit) m) := hrst
      refine upheld_bind hback fun _ m1 _ hm1 => ?_
      apply upheld_ctx
      cases hsp : m1.ctx.sp.shift? words with
      | none => exact hm1
      | some sp => exact hm1.setTop hm1.ctx.top hsp

theorem enterConstructor_upheld (hm : m.Firm) (hf : f.Modest) (h : Handle) :
    Upheld Firm (enterConstructor f h m) := by
  refine upheld_next hm fun bits m1 hm1 => ?_
  refine upheld_orFail hm1 fun a _ => ?_
  refine upheld_next hm1 fun _ m2 hm2 => ?_
  exact upheld_next hm2 fun _ m3 hm3 => callScript_upheld hm3 hf

instance upholds_callBoundTo (id : FunctionId) : Upholds Firm (callBoundTo id) :=
  upholds_of fun m hm => by
    apply upheld_get
    refine upheld_orFail hm fun f hbnd => ?_
    simp only [Option.bind_eq_bind, Option.bind_eq_some_iff] at hbnd
    obtain ⟨index, -, module, -, slot, -, target, -, hf⟩ := hbnd
    exact callScript_upheld hm (hm.engine.table target f hf)

section Instructions

variable (nested : Nested) [∀ id args, Upholds Firm (nested id args)]

instance upholds_allocObject (type : TypeId) (constructor : FunctionId) :
    Upholds Firm (allocObject nested type constructor) :=
  upholds_of fun m hm => by
    apply upheld_engine
    refine upheld_orFail hm fun objectType _ => ?_
    refine upheld_next hm fun h m1 hm1 => ?_
    split
    · have hstore : Upholds Firm (do storeNew (← popAddress) h; pure Flow.go) := obeys_bind _ _
      exact upheld_after _ hm1
    · refine upheld_functionOf hm1 fun f hf => ?_
      have hnew := Rule.Holds.constructed (Q := .upholds Firm) nested fun _ =>
        callHost_upheld nested hm1 hf (some h)
      apply upheld_word hf.paramWords
      split
      · exact upheld_map (enterConstructor_upheld hm1 hf h) _
      · exact upheld_bind (hnew hm1) fun _ m2 _ hm2 => upheld_after checkInterrupt hm2

instance upholds_callMethodOn (id : FunctionId) : Upholds Firm (callMethodOn nested id) :=
  upholds_of fun m hm => by
    refine upheld_functionOf hm fun declared _ => ?_
    refine upheld_next hm fun bits m1 hm1 => ?_
    refine upheld_orFail hm1 fun object _ => ?_
    apply upheld_engine
    refine upheld_orFail hm1 fun f hresd => ?_
    obtain ⟨k, hk⟩ := resolveMethod?_table hresd
    have hf := hm1.engine.table k f hk
    split
    · exact callHostFrom_upheld nested hm1 hf
    · exact upheld_map (callScript_upheld hm1 hf) _

instance upholds_exec (i : Instr) : Upholds Firm (exec nested i) := by
  cases i with
  | call id =>
    exact ⟨fun m hm => upheld_functionOf hm fun f hf => upheld_map (callScript_upheld hm hf) _⟩
  | callHost id =>
    exact ⟨fun m hm => upheld_functionOf hm fun f hf => callHostFrom_upheld nested hm hf⟩
  | _ =>
    unfold exec
    infer_instance

end Instructions

end Exec

end ScriptVm
