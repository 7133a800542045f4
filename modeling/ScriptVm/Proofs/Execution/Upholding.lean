import ScriptVm.Proofs.Execution.Firm

namespace ScriptVm.Exec

open Machine (Firm)

variable {ε α β : Type} {m m' : Machine} {P Q : Machine → Prop}

/-- The property holds of what a step has left, if something can follow. What is out of range is a
count of references. -/
def KeptAt (P : Machine → Prop) : Ending → Machine → Prop
  | .done, m => P m
  | .cause, m => P m
  | .overflow, m => m.engine.heap.Crowded
  | .outOfFuel, _ => True

def Rule.upholds (P : Machine → Prop) : Rule where
  Allows e m m' := P m → KeptAt P e m'
  refl _ := id
  trans h k := k ∘ h
  caught := id

def Upheld (P : Machine → Prop) (r : EStateM.Result (Stop ε) Machine α) : Prop :=
  KeptAt P (ending r) (left r)

abbrev Upholds (P : Machine → Prop) (x : Exec ε α) : Prop := Obeys (.upholds P) x

theorem upholds_of {x : Exec ε α} (h : ∀ m, P m → Upheld P (x m)) : Upholds P x := ⟨h⟩

theorem upheld_after (x : Exec ε α) [hx : Upholds P x] (hm : P m) : Upheld P (x m) := hx.holds m hm

theorem Upheld.imp {r : EStateM.Result (Stop ε) Machine α} (h : Upheld P r)
    (himp : P (left r) → Q (left r)) : Upheld Q r := by
  cases r with
  | ok a m => exact himp h
  | error stop m =>
    cases stop with
    | cause e => exact himp h
    | overflow => exact h
    | outOfFuel => trivial

theorem Upheld.of_ok {x : Exec ε α} {a : α} (h : Upheld P (x m)) (hx : x m = .ok a m') : P m' := by
  rw [hx] at h
  exact h

theorem upheld_bind {x : Exec ε α} {f : α → Exec ε β} (hx : Upheld P (x m))
    (hf : ∀ a m', x m = .ok a m' → P m' → Upheld P (f a m')) : Upheld P ((x >>= f) m) := by
  apply bind_cases (Q := Upheld P)
  · intro a m' hok
    exact hf a m' hok (hx.of_ok hok)
  · intro stop m' herr
    rw [herr] at hx
    cases stop <;> exact hx

theorem upheld_ctx {f : Context → Exec ε α} (h : Upheld P (f m.ctx m)) :
    Upheld P ((ctx >>= f) m) := h

theorem upheld_engine {f : Engine → Exec ε α} (h : Upheld P (f m.engine m)) :
    Upheld P ((engine >>= f) m) := h

theorem upheld_get {f : Machine → Exec ε α} (h : Upheld P (f m m)) : Upheld P ((get >>= f) m) := h

theorem upheld_orFail {e : ε} {o : Option α} {f : α → Exec ε β} (hm : P m)
    (hf : ∀ a, o = some a → Upheld P (f a m)) : Upheld P ((orFail e o >>= f) m) := by
  cases o with
  | none => exact hm
  | some a => exact hf a rfl

theorem upheld_word {n : Nat} {f : Unit → Exec ε α} (hn : n < 4294967296) (h : Upheld P (f () m)) :
    Upheld P ((wordOrStop n >>= f) m) := by
  rw [bind_of_ok (wordOrStop_of_lt hn m)]
  exact h

theorem upheld_next {x : Exec ε α} {f : α → Exec ε β} [hx : Upholds P x] (hm : P m)
    (hf : ∀ a m', P m' → Upheld P (f a m')) : Upheld P ((x >>= f) m) :=
  upheld_bind (upheld_after _ hm) fun a m' _ => hf a m'

theorem upheld_map {x : Exec ε α} (h : Upheld P (x m)) (g : α → β) :
    Upheld P ((x >>= fun a => pure (g a)) m) :=
  upheld_bind h fun _ _ _ hm' => hm'

instance upholds_fail (e : ε) : Upholds P (fail e : Exec ε α) := ⟨fun _ hm => hm⟩

instance upholds_orFail (e : ε) (o : Option α) : Upholds P (orFail e o) := by
  cases o with
  | none => exact upholds_fail e
  | some a => exact obeys_pure a

theorem upheld_ensure {b : Bool} (hm : P m) (hcrd : b = false → m.engine.heap.Crowded) :
    Upheld P ((ensure b : Exec ε Unit) m) := by
  unfold ensure
  cases b with
  | true => exact hm
  | false => exact hcrd rfl

theorem upholds_modifyCtx {f : Context → Context} (h : ∀ c, c.Firm → (f c).Firm) :
    Upholds Firm (modifyCtx f : Exec ε Unit) :=
  obeys_modify fun m hm => hm.onContext (h m.ctx hm.ctx)

theorem upholds_modifyEngine {f : Engine → Engine} (h : ∀ e, e.Firm → (f e).Firm) :
    Upholds Firm (modifyEngine f : Exec ε Unit) :=
  obeys_modify fun m hm => ⟨h m.engine hm.engine, hm.ctx⟩

theorem upholds_onHeap {f : Heap → α × Heap} (h : ∀ heap, heap.Listed → (f heap).2.Listed) :
    Upholds Firm (onHeap f : Exec ε α) :=
  upholds_of fun m hm => by
    rw [onHeap_eq]
    exact ⟨hm.engine.onHeap (h _ hm.engine.heap), hm.ctx⟩

instance upholds_release (h : Handle) :
    Upholds Firm (onHeap fun heap => heap.release h : Exec ε Bool) :=
  upholds_onHeap fun _ hl => hl.release h

instance upholds_addRef (h : Handle) : Upholds Firm (addRef h : Exec ε Bool) :=
  upholds_of fun m hm => by
    have hadd : Upholds Firm (onHeap fun heap => heap.addRef h : Exec ε Bool) :=
      upholds_onHeap fun _ hl => hl.addRef h
    refine upheld_next hm fun ok m1 hm1 => ?_
    exact upheld_engine (upheld_map (upheld_ensure hm1 Heap.crowded_of_countFits) _)

instance upholds_copyObject (h : Handle) : Upholds Firm (copyObject h : Exec ε (Option Handle)) :=
  upholds_of fun m hm => by
    have hduplicate : Upholds Firm (onHeap fun heap => heap.duplicate h : Exec ε (Option Handle)) :=
      upholds_onHeap fun _ hl => hl.duplicate h
    apply upheld_engine
    cases m.engine.heap.get? h with
    | none => exact hm
    | some o =>
      apply upheld_engine
      rw [hm.engine.heap.hasSlot, bind_of_ok (x := ensure true) rfl]
      refine upheld_next hm fun copy m1 hm1 => ?_
      refine upheld_engine (upheld_map (upheld_ensure hm1 fun hcnt => ?_) _)
      obtain ⟨child, -, hchild⟩ := List.all_eq_false.mp hcnt
      exact Heap.crowded_of_countFits (by simpa using hchild)

theorem upholds_onStack {f : Stack → Stack} (h : ∀ s, (f s).layout = s.layout) :
    Upholds Firm (modify fun m => m.onStack f : Exec ε PUnit) :=
  obeys_modify fun m hm => hm.onStack (h m.ctx.stack)

instance upholds_moveTop (words : Int) : Upholds Firm (moveTop words) :=
  upholds_of fun m hm => by
    apply upheld_ctx
    cases hsp : m.ctx.sp.shift? words with
    | none => exact hm
    | some sp => exact hm.setTop hm.ctx.top hsp

theorem notes_firm {c c' : Context} (h : c.Notes c') (hc : c.Firm) : c'.Firm := by
  have hfoot : c.footing.Firm := { hc with }
  rw [← h.footing] at hfoot
  exact { hfoot with }

instance pushing_firm : (Rule.upholds Firm).Pushing where
  elementary x h := by
    induction h with
    | pure | fail => infer_instance
    | bind hx hf ihx ihf | look h hf ih => exact obeys_bind _ _
    | setWord p v => exact upholds_onStack fun s => s.layout_set p v
    | setWords p v => exact upholds_onStack fun s => s.layout_set64 p v
    | raiseTop => exact upholds_moveTop _
    | setRegister | setObject => exact upholds_modifyCtx fun _ hc => { hc with }
    | setGlobal id => exact upholds_modifyEngine fun _ he => he.changeModule id _
    | setField index generation offset v =>
      exact upholds_modifyEngine fun _ he =>
        he.of_same rfl (he.heap.setField index generation offset v)
    | giveUp h => exact obeys_modify fun _ hm => hm.giveUp h
  notes h hm := hm.onContext (notes_firm h hm.ctx)
  tell _ _ hm := ⟨hm.engine.of_same rfl hm.engine.heap, hm.ctx⟩
  modify _ h _ hm := ⟨hm.engine.of_same rfl (hm.engine.heap.modify h _), hm.ctx⟩
  newObject type := upholds_of fun m hm => by
    have halloc : Upholds Firm (onHeap fun heap => heap.alloc type : Exec Fault Handle) :=
      upholds_onHeap fun _ hl => hl.alloc type
    apply upheld_engine
    rw [hm.engine.heap.hasSlot]
    exact upheld_after (onHeap fun heap => heap.alloc type) hm
  addRef h := upholds_addRef h
  release h := upholds_release h
  releaseArgs _ _ _ hm := Machine.firm_robust.releaseArgs hm _ _ _
  outOfFuel _ _ := trivial
  moveTop := upholds_moveTop
  clear m p n hm := hm.onStack (m.ctx.stack.layout_clear p n)

end ScriptVm.Exec
