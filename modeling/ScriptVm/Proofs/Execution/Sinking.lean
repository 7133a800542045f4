import ScriptVm.Proofs.Execution.Addressing
import ScriptVm.Proofs.Execution.Moves

namespace ScriptVm

namespace Context

variable {a b c c' : Context} {j k : Nat}

/-- The top is lowered by at most so many words within its block, unless a caller is saved. -/
def Sinks (k : Nat) (c c' : Context) : Prop :=
  c.calls.size < c'.calls.size ∨
    c'.calls = c.calls ∧ c'.sp.block = c.sp.block ∧ c.sp.offset.toNat ≤ c'.sp.offset.toNat + k

theorem Sinks.trans (h : Sinks j a b) (h' : Sinks k b c) : Sinks (j + k) a c := by
  obtain hdeep | ⟨hcl, hblk, hoff⟩ := h
  · obtain hdeeper | ⟨hcl', -, -⟩ := h'
    · exact .inl (Nat.lt_trans hdeep hdeeper)
    · exact .inl (hcl' ▸ hdeep)
  · obtain hdeeper | ⟨hcl', hblk', hoff'⟩ := h'
    · exact .inl (hcl ▸ hdeeper)
    · exact .inr ⟨hcl'.trans hcl, hblk'.trans hblk, by omega⟩

theorem Sinks.mono (h : Sinks j c c') (hjk : j ≤ k) : Sinks k c c' := by
  obtain hdeep | ⟨hcl, hblk, hoff⟩ := h
  · exact .inl hdeep
  · exact .inr ⟨hcl, hblk, by omega⟩

theorem sinks_of_top (hcl : c'.calls = c.calls) (hsp : c'.sp = c.sp) : Sinks 0 c c' :=
  .inr ⟨hcl, congrArg Pointer.block hsp, by rw [hsp]; exact Nat.le_refl _⟩

theorem sinks_of_shift {words : Int} {sp : Pointer} (hsp : c.sp.shift? words = some sp)
    (hk : 0 ≤ words + k) : Sinks k c { c with sp } := by
  obtain ⟨hblk, hoff⟩ := Pointer.shift?_eq_some_iff.mp hsp
  exact .inr ⟨rfl, hblk, show c.sp.offset.toNat ≤ sp.offset.toNat + k by omega⟩

theorem sinks_of_popped {sp : Pointer} (hsp : c.sp.shift? k = some sp)
    (h : Sinks k { c with sp } c') : Sinks 0 c c' := by
  obtain ⟨hblk, hoff⟩ := Pointer.shift?_eq_some_iff.mp hsp
  obtain hdeep | ⟨hcl, hblk', hoff'⟩ := h
  · exact .inl hdeep
  · change sp.offset.toNat ≤ c'.sp.offset.toNat + k at hoff'
    exact .inr ⟨hcl, hblk'.trans hblk, by omega⟩

instance lenient_sinks : Lenient (Sinks 0) where
  refl _ := sinks_of_top rfl rfl
  trans h h' := h.trans h'
  of_still _ hsp _ hcl _ := sinks_of_top hcl hsp
  of_raised hws hsp := sinks_of_shift hsp (by omega)

end Context

open Context

namespace Exec

variable {α β : Type} {j k : Nat} {x : Exec Fault α}

def Lowers (k : Nat) (x : Exec Fault α) : Prop := ∀ m, Sinks k m.ctx (x.after m).ctx

theorem Lowers.mono (h : Lowers j x) (hjk : j ≤ k) : Lowers k x := fun m => (h m).mono hjk

theorem lowers_still (x : Exec Fault α) [h : Moves (Sinks 0) x] : Lowers k x :=
  fun m => (h.moves m).mono (Nat.zero_le k)

theorem Lowers.bind {f : α → Exec Fault β} (hx : Lowers j x) (hf : ∀ a, Lowers k (f a)) :
    Lowers (j + k) (x >>= f) := by
  intro m
  have hfst := hx m
  cases h : x m with
  | ok a m1 =>
    rw [after_of_ok h] at hfst
    rw [after_bind_of_ok h]
    exact hfst.trans (hf a m1)
  | error stop m1 =>
    rw [after_of_error h] at hfst
    rw [after_bind_of_error h]
    exact hfst.mono (Nat.le_add_right j k)

theorem lowers_last {f : α → Exec Fault β} [Moves (Sinks 0) x] (hf : ∀ a, Lowers k (f a)) :
    Lowers k (x >>= f) := by
  have h := (lowers_still x (k := 0)).bind hf
  rwa [Nat.zero_add] at h

theorem lowers_moveTop {words : Int} (h : 0 ≤ words + k) : Lowers k (moveTop words) := by
  intro m
  show Sinks k m.ctx ((orFail Fault.stackOverflow (m.ctx.sp.shift? words) >>= _).after m).ctx
  cases hsp : m.ctx.sp.shift? words with
  | none => exact (Gradual.refl m.ctx : Sinks 0 m.ctx m.ctx).mono (Nat.zero_le k)
  | some sp => exact sinks_of_shift hsp h

theorem lowers_push (v : UInt32) : Lowers 1 (push v) :=
  Lowers.bind (k := 0) (lowers_moveTop (by decide)) fun _ => lowers_still _

theorem lowers_push64 (v : UInt64) : Lowers 2 (push64 v) :=
  Lowers.bind (k := 0) (lowers_moveTop (by decide)) fun _ => lowers_still _

theorem lowers_popped {x : Address → Exec Fault β} (hx : ∀ a, Lowers 2 (x a)) :
    Lowers 0 (popAddress >>= x) := by
  intro m
  cases h : popAddress m with
  | ok a m1 =>
    obtain ⟨-, sp, hsp, rfl⟩ := popAddress_ok h
    have hrest := hx a (m.onContext fun c => { c with sp })
    rw [after_bind_of_ok h]
    exact sinks_of_popped hsp hrest
  | error stop m1 =>
    have hpop : Sinks 0 m.ctx (popAddress.after m).ctx := lowers_still popAddress m
    rw [after_of_error h] at hpop
    rw [after_bind_of_error h]
    exact hpop

theorem lowers_simple (i : Instr) : Lowers i.pushedWords (simple i) := by
  cases i with
  | push words =>
    have hclear (sp : Pointer) : Moves (Sinks 0)
        (modify fun m => m.onStack fun s => s.clear sp words.toNat : Exec Fault PUnit) :=
      moves_onStack fun s => s.layout_clear sp words.toNat
    have hlower : Lowers words.toNat (moveTop (-words.toNat)) := lowers_moveTop (by omega)
    exact hlower.bind (k := 0) fun _ => lowers_still _
  | pushWord v => exact lowers_push v
  | pushQword v => exact lowers_push64 v
  | pushVar | pushGlobal => exact lowers_last lowers_push
  | pushVar64 => exact lowers_last lowers_push64
  | pushVarAddress | pushGlobalAddress => exact lowers_last fun _ => lowers_push64 _
  | pushNull => exact lowers_push64 0
  | pushString index =>
    refine lowers_last fun m => lowers_last fun text => ?_
    exact (lowers_push64 _).bind fun _ => lowers_push _
  | pushOffset => exact lowers_push64 _
  | pushRegister => exact lowers_last fun c => lowers_push64 c.register
  | pushType id => exact lowers_push id.val
  | load => exact lowers_popped fun a => (lowers_last lowers_push).mono (by decide)
  | load64 => exact lowers_popped fun a => lowers_last lowers_push64
  | alloc => exact lowers_still (pure ())
  | _ =>
    refine @lowers_still _ _ _ ?_
    unfold simple
    infer_instance

/-- A call that fails before the caller is saved leaves the top where it was. -/
instance sinks_callScript (callee : Func) : Moves (Sinks 0) (callScript callee) :=
  moves_of fun m => by
    have hstill {m1 : Machine} (hbare : m1.bare = m.bare) : Sinks 0 m.ctx m1.ctx :=
      sinks_of_top (congrArg (fun m => m.ctx.calls) hbare) (congrArg (fun m => m.ctx.sp) hbare)
    have hdeep {fp : Pointer} {m1 : Machine} (h : placeArgs callee m = .ok fp m1) (caller : Func)
        (block : Nat) (module : Option ModuleId) :
          m.ctx.calls.size < (m1.saved caller block module fp).ctx.calls.size := by
      have hbare : m1.bare = m.bare := Keeps.of_ok h
      rw [saved_ctx, show m1.ctx.calls = m.ctx.calls from congrArg (fun m => m.ctx.calls) hbare]
      exact Nat.lt_succ_self _
    have hcases := callScript_cases callee m
    unfold after
    generalize callScript callee m = r at hcases ⊢
    cases hcases with
    | unplaced h => exact hstill (Keeps.of_error h)
    | orphan h => exact hstill (Keeps.of_ok h)
    | cramped h => exact .inl (hdeep h _ _ _)
    | begun h =>
      exact .inl
        (Nat.lt_of_lt_of_eq (hdeep h _ _ _) (congrArg CallStack.size (entered_calls ..)).symm)

theorem lowers_enterConstructor (f : Func) (h : Handle) : Lowers 2 (enterConstructor f h) := by
  refine lowers_last fun bits => lowers_last fun a => lowers_last fun _ => ?_
  exact Lowers.bind (k := 0) (lowers_push64 _) fun _ => lowers_still (callScript f)

theorem lowers_exec (nested : Nested) [∀ id args, Moves (Sinks 0) (nested id args)] {i : Instr}
    (hi : ∀ words, i ≠ .ret words) : Lowers i.pushedWords (exec nested i) := by
  cases i with
  | call id | callHost id | callMethod id | suspend => exact @lowers_still _ _ _ (obeys_bind _ _)
  | callBound id =>
    have : Moves (Sinks 0) (callBoundTo id) := obeys_bind _ _
    exact @lowers_still _ _ _ (obeys_bind _ _)
  | alloc type constructor =>
    refine lowers_last fun e => lowers_last fun objectType => lowers_last fun h => ?_
    split
    · exact lowers_still _
    · refine lowers_last fun f => lowers_last fun _ => ?_
      split
      · exact Lowers.bind (k := 0) (lowers_enterConstructor f h) fun _ => lowers_still _
      · exact lowers_still _
  | ret words => exact absurd rfl (hi words)
  | _ => exact Lowers.bind (k := 0) (lowers_simple _) fun _ => lowers_still _

end Exec
end ScriptVm
