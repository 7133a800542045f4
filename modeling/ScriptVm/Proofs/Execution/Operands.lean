import ScriptVm.Proofs.Engine.Furnished
import ScriptVm.Proofs.Execution.Addressing
import ScriptVm.Proofs.Execution.Causes
import ScriptVm.Proofs.Execution.Housing

namespace ScriptVm

open Exec

/-- Each name in an instruction stands for something where the machine is. -/
structure Instr.Resolves (i : Instr) (m : Machine) : Prop where
  global : ∀ slot, i.global? = some slot →
    (∃ offset, globalOffset slot m = .ok offset m) ∧ (∃ a, globalAddress slot m = .ok a m) ∧
      (∃ v, readGlobal slot m = .ok v m) ∧ ∀ v, ∃ m', writeGlobal slot v m = .ok () m'
  string : ∀ index, i.string? = some index → ∃ g text, currentModule m = .ok g m ∧
    g.strings[index.toNat]? = some text
  type : ∀ id, i.type? = some id → ∃ type, m.engine.types.get? id = some type
  function : ∀ k, i.callee? = some k → ∀ g, currentModule m = .ok g m →
    ∀ f ∈ g.functions, f.id = k → functionOf k m = .ok f m

namespace Exec

variable {ε α β : Type} {m : Machine} {f : α → Exec ε β} {x : Exec ε α} {e : ε}

theorem currentModule_eq {id : ModuleId} {g : Module} (hid : m.ctx.module = some id)
    (hg : m.engine.built? id = some g) : currentModule m = .ok g m := by
  show orFail Fault.badCode (m.ctx.module.bind m.engine.built?) m = _
  rw [hid, Option.bind_some, hg]
  rfl

section Globals

variable {g : Module} {slot : UInt16} {x : Global} (hmod : currentModule m = .ok g m)
    (hx : g.globals[slot.toNat]? = some x)

include hmod hx

theorem globalOffset_eq : globalOffset slot m = .ok x.offset m := by
  rw [globalOffset, bind_of_ok hmod, hx]
  rfl

theorem globalAddress_eq : globalAddress slot m = .ok (.global g.id x.offset) m := by
  rw [globalAddress, bind_of_ok hmod, Module.globalAddress?, hx]
  rfl

theorem readGlobal_eq (hlt : x.offset.toNat < g.store.size) :
    readGlobal slot m = .ok g.store[x.offset.toNat] m := by
  rw [readGlobal, bind_of_ok (globalOffset_eq hmod hx), bind_of_ok hmod, Module.readGlobal?,
    Array.getElem?_eq_getElem hlt]
  rfl

theorem writeGlobal_eq (hlt : x.offset.toNat < g.store.size) (v : UInt32) : writeGlobal slot v m =
      .ok () (m.onEngine fun e => e.changeModule g.id fun g => g.writeGlobal x.offset v) := by
  have hroom : g.hasGlobalWord x.offset = true := by simpa [Module.hasGlobalWord] using hlt
  rw [writeGlobal, bind_of_ok (globalOffset_eq hmod hx), bind_of_ok hmod, if_pos hroom]
  rfl

end Globals

theorem resolves_of_houses (hfiled : m.engine.Filed) (hfurn : m.engine.Furnished) {f : Func}
    (hhouses : m.engine.Houses f m.ctx.module) (hkind : f.kind = .script) {i : Instr}
    (hi : i ∈ f.code) : i.Resolves m := by
  obtain ⟨id, hid, -, g, hg, hf⟩ := hhouses hkind
  rw [Engine.module?_eq] at hg
  split at hg
  · rename_i hpres
    have hmod := currentModule_eq hid hg
    have hprov := (hfurn.modules hg).provides f hf hkind i hi
    constructor
    · intro slot hslot
      obtain ⟨x, hx, hlt⟩ := hprov.global slot hslot
      exact ⟨⟨_, globalOffset_eq hmod hx⟩, ⟨_, globalAddress_eq hmod hx⟩,
        ⟨_, readGlobal_eq hmod hx hlt⟩,
        fun v => ⟨_, writeGlobal_eq hmod hx hlt v⟩⟩
    · intro index hidx
      have hlt := hprov.string index hidx
      exact ⟨g, _, hmod, Array.getElem?_eq_getElem hlt⟩
    · intro type htype
      exact Option.isSome_iff_exists.mp (hprov.type type htype)
    · intro k _ g' hg' callee hcee hk
      rw [hmod] at hg'
      cases hg'
      obtain ⟨hfd, -⟩ := hfiled.filed hpres hg hcee
      exact functionOf_of_some (hk ▸ hfd)
  · cases hg

/-- The step never stops for this cause. -/
class Avoids (e : ε) (x : Exec ε α) : Prop where
  not_cause : ∀ m, cause? (x m) ≠ some e

instance (priority := low) avoids_of_sure (e : ε) (x : Exec ε α) [hx : Sure x] : Avoids e x where
  not_cause m := by
    rw [hx.no_cause m]
    intro h
    cases h

theorem cause?_bind {m' : Machine} {a : α} (h : x m = .ok a m') :
    cause? ((x >>= f) m) = cause? (f a m') := by
  rw [bind_of_ok h]

theorem cause?_cases (h : cause? ((x >>= f) m) = some e) :
    cause? (x m) = some e ∨ ∃ a m', x m = .ok a m' ∧ cause? (f a m') = some e := by
  revert h
  refine bind_cases (Q := fun r => cause? r = some e → _) ?_ ?_
  · intro a m' hx h
    exact .inr ⟨a, m', hx, h⟩
  · intro stop m' hx h
    left
    rw [hx]
    cases stop <;> exact h

theorem cause?_first [hf : ∀ a, Avoids e (f a)] (h : cause? ((x >>= f) m) = some e) :
    cause? (x m) = some e := by
  rcases cause?_cases h with hfst | ⟨a, m', -, hrest⟩
  · exact hfst
  · exact absurd hrest ((hf a).not_cause m')

theorem cause?_second [hx : Avoids e x] (h : cause? ((x >>= f) m) = some e) :
    ∃ a m', x m = .ok a m' ∧ cause? (f a m') = some e := by
  rcases cause?_cases h with hfst | hrest
  · exact absurd hfst (hx.not_cause m)
  · exact hrest

instance avoids_bind (e : ε) (x : Exec ε α) (f : α → Exec ε β) [hx : Avoids e x]
    [∀ a, Avoids e (f a)] : Avoids e (x >>= f) where
  not_cause m h := hx.not_cause m (cause?_first h)

instance avoids_ite (e : ε) (p : Prop) [Decidable p] (x y : Exec ε α) [Avoids e x] [Avoids e y] :
    Avoids e (if p then x else y) := by
  split <;> infer_instance

theorem avoids_fail {e' : ε} (h : e' ≠ e) : Avoids e (fail e' : Exec ε α) where
  not_cause _ hcause := h (Option.some.inj hcause)

theorem avoids_orFail {e' : ε} (h : e' ≠ e) (a : Option α) : Avoids e (orFail e' a) where
  not_cause _ hcause := by
    cases a with
    | none => exact h (Option.some.inj hcause)
    | some a => cases hcause

instance avoids_overflow (a : Option α) : Avoids Fault.badCode (orFail Fault.stackOverflow a) :=
  avoids_orFail (by decide) a

instance avoids_null (a : Option α) : Avoids Fault.badCode (orFail Fault.nullPointer a) :=
  avoids_orFail (by decide) a

instance avoids_failOverflow : Avoids Fault.badCode (fail Fault.stackOverflow : Exec Fault α) :=
  avoids_fail (by decide)

instance avoids_failNull : Avoids Fault.badCode (fail Fault.nullPointer : Exec Fault α) :=
  avoids_fail (by decide)

instance avoids_moveTop (words : Int) : Avoids Fault.badCode (moveTop words) := avoids_bind _ _ _

instance avoids_push (v : UInt32) : Avoids Fault.badCode (push v) := by
  have hwr (p : Pointer) : Avoids Fault.badCode (writeStack p v .stackOverflow) := avoids_bind _ _ _
  exact avoids_bind _ _ _

instance avoids_push64 (v : UInt64) : Avoids Fault.badCode (push64 v) := by
  have hwr (p : Pointer) : Avoids Fault.badCode (writeStack64 p v .stackOverflow) :=
    avoids_bind _ _ _
  exact avoids_bind _ _ _

instance avoids_loadHandle (a : Address) : Avoids Fault.badCode (loadHandle a) := by
  have hword (a : Address) : Avoids Fault.badCode (loadWord a) := avoids_bind _ _ _
  have hload : Avoids Fault.badCode (loadWord64 a) := avoids_bind _ _ _
  exact avoids_bind _ _ _

instance avoids_storeWord64 (a : Address) (v : UInt64) : Avoids Fault.badCode (storeWord64 a v) := by
  have hword (a : Address) (v : UInt32) : Avoids Fault.badCode (storeWord a v) := by
    have hwr (p : Pointer) : Avoids Fault.badCode (writeStack p v .nullPointer) := avoids_bind _ _ _
    cases a with
    | null | string => exact avoids_failNull
    | stack p => exact hwr p
    | global | field =>
      have heng (f : Engine → Engine) : Sure (modifyEngine f : Exec Fault Unit) :=
        sure_of fun _ => rfl
      exact avoids_bind _ _ _
  exact avoids_bind _ _ _

instance avoids_storeNew (a : Address) (h : Handle) : Avoids Fault.badCode (storeNew a h) where
  not_cause m := by
    have hcause := (avoids_storeWord64 a h.bits).not_cause m
    unfold storeNew
    cases hres : storeWord64 a h.bits m with
    | ok u m' => exact fun hnone => nomatch hnone
    | error stop m' =>
      rw [hres] at hcause
      cases stop <;> exact hcause

theorem cause?_orFail (o : Option α) (m : Machine) :
    cause? (orFail e o m) = if o.isSome then none else some e := by
  cases o <;> rfl

theorem cause?_lookup {γ : Type} {o : Option α} {g : α → Option γ}
    (h : ∀ a, cause? (f a m) = if (g a).isSome then none else some e) :
    cause? ((orFail e o >>= f) m) = if (o.bind g).isSome then none else some e := by
  cases o with
  | none => rfl
  | some a => exact h a

theorem cause?_getVar (v : Int16) (m : Machine) :
    cause? (getVar v m) = if ((m.ctx.fp.shift? (-v.toInt)).bind m.ctx.stack.read?).isSome then none
      else some .badCode :=
  cause?_lookup (f := fun p => readStack p .badCode) fun p => cause?_orFail (m.ctx.stack.read? p) m

theorem cause?_setVar (v : Int16) (x : UInt32) (m : Machine) :
    cause? (setVar v x m) = cause? (getVar v m) := by
  rw [cause?_getVar]
  refine cause?_lookup (f := fun p => writeStack p x .badCode) fun p => ?_
  show cause? ((if m.ctx.stack.contains p then _ else fail .badCode : Exec Fault Unit) m) = _
  rw [Stack.contains_eq]
  cases m.ctx.stack.read? p <;> rfl

theorem cause?_peek64 (words : Nat) (m : Machine) :
    cause? (peek64 words m) = if ((m.ctx.sp.shift? words).bind m.ctx.stack.read64?).isSome then none
      else some .badCode :=
  cause?_lookup (f := fun p => readStack64 p .badCode) fun p =>
    cause?_orFail (m.ctx.stack.read64? p) m

theorem cause?_popAddress (h : cause? (popAddress m) = some .badCode) :
    cause? (peek64 0 m) = some .badCode :=
  cause?_first (cause?_first h)

theorem callScript_avoids {caller callee : Func} (hclr : m.ctx.function = some caller) :
    cause? (callScript callee m) ≠ some .badCode := by
  intro hcause
  have hcases := callScript_cases callee m
  generalize callScript callee m = r at hcases hcause
  cases hcases with
  | unplaced h =>
    have hplaces := placeArgs_cases callee m
    rw [h] at hplaces
    cases hplaces with
    | large | torn => cases hcause
    | @none failure => cases failure <;> cases hcause
  | orphan h hf =>
    have hbare : _ = m.bare := Keeps.of_ok h
    cases hf.symm.trans ((congrArg (fun m => m.ctx.function) hbare).trans hclr)
  | cramped | begun => cases hcause

theorem freeObject_avoids (hcause : cause? (freeObject m) = some .badCode) :
    cause? (peek64 0 m) = some .badCode := by
  rcases cause?_cases hcause with hpop | ⟨a, m1, -, hrest⟩
  · exact cause?_popAddress hpop
  · refine absurd hrest (@Avoids.not_cause _ _ _ _ ?_ m1)
    refine @avoids_ite _ _ _ _ _ _ _ (@avoids_bind _ _ _ _ _ _ _ fun h => ?_) _
    cases h <;> infer_instance

theorem assignTop_avoids (hcause : cause? (assignTop m) = some .badCode) :
    cause? (peek64 0 m) = some .badCode ∨ cause? (peek64 2 m) = some .badCode := by
  rcases cause?_cases hcause with hpop | ⟨target, m1, hpop, hcause⟩
  · exact .inl (cause?_popAddress hpop)
  · obtain ⟨-, sp, hsp, rfl⟩ := popAddress_ok hpop
    rcases cause?_cases hcause with hbelow | ⟨bits, m2, -, hrest⟩
    · have htop : sp.shift? ((0 : Nat) : Int) = some sp := sp.shift?_zero
      have hshift : m.ctx.sp.shift? ((2 : Nat) : Int) = some sp := hsp
      rw [cause?_peek64, Machine.onContext, htop, Option.bind_some] at hbelow
      rw [cause?_peek64 2, hshift, Option.bind_some]
      exact .inr hbelow
    · refine absurd hrest (@Avoids.not_cause _ _ _ _ ?_ m2)
      refine @avoids_bind _ _ _ _ _ _ _ fun old => ?_
      cases old <;> cases Handle.ofBits? bits <;> infer_instance

end Exec

/-- Where an instruction looks on the stack for an address or a handle, in words from the top. -/
def Instr.peeks (e : Engine) : Instr → List Nat
  | .alloc _ k => [if k = .none then 0 else (e.function? k).elim 0 fun f => f.signature.paramWords]
  | .free _ => [0]
  | .assignHandle _ => [0, 2]
  | _ => []

/-- The constructor of a new object is entered with the address of its place below the arguments. -/
theorem Exec.allocObject_avoids (nested : Nested) {m : Machine} {type : TypeId} {t : ObjectType}
    {k : FunctionId} {caller : Func} (htype : m.engine.types.get? type = some t)
    (hclr : m.ctx.function = some caller)
    (hctor : k = .none ∨ ∃ f, f.kind = .script ∧ m.engine.function? k = some f)
    (hcause : cause? (allocObject nested type k m) = some .badCode) :
    ∃ words ∈ (Instr.alloc type k).peeks m.engine, cause? (peek64 words m) = some .badCode := by
  have hfd :
      (orFail Fault.badCode (m.engine.types.get? type) : Exec Fault ObjectType) m = .ok t m := by
    rw [htype]
    rfl
  have heng : (engine : Exec Fault Engine) m = .ok m.engine m := rfl
  rw [allocObject, cause?_bind heng, cause?_bind hfd] at hcause
  -- The object is there before its place is looked at.
  obtain ⟨h, m1, hmade, hcause⟩ := cause?_second hcause
  obtain ⟨hctx, heng⟩ := newObject_ok hmade
  have hpeek {words : Nat} (hbad : cause? (peek64 words m1) = some .badCode) :
      cause? (peek64 words m) = some .badCode := by
    rwa [cause?_peek64, hctx, ← cause?_peek64] at hbad
  by_cases hk : k = .none
  · rw [if_pos hk] at hcause
    refine ⟨0, ?_, hpeek (cause?_popAddress (cause?_first hcause))⟩
    simp [Instr.peeks, hk]
  · obtain ⟨f, hkind, hf⟩ := hctor.resolve_left hk
    have hcat : m1.catalog = m.catalog := by
      rw [Machine.catalog, heng]
      exact Engine.catalog_of_hollow (Engine.hollow_onHeap _ _)
    have hthere : functionOf k m1 = .ok f m1 :=
      functionOf_of_some ((Engine.function?_of_catalog hcat k).trans hf)
    rw [if_neg hk, cause?_bind hthere] at hcause
    obtain ⟨_, m', hws, hcause⟩ := cause?_second hcause
    obtain ⟨-, hsame⟩ := wordOrStop_ok hws
    rw [hsame, if_pos hkind] at hcause
    refine ⟨f.signature.paramWords, by simp [Instr.peeks, hk, hf], hpeek ?_⟩
    have henter : cause? (enterConstructor f h m1) = some .badCode := cause?_first hcause
    rcases cause?_cases henter with hbad | ⟨bits, m2, hbits, hpl⟩
    · exact hbad
    · obtain rfl := peek64_ok hbits
      obtain ⟨a, m3, ha, hnew⟩ := cause?_second hpl
      obtain ⟨-, rfl⟩ := orFail_ok ha
      obtain ⟨_, m4, hstore, hself⟩ := cause?_second hnew
      obtain ⟨_, m5, hpush, hcall⟩ := cause?_second hself
      have houtline : m5.outline = m3.outline := (Keeps.of_ok hpush).trans (Keeps.of_ok hstore)
      have hfn : m5.ctx.function = m3.ctx.function := congrArg (fun o => o.control.function) houtline
      rw [hctx, hclr] at hfn
      exact absurd hcall (callScript_avoids hfn)

/-- The instruction names a global, a string or a type, and functions only of the module. -/
inductive Instr.Static (g : Module) : Instr → Prop where
  | global {i : Instr} (h : i.global?.isSome = true) : Static g i
  | string {i : Instr} (h : i.string?.isSome = true) : Static g i
  | type (type : TypeId) : Static g (.pushType type)
  | free (type : TypeId) : Static g (.free type)
  | assign (type : TypeId) : Static g (.assignHandle type)
  | plain (type : TypeId) : Static g (.alloc type .none)
  | constructor (type : TypeId) {f : Func} (hf : f ∈ g.functions) (hkind : f.kind = .script) :
    Static g (.alloc type f.id)
  | call {f : Func} (hf : f ∈ g.functions) : Static g (.call f.id)

section Static

variable (nested : Nested) {m : Machine} {i : Instr}
  (hresv : ∀ m', m'.catalog = m.catalog → m'.ctx.module = m.ctx.module → i.Resolves m')

include hresv

/-- Where its name resolves, an instruction that names a global is bad code only because of a
variable. -/
theorem Exec.exec_global {slot : UInt16} (hslot : i.global? = some slot)
    (hcause : cause? (exec nested i m) = some .badCode) :
    ∃ v ∈ i.vars, cause? (getVar v m) = some .badCode := by
  obtain ⟨-, ⟨a, haddr⟩, ⟨v, hread⟩, hwr⟩ := (hresv m rfl rfl).global slot hslot
  cases i with
  | pushGlobal slot =>
    cases hslot
    have hpush : cause? ((readGlobal slot >>= push) m) = some .badCode := cause?_first hcause
    rw [cause?_bind hread] at hpush
    exact absurd hpush ((avoids_push v).not_cause m)
  | pushGlobalAddress slot =>
    cases hslot
    have hpush : cause? ((globalAddress slot >>= fun a => push64 a.bits) m) = some .badCode :=
      cause?_first hcause
    rw [cause?_bind haddr] at hpush
    exact absurd hpush ((avoids_push64 _).not_cause m)
  | storeGlobal slot var =>
    cases hslot
    refine ⟨var, List.mem_singleton_self var, ?_⟩
    have hstore : cause? ((getVar var >>= writeGlobal slot) m) = some .badCode := cause?_first hcause
    rcases cause?_cases hstore with hbad | ⟨w, m', hvar, hset⟩
    · exact hbad
    · obtain rfl := getVar_ok hvar
      obtain ⟨m', hdone⟩ := hwr w
      rw [hdone] at hset
      cases hset
  | loadGlobal var slot =>
    cases hslot
    refine ⟨var, List.mem_singleton_self var, ?_⟩
    have hload : cause? ((readGlobal slot >>= setVar var) m) = some .badCode := cause?_first hcause
    rw [cause?_bind hread, cause?_setVar] at hload
    exact hload
  | setGlobal slot w =>
    cases hslot
    obtain ⟨m', hdone⟩ := hwr w
    have hset : cause? (writeGlobal slot w m) = some .badCode := cause?_first hcause
    rw [hdone] at hset
    cases hset
  | referGlobal slot =>
    cases hslot
    have hrefer : cause? ((globalAddress slot >>= fun a => setReg a.bits) m) = some .badCode :=
      cause?_first hcause
    rw [cause?_bind haddr] at hrefer
    cases hrefer
  | referLoadGlobal var slot =>
    cases hslot
    refine ⟨var, List.mem_singleton_self var, ?_⟩
    have hload :
        cause? ((do setReg (← globalAddress slot).bits; setVar var (← readGlobal slot)) m) =
          some .badCode :=
      cause?_first hcause
    -- The value is read after the register has changed.
    obtain ⟨w, hagain⟩ :=
      ((hresv (m.onContext fun c => { c with register := a.bits }) rfl rfl).global slot rfl).2.2.1
    have hset : setReg a.bits m = .ok () (m.onContext fun c => { c with register := a.bits }) := rfl
    rw [cause?_bind haddr, cause?_bind hset, cause?_bind hagain, cause?_setVar,
      cause?_getVar] at hload
    rw [cause?_getVar]
    exact hload
  | _ => cases hslot

/-- Where names resolve, such an instruction is bad code only because of a variable or a word on the
stack that it reads and that is not there. -/
theorem Exec.exec_static {g : Module} {caller : Func} (hclr : m.ctx.function = some caller)
    (hmod : currentModule m = .ok g m) (hstatic : i.Static g)
    (hcause : cause? (exec nested i m) = some .badCode) :
    (∃ v ∈ i.vars, cause? (getVar v m) = some .badCode) ∨
      ∃ words ∈ i.peeks m.engine, cause? (peek64 words m) = some .badCode := by
  have hhere := hresv m rfl rfl
  cases hstatic with
  | global hgl =>
    obtain ⟨slot, hslot⟩ := Option.isSome_iff_exists.mp hgl
    exact .inl (exec_global nested hresv hslot hcause)
  | string hstring =>
    obtain ⟨index, hidx⟩ := Option.isSome_iff_exists.mp hstring
    cases i <;> cases hidx
    obtain ⟨g', text, hmod', htext⟩ := hhere.string index rfl
    have hpush : cause? ((do
        let m ← currentModule
        let text ← orFail Fault.badCode m.strings[index.toNat]?
        push64 (Address.string m.id index.toUInt32).bits
        push text.utf8ByteSize.toUInt32) m) = some .badCode := cause?_first hcause
    rw [cause?_bind hmod', htext] at hpush
    exact absurd hpush ((avoids_bind Fault.badCode (push64 _) fun _ => push _).not_cause m)
  | type type => exact absurd (cause?_first hcause) ((avoids_push _).not_cause m)
  | free type => exact .inr ⟨0, List.mem_cons_self, freeObject_avoids (cause?_first hcause)⟩
  | assign type =>
    rcases assignTop_avoids (cause?_first hcause) with htop | hbelow
    · exact .inr ⟨0, List.mem_cons_self, htop⟩
    · exact .inr ⟨2, List.mem_cons_of_mem _ List.mem_cons_self, hbelow⟩
  | plain type =>
    obtain ⟨t, htype⟩ := hhere.type type rfl
    exact .inr (allocObject_avoids nested htype hclr (.inl rfl) hcause)
  | @constructor type f hf hkind =>
    obtain ⟨t, htype⟩ := hhere.type type rfl
    have hfd : functionOf f.id m = .ok f m := hhere.function f.id rfl g hmod f hf rfl
    obtain ⟨hfd, -⟩ := orFail_ok hfd
    exact .inr (allocObject_avoids nested htype hclr (.inr ⟨f, hkind, hfd⟩) hcause)
  | @call callee hcee =>
    have hfd := hhere.function callee.id rfl g hmod callee hcee rfl
    have hcall :
        cause? ((do callScript (← functionOf callee.id); pure Flow.go) m) = some .badCode := hcause
    rw [cause?_bind hfd] at hcall
    exact absurd (cause?_first hcall) (callScript_avoids hclr)

end Static

end ScriptVm
