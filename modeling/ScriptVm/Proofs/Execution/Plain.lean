import ScriptVm.Proofs.Execution.Requests

namespace ScriptVm

/-- It moves in the code of the current function. -/
def Instr.isJump : Instr → Bool
  | .jump _ | .branch _ _ | .jumpTable _ => true
  | _ => false

namespace Exec

variable {ε α β : Type}

/-- A step that neither moves in the code nor sees requests. It may take note of a call of the
host. -/
class Steady (x : Exec ε α) : Prop extends Obeys (.keeps Machine.standing) x, Deaf x

/-- A step on memory, the heap and globals that neither moves in the code nor sees requests. -/
class Plain (x : Exec ε α) : Prop extends Obeys (.keeps Machine.bearing) x, Deaf x

theorem plain_of {x : Exec ε α} [hk : Keeps Machine.bearing x] [hd : Deaf x] : Plain x :=
  { hk, hd with }

theorem steady_of {x : Exec ε α} [hk : Keeps Machine.standing x] [hd : Deaf x] : Steady x :=
  { hk, hd with }

instance (priority := low) keeps_standing (x : Exec ε α) [h : Keeps Machine.bearing x] :
    Keeps Machine.standing x :=
  ⟨fun m => Machine.standing_of_bearing (h.view_after m)⟩

instance (priority := low) keeps_outline (x : Exec ε α) [h : Keeps Machine.standing x] :
    Keeps Machine.outline x :=
  ⟨fun m => Machine.outline_of_standing (h.view_after m)⟩

instance plain_pure (a : α) : Plain (pure a : Exec ε α) := plain_of

instance plain_fail (e : ε) : Plain (fail e : Exec ε α) := plain_of

instance plain_throw (stop : Stop ε) : Plain (throw stop : Exec ε α) := plain_of

instance plain_orFail (e : ε) (o : Option α) : Plain (orFail e o) := plain_of

instance plain_bind (x : Exec ε α) (f : α → Exec ε β) [Plain x] [∀ a, Plain (f a)] :
    Plain (x >>= f) := plain_of

theorem Plain.bind {x : Exec ε α} {f : α → Exec ε β} [Plain x] (hf : ∀ a, Plain (f a)) :
    Plain (x >>= f) := plain_bind x f

instance plain_ite (p : Prop) [Decidable p] (x y : Exec ε α) [Plain x] [Plain y] :
    Plain (if p then x else y) := plain_of

theorem plain_modify {f : Machine → Machine} (hk : ∀ m, (f m).bearing = m.bearing)
    (hd : ∀ m g, f (m.guised g) = (f m).guised g) : Plain (modify f : Exec ε PUnit) :=
  have : Keeps Machine.bearing (modify f : Exec ε PUnit) := obeys_modify hk
  have := misses_modify (ε := ε) (T := fun g m => Machine.guised m g) hd
  plain_of

theorem plain_ctx {f : Context → Exec ε α} (h : ∀ c g, f (Context.guised c g) = f c)
    [hf : ∀ c, Plain (f c)] : Plain (ctx >>= f) :=
  have := misses_ctx (fun m => h m.ctx) fun c => (hf c).toMisses
  plain_of

theorem plain_engine {f : Engine → Exec ε α} (h : ∀ e r, f (Engine.asking e r) = f e)
    [hf : ∀ e, Plain (f e)] : Plain (engine >>= f) :=
  have := misses_engine (fun m (g : Guise) => h m.engine g.toRequests) fun e => (hf e).toMisses
  plain_of

theorem plain_get {f : Machine → Exec ε α} (h : ∀ m g, f (Machine.guised m g) = f m)
    [hf : ∀ m, Plain (f m)] : Plain (get >>= f) :=
  have := misses_get h fun m => (hf m).toMisses
  plain_of

theorem plain_modifyCtx {f : Context → Context}
    (hk : ∀ m : Machine, (m.onContext f).bearing = m.bearing)
    (hd : ∀ m g, (Machine.guised m g).onContext f = (m.onContext f).guised g) :
    Plain (modifyCtx f : Exec ε Unit) :=
  have : Keeps Machine.bearing (modifyCtx f : Exec ε Unit) := obeys_modifyCtx hk
  have := misses_modifyCtx (ε := ε) (T := fun g m => Machine.guised m g) hd
  plain_of

theorem plain_modifyEngine {f : Engine → Engine} (hk : ∀ e, (f e).hollow = e.hollow)
    (hd : ∀ e r, f (Engine.asking e r) = (f e).asking r) : Plain (modifyEngine f : Exec ε Unit) := by
  refine plain_modify (fun m => m.bearing_onEngine hk) fun m g => ?_
  show ({ engine := f (m.engine.asking g.toRequests), ctx := m.ctx.guised g } : Machine) = _
  rw [hd]
  rfl

instance (priority := low) steady_of_plain (x : Exec ε α) [Plain x] : Steady x := steady_of

instance steady_bind (x : Exec ε α) (f : α → Exec ε β) [Steady x] [∀ a, Steady (f a)] :
    Steady (x >>= f) := steady_of

theorem steady_ctx {f : Context → Exec ε α} (h : ∀ c g, f (Context.guised c g) = f c)
    [hf : ∀ c, Steady (f c)] : Steady (ctx >>= f) :=
  have := misses_ctx (fun m => h m.ctx) fun c => (hf c).toMisses
  steady_of

theorem steady_modifyCtx {f : Context → Context}
    (hk : ∀ m : Machine, (m.onContext f).standing = m.standing)
    (hd : ∀ m g, (Machine.guised m g).onContext f = (m.onContext f).guised g) :
    Steady (modifyCtx f : Exec ε Unit) :=
  have : Keeps Machine.standing (modifyCtx f : Exec ε Unit) := obeys_modifyCtx hk
  have := misses_modifyCtx (ε := ε) (T := fun g m => Machine.guised m g) hd
  steady_of

theorem onHeap_eq (f : Heap → α × Heap) (m : Machine) : (onHeap f : Exec ε α) m =
      .ok (m.engine.onHeap f).1 { m with engine := (m.engine.onHeap f).2 } := rfl

instance plain_onHeap (f : Heap → α × Heap) : Plain (onHeap f : Exec ε α) where
  holds m := m.bearing_onEngine fun e => e.hollow_onHeap f
  misses m g := by
    have heng : (m.guised g).engine = m.engine.asking g.toRequests := rfl
    rw [onHeap_eq, onHeap_eq, heng, Engine.asking_onHeap]
    rfl

instance plain_wordOrStop (n : Nat) : Plain (wordOrStop n : Exec ε Unit) := plain_ite _ _ _

instance plain_ensure (b : Bool) : Plain (ensure b : Exec ε Unit) := plain_ite _ _ _

instance plain_newObject (type : ObjectType) : Plain (newObject type : Exec ε Handle) :=
  plain_engine fun _ _ => rfl

instance plain_addRef (h : Handle) : Plain (addRef h : Exec ε Bool) := by
  have hchk (ok : Bool) : Plain (do ensure ((← engine).heap.countFits h); pure ok : Exec ε Bool) :=
    plain_engine fun _ _ => rfl
  exact plain_bind _ _

instance plain_copyObject (h : Handle) : Plain (copyObject h : Exec ε (Option Handle)) := by
  refine @plain_engine _ _ _ (fun _ _ => rfl) fun e => ?_
  cases e.heap.get? h with
  | none => exact plain_pure none
  | some o =>
    have hchk (copy : Option Handle) : Plain
        (do ensure (o.children.all (← engine).heap.countFits); pure copy : Exec ε (Option Handle)) :=
      plain_engine fun _ _ => rfl
    exact plain_engine fun _ _ => rfl

instance plain_tell (event : Event) : Plain (tell event : Exec ε Unit) :=
  plain_modifyEngine (fun _ => rfl) fun _ _ => rfl

theorem plain_onStack {f : Stack → Stack} (h : ∀ s, (f s).current = s.current) :
    Plain (modify fun m => m.onStack f : Exec ε PUnit) :=
  plain_modify (fun m => m.bearing_onStack h) fun _ _ => rfl

instance plain_setSp (sp : Pointer) : Plain (modifyCtx fun c => { c with sp } : Exec ε Unit) :=
  plain_modifyCtx (fun _ => rfl) fun _ _ => rfl

instance plain_moveTop (words : Int) : Plain (moveTop words) := plain_ctx fun _ _ => rfl

/-- A step made of looking at the machine, of writes to single places, of discarding words from the
top and of giving up objects. -/
class inductive Elementary : {ε α : Type} → Exec ε α → Prop where
  | pure {ε α : Type} (a : α) : Elementary (pure a : Exec ε α)
  | fail {ε α : Type} (e : ε) : Elementary (fail e : Exec ε α)
  | bind {ε α β : Type} {x : Exec ε α} {f : α → Exec ε β} (hx : Elementary x)
      (hf : ∀ a, Elementary (f a)) : Elementary (x >>= f)
  | look {ε α : Type} {f : Machine → Exec ε α} (h : ∀ m g, f (Machine.guised m g) = f m)
      (hf : ∀ m, Elementary (f m)) : Elementary (get >>= f)
  | setWord {ε : Type} (p : Pointer) (v : UInt32) :
    Elementary (modify fun m => m.onStack fun s => s.set p v : Exec ε PUnit)
  | setWords {ε : Type} (p : Pointer) (v : UInt64) :
    Elementary (modify fun m => m.onStack fun s => s.set64 p v : Exec ε PUnit)
  | raiseTop {words : Int} (h : 0 ≤ words) : Elementary (moveTop words)
  | setRegister {ε : Type} (v : UInt64) :
    Elementary (modifyCtx fun c => { c with register := v } : Exec ε Unit)
  | setObject {ε : Type} (h : Option Handle) :
    Elementary (modifyCtx fun c => { c with objectRegister := h } : Exec ε Unit)
  | setGlobal {ε : Type} (id : ModuleId) (offset v : UInt32) :
      Elementary (modifyEngine fun e => e.changeModule id fun g => g.writeGlobal offset v : Exec ε Unit)
  | setField {ε : Type} (index : UInt32) (generation : UInt16) (offset v : UInt32) :
      Elementary (modifyEngine fun e =>
        { e with heap := e.heap.setField index generation offset v } : Exec ε Unit)
  | giveUp {ε : Type} (h : Handle) : Elementary (modify fun m => m.giveUp h : Exec ε PUnit)

attribute [instance] Elementary.pure Elementary.fail Elementary.setWord Elementary.setWords
    Elementary.setRegister
  Elementary.setObject Elementary.setGlobal Elementary.setField Elementary.giveUp

instance (priority := low) plain_of_elementary (x : Exec ε α) [h : Elementary x] : Plain x := by
  induction h with
  | pure | fail => infer_instance
  | bind hx hf ihx ihf => exact plain_bind _ _
  | look h hf ih => exact plain_get h
  | setWord | setWords => exact plain_onStack fun _ => rfl
  | raiseTop => exact plain_moveTop _
  | setRegister | setObject => exact plain_modifyCtx (fun _ => rfl) fun _ _ => rfl
  | setGlobal id offset v =>
    exact plain_modifyEngine
      (fun e => e.hollow_changeModule id fun m => m.hollow_writeGlobal offset v) fun e r =>
      e.asking_changeModule r id _
  | setField => exact plain_modifyEngine (fun _ => rfl) fun _ _ => rfl
  | giveUp h => exact plain_modify (fun m => m.bearing_giveUp h) fun m g => m.guised_giveUp g h

instance elementary_bind (x : Exec ε α) (f : α → Exec ε β) [hx : Elementary x]
    [hf : ∀ a, Elementary (f a)] : Elementary (x >>= f) := .bind hx hf

instance elementary_ite (p : Prop) [Decidable p] (x y : Exec ε α) [Elementary x] [Elementary y] :
    Elementary (if p then x else y) := by
  split <;> infer_instance

instance elementary_orFail (e : ε) (o : Option α) : Elementary (orFail e o) := by
  cases o with
  | none => exact .fail e
  | some a => exact .pure a

theorem elementary_get {f : Machine → Exec ε α} (h : ∀ m g, f (Machine.guised m g) = f m)
    [hf : ∀ m, Elementary (f m)] : Elementary (get >>= f) := .look h hf

theorem elementary_ctx {f : Context → Exec ε α} (h : ∀ c g, f (Context.guised c g) = f c)
    [hf : ∀ c, Elementary (f c)] : Elementary (ctx >>= f) :=
  .look (f := fun m => f m.ctx) (fun m => h m.ctx) fun m => hf m.ctx

theorem elementary_engine {f : Engine → Exec ε α} (h : ∀ e r, f (Engine.asking e r) = f e)
    [hf : ∀ e, Elementary (f e)] : Elementary (engine >>= f) :=
  .look (f := fun m => f m.engine) (fun m g => h m.engine g.toRequests) fun m => hf m.engine

instance elementary_varPointer (offset : Int16) : Elementary (varPointer offset) :=
  elementary_ctx fun _ _ => rfl

instance elementary_readStack (p : Pointer) (fault : Fault) : Elementary (readStack p fault) :=
  elementary_ctx fun _ _ => rfl

instance elementary_readStack64 (p : Pointer) (fault : Fault) : Elementary (readStack64 p fault) :=
  elementary_ctx fun _ _ => rfl

instance elementary_writeStack (p : Pointer) (v : UInt32) (fault : Fault) :
    Elementary (writeStack p v fault) :=
  elementary_ctx fun _ _ => rfl

instance elementary_writeStack64 (p : Pointer) (v : UInt64) (fault : Fault) :
    Elementary (writeStack64 p v fault) :=
  elementary_ctx fun _ _ => rfl

instance elementary_setReg (v : UInt64) : Elementary (setReg v) := .setRegister v

instance elementary_getVar (offset : Int16) : Elementary (getVar offset) := elementary_bind _ _

instance elementary_setVar (offset : Int16) (v : UInt32) : Elementary (setVar offset v) :=
  elementary_bind _ _

instance elementary_getVar64 (offset : Int16) : Elementary (getVar64 offset) := elementary_bind _ _

instance elementary_setVar64 (offset : Int16) (v : UInt64) : Elementary (setVar64 offset v) :=
  elementary_bind _ _

instance elementary_slotPointer (words : Nat) : Elementary (slotPointer words) :=
  elementary_ctx fun _ _ => rfl

instance elementary_discard (words : Nat) : Elementary (moveTop words) :=
  .raiseTop (Int.natCast_nonneg words)

instance elementary_peek (words : Nat) : Elementary (peek words) := elementary_bind _ _

instance elementary_peek64 (words : Nat) : Elementary (peek64 words) := elementary_bind _ _

instance elementary_poke64 (words : Nat) (v : UInt64) : Elementary (poke64 words v) :=
  elementary_bind _ _

instance elementary_pop64 : Elementary pop64 :=
  have : Elementary (moveTop 2) := .raiseTop (by decide)
  elementary_bind _ _

instance elementary_popAddress : Elementary popAddress := elementary_bind _ _

instance elementary_registerAddress : Elementary registerAddress := elementary_ctx fun _ _ => rfl

instance elementary_loadWord (a : Address) : Elementary (loadWord a) := elementary_get fun _ _ => rfl

instance elementary_storeWord (a : Address) (v : UInt32) : Elementary (storeWord a v) := by
  cases a with
  | null | string => exact .fail _
  | stack p => exact elementary_writeStack p v _
  | global => exact elementary_get fun _ _ => rfl
  | field => exact elementary_engine fun _ _ => rfl

instance elementary_loadWord64 (a : Address) : Elementary (loadWord64 a) := elementary_bind _ _

instance elementary_storeWord64 (a : Address) (v : UInt64) : Elementary (storeWord64 a v) :=
  elementary_bind _ _

instance elementary_loadHandle (a : Address) : Elementary (loadHandle a) := elementary_bind _ _

instance plain_push (v : UInt32) : Plain (push v) :=
  have : Plain (do writeStack (← ctx).sp v .stackOverflow) := plain_ctx fun _ _ => rfl
  plain_bind _ _

instance plain_push64 (v : UInt64) : Plain (push64 v) :=
  have : Plain (do writeStack64 (← ctx).sp v .stackOverflow) := plain_ctx fun _ _ => rfl
  plain_bind _ _

instance elementary_currentModule : Elementary currentModule := elementary_get fun _ _ => rfl

instance elementary_globalOffset (slot : UInt16) : Elementary (globalOffset slot) :=
  elementary_bind _ _

instance elementary_globalAddress (slot : UInt16) : Elementary (globalAddress slot) :=
  elementary_bind _ _

instance elementary_readGlobal (slot : UInt16) : Elementary (readGlobal slot) := elementary_bind _ _

instance elementary_writeGlobal (slot : UInt16) (v : UInt32) : Elementary (writeGlobal slot v) :=
  elementary_bind _ _

instance elementary_ofExcept (r : Except Fault α) : Elementary (ofExcept r) := by
  cases r with
  | ok a => exact .pure a
  | error e => exact .fail e

instance elementary_functionOf (id : FunctionId) : Elementary (functionOf id) :=
  elementary_engine fun _ _ => rfl

instance elementary_refuseNull (v : UInt64) : Elementary (refuseNull v) := elementary_ite _ _ _

instance elementary_writePart (width : Width) (var : Int16) : Elementary (writePart width var) := by
  cases width <;> exact elementary_bind _ _

instance elementary_readPart (width : Width) (var : Int16) : Elementary (readPart width var) := by
  cases width <;> exact elementary_bind _ _

instance elementary_copyWords (source target : Address) (done n : Nat) :
    Elementary (copyWords source target done n) := by
  induction n generalizing done with
  | zero => exact .pure ()
  | succ n ih =>
    have := ih (done + 1)
    exact elementary_bind _ _

instance elementary_convertVar (op : Conversion) (dst src : Int16) :
    Elementary (convertVar op dst src) := by
  unfold convertVar
  cases op.rule <;> exact elementary_bind _ _

instance elementary_compareVars (kind : Comparison) (a b : Int16) :
    Elementary (compareVars kind a b) := by
  cases kind <;> exact elementary_bind _ _

instance elementary_pushedOffset (words : UInt16) : Elementary (pushedOffset words) :=
  elementary_bind _ _

instance elementary_freeObject : Elementary freeObject := by
  have (a : Address) : Elementary (do
      if let some h ← loadHandle a then
        modify fun m => m.giveUp h
        storeWord64 a 0) := by
    refine .bind inferInstance fun o => ?_
    cases o with
    | none => exact .pure ()
    | some h => exact elementary_bind _ _
  exact elementary_bind _ _

instance plain_storeNew (a : Address) (h : Handle) : Plain (storeNew a h) where
  holds m := by
    show ((storeNew a h).after m).bearing = m.bearing
    cases hstore : storeWord64 a h.bits m with
    | ok _ m' =>
      have hm' : m'.bearing = m.bearing := Keeps.of_ok hstore
      rw [after_of_ok (show storeNew a h m = .ok () m' by simp only [storeNew, hstore]), hm']
    | error stop m' =>
      have hm' : m'.bearing = m.bearing := Keeps.of_error hstore
      rw [after_of_error
        (show storeNew a h m = .error stop (m'.giveUp h) by simp only [storeNew, hstore]),
        Machine.bearing_giveUp, hm']
  misses m g := by
    have hstore := Deaf.guised (x := storeWord64 a h.bits) m g
    simp only [storeNew, hstore]
    cases storeWord64 a h.bits m with
    | ok _ m' => rfl
    | error stop m' => exact congrArg (EStateM.Result.error stop) (m'.guised_giveUp g h)

instance plain_assignTop : Plain assignTop := by
  refine .bind fun target => ?_
  refine .bind fun bits => ?_
  refine .bind fun old => ?_
  cases old <;> cases Handle.ofBits? bits <;> infer_instance

theorem plain_simple {i : Instr} (h : i.isJump = false) : Plain (simple i) := by
  cases i with
  | jump | branch | jumpTable => cases h
  | push words =>
    have (sp : Pointer) :
        Plain (modify fun m => m.onStack fun s => s.clear sp words.toNat : Exec Fault PUnit) :=
      plain_onStack fun _ => rfl
    have (sp : Pointer) : Plain (do
        if (← ctx).stack.containsRange sp words.toNat then
          modify fun m => m.onStack fun s => s.clear sp words.toNat
        else fail .stackOverflow : Exec Fault PUnit) :=
      plain_ctx fun _ _ => rfl
    refine .bind fun _ => ?_
    exact plain_ctx fun _ _ => rfl
  | pushRegister | fromRegister | fromRegister64 | clearHigh | test
  | giveObject => exact plain_ctx fun _ _ => rfl
  | _ =>
    unfold simple
    infer_instance

end Exec
end ScriptVm
