import ScriptVm.Proofs.Execution.Transfer

namespace ScriptVm

/-- A use of a variable, of one word or of two. -/
structure Access where
  offset : Int16
  words : Nat
  deriving DecidableEq, Inhabited, Repr

namespace Access

def one (offset : Int16) : Access := { offset, words := 1 }

def two (offset : Int16) : Access := { offset, words := 2 }

/-- A word is among those that are used, from the place of the variable upwards. -/
def Covers (a : Access) (fp p : Pointer) : Prop :=
  p.block = fp.block ∧ ∃ k < a.words, (p.offset.toNat : Int) = fp.offset.toNat - a.offset.toInt + k

end Access

def Width.words : Width → Nat
  | qword => 2
  | _ => 1

def Comparison.words : Comparison → Nat
  | int | uint | float => 1
  | double | int64 | uint64 => 2

namespace ConversionRule

def sourceWords : ConversionRule → Nat
  | narrow _ | widen _ => 1
  | shrink _ | wide _ => 2

def targetWords : ConversionRule → Nat
  | narrow _ | shrink _ => 1
  | widen _ | wide _ => 2

end ConversionRule

namespace Instr

/-- The uses of variables that the operands of an instruction stand for. An operand whose address is
taken is not used. -/
def accesses : Instr → List Access
  | pushVar v | setVar v _ | toRegister v | fromRegister v | storeGlobal _ v | loadGlobal v _
  | referLoadGlobal v _
  | jumpTable v | unary _ v | compareInt v _ | compareUInt v _ | compareFloat v _ => [.one v]
  | pushVar64 v | setVar64 v _ | toRegister64 v | fromRegister64 v | unary64 _ v | takeObject v
  | giveObject v
  | checkVar v => [.two v]
  | move a b | immediate _ a b _ | immediateFloat _ a b _ => [.one a, .one b]
  | move64 a b => [.two a, .two b]
  | write width v | read width v => [{ offset := v, words := width.words }]
  | binary _ a b c => [.one a, .one b, .one c]
  | binary64 _ a b c => [.two a, .two b, .two c]
  | shift64 _ a b c => [.two a, .two b, .one c]
  | compare kind a b => [{ offset := a, words := kind.words }, { offset := b, words := kind.words }]
  | convert op a b =>
    [{ offset := a, words := op.rule.targetWords }, { offset := b, words := op.rule.sourceWords }]
  | _ => []

/-- Words that are used behind the address in the register. -/
def addressedWords : Instr → Nat
  | write width _ | read width _ => width.words
  | _ => 0

/-- A word is neither pushed by an instruction nor behind the address that it uses. -/
structure Elsewhere (i : Instr) (m : Machine) (p : Pointer) : Prop where
  pushed : ∀ k < i.pushedWords, m.ctx.sp.shift? (-(k + 1 : Nat)) ≠ some p
  addressed : ∀ q, Address.ofBits? m.ctx.register = some (.stack q) →
    ∀ k < i.addressedWords, q.shift? k ≠ some p

theorem words_le_two {i : Instr} {a : Access} (h : a ∈ i.accesses) : a.words ≤ 2 := by
  have hwidth (width : Width) : width.words ≤ 2 := by cases width <;> decide
  have hkind (kind : Comparison) : kind.words ≤ 2 := by cases kind <;> decide
  have hsource (rule : ConversionRule) : rule.sourceWords ≤ 2 := by
    cases rule <;> simp [ConversionRule.sourceWords]
  have htgt (rule : ConversionRule) : rule.targetWords ≤ 2 := by
    cases rule <;> simp [ConversionRule.targetWords]
  cases i <;> simp only [accesses, List.mem_cons, List.not_mem_nil, or_false] at h <;>
    grind [Access.one, Access.two]

theorem offset_mem_vars {i : Instr} {a : Access} (h : a ∈ i.accesses) : a.offset ∈ i.vars := by
  cases i <;> simp only [accesses, List.mem_cons, List.not_mem_nil, or_false] at h <;>
    simp only [vars, operands, List.filterMap_cons, List.filterMap_nil] <;>
      grind [Access.one, Access.two]

end Instr

/-- The machine with another word at a place of its stack. -/
def Machine.poke (m : Machine) (p : Pointer) (v : UInt32) : Machine := m.onStack fun s => s.set p v

namespace Exec

variable {ε α β : Type} {p : Pointer} {m : Machine} {v : Int16} {q : Pointer} {a : Address}

def poked (p : Pointer) (v : UInt32) :
    EStateM.Result (Stop ε) Machine α → EStateM.Result (Stop ε) Machine α
  | .ok a m => .ok a (m.poke p v)
  | .error stop m => .error stop (m.poke p v)

/-- The word at a place is neither looked at nor changed: it may be overwritten before the
computation or after it. -/
def Spares (p : Pointer) (m : Machine) (x : Exec ε α) : Prop := ∀ v, x (m.poke p v) = poked p v (x m)

theorem spares_pure (a : α) : Spares p m (pure a : Exec ε α) := fun _ => rfl

theorem spares_fail (e : ε) : Spares p m (fail e : Exec ε α) := fun _ => rfl

theorem spares_orFail (e : ε) (o : Option α) : Spares p m (orFail e o) := by
  cases o with
  | none => exact spares_fail e
  | some a => exact spares_pure a

theorem spares_bind {x : Exec ε α} {f : α → Exec ε β} (hx : Spares p m x)
    (hf : ∀ a m', x m = .ok a m' → Spares p m' (f a)) : Spares p m (x >>= f) := by
  intro v
  simp only [bind, EStateM.bind, hx v]
  cases h : x m with
  | ok a m' => exact hf a m' h v
  | error stop m' => rfl

theorem spares_look {x : Exec ε α} {f : α → Exec ε β} [hlook : Keeps (fun m => m) x]
    (hx : Spares p m x) (hf : ∀ a, x m = .ok a m → Spares p m (f a)) : Spares p m (x >>= f) := by
  refine spares_bind hx fun a m' h => ?_
  have hsame : m' = m := hlook.of_ok h
  rw [hsame] at h ⊢
  exact hf a h

theorem spares_ctx {f : Context → Exec ε α} (h : ∀ v, f (m.poke p v).ctx = f m.ctx)
    (hf : Spares p m (f m.ctx)) : Spares p m (ctx >>= f) := by
  intro v
  show f (m.poke p v).ctx (m.poke p v) = poked p v (f m.ctx m)
  rw [h, hf v]

theorem spares_get {f : Machine → Exec ε α} (h : ∀ v, f (m.poke p v) = f m)
    (hf : Spares p m (f m)) : Spares p m (get >>= f) := by
  intro v
  show f (m.poke p v) (m.poke p v) = poked p v (f m m)
  rw [h, hf v]

theorem spares_engine {f : Engine → Exec ε α} (hf : Spares p m (f m.engine)) :
    Spares p m (engine >>= f) := hf

theorem spares_modifyCtx (f : Context → Context)
    (h : ∀ v, (m.poke p v).onContext f = (m.onContext f).poke p v) :
    Spares p m (modifyCtx f : Exec ε Unit) :=
  fun v => congrArg (EStateM.Result.ok ()) (h v)

instance look_varPointer (v : Int16) : Keeps (fun m => m) (varPointer v) := obeys_bind _ _

instance look_getVar (v : Int16) : Keeps (fun m => m) (getVar v) :=
  .bind fun _ => obeys_bind _ _

instance look_getVar64 (v : Int16) : Keeps (fun m => m) (getVar64 v) :=
  .bind fun _ => obeys_bind _ _

theorem spares_varPointer {f : Pointer → Exec Fault α}
    (hf : ∀ q, m.ctx.fp.shift? (-v.toInt) = some q → Spares p m (f q)) :
    Spares p m (varPointer v >>= f) := by
  refine spares_look (spares_ctx (fun _ => rfl) (spares_orFail _ _)) fun q hq => hf q ?_
  exact (orFail_ok (show orFail Fault.badCode (m.ctx.fp.shift? (-v.toInt)) m = .ok q m from hq)).1

theorem spares_readStack (hq : q ≠ p) (fault : Fault) : Spares p m (readStack q fault) := by
  refine spares_ctx (fun v => ?_) (spares_orFail _ _)
  rw [show (m.poke p v).ctx.stack.read? q = m.ctx.stack.read? q from m.ctx.stack.read?_set_ne hq v]

theorem spares_readStack64 (hq : q ≠ p) (hnext : q.shift? 1 ≠ some p) (fault : Fault) :
    Spares p m (readStack64 q fault) := by
  refine spares_ctx (fun v => ?_) (spares_orFail _ _)
  rw [show (m.poke p v).ctx.stack.read64? q =
    m.ctx.stack.read64? q from m.ctx.stack.read64?_set_ne hq hnext v]

theorem spares_writeStack (hq : q ≠ p) (w : UInt32) (fault : Fault) :
    Spares p m (writeStack q w fault) := by
  refine spares_ctx (fun v => ?_) ?_
  · rw [show (m.poke p v).ctx.stack.contains q =
      m.ctx.stack.contains q from m.ctx.stack.contains_set p v q]
  · split
    · intro v
      have hcomm := m.ctx.stack.set_comm hq.symm v w
      exact congrArg (fun s => EStateM.Result.ok () { m with ctx := { m.ctx with stack := s } }) hcomm
    · exact spares_fail fault

theorem spares_writeStack64 (hq : q ≠ p) (hnext : q.shift? 1 ≠ some p) (w : UInt64) (fault : Fault) :
    Spares p m (writeStack64 q w fault) := by
  refine spares_ctx (fun v => ?_) ?_
  · rw [show (m.poke p v).ctx.stack.contains64 q =
      m.ctx.stack.contains64 q from m.ctx.stack.contains64_set p v q]
  · split
    · rename_i hcont
      obtain ⟨r, hr, -⟩ := (Option.any_eq_true _ _).mp hcont
      have hne : p ≠ r := fun h => hnext (hr.trans (congrArg some h.symm))
      intro v
      have hcomm := m.ctx.stack.set64_set_comm hr hq.symm hne v w
      exact congrArg (fun s => EStateM.Result.ok () { m with ctx := { m.ctx with stack := s } }) hcomm
    · exact spares_fail fault

theorem ne_of_not_covers {words : Nat} {fp : Pointer} (h : ¬ Access.Covers ⟨v, words + 1⟩ fp p)
    (hq : fp.shift? (-v.toInt) = some q) : q ≠ p := by
  rintro rfl
  obtain ⟨hblk, hoff⟩ := Pointer.shift?_eq_some_iff.mp hq
  exact h ⟨hblk, 0, Nat.succ_pos _, by simpa [Int.sub_eq_add_neg] using hoff⟩

theorem next_ne_of_not_covers {fp : Pointer} (h : ¬ (Access.two v).Covers fp p)
    (hq : fp.shift? (-v.toInt) = some q) : q.shift? 1 ≠ some p := by
  intro hp
  obtain ⟨hblk, hoff⟩ := Pointer.shift?_eq_some_iff.mp hq
  obtain ⟨hblk', hoff'⟩ := Pointer.shift?_eq_some_iff.mp hp
  refine h ⟨hblk'.trans hblk, 1, Nat.one_lt_two, ?_⟩
  show (p.offset.toNat : Int) = fp.offset.toNat - v.toInt + (1 : Nat)
  omega

theorem spares_getVar (h : ¬ (Access.one v).Covers m.ctx.fp p) : Spares p m (getVar v) :=
  spares_varPointer fun _ hq => spares_readStack (ne_of_not_covers h hq) _

theorem spares_getVar64 (h : ¬ (Access.two v).Covers m.ctx.fp p) : Spares p m (getVar64 v) :=
  spares_varPointer fun _ hq =>
    spares_readStack64 (ne_of_not_covers h hq) (next_ne_of_not_covers h hq) _

theorem spares_setVar (h : ¬ (Access.one v).Covers m.ctx.fp p) (w : UInt32) :
    Spares p m (setVar v w) :=
  spares_varPointer fun _ hq => spares_writeStack (ne_of_not_covers h hq) _ _

theorem spares_setVar64 (h : ¬ (Access.two v).Covers m.ctx.fp p) (w : UInt64) :
    Spares p m (setVar64 v w) :=
  spares_varPointer fun _ hq =>
    spares_writeStack64 (ne_of_not_covers h hq) (next_ne_of_not_covers h hq) _ _

theorem spares_moveTop (words : Int) : Spares p m (moveTop words) := by
  refine spares_ctx (fun _ => rfl) (spares_bind (spares_orFail _ _) fun sp m' _ => ?_)
  exact spares_modifyCtx _ fun _ => rfl

theorem moveTop_place {words : Int} {m' : Machine} (h : moveTop words m = .ok () m') :
    m.ctx.sp.shift? words = some m'.ctx.sp := by
  have hmove := ctx_ok h
  obtain ⟨sp, m2, hshift, hset⟩ := bind_ok hmove
  obtain ⟨hshift, rfl⟩ := orFail_ok hshift
  cases hset
  exact hshift

theorem spares_push (h : ∀ k < 1, m.ctx.sp.shift? (-(k + 1 : Nat)) ≠ some p) (w : UInt32) :
    Spares p m (push w) := by
  refine spares_bind (spares_moveTop _) fun _ m' hmove =>
    spares_ctx (fun _ => rfl) (spares_writeStack ?_ _ _)
  intro hp
  exact h 0 Nat.one_pos ((moveTop_place hmove).trans (congrArg some hp))

theorem spares_push64 (h : ∀ k < 2, m.ctx.sp.shift? (-(k + 1 : Nat)) ≠ some p) (w : UInt64) :
    Spares p m (push64 w) := by
  refine spares_bind (spares_moveTop _) fun _ m' hmove =>
    spares_ctx (fun _ => rfl) (spares_writeStack64 ?_ ?_ _ _)
  · intro hp
    exact h 1 Nat.one_lt_two ((moveTop_place hmove).trans (congrArg some hp))
  · intro hp
    obtain ⟨hblk, hoff⟩ := Pointer.shift?_eq_some_iff.mp (moveTop_place hmove)
    obtain ⟨hblk', hoff'⟩ := Pointer.shift?_eq_some_iff.mp hp
    exact h 0 Nat.two_pos (Pointer.shift?_eq_some_iff.mpr ⟨hblk'.trans hblk, by omega⟩)

instance look_currentModule : Keeps (fun m => m) currentModule := obeys_bind _ _

instance look_globalOffset (slot : UInt16) : Keeps (fun m => m) (globalOffset slot) := obeys_bind _ _

instance look_readGlobal (slot : UInt16) : Keeps (fun m => m) (readGlobal slot) :=
  .bind fun _ => obeys_bind _ _

instance look_globalAddress (slot : UInt16) : Keeps (fun m => m) (globalAddress slot) :=
  obeys_bind _ _

theorem spares_currentModule : Spares p m currentModule :=
  spares_get (fun _ => rfl) (spares_orFail _ _)

theorem spares_globalAddress (slot : UInt16) : Spares p m (globalAddress slot) :=
  spares_look spares_currentModule fun _ _ => spares_orFail _ _

theorem spares_globalOffset (slot : UInt16) : Spares p m (globalOffset slot) :=
  spares_look spares_currentModule fun _ _ => spares_orFail _ _

theorem spares_readGlobal (slot : UInt16) : Spares p m (readGlobal slot) :=
  spares_look (spares_globalOffset slot) fun _ _ => spares_look spares_currentModule fun _ _ =>
    spares_orFail _ _

theorem spares_writeGlobal (slot : UInt16) (w : UInt32) : Spares p m (writeGlobal slot w) := by
  refine spares_look (spares_globalOffset slot) fun _ _ =>
    spares_look spares_currentModule fun _ _ => ?_
  split
  · exact fun _ => rfl
  · exact spares_fail _

instance look_registerAddress : Keeps (fun m => m) registerAddress := obeys_bind _ _

instance look_loadWord (a : Address) : Keeps (fun m => m) (loadWord a) := obeys_bind _ _

theorem spares_registerAddress {f : Address → Exec Fault α}
    (hf : ∀ a, Address.ofBits? m.ctx.register = some a → Spares p m (f a)) :
    Spares p m (registerAddress >>= f) := by
  refine spares_look (spares_ctx (fun _ => rfl) (spares_orFail _ _)) fun a ha => hf a ?_
  exact (orFail_ok
    (show orFail Fault.nullPointer (Address.ofBits? m.ctx.register) m = .ok a m from ha)).1

theorem spares_loadWord (h : a ≠ .stack p) : Spares p m (loadWord a) := by
  refine spares_get (fun v => ?_) (spares_orFail _ _)
  have hload : load? (m.poke p v) a = load? m a := by
    cases a with
    | stack q => exact m.ctx.stack.read?_set_ne (fun hq => h (congrArg _ hq)) v
    | _ => rfl
  rw [hload]

theorem spares_storeWord (h : a ≠ .stack p) (w : UInt32) : Spares p m (storeWord a w) := by
  cases a with
  | null => exact spares_fail _
  | string id index => exact spares_fail _
  | stack q => exact spares_writeStack (fun hq => h (congrArg _ hq)) w _
  | global id offset =>
    refine spares_get (fun _ => rfl) ?_
    split
    · exact fun _ => rfl
    · exact spares_fail _
  | field index generation offset =>
    refine spares_engine ?_
    split
    · exact fun _ => rfl
    · exact spares_fail _

instance look_loadWord64 (a : Address) : Keeps (fun m => m) (loadWord64 a) :=
  .bind fun _ => .bind fun _ => obeys_bind _ _

theorem spares_loadWord64 (h : a ≠ .stack p) (hnext : a.addWords? 1 ≠ some (.stack p)) :
    Spares p m (loadWord64 a) := by
  refine spares_look (spares_orFail _ _) fun b hb => ?_
  have hb : b ≠ .stack p := fun h => hnext ((orFail_ok hb).1.trans (congrArg some h))
  exact spares_look (spares_loadWord h) fun _ _ => spares_look (spares_loadWord hb) fun _ _ =>
    spares_pure _

theorem spares_storeWord64 (h : a ≠ .stack p) (hnext : a.addWords? 1 ≠ some (.stack p))
    (w : UInt64) : Spares p m (storeWord64 a w) := by
  refine spares_look (spares_orFail _ _) fun b hb => ?_
  have hb : b ≠ .stack p := fun h => hnext ((orFail_ok hb).1.trans (congrArg some h))
  exact spares_bind (spares_storeWord h _) fun _ _ _ => spares_storeWord hb _

theorem spares_setReg (w : UInt64) : Spares p m (setReg w) := spares_modifyCtx _ fun _ => rfl

theorem spares_ofExcept (r : Except Fault α) : Spares p m (ofExcept r) := by
  cases r with
  | ok a => exact spares_pure a
  | error e => exact spares_fail e

instance look_ofExcept (r : Except Fault α) : Keeps (fun m => m) (ofExcept r) := by
  cases r with
  | ok a => exact obeys_pure a
  | error e => exact keeps_fail e

theorem spares_refuseNull (w : UInt64) : Spares p m (refuseNull w) := by
  unfold refuseNull
  split
  · exact spares_fail _
  · exact spares_pure _

theorem spares_jumpBy (offset : Int) : Spares p m (jumpBy offset) := by
  refine spares_ctx (fun _ => rfl) ?_
  dsimp only
  split
  · exact spares_modifyCtx _ fun _ => rfl
  · exact spares_fail _

theorem address_ne {words : Nat} (h : ∀ q, a = .stack q → ∀ k < words, q.shift? k ≠ some p) :
    (0 < words → a ≠ .stack p) ∧ (1 < words → a.addWords? 1 ≠ some (.stack p)) := by
  constructor
  · rintro hws rfl
    refine h p rfl 0 hws (Pointer.shift?_eq_some_iff.mpr ⟨rfl, ?_⟩)
    simp
  · intro hws hnext
    cases a with
    | stack q =>
      obtain ⟨r, hr, hrp⟩ := Option.map_eq_some_iff.mp hnext
      cases hrp
      exact h q rfl 1 hws hr
    | null => cases hnext
    | string id index => cases hnext
    | global id offset | field index generation offset =>
      obtain ⟨r, -, hrp⟩ := Option.map_eq_some_iff.mp hnext
      cases hrp

theorem spares_writePart {width : Width} (h : ¬ Access.Covers ⟨v, width.words⟩ m.ctx.fp p)
    (haddr : ∀ q, Address.ofBits? m.ctx.register = some (.stack q) → ∀ k < width.words,
      q.shift? k ≠ some p) : Spares p m (writePart width v) := by
  refine spares_registerAddress fun a ha => ?_
  obtain ⟨hfst, hnext⟩ := address_ne fun q hq => haddr q (ha.trans (congrArg some hq))
  have hpart (mask : UInt32) : ¬ (Access.one v).Covers m.ctx.fp p → a ≠ .stack p → Spares p m (do
      let w ← getVar v
      let old ← loadWord a
      storeWord a ((old &&& ~~~mask) ||| (w &&& mask))) := by
    intro h ha
    exact spares_look (spares_getVar h) fun _ _ => spares_look (spares_loadWord ha) fun _ _ =>
      spares_storeWord ha _
  cases width with
  | byte | half => exact hpart _ h (hfst Nat.one_pos)
  | word => exact spares_look (spares_getVar h) fun _ _ => spares_storeWord (hfst Nat.one_pos) _
  | qword =>
    exact spares_look (spares_getVar64 h) fun _ _ =>
      spares_storeWord64 (hfst Nat.two_pos) (hnext Nat.one_lt_two) _

theorem spares_readPart {width : Width} (h : ¬ Access.Covers ⟨v, width.words⟩ m.ctx.fp p)
    (haddr : ∀ q, Address.ofBits? m.ctx.register = some (.stack q) → ∀ k < width.words,
      q.shift? k ≠ some p) : Spares p m (readPart width v) := by
  refine spares_registerAddress fun a ha => ?_
  obtain ⟨hfst, hnext⟩ := address_ne fun q hq => haddr q (ha.trans (congrArg some hq))
  cases width with
  | qword =>
    exact spares_look (spares_loadWord64 (hfst Nat.two_pos) (hnext Nat.one_lt_two)) fun _ _ =>
      spares_setVar64 h _
  | _ => exact spares_look (spares_loadWord (hfst Nat.one_pos)) fun _ _ => spares_setVar h _

theorem spares_convertVar {op : Conversion} {dst src : Int16}
    (hdst : ¬ Access.Covers ⟨dst, op.rule.targetWords⟩ m.ctx.fp p)
    (hsrc : ¬ Access.Covers ⟨src, op.rule.sourceWords⟩ m.ctx.fp p) :
    Spares p m (convertVar op dst src) := by
  unfold convertVar
  generalize op.rule = rule at hdst hsrc ⊢
  cases rule with
  | narrow f => exact spares_look (spares_getVar hsrc) fun _ _ => spares_setVar hdst _
  | widen f => exact spares_look (spares_getVar hsrc) fun _ _ => spares_setVar64 hdst _
  | shrink f => exact spares_look (spares_getVar64 hsrc) fun _ _ => spares_setVar hdst _
  | wide f => exact spares_look (spares_getVar64 hsrc) fun _ _ => spares_setVar64 hdst _

theorem spares_compareVars {kind : Comparison} {a b : Int16}
    (ha : ¬ Access.Covers ⟨a, kind.words⟩ m.ctx.fp p)
    (hb : ¬ Access.Covers ⟨b, kind.words⟩ m.ctx.fp p) : Spares p m (compareVars kind a b) := by
  have hone (f : UInt32 → UInt32 → UInt64) : ¬ (Access.one a).Covers m.ctx.fp p →
      ¬ (Access.one b).Covers m.ctx.fp p →
      Spares p m (do return f (← getVar a) (← getVar b)) := by
    intro ha hb
    exact spares_look (spares_getVar ha) fun _ _ => spares_look (spares_getVar hb) fun _ _ =>
      spares_pure _
  have htwo (f : UInt64 → UInt64 → UInt64) : ¬ (Access.two a).Covers m.ctx.fp p →
      ¬ (Access.two b).Covers m.ctx.fp p →
      Spares p m (do return f (← getVar64 a) (← getVar64 b)) := by
    intro ha hb
    exact spares_look (spares_getVar64 ha) fun _ _ => spares_look (spares_getVar64 hb) fun _ _ =>
      spares_pure _
  cases kind with
  | int => exact hone (fun x y => compareInt x.toInt32 y.toInt32) ha hb
  | uint => exact hone compareUInt ha hb
  | float => exact hone compareFloat ha hb
  | double => exact htwo compareDouble ha hb
  | int64 => exact htwo (fun x y => compareInt64 x.toInt64 y.toInt64) ha hb
  | uint64 => exact htwo compareUInt64 ha hb

/-- An instruction with variables spares the words that it does not use. -/
theorem spares_simple {i : Instr} (hvars : i.vars ≠ [])
    (hws : ∀ a ∈ i.accesses, ¬ a.Covers m.ctx.fp p)
    (hels : i.Elsewhere m p) : Spares p m (simple i) := by
  have first {a : Access} {l : List Access} (h : i.accesses = a :: l) : ¬ a.Covers m.ctx.fp p :=
    hws a (by simp [h])
  have second {a b : Access} {l : List Access} (h : i.accesses = a :: b :: l) :
      ¬ b.Covers m.ctx.fp p := hws b (by simp [h])
  have third {a b c : Access} {l : List Access} (h : i.accesses = a :: b :: c :: l) :
      ¬ c.Covers m.ctx.fp p := hws c (by simp [h])
  cases i with
  | pushVar v =>
    exact spares_look (spares_getVar (first rfl)) fun _ _ => spares_push hels.pushed _
  | pushVar64 v =>
    exact spares_look (spares_getVar64 (first rfl)) fun _ _ => spares_push64 hels.pushed _
  | pushVarAddress v => exact spares_varPointer fun _ _ => spares_push64 hels.pushed _
  | pushOffset v => exact spares_push64 hels.pushed _
  | setVar v w => exact spares_setVar (first rfl) w
  | setVar64 v w => exact spares_setVar64 (first rfl) w
  | move a b =>
    exact spares_look (spares_getVar (second rfl)) fun _ _ => spares_setVar (first rfl) _
  | move64 a b =>
    exact spares_look (spares_getVar64 (second rfl)) fun _ _ => spares_setVar64 (first rfl) _
  | toRegister v | compareInt a imm | compareUInt a imm | compareFloat a imm =>
    exact spares_look (spares_getVar (first rfl)) fun _ _ => spares_setReg _
  | toRegister64 v => exact spares_look (spares_getVar64 (first rfl)) fun _ _ => spares_setReg _
  | fromRegister v => exact spares_ctx (fun _ => rfl) (spares_setVar (first rfl) _)
  | fromRegister64 v => exact spares_ctx (fun _ => rfl) (spares_setVar64 (first rfl) _)
  | storeGlobal slot v =>
    exact spares_look (spares_getVar (first rfl)) fun _ _ => spares_writeGlobal slot _
  | loadGlobal v slot =>
    exact spares_look (spares_readGlobal slot) fun _ _ => spares_setVar (first rfl) _
  | referVar v => exact spares_varPointer fun _ _ => spares_setReg _
  | referLoadGlobal v slot =>
    have hv := first rfl
    refine spares_look (spares_globalAddress slot) fun a _ =>
      spares_bind (spares_setReg _) fun _ m' hset => ?_
    -- The register changes before the variable does.
    cases hset
    refine spares_look (spares_readGlobal slot) fun _ _ => spares_setVar ?_ _
    exact hv
  | write width v => exact spares_writePart (first rfl) hels.addressed
  | read width v => exact spares_readPart (first rfl) hels.addressed
  | jumpTable v => exact spares_look (spares_getVar (first rfl)) fun _ _ => spares_jumpBy _
  | unary op v =>
    exact spares_look (spares_getVar (first rfl)) fun _ _ => spares_setVar (first rfl) _
  | unary64 op v =>
    exact spares_look (spares_getVar64 (first rfl)) fun _ _ => spares_setVar64 (first rfl) _
  | binary op dst a b =>
    refine spares_look (spares_getVar (second rfl)) fun _ _ =>
      spares_look (spares_getVar (third rfl)) fun _ _ => ?_
    exact spares_look (spares_ofExcept _) fun _ _ => spares_setVar (first rfl) _
  | binary64 op dst a b =>
    refine spares_look (spares_getVar64 (second rfl)) fun _ _ =>
      spares_look (spares_getVar64 (third rfl)) fun _ _ => ?_
    exact spares_look (spares_ofExcept _) fun _ _ => spares_setVar64 (first rfl) _
  | shift64 op dst a b =>
    refine spares_look (spares_getVar64 (second rfl)) fun _ _ =>
      spares_look (spares_getVar (third rfl)) fun _ _ => ?_
    exact spares_setVar64 (first rfl) _
  | immediate op dst a imm | immediateFloat op dst a imm =>
    exact spares_look (spares_getVar (second rfl)) fun _ _ => spares_setVar (first rfl) _
  | compare kind a b =>
    exact spares_bind (spares_compareVars (first rfl) (second rfl)) fun _ _ _ => spares_setReg _
  | convert op dst src => exact spares_convertVar (first rfl) (second rfl)
  | takeObject v =>
    have hv := first rfl
    refine spares_look (spares_getVar64 hv) fun _ _ =>
      spares_bind (spares_modifyCtx _ fun _ => rfl) fun _ m' hset => ?_
    cases hset
    refine spares_setVar64 ?_ 0
    exact hv
  | giveObject v =>
    have hv := first rfl
    refine spares_ctx (fun _ => rfl) (spares_bind (spares_modifyCtx _ fun _ => rfl) fun _ m' hset => ?_)
    cases hset
    refine spares_setVar64 ?_ _
    exact hv
  | checkVar v => exact spares_look (spares_getVar64 (first rfl)) fun _ _ => spares_refuseNull _
  | _ => exact absurd rfl hvars

theorem spares_exec (nested : Nested) {i : Instr} (hvars : i.vars ≠ [])
    (hws : ∀ a ∈ i.accesses, ¬ a.Covers m.ctx.fp p)
    (hels : i.Elsewhere m p) : Spares p m (exec nested i) := by
  have hsimp : exec nested i = simple i >>= fun _ => pure .go := by
    cases i <;> first | rfl | exact absurd rfl hvars
  rw [hsimp]
  exact spares_bind (spares_simple hvars hws hels) fun _ _ _ => spares_pure _

end Exec

namespace Machine

variable {p : Pointer}

theorem poke_setWords {q : Pointer} (hq : q ≠ p) (hnext : q.shift? 1 ≠ some p) (m : Machine)
    (v : UInt32) (w : UInt64) : (m.poke p v).setWords q w = (m.setWords q w).poke p v := by
  have hcont : (m.poke p v).ctx.stack.contains64 q = m.ctx.stack.contains64 q :=
    m.ctx.stack.contains64_set p v q
  unfold setWords
  rw [hcont]
  split
  · rename_i h
    obtain ⟨r, hr, -⟩ := (Option.any_eq_true _ _).mp h
    have hne : p ≠ r := fun h => hnext (hr.trans (congrArg some h.symm))
    have hcomm := m.ctx.stack.set64_set_comm hr hq.symm hne v w
    exact congrArg (fun s => { m with ctx := { m.ctx with stack := s } }) hcomm
  · rfl

theorem poke_giveUpSlot {q : Pointer} (hq : q ≠ p) (hnext : q.shift? 1 ≠ some p) (m : Machine)
    (v : UInt32) : (m.poke p v).giveUpSlot q = (m.giveUpSlot q).poke p v := by
  have hhdl : (m.poke p v).handleAt? q = m.handleAt? q :=
    congrArg (·.bind Handle.ofBits?) (m.ctx.stack.read64?_set_ne hq hnext v)
  unfold giveUpSlot
  rw [hhdl]
  cases m.handleAt? q with
  | none => rfl
  | some h => exact poke_setWords hq hnext (m.giveUp h) v 0

theorem poke_foldl_vars {g : Machine → Pointer → Machine} (hfp : ∀ m q, (g m q).ctx.fp = m.ctx.fp)
    (hg : ∀ m q, q ≠ p → q.shift? 1 ≠ some p → ∀ v, g (m.poke p v) q = (g m q).poke p v)
    (vars : List ObjectVar) (m : Machine)
    (h : ∀ v ∈ vars, ¬ (Access.two v.offset).Covers m.ctx.fp p) (v : UInt32) :
    vars.foldl (fun m v =>
        match m.ctx.fp.shift? (-v.offset.toInt) with | some q => g m q | none => m) (m.poke p v) =
      (vars.foldl (fun m v =>
        match m.ctx.fp.shift? (-v.offset.toInt) with | some q => g m q | none => m) m).poke p v := by
  induction vars generalizing m with
  | nil => rfl
  | cons var vars ih =>
    have hfst := h var List.mem_cons_self
    have hrest : ∀ v ∈ vars, ¬ (Access.two v.offset).Covers m.ctx.fp p :=
      fun v hv => h v (List.mem_cons_of_mem _ hv)
    have hpl : (m.poke p v).ctx.fp = m.ctx.fp := rfl
    rw [List.foldl_cons, List.foldl_cons, hpl]
    cases hq : m.ctx.fp.shift? (-var.offset.toInt) with
    | none => exact ih m hrest
    | some q =>
      dsimp only
      rw [hg m q (Exec.ne_of_not_covers hfst hq) (Exec.next_ne_of_not_covers hfst hq) v]
      exact ih (g m q) (by rwa [hfp])

theorem poke_clearObjectVars {m : Machine} {f : Func}
    (h : ∀ v ∈ f.objectVars, ¬ (Access.two v.offset).Covers m.ctx.fp p)
    (v : UInt32) : (m.poke p v).clearObjectVars f = (m.clearObjectVars f).poke p v := by
  refine poke_foldl_vars (g := fun m q => m.setWords q 0) (fun m q => ?_)
    (fun m q hq hnext v => ?_) f.objectVars m h v
  · exact congrArg (fun s => s.control.fp) (m.bearing_setWords q 0)
  · exact poke_setWords hq hnext m v 0

theorem poke_releaseVars {m : Machine} {f : Func}
    (h : ∀ v ∈ f.objectVars, ¬ (Access.two v.offset).Covers m.ctx.fp p)
    (v : UInt32) : (m.poke p v).releaseVars f = (m.releaseVars f).poke p v := by
  refine poke_foldl_vars (g := giveUpSlot) (fun m q => ?_) (fun m q hq hnext v => ?_) f.objectVars m h v
  · obtain ⟨stack, hctx⟩ := m.ctx_cleanSlot (.owned q)
    rw [giveUpSlot_eq, hctx]
  · exact poke_giveUpSlot hq hnext m v

end Machine
end ScriptVm
