import ScriptVm.Proofs.Execution.Assigning
import ScriptVm.Proofs.Execution.Cells
import ScriptVm.Proofs.Execution.Entering
import ScriptVm.Proofs.Heap.Representation

namespace ScriptVm

namespace Heap

/-- The references that are left to an object that is given up. -/
def refsLeft? (h : Heap) (r : Handle) : Option Nat :=
  (h.get? r).bind fun o => if o.type.refCounted = true ∧ 2 ≤ o.refs then some (o.refs - 1) else none

theorem refsLeft?_of_one {h : Heap} {r : Handle} (hr : h.refs? r = some 1) :
    h.refsLeft? r = none := by
  obtain ⟨o, ho, hone⟩ := Option.map_eq_some_iff.mp hr
  rw [refsLeft?, ho, Option.bind_some, if_neg (by omega)]

theorem refs?_giveUp_self (h : Heap) (r : Handle) : (h.giveUp r).refs? r = h.refsLeft? r := by
  unfold refsLeft? giveUp
  cases hr : h.get? r with
  | none =>
    dsimp only
    rw [refs?, hr]
    rfl
  | some o =>
    dsimp only
    rw [Option.bind_some]
    by_cases hcntd : o.type.refCounted = true
    · rw [if_pos hcntd, refs?, get?_release_self hr]
      simp only [hcntd, true_and]
      split <;> rfl
    · rw [if_neg hcntd, if_neg fun hboth => hcntd hboth.1, refs?, Option.map_eq_none_iff,
        ← Option.not_isSome_iff_eq_none]
      exact fun hlive => (isLive_of_destroyAll hlive).2 List.mem_cons_self

theorem refsLeft?_setField (h : Heap) (index : UInt32) (generation : UInt16) (offset v : UInt32) :
    (h.setField index generation offset v).refsLeft? = h.refsLeft? := by
  funext r
  unfold refsLeft?
  rw [get?_setField]
  split
  · rw [Option.bind_map]
    rfl
  · rfl

theorem refs?_alloc {h : Heap} (hslot : h.hasSlot = true) (hroom : h.slots.size < 4294967295)
    (type : ObjectType) : (h.alloc type).2.refs? (h.alloc type).1 = some 1 ∧
      (h.alloc type).1.index.toNat + 1 < 4294967296 := by
  obtain ⟨k, hslots, hfree, halloc⟩ := h.alloc_eq type
  rw [halloc]
  cases hf : h.free with
  | nil =>
    rw [insert_append (hfree.trans hf), hslots]
    have hidx : h.slots.size.toUInt32.toNat = h.slots.size := Nat.mod_eq_of_lt (by omega)
    constructor
    · simp [refs?, get?, hidx]
    · show h.slots.size.toUInt32.toNat + 1 < _
      omega
  | cons index free =>
    have hlt : index.toNat < h.slots.size := by simpa [hasSlot, hf] using hslot
    have hat : k.slots[index.toNat]? = some h.slots[index.toNat] := by
      rw [hslots, Array.getElem?_eq_getElem hlt]
    rw [insert_reuse (hfree.trans hf) hat]
    constructor
    · simp [refs?, get?, Array.getElem?_modify, hat]
    · show index.toNat + 1 < _
      omega

end Heap

/-- In an earlier block, or not below the top. -/
def Pointer.Above (p top : Pointer) : Prop :=
  p.block < top.block ∨ p.block = top.block ∧ top.offset ≤ p.offset

theorem Pointer.Above.next {p q top : Pointer} (h : p.Above top) (hq : p.shift? 1 = some q) :
    q.Above top := by
  obtain ⟨hblk, hoff⟩ := shift?_eq_some_iff.mp hq
  rw [Above, hblk]
  refine h.imp id fun hsame => ⟨hsame.1, UInt32.le_iff_toNat_le.mpr ?_⟩
  have hle := UInt32.le_iff_toNat_le.mp hsame.2
  omega

instance (p top : Pointer) : Decidable (p.Above top) := inferInstanceAs (Decidable (_ ∨ _))

/-- Not a place of the stack that is below the top. -/
def Address.Above (a : Address) (top : Pointer) : Prop := ∀ p, a = .stack p → p.Above top

/-- What a machine holds beside its stack: the globals of its modules, and the heap. -/
def Machine.beyond (m : Machine) : (ModuleId → Option (Array UInt32)) × Heap :=
  (fun id => (m.engine.built? id).map Module.store, m.engine.heap)

/-- The references that would be left to an object that is given up. -/
def Machine.remaining (m : Machine) : Handle → Option Nat := m.engine.heap.refsLeft?

theorem Machine.counts_giveUp (m : Machine) (h : Handle) :
    (m.giveUp h).counts h = m.remaining h := by
  show (m.engine.onHeap fun heap => ((), heap.giveUp h)).2.heap.refs? h = _
  rw [Engine.refs?_onHeap]
  exact m.engine.heap.refs?_giveUp_self h

/-- The two words of a cell and the next. -/
def Machine.pair? (m : Machine) (c : Cell) : Option UInt64 := do
  let lo ← m.cell? c
  let hi ← m.cell? c.next
  pure (joinWords lo hi)

namespace Exec

open Machine (beyond)

variable {m m' : Machine} {a : Address} {object : Handle} {f : Func}
variable {ε : Type} {v : UInt64} {stop : Stop Fault} {c : Cell} {nested : Nested}
    {constructor : FunctionId}

instance keeps_beyond_modifyCtx (f : Context → Context) : Keeps beyond (modifyCtx f : Exec ε Unit) :=
  obeys_modifyCtx fun _ => rfl

instance keeps_beyond_onStack (f : Stack → Stack) :
    Keeps beyond (modify fun m => m.onStack f : Exec ε PUnit) := obeys_modify fun _ => rfl

theorem beyond_holdModule (m : Machine) (id : Option ModuleId) :
    (m.holdModule id).beyond = m.beyond := by
  cases id with
  | none => rfl
  | some id =>
    refine Prod.ext (funext fun k => ?_) (m.engine.heap_changeModule id _)
    show ((m.engine.changeModule id _).built? k).map Module.store = _
    rw [Engine.built?_changeModule]
    split
    · rw [Option.map_map]
      rfl
    · rfl

instance keeps_beyond_moveTop (words : Int) : Keeps beyond (moveTop words) := obeys_bind _ _

instance keeps_beyond_popAddress : Keeps beyond popAddress := by
  have hslot : Keeps beyond (slotPointer 0) := obeys_bind _ _
  have hread (p : Pointer) : Keeps beyond (readStack64 p .badCode) := obeys_bind _ _
  have hpeek : Keeps beyond (peek64 0) := obeys_bind _ _
  have hpop : Keeps beyond pop64 := obeys_bind _ _
  exact obeys_bind _ _

instance keeps_beyond_push64 (v : UInt64) : Keeps beyond (push64 v) := by
  have (p : Pointer) : Keeps beyond (writeStack64 p v .stackOverflow) := obeys_bind _ _
  exact obeys_bind _ _

instance keeps_beyond_callScript (f : Func) : Keeps beyond (callScript f) := by
  have hpl : Keeps beyond (placeArgs f) := (keeps_placeArgs f).coarser beyond
  have hhold (module : Option ModuleId) :
      Keeps beyond (modify fun m => m.holdModule module : Exec Fault PUnit) :=
    obeys_modify fun m => beyond_holdModule m module
  have hsave (caller : Func) (block : Nat) (module : Option ModuleId) (fp : Pointer) :
      Keeps beyond (saveCaller caller block module fp) := obeys_bind _ _
  have hbegin (fp : Pointer) : Keeps beyond (beginCallee f fp) := by
    have : Keeps beyond (modify fun m => m.clearObjectVars f : Exec Fault PUnit) :=
      obeys_modify fun m => by rw [m.clearObjectVars_eq f]; rfl
    exact obeys_bind _ _
  exact obeys_bind _ _

instance keeps_remaining_storeWord (a : Address) (v : UInt32) :
    Keeps Machine.remaining (storeWord a v) :=
  keeps_storeWord (fun h => by
    cases h with
    | stack => rfl
    | global => exact congrArg Heap.refsLeft? (Engine.heap_changeModule ..)
    | field => exact Heap.refsLeft?_setField ..) a v

instance keeps_remaining_storeWord64 (a : Address) (v : UInt64) :
    Keeps Machine.remaining (storeWord64 a v) := obeys_bind _ _

instance keeps_blocks_storeWord (a : Address) (v : UInt32) :
    Keeps (fun m => m.ctx.stack.blocks.size) (storeWord a v) :=
  keeps_storeWord (fun h => by
    cases h with
    | stack => exact Array.size_modify
    | global | field => rfl) a v

theorem words_placeArgs (f : Func) (hfew : m.ctx.stack.blocks.size ≤ 4294967296) {p : Pointer}
    {v : UInt32} (hp : p.block ≤ m.ctx.sp.block) (hv : m.ctx.stack.read? p = some v) :
    ((placeArgs f).after m).ctx.stack.read? p = some v := by
  have hkept :=
    (Stack.extends_growFrom m.ctx.stack (f.stackNeeded.toNat + Context.reserve) f.argWords
    m.ctx.sp.block.toNat m.ctx.sp).words p v hv
  -- The words go to a later block, all of them or those before the first that is missing.
  have hcopied {s t : Stack} {fp : Pointer} {copied : Bool} (hne : fp ≠ m.ctx.sp)
      (hgrow : m.ctx.stack.grow m.ctx.sp (f.stackNeeded.toNat + Context.reserve) f.argWords =
        (.ok fp, s))
      (hcopy : s.copy m.ctx.sp fp f.argWords = (copied, t)) : t.read? p = some v := by
    obtain ⟨hstays, -⟩ | ⟨hlater, -⟩ := Stack.growFrom_ok hfew (congrArg Prod.fst hgrow)
    · exact absurd hstays hne
    · have hws := (Stack.alters_copy s m.ctx.sp fp f.argWords).words p fun hwithin => by
        have hle : p.block.toNat ≤ m.ctx.sp.block.toNat := hp
        rw [hwithin.block] at hle
        omega
      rw [hcopy] at hws
      rw [← Stack.grow, hgrow] at hkept
      exact hws.trans hkept
  have hplaces := placeArgs_cases f m
  show (left (placeArgs f m)).ctx.stack.read? p = some v
  generalize placeArgs f m = r at hplaces ⊢
  cases hplaces with
  | large => exact hv
  | none hgrow | here hgrow =>
    rw [← Stack.grow, hgrow] at hkept
    exact hkept
  | moved hne hgrow hcopy | torn hne hgrow hcopy => exact hcopied hne hgrow hcopy

theorem words_callScript (hfew : m.ctx.stack.blocks.size ≤ 4294967296)
    (h : callScript f m = .error stop m') {p : Pointer}
    {v : UInt32} (hp : p.block ≤ m.ctx.sp.block) (hv : m.ctx.stack.read? p = some v) :
    m'.ctx.stack.read? p = some v := by
  have hplaced := words_placeArgs f hfew hp hv
  unfold after at hplaced
  have hcases := callScript_cases f m
  rw [h] at hcases
  cases hcases with
  | unplaced hpl | orphan hpl =>
    rw [hpl] at hplaced
    exact hplaced
  | cramped hpl =>
    rw [hpl] at hplaced
    rw [saved_ctx]
    exact hplaced

theorem push64_cases (v : UInt64) (m : Machine) :
    (∃ stop m', push64 v m = .error stop m' ∧ m'.ctx.stack = m.ctx.stack) ∨
      ∃ sp, m.ctx.sp.shift? (-2) = some sp ∧ m.ctx.stack.contains64 sp = true ∧
        push64 v m =
          .ok () ((m.onContext fun c => { c with sp }).onStack fun s => s.set64 sp v) := by
  have hmove : moveTop (-2) m = (orFail Fault.stackOverflow (m.ctx.sp.shift? (-2)) >>= fun sp =>
      modifyCtx fun c => { c with sp }) m :=
    rfl
  cases hsp : m.ctx.sp.shift? (-2) with
  | none =>
    rw [hsp] at hmove
    exact .inl ⟨_, _, bind_of_error hmove _, rfl⟩
  | some sp =>
    rw [hsp] at hmove
    have hpush : push64 v m =
        (if m.ctx.stack.contains64 sp then modify fun m => m.onStack fun s => s.set64 sp v
        else fail .stackOverflow : Exec Fault Unit) (m.onContext fun c => { c with sp }) :=
          bind_of_ok hmove
    by_cases hthere : m.ctx.stack.contains64 sp = true
    · rw [if_pos hthere] at hpush
      exact .inr ⟨sp, rfl, hthere, hpush⟩
    · rw [if_neg hthere] at hpush
      exact .inl ⟨_, _, hpush, rfl⟩

theorem pair?_of_load64? (hc : m.cellOf? a = some c) (hv : load64? m a = some v) :
    m.pair? c = some v := by
  obtain ⟨high, hhigh, hws⟩ := Option.bind_eq_some_iff.mp hv
  obtain ⟨lo, hlo, hrest⟩ := Option.bind_eq_some_iff.mp hws
  obtain ⟨hi, hhi, hjoin⟩ := Option.bind_eq_some_iff.mp hrest
  rw [load?_eq_cell?, hc, Option.bind_some] at hlo
  rw [load?_eq_cell?, cellOf?_next hhigh, hc, Option.map_some, Option.bind_some] at hhi
  rw [Machine.pair?, hlo, hhi]
  exact hjoin

/-- Two words are kept where they are as long as the stores and the heap are, and they are kept if
they lie on the stack. -/
theorem pair?_kept (hc : m.cellOf? a = some c) (hv : load64? m a = some v)
    (hbeyond : m'.beyond = m.beyond)
    (hstk : ∀ p, a = .stack p → m'.ctx.stack.read64? p = m.ctx.stack.read64? p) :
    m'.pair? c = some v := by
  have hpair := pair?_of_load64? hc hv
  cases a with
  | null | string => cases hc
  | stack p =>
    cases hc
    refine pair?_of_load64? (a := .stack p) rfl ?_
    rw [load64?_stack, hstk p rfl, ← load64?_stack, hv]
  | global id offset =>
    obtain ⟨g, -, rfl⟩ := Option.map_eq_some_iff.mp hc
    have hcell (place : Nat) : m'.cell? (.global id place) = m.cell? (.global id place) := by
      have hstore := congrFun (congrArg Prod.fst hbeyond) id
      have hread (m : Machine) : m.cell? (.global id place) = (m.beyond.1 id).bind fun store =>
          store[place]? := by
        simp [Machine.cell?, beyond, Option.bind_map]
      rw [hread, hread, hstore]
    rwa [Machine.pair?, Cell.next, hcell, hcell]
  | field index generation offset =>
    obtain ⟨slot, -, rfl⟩ := Option.map_eq_some_iff.mp hc
    have hcell (place : Nat) :
        m'.cell? (.field index.toNat place) = m.cell? (.field index.toNat place) := by
      have hheap : m'.engine.heap = m.engine.heap := congrArg Prod.snd hbeyond
      rw [Machine.cell?, Machine.cell?, hheap]
    rwa [Machine.pair?, Cell.next, hcell, hcell]

/-- An object that is stored stays where it is if the call of its constructor fails, unless its
place is below the top. -/
theorem pair?_of_enter {bits : UInt64} (hfew : m.ctx.stack.blocks.size ≤ 4294967296)
    (h : (push64 bits >>= fun _ => callScript f) m = .error stop m') (hc : m.cellOf? a = some c)
    (hv : load64? m a = some v) (habove : a.Above m.ctx.sp) : m'.pair? c = some v := by
  have hkeeps : Keeps beyond (push64 bits >>= fun _ => callScript f) := obeys_bind _ _
  refine pair?_kept hc hv (hkeeps.of_error h) fun p hp => ?_
  subst hp
  rw [load64?_stack] at hv
  have hword {q : Pointer} {w : UInt32} (hq : q.Above m.ctx.sp) (hw : m.ctx.stack.read? q = some w) :
      m'.ctx.stack.read? q = some w := by
    obtain ⟨stop', m1, herr, hstk⟩ | ⟨sp, hsp, hthere, hok⟩ := push64_cases bits m
    · rw [bind_of_error herr] at h
      cases h
      rwa [hstk]
    · rw [bind_of_ok hok] at h
      obtain ⟨hblk, hoff⟩ := Pointer.shift?_eq_some_iff.mp hsp
      have hle : q.block.toNat ≤ m.ctx.sp.block.toNat :=
        hq.elim (fun hlt => Nat.le_of_lt hlt) fun hsame =>
          Nat.le_of_eq (congrArg UInt32.toNat hsame.1)
      refine words_callScript ?_ h (show q.block ≤ sp.block by rw [hblk]; exact hle) ?_
      · simpa [Machine.onStack, Machine.onContext, Stack.set64, Stack.set] using hfew
      · obtain ⟨r, hr, -⟩ := (Option.any_eq_true _ _).mp hthere
        obtain ⟨hnext, hpl⟩ := Pointer.shift?_eq_some_iff.mp hr
        have hne {t : Pointer} (hat : t.block = m.ctx.sp.block)
            (hbelow : t.offset.toNat < m.ctx.sp.offset.toNat) : q ≠ t := by
          rintro rfl
          obtain hlt | ⟨-, hge⟩ := hq
          · exact absurd hlt (by rw [hat]; exact Nat.lt_irrefl _)
          · exact absurd (UInt32.le_iff_toNat_le.mp hge) (by omega)
        exact (Stack.read?_set64 _ hr bits (hne hblk (by omega))
          (hne (hnext.trans hblk) (by omega))).trans hw
  obtain ⟨q, hq, ⟨lo, hlo⟩, hi, hhi⟩ := Stack.read64?_eq_some hv
  refine Stack.read64?_congr (by rw [hword (habove p rfl) hlo, hlo]) fun q' hq' => ?_
  obtain rfl := Option.some.inj (hq.symm.trans hq')
  rw [hword ((habove p rfl).next hq) hhi, hhi]

theorem bind_error {α β : Type} {x : Exec ε α} {k : α → Exec ε β} {stop : Stop ε}
    (h : (x >>= k) m = .error stop m') :
    x m = .error stop m' ∨ ∃ b m1, x m = .ok b m1 ∧ k b m1 = .error stop m' := by
  revert h
  refine bind_cases (Q := fun r => r = .error stop m' → _)
    (fun b m1 hx hk => .inr ⟨b, m1, hx, hk⟩) fun stop1 m1 hx hstop => ?_
  cases hstop
  exact .inl hx

theorem storeNew_error (h : storeNew a object m = .error stop m') :
    load64? m a = none ∧ m'.counts object = m.remaining object := by
  cases hstore : storeWord64 a object.bits m with
  | ok u m1 =>
    rw [storeNew, hstore] at h
    cases h
  | error stop1 m1 =>
    rw [storeNew, hstore] at h
    cases h
    constructor
    · cases hload : load64? m a with
      | none => rfl
      | some w =>
        obtain ⟨m2, hok⟩ := storeWord64_of_load64? hload object.bits
        rw [hok] at hstore
        cases hstore
    · rw [Machine.counts_giveUp, (keeps_remaining_storeWord64 a object.bits).of_error hstore]

theorem storeNew_ok (h : storeNew a object m = .ok () m') :
    storeWord64 a object.bits m = .ok () m' := by
  cases hstore : storeWord64 a object.bits m with
  | ok u m1 =>
    rw [storeNew, hstore] at h
    exact h
  | error stop1 m1 =>
    rw [storeNew, hstore] at h
    cases h

theorem findAndStore_error {x : Exec Fault Address} [hx : Keeps beyond x]
    (h : (x >>= fun a => storeNew a object) m = .error stop m') :
    m'.counts object = if (value? (x m)).isSome then m.remaining object else m.counts object := by
  obtain herr | ⟨a, m1, hok, hstore⟩ := bind_error h
  · rw [herr]
    exact congrArg (fun b => b.2.refs? object) (hx.of_error herr)
  · rw [hok, (storeNew_error hstore).2]
    exact congrArg (fun b => b.2.refsLeft? object) (hx.of_ok hok)

/-- The address so many words above the top. -/
def receiver? (m : Machine) (words : Nat) : Option Address :=
  ((m.ctx.sp.shift? words).bind fun p => m.ctx.stack.read64? p).bind Address.ofBits?

theorem enterConstructor_cases (f : Func) (object : Handle) (m : Machine) :
    (receiver? m f.signature.paramWords = none ∧ ∃ stop,
      enterConstructor f object m = .error stop m) ∨
      ∃ a, receiver? m f.signature.paramWords = some a ∧
        enterConstructor f object m =
          (storeNew a object >>= fun _ => push64 object.bits >>= fun _ => callScript f) m := by
  have hslot : slotPointer f.signature.paramWords m =
      orFail Fault.badCode (m.ctx.sp.shift? f.signature.paramWords) m := rfl
  unfold receiver?
  cases hp : m.ctx.sp.shift? f.signature.paramWords with
  | none =>
    rw [hp] at hslot
    exact .inl ⟨rfl, _, bind_of_error (bind_of_error hslot _) _⟩
  | some p =>
    rw [hp] at hslot
    rw [Option.bind_some]
    cases hv : m.ctx.stack.read64? p with
    | none =>
      have hread : readStack64 p .badCode m = .error (.cause .badCode) m := by
        show orFail Fault.badCode (m.ctx.stack.read64? p) m = _
        rw [hv]
        rfl
      exact .inl ⟨rfl, _, bind_of_error ((bind_of_ok hslot).trans hread) _⟩
    | some v =>
      have hpeek := peek64_eq hp hv
      rw [Option.bind_some]
      cases ha : Address.ofBits? v with
      | none =>
        refine .inl ⟨rfl, .cause .nullPointer, ?_⟩
        rw [enterConstructor, bind_of_ok hpeek, ha]
        rfl
      | some a =>
        refine .inr ⟨a, rfl, ?_⟩
        rw [enterConstructor, bind_of_ok hpeek, ha]
        rfl

theorem enterConstructor_error (hfew : m.ctx.stack.blocks.size ≤ 4294967296)
    (h : enterConstructor f object m = .error stop m') :
    (receiver? m f.signature.paramWords = none → m'.counts object = m.counts object) ∧
      ∀ a, receiver? m f.signature.paramWords = some a →
        (load64? m a = none → m'.counts object = m.remaining object) ∧
        ((load64? m a).isSome = true → m'.counts object = m.counts object ∧
          ∃ c, m.cellOf? a = some c ∧ (a.Above m.ctx.sp → m'.pair? c = some object.bits)) := by
  obtain ⟨hnone, stop1, herr⟩ | ⟨a, hsome, henter⟩ := enterConstructor_cases f object m
  · rw [herr] at h
    cases h
    refine ⟨fun _ => rfl, fun a ha => ?_⟩
    rw [hnone] at ha
    cases ha
  · rw [henter] at h
    refine ⟨fun hnone => absurd (hsome.symm.trans hnone) (by simp), fun a' ha' => ?_⟩
    obtain rfl := Option.some.inj (hsome.symm.trans ha')
    obtain herr | ⟨_, m1, hok, hrest⟩ := bind_error h
    · obtain ⟨hmiss, hcnts⟩ := storeNew_error herr
      exact ⟨fun _ => hcnts, fun hthere => absurd hthere (by simp [hmiss])⟩
    · have hstore := storeNew_ok hok
      obtain ⟨hsame, c, hc, hthere, -⟩ := cells_of_storeWord64 hstore
      refine ⟨fun hmiss => absurd hthere (by simp [hmiss]), fun _ => ⟨?_, c, hc, fun habove => ?_⟩⟩
      · have hkeeps : Keeps beyond (push64 object.bits >>= fun _ => callScript f) := obeys_bind _ _
        have hentd : m'.counts = m1.counts := congrArg (fun b => b.2.refs?) (hkeeps.of_error hrest)
        have hstored : m1.counts = m.counts := (keeps_counts_storeWord64 a object.bits).of_ok hstore
        rw [hentd, hstored]
      · have hblks : Keeps (fun m => m.ctx.stack.blocks.size) (storeWord64 a object.bits) :=
          obeys_bind _ _
        refine pair?_of_enter ?_ hrest (by rw [hsame, hc]) (load64?_of_storeWord64 hstore)
          (by rwa [storeNew_sp hok])
        rwa [hblks.of_ok hstore]

theorem counts_abandonNew (words : Nat) (object : Handle) (m : Machine) :
    ((abandonNew words object).after m).counts object = m.remaining object := by
  have hmove : Keeps Machine.counts (moveTop words) :=
    (keeps_beyond_moveTop words).coarser fun b => b.2.refs?
  have hpop : Keeps Machine.counts popAddress := keeps_beyond_popAddress.coarser fun b => b.2.refs?
  rw [← Machine.counts_giveUp]
  unfold abandonNew
  rw [after_bind_of_ok (show (modify fun m => m.giveUp object : Exec Fault PUnit) m =
    .ok () (m.giveUp object) from rfl)]
  refine congrFun (Keeps.view_after (h := ?_) _) object
  refine .bind fun _ => ?_
  refine .bind fun found => ?_
  cases found <;> infer_instance

theorem runConstructor_error {e : Fault}
    (h : runConstructor nested f object m = .error (.cause e) m') :
    (∀ e1 m1, callHost nested f (some object) m = .error (.cause e1) m1 →
      m'.counts object = m1.remaining object) ∧
      ∀ words m1, callHost nested f (some object) m = .ok words m1 →
        m'.counts object =
          if (value? ((moveTop words >>= fun _ => popAddress) m1)).isSome then m1.remaining object
          else m1.counts object := by
  constructor
  · intro e1 m1 hcall
    obtain hcaught | ⟨words, m2, hcaught, -⟩ := bind_error h
    · rw [tryCatch_of_error hcall] at hcaught
      have hafter := counts_abandonNew f.signature.paramWords object m1
      obtain herr | ⟨_, m2, hok, hthrow⟩ := bind_error hcaught
      · rwa [after_of_error herr] at hafter
      · cases hthrow
        rwa [after_of_ok hok] at hafter
    · rw [tryCatch_of_error hcall] at hcaught
      obtain ⟨_, _, -, hthrow⟩ := bind_ok hcaught
      cases hthrow
  · intro words m1 hcall
    have hstore : ((moveTop words >>= fun _ => popAddress) >>= fun a => storeNew a object) m1 =
        .error (.cause e) m' := by
      rw [bind_assoc]
      rw [runConstructor, bind_of_ok (tryCatch_of_ok hcall _)] at h
      exact h
    have : Keeps beyond (moveTop words >>= fun _ => popAddress) := obeys_bind _ _
    exact findAndStore_error hstore

/-- What became of an object that was made in machine `m` when its allocation has faulted and left
`m'`. -/
structure Fate (nested : Nested) (constructor : FunctionId) (object : Handle)
    (m m' : Machine) : Prop where
  /-- Without a constructor the object is given up, unless no address can be popped. -/
  plain : constructor = .none →
    m'.counts object = if (value? (popAddress m)).isSome then none else some 1
  /-- The object of a constructor that does not exist stays. -/
  unknown : constructor ≠ .none → m.engine.function? constructor = none → m'.counts object = some 1
  /-- The object of a script constructor stays if there is no address above its arguments, it is
  given up if nothing can be stored there, and else it stays and is stored. -/
  script : ∀ f, constructor ≠ .none → m.engine.function? constructor = some f → f.kind = .script →
    (receiver? m f.signature.paramWords = none → m'.counts object = some 1) ∧
    ∀ a, receiver? m f.signature.paramWords = some a →
      (load64? m a = none → m'.counts object = none) ∧
      ((load64? m a).isSome = true → m'.counts object = some 1 ∧
        ∃ c, m.cellOf? a = some c ∧ (a.Above m.ctx.sp → m'.pair? c = some object.bits))
  /-- The object of a host constructor is given up, unless the constructor succeeds and then no
  address can be popped. -/
  host : ∀ f, constructor ≠ .none → m.engine.function? constructor = some f → f.kind ≠ .script →
    (∀ e m1, callHost nested f (some object) m = .error (.cause e) m1 →
      m'.counts object = m1.remaining object) ∧
    ∀ words m1, callHost nested f (some object) m = .ok words m1 →
      m'.counts object =
        if (value? ((moveTop words >>= fun _ => popAddress) m1)).isSome then m1.remaining object
        else m1.counts object

theorem newObject_counts {t : ObjectType} (h : (newObject t : Exec Fault Handle) m = .ok object m')
    (hroom : m.engine.heap.slots.size < 4294967295) : m'.counts object = some 1 := by
  have hrest := engine_ok h
  obtain ⟨_, m2, hslot, halloc⟩ := bind_ok hrest
  obtain ⟨hthere, rfl⟩ := ensure_ok hslot
  rw [onHeap_eq] at halloc
  cases halloc
  have hfst : (m2.engine.onHeap fun heap => heap.alloc t).1 = (m2.engine.heap.alloc t).1 := by
    unfold Engine.onHeap
    dsimp only
    split <;> rfl
  show (m2.engine.onHeap fun heap => heap.alloc t).2.heap.refs? _ = _
  rw [Engine.refs?_onHeap, hfst]
  exact (Heap.refs?_alloc hthere hroom t).1

theorem fate_of_plain (hone : m.counts object = some 1) (hplain : constructor = .none)
    (h : (popAddress >>= fun a => storeNew a object) m = .error stop m') :
    Fate nested constructor object m m' := by
  have hcnts := findAndStore_error h
  rw [show m.remaining object = none from Heap.refsLeft?_of_one hone, hone] at hcnts
  exact ⟨fun _ => hcnts, fun hne => absurd hplain hne, fun _ hne => absurd hplain hne,
    fun _ hne => absurd hplain hne⟩

theorem fate_of_unknown (hone : m.counts object = some 1) (hsome : constructor ≠ .none)
    (hf : m.engine.function? constructor = none) : Fate nested constructor object m m where
  plain hnone := absurd hnone hsome
  unknown _ _ := hone
  script f _ hfd := by
    rw [hf] at hfd
    cases hfd
  host f _ hfd := by
    rw [hf] at hfd
    cases hfd

/-- A constructor that is there is entered if it is a script function, and else it is run. -/
theorem fate_of_constructor (fault : Fault) (hfew : m.ctx.stack.blocks.size ≤ 4294967296)
    (hone : m.counts object = some 1) (hsome : constructor ≠ .none)
    (hf : m.engine.function? constructor = some f)
    (hscr : f.kind = .script → enterConstructor f object m = .error (.cause fault) m')
    (hhost : f.kind ≠ .script → runConstructor nested f object m = .error (.cause fault) m') :
    Fate nested constructor object m m' where
  plain hnone := absurd hnone hsome
  unknown _ hnone := absurd (hf.symm.trans hnone) (by simp)
  script g _ hg hkind := by
    obtain rfl := Option.some.inj (hg.symm.trans hf)
    have hfate := enterConstructor_error hfew (hscr hkind)
    rw [show m.remaining object = none from Heap.refsLeft?_of_one hone, hone] at hfate
    exact hfate
  host g _ hg hkind := by
    obtain rfl := Option.some.inj (hg.symm.trans hf)
    exact runConstructor_error (hhost hkind)

theorem alloc_fault_object {nested : Nested} {type : TypeId} {constructor : FunctionId}
    {fault : Fault} (hroom : m.engine.heap.slots.size < 4294967295)
    (hfew : m.ctx.stack.blocks.size ≤ 4294967296)
    (h : exec nested (.alloc type constructor) m = .error (.cause fault) m') :
    m.engine.types.get? type = none ∧ m' = m ∨
      ∃ t object m1, m.engine.types.get? type = some t ∧
      (newObject t : Exec Fault Handle) m = .ok object m1 ∧
        m1.counts object = some 1 ∧ Fate nested constructor object m1 m' := by
  change (orFail Fault.badCode (m.engine.types.get? type) >>= _) m = _ at h
  cases htype : m.engine.types.get? type with
  | none =>
    rw [htype] at h
    cases h
    exact .inl ⟨rfl, rfl⟩
  | some t =>
    rw [htype] at h
    change (newObject t >>= _) m = _ at h
    obtain hstop | ⟨object, m1, hnew, hrest⟩ := bind_error h
    · have hnone : cause? ((newObject t : Exec Fault Handle) m) = none := Sure.no_cause m
      rw [hstop] at hnone
      cases hnone
    · have hone := newObject_counts hnew hroom
      have hfew1 : m1.ctx.stack.blocks.size ≤ 4294967296 := by rwa [(newObject_ok hnew).1]
      refine .inr ⟨t, object, m1, rfl, hnew, hone, ?_⟩
      by_cases hplain : constructor = .none
      · rw [if_pos hplain, ← bind_assoc] at hrest
        obtain hstore | ⟨_, _, -, hpure⟩ := bind_error hrest
        · exact fate_of_plain hone hplain hstore
        · cases hpure
      · rw [if_neg hplain] at hrest
        obtain hmissing | ⟨f, m2, hfound, hmake⟩ := bind_error hrest
        · change orFail Fault.badCode (m1.engine.function? constructor) m1 = _ at hmissing
          cases hf : m1.engine.function? constructor with
          | some f =>
            rw [hf] at hmissing
            cases hmissing
          | none =>
            rw [hf] at hmissing
            cases hmissing
            exact fate_of_unknown hone hplain hf
        · obtain ⟨hf, rfl⟩ := functionOf_ok hfound
          obtain hlong | ⟨_, m3, hwords, hconstruct⟩ := bind_error hmake
          · cases wordOrStop_error hlong
          · obtain ⟨-, rfl⟩ := wordOrStop_ok hwords
            refine fate_of_constructor fault hfew1 hone hplain hf (fun hscript => ?_) fun hscript =>
              ?_
            · rw [if_pos hscript] at hconstruct
              obtain henter | ⟨_, _, -, hpure⟩ := bind_error hconstruct
              · exact henter
              · cases hpure
            · rw [if_neg hscript] at hconstruct
              obtain hrun | ⟨_, m4, -, hcheck⟩ := bind_error hconstruct
              · exact hrun
              · rw [checkInterrupt_eq] at hcheck
                split at hcheck <;> cases hcheck

/-- Needs more words than the stack has. -/
def spacious : Func :=
  { id := ⟨1⟩, name := "Node", owner := some ⟨1⟩, stackNeeded := 8, code := #[.ret 0] }

/-- About to make a node: the address is on top, and a variable is above it. -/
def making (address : UInt64) : Machine where
  engine := { ({} : Engine).registerType { name := "Node" } |>.2 with functions :=
    #[none, some spacious] }
  ctx :=
    { stack := { (Stack.reset {} 8).set64 { offset := 4 } address with limit := 8 }
      sp := { offset := 4 }
      function := some { name := "maker" } }

/-- There is no room for the constructor, but the node is in the variable. -/
theorem alloc_fault_object_stored :
    ∃ m', exec (fun _ _ => pure 0) (.alloc ⟨1⟩ ⟨1⟩) (making (Address.stack { offset := 6 }).bits) =
        .error (.cause .stackOverflow) m' ∧
      m'.counts ⟨0, 0⟩ = some 1 ∧ m'.pair? (.stack 0 6) = some (Handle.bits ⟨0, 0⟩) := by
  let node : ObjectType := { id := ⟨1⟩, name := "Node" }
  let m := making (Address.stack { offset := 6 }).bits
  have hexec : exec (fun _ _ => pure 0) (.alloc ⟨1⟩ ⟨1⟩) m = .error (.cause .stackOverflow) _ :=
    error_of_cause (by decide +kernel)
  have hmade : (newObject node : Exec Fault Handle) m = .ok ⟨0, 0⟩ _ :=
    ok_of_value (by decide +kernel)
  have hnode : m.engine.types.get? ⟨1⟩ = some node := by decide +kernel
  obtain ⟨hnone, -⟩ | ⟨t, object, m1, htype, hnew, -, hfate⟩ :=
    alloc_fault_object (by decide +kernel) (by decide +kernel) hexec
  · rw [hnode] at hnone
    cases hnone
  · obtain rfl := Option.some.inj (hnode.symm.trans htype)
    rw [hmade] at hnew
    cases hnew
    obtain ⟨-, hplaced⟩ := hfate.script spacious (by decide) (by decide +kernel) rfl
    obtain ⟨-, hstored⟩ := hplaced (.stack { offset := 6 }) (by decide +kernel)
    obtain ⟨hcount, c, hc, hpair⟩ := hstored (by decide +kernel)
    cases hc
    refine ⟨_, hexec, hcount, hpair ?_⟩
    rintro p hp
    cases hp
    decide +kernel

/-- A node stays with nothing to hold it if its address has an unknown tag, and if its constructor
does not exist. -/
theorem alloc_fault_leaks :
    (cause? (exec (fun _ _ => pure 0) (.alloc ⟨1⟩ .none) (making 0x5000000000000000)) =
      some .nullPointer ∧
      (after (exec (fun _ _ => pure 0) (.alloc ⟨1⟩ .none)) (making 0x5000000000000000)).counts ⟨0,
        0⟩ = some 1 ∧
      Address.ofBits? 0x5000000000000000 = none) ∧
    cause? (exec (fun _ _ => pure 0) (.alloc ⟨1⟩ ⟨2⟩)
      (making (Address.stack { offset := 6 }).bits)) = some .badCode ∧
      (after (exec (fun _ _ => pure 0) (.alloc ⟨1⟩ ⟨2⟩))
        (making (Address.stack { offset := 6 }).bits)).counts ⟨0, 0⟩ = some 1 ∧
      (after (exec (fun _ _ => pure 0) (.alloc ⟨1⟩ ⟨2⟩))
        (making (Address.stack { offset := 6 }).bits)).pair? (.stack 0 6) = some 0 := by
  refine ⟨⟨?_, ?_, ?_⟩, ?_, ?_, ?_⟩ <;> decide +kernel

end Exec
end ScriptVm
