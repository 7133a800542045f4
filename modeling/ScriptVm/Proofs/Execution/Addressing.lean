import ScriptVm.Proofs.Engine.Roster
import ScriptVm.Proofs.Execution.Transfer
import ScriptVm.Proofs.Heap.Survival

namespace ScriptVm

namespace Heap

theorem field?_eq (h : Heap) (index : UInt32) (generation : UInt16) (offset : UInt32) :
    h.field? index generation offset = h.slots[index.toNat]?.bind fun slot =>
      if slot.generation.toUInt16 = generation then
        slot.object.bind fun o => o.fields.get? offset.toNat else none := rfl

theorem slots_setField (h : Heap) (index : UInt32) (generation : UInt16)
    (offset v : UInt32) (i : Nat) : (h.setField index generation offset v).slots[i]? =
      if index.toNat = i then h.slots[i]?.map fun slot =>
        if slot.generation.toUInt16 = generation then
          { slot with
            object := slot.object.map fun o => { o with fields := o.fields.set offset.toNat v } }
        else slot
      else h.slots[i]? :=
  Array.getElem?_modify

theorem field?_setField {h : Heap} {index : UInt32} {generation : UInt16} {offset : UInt32}
    (hfield : (h.field? index generation offset).isSome = true) (v index' : UInt32)
    (generation' : UInt16) (offset' : UInt32) :
    (h.setField index generation offset v).field? index' generation' offset' =
      if index' = index ∧ generation' = generation ∧ offset' = offset then some v
      else h.field? index' generation' offset' := by
  rw [field?_eq] at hfield
  rw [field?_eq, field?_eq, slots_setField]
  by_cases hidx : index' = index
  · subst hidx
    cases hslot : h.slots[index'.toNat]? with
    | none => simp [hslot] at hfield
    | some slot =>
      rw [hslot, Option.bind_some] at hfield
      by_cases hgen : slot.generation.toUInt16 = generation
      · rw [if_pos hgen] at hfield
        cases hobj : slot.object with
        | none => simp [hobj] at hfield
        | some o =>
          rw [hobj, Option.bind_some] at hfield
          have hlt : offset.toNat < o.fields.size := by
            unfold Words.get? at hfield
            split at hfield
            · assumption
            · cases hfield
          by_cases hsame : generation' = generation
          · by_cases hoff : offset' = offset
            · simp [hgen, hobj, hsame, hoff, Words.get?_set, hlt]
            · have hne : offset.toNat ≠ offset'.toNat := fun e => hoff (UInt32.toNat_inj.mp e.symm)
              simp [hgen, hobj, hsame, hoff, Words.get?_set, hne]
          · simp [hgen, hsame, Ne.symm hsame]
      · rw [if_neg hgen] at hfield
        cases hfield
  · rw [if_neg fun e => hidx (UInt32.toNat_inj.mp e.symm), if_neg fun e => hidx e.1]

theorem refs?_setField (h : Heap) (index : UInt32) (generation : UInt16) (offset v : UInt32)
    (r : Handle) : (h.setField index generation offset v).refs? r = h.refs? r := by
  unfold refs? get?
  rw [slots_setField]
  split
  · cases h.slots[r.index.toNat]? with
    | none => rfl
    | some slot =>
      simp only [Option.map_some, Option.bind_some]
      split
      · dsimp only
        split
        · cases slot.object <;> rfl
        · rfl
      · rfl
  · rfl

end Heap

theorem Module.readGlobal?_writeGlobal {g : Module} {offset : UInt32}
    (h : g.hasGlobalWord offset = true) (v offset' : UInt32) :
    (g.writeGlobal offset v).readGlobal? offset' = if offset' = offset then some v
      else g.readGlobal? offset' := by
  have hlt : offset.toNat < g.store.size := by simpa [hasGlobalWord] using h
  unfold readGlobal? writeGlobal
  rw [Array.getElem?_setIfInBounds]
  by_cases hsame : offset' = offset
  · rw [hsame, if_pos rfl, if_pos hlt, if_pos rfl]
  · rw [if_neg fun e => hsame (UInt32.toNat_inj.mp e.symm), if_neg hsame]

@[simp] theorem Engine.heap_changeModule (e : Engine) (id : ModuleId) (f : Module → Module) :
    (e.changeModule id f).heap = e.heap := by
  rw [changeModule_eq]

/-- The next word is one further in the same block, module or object. -/
theorem Address.addWords?_one {a b : Address} (h : a.addWords? 1 = some b) :
    (∃ p q, a = .stack p ∧ b = .stack q ∧ q.block = p.block ∧ q.offset.toNat = p.offset.toNat + 1) ∨
      (∃ id offset v, a = .global id offset ∧ b = .global id v ∧ v.toNat = offset.toNat + 1) ∨
      ∃ index generation offset v, a = .field index generation offset ∧
        b = .field index generation v ∧ v.toNat = offset.toNat + 1 := by
  cases a with
  | null | string => cases h
  | stack p =>
    obtain ⟨q, hq, rfl⟩ := Option.map_eq_some_iff.mp h
    obtain ⟨hblk, hoff⟩ := Pointer.shift?_eq_some_iff.mp hq
    rw [UInt32.toNat_one] at hoff
    exact .inl ⟨p, q, rfl, rfl, hblk, by omega⟩
  | global id offset =>
    obtain ⟨v, hv, rfl⟩ := Option.map_eq_some_iff.mp h
    exact .inr (.inl ⟨id, offset, v, rfl, rfl, toNat_word? hv⟩)
  | field index generation offset =>
    obtain ⟨v, hv, rfl⟩ := Option.map_eq_some_iff.mp h
    exact .inr (.inr ⟨index, generation, offset, v, rfl, rfl, toNat_word? hv⟩)

theorem Address.addWords?_one_ne {a b : Address} (h : a.addWords? 1 = some b) : b ≠ a := by
  rintro rfl
  rcases addWords?_one h with ⟨p, q, rfl, hq, -, hv⟩ | ⟨id, offset, v, rfl, hq, hv⟩ |
    ⟨index, generation, offset, v, rfl, hq, hv⟩ <;> cases hq <;> omega

/-- The references that are counted for each object. -/
def Machine.counts (m : Machine) : Handle → Option Nat := m.engine.heap.refs?

namespace Exec

variable {m m' : Machine} {a : Address} {v : UInt64}

theorem addressedModule?_changeModule (m : Machine) (id : ModuleId) (f : Module → Module)
    (k : ModuleId) : addressedModule? (m.onEngine fun e => e.changeModule id f) k =
      if k = id then (addressedModule? m k).map f else addressedModule? m k := by
  unfold addressedModule?
  simp only [Machine.onEngine, Engine.module?_eq, Engine.built?_changeModule,
    Engine.present_changeModule]
  split <;> split <;> simp_all

/-- After a store a word is what was stored, and every other word is what it was. -/
theorem load?_of_storeWord {v : UInt32} (h : storeWord a v m = .ok () m') (b : Address) :
    load? m' b = if b = a then some v else load? m b := by
  cases stores_of_ok h with
  | stack hcont =>
    cases b with
    | stack q =>
      show (m.ctx.stack.set _ v).read? q = _
      rw [Stack.read?_set]
      simp [hcont, load?]
    | _ =>
      rw [if_neg (by simp)]
      rfl
  | @global id offset g hg hword =>
    cases b with
    | global id' offset' =>
      show (addressedModule? (m.onEngine _) id').bind _ = _
      rw [addressedModule?_changeModule]
      by_cases hid : id' = id
      · subst hid
        rw [if_pos rfl, hg, Option.map_some, Option.bind_some, Module.readGlobal?_writeGlobal hword]
        simp [load?, hg]
      · simp [load?, hid]
    | _ => simp [load?, Machine.onEngine]
  | field hfield =>
    cases b with
    | field index' generation' offset' =>
      show (m.engine.heap.setField _ _ _ v).field? index' generation' offset' = _
      rw [Heap.field?_setField hfield]
      simp [load?]
    | _ =>
      rw [if_neg (by simp)]
      rfl

def load64? (m : Machine) (a : Address) : Option UInt64 := do
  let high ← a.addWords? 1
  let lo ← load? m a
  let hi ← load? m high
  pure (joinWords lo hi)

theorem load64?_stack (m : Machine) (p : Pointer) :
    load64? m (.stack p) = m.ctx.stack.read64? p := by
  have hnext : (Address.stack p).addWords? 1 = (p.shift? 1).map .stack := rfl
  unfold load64? Stack.read64?
  rw [hnext]
  cases p.shift? 1 with
  | none => cases m.ctx.stack.read? p <;> rfl
  | some q => rfl

theorem loadWord_ok {v : UInt32} (h : loadWord a m = .ok v m') : load? m a = some v ∧ m' = m := by
  obtain ⟨n, m1, hn, hload⟩ := bind_ok h
  cases hn
  exact orFail_ok hload

theorem loadWord64_ok (h : loadWord64 a m = .ok v m') : load64? m a = some v ∧ m' = m := by
  obtain ⟨high, m1, hnext, hws⟩ := bind_ok h
  obtain ⟨hhigh, rfl⟩ := orFail_ok hnext
  obtain ⟨lo, m2, hlow, hrest⟩ := bind_ok hws
  obtain ⟨hlo, rfl⟩ := loadWord_ok hlow
  obtain ⟨hi, m3, hload, hjoin⟩ := bind_ok hrest
  obtain ⟨hhi, rfl⟩ := loadWord_ok hload
  cases hjoin
  simp [load64?, hhigh, hlo, hhi]

theorem loadWord_of_load? {w : UInt32} (h : load? m a = some w) : loadWord a m = .ok w m := by
  show orFail Fault.nullPointer (load? m a) m = _
  rw [h]
  rfl

theorem loadWord_of_none (h : load? m a = none) : loadWord a m = .error (.cause .nullPointer) m := by
  show orFail Fault.nullPointer (load? m a) m = _
  rw [h]
  rfl

theorem loadWord64_of_load64? (h : load64? m a = some v) : loadWord64 a m = .ok v m := by
  obtain ⟨high, hhigh, hws⟩ := Option.bind_eq_some_iff.mp h
  obtain ⟨lo, hlo, hrest⟩ := Option.bind_eq_some_iff.mp hws
  obtain ⟨hi, hhi, hjoin⟩ := Option.bind_eq_some_iff.mp hrest
  cases hjoin
  rw [loadWord64, hhigh]
  show (loadWord a >>= fun lo => loadWord high >>= fun hi => pure (joinWords lo hi)) m = _
  rw [bind_of_ok (loadWord_of_load? hlo), bind_of_ok (loadWord_of_load? hhi)]
  rfl

theorem load64?_of_storeWord64 (h : storeWord64 a v m = .ok () m') : load64? m' a = some v := by
  obtain ⟨high, m1, hnext, hws⟩ := bind_ok h
  obtain ⟨hhigh, hsame⟩ := orFail_ok hnext
  obtain ⟨u, m2, hlow, hstore⟩ := bind_ok hws
  have hne := Address.addWords?_one_ne hhigh
  have hhi : load? m' high = some (highWord v) := by rw [load?_of_storeWord hstore, if_pos rfl]
  have hlo : load? m' a = some (lowWord v) := by
    rw [load?_of_storeWord hstore, if_neg (Ne.symm hne), load?_of_storeWord hlow, if_pos rfl]
  simp [load64?, hhigh, hlo, hhi]

theorem storeWord64_of_load64? {w : UInt64} (h : load64? m a = some w) (v : UInt64) :
    ∃ m', storeWord64 a v m = .ok () m' := by
  obtain ⟨high, hhigh, hws⟩ := Option.bind_eq_some_iff.mp h
  obtain ⟨lo, hlo, hrest⟩ := Option.bind_eq_some_iff.mp hws
  obtain ⟨hi, hhi, -⟩ := Option.bind_eq_some_iff.mp hrest
  obtain ⟨m1, hlow⟩ := storeWord_of_load? hlo (lowWord v)
  have hkept : load? m1 high = some hi := by
    rw [load?_of_storeWord hlow, if_neg (Address.addWords?_one_ne hhigh), hhi]
  obtain ⟨m2, hstore⟩ := storeWord_of_load? hkept (highWord v)
  refine ⟨m2, ?_⟩
  rw [storeWord64, hhigh]
  show (storeWord a (lowWord v) >>= fun _ => storeWord high (highWord v)) m = _
  rw [bind_of_ok hlow, hstore]

theorem peek64_top (h : peek64 0 m = .ok v m') : m.ctx.stack.read64? m.ctx.sp = some v := by
  obtain ⟨p, m1, hp, hread⟩ := bind_ok h
  have hp' := ctx_ok hp
  obtain ⟨hshift, hsame⟩ := orFail_ok hp'
  subst hsame
  have hread' := ctx_ok hread
  obtain rfl : m1.ctx.sp = p := Option.some.inj (m1.ctx.sp.shift?_zero.symm.trans hshift)
  exact (orFail_ok hread').1

theorem peek64_eq {words : Nat} {p : Pointer} (hp : m.ctx.sp.shift? words = some p)
    (hv : m.ctx.stack.read64? p = some v) : peek64 words m = .ok v m := by
  have hslot : slotPointer words m = .ok p m := by
    show orFail Fault.badCode (m.ctx.sp.shift? words) m = _
    rw [hp]
    rfl
  rw [peek64, bind_of_ok hslot]
  show orFail Fault.badCode (m.ctx.stack.read64? p) m = _
  rw [hv]
  rfl

theorem peek64_zero (h : m.ctx.stack.read64? m.ctx.sp = some v) : peek64 0 m = .ok v m :=
  peek64_eq m.ctx.sp.shift?_zero h

theorem exec_callMethod (nested : Nested) {id : FunctionId} {declared f : Func} {object : Handle}
    (hdecl : m.engine.function? id = some declared) (hobj : m.handleAt? m.ctx.sp = some object)
    (hf : m.engine.resolveMethod? declared object = some f) : exec nested (.callMethod id) m =
      (if f.kind = .host then callHostFrom nested f else callScript f >>= fun _ => pure .go) m := by
  obtain ⟨v, hv, hbits⟩ := Option.bind_eq_some_iff.mp hobj
  show callMethodOn nested id m = _
  rw [callMethodOn, bind_of_ok (functionOf_of_some hdecl), bind_of_ok (peek64_zero hv), hbits]
  show (orFail Fault.nullPointer (m.engine.resolveMethod? declared object) >>= _) m = _
  rw [hf]
  rfl

theorem exec_alloc (nested : Nested) {type : TypeId} {t : ObjectType} {constructor : FunctionId}
    {object : Handle} {f : Func} (htype : m.engine.types.get? type = some t)
    (hnew : (newObject t : Exec Fault Handle) m = .ok object m')
    (hgiven : constructor ≠ .none) (hf : m'.engine.function? constructor = some f)
    (hwords : f.signature.paramWords < 4294967296) : exec nested (.alloc type constructor) m =
      (if f.kind = .script then enterConstructor f object >>= fun _ => pure .go
        else runConstructor nested f object >>= fun _ => checkInterrupt) m' := by
  show (orFail Fault.badCode (m.engine.types.get? type) >>= _) m = _
  rw [htype]
  show (newObject t >>= _) m = _
  rw [bind_of_ok hnew, if_neg hgiven, bind_of_ok (functionOf_of_some hf),
    bind_of_ok (wordOrStop_of_lt hwords m')]

def topAddress? (m : Machine) : Option Address := (m.ctx.stack.read64? m.ctx.sp).bind Address.ofBits?

theorem popAddress_ok (h : popAddress m = .ok a m') :
    topAddress? m = some a ∧ ∃ sp, m.ctx.sp.shift? 2 = some sp ∧ m' = m.onContext fun c =>
      { c with sp } := by
  obtain ⟨bits, m1, hpop, haddr⟩ := bind_ok h
  obtain ⟨v, m2, hpeek, hrest⟩ := bind_ok hpop
  obtain rfl := peek64_ok hpeek
  obtain ⟨_, m3, hmove, hpure⟩ := bind_ok hrest
  cases hpure
  obtain ⟨hbits, rfl⟩ := orFail_ok haddr
  have hpl := ctx_ok hmove
  obtain ⟨sp, m3, hshift, hset⟩ := bind_ok hpl
  obtain ⟨hsp, rfl⟩ := orFail_ok hshift
  cases hset
  refine ⟨?_, sp, hsp, rfl⟩
  rw [topAddress?, peek64_top hpeek]
  exact hbits

theorem popAddress_eq {sp : Pointer} (htop : topAddress? m = some a)
    (hsp : m.ctx.sp.shift? 2 = some sp) :
    popAddress m = .ok a (m.onContext fun c => { c with sp }) := by
  obtain ⟨bits, hbits, ha⟩ := Option.bind_eq_some_iff.mp htop
  have hmove : moveTop 2 m = .ok () (m.onContext fun c => { c with sp }) := by
    show (orFail Fault.stackOverflow (m.ctx.sp.shift? 2) >>= fun sp => modifyCtx fun c =>
        { c with sp }) m = _
    rw [hsp]
    rfl
  have hpop : pop64 m = .ok bits (m.onContext fun c => { c with sp }) := by
    rw [pop64, bind_of_ok (peek64_zero hbits), bind_of_ok hmove]
    rfl
  rw [popAddress, bind_of_ok hpop, ha]
  rfl

instance keeps_counts_storeWord (a : Address) (v : UInt32) : Keeps Machine.counts (storeWord a v) :=
  keeps_storeWord (fun h => by
    cases h with
    | stack => rfl
    | global => exact congrArg Heap.refs? (Engine.heap_changeModule ..)
    | field => exact funext fun r => Heap.refs?_setField ..) a v

instance keeps_counts_storeWord64 (a : Address) (v : UInt64) :
    Keeps Machine.counts (storeWord64 a v) := obeys_bind _ _

end Exec
end ScriptVm
