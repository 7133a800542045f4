import ScriptVm.Proofs.Execution.Cells
import ScriptVm.Proofs.Memory.Encoding

namespace ScriptVm.Exec

variable {m m' : Machine} {a : Address} {c : Cell}

/-- One word is read and written through the address as this cell: no other cell changes, and if the
cell is not there the access faults and changes nothing. -/
structure Touches (m : Machine) (a : Address) (c : Cell) : Prop where
  load : ∀ w, m.cell? c = some w → loadWord a m = .ok w m
  store : ∀ v, (m.cell? c).isSome = true →
    ∃ m', storeWord a v m = .ok () m' ∧ ∀ d, m'.cell? d = if d = c then some v else m.cell? d
  fault : m.cell? c = none →
    loadWord a m = .error (.cause .nullPointer) m ∧
      ∀ v, storeWord a v m = .error (.cause .nullPointer) m

theorem touches_of_cellOf? (h : m.cellOf? a = some c) : Touches m a c where
  load w hw := loadWord_of_load? (by rw [load?_eq_cell?, h, Option.bind_some, hw])
  store v hthere := by
    obtain ⟨w, hw⟩ := Option.isSome_iff_exists.mp hthere
    have hload : load? m a = some w := by rw [load?_eq_cell?, h, Option.bind_some, hw]
    obtain ⟨m', hstore⟩ := storeWord_of_load? hload v
    obtain ⟨-, c', hc', -, hcells⟩ := cell?_of_storeWord hstore
    obtain rfl := Option.some.inj (hc'.symm.trans h)
    exact ⟨m', hstore, hcells⟩
  fault hnone := by
    have hload : load? m a = none := by rw [load?_eq_cell?, h, Option.bind_some, hnone]
    exact ⟨loadWord_of_none hload, storeWord_of_none hload⟩

theorem cellOf?_kept {h : Handle} {o : Object} (hlive : m.engine.heap.get? h = some o)
    (hidx : h.index.toNat < 16777216) (offset : UInt32) :
    m.cellOf? (Address.ofHandle h offset).kept =
      some (.field h.index.toNat (offset.toNat % 1048576)) ∧
      ∀ k, m.cell? (.field h.index.toNat k) = o.fields.get? k := by
  obtain ⟨slot, hslot, hobj⟩ := Option.bind_eq_some_iff.mp hlive
  split at hobj
  case isFalse => cases hobj
  case isTrue hgen =>
    have hkept : (h.index % 16777216).toNat = h.index.toNat := by
      rw [UInt32.toNat_mod]
      exact Nat.mod_eq_of_lt hidx
    constructor
    · show ((m.engine.heap.slots[(h.index % 16777216).toNat]?.filter _).map fun _ => Cell.field _ _) = _
      rw [hkept, hslot, Option.filter_some, hgen, UInt32.toNat_mod]
      simp
    · intro k
      simp [Machine.cell?, hslot, hobj]

theorem poke64_zero {v : UInt64} (h : m.ctx.stack.read64? m.ctx.sp = some v) (w : UInt64) :
    poke64 0 w m = .ok () (m.onStack fun s => s.set64 m.ctx.sp w) := by
  show (orFail Fault.badCode (m.ctx.sp.shift? 0) >>= fun p => writeStack64 p w .badCode) m = _
  rw [Pointer.shift?_zero]
  show (if m.ctx.stack.contains64 m.ctx.sp then _ else _ : Exec Fault Unit) m = _
  rw [if_pos (Stack.contains64_of_read64? h)]
  rfl

theorem toNat_toUInt32_of_nonneg {v : Int32} (h : 0 ≤ v) : v.toUInt32.toNat = v.toInt.toNat := by
  have hint : 0 ≤ v.toInt := by simpa using Int32.le_iff_toInt_le.mp h
  have hcases : v.toInt = if 2 * v.toUInt32.toNat < 4294967296 then (v.toUInt32.toNat : Int)
      else v.toUInt32.toNat - 4294967296 :=
    BitVec.toInt_eq_toNat_cond v.toBitVec
  have hlt := v.toUInt32.toNat_lt
  split at hcases <;> omega

/-- The address takes the place of the handle, and nothing else changes. A word that is then read or
written through it is the word of the object whose number is the low 20 bits of the offset, or there
is a fault. -/
theorem fieldAddress_touches_kept (nested : Nested) {h : Handle} {o : Object} {offset : Int32}
    (hlive : m.engine.heap.get? h = some o) (hindex : h.index.toNat < 16777216)
    (htop : m.handleAt? m.ctx.sp = some h) (hoffset : 0 ≤ offset) :
    ∃ m' a, exec nested (.fieldAddress offset) m = .ok .go m' ∧
      m' = m.onStack (fun s => s.set64 m.ctx.sp (Address.ofHandle h offset.toUInt32).bits) ∧
        topAddress? m' = some a ∧
      (∀ k, m'.cell? (.field h.index.toNat k) = o.fields.get? k) ∧
      Touches m' a (.field h.index.toNat (offset.toInt.toNat % 1048576)) := by
  obtain ⟨v, hv, hhandle⟩ := Option.bind_eq_some_iff.mp htop
  have hexec : exec nested (.fieldAddress offset) m =
      .ok .go (m.onStack fun s => s.set64 m.ctx.sp (Address.ofHandle h offset.toUInt32).bits) := by
    have hnonneg : ¬ offset < 0 := by
      rw [Int32.lt_iff_toInt_lt]
      exact Int.not_lt.mpr (Int32.le_iff_toInt_le.mp hoffset)
    show ((peek64 0 >>= fun bits => orFail .nullPointer (Handle.ofBits? bits) >>= fun h =>
      if offset < 0 then
        fail .badCode >>= fun _ => poke64 0 (Address.ofHandle h offset.toUInt32).bits
      else poke64 0 (Address.ofHandle h offset.toUInt32).bits) >>= fun _ =>
        pure Flow.go : Exec Fault Flow) m = _
    rw [bind_assoc, bind_of_ok (peek64_zero hv), hhandle]
    show ((if offset < 0 then _ else poke64 0 (Address.ofHandle h offset.toUInt32).bits) >>=
        fun _ => pure Flow.go : Exec Fault Flow) m = _
    rw [if_neg hnonneg, bind_of_ok (poke64_zero hv _)]
    rfl
  obtain ⟨hcell, hfields⟩ := cellOf?_kept hlive hindex offset.toUInt32
  rw [toNat_toUInt32_of_nonneg hoffset] at hcell
  refine ⟨_, (Address.ofHandle h offset.toUInt32).kept, hexec, rfl, ?_, hfields,
    touches_of_cellOf? hcell⟩
  show ((m.ctx.stack.set64 m.ctx.sp _).read64? m.ctx.sp).bind Address.ofBits? = _
  rw [Stack.read64?_set64_self _ hv, Option.bind_some, Address.ofBits?_bits]

/-- One object with these fields, and its handle on top of the stack. -/
def holding (fields : List UInt32) : Machine where
  engine :=
    { heap := ((Heap.alloc {} { name := "Point", fieldWords := fields.length.toUInt32 }).2.setWords
        ⟨0, 0⟩ 0 fields).2 }
  ctx := { stack := (Stack.reset {} 2).set64 {} (Handle.bits ⟨0, 0⟩) }

/-- The second of three fields is read and written, and the others stay. -/
theorem fieldAddress_touches_kept_second :
    ∃ m' a, exec (fun _ _ => pure 0) (.fieldAddress 1) (holding [7, 8, 9]) = .ok .go m' ∧
      topAddress? m' = some a ∧
      loadWord a m' = .ok 8 m' ∧ ∃ m1, storeWord a 5 m' = .ok () m1 ∧
        m1.cell? (.field 0 1) = some 5 ∧ m1.cell? (.field 0 2) = some 9 := by
  have hlive : (holding [7, 8, 9]).engine.heap.get? ⟨0, 0⟩ =
      some ⟨{ name := "Point", fieldWords := 3 }, 1, (Words.zeros 3).put 0 [7, 8, 9]⟩ := by
        decide +kernel
  obtain ⟨m', a, hexec, -, htop, hfields, htouches⟩ :=
    fieldAddress_touches_kept (fun _ _ => pure 0) hlive (by decide) (by decide +kernel)
      (show 0 ≤ (1 : Int32) by decide)
  change Touches m' a (.field 0 1) at htouches
  have hsecond : m'.cell? (.field 0 1) = some 8 := (hfields 1).trans (by decide +kernel)
  have hthird : m'.cell? (.field 0 2) = some 9 := (hfields 2).trans (by decide +kernel)
  obtain ⟨m1, hstore, hcells⟩ := htouches.store 5 (by rw [hsecond]; rfl)
  refine ⟨m', a, hexec, htop, htouches.load 8 hsecond, m1, hstore, (hcells _).trans (if_pos rfl), ?_⟩
  rw [hcells, if_neg (by decide), hthird]

/-- The address of field 1048576 reads and writes the only field of an object. -/
theorem fieldAddress_wraps :
    value? (exec (fun _ _ => pure 0) (.fieldAddress 1048576) (holding [7])) = some .go ∧
      topAddress? (after (exec (fun _ _ => pure 0) (.fieldAddress 1048576)) (holding [7])) =
        some (.field 0 0 0) ∧
      (holding [7]).cell? (.field 0 1048576) = none ∧
      load? (after (exec (fun _ _ => pure 0) (.fieldAddress 1048576)) (holding [7]))
        (.field 0 0 0) = some 7 ∧
      (after (exec (fun _ _ => pure 0) (.fieldAddress 1048576) >>= fun _ =>
        storeWord (.field 0 0 0) 5) (holding [7])).cell?
        (.field 0 0) = some 5 := by
  refine ⟨?_, ?_, ?_, ?_, ?_⟩ <;> decide +kernel

end ScriptVm.Exec
