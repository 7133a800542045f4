import ScriptVm.Proofs.Execution.Addressing
import ScriptVm.Proofs.Execution.Causes

namespace ScriptVm

/-- A word of a stack block, of the globals of a module, or of the object in a heap slot. -/
inductive Cell where
  | stack (block offset : Nat)
  | global (module : ModuleId) (offset : Nat)
  | field (slot offset : Nat)
  deriving DecidableEq, Inhabited, Repr

def Cell.next : Cell → Cell
  | stack block offset => stack block (offset + 1)
  | global module offset => global module (offset + 1)
  | field slot offset => field slot (offset + 1)

theorem Cell.next_ne (c : Cell) : c.next ≠ c := by
  cases c <;> simp [next]

namespace Machine

def cell? (m : Machine) : Cell → Option UInt32
  | .stack block offset => m.ctx.stack.blocks[block]?.bind fun words => words.get? offset
  | .global id offset => (m.engine.built? id).bind fun g => g.store[offset]?
  | .field slot offset =>
    (m.engine.heap.slots[slot]?.bind HeapSlot.object).bind fun o => o.fields.get? offset

/-- The cell that an address names. A module must be known and a slot must have the generation. -/
def cellOf? (m : Machine) : Address → Option Cell
  | .stack p => some (.stack p.block.toNat p.offset.toNat)
  | .global id offset => (Exec.addressedModule? m id).map fun _ => .global id offset.toNat
  | .field index generation offset =>
    (m.engine.heap.slots[index.toNat]?.filter fun slot =>
      slot.generation.toUInt16 = generation).map fun _ =>
      .field index.toNat offset.toNat
  | .null | .string _ _ => none

end Machine

namespace Exec

variable {m m' : Machine} {a b : Address} {c : Cell}

theorem built?_of_addressedModule? {id : ModuleId} {g : Module}
    (h : addressedModule? m id = some g) : m.engine.built? id = some g := by
  unfold addressedModule? at h
  split at h
  · exact h
  · rw [Engine.module?_eq] at h
    split at h
    · exact h
    · cases h

theorem load?_eq_cell? (m : Machine) (a : Address) : load? m a = (m.cellOf? a).bind m.cell? := by
  cases a with
  | null | string | stack => rfl
  | global id offset =>
    show ((addressedModule? m id).bind fun g => g.readGlobal? offset) =
      ((addressedModule? m id).map fun _ => Cell.global id offset.toNat).bind m.cell?
    cases hmod : addressedModule? m id with
    | none => rfl
    | some g => simp [Machine.cell?, built?_of_addressedModule? hmod, Module.readGlobal?]
  | field index generation offset =>
    show m.engine.heap.field? index generation offset =
        Option.bind (Option.map _ (Option.filter _ _)) m.cell?
    rw [Heap.field?_eq]
    cases hslot : m.engine.heap.slots[index.toNat]? with
    | none => rfl
    | some slot =>
      by_cases hgen : slot.generation.toUInt16 = generation
      · simp [Option.filter_some, hgen, hslot, Machine.cell?]
      · simp [Option.filter_some, hgen]

theorem cellOf?_next (h : a.addWords? 1 = some b) : m.cellOf? b = (m.cellOf? a).map Cell.next := by
  rcases Address.addWords?_one h with ⟨p, q, rfl, rfl, hblk, hv⟩ | ⟨id, offset, v, rfl, rfl, hv⟩ |
    ⟨index, generation, offset, v, rfl, rfl, hv⟩
  · simp [Machine.cellOf?, Cell.next, hblk, hv]
  · simp [Machine.cellOf?, Function.comp_def, Cell.next, hv]
  · simp [Machine.cellOf?, Function.comp_def, Cell.next, hv]

theorem cell?_setStack {p : Pointer} (h : m.ctx.stack.contains p = true) (v : UInt32) (d : Cell) :
    (m.onStack fun s => s.set p v).cell? d =
      if d = .stack p.block.toNat p.offset.toNat then some v else m.cell? d := by
  cases d with
  | global | field =>
    rw [if_neg (by simp)]
    rfl
  | stack block offset =>
    have hsize : p.offset.toNat < m.ctx.stack.blockSize p.block.toNat := by
      simpa [Stack.contains] using h
    show ((m.ctx.stack.blocks.modify p.block.toNat _)[block]?.bind fun words => words.get? offset) =
        _
    rw [Array.getElem?_modify]
    by_cases hblk : p.block.toNat = block
    · subst hblk
      cases hws : m.ctx.stack.blocks[p.block.toNat]? with
      | none => simp [Stack.blockSize, hws] at hsize
      | some words =>
        have hlt : p.offset.toNat < words.size := by simpa [Stack.blockSize, hws] using hsize
        simp [Machine.cell?, hws, Words.get?_set, hlt, eq_comm]
    · simp [Machine.cell?, hblk, Ne.symm hblk]

theorem cell?_setGlobal {id : ModuleId} {g : Module} {offset : UInt32}
    (hbuilt : m.engine.built? id = some g) (h : g.hasGlobalWord offset = true) (v : UInt32)
    (d : Cell) :
    (m.onEngine fun e => e.changeModule id fun g => g.writeGlobal offset v).cell? d =
      if d = .global id offset.toNat then some v else m.cell? d := by
  cases d with
  | stack =>
    rw [if_neg (by simp)]
    rfl
  | field slot place =>
    rw [if_neg (by simp)]
    simp [Machine.cell?, Machine.onEngine]
  | global k place =>
    have hlt : offset.toNat < g.store.size := by simpa [Module.hasGlobalWord] using h
    show (((m.engine.changeModule id _).built? k).bind fun g => g.store[place]?) = _
    rw [Engine.built?_changeModule]
    by_cases hid : k = id
    · subst hid
      simp [Machine.cell?, hbuilt, Module.writeGlobal, Array.getElem?_setIfInBounds, hlt, eq_comm]
    · simp [Machine.cell?, hid]

theorem cell?_setField {index : UInt32} {generation : UInt16} {offset : UInt32}
    (h : (m.engine.heap.field? index generation offset).isSome = true) (v : UInt32) (d : Cell) :
    (m.onEngine fun e => { e with heap := e.heap.setField index generation offset v }).cell? d =
      if d = .field index.toNat offset.toNat then some v else m.cell? d := by
  cases d with
  | stack | global =>
    rw [if_neg (by simp)]
    rfl
  | field slot place =>
    show (((m.engine.heap.setField index generation offset v).slots[slot]?.bind
        HeapSlot.object).bind fun o =>
      o.fields.get? place) = _
    rw [Heap.slots_setField]
    by_cases hslot : index.toNat = slot
    · subst hslot
      rw [Heap.field?_eq] at h
      cases hat : m.engine.heap.slots[index.toNat]? with
      | none => simp [hat] at h
      | some there =>
        rw [hat, Option.bind_some] at h
        split at h
        case isFalse => cases h
        case isTrue hgen =>
          cases hobj : there.object with
          | none => simp [hobj] at h
          | some o =>
            have hlt : offset.toNat < o.fields.size := by simpa [hobj, Words.get?] using h
            simp [Machine.cell?, hat, hgen, hobj, Words.get?_set, hlt, eq_comm]
    · simp [Machine.cell?, hslot, Ne.symm hslot]

theorem cellOf?_setGlobal (m : Machine) (id : ModuleId) (f : Module → Module) :
    (m.onEngine fun e => e.changeModule id f).cellOf? = m.cellOf? := by
  funext b
  cases b with
  | null | string | stack => rfl
  | global k offset =>
    show (addressedModule? (m.onEngine _) k).map _ = (addressedModule? m k).map _
    rw [addressedModule?_changeModule]
    split
    · rw [Option.map_map]
      rfl
    · rfl
  | field => simp [Machine.cellOf?, Machine.onEngine]

theorem cellOf?_setField (m : Machine) (index : UInt32) (generation : UInt16) (offset v : UInt32) :
    (m.onEngine fun e => { e with heap := e.heap.setField index generation offset v }).cellOf? =
      m.cellOf? := by
  funext b
  cases b with
  | null | string | stack | global => rfl
  | field i g place =>
    show ((m.engine.heap.setField index generation offset v).slots[i.toNat]?.filter _).map _ =
        (Option.filter _ _).map _
    rw [Heap.slots_setField]
    split
    · cases m.engine.heap.slots[i.toNat]? with
      | none => rfl
      | some slot =>
        simp only [Option.map_some, Option.filter_some]
        split <;> split <;> rfl
    · rfl

/-- A store changes the cell that its address names and no other, and every address names what it
did. -/
theorem cell?_of_storeWord {v : UInt32} (h : storeWord a v m = .ok () m') : m'.cellOf? = m.cellOf? ∧
      ∃ c, m.cellOf? a = some c ∧ (m.cell? c).isSome = true ∧
        ∀ d, m'.cell? d = if d = c then some v else m.cell? d := by
  have hthere : ∃ c, m.cellOf? a = some c ∧ (m.cell? c).isSome = true := by
    cases hload : load? m a with
    | none =>
      rw [storeWord_of_none hload] at h
      cases h
    | some w =>
      rw [load?_eq_cell?] at hload
      obtain ⟨c, hc, hw⟩ := Option.bind_eq_some_iff.mp hload
      exact ⟨c, hc, Option.isSome_iff_exists.mpr ⟨w, hw⟩⟩
  obtain ⟨c, hc, hsome⟩ := hthere
  cases stores_of_ok h with
  | stack hcont =>
    cases hc
    exact ⟨rfl, _, rfl, hsome, cell?_setStack hcont v⟩
  | global hg hword =>
    obtain ⟨g, hg', rfl⟩ := Option.map_eq_some_iff.mp hc
    cases hg.symm.trans hg'
    exact ⟨cellOf?_setGlobal _ _ _, _, hc, hsome,
      cell?_setGlobal (built?_of_addressedModule? hg) hword v⟩
  | field hfield =>
    obtain ⟨slot, hslot, rfl⟩ := Option.map_eq_some_iff.mp hc
    exact ⟨cellOf?_setField _ _ _ _ _, _, hc, hsome, cell?_setField hfield v⟩

/-- Nothing is stored if there is no word after the first or the first is missing; else the first
half is stored before the second one is tried. -/
theorem storeWord64_cases (a : Address) (v : UInt64) (m : Machine) :
    ¬ ((load? m a).isSome = true ∧ (a.addWords? 1).isSome = true) ∧
      storeWord64 a v m = .error (.cause .nullPointer) m ∨
      ∃ high m1, a.addWords? 1 = some high ∧ storeWord a (lowWord v) m = .ok () m1 ∧
        storeWord64 a v m = storeWord high (highWord v) m1 := by
  cases hhigh : a.addWords? 1 with
  | none =>
    refine .inl ⟨fun h => absurd h.2 (by decide), ?_⟩
    rw [storeWord64, hhigh]
    rfl
  | some high =>
    have hunfold : storeWord64 a v m =
        (storeWord a (lowWord v) >>= fun _ => storeWord high (highWord v)) m := by
      rw [storeWord64, hhigh]
      rfl
    cases hlow : load? m a with
    | none =>
      refine .inl ⟨fun h => absurd h.1 (by decide), ?_⟩
      rw [hunfold, bind_of_error (storeWord_of_none hlow _)]
    | some w =>
      obtain ⟨m1, hstore⟩ := storeWord_of_load? hlow (lowWord v)
      refine .inr ⟨high, m1, rfl, hstore, ?_⟩
      rw [hunfold, bind_of_ok hstore]

theorem cells_of_storeWord64 {v : UInt64} (h : storeWord64 a v m = .ok () m') :
    m'.cellOf? = m.cellOf? ∧ ∃ c, m.cellOf? a = some c ∧ (load64? m a).isSome = true ∧
      ∀ d, m'.cell? d = if d = c.next then some (highWord v) else if d = c then some (lowWord v)
        else m.cell? d := by
  obtain ⟨-, hflt⟩ | ⟨high, m1, hhigh, hlow, hrest⟩ := storeWord64_cases a v m
  · rw [hflt] at h
    cases h
  · obtain ⟨hsame, c, hc, hthere, hcells⟩ := cell?_of_storeWord hlow
    obtain ⟨hsame', c', hc', hthere', hcells'⟩ := cell?_of_storeWord (hrest.symm.trans h)
    rw [hsame, cellOf?_next hhigh, hc] at hc'
    obtain rfl := Option.some.inj hc'
    rw [hcells, if_neg c.next_ne] at hthere'
    obtain ⟨lo, hlo⟩ := Option.isSome_iff_exists.mp hthere
    obtain ⟨hi, hhi⟩ := Option.isSome_iff_exists.mp hthere'
    refine ⟨hsame'.trans hsame, c, hc, ?_, fun d => by rw [hcells', hcells]⟩
    have hfst : load? m a = some lo := by rw [load?_eq_cell?, hc]; exact hlo
    have hsnd : load? m high = some hi := by rw [load?_eq_cell?, cellOf?_next hhigh, hc]; exact hhi
    simp [load64?, hhigh, hfst, hsnd]

/-- A store of two words succeeds if both can be read. It then changes these two only and they are
read back. If it faults, it has changed nothing, unless there is a first word and an address after
it: then the second word is missing, and the first one has its half of the value. -/
theorem storeWord64_whole_or_first (a : Address) (v : UInt64) (m : Machine) :
    ((∃ m', storeWord64 a v m = .ok () m') ↔ (load64? m a).isSome = true) ∧
    (∀ m', storeWord64 a v m = .ok () m' →
      loadWord64 a m' = .ok v m' ∧ ∃ c, m.cellOf? a = some c ∧ ∀ d,
        d ≠ c → d ≠ c.next → m'.cell? d = m.cell? d) ∧
    ∀ stop m', storeWord64 a v m = .error stop m' →
      stop = .cause .nullPointer ∧
      if (load? m a).isSome = true ∧ (a.addWords? 1).isSome = true then
        ∃ c, m.cellOf? a = some c ∧ m.cell? c.next = none ∧
          ∀ d, m'.cell? d = if d = c then some (lowWord v) else m.cell? d
      else m' = m := by
  refine ⟨⟨?_, ?_⟩, ?_, ?_⟩
  · rintro ⟨m', hstore⟩
    obtain ⟨-, c, -, hread, -⟩ := cells_of_storeWord64 hstore
    exact hread
  · intro hread
    obtain ⟨w, hw⟩ := Option.isSome_iff_exists.mp hread
    exact storeWord64_of_load64? hw v
  · intro m' hstore
    obtain ⟨-, c, hc, -, hcells⟩ := cells_of_storeWord64 hstore
    refine ⟨loadWord64_of_load64? (load64?_of_storeWord64 hstore), c, hc, fun d hfirst hsecond => ?_⟩
    rw [hcells, if_neg hsecond, if_neg hfirst]
  · intro stop m' hstore
    obtain ⟨hmissing, hfault⟩ | ⟨high, m1, hhigh, hlow, hrest⟩ := storeWord64_cases a v m
    · rw [hfault] at hstore
      cases hstore
      exact ⟨rfl, by rw [if_neg hmissing]⟩
    · obtain ⟨hsame, c, hc, hthere, hcells⟩ := cell?_of_storeWord hlow
      have hload : (load? m a).isSome = true := by rw [load?_eq_cell?, hc]; exact hthere
      rw [if_pos ⟨hload, by rw [hhigh]; rfl⟩]
      rw [hrest] at hstore
      cases hnext : load? m1 high with
      | some w =>
        obtain ⟨m2, hok⟩ := storeWord_of_load? hnext (highWord v)
        rw [hok] at hstore
        cases hstore
      | none =>
        rw [storeWord_of_none hnext] at hstore
        cases hstore
        rw [load?_eq_cell?, hsame, cellOf?_next hhigh, hc] at hnext
        have hnone : m'.cell? c.next = none := hnext
        rw [hcells, if_neg c.next_ne] at hnone
        exact ⟨rfl, c, hc, hnone, hcells⟩

/-- One module, with zeros for globals. The register has the address of the first of them, and there
is a variable of two words. -/
def globalsOf (words : Nat) : Machine where
  engine := { modules := #[some { id := ⟨1⟩, name := "main", store := Array.replicate words 0 }],
              live := [⟨1⟩] }
  ctx :=
    { stack := (Stack.reset {} 2).set64 {} 0x600000005, fp := { offset := 2 },
      register := (Address.global ⟨1⟩ 0).bits }

/-- A value of two words takes the first two of three globals. -/
theorem storeWord64_whole_or_first_three :
    ∃ m', storeWord64 (.global ⟨1⟩ 0) 0x600000005 (globalsOf 3) = .ok () m' ∧
      loadWord64 (.global ⟨1⟩ 0) m' = .ok 0x600000005 m' ∧
      m'.cell? (.global ⟨1⟩ 2) = some 0 ∧ m'.cell? (.stack 0 0) = some 5 := by
  obtain ⟨hsucceeds, hwhole, -⟩ :=
    storeWord64_whole_or_first (.global ⟨1⟩ 0) 0x600000005 (globalsOf 3)
  obtain ⟨m', hstore⟩ := hsucceeds.mpr (by decide +kernel)
  obtain ⟨hread, c, hc, hkept⟩ := hwhole m' hstore
  have hcell : (globalsOf 3).cellOf? (.global ⟨1⟩ 0) = some (.global ⟨1⟩ 0) := by decide +kernel
  rw [hcell] at hc
  obtain rfl := Option.some.inj hc
  refine ⟨m', hstore, hread, ?_, ?_⟩
  · rw [hkept _ (by decide) (by decide)]
    decide +kernel
  · rw [hkept _ (by decide) (by decide)]
    decide +kernel

/-- A script that writes two words to the last global faults, and the global has changed. -/
theorem write_last_global_half : exec (fun _ _ => pure 0) (.write .qword 2) (globalsOf 1) =
        .error (.cause .nullPointer)
          (after (exec (fun _ _ => pure 0) (.write .qword 2)) (globalsOf 1)) ∧
      (globalsOf 1).cell? (.global ⟨1⟩ 0) = some 0 ∧
      (after (exec (fun _ _ => pure 0) (.write .qword 2)) (globalsOf 1)).cell? (.global ⟨1⟩ 0) =
        some 5 := by
  refine ⟨error_of_cause (by decide +kernel), by decide +kernel, by decide +kernel⟩

end Exec
end ScriptVm
