import ScriptVm.Proofs.Memory.Places

namespace ScriptVm.Stack

variable {s t : Stack}

/-- What does not change when words are written: the sizes of the blocks, what they come from, and
the limit. -/
def layout (s : Stack) : Array Nat × UInt32 × UInt32 := (s.blocks.map Words.size, s.base, s.limit)

theorem blocks_size_of_layout (h : t.layout = s.layout) : t.blocks.size = s.blocks.size := by
  have hsizes : (t.blocks.map Words.size).size = (s.blocks.map Words.size).size :=
    congrArg (fun l => l.1.size) h
  simpa using hsizes

theorem blockSize_of_layout (h : t.layout = s.layout) (i : Nat) : t.blockSize i = s.blockSize i := by
  have hsizes : (t.blocks.map Words.size)[i]? = (s.blocks.map Words.size)[i]? :=
    congrArg (fun l => l.1[i]?) h
  simp only [Array.getElem?_map] at hsizes
  rw [blockSize, hsizes, blockSize]

theorem base_of_layout (h : t.layout = s.layout) : t.base = s.base := congrArg (fun l => l.2.1) h

theorem limit_of_layout (h : t.layout = s.layout) : t.limit = s.limit := congrArg (fun l => l.2.2) h

theorem layout_modify (s : Stack) (block : Nat) {f : Words → Words} (hf : ∀ b, (f b).size = b.size) :
    ({ s with blocks := s.blocks.modify block f } : Stack).layout = s.layout := by
  have hsizes : (s.blocks.modify block f).map Words.size = s.blocks.map Words.size := by
    apply Array.ext_getElem?
    intro j
    simp only [Array.getElem?_map, Array.getElem?_modify]
    split
    · cases s.blocks[j]? with
      | none => rfl
      | some b => simp [hf]
    · rfl
  simp only [layout, hsizes]

@[simp] theorem layout_set (s : Stack) (p : Pointer) (v : UInt32) : (s.set p v).layout = s.layout :=
  s.layout_modify p.block.toNat fun b => b.size_set p.offset.toNat v

@[simp] theorem layout_set64 (s : Stack) (p : Pointer) (v : UInt64) :
    (s.set64 p v).layout = s.layout := by
  rw [set64, layout_set, layout_set]

@[simp] theorem layout_clear (s : Stack) (p : Pointer) (count : Nat) :
    (s.clear p count).layout = s.layout :=
  s.layout_modify p.block.toNat fun b => b.size_clear p.offset.toNat count

theorem layout_copyFrom (s : Stack) (source target : Pointer) (done count : Nat) :
    (s.copyFrom source target done count).2.layout = s.layout := by
  induction count generalizing s done with
  | zero => rfl
  | succ count ih =>
    rw [copyFrom]
    split
    · split
      · rw [ih, layout_set]
      · rfl
    · rfl

theorem layout_copy (s : Stack) (source target : Pointer) (count : Nat) :
    (s.copy source target count).2.layout = s.layout :=
  s.layout_copyFrom source target 0 count

end ScriptVm.Stack
