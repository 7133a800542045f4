import Mathlib.Data.List.Induction
import Mathlib.Data.List.Nodup
import Mathlib.Data.List.TakeWhile
import ScriptVm.Func.Lines

namespace ScriptVm

section Prefix

variable {α : Type} {test : α → Bool} {xs : List α}
    (h : xs.Pairwise fun a b => test b = true → test a = true)

include h

/-- A test that only holds at the beginning of a list. -/
theorem takeWhile_eq_filter : xs.takeWhile test = xs.filter test := by
  induction xs with
  | nil => rfl
  | cons a xs ih =>
    obtain ⟨hfst, hrest⟩ := List.pairwise_cons.mp h
    by_cases ha : test a = true
    · rw [List.takeWhile_cons_of_pos ha, List.filter_cons_of_pos ha, ih hrest]
    · have hnone : xs.filter test = [] :=
        List.filter_eq_nil_iff.mpr fun b hb htest => ha (hfst b hb htest)
      rw [List.takeWhile_cons_of_neg ha, List.filter_cons_of_neg ha, hnone]

theorem not_of_mem_dropWhile {x : α} (hx : x ∈ xs.dropWhile test) : test x ≠ true := by
  induction xs with
  | nil => cases hx
  | cons a xs ih =>
    obtain ⟨hfst, hrest⟩ := List.pairwise_cons.mp h
    by_cases ha : test a = true
    · rw [List.dropWhile_cons_of_pos ha] at hx
      exact ih hrest hx
    · rw [List.dropWhile_cons_of_neg ha] at hx
      obtain rfl | hx := List.mem_cons.mp hx
      · exact ha
      · exact fun htest => ha (hfst x hx htest)

end Prefix

namespace LineEntry

/-- A position as it is kept, the instruction as a word. -/
def of (position : Nat × UInt32 × UInt32) : LineEntry :=
  { pc := position.1.toUInt32, line := position.2.1, column := position.2.2 }

/-- The entry that tells the position of an instruction, of those that were added: it is not after
the instruction, those added before it are not nearer to the instruction, and those added later are
not as near. -/
def Governs (e : LineEntry) (added : List LineEntry) (pc : Nat) : Prop :=
  ∃ earlier later, added = earlier ++ e :: later ∧ e.pc.toNat ≤ pc ∧
    (∀ x ∈ earlier, x.pc.toNat ≤ pc → x.pc ≤ e.pc) ∧ ∀ x ∈ later, x.pc.toNat ≤ pc → x.pc < e.pc

variable {e new : LineEntry} {added : List LineEntry} {pc : Nat}

/-- A new entry takes over if it is not after the instruction and no other one lies between them. -/
theorem governs_concat_iff : e.Governs (added ++ [new]) pc ↔
    (new.pc.toNat ≤ pc ∧ ∀ x ∈ added, x.pc.toNat ≤ pc → x.pc ≤ new.pc) ∧ e = new ∨
      (new.pc.toNat ≤ pc → new.pc < e.pc) ∧ e.Governs added pc := by
  constructor
  · rintro ⟨earlier, later, hadded, hpc, hearlier, hlater⟩
    obtain rfl | ⟨later, last, rfl⟩ := List.eq_nil_or_concat' later
    · obtain ⟨rfl, hlast⟩ := List.append_inj' hadded rfl
      cases hlast
      exact .inl ⟨⟨hpc, hearlier⟩, rfl⟩
    · rw [← List.cons_append, ← List.append_assoc] at hadded
      obtain ⟨rfl, hlast⟩ := List.append_inj' hadded rfl
      cases hlast
      exact .inr ⟨hlater new (by simp), earlier, later, rfl, hpc, hearlier,
        fun x hx => hlater x (by simp [hx])⟩
  · rintro (⟨⟨hpc, hoth⟩, rfl⟩ | ⟨hnew, earlier, later, rfl, hpc, hearlier, hlater⟩)
    · exact ⟨added, [], rfl, hpc, hoth, fun x hx => absurd hx List.not_mem_nil⟩
    · refine ⟨earlier, later ++ [new], by simp, hpc, hearlier, fun x hx => ?_⟩
      obtain hx | hx := List.mem_append.mp hx
      · exact hlater x hx
      · rw [List.mem_singleton.mp hx]
        exact hnew

end LineEntry

namespace LineTable

/-- The entries are in the order of their instructions. -/
def Sorted (t : LineTable) : Prop := t.entries.Pairwise fun a b => a.pc ≤ b.pc

/-- The last entry that is not after an instruction. -/
def entryAt? (t : LineTable) (pc : Nat) : Option LineEntry :=
  (t.entries.takeWhile (·.pc.toNat ≤ pc)).getLast?

variable {t : LineTable}

theorem find?_eq (t : LineTable) (pc : Nat) :
    t.find? pc = (t.entryAt? pc).map fun e => (e.line, e.column) := rfl

theorem entryAt?_eq (h : t.Sorted) (pc : Nat) :
    t.entryAt? pc = (t.entries.filter (·.pc.toNat ≤ pc)).getLast? := by
  rw [entryAt?, takeWhile_eq_filter]
  refine h.imp fun hab hb => decide_eq_true ?_
  exact Nat.le_trans (UInt32.le_iff_toNat_le.mp hab) (of_decide_eq_true hb)

theorem perm_add (t : LineTable) (pc : Nat) (line column : UInt32) :
    (t.add pc line column).entries.Perm (.of (pc, line, column) :: t.entries) := by
  refine List.perm_middle.trans ?_
  rw [List.takeWhile_append_dropWhile]
  exact .refl _

section Add

variable (h : t.Sorted) (pc : Nat) (line column : UInt32)

include h

/-- A new entry stands between those that are not after it and those that are. -/
theorem exists_split_add : ∃ before after, t.entries = before ++ after ∧
    (t.add pc line column).entries = before ++ .of (pc, line, column) :: after ∧
    (∀ x ∈ before, x.pc ≤ pc.toUInt32) ∧ ∀ x ∈ after, pc.toUInt32 < x.pc := by
  refine ⟨_, _, List.takeWhile_append_dropWhile.symm, rfl, fun x hx => ?_, fun x hx => ?_⟩
  · have hle := List.mem_takeWhile_imp hx
    exact of_decide_eq_true hle
  · have hprefix : t.entries.Pairwise fun a b => decide (b.pc ≤ pc.toUInt32) = true →
        decide (a.pc ≤ pc.toUInt32) = true :=
      h.imp fun hab hb => decide_eq_true (UInt32.le_trans hab (of_decide_eq_true hb))
    have hnot := not_of_mem_dropWhile hprefix hx
    exact UInt32.not_le.mp fun hle => hnot (decide_eq_true hle)

theorem sorted_add : (t.add pc line column).Sorted := by
  obtain ⟨before, after, hsplit, hadd, hbef, hafter⟩ := exists_split_add h pc line column
  unfold Sorted at h ⊢
  rw [hsplit, List.pairwise_append] at h
  obtain ⟨hfst, hlast, hacross⟩ := h
  rw [hadd]
  refine List.pairwise_append.mpr ⟨hfst, List.pairwise_cons.mpr ⟨fun x hx => ?_, hlast⟩,
    fun x hx y hy => ?_⟩
  · exact UInt32.le_of_lt (hafter x hx)
  · obtain rfl | hy := List.mem_cons.mp hy
    · exact hbef x hx
    · exact hacross x hx y hy

theorem entryAt?_add_iff {k : Nat} {e : LineEntry} : (t.add pc line column).entryAt? k = some e ↔
    (pc.toUInt32.toNat ≤ k ∧ ∀ x ∈ t.entries, x.pc.toNat ≤ k → x.pc ≤ pc.toUInt32) ∧
      e = .of (pc, line, column) ∨
      (pc.toUInt32.toNat ≤ k → pc.toUInt32 < e.pc) ∧ t.entryAt? k = some e := by
  obtain ⟨before, after, hsplit, hadd, hbef, hafter⟩ := exists_split_add h pc line column
  rw [entryAt?_eq (sorted_add h pc line column), entryAt?_eq h, hadd, hsplit, List.filter_append,
    List.filter_append,
    List.getLast?_append, List.filter_cons]
  by_cases hnew : pc.toUInt32.toNat ≤ k
  · have hpass : decide ((LineEntry.of (pc, line, column)).pc.toNat ≤ k) = true :=
      decide_eq_true hnew
    rw [if_pos hpass, List.getLast?_cons, Option.some_or, List.getLast?_append]
    cases hlast : (after.filter (·.pc.toNat ≤ k)).getLast? with
    | none =>
      -- No entry lies between the new one and the instruction.
      have hnone : ∀ x ∈ after, ¬ x.pc.toNat ≤ k := by simpa using List.getLast?_eq_none_iff.mp hlast
      have hnext : ∀ x ∈ before ++ after, x.pc.toNat ≤ k → x.pc ≤ pc.toUInt32 := by
        intro x hx hk
        obtain hx | hx := List.mem_append.mp hx
        · exact hbef x hx
        · exact absurd hk (hnone x hx)
      rw [Option.getD_none, Option.none_or, Option.some_inj]
      refine ⟨fun he => .inl ⟨⟨hnew, hnext⟩, he.symm⟩, ?_⟩
      rintro (⟨-, rfl⟩ | ⟨hlt, he⟩)
      · rfl
      · have hmem := (List.mem_filter.mp (List.mem_of_getLast? he)).1
        exact absurd (hbef e hmem) (UInt32.not_le.mpr (hlt hnew))
    | some last =>
      obtain ⟨hmem, hk⟩ := List.mem_filter.mp (List.mem_of_getLast? hlast)
      have hlt := hafter last hmem
      rw [Option.getD_some, Option.some_or, Option.some_inj]
      refine ⟨fun he => .inr ⟨fun _ => he ▸ hlt, he⟩, ?_⟩
      rintro (⟨⟨-, hnext⟩, -⟩ | ⟨-, he⟩)
      · have hle := hnext last (List.mem_append_right _ hmem) (of_decide_eq_true hk)
        exact absurd hlt (UInt32.not_lt.mpr hle)
      · exact he
  · have hfail : ¬ decide ((LineEntry.of (pc, line, column)).pc.toNat ≤ k) = true :=
      fun hk => hnew (of_decide_eq_true hk)
    rw [if_neg hfail, List.getLast?_append]
    exact ⟨fun he => .inr ⟨fun hk => absurd hk hnew, he⟩,
      fun he => he.elim (fun hk => absurd hk.1.1 hnew) And.right⟩

end Add

section

variable (added : List (Nat × UInt32 × UInt32))

theorem ofList_concat (position : Nat × UInt32 × UInt32) :
    ofList (added ++ [position]) = (ofList added).add position.1 position.2.1 position.2.2 := by
  rw [ofList, List.foldl_append]
  rfl

theorem sorted_ofList : (ofList added).Sorted := by
  induction added using List.reverseRecOn with
  | nil => exact .nil
  | append_singleton added position ih =>
    rw [ofList_concat]
    exact sorted_add ih ..

theorem perm_ofList : (ofList added).entries.Perm (added.map .of) := by
  induction added using List.reverseRecOn with
  | nil => exact .nil
  | append_singleton added position ih =>
    rw [ofList_concat, List.map_append, List.map_singleton]
    refine (perm_add ..).trans ?_
    exact (ih.cons _).trans (List.perm_append_singleton ..).symm

theorem entryAt?_ofList_iff {pc : Nat} {e : LineEntry} :
    (ofList added).entryAt? pc = some e ↔ e.Governs (added.map .of) pc := by
  induction added using List.reverseRecOn with
  | nil =>
    constructor
    · intro h
      cases h
    · rintro ⟨earlier, later, hnil, -⟩
      simp at hnil
  | append_singleton added position ih =>
    have hmem (x : LineEntry) : x ∈ (ofList added).entries ↔ x ∈ added.map .of :=
      (perm_ofList added).mem_iff
    rw [ofList_concat, List.map_append, List.map_singleton, entryAt?_add_iff (sorted_ofList added),
      LineEntry.governs_concat_iff, ih]
    simp only [hmem]
    exact .rfl

theorem find?_ofList_eq_none_iff {pc : Nat} :
    (ofList added).find? pc = none ↔ ∀ position ∈ added, pc < position.1.toUInt32.toNat := by
  have hmem (x : LineEntry) : x ∈ (ofList added).entries ↔ x ∈ added.map .of :=
    (perm_ofList added).mem_iff
  rw [find?_eq, Option.map_eq_none_iff, entryAt?_eq (sorted_ofList added),
    List.getLast?_eq_none_iff, List.filter_eq_nil_iff]
  simp only [hmem, List.forall_mem_map, decide_eq_true_eq, Nat.not_le]
  exact .rfl

end

/-- Entries of different instructions have one order. -/
theorem ofList_perm {added other : List (Nat × UInt32 × UInt32)} (hperm : other.Perm added)
    (hnodup : (added.map (·.1.toUInt32)).Nodup) : ofList other = ofList added := by
  have hentries : (ofList other).entries.Perm (ofList added).entries :=
    (perm_ofList other).trans ((hperm.map _).trans (perm_ofList added).symm)
  have hkeys : ((ofList added).entries.map LineEntry.pc).Nodup := by
    have hpcs := (perm_ofList added).map LineEntry.pc
    rw [List.map_map] at hpcs
    exact hpcs.nodup_iff.mpr hnodup
  have hsame := hentries.eq_of_pairwise (fun a b ha hb hab hba => ?_) (sorted_ofList other)
    (sorted_ofList added)
  · exact congrArg LineTable.mk hsame
  · exact List.inj_on_of_nodup_map hkeys (hentries.mem_iff.mp ha) hb (UInt32.le_antisymm hab hba)

/-- Whatever is added and in whichever order, the table holds exactly that, sorted by instruction;
the position of an instruction is that of the entry added last of those that are next before it or
at it, and there is none exactly if all are after it. For different instructions the order of adding
does not matter. -/
theorem lookup_any_order (added : List (Nat × UInt32 × UInt32)) :
    (ofList added).entries.Pairwise (fun a b => a.pc ≤ b.pc) ∧
      (ofList added).entries.Perm (added.map .of) ∧
      (∀ pc line column, (ofList added).find? pc = some (line, column) ↔
        ∃ e : LineEntry, e.Governs (added.map .of) pc ∧ e.line = line ∧ e.column = column) ∧
      (∀ pc, (ofList added).find? pc = none ↔ ∀ position ∈ added, pc < position.1.toUInt32.toNat) ∧
      ((added.map (·.1.toUInt32)).Nodup → ∀ other,
        other.Perm added → ofList other = ofList added) := by
  refine ⟨sorted_ofList added, perm_ofList added, fun pc line column => ?_,
    fun pc => find?_ofList_eq_none_iff added,
    fun hnodup other hperm => ofList_perm hperm hnodup⟩
  rw [find?_eq, Option.map_eq_some_iff]
  simp only [entryAt?_ofList_iff, Prod.mk.injEq]

/-- The last of the positions is cut to instruction 2, and takes the place of the one that was
there. -/
theorem lookup_any_order_cut :
    (([(4, 12, 5), (0, 10, 1), (2, 11, 1)] : List (Nat × UInt32 × UInt32)).map (·.1.toUInt32)).Nodup ∧
      ofList [(0, 10, 1), (2, 11, 1), (4, 12, 5)] = ofList [(4, 12, 5), (0, 10, 1), (2, 11, 1)] ∧
      (ofList [(4, 12, 5), (0, 10, 1), (2, 11, 1)]).find? 3 = some (11, 1) ∧
      (ofList [(4, 12, 5), (1, 10, 1), (2, 11, 1), (4294967298, 13, 7)]).find? 3 = some (13, 7) ∧
      (ofList [(4, 12, 5), (1, 10, 1), (2, 11, 1), (4294967298, 13, 7)]).find? 0 = none := by
  have hnodup : (([(4, 12, 5), (0, 10, 1), (2, 11, 1)] : List (Nat × UInt32 × UInt32)).map
      (·.1.toUInt32)).Nodup := by decide
  obtain ⟨-, -, -, -, hsame⟩ := lookup_any_order [(4, 12, 5), (0, 10, 1), (2, 11, 1)]
  obtain ⟨-, -, hfound, hnone, -⟩ :=
    lookup_any_order [(4, 12, 5), (1, 10, 1), (2, 11, 1), (4294967298, 13, 7)]
  refine ⟨hnodup, hsame hnodup _ (by decide), by decide,
    (hfound 3 13 7).mpr ⟨⟨2, 13, 7⟩, ?_, rfl, rfl⟩, (hnone 0).mpr (by decide)⟩
  exact ⟨[⟨4, 12, 5⟩, ⟨1, 10, 1⟩, ⟨2, 11, 1⟩], [], by decide, by decide, by decide, by decide⟩

end LineTable
end ScriptVm
