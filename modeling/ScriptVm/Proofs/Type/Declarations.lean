import Mathlib.Data.List.Basic
import ScriptVm.Type.Registry

namespace ScriptVm

namespace Text

def Blank (cs : List Char) : Prop := ∀ c ∈ cs, isBlank c = true

/-- The last character is neither a blank nor one of the marks. -/
def Ends (marks cs : List Char) : Prop := ∃ d ∈ cs.getLast?, isBlank d = false ∧ d ∉ marks

/-- The text of a name: no blank at its ends, no mark at its end, and no `const ` at its
beginning. -/
structure Word (cs : List Char) : Prop where
  first : ∃ c ∈ cs.head?, isBlank c = false
  last : Ends ['@', '&'] cs
  const : ¬ "const ".toList <+: cs

variable {cs ws marks : List Char} {mark : Char}

theorem blank_nil : Blank [] := fun _ hc => absurd hc List.not_mem_nil

theorem trimEnd_append_blank (h : Blank ws) (cs : List Char) : trimEnd (cs ++ ws) = trimEnd cs := by
  rw [trimEnd, List.reverse_append, List.dropWhile_append_of_pos, trimEnd]
  intro c hc
  exact h c (List.mem_reverse.mp hc)

theorem Ends.trimEnd (h : Ends marks cs) : trimEnd cs = cs := by
  obtain ⟨d, hd, hblank, -⟩ := h
  obtain ⟨rest, rfl⟩ := List.getLast?_eq_some_iff.mp hd
  simp [Text.trimEnd, hblank]

theorem Ends.append (h : Ends marks cs) (front : List Char) : Ends marks (front ++ cs) := by
  obtain ⟨d, hd, hlast⟩ := h
  obtain ⟨rest, rfl⟩ := List.getLast?_eq_some_iff.mp hd
  exact ⟨d, by simp, hlast⟩

theorem Ends.marked (h : Ends (mark :: marks) cs) (hblank : isBlank mark = false)
    (hmarks : mark ∉ marks) (ws : List Char) (marked : Bool) :
    Ends marks (cs ++ if marked then ws ++ [mark] else []) := by
  cases marked with
  | true => exact ⟨mark, by simp, hblank, hmarks⟩
  | false =>
    obtain ⟨d, hd, hlast, hnot⟩ := h
    exact ⟨d, by simpa using hd, hlast, fun hmem => hnot (List.mem_cons_of_mem _ hmem)⟩

/-- A mark is found exactly if it was put there. -/
theorem Ends.stripMark (h : Ends (mark :: marks) cs) (hws : Blank ws) (marked : Bool) :
    stripMark mark (cs ++ if marked then ws ++ [mark] else []) = (marked, cs) := by
  cases marked with
  | true =>
    have hdrop : dropLast? mark (cs ++ (ws ++ [mark])) = some (cs ++ ws) := by simp [dropLast?]
    simp [Text.stripMark, hdrop, trimEnd_append_blank hws, h.trimEnd]
  | false =>
    obtain ⟨d, hd, -, hnot⟩ := h
    obtain ⟨rest, rfl⟩ := List.getLast?_eq_some_iff.mp hd
    have hdrop : dropLast? mark (rest ++ [d]) = none := by
      have hne : d ≠ mark := fun he => hnot (he ▸ List.mem_cons_self)
      simp [dropLast?, hne]
    simp [Text.stripMark, hdrop]

/-- A text with blanks around it. -/
theorem trim_spaced (hfst : ∃ c ∈ cs.head?, isBlank c = false) (hlast : Ends marks cs)
    {before behind : List Char} (hbef : Blank before) (hbehind : Blank behind) :
    trim (before ++ cs ++ behind) = cs := by
  have hstart : trimStart (before ++ cs ++ behind) = cs ++ behind := by
    obtain ⟨c, hc, hblank⟩ := hfst
    obtain ⟨rest, rfl⟩ := List.head?_eq_some_iff.mp hc
    rw [trimStart, List.append_assoc, List.dropWhile_append_of_pos hbef]
    exact List.dropWhile_cons_of_neg (by simp [hblank])
  rw [trim, hstart, trimEnd_append_blank hbehind, hlast.trimEnd]

end Text

/-- Blanks in a declaration: around the whole and before the marks, and those after `const ` if it
stands before the name. -/
structure Spacing where
  before : List Char := []
  const : Option (List Char) := none
  handle : List Char := []
  reference : List Char := []
  behind : List Char := []

namespace Spacing

structure Blank (s : Spacing) : Prop where
  before : Text.Blank s.before
  const : ∀ ws ∈ s.const, Text.Blank ws
  handle : Text.Blank s.handle
  reference : Text.Blank s.reference
  behind : Text.Blank s.behind

/-- The name, after `const ` if it stands there. -/
def qualified (s : Spacing) (name : List Char) : List Char :=
  match s.const with
  | some ws => "const ".toList ++ (ws ++ name)
  | none => name

/-- A declaration with these blanks. -/
def spell (s : Spacing) (name : String) (handle reference : Bool) : String :=
  String.ofList (s.before ++ (s.qualified name.toList ++ (if handle then s.handle ++ ['@'] else []) ++
    if reference then s.reference ++ ['&'] else []) ++ s.behind)

variable {s : Spacing} {name : List Char}

theorem first_qualified (s : Spacing) (h : Text.Word name) (rest : List Char) :
    ∃ c ∈ (s.qualified name ++ rest).head?, Text.isBlank c = false := by
  unfold qualified
  cases s.const with
  | some ws => exact ⟨'c', rfl, rfl⟩
  | none =>
    obtain ⟨c, hc, hblank⟩ := h.first
    obtain ⟨tail, rfl⟩ := List.head?_eq_some_iff.mp hc
    exact ⟨c, rfl, hblank⟩

theorem ends_qualified (s : Spacing) (h : Text.Word name) :
    Text.Ends ['@', '&'] (s.qualified name) := by
  unfold qualified
  cases s.const with
  | some ws => exact (h.last.append ws).append _
  | none => exact h.last

theorem name_of_qualified (hs : s.Blank) (h : Text.Word name) :
    Text.trim (("const ".toList.isPrefixOf? (s.qualified name)).getD (s.qualified name)) = name := by
  have htrim {ws : List Char} (hws : Text.Blank ws) : Text.trim (ws ++ name) = name := by
    have hspaced := Text.trim_spaced h.first h.last hws Text.blank_nil
    rwa [List.append_nil] at hspaced
  unfold qualified
  cases hconst : s.const with
  | some ws =>
    have hafter :
        "const ".toList.isPrefixOf? ("const ".toList ++ (ws ++ name)) = some (ws ++ name) := by simp
    dsimp only
    rw [hafter]
    exact htrim (hs.const ws hconst)
  | none =>
    have hnone : "const ".toList.isPrefixOf? name = none :=
      Option.eq_none_iff_forall_not_mem.mpr fun rest hrest => h.const ⟨rest, by simpa using hrest⟩
    dsimp only
    rw [hnone]
    exact htrim Text.blank_nil

end Spacing

/-- However a declaration is spaced, its name and marks are found. -/
theorem DataType.read?_spell {s : Spacing} (hs : s.Blank) {name : String}
    (hname : Text.Word name.toList) (handle reference : Bool) (resolve : String → Option TypeId) :
    read? resolve (s.spell name handle reference) = ofName? resolve name handle reference := by
  have hends := s.ends_qualified hname
  have hmarked := hends.marked (by decide) (by decide) s.handle handle
  have hwhole := hmarked.marked (by decide) (by decide) s.reference reference
  have hreference := hmarked.stripMark hs.reference reference
  have hhdl := hends.stripMark hs.handle handle
  have hfst := s.first_qualified hname
    ((if handle then s.handle ++ ['@'] else []) ++ if reference then s.reference ++ ['&'] else [])
  rw [← List.append_assoc] at hfst
  unfold read? Spacing.spell
  rw [String.toList_ofList, Text.trim_spaced hfst hwhole hs.before hs.behind, hreference]
  dsimp only
  rw [hhdl]
  dsimp only
  rw [Spacing.name_of_qualified hs hname, String.ofList_toList]

/-- A name that types can be declared by. -/
structure Nameable (name : String) : Prop extends Text.Word name.toList where
  keyword : Primitive.ofKeyword? name = none

namespace Primitive

theorem ofKeyword?_keyword (p : Primitive) : ofKeyword? p.keyword = some p := by
  cases p <;> rfl

theorem word_keyword (p : Primitive) : Text.Word p.keyword.toList := by
  cases p <;> exact ⟨⟨_, rfl, by decide⟩, ⟨_, rfl, by decide⟩, by decide⟩

end Primitive

namespace Registry

/-- What registrations lead to. -/
inductive Filled : Registry → Prop where
  | empty : Filled {}
  | register {r r' : Registry} {t : ObjectType} {id : TypeId} (h : Filled r)
      (hr : r.register? t = some (id, r')) : Filled r'

/-- A primitive that is no handle, or a type that is registered. -/
def Covers (r : Registry) (t : DataType) : Prop :=
  match t.kind with
  | .primitive _ => t.handle = false
  | .object id => (r.get? id).isSome = true

variable {r : Registry} {id : TypeId} {t : ObjectType}

/-- Types have the ids of their places, and are found by their names. -/
theorem Filled.numbered (h : r.Filled) {i : Nat} (ht : r.types[i]? = some t) :
    t.id = ⟨(i + 1).toUInt32⟩ ∧ r.find? t.name = some t.id := by
  induction h with
  | empty => simp at ht
  | @register r r' new id h hr ih =>
    unfold register? at hr
    split at hr
    · cases hr
    · rename_i hnone
      cases hr
      have hfree : (r.types.find? fun x => x.name == new.name) = none := by simpa [find?] using hnone
      rw [Array.getElem?_push] at ht
      split at ht
      · rename_i hi
        cases ht
        exact ⟨by rw [hi], by simp [find?, Array.find?_push, hfree]⟩
      · obtain ⟨hid, hfind⟩ := ih ht
        refine ⟨hid, ?_⟩
        obtain ⟨x, hx, hxid⟩ := Option.map_eq_some_iff.mp hfind
        exact Option.map_eq_some_iff.mpr ⟨x, by simp [Array.find?_push, hx], hxid⟩

theorem Filled.find?_of_get? (h : r.Filled) (ht : r.get? id = some t) :
    r.find? t.name = some id ∧ t ∈ r.types := by
  unfold get? at ht
  split at ht
  · cases ht
  · rename_i hid
    obtain ⟨hpl, hfind⟩ := h.numbered ht
    have hpos : id.val.toNat ≠ 0 := fun hzero => hid (UInt32.toNat_inj.mp hzero)
    refine ⟨?_, Array.mem_of_getElem? ht⟩
    rw [hfind, hpl, Nat.sub_add_cancel (by omega), Nat.toUInt32_eq, UInt32.ofNat_toNat]

/-- A type is written without blanks. -/
theorem typeName_eq_spell (r : Registry) (t : DataType) :
    r.typeName t = ({} : Spacing).spell (r.typeName { kind := t.kind }) t.handle t.reference := by
  obtain ⟨kind, handle, reference⟩ := t
  apply String.toList_injective
  cases kind <;> cases handle <;> cases reference <;>
    simp [typeName, DataType.declaration, DataType.marks, Spacing.spell, Spacing.qualified]

/-- The name that a type is declared by, and what it stands for. -/
theorem Covers.name {t : DataType} (h : r.Covers t) (hr : r.Filled)
    (hnames : ∀ t ∈ r.types, Nameable t.name) : Text.Word (r.typeName { kind := t.kind }).toList ∧
      DataType.ofName? r.find? (r.typeName { kind := t.kind }) t.handle t.reference = some t := by
  obtain ⟨kind, handle, reference⟩ := t
  cases kind with
  | primitive p =>
    obtain rfl : handle = false := h
    have hname : r.typeName { kind := .primitive p } = p.keyword := String.append_empty
    rw [hname]
    exact ⟨p.word_keyword, by simp [DataType.ofName?, p.ofKeyword?_keyword]⟩
  | object id =>
    obtain ⟨o, ho⟩ := Option.isSome_iff_exists.mp h
    have hname : r.typeName { kind := .object id } = o.name := by
      simp only [typeName, DataType.declaration, ho, Option.map_some, Option.getD_some]
      exact String.append_empty
    obtain ⟨hfind, hmem⟩ := hr.find?_of_get? ho
    obtain ⟨hword, hkw⟩ := hnames o hmem
    rw [hname]
    exact ⟨hword, by simp [DataType.ofName?, hkw, hfind]⟩

/-- In a registry whose names can be declared, the text of a type is read back, and so is every
spelling of it: with blanks around it and before its marks, and with `const ` before the name. -/
theorem declared_reads_back (hr : r.Filled) (hnames : ∀ t ∈ r.types, Nameable t.name) {t : DataType}
    (ht : r.Covers t) : r.readType? (r.typeName t) = some t ∧
      ∀ s : Spacing, s.Blank →
        r.readType? (s.spell (r.typeName { kind := t.kind }) t.handle t.reference) = some t := by
  obtain ⟨hword, hname⟩ := ht.name hr hnames
  have hspell (s : Spacing) (hs : s.Blank) :
      r.readType? (s.spell (r.typeName { kind := t.kind }) t.handle t.reference) = some t :=
    (DataType.read?_spell hs hword t.handle t.reference r.find?).trans hname
  refine ⟨?_, hspell⟩
  rw [typeName_eq_spell]
  exact hspell {} (by constructor <;> simp [Text.Blank])

/-- A handle reference to a type whose name has a blank and a mark inside it. -/
theorem declared_reads_back_const :
    let r : Registry := ⟨#[{ id := ⟨1⟩, name := "a @b" }]⟩
    let t : DataType := { kind := .object ⟨1⟩, handle := true, reference := true }
    r.readType? (r.typeName t) = some t ∧ r.readType? " const  a @b @\t& " = some t := by
  intro r t
  have hr : r.Filled := .register (t := { name := "a @b" }) .empty rfl
  have hnames : ∀ t ∈ r.types, Nameable t.name := by
    simp only [r, Array.mem_def, List.mem_singleton, forall_eq]
    exact ⟨⟨⟨_, rfl, by decide⟩, ⟨_, rfl, by decide⟩, by decide⟩, rfl⟩
  let s : Spacing :=
    { before := [' '], const := some [' '], handle := [' '], reference := ['\t'], behind := [' '] }
  have hs : s.Blank := by constructor <;> simp [s, Text.Blank] <;> decide
  have htext : s.spell (r.typeName { kind := t.kind }) t.handle t.reference =
      " const  a @b @\t& " := by decide
  obtain ⟨hread, hspell⟩ := declared_reads_back hr hnames (t := t) rfl
  exact ⟨hread, htext ▸ hspell s hs⟩

end Registry
end ScriptVm
