namespace ScriptVm

/-- Words of memory, all zero at first. They are held in pages, and a word takes no room before it
or one after it in its page is set, so a great range of fresh memory costs nothing. That this is not
seen is `get?_set`: a word that is set is read back, and no other word changes. -/
structure Words where
  size : Nat
  /-- The pages from the first one on. A word that is missing from its page is zero. -/
  pages : Array (Array UInt32) := #[]
  deriving DecidableEq, Inhabited, Repr

namespace Words

abbrev pageSize : Nat := 1024

def zeros (size : Nat) : Words := { size }

def pad {α : Type} (items : Array α) (n : Nat) (x : α) : Array α :=
  if items.size < n then items ++ Array.replicate (n - items.size) x else items

def word (w : Words) (i : Nat) : UInt32 :=
  (w.pages[i / pageSize]?.bind fun page => page[i % pageSize]?).getD 0

def get? (w : Words) (i : Nat) : Option UInt32 := if i < w.size then some (w.word i) else none

def set (w : Words) (i : Nat) (v : UInt32) : Words :=
  if i < w.size then
    { w with
      pages := (pad w.pages (i / pageSize + 1) #[]).modify (i / pageSize) fun page =>
        (pad page (i % pageSize + 1) 0).setIfInBounds (i % pageSize) v }
  else w

def put (w : Words) (i : Nat) : List UInt32 → Words
  | [] => w
  | v :: vs => (w.set i v).put (i + 1) vs

def toList (w : Words) : List UInt32 := (List.range w.size).map w.word

def heldIn (w : Words) (page : Nat) : Nat := (w.pages[page]?.map Array.size).getD 0

def clear (w : Words) (i n : Nat) : Words :=
  if n = 0 ∨ w.pages.size ≤ i / pageSize then w
  else if i % pageSize < w.heldIn (i / pageSize) then (w.set i 0).clear (i + 1) (n - 1)
  else w.clear (i + (pageSize - i % pageSize)) (n - (pageSize - i % pageSize))
termination_by n
decreasing_by
  · omega
  · have := Nat.mod_lt i (show 0 < pageSize by decide)
    omega

private theorem pad_get? {α : Type} (items : Array α) (n : Nat) (x : α) (k : Nat) :
    (pad items n x)[k]? = if k < items.size then items[k]? else if k < n then some x else none := by
  unfold pad
  split
  · rw [Array.getElem?_append]
    split
    · rfl
    · rw [Array.getElem?_replicate]
      by_cases hk : k < n
      · rw [if_pos (by omega), if_pos hk]
      · rw [if_neg (by omega), if_neg hk]
  · split
    · rfl
    · rw [Array.getElem?_eq_none (by omega), if_neg (by omega)]

@[simp] theorem size_zeros (n : Nat) : (zeros n).size = n := rfl

@[simp] theorem get?_zeros (n i : Nat) : (zeros n).get? i = if i < n then some 0 else none := rfl

@[simp] theorem size_set (w : Words) (i : Nat) (v : UInt32) : (w.set i v).size = w.size := by
  unfold set
  split <;> rfl

private theorem pad_getD {α : Type} (items : Array α) (n : Nat) (x : α) (k : Nat) :
    (pad items n x)[k]?.getD x = items[k]?.getD x := by
  rw [pad_get?]
  split
  · rfl
  · rw [Array.getElem?_eq_none (by omega)]
    split <;> rfl

private theorem word_eq (w : Words) (i : Nat) :
    w.word i = ((w.pages[i / pageSize]?.getD #[])[i % pageSize]?).getD 0 := by
  unfold word
  cases w.pages[i / pageSize]? <;> simp

private theorem pad_size_gt {α : Type} (items : Array α) (n : Nat) (x : α) :
    n < (pad items (n + 1) x).size := by
  unfold pad
  split
  · simp
    omega
  · omega

theorem word_set {w : Words} {i : Nat} (h : i < w.size) (v : UInt32) (j : Nat) :
    (w.set i v).word j = if i = j then v else w.word j := by
  rw [word_eq, word_eq, set, if_pos h]
  simp only [Array.getElem?_modify]
  by_cases hp : i / pageSize = j / pageSize
  · have hlt := pad_size_gt w.pages (i / pageSize) #[]
    rw [if_pos hp, ← hp, Array.getElem?_eq_getElem hlt]
    simp only [Option.map_some, Option.getD_some]
    have hpage :
        (pad w.pages (i / pageSize + 1) #[])[i / pageSize] = w.pages[i / pageSize]?.getD #[] := by
      rw [← pad_getD w.pages (i / pageSize + 1) #[], Array.getElem?_eq_getElem hlt, Option.getD_some]
    rw [hpage]
    by_cases hk : i % pageSize = j % pageSize
    · have hij : i = j := by rw [← Nat.div_add_mod i pageSize, ← Nat.div_add_mod j pageSize, hp, hk]
      rw [if_pos hij, ← hk, Array.getElem?_setIfInBounds_self_of_lt (pad_size_gt _ _ _),
        Option.getD_some]
    · have hij : i ≠ j := fun e => hk (by rw [e])
      rw [if_neg hij, Array.getElem?_setIfInBounds_ne hk, pad_getD]
  · have hij : i ≠ j := fun e => hp (by rw [e])
    rw [if_neg hp, if_neg hij, pad_getD]

theorem get?_set (w : Words) (i : Nat) (v : UInt32) (j : Nat) :
    (w.set i v).get? j = if i = j ∧ i < w.size then some v else w.get? j := by
  by_cases h : i < w.size
  · simp only [get?, size_set, word_set h, h, and_true]
    by_cases e : i = j
    · subst e
      simp [h]
    · simp [e]
  · simp [set, h]

private theorem pad_modify_size {α : Type} (items : Array α) (n : Nat) (x : α) (f : α → α) :
    ((pad items (n + 1) x).modify n f).size = max items.size (n + 1) := by
  rw [Array.size_modify]
  unfold pad
  split
  · simp only [Array.size_append, Array.size_replicate]
    omega
  · omega

private theorem pad_modify_getD {α : Type} (items : Array α) (n : Nat) (x : α)
    (f : α → α) (k : Nat) :
    ((pad items (n + 1) x).modify n f)[k]?.getD x = if n = k then f (items[k]?.getD x)
      else items[k]?.getD x := by
  rw [Array.getElem?_modify]
  split
  · rename_i hk
    subst hk
    rw [← pad_getD items (n + 1) x n, Array.getElem?_eq_getElem (pad_size_gt items n x)]
    rfl
  · exact pad_getD items (n + 1) x k

private theorem pad_modify_comm {α : Type} (items : Array α) (x : α) {i j : Nat} {f g : α → α}
    (h : i = j → ∀ a, g (f a) = f (g a)) :
    (pad ((pad items (i + 1) x).modify i f) (j + 1) x).modify j g =
      (pad ((pad items (j + 1) x).modify j g) (i + 1) x).modify i f := by
  have hext {a b : Array α} (hsize : a.size = b.size)
      (hitem : ∀ k : Nat, a[k]?.getD x = b[k]?.getD x) : a = b := by
    refine Array.ext hsize fun k ha hb => ?_
    have hk := hitem k
    rwa [Array.getElem?_eq_getElem ha, Array.getElem?_eq_getElem hb] at hk
  refine hext ?_ fun k => ?_
  · simp only [pad_modify_size]
    omega
  · simp only [pad_modify_getD]
    by_cases hi : i = k
    · by_cases hj : j = k
      · rw [if_pos hi, if_pos hj, if_pos hi, if_pos hj, h (hi.trans hj.symm)]
      · rw [if_neg hj, if_pos hi, if_pos hi, if_neg hj]
    · rw [if_neg hi, if_neg hi]

private theorem setIfInBounds_eq_modify {α : Type} (items : Array α) (n : Nat) (v : α) :
    items.setIfInBounds n v = items.modify n fun _ => v := by
  apply Array.ext_getElem?
  intro k
  rw [Array.getElem?_setIfInBounds, Array.getElem?_modify]
  by_cases hk : n = k
  · subst hk
    by_cases hn : n < items.size
    · simp [hn]
    · simp [hn]
  · simp [hk]

theorem set_comm (w : Words) {i j : Nat} (h : i ≠ j) (u v : UInt32) :
    (w.set i u).set j v = (w.set j v).set i u := by
  have hout {w : Words} {i : Nat} (hi : ¬ i < w.size) (u : UInt32) : w.set i u = w := if_neg hi
  by_cases hi : i < w.size
  · by_cases hj : j < w.size
    · simp only [set, hi, hj, if_true, setIfInBounds_eq_modify]
      refine congrArg (Words.mk w.size) (pad_modify_comm w.pages #[] fun hpage page => ?_)
      refine pad_modify_comm page 0 fun hplace => absurd ?_ h
      rw [← Nat.div_add_mod i pageSize, ← Nat.div_add_mod j pageSize, hpage, hplace]
    · have hj' : ¬ j < (w.set i u).size := by rwa [size_set]
      rw [hout hj', hout hj]
  · have hi' : ¬ i < (w.set j v).size := by rwa [size_set]
    rw [hout hi, hout hi']

private theorem word_eq_zero {w : Words} {i : Nat} (h : w.heldIn (i / pageSize) ≤ i % pageSize) :
    w.word i = 0 := by
  unfold heldIn at h
  unfold word
  cases hp : w.pages[i / pageSize]? with
  | none => rfl
  | some page =>
    rw [hp] at h
    simp [Array.getElem?_eq_none (show page.size ≤ i % pageSize from h)]

private theorem heldIn_eq_zero {w : Words} {page : Nat} (h : w.pages.size ≤ page) :
    w.heldIn page = 0 := by
  simp [heldIn, Array.getElem?_eq_none h]

private theorem same_page {i j : Nat} (h : i ≤ j) (hend : j < i + (pageSize - i % pageSize)) :
    j / pageSize = i / pageSize ∧ i % pageSize ≤ j % pageSize := by
  simp only [pageSize] at *
  omega

@[simp] theorem size_clear (w : Words) (i n : Nat) : (w.clear i n).size = w.size := by
  fun_induction clear w i n with
  | case1 => rfl
  | case2 _ _ _ _ _ ih => simpa using ih
  | case3 _ _ _ _ _ ih => exact ih

theorem get?_clear (w : Words) (i n j : Nat) :
    (w.clear i n).get? j = if i ≤ j ∧ j < i + n ∧ j < w.size then some 0 else w.get? j := by
  fun_induction clear w i n with
  | case1 w i n h =>
    split
    case isFalse => rfl
    case isTrue hj =>
      have hpage : w.pages.size ≤ j / pageSize := by
        have := Nat.div_le_div_right (c := pageSize) hj.1
        omega
      rw [get?, if_pos hj.2.2, word_eq_zero (by rw [heldIn_eq_zero hpage]; omega)]
  | case2 w i n h held ih =>
    rw [ih, size_set, get?_set]
    by_cases hij : i = j
    · subst hij
      by_cases hs : i < w.size <;> simp [hs, get?]
      omega
    · by_cases hj : i ≤ j ∧ j < i + n ∧ j < w.size
      · rw [if_pos (by omega), if_pos hj]
      · rw [if_neg (by omega), if_neg (by omega), if_neg hj]
  | case3 w i n h held ih =>
    rw [ih]
    have hmod := Nat.mod_lt i (show 0 < pageSize by decide)
    by_cases hj : i ≤ j ∧ j < i + n ∧ j < w.size
    · rw [if_pos hj]
      by_cases hskip : j < i + (pageSize - i % pageSize)
      · have ⟨hpage, hrest⟩ := same_page hj.1 hskip
        rw [if_neg (by omega), get?, if_pos hj.2.2, word_eq_zero (by rw [hpage]; omega)]
      · rw [if_pos (by omega)]
    · rw [if_neg hj, if_neg (by omega)]

@[simp] theorem length_toList (w : Words) : w.toList.length = w.size := by simp [toList]

end Words
end ScriptVm
