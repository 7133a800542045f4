import ScriptVm.Proofs.Execution.Addressing

namespace ScriptVm

open Exec

theorem Engine.refs?_onHeap {α : Type} (e : Engine) (f : Heap → α × Heap) :
    (e.onHeap f).2.heap.refs? = (f e.heap).2.refs? := by
  refine Heap.refs?_of_slots ?_
  unfold onHeap
  dsimp only
  split <;> rfl

theorem Handle.index_lt_of_ofBits? {bits : UInt64} {r : Handle} (h : ofBits? bits = some r) :
    r.index.toNat + 1 < 4294967296 := by
  unfold ofBits? at h
  dsimp only at h
  split at h
  · cases h
  · rename_i hlow
    cases h
    have hpos : 0 < (lowWord bits).toNat :=
      Nat.pos_of_ne_zero fun h0 => hlow (UInt32.toNat_inj.mp h0)
    have hlt := (lowWord bits).toNat_lt
    have hsub : (lowWord bits - 1).toNat = (lowWord bits).toNat - 1 :=
      UInt32.toNat_sub_of_le _ _ (UInt32.le_iff_toNat_le.mpr hpos)
    show (lowWord bits - 1).toNat + 1 < 4294967296
    omega

namespace Exec

variable {m m' : Machine} {target : Address} {src : Handle}

def handleBehind? (m : Machine) (a : Address) : Option Handle := (load64? m a).bind Handle.ofBits?

def belowTop? (m : Machine) : Option Handle := (m.ctx.sp.shift? 2).bind m.handleAt?

theorem loadHandle_ok {old : Option Handle} (h : loadHandle target m = .ok old m') :
    old = handleBehind? m target ∧ m' = m := by
  obtain ⟨v, m1, hload, hpure⟩ := bind_ok h
  obtain ⟨hv, rfl⟩ := loadWord64_ok hload
  cases hpure
  rw [handleBehind?, hv]
  exact ⟨rfl, rfl⟩

theorem counts_of_addRef {ok : Bool} (h : (addRef src : Exec Fault Bool) m = .ok ok m') :
    m'.counts src = (m.counts src).map (· + 1) := by
  obtain ⟨b, m1, hheap, hrest⟩ := bind_ok h
  cases hheap
  have hchk := engine_ok hrest
  obtain ⟨_, m3, hfits, hpure⟩ := bind_ok hchk
  cases hpure
  obtain ⟨-, rfl⟩ := ensure_ok hfits
  show (m.engine.onHeap fun heap => heap.addRef src).2.heap.refs? src = _
  rw [Engine.refs?_onHeap, Heap.refs?_addRef, if_pos rfl]
  rfl

theorem countFits_iff {h : Heap} {r : Handle} :
    h.countFits r = true ↔ ∀ refs, h.refs? r = some refs → refs < 4294967296 := by
  unfold Heap.countFits Heap.refs?
  cases h.get? r <;> simp

theorem addRef_of_fits
    (h : (m.engine.onHeap fun heap => heap.addRef src).2.heap.countFits src = true) :
    (addRef src : Exec Fault Bool) m =
      .ok (m.engine.onHeap fun heap => heap.addRef src).1
        { m with engine := (m.engine.onHeap fun heap => heap.addRef src).2 } := by
  rw [addRef, bind_of_ok (onHeap_eq _ m)]
  show (ensure ((m.engine.onHeap fun heap => heap.addRef src).2.heap.countFits src) >>= fun _ =>
      pure _ : Exec Fault Bool) _ = _
  rw [h]
  rfl

/-- The destination holds the handle afterwards, and the object has one reference more than the old
one leaves it. -/
theorem assignTop_ok (htgt : topAddress? m = some target) (hsrc : belowTop? m = some src)
    (h : assignTop m = .ok () m') : handleBehind? m' target = some src ∧
      m'.counts src = ((m.engine.heap.without (handleBehind? m target)).refs? src).map (· + 1) := by
  obtain ⟨a, m1, hpop, h1⟩ := bind_ok h
  obtain ⟨htop, sp, hsp, rfl⟩ := popAddress_ok hpop
  obtain rfl : target = a := Option.some.inj (htgt.symm.trans htop)
  obtain ⟨bits, m2, hpeek, h2⟩ := bind_ok h1
  obtain rfl := peek64_ok hpeek
  have hbits : Handle.ofBits? bits = some src := by
    rw [belowTop?, hsp, Option.bind_some, Machine.handleAt?] at hsrc
    rwa [show m.ctx.stack.read64? sp = some bits from peek64_top hpeek] at hsrc
  have hstored {n : Machine} (hstore : storeWord64 target src.bits n = .ok () m') :
      handleBehind? m' target = some src ∧ m'.counts = n.counts := by
    rw [handleBehind?, load64?_of_storeWord64 hstore, Option.bind_some]
    exact ⟨Handle.ofBits?_bits src (Handle.index_lt_of_ofBits? hbits), Keeps.of_ok hstore⟩
  obtain ⟨old, m3, hload, h3⟩ := bind_ok h2
  obtain ⟨hold, rfl⟩ := loadHandle_ok hload
  -- Words are read alike wherever the top is.
  have hword (b : Address) : load? (m.onContext fun c => { c with sp }) b = load? m b := by
    cases b <;> rfl
  have hsame :
      handleBehind? (m.onContext fun c => { c with sp }) target = handleBehind? m target := by
    simp only [handleBehind?, load64?, hword]
  rw [hsame] at hold
  rw [← hold]
  rw [hbits] at h3
  cases old with
  | none =>
    obtain ⟨ok, m4, hadd, hstore⟩ := bind_ok h3
    obtain ⟨hholds, hcnts⟩ := hstored hstore
    rw [hcnts]
    exact ⟨hholds, (counts_of_addRef hadd).trans rfl⟩
  | some r =>
    obtain ⟨destroyed, m4, hrls, h4⟩ := bind_ok h3
    cases hrls
    obtain ⟨ok, m5, hadd, hstore⟩ := bind_ok h4
    obtain ⟨hholds, hcnts⟩ := hstored hstore
    rw [hcnts]
    refine ⟨hholds, (counts_of_addRef hadd).trans ?_⟩
    show ((m.engine.onHeap fun heap => heap.release r).2.heap.refs? src).map (· + 1) = _
    rw [Engine.refs?_onHeap]
    rfl

theorem exec_assign {nested : Nested} {type : TypeId} (h : assignTop m = .ok () m') :
    exec nested (.assignHandle type) m = .ok .go m' := by
  show (assignTop >>= fun _ => pure Flow.go) m = _
  rw [bind_of_ok h]
  rfl

theorem assignTop_stack {p : Pointer} {w : UInt64} (htgt : topAddress? m = some (.stack p))
    (hsrc : belowTop? m = some src) (hp : m.ctx.stack.read64? p = some w)
    (hfits : ∀ refs, (m.engine.heap.without (handleBehind? m (.stack p))).refs? src = some refs →
      refs + 1 < 4294967296) : ∃ m', assignTop m = .ok () m' := by
  obtain ⟨sp, hsp, hat⟩ := Option.bind_eq_some_iff.mp hsrc
  obtain ⟨bits, hread, hbits⟩ := Option.bind_eq_some_iff.mp hat
  have hload (n : Machine) (hn : n.ctx.stack = m.ctx.stack) : load64? n (.stack p) = some w := by
    rw [load64?_stack, hn, hp]
  let m1 := m.onContext fun c => { c with sp }
  have hold : loadHandle (.stack p) m1 = .ok (Handle.ofBits? w) m1 := by
    rw [loadHandle, bind_of_ok (loadWord64_of_load64? (hload m1 rfl))]
    rfl
  have hpeek : peek64 0 m1 = .ok bits m1 := peek64_zero hread
  have hbehind : handleBehind? m (.stack p) = Handle.ofBits? w := by
    rw [handleBehind?, hload m rfl, Option.bind_some]
  rw [hbehind] at hfits
  -- What is left begins with the heap from which the old object's reference is gone.
  have hrest (n : Machine) (hstk : n.ctx.stack = m.ctx.stack)
      (hn : n.engine.heap.refs? src = (m.engine.heap.without (Handle.ofBits? w)).refs? src) :
      ∃ m', (addRef src >>= fun _ => storeWord64 (.stack p) src.bits) n = .ok () m' := by
    have hcnt : ((n.engine.onHeap fun heap => heap.addRef src).2.heap.countFits src) = true := by
      refine countFits_iff.mpr fun refs hrefs => ?_
      rw [Engine.refs?_onHeap, Heap.refs?_addRef, if_pos rfl, hn] at hrefs
      obtain ⟨k, hk, rfl⟩ := Option.map_eq_some_iff.mp hrefs
      exact hfits k hk
    let n' : Machine := { n with engine := (n.engine.onHeap fun heap => heap.addRef src).2 }
    rw [bind_of_ok (addRef_of_fits hcnt)]
    exact storeWord64_of_load64? (hload n' hstk) src.bits
  rw [assignTop, bind_of_ok (popAddress_eq htgt hsp), bind_of_ok hpeek, bind_of_ok hold, hbits]
  cases hw : Handle.ofBits? w with
  | none => exact hrest m1 rfl (by rw [hw]; rfl)
  | some r =>
    obtain ⟨m', hdone⟩ :=
      hrest { m1 with engine := (m1.engine.onHeap fun heap => heap.release r).2 } rfl (by
      rw [hw, Engine.refs?_onHeap]
      rfl)
    exact ⟨m', (bind_of_ok (onHeap_eq _ m1)).trans hdone⟩

/-- An assignment that succeeds stores the handle, and the object has one reference more than the
loss of the old one leaves it. If the old object is the same, its count stays if there is a second
reference, and else it is destroyed. If it is another one, it depends on what goes with it: nothing,
if it keeps a reference itself; never an object that has references beyond those in handle fields;
but an object does whose only reference the old one owns. -/
theorem assign_after_release {nested : Nested} {type : TypeId} {flow : Flow} {o : Object}
    (h : exec nested (.assignHandle type) m = .ok flow m') (htarget : topAddress? m = some target)
    (hsrc : belowTop? m = some src) (ho : m.engine.heap.get? src = some o)
    (hcounted : o.type.refCounted = true) :
    handleBehind? m' target = some src ∧
      m'.counts src = ((m.engine.heap.without (handleBehind? m target)).refs? src).map (· + 1) ∧
      (handleBehind? m target = some src → m'.counts src = if 2 ≤ o.refs then some o.refs else none) ∧
      ((∀ old, handleBehind? m target = some old → old ≠ src ∧ ∀ p,
        m.engine.heap.get? old = some p → 2 ≤ p.refs) →
        m'.counts src = some (o.refs + 1)) ∧
      (handleBehind? m target ≠ some src → m.engine.heap.pointersTo src < o.refs →
        ∃ refs, m'.counts src = some refs ∧ o.refs - m.engine.heap.pointersTo src < refs) ∧
      ∀ old p, handleBehind? m target = some old → m.engine.heap.get? old = some p → p.refs ≤ 1 →
        src ∈ p.children →
        o.refs ≤ 1 → m'.engine.heap.isLive src = false := by
  obtain ⟨_, m1, hassign, hflow⟩ := bind_ok h
  cases hflow
  obtain ⟨hholds, hcounts⟩ := assignTop_ok htarget hsrc hassign
  refine ⟨hholds, hcounts, fun hself => ?_, fun hstays => ?_, fun hother hspare => ?_,
    fun old p hold hp hlast hmem honly => ?_⟩
  · rw [hcounts, hself, Heap.refs?_without_self ho]
    split
    · rw [Option.map_some]
      congr 1
      omega
    · rfl
  · rw [hcounts, Heap.refs?_without_of_stays hstays, Heap.refs?, ho]
    rfl
  · obtain ⟨refs, hrefs, hle⟩ := Heap.refs?_without_of_spare ho hcounted hspare hother
    refine ⟨refs + 1, ?_, by omega⟩
    rw [hcounts, hrefs]
    rfl
  · have hnone : (m.engine.heap.without (some old)).refs? src = none :=
      Heap.refs?_without_last hp hlast ho honly hmem
    rw [Heap.isLive_eq_refs?]
    show (m'.counts src).isSome = false
    rw [hcounts, hold, hnone]
    rfl

/-- The address of the destination is on top, the handle is below it, and the destination is above
both. -/
def poised (heap : Heap) (src old : Handle) : Machine where
  engine := { heap }
  ctx :=
    { stack := (((Stack.reset {} 8).set64 {} (Address.stack { offset := 4 }).bits).set64
        { offset := 2 } src.bits).set64 { offset := 4 } old.bits }

/-- A fork that holds an object twice, and the object with a third reference. -/
def spared : Heap := (Heap.forked.addRef ⟨1, 0⟩).2

theorem spared_without : (spared.without (some ⟨0, 0⟩)).refs? ⟨1, 0⟩ = some 1 := by
  let fork : Object := ⟨Heap.forkType, 1, (Words.zeros 4).put 0 [2, 0, 2, 0]⟩
  have hfork : spared.get? ⟨0, 0⟩ = some fork := by decide +kernel
  have hlast : (spared.lowerRefs ⟨0, 0⟩ fork 0).get? ⟨0, 0⟩ = some { fork with refs := 0 } := by
    decide +kernel
  have hnobody :
      (((spared.lowerRefs ⟨0, 0⟩ fork 0).vacate ⟨0, 0⟩ { fork with refs := 0 }).dropChildren
        fork.children []).2 = [] := by
    decide +kernel
  have hdest :
      spared.without (some ⟨0, 0⟩) = (spared.lowerRefs ⟨0, 0⟩ fork 0).destroyAll [⟨0, 0⟩] := by
    rw [Heap.without, Heap.release, hfork]
    rfl
  rw [hdest, Heap.destroyAll_cons hlast]
  show (Heap.destroyAll _ (Heap.dropChildren _ fork.children []).2).refs? _ = _
  rw [hnobody, Heap.destroyAll]
  decide +kernel

/-- The fork goes and takes both its references from the object, which has a third one. -/
theorem assign_after_release_spared :
    ∃ m', exec (fun _ _ => pure 0) (.assignHandle ⟨1⟩) (poised spared ⟨1, 0⟩ ⟨0, 0⟩) = .ok .go m' ∧
      handleBehind? (poised spared ⟨1, 0⟩ ⟨0, 0⟩) (.stack { offset := 4 }) = some ⟨0, 0⟩ ∧
      handleBehind? m' (.stack { offset := 4 }) = some ⟨1, 0⟩ ∧
        ∃ refs, m'.counts ⟨1, 0⟩ = some refs ∧ 1 < refs := by
  have htarget : topAddress? (poised spared ⟨1, 0⟩ ⟨0, 0⟩) = some (.stack { offset := 4 }) := by
    decide +kernel
  have hsrc : belowTop? (poised spared ⟨1, 0⟩ ⟨0, 0⟩) = some ⟨1, 0⟩ := by decide +kernel
  have hold : handleBehind? (poised spared ⟨1, 0⟩ ⟨0, 0⟩) (.stack { offset := 4 }) =
      some ⟨0, 0⟩ := by decide +kernel
  have hobject : spared.get? ⟨1, 0⟩ = some ⟨Heap.forkType, 3, .zeros 4⟩ := by decide +kernel
  have hspare : spared.pointersTo ⟨1, 0⟩ = 2 := by decide +kernel
  obtain ⟨m', hassign⟩ :=
    assignTop_stack htarget hsrc (w := 1) (by decide +kernel) fun refs hrefs => by
    rw [hold] at hrefs
    cases spared_without.symm.trans hrefs
    decide
  have hexec : exec (fun _ _ => pure 0) (.assignHandle ⟨1⟩) _ = _ := exec_assign hassign
  obtain ⟨hholds, -, -, -, hkept, -⟩ := assign_after_release hexec htarget hsrc hobject rfl
  obtain ⟨refs, hrefs, hlt⟩ :=
    hkept (by rw [hold]; decide) (show spared.pointersTo ⟨1, 0⟩ < 3 by rw [hspare]; decide)
  change 3 - spared.pointersTo ⟨1, 0⟩ < refs at hlt
  rw [hspare] at hlt
  exact ⟨m', hexec, hold, hholds, refs, hrefs, hlt⟩

/-- An object without references but that of the destination. -/
def owned : Heap := (Heap.alloc {} Heap.forkType).2

/-- An object that holds the only reference to another one. -/
def linked : Heap := ((owned.alloc Heap.forkType).2.setWords ⟨0, 0⟩ 0 [2, 0]).2

/-- An object that is assigned to the only place that holds it is destroyed, and so is one that is
assigned to the place of the object that owns it. The destination holds a handle to nothing. -/
theorem assign_destroys_assigned :
    (∃ m', exec (fun _ _ => pure 0) (.assignHandle ⟨1⟩) (poised owned ⟨0, 0⟩ ⟨0, 0⟩) = .ok .go m' ∧
      owned.refs? ⟨0, 0⟩ = some 1 ∧
      handleBehind? m' (.stack { offset := 4 }) = some ⟨0, 0⟩ ∧ m'.counts ⟨0, 0⟩ = none) ∧
    ∃ m', exec (fun _ _ => pure 0) (.assignHandle ⟨1⟩) (poised linked ⟨1, 0⟩ ⟨0, 0⟩) = .ok .go m' ∧
      linked.refs? ⟨1, 0⟩ = some 1 ∧
      handleBehind? m' (.stack { offset := 4 }) = some ⟨1, 0⟩ ∧ m'.counts ⟨1, 0⟩ = none := by
  have hdestroyed (heap : Heap) (src old : Handle)
      (htarget : topAddress? (poised heap src old) = some (.stack { offset := 4 }))
      (hsrc : belowTop? (poised heap src old) = some src)
      (hold : handleBehind? (poised heap src old) (.stack { offset := 4 }) = some old)
      (hgone : (heap.without (some old)).refs? src = none) :
      ∃ m', exec (fun _ _ => pure 0) (.assignHandle ⟨1⟩) (poised heap src old) = .ok .go m' ∧
        handleBehind? m' (.stack { offset := 4 }) = some src ∧ m'.counts src = none := by
    obtain ⟨w, hw, -⟩ := Option.bind_eq_some_iff.mp hold
    rw [load64?_stack] at hw
    have hnone : ((poised heap src old).engine.heap.without (some old)).refs? src = none := hgone
    obtain ⟨m', hassign⟩ := assignTop_stack htarget hsrc hw fun refs hrefs => by
      rw [hold, hnone] at hrefs
      cases hrefs
    obtain ⟨hholds, hcounts⟩ := assignTop_ok htarget hsrc hassign
    rw [hold, hnone] at hcounts
    exact ⟨m', exec_assign hassign, hholds, hcounts⟩
  constructor
  · obtain ⟨m', hexec, hholds, hcounts⟩ := hdestroyed owned ⟨0, 0⟩ ⟨0, 0⟩
      (by decide +kernel) (by decide +kernel) (by decide +kernel)
      (Heap.refs?_without_self
        (show owned.get? ⟨0, 0⟩ = some ⟨Heap.forkType, 1, .zeros 4⟩ by decide +kernel))
    exact ⟨m', hexec, by decide +kernel, hholds, hcounts⟩
  · obtain ⟨m', hexec, hholds, hcounts⟩ := hdestroyed linked ⟨1, 0⟩ ⟨0, 0⟩
      (by decide +kernel) (by decide +kernel) (by decide +kernel)
      (Heap.refs?_without_last
        (show linked.get? ⟨0, 0⟩ =
          some ⟨Heap.forkType, 1, (Words.zeros 4).put 0 [2, 0]⟩ by decide +kernel) (by decide)
        (show linked.get? ⟨1, 0⟩ = some ⟨Heap.forkType, 1, .zeros 4⟩ by decide +kernel) (by decide)
          (by decide +kernel))
    exact ⟨m', hexec, by decide +kernel, hholds, hcounts⟩

end Exec
end ScriptVm
