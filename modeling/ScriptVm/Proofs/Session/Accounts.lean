import ScriptVm.Proofs.Engine.Growth
import ScriptVm.Proofs.Execution.Conservation
import ScriptVm.Session

namespace ScriptVm.Session

variable {s : Session}

/-- The number of contexts whose current module has this id. -/
def runningIn (s : Session) (id : ModuleId) : Nat := s.contexts.countP fun c => c.2.module == some id

/-- The number of saved frames, over all contexts, whose module has this id. -/
def savedIn (s : Session) (id : ModuleId) : Nat :=
  total (fun c => c.2.calls.frames.countP fun f => f.module == some id) s.contexts

def held (contexts : List (Nat × Context)) (id : ModuleId) : Nat :=
  total (fun c => c.2.holds id) contexts

/-- Contexts have numbers of their own, and what they hold is what the engine counts. -/
structure Accounted (s : Session) : Prop where
  numbered : (s.contexts.map Prod.fst).Nodup
  sound : ∀ c ∈ s.contexts, Machine.Sound { engine := s.engine, ctx := c.2 }
  counted : ∀ id, s.engine.contextRefs id = (held s.contexts id).toUInt32

theorem held_cons (c : Nat × Context) (contexts : List (Nat × Context)) (id : ModuleId) :
    held (c :: contexts) id = c.2.holds id + held contexts id :=
  total_cons _ _ _

theorem held_perm {contexts contexts' : List (Nat × Context)} (h : contexts.Perm contexts')
    (id : ModuleId) : held contexts id = held contexts' id :=
  total_perm _ h

theorem held_eq (s : Session) (id : ModuleId) :
    held s.contexts id = s.runningIn id + s.savedIn id := by
  have hsplit (contexts : List (Nat × Context)) :
      held contexts id = contexts.countP (fun c => c.2.module == some id) +
      total (fun c => c.2.calls.frames.countP fun f => f.module == some id) contexts := by
    induction contexts with
    | nil => rfl
    | cons c contexts ih =>
      have hfrs : (c.2.calls.frames.map Frame.module).count (some id) =
          c.2.calls.frames.countP fun f => f.module == some id := by
        rw [List.count, List.countP_map]
        rfl
      rw [held_cons, ih, Context.holds, Context.held, List.count_cons, hfrs,
        List.countP_cons, total_cons]
      omega
  exact hsplit s.contexts

def apartFrom (s : Session) (number : Nat) : List (Nat × Context) :=
  s.contexts.filter fun c => c.1 != number

theorem runningIn_add_savedIn_le (s : Session) (id : ModuleId) :
    s.runningIn id + s.savedIn id ≤ total (fun c => c.2.held.length) s.contexts := by
  rw [← held_eq]
  unfold held
  induction s.contexts with
  | nil => exact Nat.le_refl 0
  | cons c contexts ih =>
    have hcx : c.2.holds id ≤ c.2.held.length := List.count_le_length
    simp only [total_cons]
    omega

theorem context_cases (s : Session) (hnum : (s.contexts.map Prod.fst).Nodup) (number : Nat) :
    s.contexts.Perm ((number, s.context number) :: s.apartFrom number) ∨
      s.context number = Context.new s.engine.config.maxStack ∧ s.apartFrom number = s.contexts := by
  cases hfind : s.contexts.find? fun c => c.1 == number with
  | none =>
    right
    refine ⟨by rw [context, hfind]; rfl, List.filter_eq_self.mpr fun c hc => ?_⟩
    have hne := List.find?_eq_none.mp hfind c hc
    simpa using hne
  | some found =>
    left
    obtain ⟨hkey, before, after, hctxs, -⟩ := List.find?_eq_some_iff_append.mp hfind
    have hkey : found.1 = number := by simpa using hkey
    have hfd : s.context number = found.2 := by rw [context, hfind]; rfl
    -- No other context has this number.
    have hoth : s.apartFrom number = before ++ after := by
      rw [hctxs, List.map_append, List.map_cons] at hnum
      have hmiddle := List.nodup_middle.mp hnum
      have hfresh := (List.nodup_cons.mp hmiddle).1
      have hne : ∀ c ∈ before ++ after, (c.1 != number) = true := by
        intro c hc
        rw [bne_iff_ne]
        intro hsame
        refine hfresh ?_
        rw [hkey, ← hsame, ← List.map_append]
        exact List.mem_map_of_mem hc
      rw [apartFrom, hctxs, List.filter_append, List.filter_cons, if_neg (by simp [hkey]),
        ← List.filter_append]
      exact List.filter_eq_self.mpr hne
    rw [hoth, hfd, hctxs, ← hkey]
    exact List.perm_middle

theorem Accounted.context_sound (h : s.Accounted) (number : Nat) : (s.machine number).Sound := by
  obtain hperm | ⟨hnew, -⟩ := s.context_cases h.numbered number
  · exact h.sound (number, s.context number) (hperm.mem_iff.mpr List.mem_cons_self)
  · rw [machine, hnew]
    exact Exec.sound_new s.engine _

/-- What the other contexts hold is what the engine counts beyond one context. -/
theorem Accounted.others (h : s.Accounted) (number : Nat) (id : ModuleId) :
    (s.machine number).others id = (held (s.apartFrom number) id).toUInt32 := by
  show s.engine.contextRefs id - ((s.context number).holds id).toUInt32 = _
  rw [h.counted]
  obtain hperm | ⟨hnew, hoth⟩ := s.context_cases h.numbered number
  · rw [held_perm hperm, held_cons]
    simp only [Nat.toUInt32_eq, UInt32.ofNat_add]
    grind
  · rw [hnew, hoth]
    simp [Context.holds, Context.held, Context.new]

theorem setContext_perm (s : Session) (number : Nat) (c : Context)
    (h : ∀ other ∈ s.contexts, other.1 ≠ number) :
    (s.setContext number c).contexts.Perm ((number, c) :: s.contexts) := by
  have hdrop (l : List (Nat × Context)) (hl : ∀ other ∈ l, other.1 ≠ number) :
      (l.dropWhile fun e => e.1 ≤ number) = l.dropWhile fun e => e.1 < number := by
    induction l with
    | nil => rfl
    | cons other l ih =>
      have hne := hl other List.mem_cons_self
      by_cases hlt : other.1 < number
      · rw [List.dropWhile_cons_of_pos (by simpa using Nat.le_of_lt hlt),
          List.dropWhile_cons_of_pos (by simpa using hlt)]
        exact ih fun o ho => hl o (List.mem_cons_of_mem _ ho)
      · rw [List.dropWhile_cons_of_neg (by simp; omega),
          List.dropWhile_cons_of_neg (by simpa using hlt)]
  show (s.contexts.takeWhile _ ++ (number, c) :: s.contexts.dropWhile _).Perm _
  rw [hdrop _ h]
  refine List.perm_middle.trans (List.Perm.cons _ ?_)
  rw [List.takeWhile_append_dropWhile]

theorem Accounted.change (h : s.Accounted) (number : Nat) {m : Machine}
    (hgrown : s.engine.Grown m.engine) (hsound : m.Sound)
    (hoth : m.others = (s.machine number).others) {contexts : List (Nat × Context)}
    (hctxs : contexts.Perm ((number, m.ctx) :: s.apartFrom number)) :
    Accounted { engine := m.engine, contexts } := by
  have hapart : ∀ c ∈ s.apartFrom number, c ∈ s.contexts ∧ c.1 ≠ number := by
    intro c hc
    obtain ⟨hmem, hne⟩ := List.mem_filter.mp hc
    exact ⟨hmem, by simpa using hne⟩
  constructor
  · show (contexts.map Prod.fst).Nodup
    rw [(hctxs.map Prod.fst).nodup_iff, List.map_cons, List.nodup_cons]
    refine ⟨fun hmem => ?_, (List.filter_sublist.map Prod.fst).nodup h.numbered⟩
    obtain ⟨c, hc, hkey⟩ := List.mem_map.mp hmem
    exact (hapart c hc).2 hkey
  · intro c hc
    obtain rfl | hc := List.mem_cons.mp (hctxs.mem_iff.mp hc)
    · exact hsound
    · have hold := h.sound c (hapart c hc).1
      refine { hold with anchored := fun id hid => ?_ }
      obtain ⟨g, hg⟩ := hold.anchored id hid
      exact hgrown.built hg
  · intro id
    show m.engine.contextRefs id = (held contexts id).toUInt32
    have hrest := congrFun hoth id
    rw [h.others number id] at hrest
    have hall : m.engine.contextRefs id = m.others id + (m.ctx.holds id).toUInt32 := by
      rw [Machine.others]
      grind
    rw [hall, hrest, held_perm hctxs, held_cons]
    simp only [Nat.toUInt32_eq, UInt32.ofNat_add]
    grind

theorem catalog_inContext {ε α : Type} (s : Session) (number : Nat) (x : Exec ε α)
    [hx : Exec.Keeps Machine.catalog x] :
    (s.inContext number x).2.engine.catalog = s.engine.catalog := by
  have hkept := hx.view_after (s.machine number)
  unfold Exec.after at hkept
  unfold Session.inContext
  dsimp only
  cases hend : x (s.machine number) with
  | ok a m | error stop m =>
    rw [hend] at hkept
    exact hkept

theorem catalog_dropContext (s : Session) (number : Nat) :
    (s.dropContext number).2.engine.catalog = s.engine.catalog := by
  unfold dropContext
  split
  · exact Machine.catalog_drop _
  · rfl

theorem Accounted.inContext {ε α : Type} (h : s.Accounted) (number : Nat) (x : Exec ε α)
    [hcat : Exec.Keeps Machine.catalog x] [Exec.Conserves Machine.Sound x]
    (hword : (s.inContext number x).1 ≠ .error .overflow)
    (hfuel : (s.inContext number x).1 ≠ .error .outOfFuel) :
    (s.inContext number x).2.Accounted := by
  have hrun := Exec.carried_after x (h.context_sound number)
  have hgrown := Engine.grown_of_catalog (s.catalog_inContext number x)
  have hset (e : Engine) (c : Context) :=
    setContext_perm { engine := e, contexts := s.apartFrom number } number c fun other hother => by
    simpa using (List.mem_filter.mp hother).2
  unfold Session.inContext at *
  dsimp only at *
  cases hend : x (s.machine number) with
  | ok a m =>
    rw [hend] at hrun hgrown
    obtain ⟨hsound, hoth⟩ := hrun trivial
    exact h.change number hgrown hsound hoth (hset m.engine m.ctx)
  | error stop m =>
    rw [hend] at hrun hgrown hword hfuel
    cases stop with
    | cause e =>
      obtain ⟨hsound, hoth⟩ := hrun trivial
      exact h.change number hgrown hsound hoth (hset m.engine m.ctx)
    | overflow => exact absurd rfl hword
    | outOfFuel => exact absurd rfl hfuel

theorem Accounted.dropContext (h : s.Accounted) (number : Nat) :
    (s.dropContext number).2.Accounted := by
  unfold Session.dropContext
  split
  · refine ⟨(List.filter_sublist.map Prod.fst).nodup h.numbered, fun c hc => ?_, fun id => ?_⟩
    · have hold := h.sound c (List.mem_filter.mp hc).1
      refine { hold with anchored := fun id hid => ?_ }
      obtain ⟨g, hg⟩ := hold.anchored id hid
      exact (Engine.grown_of_catalog (Machine.catalog_drop _)).built hg
    · exact (Machine.drop_holding (h.context_sound number) id).trans (h.others number id)
  · exact h

theorem Accounted.tended (h : s.Accounted) {e : Engine} (he : s.engine.Tended e) :
    Accounted { s with engine := e } := by
  refine ⟨h.numbered, fun c hc => ?_, fun id => (he.refs id).trans (h.counted id)⟩
  have hold := h.sound c hc
  refine { hold with anchored := fun id hid => ?_ }
  obtain ⟨g, hg⟩ := hold.anchored id hid
  exact he.built hg

theorem accounted_new (config : Config) : Accounted { engine := { config } } where
  numbered := List.nodup_nil
  sound c hc := nomatch hc
  counted id := by
    rw [Engine.contextRefs, Engine.built?_new]
    rfl

theorem Accounted.held_of_unprepared (h : s.Accounted)
    (hfresh : ∀ c ∈ s.contexts, c.2.state = .uninitialized)
    (id : ModuleId) : held s.contexts id = 0 := by
  have hnone : ∀ c ∈ s.contexts, c.2.holds id = 0 := by
    intro c hc
    obtain ⟨hmod, hfrs⟩ := (h.sound c hc).fresh (hfresh c hc)
    simp [Context.holds, Machine.Vacant.held (m := { engine := s.engine, ctx := c.2 }) ⟨hmod, hfrs⟩]
  exact total_eq_zero hnone

end ScriptVm.Session
