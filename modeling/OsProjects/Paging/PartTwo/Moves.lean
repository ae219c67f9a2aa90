import OsProjects.Paging.PartTwo.Capacity
import Mathlib.Logic.Relation

/-!
# Making room: `free_frame` and `find_free_frame`

Everything `find_free_frame(pid)` does is a sequence of `Move`s: evictions of
anything but the table of `pid`, lines printed, and turns of `robin`. `Kept`
collects what such a sequence leaves alone; it is proved once for a single
move and composed. `findFreeFrame_spec` is the only fact about the allocator
the rest of the development uses.
-/

namespace OsProjects.Paging.PartTwo

open OsProjects.Lib OsProjects.Paging

/-- A primitive step of making room for `pid`. -/
inductive Move (pid : Pid) : State → State → Prop
  | evict {s : State} {o : Owner} {f : Nat} :
      Evictable s o f → o ≠ .table pid → Move pid s (s.evict o)
  | print {s : State} {m : Message} : m.isMove = false → Move pid s (s.print m)
  | turn {s : State} : Move pid s s.advance

/-- A sequence of moves. -/
abbrev Moves (pid : Pid) : State → State → Prop := Relation.ReflTransGen (Move pid)

/-- The copies of a page 0: leaked ones and resident ones. -/
def State.pageZeros (s : State) : Nat :=
  s.leakedSlots + (Finset.univ.filter fun p : Pid => (s.resident p 0).isSome).card

/-- What steps that only move things between memory and backing store do to the
logical memory. -/
structure Remembers (s s' : State) : Prop where
  drops_le : s.drops ≤ s'.drops
  leaked_le : s.leakedSlots ≤ s'.leakedSlots
  zeros_le : s'.pageZeros ≤ s.pageZeros
  /-- while slots are left the logical memory stays, but for page 0; -/
  content : s'.drops = s.drops → ∀ q m, m < pageSize →
    (m ≠ 0 ∨ s'.leakedSlots = s.leakedSlots) → s'.content q m = s.content q m
  /-- and so do the tables; -/
  table : s'.drops = s.drops → ∀ q, s.HasTable q → s'.HasTable q
  /-- slots are left as long as few page 0s exist. -/
  room : s.pageZeros ≤ 48 → s'.drops = s.drops

theorem Remembers.trans {s s₁ s₂ : State} (h₁ : Remembers s s₁) (h₂ : Remembers s₁ s₂) :
    Remembers s s₂ where
  drops_le := h₁.drops_le.trans h₂.drops_le
  leaked_le := h₁.leaked_le.trans h₂.leaked_le
  zeros_le := h₂.zeros_le.trans h₁.zeros_le
  content hd q m hm hz := by
    -- the counters only grow, so one that is the same at the end was the same in between
    have hd₁ : s₁.drops = s.drops := le_antisymm (hd ▸ h₂.drops_le) h₁.drops_le
    have hz₁ : m ≠ 0 ∨ s₁.leakedSlots = s.leakedSlots :=
      hz.imp_right (fun h => le_antisymm (h ▸ h₂.leaked_le) h₁.leaked_le)
    have hz₂ : m ≠ 0 ∨ s₂.leakedSlots = s₁.leakedSlots := by
      rcases hz with hz | hz
      · exact .inl hz
      · exact hz₁.imp_right (fun h => hz.trans h.symm)
    rw [h₂.content (hd.trans hd₁.symm) q m hm hz₂, h₁.content hd₁ q m hm hz₁]
  table hd q hq := by
    have hd₁ : s₁.drops = s.drops := le_antisymm (hd ▸ h₂.drops_le) h₁.drops_le
    exact h₂.table (hd.trans hd₁.symm) q (h₁.table hd₁ q hq)
  room hr := (h₂.room (h₁.zeros_le.trans hr)).trans (h₁.room hr)

/-- What making room for `pid` leaves alone. -/
structure Kept (pid : Pid) (s s' : State) : Prop extends Remembers s s' where
  inv : Inv s'
  /-- the table of `pid` stays, -/
  tab : s'.tab pid = s.tab pid
  /-- and so do its entries, but for becoming invalid; -/
  entry : (s.tab pid).valid = true → ∀ j, j < pageSize →
    s'.entry pid j = { s.entry pid j with valid := (s'.entry pid j).valid }
  /-- nobody gains a frame; -/
  holds : ∀ o f, s'.view.Holds o f → s.view.Holds o f
  /-- used slots stay; -/
  slot : ∀ i, 0 ≤ (s.slot i).pid → s'.slot i = s.slot i
  /-- an object outside memory is not stored anew; -/
  absent : ∀ o, ¬ s.Resident o → ∀ i, s'.Stored o i ↔ s.Stored o i
  /-- pages leave memory unchanged; -/
  resident : ∀ q m, m < pageSize →
    s'.resident q m = s.resident q m ∨ s'.resident q m = none
  /-- and a slot that leaks costs some process its page 0. -/
  lost : s'.leakedSlots ≠ s.leakedSlots →
    ∃ q, s.resident q 0 ≠ none ∧ s'.resident q 0 = none

namespace Kept

variable {pid : Pid} {s s₁ s₂ : State}

theorem refl (h : Inv s) : Kept pid s s where
  inv := h
  tab := rfl
  entry _ _ _ := rfl
  holds _ _ h := h
  slot _ _ := rfl
  absent _ _ _ := Iff.rfl
  resident _ _ _ := .inl rfl
  drops_le := Nat.le_refl _
  leaked_le := Nat.le_refl _
  zeros_le := Nat.le_refl _
  content _ _ _ _ _ := rfl
  table _ _ h := h
  room _ := rfl
  lost h := absurd rfl h

theorem not_resident (h : Kept pid s s₁) {o : Owner} (ho : ¬ s.Resident o) : ¬ s₁.Resident o := by
  rintro ⟨f, hf⟩
  exact ho ⟨f, h.holds o f hf⟩

theorem trans (h₁ : Kept pid s s₁) (h₂ : Kept pid s₁ s₂) : Kept pid s s₂ where
  toRemembers := h₁.toRemembers.trans h₂.toRemembers
  inv := h₂.inv
  tab := h₂.tab.trans h₁.tab
  entry hp j hj := by
    have hp₁ : (s₁.tab pid).valid = true := by rw [h₁.tab]; exact hp
    rw [h₂.entry hp₁ j hj, h₁.entry hp j hj]
  holds o f ho := h₁.holds o f (h₂.holds o f ho)
  slot i hi := by
    have hi₁ := h₁.slot i hi
    rw [h₂.slot i (hi₁ ▸ hi), hi₁]
  absent o ho i := (h₂.absent o (h₁.not_resident ho) i).trans (h₁.absent o ho i)
  resident q m hm := by
    rcases h₂.resident q m hm with h | h
    · rw [h]
      exact h₁.resident q m hm
    · exact .inr h
  lost hl := by
    by_cases hl₁ : s₁.leakedSlots = s.leakedSlots
    · -- the leak is in the second part: the page was there all along
      obtain ⟨q, hq, hq'⟩ := h₂.lost (fun h => hl (h.trans hl₁))
      refine ⟨q, ?_, hq'⟩
      rcases h₁.resident q 0 (by decide) with h | h
      · rw [← h]; exact hq
      · exact absurd h hq
    · obtain ⟨q, hq, hq'⟩ := h₁.lost hl₁
      refine ⟨q, hq, ?_⟩
      rcases h₂.resident q 0 (by decide) with h | h
      · rw [h, hq']
      · exact h

end Kept

/-! ## One move -/

section

variable {pid : Pid} {s : State}

/-- Evicting a page 0 turns a resident copy into a leaked one. -/
theorem pageZeros_evict (h : Inv s) {o : Owner} {f : Nat} (he : Evictable s o f) :
    (s.evict o).pageZeros ≤ s.pageZeros := by
  have hres := fun q => resident_evict h he q (m := 0) (by decide)
  unfold State.pageZeros
  rw [leaked_evict h he.holds]
  by_cases hz : ∃ p, o = .page p 0
  · obtain ⟨p, rfl⟩ := hz
    obtain ⟨hp, _, hv, _⟩ := State.holds_page.mp he.holds
    -- `p` leaves the processes with a resident page 0, and a slot may leak in exchange
    have herase : (Finset.univ.filter fun q : Pid => ((s.evict (.page p 0)).resident q 0).isSome) =
        (Finset.univ.filter fun q : Pid => (s.resident q 0).isSome).erase p := by
      ext q
      simp only [Finset.mem_filter, Finset.mem_univ, true_and, Finset.mem_erase, hres]
      by_cases hq : q = p
      · subst hq; simp
      · have : Owner.page p 0 ≠ .page q 0 := by
          intro hc
          injection hc with hc _
          exact hq hc.symm
        simp [this, hq]
    have hmem : p ∈ Finset.univ.filter fun q : Pid => (s.resident q 0).isSome := by
      simp [State.resident_eq_some hp hv]
    have hcard := Finset.card_erase_add_one hmem
    rw [herase]
    split <;> omega
  · rw [if_neg (fun h => hz h.2)]
    have hsame : ∀ q, (s.evict o).resident q 0 = s.resident q 0 := by
      intro q
      rw [hres, if_neg (fun hc => hz ⟨q, hc⟩)]
    simp only [hsame]
    omega

theorem Inv.advance (h : Inv s) : Inv s.advance := by
  refine ⟨h.wf, ?_, h.tab_procc, h.entry_procc, h.slot_kind, h.slot_table, h.slot_page,
    h.slot_unique, h.slot_absent⟩
  have := h.robin_lt
  simp only [State.advance, pageFrames] at *
  split <;> omega

/-- An eviction that drops nothing found an unused slot. -/
theorem freeSlot_of_drops (h : Inv s) {o : Owner} {f : Nat} (ho : s.view.Holds o f)
    (hd : (s.evict o).drops = s.drops) : s.freeSlot ≠ none := by
  intro hc
  rw [drops_evict h ho, if_pos hc] at hd
  omega

theorem evict_kept (h : Inv s) {o : Owner} {f : Nat} (he : Evictable s o f)
    (hne : o ≠ .table pid) : Kept pid s (s.evict o) where
  inv := evict_inv h he
  tab := by
    rw [tab_evict h he.holds, tab_inval]
    simp [hne]
  entry hp j hj := by
    rw [entry_evict h he.holds, entry_inval h he.holds hp hj]
  holds o' f' ho' := ((released_evict h he o' f').mp ho').1
  slot i hi := slot_evict h he.holds hi
  absent o' ho' i := by
    rw [stored_evict h he]
    constructor
    · rintro (hst | ⟨_, rfl, _⟩)
      · exact hst
      · exact absurd ⟨f, he.holds⟩ ho'
    · exact .inl
  resident q m hm := by
    rw [resident_evict h he q hm]
    split
    · exact .inr rfl
    · exact .inl rfl
  drops_le := by rw [drops_evict h he.holds]; exact Nat.le_add_right _ _
  leaked_le := by rw [leaked_evict h he.holds]; exact Nat.le_add_right _ _
  zeros_le := pageZeros_evict h he
  content hd q m hm hz := by
    have hfree := freeSlot_of_drops h he.holds hd
    -- evicting the page 0 of `q` would have leaked a slot
    refine content_evict h he hfree hm (hz.imp_right ?_)
    intro hl hc
    rw [leaked_evict h he.holds, if_pos ⟨hfree, q, hc⟩] at hl
    omega
  table hd q hq := by
    rcases hq with hv | ⟨i, hi⟩
    · by_cases ho : o = .table q
      · obtain ⟨i, hi⟩ := Option.ne_none_iff_exists'.mp (freeSlot_of_drops h he.holds hd)
        subst ho
        exact .inr ⟨i, (stored_evict h he).mpr (.inr ⟨hi, rfl, fun p hc => by cases hc⟩)⟩
      · refine .inl ?_
        rw [tab_evict h he.holds, tab_inval]
        simpa [ho] using hv
    · exact .inr ⟨i, (stored_evict h he).mpr (.inl hi)⟩
  room hr := by
    have hroom : s.leakedSlots ≤ 48 := le_trans (Nat.le_add_right _ _) hr
    rw [drops_evict h he.holds, if_neg (freeSlot_ne_none h he.holds hroom)]
    rfl
  lost hl := by
    rw [leaked_evict h he.holds] at hl
    by_cases hz : ∃ p, o = .page p 0
    · obtain ⟨p, rfl⟩ := hz
      obtain ⟨hp, _, hv, _⟩ := State.holds_page.mp he.holds
      refine ⟨p, ?_, ?_⟩
      · rw [State.resident_eq_some hp hv]
        exact Option.some_ne_none _
      · rw [resident_evict h he p (by decide), if_pos rfl]
    · rw [if_neg (fun h => hz h.2)] at hl
      exact absurd rfl hl

theorem print_kept (h : Inv s) {m : Message} (hm : m.isMove = false) :
    Kept pid s (s.print m) := by
  have hd : (s.print m).drops = s.drops := by
    rw [drops_print, Message.not_isDrop hm]
    rfl
  exact { Kept.refl h with
    inv := h.print m
    drops_le := hd.ge
    content := fun _ _ _ _ _ => rfl
    table := fun _ _ hq => hq
    room := fun _ => hd }

theorem Move.kept {s' : State} (h : Inv s) (hm : Move pid s s') : Kept pid s s' := by
  cases hm with
  | evict he hne => exact evict_kept h he hne
  | print hm => exact print_kept h hm
  | turn => exact { Kept.refl h with inv := h.advance }

/-- What any number of moves leaves alone. -/
theorem Moves.kept {s' : State} (h : Inv s) (hm : Moves pid s s') : Kept pid s s' := by
  induction hm with
  | refl => exact Kept.refl h
  | tail _ hstep ih => exact ih.trans (hstep.kept ih.inv)

/-! ## `free_frame` -/

/-- Emptying entry `k` of the table of `q`: the table stays, the entry is
invalid afterwards, and no other entry of the table becomes valid. -/
theorem unloadEntry_spec (h : Inv s) {q : Pid} (hq : (s.tab q).valid = true) {k : Nat}
    (hk : k < pageSize) :
    Moves pid s (unloadEntry (s.tab q).frame s k) ∧
    (unloadEntry (s.tab q).frame s k).tab q = s.tab q ∧
    (unloadEntry (s.tab q).frame s k).robin = s.robin ∧
    ((unloadEntry (s.tab q).frame s k).entry q k).valid = false := by
  have hentry : s.cell ((s.tab q).frame * pageSize + k) = s.entry q k := rfl
  unfold unloadEntry
  rw [hentry]
  by_cases hv : (s.entry q k).valid = true
  · rw [if_pos hv]
    have he : Evictable s (.page q k) (s.entry q k).frame :=
      ⟨State.holds_page.mpr ⟨hq, hk, hv, rfl⟩, fun p hc => by cases hc⟩
    show Moves pid s (s.evict (.page q k)) ∧ (s.evict (.page q k)).tab q = _ ∧
      (s.evict (.page q k)).robin = _ ∧ ((s.evict (.page q k)).entry q k).valid = _
    refine ⟨.single (.evict he (fun hc => by cases hc)), ?_, robin_evict h he.holds, ?_⟩
    · rw [tab_evict h he.holds, tab_inval]
      simp
    · rw [entry_evict h he.holds, entry_inval h he.holds hq hk]
      simp
  · rw [if_neg hv]
    exact ⟨.refl, rfl, rfl, by simpa using hv⟩

/-- The loop of `free_frame`: the table of `q` stays and loses all its pages. -/
theorem unload_spec (h : Inv s) {q : Pid} (hq : (s.tab q).valid = true) :
    Moves pid s (unload (s.tab q).frame s) ∧
    (unload (s.tab q).frame s).tab q = s.tab q ∧
    (unload (s.tab q).frame s).robin = s.robin ∧
    ∀ j, ¬ (unload (s.tab q).frame s).Resident (.page q j) := by
  -- after `k` rounds the first `k` entries are invalid
  have key : ∀ k, k ≤ pageSize →
      Moves pid s ((List.range k).foldl (unloadEntry (s.tab q).frame) s) ∧
      ((List.range k).foldl (unloadEntry (s.tab q).frame) s).tab q = s.tab q ∧
      ((List.range k).foldl (unloadEntry (s.tab q).frame) s).robin = s.robin ∧
      ∀ j, j < k →
        ¬ ((List.range k).foldl (unloadEntry (s.tab q).frame) s).Resident (.page q j) := by
    intro k
    induction k with
    | zero => exact fun _ => ⟨.refl, rfl, rfl, fun j hj => by omega⟩
    | succ k ih =>
      intro hk
      rw [List.range_succ, List.foldl_append, List.foldl_cons, List.foldl_nil]
      obtain ⟨hm, htab, hrobin, hres⟩ := ih (by omega)
      set s₁ := (List.range k).foldl (unloadEntry (s.tab q).frame) s
      have h₁ : Inv s₁ := (Moves.kept h hm).inv
      have hround : Moves pid s₁ (unloadEntry (s₁.tab q).frame s₁ k) ∧ _ :=
        unloadEntry_spec h₁ (by rw [htab]; exact hq) (by omega)
      obtain ⟨hm', htab', hrobin', hv'⟩ := hround
      rw [htab] at hm' htab' hrobin' hv'
      refine ⟨hm.trans hm', htab', hrobin'.trans hrobin, ?_⟩
      intro j hj
      by_cases hjk : j = k
      · subst hjk
        rintro ⟨f, hf⟩
        rw [(State.holds_page.mp hf).2.2.1] at hv'
        cases hv'
      · exact (Moves.kept h₁ hm').not_resident (hres j (by omega))
  obtain ⟨hm, htab, hrobin, hres⟩ := key pageSize (Nat.le_refl _)
  refine ⟨hm, htab, hrobin, ?_⟩
  rintro j ⟨f, hf⟩
  exact hres j (State.holds_page.mp hf).2.1 ⟨f, hf⟩

theorem freeVictim_proc (s : State) (q : Pid) :
    freeVictim (.proc q) s =
      (unload (s.tab q).frame (s.print (.unloading (s.tab q).procc))).evict (.table q) := rfl

/-- Giving up the frame of an owner other than the table of `pid`. -/
theorem freeVictim_spec (h : Inv s) {o : Owner} {f : Nat} (ho : s.view.Holds o f)
    (hne : o ≠ .table pid) :
    Moves pid s (freeVictim (s.view.ref o) s) ∧
    (freeVictim (s.view.ref o) s).robin = s.robin ∧
    Unowned (freeVictim (s.view.ref o) s).view.Holds f := by
  cases o with
  | page p j =>
    have he : Evictable s (.page p j) f := ⟨ho, fun q hc => by cases hc⟩
    show Moves pid s (s.evict (.page p j)) ∧ (s.evict (.page p j)).robin = _ ∧ _
    exact ⟨.single (.evict he hne), robin_evict h ho,
      h.wf.excl.unowned_of_released (released_evict h he) ho⟩
  | table q =>
    obtain ⟨hq, hf⟩ := State.holds_table.mp ho
    have hprint : Moves pid s (s.print (.unloading (s.tab q).procc)) := .single (.print rfl)
    have hloop : Moves pid (s.print (.unloading (s.tab q).procc)) _ ∧ _ :=
      unload_spec (h.print (.unloading (s.tab q).procc)) (q := q) hq
    obtain ⟨hm, htab, hrobin, hres⟩ := hloop
    rw [State.tab_print] at hm htab hrobin hres
    rw [show s.view.ref (.table q) = .proc q from rfl, freeVictim_proc]
    -- `s₁` is the state after the loop: the table is still there, its pages are not
    generalize unload (s.tab q).frame (s.print (.unloading (s.tab q).procc)) = s₁ at *
    have h₁ : Inv s₁ := (Moves.kept h (hprint.trans hm)).inv
    have ho₁ : s₁.view.Holds (.table q) f := State.holds_table.mpr ⟨by rw [htab]; exact hq,
      by rw [htab]; exact hf⟩
    have he : Evictable s₁ (.table q) f := by
      refine ⟨ho₁, ?_⟩
      intro p hc
      rw [← Owner.table.inj hc]
      exact hres
    exact ⟨(hprint.trans hm).tail (.evict he hne), (robin_evict h₁ ho₁).trans hrobin,
      h₁.wf.excl.unowned_of_released (released_evict h₁ he) ho₁⟩

theorem freeFrameFuel_victim (h : Inv s) {o : Owner} (ho : s.view.Holds o s.robin)
    (hscan : frameAllocated s s.robin = some (s.view.ref o)) (hne : o ≠ .table pid) (fuel : Nat) :
    ∃ s', freeFrameFuel pid (fuel + 1) s = some (s.robin, s') ∧ Moves pid s s' ∧
      Unowned s'.view.Holds s.robin := by
  obtain ⟨hm, hrobin, hfree⟩ := freeVictim_spec h ho hne
  have href : s.view.ref o ≠ .proc pid := by
    intro hc
    cases o with
    | table p =>
      injection hc with hc
      exact hne (congrArg Owner.table hc)
    | page p j => cases hc
  refine ⟨(freeVictim (s.view.ref o) s).advance, ?_, hm.tail .turn, hfree⟩
  rw [freeFrameFuel, hscan]
  simp only [href, if_false, hrobin]

/-- `find_free_frame`: it comes back with a frame nobody owns, having made
nothing but moves. The recursion of `free_frame` skips at most one frame,
since the table of `pid` occupies one. -/
theorem findFreeFrame_spec (h : Inv s) (pid : Pid) :
    ∃ f s', findFreeFrame pid s = some (f, s') ∧ Moves pid s s' ∧ f < pageFrames ∧
      Unowned s'.view.Holds f := by
  unfold findFreeFrame
  cases hff : s.view.firstFree with
  | some i =>
    obtain ⟨hi, hfree⟩ := View.firstFree_some hff
    exact ⟨i, s, rfl, .refl, hi, hfree⟩
  | none =>
    obtain ⟨o, ho, hscan⟩ := View.firstFree_none hff h.robin_lt
    by_cases hne : o = .table pid
    · subst hne
      -- the frame under `robin` holds the table of `pid`; the next one does not
      set s₁ := (s.print (.skipped s.robin)).advance with hs₁
      have hm₁ : Moves pid s s₁ := (Relation.ReflTransGen.single (.print rfl)).tail .turn
      have h₁ : Inv s₁ := (Moves.kept h hm₁).inv
      obtain ⟨o₁, ho₁, hscan₁⟩ := View.firstFree_none (v := s₁.view) hff h₁.robin_lt
      have hrobin : s₁.robin ≠ s.robin := by
        have := h.robin_lt
        show (if s.robin + 1 ≥ pageFrames then 0 else s.robin + 1) ≠ s.robin
        split <;> simp only [pageFrames] at * <;> omega
      have hne₁ : o₁ ≠ .table pid := by
        rintro rfl
        exact hrobin (View.Holds.unique ho₁ ho)
      obtain ⟨s', heq, hm', hfree'⟩ := freeFrameFuel_victim h₁ ho₁ hscan₁ hne₁ 3
      refine ⟨s₁.robin, s', ?_, hm₁.trans hm', h₁.robin_lt, hfree'⟩
      show freeFrameFuel pid (4 + 1) s = _
      rw [freeFrameFuel, show frameAllocated s s.robin = _ from hscan]
      simp only [View.ref, if_true]
      exact heq
    · obtain ⟨s', heq, hm', hfree'⟩ := freeFrameFuel_victim h ho hscan hne 4
      exact ⟨s.robin, s', heq, hm', h.robin_lt, hfree'⟩

end

end OsProjects.Paging.PartTwo
