import OsProjects.Paging.PartTwo.Inv

/-!
# Eviction of one frame

`free_specific_frame` on the entry of an owner `o`: the entry is marked
invalid, and the frame is copied to the first unused slot under the number
`get_page_num` finds for the entry. The section proves

* what the invalid mark changes (`tab_inval`, `entry_inval`, `released_inval`);
* which number the slot gets (`getPageNum_inval`) — the page number, `-1` for
  a table, and `-2` for every page 0;
* that the invariant survives (`evict_inv`), with or without an unused slot;
* what happens to the logical memory (`evict_resident`, `evict_swapped`).
-/

namespace OsProjects.Paging.PartTwo

open OsProjects.Lib OsProjects.Paging

/-- `o` may be evicted from frame `f`: it lies there, and a table goes only
after its pages. -/
structure Evictable (s : State) (o : Owner) (f : Nat) : Prop where
  holds : s.view.Holds o f
  pages : ∀ p, o = .table p → ∀ j, ¬ s.Resident (.page p j)

/-- The entry of `o` marked invalid. -/
def State.inval (s : State) (o : Owner) : State :=
  s.setPage (s.view.ref o) { s.page (s.view.ref o) with valid := false }

/-- `free_specific_frame` on the entry of `o`. -/
def State.evict (s : State) (o : Owner) : State := freeSpecificFrame (s.view.ref o) s

section Inval

variable {s : State} {o : Owner} {f : Nat}

theorem tab_inval (s : State) (o : Owner) (q : Pid) :
    (s.inval o).tab q = { s.tab q with valid := (s.tab q).valid && decide (o ≠ .table q) } := by
  cases o with
  | table p =>
    by_cases hq : q = p
    · subst hq
      simp [State.inval, View.ref, State.page]
    · have hne : Owner.table p ≠ .table q := fun h => hq (Owner.table.inj h).symm
      simp only [State.inval, View.ref, State.tab_setProc_ne _ _ hq, hne, ne_eq,
        not_false_eq_true, decide_true, Bool.and_true]
  | page p j => simp [State.inval, View.ref]

theorem entry_inval (h : Inv s) (ho : s.view.Holds o f) {q : Pid} {k : Nat}
    (hq : (s.tab q).valid = true) (hk : k < pageSize) :
    (s.inval o).entry q k =
      { s.entry q k with valid := (s.entry q k).valid && decide (o ≠ .page q k) } := by
  cases o with
  | table p =>
    have htab : ((s.inval (.table p)).tab q).frame = (s.tab q).frame := by rw [tab_inval]
    rw [State.entry_congr htab rfl]
    simp
  | page p j =>
    obtain ⟨hp, hj, _, _⟩ := State.holds_page.mp ho
    by_cases hqk : q = p ∧ k = j
    · obtain ⟨rfl, rfl⟩ := hqk
      simp only [ne_eq, not_true_eq_false, decide_false, Bool.and_false]
      exact State.entry_setCell s _ (h.tab_lt hq) hk
    · have hne : Owner.page p j ≠ .page q k := by
        intro heq
        injection heq with h1 h2
        exact hqk ⟨h1.symm, h2.symm⟩
      simp only [hne, ne_eq, not_false_eq_true, decide_true, Bool.and_true]
      -- another entry of the same table, or a table in another frame
      refine State.entry_setCell_ne s _ hj hk ?_
      by_cases hqp : q = p
      · exact .inr (fun hkj => hqk ⟨hqp, hkj⟩)
      · exact .inl (fun heq => hqp (h.tab_inj hq hp heq))

/-- Ownership after the mark. -/
theorem released_inval (h : Inv s) (he : Evictable s o f) :
    Released s.view.Holds (s.inval o).view.Holds o := by
  intro o' f'
  cases o' with
  | table q =>
    rw [State.holds_table, State.holds_table, tab_inval]
    simp only [Bool.and_eq_true, decide_eq_true_eq, ne_eq, eq_comm (a := o)]
    tauto
  | page q k =>
    rw [State.holds_page, State.holds_page]
    by_cases hq : (s.tab q).valid = true ∧ k < pageSize
    · rw [entry_inval h he.holds hq.1 hq.2, tab_inval]
      simp only [Bool.and_eq_true, decide_eq_true_eq, ne_eq, eq_comm (a := o)]
      constructor
      · rintro ⟨⟨h1, _⟩, h2, ⟨h3, h4⟩, h5⟩
        exact ⟨⟨h1, h2, h3, h5⟩, h4⟩
      · rintro ⟨⟨h1, h2, h3, h5⟩, h4⟩
        refine ⟨⟨h1, ?_⟩, h2, ⟨h3, h4⟩, h5⟩
        -- a table is evicted without pages, so `q` still has its table
        intro ht
        exact he.pages q ht.symm k ⟨f', State.holds_page.mpr ⟨h1, h2, h3, h5⟩⟩
    · rw [tab_inval]
      simp only [Bool.and_eq_true]
      constructor
      · rintro ⟨⟨h1, _⟩, h2, _⟩
        exact absurd ⟨h1, h2⟩ hq
      · rintro ⟨⟨h1, h2, _⟩, _⟩
        exact absurd ⟨h1, h2⟩ hq

theorem bytes_inval (ho : s.view.Holds o f) {g : Nat}
    (hg : ∀ q, (s.tab q).valid = true → ((s.tab q).frame : Nat) ≠ g) :
    (s.inval o).bytes g = s.bytes g := by
  cases o with
  | table p => rfl
  | page p j =>
    obtain ⟨hp, hj, _, _⟩ := State.holds_page.mp ho
    exact State.bytes_setCell_ne s _ hj (Ne.symm (hg p hp))

/-- Only the pages of the evicted object leave memory; the others stay where
they are, with the bytes they had. -/
theorem resident_inval (h : Inv s) (he : Evictable s o f) (q : Pid) {m : Nat}
    (hm : m < pageSize) :
    (s.inval o).resident q m = if o = .page q m then none else s.resident q m := by
  by_cases hq : (s.tab q).valid = true
  · by_cases ht : o = .table q
    · -- the table goes last: none of its entries is valid
      have hnone : s.resident q m = none :=
        (State.resident_eq_none_iff hm).mpr (he.pages q ht m)
      have hne : o ≠ .page q m := by rw [ht]; intro hc; cases hc
      rw [if_neg hne, hnone]
      simp [State.resident, tab_inval, ht]
    · have htab : (s.inval o).tab q = s.tab q := by
        rw [tab_inval]
        simp [ht]
      unfold State.resident
      rw [htab, entry_inval h he.holds hq hm]
      by_cases hp : o = .page q m
      · simp [hp]
      · by_cases hv : (s.entry q m).valid = true
        · simp only [hq, hv, hp, ne_eq, not_false_eq_true, decide_true, Bool.and_self, if_true,
            if_false]
          have hown : s.view.Holds (.page q m) (s.entry q m).frame :=
            State.holds_page.mpr ⟨hq, hm, hv, rfl⟩
          rw [bytes_inval he.holds (fun q' hq' => h.page_ne_tab hown hq')]
        · simp [hv]
  · have hne : o ≠ .page q m := by
      intro hc
      rw [hc] at he
      exact hq (State.holds_page.mp he.holds).1
    rw [if_neg hne]
    simp [State.resident, tab_inval, hq]

/-- The number the slot is labelled with. -/
theorem getPageNum_inval (ho : s.view.Holds o f) :
    getPageNum (s.inval o) (s.view.ref o) = o.key := by
  unfold getPageNum
  cases o with
  | table p =>
    cases hs : (List.finRange maxProcesses).findSome? _ with
    | none =>
      have := List.findSome?_eq_none_iff.mp hs p (List.mem_finRange p)
      simp [View.ref] at this
    | some x =>
      obtain ⟨i, _, hi⟩ := List.exists_of_findSome?_eq_some hs
      split at hi
      · exact (Option.some.inj hi).symm
      · split at hi
        · simp [View.ref] at hi
        · cases hi
  | page p j =>
    obtain ⟨hp, hj, _, _⟩ := State.holds_page.mp ho
    -- an entry at this address is entry `j` of its table
    have hhit : ∀ i k, k < pageSize →
        Ref.cell ((s.tab p).frame * pageSize + j) = .cell ((s.tab i).frame * pageSize + k) →
        k = j := by
      intro i k hk heq
      injection heq with heq
      exact (addr_inj hj hk heq).2.symm
    have htab : ∀ i, (s.inval (.page p j)).tab i = s.tab i := by
      intro i
      rw [tab_inval]
      simp
    cases hs : (List.finRange maxProcesses).findSome? _ with
    | none =>
      have hno := List.findSome?_eq_none_iff.mp hs p (List.mem_finRange p)
      rw [if_neg (by intro hc; cases hc), htab, if_pos hp, Option.map_eq_none_iff,
        List.find?_eq_none] at hno
      cases j with
      | zero => rfl -- the scan starts at entry 1 and misses this one
      | succ j =>
        refine absurd ?_ (hno (j + 1) ?_)
        · exact decide_eq_true rfl
        · simp only [List.mem_range'_1, pageSize] at hj ⊢
          omega
    | some x =>
      obtain ⟨i, _, hi⟩ := List.exists_of_findSome?_eq_some hs
      rw [if_neg (by intro hc; cases hc), htab] at hi
      split at hi
      · obtain ⟨k, hk, rfl⟩ := Option.map_eq_some_iff.mp hi
        have hmem := List.mem_of_find?_eq_some hk
        have hdec := List.find?_some hk
        have heq := of_decide_eq_true hdec
        simp only [List.mem_range'_1, pageSize] at hmem
        have hkj := hhit i k (by simp only [pageSize]; omega) heq
        subst hkj
        cases k with
        | zero => omega
        | succ k => rfl
      · cases hi

end Inval

/-! ## The slot -/

section Evict

variable {s : State} {o : Owner} {f : Nat}

/-- The entry of an owner. -/
theorem page_ref (h : Inv s) (ho : s.view.Holds o f) :
    ((s.page (s.view.ref o)).frame : Nat) = f ∧ (s.page (s.view.ref o)).procc = o.pid ∧
      (s.inval o).page (s.view.ref o) = { s.page (s.view.ref o) with valid := false } := by
  cases o with
  | table p =>
    obtain ⟨hp, hf⟩ := State.holds_table.mp ho
    exact ⟨hf, h.tab_procc p hp, State.tab_setProc s p _⟩
  | page p j =>
    obtain ⟨hp, hj, _, hf⟩ := State.holds_page.mp ho
    exact ⟨hf, h.entry_procc p j hp hj, State.cell_setCell s _ (addr_lt (h.tab_lt hp) hj)⟩

/-- The slot an eviction fills. -/
def State.evicted (s : State) (o : Owner) (f : Nat) : StoredFrame where
  data := s.bytes f
  pid := o.pid.val
  page := o.key
  write := (s.page (s.view.ref o)).write

/-- `free_specific_frame` on an owned frame. -/
theorem evict_eq (h : Inv s) (ho : s.view.Holds o f) :
    s.evict o = match s.freeSlot with
      | some i => ((s.inval o).setSlot i (s.evicted o f)).print (.moved f i)
      | none => (s.inval o).print (.moved f storeFrames) := by
  obtain ⟨hf, hprocc, hpage⟩ := page_ref h ho
  have hbytes : (s.inval o).bytes f = s.bytes f := by
    cases o with
    | table p => rfl
    | page p j => exact bytes_inval ho (fun q hq => h.page_ne_tab ho hq)
  have hslot : (s.inval o).freeSlot = s.freeSlot := State.freeSlot_setPage s _ _
  show (match (s.inval o).freeSlot with
    | some i => _
    | none => _) = _
  rw [hslot]
  cases s.freeSlot with
  | none =>
    show (s.inval o).print (.moved ((s.inval o).page (s.view.ref o)).frame storeFrames) = _
    rw [hpage, hf]
  | some i =>
    show ((s.inval o).setSlot i
      { data := (s.inval o).bytes ((s.inval o).page (s.view.ref o)).frame
        pid := ((s.inval o).page (s.view.ref o)).procc.val
        page := getPageNum (s.inval o) (s.view.ref o)
        write := ((s.inval o).page (s.view.ref o)).write }).print
          (.moved ((s.inval o).page (s.view.ref o)).frame i) = _
    rw [hpage, getPageNum_inval ho]
    simp only [hf, hbytes, hprocc]
    rfl

/-- What the slots hold after one of the unused ones is filled. -/
theorem stored_setSlot {i : Nat} (b : StoredFrame) (hi : i < storeFrames)
    (hfree : (s.slot i).pid < 0) {o' : Owner} {j : Nat} :
    (s.setSlot i b).Stored o' j ↔
      s.Stored o' j ∨ (j = i ∧ b.pid = o'.pid.val ∧ b.page = o'.num) := by
  unfold State.Stored
  by_cases hj : j = i
  · subst hj
    rw [State.slot_setSlot s b hi]
    constructor
    · rintro ⟨_, h1, h2⟩
      exact .inr ⟨rfl, h1, h2⟩
    · rintro (⟨_, h1, _⟩ | ⟨_, h1, h2⟩)
      · omega
      · exact ⟨hi, h1, h2⟩
  · rw [State.slot_setSlot_ne s b hj]
    tauto

theorem stored_inval {o' : Owner} {j : Nat} : (s.inval o).Stored o' j ↔ s.Stored o' j :=
  State.stored_congr (State.slot_setPage s _ _)

/-- The filled slot holds the evicted object, unless that is a page 0. -/
theorem stored_evicted {o' : Owner} :
    ((s.evicted o f).pid = o'.pid.val ∧ (s.evicted o f).page = o'.num) ↔
      o' = o ∧ ∀ p, o ≠ .page p 0 := by
  show ((o.pid.val : Int) = o'.pid.val ∧ o.key = o'.num) ↔ _
  constructor
  · rintro ⟨hp, hk⟩
    obtain ⟨h1, h2⟩ := Owner.of_key_eq_num (Fin.ext (by omega)) hk
    exact ⟨h1.symm, h2⟩
  · rintro ⟨rfl, hne⟩
    exact ⟨rfl, Owner.key_eq_num hne⟩

/-- The invariant after the mark; the slots are as before. -/
theorem inval_inv (h : Inv s) (he : Evictable s o f) : Inv (s.inval o) := by
  have hrel := released_inval h he
  have hvalid : ∀ p, ((s.inval o).tab p).valid = true → (s.tab p).valid = true := by
    intro p hp
    rw [tab_inval] at hp
    exact ((Bool.and_eq_true _ _).mp hp).1
  refine h.of_slots_eq (State.slot_setPage s _ _) ⟨h.wf.excl.released hrel, ?_, ?_⟩ ?_ ?_ ?_ ?_
  · intro o' f' ho'
    exact h.wf.frame_lt o' f' ((hrel o' f').mp ho').1
  · intro p j f' ho'
    exact h.wf.page_lt p j f' ((hrel _ f').mp ho').1
  · have hrobin : (s.inval o).robin = s.robin := by cases o <;> rfl
    exact hrobin ▸ h.robin_lt
  · intro p hp
    rw [tab_inval]
    exact h.tab_procc p (hvalid p hp)
  · intro p j hp hj
    rw [entry_inval h he.holds (hvalid p hp) hj]
    exact h.entry_procc p j (hvalid p hp) hj
  · rintro o' i hst ⟨f', hf'⟩
    exact h.slot_absent o' i hst ⟨f', ((hrel o' f').mp hf').1⟩

/-- Filling an unused slot with the object just marked invalid. -/
theorem setSlot_evicted_inv (h : Inv s) (he : Evictable s o f) {i : Nat}
    (hi : s.freeSlot = some i) : Inv ((s.inval o).setSlot i (s.evicted o f)) := by
  have h1 := inval_inv h he
  have hrel := released_inval h he
  obtain ⟨hlt, hneg⟩ := State.freeSlot_some hi
  have hfree : ((s.inval o).slot i).pid < 0 := by
    rw [show (s.inval o).slot i = s.slot i from State.slot_setPage s _ _ i]
    exact hneg
  have hst : ∀ o' j, ((s.inval o).setSlot i (s.evicted o f)).Stored o' j ↔
      (s.inval o).Stored o' j ∨ (j = i ∧ o' = o ∧ ∀ p, o ≠ .page p 0) := by
    intro o' j
    rw [stored_setSlot _ hlt hfree, stored_evicted]
  -- the evicted object was resident, so no slot held it
  have habsent : ∀ j, ¬ (s.inval o).Stored o j :=
    fun j hj => h.slot_absent o j (stored_inval.mp hj) ⟨f, he.holds⟩
  constructor
  · exact h1.wf
  · exact h1.robin_lt
  · exact h1.tab_procc
  · exact h1.entry_procc
  · -- slot_kind: the filled slot can be looked up again unless it got a page 0
    intro j hj hpid
    by_cases hji : j = i
    · subst hji
      by_cases hz : ∀ p, o ≠ .page p 0
      · exact .inr ⟨o, (hst o j).mpr (.inr ⟨rfl, rfl, hz⟩), hz⟩
      · push Not at hz
        obtain ⟨p, rfl⟩ := hz
        refine .inl ⟨hlt, hpid, ?_⟩
        rw [State.slot_setSlot _ _ hlt]
        rfl
    · rw [State.slot_setSlot_ne _ _ hji] at hpid
      rcases h1.slot_kind j hj hpid with hl | ⟨o', ho', hne⟩
      · refine .inl ⟨hj, ?_, ?_⟩
        · rw [State.slot_setSlot_ne _ _ hji]; exact hl.2.1
        · rw [State.slot_setSlot_ne _ _ hji]; exact hl.2.2
      · exact .inr ⟨o', (hst o' j).mpr (.inl ho'), hne⟩
  · intro j p hj
    rcases (hst _ j).mp hj with hold | ⟨rfl, rfl, _⟩
    · have hji : j ≠ i := by
        rintro rfl
        have := hold.2.1
        omega
      rw [State.slot_setSlot_ne _ _ hji]
      exact h1.slot_table j p hold
    · -- the table just evicted: its entries were read from its own frame
      intro k hk
      rw [State.slot_setSlot _ _ hlt]
      obtain ⟨hp, hf⟩ := State.holds_table.mp he.holds
      have hentry : Page.ofByte ((s.evicted (.table p) f).data.get k) = s.entry p k := by
        show Page.ofByte ((s.bytes f).get k) = _
        rw [State.get_bytes _ _ hk, ← hf]
        rfl
      rw [hentry]
      refine ⟨?_, h.entry_procc p k hp hk⟩
      by_contra hv
      exact he.pages p rfl k ⟨_, State.holds_page.mpr
        ⟨hp, hk, Bool.not_eq_false _ ▸ hv, rfl⟩⟩
  · intro j p n hj
    rcases (hst _ j).mp hj with hold | ⟨rfl, rfl, _⟩
    · exact h1.slot_page j p n hold
    · exact h.wf.page_lt p n f he.holds
  · -- slot_unique: a second copy would have been there while the object was in memory
    intro o' j j' hj hj'
    rcases (hst o' j).mp hj with hold | ⟨rfl, rfl, _⟩
    · rcases (hst o' j').mp hj' with hold' | ⟨rfl, rfl, _⟩
      · exact h1.slot_unique o' j j' hold hold'
      · exact absurd hold (habsent j)
    · rcases (hst o' j').mp hj' with hold' | ⟨rfl, _, _⟩
      · exact absurd hold' (habsent j')
      · rfl
  · rintro o' j hj ⟨f', hf'⟩
    rcases (hst o' j).mp hj with hold | ⟨_, rfl, _⟩
    · exact h1.slot_absent o' j hold ⟨f', hf'⟩
    · exact ((hrel o' f').mp hf').2 rfl

theorem Inv.print (h : Inv s) (m : Message) : Inv (s.print m) :=
  ⟨h.wf, h.robin_lt, h.tab_procc, h.entry_procc, h.slot_kind, h.slot_table, h.slot_page,
    h.slot_unique, h.slot_absent⟩

/-- Only the ownership of the evicted object ends. -/
theorem released_evict (h : Inv s) (he : Evictable s o f) :
    Released s.view.Holds (s.evict o).view.Holds o := by
  rw [evict_eq h he.holds]
  cases s.freeSlot <;> exact released_inval h he

/-- Eviction keeps the invariant, whether or not a slot is left. -/
theorem evict_inv (h : Inv s) (he : Evictable s o f) : Inv (s.evict o) := by
  rw [evict_eq h he.holds]
  cases hi : s.freeSlot with
  | none => exact (inval_inv h he).print _
  | some i => exact (setSlot_evicted_inv h he hi).print _

/-! ## Effect on the logical memory -/

theorem tab_evict (h : Inv s) (ho : s.view.Holds o f) (q : Pid) :
    (s.evict o).tab q = (s.inval o).tab q := by
  rw [evict_eq h ho]
  cases s.freeSlot <;> rfl

theorem entry_evict (h : Inv s) (ho : s.view.Holds o f) (q : Pid) (k : Nat) :
    (s.evict o).entry q k = (s.inval o).entry q k := by
  rw [evict_eq h ho]
  cases s.freeSlot <;> rfl

theorem robin_evict (h : Inv s) (ho : s.view.Holds o f) : (s.evict o).robin = s.robin := by
  have hinval : (s.inval o).robin = s.robin := by cases o <;> rfl
  rw [evict_eq h ho]
  cases s.freeSlot <;> exact hinval

theorem resident_evict (h : Inv s) (he : Evictable s o f) (q : Pid) {m : Nat}
    (hm : m < pageSize) :
    (s.evict o).resident q m = if o = .page q m then none else s.resident q m := by
  rw [← resident_inval h he q hm, evict_eq h he.holds]
  cases s.freeSlot <;> rfl

/-- A used slot is not touched. -/
theorem slot_evict (h : Inv s) (ho : s.view.Holds o f) {i : Nat}
    (hi : 0 ≤ (s.slot i).pid) : (s.evict o).slot i = s.slot i := by
  rw [evict_eq h ho]
  cases hs : s.freeSlot with
  | none => exact State.slot_setPage s _ _ i
  | some j =>
    have hij : i ≠ j := by
      rintro rfl
      have := (State.freeSlot_some hs).2
      omega
    show ((s.inval o).setSlot j (s.evicted o f)).slot i = s.slot i
    rw [State.slot_setSlot_ne _ _ hij]
    exact State.slot_setPage s _ _ i

/-- The slots gain the evicted object at most. -/
theorem stored_evict (h : Inv s) (he : Evictable s o f) {o' : Owner} {j : Nat} :
    (s.evict o).Stored o' j ↔
      s.Stored o' j ∨ (s.freeSlot = some j ∧ o' = o ∧ ∀ p, o ≠ .page p 0) := by
  rw [evict_eq h he.holds]
  cases hs : s.freeSlot with
  | none =>
    show (s.inval o).Stored o' j ↔ _
    rw [stored_inval]
    simp
  | some i =>
    obtain ⟨hlt, hneg⟩ := State.freeSlot_some hs
    show ((s.inval o).setSlot i (s.evicted o f)).Stored o' j ↔ _
    rw [stored_setSlot _ hlt ((State.slot_setPage s _ _ i).symm ▸ hneg), stored_evicted,
      stored_inval]
    simp only [Option.some.injEq, eq_comm (a := i)]

/-- Objects other than the evicted one are where they were. -/
theorem swapped_evict_ne (h : Inv s) (he : Evictable s o f) {q : Pid} {m : Nat}
    (hne : o ≠ .page q m) : (s.evict o).swapped q m = s.swapped q m := by
  have hslot : (s.evict o).slotOf q m = s.slotOf q m := by
    refine State.slotOf_congr (o := .page q m) h (evict_inv h he) (fun i => ?_)
    rw [stored_evict h he]
    constructor
    · rintro (hst | ⟨_, heq, _⟩)
      · exact hst
      · exact absurd heq.symm hne
    · exact .inl
  unfold State.swapped
  rw [hslot]
  cases hs : s.slotOf q m with
  | none => rfl
  | some i =>
    have hst : s.Stored (.page q m) i := State.slotOf_some hs
    have hused : 0 ≤ (s.slot i).pid := by
      rw [hst.2.1]
      omega
    simp only [Option.map_some, slot_evict h he.holds hused]

/-- The evicted page is in the slot that was filled, as it was in memory. -/
theorem swapped_evict (h : Inv s) {q : Pid} {m : Nat} (he : Evictable s (.page q m) f)
    (hm : m ≠ 0) (hfree : s.freeSlot ≠ none) :
    (s.evict (.page q m)).swapped q m = s.resident q m := by
  obtain ⟨i, hi⟩ := Option.ne_none_iff_exists'.mp hfree
  obtain ⟨hlt, _⟩ := State.freeSlot_some hi
  have hst : (s.evict (.page q m)).Stored (.page q m) i := by
    rw [stored_evict h he]
    refine .inr ⟨hi, rfl, ?_⟩
    intro p hc
    injection hc with _ hc
    exact hm hc
  have hslotOf : (s.evict (.page q m)).slotOf q m = some i :=
    (State.slotOf_eq_some_iff (evict_inv h he) (o := .page q m)).mpr hst
  have hslot : (s.evict (.page q m)).slot i = s.evicted (.page q m) f := by
    rw [evict_eq h he.holds, hi]
    exact State.slot_setSlot _ _ hlt
  obtain ⟨hq, hmlt, hv, hf⟩ := State.holds_page.mp he.holds
  rw [State.resident_eq_some hq hv, State.swapped, hslotOf, hf]
  show some ((s.evict (.page q m)).slot i |>.data, _) = _
  rw [hslot]
  rfl

/-- As long as a slot is left and page 0 is spared, eviction does not change
the logical memory. -/
theorem content_evict (h : Inv s) (he : Evictable s o f) (hfree : s.freeSlot ≠ none)
    {q : Pid} {m : Nat} (hm : m < pageSize) (hz : m ≠ 0 ∨ o ≠ .page q 0) :
    (s.evict o).content q m = s.content q m := by
  unfold State.content
  rw [resident_evict h he q hm]
  by_cases ho : o = .page q m
  · subst ho
    have hm0 : m ≠ 0 := by
      rcases hz with hz | hz
      · exact hz
      · rintro rfl
        exact hz rfl
    obtain ⟨hq, _, hv, _⟩ := State.holds_page.mp he.holds
    rw [if_pos rfl, swapped_evict h he hm0 hfree, State.resident_eq_some hq hv]
    rfl
  · rw [if_neg ho, swapped_evict_ne h he ho]

/-! ## Effect on the counters -/

theorem drops_print (s : State) (m : Message) :
    (s.print m).drops = s.drops + (if m.isDrop then 1 else 0) := by
  simp [State.drops, State.print, List.countP_append, List.countP_cons]

theorem drops_inval (s : State) (o : Owner) : (s.inval o).drops = s.drops := by
  cases o <;> rfl

/-- An eviction counts as dropped exactly when no slot is unused. -/
theorem drops_evict (h : Inv s) (ho : s.view.Holds o f) :
    (s.evict o).drops = s.drops + (if s.freeSlot = none then 1 else 0) := by
  rw [evict_eq h ho]
  cases hs : s.freeSlot with
  | none =>
    rw [drops_print, drops_inval]
    simp [Message.isDrop]
  | some i =>
    have hi := (State.freeSlot_some hs).1
    rw [drops_print]
    show (s.inval o).drops + _ = _
    rw [drops_inval]
    simp [Message.isDrop]
    omega

/-- A slot leaks exactly when a page 0 gets one. -/
theorem leaked_evict (h : Inv s) (ho : s.view.Holds o f) :
    (s.evict o).leakedSlots =
      s.leakedSlots + (if s.freeSlot ≠ none ∧ ∃ p, o = .page p 0 then 1 else 0) := by
  have hinval : (s.inval o).leakedSlots = s.leakedSlots := by cases o <;> rfl
  rw [evict_eq h ho]
  cases hs : s.freeSlot with
  | none =>
    rw [if_neg (by simp)]
    exact hinval
  | some i =>
    obtain ⟨hi, hneg⟩ := State.freeSlot_some hs
    -- the count moves by the old and the new label of the one slot that is written
    have hcount := (s.inval o).backingStore.used_set (s.evicted o f) hi
      (fun b => decide (0 ≤ b.pid) && decide (b.page = -2))
    have hold : ((s.inval o).backingStore.get i) = s.slot i := State.slot_setPage s _ _ i
    have hnew : (decide (0 ≤ (s.evicted o f).pid) && decide ((s.evicted o f).page = -2)) =
        decide (∃ p, o = .page p 0) := by
      have hpid : 0 ≤ (s.evicted o f).pid := Int.natCast_nonneg _
      rw [decide_eq_true hpid, Bool.true_and, decide_eq_decide]
      exact Owner.key_eq_neg_two_iff
    rw [hold, hnew, decide_eq_false (show ¬ 0 ≤ (s.slot i).pid by omega)] at hcount
    show ((s.inval o).setSlot i (s.evicted o f)).leakedSlots = _
    rw [← hinval]
    simp only [Bool.false_and, Bool.false_eq_true, if_false, Nat.add_zero, decide_eq_true_eq]
      at hcount
    simp only [ne_eq, reduceCtorEq, not_false_eq_true, true_and]
    exact hcount

end Evict

end OsProjects.Paging.PartTwo
