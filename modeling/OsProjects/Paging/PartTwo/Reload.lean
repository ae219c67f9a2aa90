import OsProjects.Paging.PartTwo.Install

/-!
# Faulting in: `init_table`, `find_page`, `check_backing_store`

None of these functions changes the logical memory on purpose. `Quiet` says
what they do to it in spite of that: nothing while the backing store has room,
except that evicting a page 0 loses it. The specifications of the functions
add what the caller may rely on afterwards — the table of `pid` is resident,
the wanted page is resident if it existed at all.
-/

namespace OsProjects.Paging.PartTwo

open OsProjects.Lib OsProjects.Paging

/-! ## Page 0 is never found in the backing store -/

theorem Inv.not_stored_zero {s : State} (h : Inv s) (q : Pid) (i : Nat) :
    ¬ s.Stored (.page q 0) i := by
  intro hi
  have hpid : 0 ≤ (s.slot i).pid := by
    rw [hi.2.1]
    exact Int.natCast_nonneg _
  have hpage : (s.slot i).page = 0 := hi.2.2
  -- a slot in use has leaked under -2, or holds something that is not a page 0
  rcases h.slot_kind i hi.1 hpid with hl | ⟨o, ho, hne⟩
  · have := hl.2.2
    omega
  · refine hne q (Owner.num_inj ?_ ?_)
    · have h1 := ho.2.1
      have h2 := hi.2.1
      exact Fin.ext (by omega)
    · exact ho.2.2.symm.trans hi.2.2

theorem State.swapped_eq_none {s : State} {q : Pid} {m : Nat}
    (hst : ∀ i, ¬ s.Stored (.page q m) i) : s.swapped q m = none := by
  have hnone : s.slotOf q m = none := (State.slotOf_none_iff (o := .page q m)).mpr hst
  unfold State.swapped
  rw [hnone]
  rfl

theorem Inv.content_zero {s : State} (h : Inv s) (q : Pid) : s.content q 0 = s.resident q 0 := by
  unfold State.content
  rw [State.swapped_eq_none (h.not_stored_zero q), Option.or_none]

theorem State.content_of_resident {s : State} {q : Pid} {m : Nat} {c : Content}
    (hc : s.resident q m = some c) : s.content q m = some c := by
  unfold State.content
  rw [hc]
  rfl

theorem State.content_of_absent {s : State} {q : Pid} {m : Nat} (hc : s.resident q m = none) :
    s.content q m = s.swapped q m := by
  unfold State.content
  rw [hc]
  rfl

theorem State.resident_of_tab {s : State} {p : Pid} (hp : (s.tab p).valid = false) (m : Nat) :
    s.resident p m = none := by
  unfold State.resident
  rw [hp]
  rfl

theorem State.resident_of_entry {s : State} {p : Pid} {m : Nat}
    (hm : (s.entry p m).valid = false) : s.resident p m = none := by
  unfold State.resident
  rw [hm, Bool.and_false]
  rfl

/-- An unmapped page is neither in memory nor in the backing store. -/
theorem State.content_eq_none {s : State} {p : Pid} {m : Nat} (hp : (s.tab p).valid = true)
    (hm : m < pageSize) (hc : s.content p m = none) :
    (s.entry p m).valid = false ∧ ∀ i, ¬ s.Stored (.page p m) i := by
  obtain ⟨hres, hsw⟩ := Option.or_eq_none_iff.mp hc
  refine ⟨?_, (State.slotOf_none_iff (o := .page p m)).mp (Option.map_eq_none_iff.mp hsw)⟩
  by_contra hv
  exact (State.resident_eq_none_iff hm).mp hres
    ⟨_, State.holds_page.mpr ⟨hp, hm, by simpa using hv, rfl⟩⟩

/-! ## Quiet steps -/

/-- Steps that leave the logical memory alone as far as the backing store
permits. -/
structure Quiet (s s' : State) : Prop extends Remembers s s' where
  inv : Inv s'
  absent : ∀ q m, m < pageSize → s.content q m = none → s'.content q m = none
  lost : s'.leakedSlots ≠ s.leakedSlots →
    ∃ q, s.content q 0 ≠ none ∧ s'.content q 0 = none

namespace Quiet

variable {s s' s₁ s₂ : State}

theorem trans (h₁ : Quiet s s₁) (h₂ : Quiet s₁ s₂) : Quiet s s₂ where
  toRemembers := h₁.toRemembers.trans h₂.toRemembers
  inv := h₂.inv
  absent q m hm hc := h₂.absent q m hm (h₁.absent q m hm hc)
  lost hl := by
    by_cases hl₁ : s₁.leakedSlots = s.leakedSlots
    · obtain ⟨q, hq, hq'⟩ := h₂.lost (fun h => hl (h.trans hl₁))
      exact ⟨q, fun hc => hq (h₁.absent q 0 (by decide) hc), hq'⟩
    · obtain ⟨q, hq, hq'⟩ := h₁.lost hl₁
      exact ⟨q, hq, h₂.absent q 0 (by decide) hq'⟩

/-- Steps that do not touch the logical memory and its counters are quiet. -/
theorem of_same (h : Inv s) (h' : Inv s')
    (hc : ∀ q m, m < pageSize → s'.content q m = s.content q m) (hd : s'.drops = s.drops)
    (hl : s'.leakedSlots = s.leakedSlots) (ht : ∀ q, s.HasTable q → s'.HasTable q) :
    Quiet s s' where
  inv := h'
  drops_le := hd.ge
  leaked_le := hl.ge
  zeros_le := by
    unfold State.pageZeros
    have hres : ∀ q, s'.resident q 0 = s.resident q 0 := by
      intro q
      rw [← h'.content_zero, ← h.content_zero, hc q 0 (by decide)]
    simp only [hres, hl]
    exact Nat.le_refl _
  room _ := hd
  content _ q m hm _ := hc q m hm
  table _ := ht
  absent q m hm hn := (hc q m hm).trans hn
  lost hne := absurd hl hne

theorem refl (h : Inv s) : Quiet s s := of_same h h (fun _ _ _ => rfl) rfl rfl (fun _ hq => hq)

theorem of_sameLogic (h : Inv s) (h' : Inv s₁) (hs : SameLogic s s₁)
    (ht : ∀ q, s.HasTable q → s₁.HasTable q) : Quiet s s₁ :=
  of_same h h' (fun q _ hm => hs.content q hm) hs.drops hs.leaked ht

theorem print (h : Inv s) {m : Message} (hm : m.isMove = false) : Quiet s (s.print m) := by
  refine of_same h (h.print m) (fun _ _ _ => rfl) ?_ rfl (fun _ hq => hq)
  rw [drops_print, Message.not_isDrop hm]
  rfl

end Quiet

/-! ## Making room is quiet -/

section Room

variable {pid : Pid} {s s' : State}

/-- What is not in memory is not affected by making room. -/
theorem Kept.content_absent (h : Inv s) (hk : Kept pid s s') {q : Pid} {m : Nat}
    (hm : m < pageSize) (hres : s.resident q m = none) : s'.content q m = s.content q m := by
  have hno := (State.resident_eq_none_iff hm).mp hres
  have hres' : s'.resident q m = none :=
    (State.resident_eq_none_iff hm).mpr (hk.not_resident hno)
  have hslot : s'.slotOf q m = s.slotOf q m :=
    State.slotOf_congr (o := .page q m) h hk.inv (hk.absent _ hno)
  rw [State.content_of_absent hres, State.content_of_absent hres']
  unfold State.swapped
  rw [hslot]
  cases hi : s.slotOf q m with
  | none => rfl
  | some i =>
    have hst : s.Stored (.page q m) i := State.slotOf_some (o := .page q m) hi
    have hpid : 0 ≤ (s.slot i).pid := by
      rw [hst.2.1]
      exact Int.natCast_nonneg _
    rw [Option.map_some, Option.map_some, hk.slot i hpid]

theorem Kept.quiet (h : Inv s) (hk : Kept pid s s') : Quiet s s' where
  toRemembers := hk.toRemembers
  inv := hk.inv
  absent q m hm hc := by
    have hres : s.resident q m = none := by
      unfold State.content at hc
      exact (Option.or_eq_none_iff.mp hc).1
    rw [hk.content_absent h hm hres, hc]
  lost hl := by
    obtain ⟨q, hq, hq'⟩ := hk.lost hl
    rw [← h.content_zero] at hq
    rw [← hk.inv.content_zero] at hq'
    exact ⟨q, hq, hq'⟩

end Room

/-! ## `init_table` -/

/-- The pages of `p` stay where they are. -/
def PagesKept (p : Pid) (s s' : State) : Prop :=
  ∀ m, m < pageSize → s'.resident p m = s.resident p m ∧ s'.content p m = s.content p m

section Table

variable {pid : Pid} {s s' : State} {f : Nat}

theorem ofNat_frame (hf : f < pageFrames) : ((Fin.ofNat 16 f : Fin 16) : Nat) = f := by
  show f % 16 = f
  simp only [pageFrames] at hf
  omega

/-- The start of every reload: frame `f` gets the bytes of slot `i`, and the slot
becomes unused. -/
theorem fill_release (h : Inv s) (hf : f < pageFrames) (hfree : Unowned s.view.Holds f)
    {o : Owner} {i : Nat} (hst : s.Stored o i) :
    Inv (s.fill f (s.slot i).data) ∧ (s.fill f (s.slot i).data).Stored o i ∧
      Inv ((s.fill f (s.slot i).data).release i) ∧
      Unowned ((s.fill f (s.slot i).data).release i).view.Holds f ∧
      ∀ o' j, ((s.fill f (s.slot i).data).release i).Stored o' j ↔ s.Stored o' j ∧ j ≠ i := by
  have hw := fill_write (s.slot i).data hf hfree
  have hslots : ∀ o' j, (s.fill f (s.slot i).data).Stored o' j ↔ s.Stored o' j :=
    fun _ _ => State.stored_congr (fun k => State.slot_fill s f _ k)
  have hst₁ := (hslots o i).mpr hst
  refine ⟨hw.inv h, hst₁, release_inv (hw.inv h) hst₁, ?_, ?_⟩
  · exact fun o ho => hfree o ((hw.holds o f).mp ho)
  · intro o' j
    rw [stored_release hst₁, hslots]

/-- A process gains a table, the others keep theirs. -/
theorem hasTable_setTab {e : Page} (he : e.valid = true)
    (hst : ∀ q i, q ≠ pid → s.Stored (.table q) i → s'.Stored (.table q) i)
    (htab : ∀ q, s'.tab q = s.tab q) {q : Pid} (hq : s.HasTable q) :
    (s'.setTab pid e).HasTable q := by
  by_cases hqp : q = pid
  · subst hqp
    refine .inl ?_
    rw [State.setTab, State.tab_setProc]
    exact he
  · rcases hq with hv | ⟨i, hi⟩
    · refine .inl ?_
      rw [State.setTab, State.tab_setProc_ne _ _ hqp, htab]
      exact hv
    · exact .inr ⟨i, hst q i hqp hi⟩

/-- The reload of a table, once frame `f` is free: the copy, the slot and the
hardware entry touch different parts of the state. -/
theorem reloadTable_spec (h : Inv s) (hout : (s.tab pid).valid = false) (hf : f < pageFrames)
    (hfree : Unowned s.view.Holds f) {i : Nat} (hst : s.Stored (.table pid) i) {e : Page}
    (he : e.Maps pid f) :
    Inv (((s.fill f (s.slot i).data).release i).setTab pid e) ∧
      SameLogic s (((s.fill f (s.slot i).data).release i).setTab pid e) ∧
      ∀ q, s.HasTable q →
        (((s.fill f (s.slot i).data).release i).setTab pid e).HasTable q := by
  have hw := fill_write (s.slot i).data hf hfree
  obtain ⟨h₁, hst₁, h₂, hfree₂, hslots⟩ := fill_release h hf hfree hst
  -- a stored table has no valid entry, and its bytes are in the frame now
  have hempty : ((s.fill f (s.slot i).data).release i).EmptyTable pid f := by
    intro j hj
    rw [State.release, State.cell_setSlot, State.cell_fill_in s _ hf hj]
    exact h.slot_table i pid hst j hj
  have hout₁ : (((s.fill f (s.slot i).data).release i).tab pid).valid = false := by
    rw [State.release, State.tab_setSlot, State.tab_fill]
    exact hout
  have hrelease : SameLogic (s.fill f (s.slot i).data) ((s.fill f (s.slot i).data).release i) :=
    ⟨fun _ _ _ => rfl, fun q m => swapped_release_ne h₁ hst₁ (fun hc => by cases hc), rfl,
      leaked_release hst₁⟩
  refine ⟨setTab_inv h₂ hout₁ hf hfree₂ (not_stored_release h₁ hst₁) he hempty,
    ((hw.same hfree).trans hrelease).trans (setTab_same hout₁ he hempty),
    fun q => hasTable_setTab he.valid ?_ (fun p => by
      rw [State.release, State.tab_setSlot, State.tab_fill])⟩
  intro p j hp hj
  refine (hslots _ j).mpr ⟨hj, ?_⟩
  rintro rfl
  have h1 := hj.2.1
  have h2 := hst.2.1
  simp only [Owner.pid] at h1 h2
  exact hp (Fin.ext (by omega))

/-- While the table of a process is out, so are its pages, and they stay out
when the table comes in. -/
theorem PagesKept.of_reload {s₁ : State} (h : Inv s) (hk : Kept pid s s₁)
    (hout : (s.tab pid).valid = false) (hsame : SameLogic s₁ s') : PagesKept pid s s' := by
  intro m hm
  have hres := State.resident_of_tab hout m
  have hres₁ : s₁.resident pid m = none := by
    rcases hk.resident pid m hm with hr | hr
    · exact hr.trans hres
    · exact hr
  refine ⟨?_, (hsame.content pid hm).trans (hk.content_absent h hm hres)⟩
  rw [hsame.resident pid m hm, hres₁, hres]

/-- `check_backing_store(pid, -1)`: it reloads the table of `pid` exactly when
a slot holds it. -/
theorem checkTable_spec (h : Inv s) (hout : (s.tab pid).valid = false) :
    ∃ b s', checkTable pid s = some (b, s') ∧ Quiet s s' ∧
      PagesKept pid s s' ∧ (b = true → (s'.tab pid).valid = true) ∧
      (b = false → s' = s ∧ ∀ i, ¬ s.Stored (.table pid) i) := by
  unfold checkTable checkBackingStoreWith
  cases hi : s.slotOf pid (-1) with
  | none =>
    exact ⟨false, s, rfl, Quiet.refl h, fun _ _ => ⟨rfl, rfl⟩, nofun,
      fun _ => ⟨rfl, (State.slotOf_none_iff (o := .table pid)).mp hi⟩⟩
  | some i =>
    have hst : s.Stored (.table pid) i := State.slotOf_some (o := .table pid) hi
    obtain ⟨f, s₁, heq, hm, hf, hfree⟩ := findFreeFrame_spec h pid
    have hk := Moves.kept h hm
    have hout₁ : (s₁.tab pid).valid = false := by rw [hk.tab]; exact hout
    have hst₁ : s₁.Stored (.table pid) i :=
      (hk.absent _ (h.slot_absent _ i hst) i).mpr hst
    have he : Page.Maps ⟨true, (s₁.slot i).write, Fin.ofNat 16 f, pid⟩ pid f :=
      ⟨rfl, ofNat_frame hf, rfl⟩
    obtain ⟨h₂, hsame, htable⟩ := reloadTable_spec hk.inv hout₁ hf hfree hst₁ he
    have hprint := Quiet.print h₂ (m := .loadedTable pid f) rfl
    have hreload := Quiet.of_sameLogic hk.inv h₂ hsame htable
    refine ⟨true, _, ?_, ((hk.quiet h).trans hreload).trans hprint, ?_, ?_, nofun⟩
    · simp only [heq, Option.bind_eq_bind, Option.bind_some, if_true, State.slot_fill]
      rfl
    · exact fun m hm => PagesKept.of_reload h hk hout hsame m hm
    · intro _
      rw [State.tab_print, State.setTab, State.tab_setProc]

/-- The loop of `init_table` and the write of the hardware entry commute. -/
theorem clearTable_setTab (s : State) (pid : Pid) (f : Nat) (e : Page) :
    clearTable pid f (s.setTab pid e) = (clearTable pid f s).setTab pid e :=
  List.foldl_hom (fun s : State => s.setTab pid e) (fun _ _ => rfl)

/-- `init_table` of a process whose table is not resident. -/
theorem initTable_spec (h : Inv s) (hout : (s.tab pid).valid = false) :
    ∃ s', initTable pid s = some s' ∧ Quiet s s' ∧ (s'.tab pid).valid = true ∧
      PagesKept pid s s' := by
  obtain ⟨b, s₁, hcheck, hq, hown, htrue, hfalse⟩ := checkTable_spec h hout
  unfold initTable
  rw [hcheck]
  cases b with
  | true => exact ⟨s₁, rfl, hq, htrue rfl, hown⟩
  | false =>
    obtain ⟨rfl, hst⟩ := hfalse rfl
    obtain ⟨f, s₂, heq, hm, hf, hfree⟩ := findFreeFrame_spec h pid
    have hk := Moves.kept h hm
    have hout₂ : (s₂.tab pid).valid = false := by rw [hk.tab]; exact hout
    -- making room does not store what was not in memory
    have hst₂ : ∀ i, ¬ s₂.Stored (.table pid) i := by
      have hno : ¬ s₁.Resident (.table pid) := by
        rintro ⟨g, hg⟩
        rw [(State.holds_table.mp hg).1] at hout
        cases hout
      exact fun i hi => hst i ((hk.absent _ hno i).mp hi)
    obtain ⟨m, hclear, hw, hempty⟩ := clearTable_write pid hf hfree
    have he : Page.Maps ⟨true, true, Fin.ofNat 16 f, pid⟩ pid f := ⟨rfl, ofNat_frame hf, rfl⟩
    have hfree' : Unowned (s₂.withMem m).view.Holds f := fun o ho => hfree o ((hw.holds o f).mp ho)
    have h₃ := setTab_inv (hw.inv hk.inv) hout₂ hf hfree' hst₂ he hempty
    have hsame := (hw.same hfree).trans (setTab_same (s := s₂.withMem m) hout₂ he hempty)
    have hprint := Quiet.print h₃ (m := .putTable pid f) rfl
    have hnew := Quiet.of_sameLogic hk.inv h₃ hsame
      (fun q => hasTable_setTab he.valid (fun _ _ _ hi => hi) (fun _ => rfl))
    refine ⟨_, ?_, ((hk.quiet h).trans hnew).trans hprint, ?_, ?_⟩
    · simp only [heq, Option.bind_eq_bind, Option.bind_some, Bool.false_eq_true, if_false]
      rw [show State.setPage s₂ (.proc pid) _ = s₂.setTab pid _ from rfl, clearTable_setTab, hclear]
    · rw [State.tab_print, State.setTab, State.tab_setProc]
    · exact fun m hm => PagesKept.of_reload h hk hout hsame m hm

/-- `find_page`: afterwards the table of `pid` is resident and the pointer
denotes entry `n` of it. -/
theorem findPage_spec (h : Inv s) (pid : Pid) (n : Nat) :
    ∃ s', findPage pid n s = some (.cell ((s'.tab pid).frame * pageSize + n), s') ∧
      Quiet s s' ∧ (s'.tab pid).valid = true ∧ PagesKept pid s s' ∧
      ((s.tab pid).valid = true → s' = s) := by
  unfold findPage
  by_cases hp : (s.tab pid).valid = true
  · rw [if_pos hp]
    exact ⟨s, rfl, Quiet.refl h, hp, fun _ _ => ⟨rfl, rfl⟩, fun _ => rfl⟩
  · rw [if_neg hp]
    obtain ⟨s', heq, hq, hv, hown⟩ := initTable_spec h (by simpa using hp)
    rw [heq]
    exact ⟨s', rfl, hq, hv, hown, fun hc => absurd hc hp⟩

end Table

/-! ## Reloading a page -/

section Page

variable {pid : Pid} {s : State} {n f : Nat}

/-- The reload of a page, once frame `f` is free. -/
theorem reloadPage_spec (h : Inv s) (hp : (s.tab pid).valid = true) (hf : f < pageFrames)
    (hfree : Unowned s.view.Holds f) {i : Nat} (hst : s.Stored (.page pid n) i) {e : Page}
    (he : e.Maps pid f) (hwrite : e.write = (s.slot i).write) :
    Inv (((s.fill f (s.slot i).data).release i).setEntry pid n e) ∧
      (((s.fill f (s.slot i).data).release i).setEntry pid n e).entry pid n = e ∧
      (∀ q m, m < pageSize →
        (((s.fill f (s.slot i).data).release i).setEntry pid n e).content q m = s.content q m) ∧
      (((s.fill f (s.slot i).data).release i).setEntry pid n e).leakedSlots = s.leakedSlots ∧
      ∀ q, s.HasTable q →
        (((s.fill f (s.slot i).data).release i).setEntry pid n e).HasTable q := by
  have hw := fill_write (s.slot i).data hf hfree
  obtain ⟨h₁, hst₁, h₂, hfree₂, hslots⟩ := fill_release h hf hfree hst
  have hn : n < 4 := h.slot_page i pid n hst
  have hn16 : n < pageSize := by simp only [pageSize]; omega
  have hno := h.slot_absent _ i hst
  have hp₂ : (((s.fill f (s.slot i).data).release i).tab pid).valid = true := by
    rw [State.release, State.tab_setSlot, State.tab_fill]
    exact hp
  have hout : (s.entry pid n).valid = false := by
    by_contra hv
    exact hno ⟨_, State.holds_page.mpr ⟨hp, hn16, by simpa using hv, rfl⟩⟩
  have hout₂ : (((s.fill f (s.slot i).data).release i).entry pid n).valid = false := by
    rw [show State.entry (State.release _ i) pid n = State.entry _ pid n from rfl]
    exact (congrArg Page.valid (hw.entry hp hn16)).trans hout
  refine ⟨setEntry_inv h₂ hp₂ hn hout₂ hf hfree₂ (not_stored_release h₁ hst₁) he,
    State.entry_setCell _ e (h₂.tab_lt hp₂) hn16, ?_, leaked_release hst₁, ?_⟩
  rotate_left
  · rintro q (hv | ⟨j, hj⟩)
    · exact .inl hv
    · refine .inr ⟨j, (hslots _ j).mpr ⟨hj, ?_⟩⟩
      rintro rfl
      have h1 := hj.2.2
      have h2 := hst.2.2
      simp only [Owner.num] at h1 h2
      omega
  -- the reloaded page moves from the slot to the frame, the others stay
  intro q m hm
  by_cases hqm : q = pid ∧ m = n
  · obtain ⟨rfl, rfl⟩ := hqm
    have hframe : (((s.fill f (s.slot i).data).release i).tab q).frame ≠ f := by
      intro heq
      exact hfree₂ (.table q) (State.holds_table.mpr ⟨hp₂, heq⟩)
    have hslot : s.slotOf q m = some i := (State.slotOf_eq_some_iff (o := .page q m) h).mpr hst
    rw [State.content_of_resident (resident_setEntry h₂ hp₂ hm he hframe),
      State.content_of_absent ((State.resident_eq_none_iff hm).mpr hno), State.swapped, hslot,
      hwrite, State.release, State.bytes_setSlot, State.bytes_fill _ _ hf, Option.map_some]
  · have hne : Owner.page pid n ≠ .page q m := by
      intro hc
      injection hc with h1 h2
      exact hqm ⟨h1.symm, h2.symm⟩
    unfold State.content
    rw [resident_setEntry_ne h₂ hp₂ hn16 e hm hqm]
    congr 1
    · exact (hw.same hfree).resident q m hm
    · exact swapped_release_ne h₁ hst₁ hne

/-- `check_backing_store(pid, n)` for a page that is not resident: it reloads
the page exactly when a slot holds it. -/
theorem checkBackingStore_spec (h : Inv s) (hp : (s.tab pid).valid = true) (hn : n < 4)
    (hout : (s.entry pid n).valid = false) :
    ∃ b s', checkBackingStore pid n s = some (b, s') ∧ Quiet s s' ∧ s'.tab pid = s.tab pid ∧
      s'.content pid n = s.content pid n ∧
      (b = true → (s'.entry pid n).valid = true) ∧
      (b = false → s' = s ∧ s.content pid n = none) := by
  have hn16 : n < pageSize := by simp only [pageSize]; omega
  have hres := State.resident_of_entry (s := s) hout
  unfold checkBackingStore checkBackingStoreWith
  cases hi : s.slotOf pid n with
  | none =>
    have hst := (State.slotOf_none_iff (o := .page pid n)).mp hi
    refine ⟨false, s, rfl, Quiet.refl h, rfl, rfl, nofun, fun _ => ⟨rfl, ?_⟩⟩
    rw [State.content_of_absent hres, State.swapped_eq_none hst]
  | some i =>
    have hst : s.Stored (.page pid n) i := State.slotOf_some (o := .page pid n) hi
    obtain ⟨f, s₁, heq, hm, hf, hfree⟩ := findFreeFrame_spec h pid
    have hk := Moves.kept h hm
    have hp₁ : (s₁.tab pid).valid = true := by rw [hk.tab]; exact hp
    have hst₁ : s₁.Stored (.page pid n) i := (hk.absent _ (h.slot_absent _ i hst) i).mpr hst
    have he : Page.Maps ⟨true, (s₁.slot i).write, Fin.ofNat 16 f, pid⟩ pid f :=
      ⟨rfl, ofNat_frame hf, rfl⟩
    obtain ⟨h₂, hentry, hcontent, hleaked, htable⟩ :=
      reloadPage_spec hk.inv hp₁ hf hfree hst₁ he rfl
    have hprint := Quiet.print h₂ (m := .loadedPage n pid f) rfl
    have hreload := Quiet.of_same hk.inv h₂ hcontent rfl hleaked htable
    refine ⟨true, _, ?_, ((hk.quiet h).trans hreload).trans hprint, ?_, ?_, ?_, nofun⟩
    · -- the page tables were not touched, so `find_page` returns at once
      have hfind : findPage pid n (s₁.fill f (s₁.slot i).data) =
          some (.cell ((s₁.tab pid).frame * pageSize + n), s₁.fill f (s₁.slot i).data) := by
        unfold findPage
        rw [State.tab_fill, if_pos hp₁]
        rfl
      have hnum : ¬ (n : Int) = -1 := by omega
      simp only [heq, Option.bind_eq_bind, Option.bind_some, hnum, if_false, Int.toNat_natCast,
        hfind, State.slot_fill]
      rfl
    · rw [State.tab_print, State.setEntry, State.tab_setCell, State.release, State.tab_setSlot,
        State.tab_fill, hk.tab]
    · exact (hcontent pid n hn16).trans (hk.content_absent h hn16 hres)
    · intro _
      exact congrArg Page.valid hentry

end Page

end OsProjects.Paging.PartTwo
