import OsProjects.Paging.PartTwo.Runs

/-!
# `Project4/Part2`: the printed lines as an account

A reader of the output keeps a note of where each table and each page is, and changes it at
the lines that say that something was moved, loaded, put or mapped. `Located` says that the
notes are right: an object is noted in a frame exactly if it holds the frame, and what a slot
holds is noted there. Every function keeps the notes right (`Reported`), and so does every run
(`account_is_right`), also after a frame was dropped for want of a slot. A page 0 is noted in
the slot it was moved to, although the program will not find it there.
-/

namespace OsProjects.Paging

inductive Place
  | frame (f : Nat)
  | slot (i : Nat)
  deriving DecidableEq

/-- Where each object is, as far as the reader knows. -/
abbrev Notes := Owner → Option Place

/-- A line is read that was printed in a call for `pid`. -/
def Notes.read (pid : Pid) (b : Notes) : Message → Notes
  | .moved f i => fun o =>
    if b o = some (.frame f) then if i < PartTwo.storeFrames then some (.slot i) else none else b o
  | .loadedTable p f => Function.update b (.table p) (some (.frame f))
  | .loadedPage n p f => Function.update b (.page p n) (some (.frame f))
  | .putTable p f => Function.update b (.table p) (some (.frame f))
  -- the line does not name the process
  | .mapped _ n f => Function.update b (.page pid n) (some (.frame f))
  | _ => b

/-- The line says nothing about places. -/
def Message.Idle (m : Message) : Prop := ∀ pid b, Notes.read pid b m = b

/-- The lines that `free_frame` prints. -/
def Message.makesRoom : Message → Bool
  | .moved _ _ => true
  | .unloading _ => true
  | .skipped _ => true
  | _ => false

/-- A line of `free_frame` is that of an eviction, or says nothing about places. -/
theorem Message.idle_of_makesRoom {m : Message} (hm : m.makesRoom = true)
    (hno : m.isMove = false) : m.Idle :=
  match m, hm, hno with
  | .unloading _, _, _ => fun _ _ => rfl
  | .skipped _, _, _ => fun _ _ => rfl

end OsProjects.Paging

namespace OsProjects.Paging.PartTwo

open OsProjects.Lib OsProjects.Paging

/-- The notes are right. -/
structure Located (b : Notes) (s : State) : Prop where
  frame : ∀ o f, b o = some (.frame f) ↔ s.view.Holds o f
  slot : ∀ o i, b o = some (.slot i) →
    i < storeFrames ∧ (s.slot i).pid = o.pid.val ∧ (s.slot i).page = o.key
  stored : ∀ o i, s.Stored o i → b o = some (.slot i)

/-- The lines printed from `s` to `s'` keep the notes right. -/
def Reported (pid : Pid) (s s' : State) : Prop :=
  ∃ lines, s'.out = s.out ++ lines ∧ ∀ b, Located b s → Located (lines.foldl (Notes.read pid) b) s'

namespace Reported

variable {pid : Pid} {s s' s'' : State}

theorem refl (s : State) : Reported pid s s := ⟨[], (List.append_nil _).symm, fun _ h => h⟩

theorem trans (h₁ : Reported pid s s') (h₂ : Reported pid s' s'') : Reported pid s s'' := by
  obtain ⟨lines₁, hout₁, hread₁⟩ := h₁
  obtain ⟨lines₂, hout₂, hread₂⟩ := h₂
  refine ⟨lines₁ ++ lines₂, by rw [hout₂, hout₁, List.append_assoc], fun b hb => ?_⟩
  rw [List.foldl_append]
  exact hread₂ _ (hread₁ b hb)

/-- Nothing printed, and nothing moved. -/
theorem silent (hout : s'.out = s.out) (hholds : ∀ o f, s'.view.Holds o f ↔ s.view.Holds o f)
    (hslot : ∀ i, s'.slot i = s.slot i) : Reported pid s s' := by
  refine ⟨[], by rw [hout, List.append_nil], fun b hb => ⟨?_, ?_, ?_⟩⟩
  · intro o f
    rw [hholds]
    exact hb.frame o f
  · intro o i
    rw [hslot]
    exact hb.slot o i
  · exact fun o i hi => hb.stored o i ((State.stored_congr hslot).mp hi)

theorem print {m : Message} (hm : m.Idle) (s : State) : Reported pid s (s.print m) := by
  refine ⟨[m], rfl, fun b hb => ?_⟩
  rw [List.foldl_cons, List.foldl_nil, hm]
  exact ⟨hb.frame, hb.slot, hb.stored⟩

/-- An object that was not in memory takes a frame, and gives up its slot if it had one. -/
theorem install {o : Owner} {f : Nat} {m : Message}
    (hread : ∀ b, Notes.read pid b m = Function.update b o (some (.frame f)))
    (hout : s'.out = s.out ++ [m]) (hclaim : Claimed s.view.Holds s'.view.Holds o f)
    (hnot : ¬ s.Resident o) (hkeep : ∀ j, s'.slot j = s.slot j ∨ s.Stored o j)
    (hstored : ∀ o' j, s'.Stored o' j → s.Stored o' j ∧ o' ≠ o) : Reported pid s s' := by
  refine ⟨[m], hout, fun b hb => ?_⟩
  rw [List.foldl_cons, List.foldl_nil, hread]
  refine ⟨?_, ?_, ?_⟩
  · intro o' g
    rw [hclaim]
    by_cases ho : o' = o
    · subst ho
      rw [Function.update_self]
      have hno : ¬ s.view.Holds o' g := fun hg => hnot ⟨g, hg⟩
      simp [hno, eq_comm]
    · rw [Function.update_of_ne ho, hb.frame]
      simp [ho]
  · intro o' j hj
    by_cases ho : o' = o
    · subst ho
      rw [Function.update_self] at hj
      cases hj
    · rw [Function.update_of_ne ho] at hj
      obtain ⟨hlt, hpid, hpage⟩ := hb.slot o' j hj
      rcases hkeep j with hsame | hst
      · rw [hsame]
        exact ⟨hlt, hpid, hpage⟩
      · -- the slot that was given up is labelled with `o`
        have hpids : o'.pid = o.pid := by
          have := hst.2.1
          exact Fin.ext (by omega)
        exact absurd (Owner.of_key_eq_num hpids (hpage.symm.trans hst.2.2)).1 ho
  · intro o' j hj
    obtain ⟨hst, ho⟩ := hstored o' j hj
    rw [Function.update_of_ne ho]
    exact hb.stored o' j hst

end Reported

/-! ## Making room -/

section Room

variable {pid : Pid} {s s' : State} {o : Owner} {f : Nat}

theorem out_inval (s : State) (o : Owner) : (s.inval o).out = s.out := by
  cases o <;> rfl

/-- The slot that an eviction fills. -/
theorem slot_evict_new (h : Inv s) (ho : s.view.Holds o f) {i : Nat} (hi : s.freeSlot = some i) :
    (s.evict o).slot i = s.evicted o f := by
  rw [evict_eq h ho, hi]
  exact State.slot_setSlot _ _ (State.freeSlot_some hi).1

theorem Reported.evict (h : Inv s) (he : Evictable s o f) : Reported pid s (s.evict o) := by
  obtain ⟨i, hout, hslot, hfree⟩ : ∃ i, (s.evict o).out = s.out ++ [.moved f i] ∧
      (i < storeFrames → s.freeSlot = some i) ∧ ∀ j, s.freeSlot = some j → i = j := by
    rw [evict_eq h he.holds]
    cases hs : s.freeSlot with
    | none =>
      exact ⟨storeFrames, congrArg (· ++ _) (out_inval s o), fun hlt => absurd hlt (lt_irrefl _),
        fun j hj => by cases hj⟩
    | some i =>
      exact ⟨i, congrArg (· ++ _) (out_inval s o), fun _ => rfl, fun j hj => Option.some.inj hj⟩
  refine ⟨[.moved f i], hout, fun b hb => ?_⟩
  rw [List.foldl_cons, List.foldl_nil, Notes.read]
  have hown := (hb.frame o f).mpr he.holds
  -- nobody else is noted in the frame
  have honly : ∀ o', b o' = some (.frame f) → o' = o :=
    fun o' ho' => h.wf.excl o' o f ((hb.frame o' f).mp ho') he.holds
  refine ⟨?_, ?_, ?_⟩
  · intro o' g
    rw [released_evict h he]
    by_cases ho' : b o' = some (.frame f)
    · rw [if_pos ho', honly o' ho']
      split <;> simp
    · rw [if_neg ho', hb.frame]
      refine ⟨fun hg => ⟨hg, ?_⟩, fun hg => hg.1⟩
      rintro rfl
      exact ho' hown
  · intro o' j hj
    by_cases ho' : b o' = some (.frame f)
    · rw [if_pos ho'] at hj
      obtain rfl := honly o' ho'
      split at hj
      · next hlt =>
        cases hj
        rw [slot_evict_new h he.holds (hslot hlt)]
        exact ⟨hlt, rfl, rfl⟩
      · cases hj
    · rw [if_neg ho'] at hj
      obtain ⟨hlt, hpid, hpage⟩ := hb.slot o' j hj
      rw [slot_evict h he.holds (by rw [hpid]; exact Int.natCast_nonneg _)]
      exact ⟨hlt, hpid, hpage⟩
  · intro o' j hj
    rcases (stored_evict h he).mp hj with hst | ⟨hs, rfl, -⟩
    · have hnoted := hb.stored o' j hst
      rw [if_neg (by rw [hnoted]; simp), hnoted]
    · obtain rfl := hfree j hs
      rw [if_pos hown, if_pos (State.freeSlot_some hs).1]

/-- Nothing but lines of `free_frame` is printed. -/
def PrintsRoom (s s' : State) : Prop :=
  ∃ lines, s'.out = s.out ++ lines ∧ ∀ m ∈ lines, m.makesRoom = true

theorem PrintsRoom.refl (s : State) : PrintsRoom s s :=
  ⟨[], (List.append_nil _).symm, fun _ hm => absurd hm List.not_mem_nil⟩

theorem PrintsRoom.trans {s₁ : State} (h₁ : PrintsRoom s s₁) (h₂ : PrintsRoom s₁ s') :
    PrintsRoom s s' := by
  obtain ⟨lines₁, hout₁, hall₁⟩ := h₁
  obtain ⟨lines₂, hout₂, hall₂⟩ := h₂
  refine ⟨lines₁ ++ lines₂, by rw [hout₂, hout₁, List.append_assoc], fun m hm => ?_⟩
  rcases List.mem_append.mp hm with hm | hm
  · exact hall₁ m hm
  · exact hall₂ m hm

theorem PrintsRoom.line {m : Message} (hm : m.makesRoom = true) (hout : s'.out = s.out ++ [m]) :
    PrintsRoom s s' :=
  ⟨[m], hout, fun m' hm' => by rw [List.mem_singleton.mp hm']; exact hm⟩

theorem freeSpecificFrame_prints (page : Ref) (s : State) :
    PrintsRoom s (freeSpecificFrame page s) := by
  have hset : ∀ e, (s.setPage page e).out = s.out := fun e => by cases page <;> rfl
  unfold freeSpecificFrame
  dsimp only
  split
  · exact .line rfl (congrArg (· ++ _) (hset _))
  · exact .line rfl (congrArg (· ++ _) (hset _))

theorem unload_prints (frame : Nat) (s : State) : PrintsRoom s (unload frame s) := by
  unfold unload
  generalize List.range pageSize = ks
  induction ks generalizing s with
  | nil => exact .refl s
  | cons k ks ih =>
    refine .trans ?_ (ih _)
    unfold unloadEntry
    split
    · exact freeSpecificFrame_prints _ s
    · exact .refl s

theorem freeVictim_prints (page : Ref) (s : State) : PrintsRoom s (freeVictim page s) := by
  unfold freeVictim
  refine .trans ?_ (freeSpecificFrame_prints _ _)
  cases page with
  | proc p => exact .trans (.line rfl rfl) (unload_prints _ _)
  | cell a => exact .refl s

theorem freeFrameFuel_prints {fuel : Nat} (heq : freeFrameFuel pid fuel s = some (f, s')) :
    PrintsRoom s s' := by
  induction fuel generalizing s with
  | zero => cases heq
  | succ fuel ih =>
    rw [freeFrameFuel] at heq
    split at heq
    · cases heq
    · next page _ =>
      split at heq
      · exact .trans (.line rfl rfl) (ih heq)
      · cases heq
        exact freeVictim_prints page s

theorem findFreeFrame_prints (heq : findFreeFrame pid s = some (f, s')) : PrintsRoom s s' := by
  unfold findFreeFrame at heq
  split at heq
  · cases heq
    exact .refl s
  · exact freeFrameFuel_prints heq

theorem Move.out (hm : Move pid s s') : ∃ lines, s'.out = s.out ++ lines := by
  cases hm with
  | evict he _ =>
    obtain ⟨lines, hout, -⟩ := freeSpecificFrame_prints (s.view.ref _) s
    exact ⟨lines, hout⟩
  | print _ => exact ⟨_, rfl⟩
  | turn => exact ⟨[], (List.append_nil _).symm⟩

theorem Moves.out (hm : Moves pid s s') : ∃ lines, s'.out = s.out ++ lines := by
  induction hm with
  | refl => exact ⟨[], (List.append_nil _).symm⟩
  | tail _ hstep ih =>
    obtain ⟨lines₁, hout₁⟩ := ih
    obtain ⟨lines₂, hout₂⟩ := hstep.out
    exact ⟨lines₁ ++ lines₂, by rw [hout₂, hout₁, List.append_assoc]⟩

theorem Moves.reported (h : Inv s) (hm : Moves pid s s') (hprints : PrintsRoom s s') :
    Reported pid s s' := by
  induction hm with
  | refl => exact .refl s
  | @tail s₁ s₂ hms hstep ih =>
    obtain ⟨lines, hout, hall⟩ := hprints
    obtain ⟨lines₁, hout₁⟩ := Moves.out hms
    obtain ⟨lines₂, hout₂⟩ := hstep.out
    obtain rfl : lines = lines₁ ++ lines₂ := by
      rw [hout, hout₁, List.append_assoc] at hout₂
      exact List.append_cancel_left hout₂
    have hreport := ih ⟨lines₁, hout₁, fun m hm => hall m (List.mem_append_left _ hm)⟩
    refine hreport.trans ?_
    cases hstep with
    | evict he _ => exact .evict (Moves.kept h hms).inv he
    | @print m hm =>
      obtain rfl : lines₂ = [m] := List.append_cancel_left (hout₂.symm.trans rfl)
      exact .print (Message.idle_of_makesRoom (hall m (by simp)) hm) s₁
    | turn => exact .silent rfl (fun _ _ => Iff.rfl) (fun _ => rfl)

theorem findFreeFrame_reported (h : Inv s) (pid : Pid) :
    ∃ f s', findFreeFrame pid s = some (f, s') ∧ Kept pid s s' ∧ Reported pid s s' ∧
      f < pageFrames ∧ Unowned s'.view.Holds f := by
  obtain ⟨f, s', heq, hm, hf, hfree⟩ := findFreeFrame_spec h pid
  exact ⟨f, s', heq, Moves.kept h hm, Moves.reported h hm (findFreeFrame_prints heq), hf, hfree⟩

end Room

/-! ## Bringing in -/

section Install

variable {pid : Pid} {s s' : State} {n f : Nat} {e : Page}

theorem not_resident_table (hout : (s.tab pid).valid = false) : ¬ s.Resident (.table pid) := by
  rintro ⟨g, hg⟩
  rw [(State.holds_table.mp hg).1] at hout
  cases hout

theorem not_resident_page (hout : (s.entry pid n).valid = false) :
    ¬ s.Resident (.page pid n) := by
  rintro ⟨g, hg⟩
  rw [(State.holds_page.mp hg).2.2.1] at hout
  cases hout

/-- An object comes in from slot `i`. -/
theorem Reported.reload {o : Owner} {m : Message} (h : Inv s) (hf : f < pageFrames)
    (hfree : Unowned s.view.Holds f) {i : Nat} (hst : s.Stored o i)
    (hread : ∀ b, Notes.read pid b m = Function.update b o (some (.frame f)))
    (hout : s'.out = s.out ++ [m])
    (hclaim : Claimed ((s.fill f (s.slot i).data).release i).view.Holds s'.view.Holds o f)
    (hslot : ∀ j, s'.slot j = ((s.fill f (s.slot i).data).release i).slot j) :
    Reported pid s s' := by
  obtain ⟨-, hst₁, -, -, hstored⟩ := fill_release h hf hfree hst
  have hholds : ∀ o' g, ((s.fill f (s.slot i).data).release i).view.Holds o' g ↔
      s.view.Holds o' g := (fill_write (s.slot i).data hf hfree).holds
  refine .install hread hout ?_ (h.slot_absent o i hst) ?_ ?_
  · intro o' g
    rw [hclaim, hholds]
  · intro j
    by_cases hj : j = i
    · exact .inr (hj ▸ hst)
    · exact .inl ((hslot j).trans (State.slot_setSlot_ne _ _ hj))
  · intro o' j hj
    obtain ⟨hj, hji⟩ := (hstored o' j).mp ((State.stored_congr hslot).mp hj)
    refine ⟨hj, ?_⟩
    rintro rfl
    exact hji (h.slot_unique o' j i hj hst)

theorem reloadTable_reported (h : Inv s) (hout : (s.tab pid).valid = false) (hf : f < pageFrames)
    (hfree : Unowned s.view.Holds f) {i : Nat} (hst : s.Stored (.table pid) i)
    (he : e.Maps pid f) :
    Reported pid s
      ((((s.fill f (s.slot i).data).release i).setTab pid e).print (.loadedTable pid f)) := by
  have hempty : ((s.fill f (s.slot i).data).release i).EmptyTable pid f := by
    intro j hj
    rw [State.release, State.cell_setSlot, State.cell_fill_in s _ hf hj]
    exact h.slot_table i pid hst j hj
  exact .reload h hf hfree hst (fun _ => rfl) rfl (claimed_setTab hout he hempty) (fun _ => rfl)

theorem reloadPage_reported (h : Inv s) (hp : (s.tab pid).valid = true) (hf : f < pageFrames)
    (hfree : Unowned s.view.Holds f) {i : Nat} (hst : s.Stored (.page pid n) i)
    (he : e.Maps pid f) :
    Reported pid s
      ((((s.fill f (s.slot i).data).release i).setEntry pid n e).print (.loadedPage n pid f)) := by
  obtain ⟨-, -, h₂, -, -⟩ := fill_release h hf hfree hst
  have hn : n < pageSize := lt_trans (h.slot_page i pid n hst) (by decide)
  have hout : (((s.fill f (s.slot i).data).release i).entry pid n).valid = false := by
    have hsame : ((s.fill f (s.slot i).data).release i).entry pid n = s.entry pid n :=
      (fill_write (s.slot i).data hf hfree).entry hp hn
    rw [hsame, ← Bool.not_eq_true]
    exact fun hv => h.slot_absent _ i hst ⟨_, State.holds_page.mpr ⟨hp, hn, hv, rfl⟩⟩
  exact .reload h hf hfree hst (fun _ => rfl) rfl (claimed_setEntry h₂ hp hn hout he)
    (fun _ => rfl)

/-- A new table, over a frame that has been cleared. -/
theorem newTable_reported {mem : Cells Byte physMemSize} (hout : (s.tab pid).valid = false)
    (hw : FrameWrite s f mem) (hst : ∀ i, ¬ s.Stored (.table pid) i) (he : e.Maps pid f)
    (hempty : (s.withMem mem).EmptyTable pid f) :
    Reported pid s (((s.withMem mem).setTab pid e).print (.putTable pid f)) := by
  refine .install (fun _ => rfl) rfl ?_ (not_resident_table hout) (fun _ => .inl rfl) ?_
  · intro o g
    rw [← hw.holds]
    exact claimed_setTab (s := s.withMem mem) hout he hempty o g
  · intro o j hj
    refine ⟨hj, ?_⟩
    rintro rfl
    exact hst j hj

/-- A new page. -/
theorem newPage_reported {a : Nat} (h : Inv s) (hp : (s.tab pid).valid = true) (hn : n < pageSize)
    (hout : (s.entry pid n).valid = false) (hst : ∀ i, ¬ s.Stored (.page pid n) i)
    (he : e.Maps pid f) :
    Reported pid s ((s.setEntry pid n e).print (.mapped a n f)) := by
  refine .install (fun _ => rfl) rfl (claimed_setEntry h hp hn hout he) (not_resident_page hout)
    (fun _ => .inl rfl) ?_
  intro o j hj
  refine ⟨hj, ?_⟩
  rintro rfl
  exact hst j hj

/-- A flag is set. -/
theorem chmod_reported (h : Inv s) (hp : (s.tab pid).valid = true) (hn : n < pageSize) (w : Bool) :
    Reported pid s (s.setEntry pid n { s.entry pid n with write := w }) :=
  .silent rfl (fun o g => by rw [chmod_view h hp hn w]) (fun _ => rfl)

end Install

/-! ## The calls -/

section Calls

variable {pid : Pid} {s s' : State} {n : Nat} {b : Bool}

theorem checkTable_reported (h : Inv s) (hout : (s.tab pid).valid = false)
    (heq : checkTable pid s = some (b, s')) : Reported pid s s' := by
  unfold checkTable checkBackingStoreWith at heq
  cases hi : s.slotOf pid (-1) with
  | none =>
    rw [hi] at heq
    cases heq
    exact .refl s
  | some i =>
    have hst : s.Stored (.table pid) i := State.slotOf_some (o := .table pid) hi
    obtain ⟨f, s₁, hfind, hk, hr, hf, hfree⟩ := findFreeFrame_reported h pid
    have hst₁ : s₁.Stored (.table pid) i := (hk.absent _ (h.slot_absent _ i hst) i).mpr hst
    simp only [hi, hfind, Option.bind_eq_bind, Option.bind_some, if_true, State.slot_fill] at heq
    cases heq
    exact hr.trans (reloadTable_reported hk.inv (hk.tab ▸ hout) hf hfree hst₁
      ⟨rfl, ofNat_frame hf, rfl⟩)

theorem initTable_reported (h : Inv s) (hout : (s.tab pid).valid = false)
    (heq : initTable pid s = some s') : Reported pid s s' := by
  obtain ⟨b, s₁, hcheck, -, -, -, hfalse⟩ := checkTable_spec h hout
  have hr₁ := checkTable_reported h hout hcheck
  unfold initTable at heq
  rw [hcheck] at heq
  cases b with
  | true =>
    cases heq
    exact hr₁
  | false =>
    obtain ⟨rfl, hst⟩ := hfalse rfl
    obtain ⟨f, s₂, hfind, hk, hr, hf, hfree⟩ := findFreeFrame_reported h pid
    have hst₂ : ∀ i, ¬ s₂.Stored (.table pid) i :=
      fun i hi => hst i ((hk.absent _ (not_resident_table hout) i).mp hi)
    obtain ⟨mem, hclear, hw, hempty⟩ := clearTable_write pid hf hfree
    simp only [hfind, Option.bind_eq_bind, Option.bind_some, Bool.false_eq_true, if_false] at heq
    rw [show State.setPage s₂ (.proc pid) _ = s₂.setTab pid _ from rfl, clearTable_setTab,
      hclear] at heq
    cases heq
    exact hr.trans (newTable_reported (hk.tab ▸ hout) hw hst₂ ⟨rfl, ofNat_frame hf, rfl⟩ hempty)

theorem findPage_reported {page : Ref} (h : Inv s)
    (heq : findPage pid n s = some (page, s')) : Reported pid s s' := by
  unfold findPage at heq
  by_cases hp : (s.tab pid).valid = true
  · rw [if_pos hp] at heq
    cases heq
    exact .refl s
  · rw [if_neg hp] at heq
    obtain ⟨s₁, hinit, heq⟩ := Option.bind_eq_some_iff.mp heq
    cases heq
    exact initTable_reported h (by simpa using hp) hinit

theorem checkBackingStore_reported (h : Inv s) (hp : (s.tab pid).valid = true)
    (heq : checkBackingStore pid n s = some (b, s')) : Reported pid s s' := by
  unfold checkBackingStore checkBackingStoreWith at heq
  cases hi : s.slotOf pid n with
  | none =>
    rw [hi] at heq
    cases heq
    exact .refl s
  | some i =>
    have hst : s.Stored (.page pid n) i := State.slotOf_some (o := .page pid n) hi
    obtain ⟨f, s₁, hfree₁, hk, hr, hf, hfree⟩ := findFreeFrame_reported h pid
    have hp₁ : (s₁.tab pid).valid = true := by rw [hk.tab]; exact hp
    have hst₁ : s₁.Stored (.page pid n) i := (hk.absent _ (h.slot_absent _ i hst) i).mpr hst
    have hfind : findPage pid n (s₁.fill f (s₁.slot i).data) =
        some (.cell ((s₁.tab pid).frame * pageSize + n), s₁.fill f (s₁.slot i).data) := by
      unfold findPage
      rw [State.tab_fill, if_pos hp₁]
      rfl
    have hnum : ¬ (n : Int) = -1 := by omega
    simp only [hi, hfree₁, Option.bind_eq_bind, Option.bind_some, hnum, if_false,
      Int.toNat_natCast, hfind, State.slot_fill] at heq
    cases heq
    exact hr.trans (reloadPage_reported hk.inv hp₁ hf hfree hst₁ ⟨rfl, ofNat_frame hf, rfl⟩)

theorem tableReady_reported (h : Inv s) (heq : tableReady pid s = some (b, s')) :
    Reported pid s s' := by
  unfold tableReady at heq
  by_cases hp : (s.tab pid).valid = true
  · rw [if_pos hp] at heq
    cases heq
    exact .refl s
  · rw [if_neg hp, checkBackingStore_table] at heq
    exact checkTable_reported h (by simpa using hp) heq

theorem pageReady_reported {page : Ref} (h : Inv s) (hp : (s.tab pid).valid = true)
    (heq : pageReady page pid n s = some (b, s')) : Reported pid s s' := by
  unfold pageReady at heq
  split at heq
  · cases heq
    exact .refl s
  · exact checkBackingStore_reported h hp heq

theorem lookup_reported {r : Option Ref} (h : Inv s) (a : Address)
    (heq : lookup pid a s = some (r, s')) : Reported pid s s' := by
  obtain ⟨b, s₁, htable, hq, -, htrue, -⟩ := tableReady_spec h pid
  have hr₁ := tableReady_reported h htable
  unfold lookup at heq
  rw [htable] at heq
  cases b with
  | false =>
    cases heq
    exact hr₁.trans (.print (fun _ _ => rfl) s₁)
  | true =>
    have hp₁ := htrue rfl
    obtain ⟨s₂, hfind, -, -, -, hsame⟩ := findPage_spec hq.inv pid a.page
    obtain rfl := hsame hp₁
    obtain ⟨b, s₃, hready, -⟩ := pageReady_spec hq.inv hp₁ a.page_lt
    have hr₃ := hr₁.trans (pageReady_reported hq.inv hp₁ hready)
    simp only [Option.bind_eq_bind, Option.bind_some, Bool.not_true, Bool.false_eq_true, if_false,
      hfind, hready] at heq
    cases b with
    | false =>
      cases heq
      exact hr₃.trans (.print (fun _ _ => rfl) s₃)
    | true =>
      cases heq
      exact hr₃

/-- The flag of a page in memory is set, after the line that says so. -/
theorem updateWrite_reported (h : Inv s) (hp : (s.tab pid).valid = true) (hn : n < pageSize)
    (w : Bool) :
    Reported pid s ((s.print (.updatingWrite n)).setEntry pid n
      { s.entry pid n with write := w }) :=
  .trans (.print (fun _ _ => rfl) s) (chmod_reported (s := s.print _) (h.print _) hp hn w)

theorem mapPage_reported (h : Inv s) (a : Address) (w : Bool)
    (heq : mapPage pid a w s = some (b, s')) : Reported pid s s' := by
  have hn16 : a.page < pageSize := lt_trans a.page_lt (by decide)
  obtain ⟨s₁, hfind, hq, hp, -, -⟩ := findPage_spec h pid a.page
  have hr₁ := findPage_reported h hfind
  unfold mapPage at heq
  simp only [hfind, Option.bind_eq_bind, Option.bind_some, State.page_cell] at heq
  by_cases hv : (s₁.entry pid a.page).valid = true
  · rw [if_pos hv] at heq
    cases heq
    exact hr₁.trans (updateWrite_reported hq.inv hp hn16 w)
  · have hout : (s₁.entry pid a.page).valid = false := by simpa using hv
    obtain ⟨b', s₂, hcheck, hq₂, htab₂, -, -, hfalse₂⟩ :=
      checkBackingStore_spec hq.inv hp a.page_lt hout
    have hr₂ := hr₁.trans (checkBackingStore_reported hq.inv hp hcheck)
    have hp₂ : (s₂.tab pid).valid = true := by rw [htab₂]; exact hp
    rw [if_neg hv] at heq
    simp only [hcheck, Option.bind_some, ← htab₂] at heq
    cases b' with
    | true =>
      cases heq
      refine hr₂.trans ?_
      split
      · exact updateWrite_reported hq₂.inv hp₂ hn16 w
      · exact .refl s₂
    | false =>
      obtain ⟨rfl, hcontent⟩ := hfalse₂ rfl
      obtain ⟨f, s₃, hfree₃, hk, hr, hf, hfree⟩ := findFreeFrame_reported hq.inv pid
      have hp₃ : (s₃.tab pid).valid = true := by rw [hk.tab]; exact hp
      have hcontent₃ : s₃.content pid a.page = none := by
        rw [hk.content_absent hq.inv hn16 (State.resident_of_entry hout), hcontent]
      obtain ⟨hout₃, hst₃⟩ := State.content_eq_none hp₃ hn16 hcontent₃
      simp only [hfree₃, Option.bind_some, ← hk.tab, State.page_cell, Bool.false_eq_true,
        if_false] at heq
      -- the flag of the new entry is `w` already
      have hwrite : ((s₃.setEntry pid a.page { s₃.entry pid a.page with
          frame := Fin.ofNat 16 f, valid := true, write := w }).entry pid a.page).write = w := by
        rw [State.setEntry, State.entry_setCell _ _ (hk.inv.tab_lt hp₃) hn16]
      cases heq.symm.trans
        (congrArg (fun t => some (true, t)) (if_neg (not_not.mpr hwrite)))
      exact (hr₁.trans hr).trans (newPage_reported hk.inv hp₃ hn16 hout₃ hst₃
        ⟨rfl, ofNat_frame hf, hk.inv.entry_procc pid _ hp₃ hn16⟩)

theorem store_reported (h : Inv s) (a : Address) (v : Byte)
    (heq : store pid a v s = some (b, s')) : Reported pid s s' := by
  have hn16 : a.page < pageSize := lt_trans a.page_lt (by decide)
  obtain ⟨r, s₁, hlook, hq, -, hsome, -⟩ := lookup_spec h pid a
  have hr := lookup_reported h a hlook
  unfold store at heq
  rw [hlook] at heq
  cases r with
  | none =>
    cases heq
    exact hr
  | some page =>
    obtain ⟨rfl, hp, hv⟩ := hsome page rfl
    have ho : s₁.view.Holds (.page pid a.page) (s₁.entry pid a.page).frame :=
      State.holds_page.mpr ⟨hp, hn16, hv, rfl⟩
    simp only [Option.bind_eq_bind, Option.bind_some] at heq
    split at heq
    · cases heq
      exact hr.trans (.print (fun _ _ => rfl) s₁)
    · cases heq
      -- the byte is one of a page, which no table entry is read from
      have hpoke : Reported pid s₁ (s₁.poke (s₁.entry pid a.page).frame a.offset v) :=
        .silent rfl (poke_write hq.inv ho a.offset_lt v).holds (fun _ => rfl)
      exact (hr.trans hpoke).trans (.print (fun _ _ => rfl) _)

theorem load_reported {r : Option Byte} (h : Inv s) (a : Address)
    (heq : load pid a s = some (r, s')) : Reported pid s s' := by
  obtain ⟨r, s₁, hlook, -⟩ := lookup_spec h pid a
  have hr := lookup_reported h a hlook
  unfold load at heq
  rw [hlook] at heq
  cases r with
  | none =>
    cases heq
    exact hr
  | some page =>
    cases heq
    exact hr.trans (.print (fun _ _ => rfl) s₁)

theorem exec_reported {c : Cmd} {r : Result} (h : Inv s) (heq : exec c s = some (r, s')) :
    Reported c.pid s s' := by
  cases c with
  | map p a w =>
    obtain ⟨⟨b, s₁⟩, hmap, heq⟩ := Option.map_eq_some_iff.mp heq
    cases heq
    exact mapPage_reported h a w hmap
  | store p a v =>
    obtain ⟨⟨b, s₁⟩, hstore, heq⟩ := Option.map_eq_some_iff.mp heq
    cases heq
    exact store_reported h a v hstore
  | load p a =>
    obtain ⟨⟨v, s₁⟩, hload, heq⟩ := Option.map_eq_some_iff.mp heq
    cases heq
    exact load_reported h a hload

end Calls

/-! ## Whole runs -/

/-- The lines a call prints, each with the process the call is for. -/
def lines (c : Cmd) (s : State) : List (Pid × Message) :=
  match exec c s with
  | some (_, s') => (s'.out.drop s.out.length).map fun m => (c.pid, m)
  | none => []

/-- The notes of a reader who starts with nothing. -/
def account (log : List (Pid × Message)) : Notes :=
  log.foldl (fun b line => b.read line.1 line.2) fun _ => none

theorem account_append (log : List (Pid × Message)) (pid : Pid) (ms : List Message) :
    account (log ++ ms.map fun m => (pid, m)) = ms.foldl (Notes.read pid) (account log) := by
  rw [account, List.foldl_append, List.foldl_map]
  rfl

theorem init_located : Located (fun _ => none) State.init := by
  refine ⟨?_, fun _ _ hc => (by cases hc), fun o i hi => absurd hi (init_not_stored o i)⟩
  intro o f
  refine ⟨fun hc => (by cases hc), fun ho => ?_⟩
  have htab : (State.init.tab o.pid).valid = true := by
    cases o with
    | table p => exact (State.holds_table.mp ho).1
    | page p n => exact (State.holds_page.mp ho).1
  rw [init_tab] at htab
  cases htab

/-- Every run comes back, and what it printed, read line by line, tells where each table and each
page is: in which frame if it is in memory, and in which slot if the backing store has it. -/
theorem account_is_right (cs : List Cmd) :
    ∃ tr s, calls cs = some (tr, s) ∧
      (notes exec lines cs State.init).map Prod.snd = s.out ∧
      Located (account (notes exec lines cs State.init)) s := by
  obtain ⟨tr, s, hrun, -⟩ := calls_inv cs
  have hall : Guarded exec (fun _ _ => True) cs State.init := fun _ _ _ _ _ _ => trivial
  refine ⟨tr, s, hrun, (guarded_notes_rule
    (P := fun _ log s => Inv s ∧ log.map Prod.snd = s.out ∧ Located (account log) s)
    ⟨init_inv, rfl, init_located⟩ ?_ cs tr s hrun hall).2⟩
  rintro tr log s c r s' ⟨h, hout, hloc⟩ - heq
  obtain ⟨ms, hms, hread⟩ := exec_reported h heq
  have hlines : lines c s = ms.map fun m => (c.pid, m) := by
    unfold lines
    rw [heq]
    simp only [hms, List.drop_left]
  refine ⟨(exec_step h heq).1.inv, ?_, ?_⟩
  · rw [hlines, List.map_append, hout, hms, List.map_map]
    simp
  · rw [hlines, account_append]
    exact hread _ hloc

end OsProjects.Paging.PartTwo
