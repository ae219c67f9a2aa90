import OsProjects.Paging.PartOne.Printed
import OsProjects.Paging.PartOne.Protection
import OsProjects.Paging.PartTwo.Runs
import OsProjects.Paging.PartTwo.Unused

/-!
# `Part1` and `Part2` agree while memory suffices

As long as `find_free_frame` of `Part1` finds a frame, `Part2` finds the same one
and has no reason to evict: `Sim` relates the two states, whose tables say the
same in two layouts of `page_t` and whose other frames hold the same bytes. Every
call keeps it, with the same answer and the same printed lines.
-/

namespace OsProjects.Paging

open OsProjects.Lib

/-! ## The relation -/

/-- The two layouts of `page_t` say the same; what an invalid entry says besides
is never read. -/
structure Match (e : PartOne.Page) (e' : PartTwo.Page) : Prop where
  valid : e'.valid = e.valid
  frame : e.valid = true → (e'.frame : Nat) = e.frame
  write : e.valid = true → e'.write = e.write

/-- States of `Part1` and `Part2` with the same tables and pages in the same
frames. -/
structure Sim (s : PartOne.State) (t : PartTwo.State) : Prop where
  inv₁ : PartOne.Inv s
  inv₂ : PartTwo.Inv t
  tab : ∀ p, Match (s.tab p) (t.tab p)
  entry : ∀ p j, (s.tab p).valid = true → j < pageSize → Match (s.entry p j) (t.entry p j)
  bytes : ∀ f, f < pageFrames → (∀ p, ¬ s.view.Holds (.table p) f) → t.bytes f = s.bytes f
  unused : t.Unused
  out : t.out = s.out
  noMove : ∀ m ∈ t.out, m.isMove = false

namespace Sim

variable {s : PartOne.State} {t : PartTwo.State} {p : Pid} {n f : Nat}

theorem tab_valid (h : Sim s t) (hp : (s.tab p).valid = true) : (t.tab p).valid = true :=
  (h.tab p).valid.trans hp

/-- The same objects own the same frames. -/
theorem holds (h : Sim s t) (o : Owner) (g : Nat) : t.view.Holds o g ↔ s.view.Holds o g := by
  cases o with
  | table q =>
    rw [PartTwo.State.holds_table, PartOne.State.holds_table, (h.tab q).valid]
    refine and_congr_right (fun hq => ?_)
    rw [(h.tab q).frame hq]
  | page q k =>
    rw [PartTwo.State.holds_page, PartOne.State.holds_page, (h.tab q).valid]
    refine and_congr_right (fun hq => and_congr_right (fun hk => ?_))
    have hm := h.entry q k hq hk
    rw [hm.valid]
    refine and_congr_right (fun hv => ?_)
    rw [hm.frame hv]

theorem firstFree (h : Sim s t) : t.view.firstFree = s.view.firstFree :=
  View.firstFree_congr h.holds

theorem not_stored (h : Sim s t) (o : Owner) (i : Nat) : ¬ t.Stored o i := by
  intro hst
  have hused := h.unused i hst.1
  rw [hst.2.1] at hused
  omega

theorem print (h : Sim s t) {m : Message} (hm : m.isMove = false) :
    Sim (s.print m) (t.print m) := by
  refine ⟨h.inv₁.print m, h.inv₂.print m, h.tab, h.entry, h.bytes, h.unused, ?_, ?_⟩
  · show t.out ++ [m] = s.out ++ [m]
    rw [h.out]
  · intro m' hm'
    rcases List.mem_append.mp hm' with hm' | hm'
    · exact h.noMove m' hm'
    · rw [List.mem_singleton.mp hm']
      exact hm

/-! ## The changes of a call -/

/-- Matching entries are written at the same place. -/
theorem setEntry (h : Sim s t) (hp : (s.tab p).valid = true) (hn : n < pageSize)
    {e : PartOne.Page} {e' : PartTwo.Page} (he : Match e e') (hi₁ : PartOne.Inv (s.setEntry p n e))
    (hi₂ : PartTwo.Inv (t.setEntry p n e')) : Sim (s.setEntry p n e) (t.setEntry p n e') := by
  refine ⟨hi₁, hi₂, h.tab, ?_, ?_, h.unused, h.out, h.noMove⟩
  · intro q k hq hk
    rw [PartOne.entry_setEntry h.inv₁ hp hn e hq hk,
      PartTwo.entry_setEntry h.inv₂ (h.tab_valid hp) hn e' (h.tab_valid hq) hk]
    split
    · exact he
    · exact h.entry q k hq hk
  · intro g hg hno
    have hne : ((s.tab p).frame : Nat) ≠ g := fun heq => hno p ⟨hp, heq⟩
    rw [PartTwo.bytes_setEntry hn e' (by rw [(h.tab p).frame hp]; exact hne), h.bytes g hg hno]
    exact (PartOne.bytes_poke_ne hn hne.symm).symm

/-- A process without a table gets one, in the same frame. -/
theorem newTable (h : Sim s t) (hout : (s.tab p).valid = false)
    (hff : s.view.firstFree = some f) :
    Sim (s.setPage (.proc p) { valid := true, write := true, frame := Fin.ofNat 64 f })
      ((PartTwo.clearTable p f t).setTab p
        { valid := true, procc := p, write := true, frame := Fin.ofNat 16 f }) := by
  obtain ⟨hf, hfree⟩ := View.firstFree_some hff
  have hfree₂ : Unowned t.view.Holds f := fun o ho => hfree o ((h.holds o f).mp ho)
  have hout₂ : (t.tab p).valid = false := (h.tab p).valid.trans hout
  obtain ⟨hinv, htab, hempty₁, -⟩ := PartOne.newTable_spec h.inv₁ hout hf hfree
    (e := { valid := true, write := true, frame := Fin.ofNat 64 f }) rfl (PartOne.ofNat_frame hf)
  obtain ⟨m, hclear, hw, hempty⟩ := PartTwo.clearTable_write p hf hfree₂
  have he : PartTwo.Page.Maps ⟨true, true, Fin.ofNat 16 f, p⟩ p f :=
    ⟨rfl, PartTwo.ofNat_frame hf, rfl⟩
  have hfree' : Unowned (t.withMem m).view.Holds f :=
    fun o ho => hfree₂ o ((hw.holds o f).mp ho)
  have hinv₂ : PartTwo.Inv ((t.withMem m).setTab p ⟨true, true, Fin.ofNat 16 f, p⟩) :=
    PartTwo.setTab_inv (hw.inv h.inv₂) hout₂ hf hfree' (h.not_stored _) he hempty
  rw [hclear]
  refine ⟨hinv, hinv₂, ?_, ?_, ?_, h.unused, h.out, h.noMove⟩
  · intro q
    by_cases hq : q = p
    · subst hq
      rw [htab, PartTwo.State.setTab, PartTwo.State.tab_setProc]
      exact ⟨rfl, fun _ => (PartTwo.ofNat_frame hf).trans (PartOne.ofNat_frame hf).symm,
        fun _ => rfl⟩
    · rw [PartOne.tab_setProc_ne hq, PartTwo.State.setTab, PartTwo.State.tab_setProc_ne _ _ hq]
      exact h.tab q
  · intro q k hq hk
    by_cases hqp : q = p
    · subst hqp
      rw [PartTwo.entry_setTab he]
      have hno := hempty₁ k hk
      refine ⟨(hempty k hk).1.trans hno.symm, fun hv => ?_, fun hv => ?_⟩ <;>
      · rw [hno] at hv
        cases hv
    · rw [PartOne.tab_setProc_ne hqp] at hq
      rw [PartOne.entry_setProc_ne hqp, PartTwo.entry_setTab_ne hqp]
      rw [hw.entry (h.tab_valid hq) hk]
      exact h.entry q k hq hk
  · intro g hg hno
    have hgf : g ≠ f := by
      rintro rfl
      refine hno p ⟨?_, ?_⟩
      · show ((PartOne.State.setPage s _ _).tab p).valid = true
        rw [htab]
      · show (((PartOne.State.setPage s _ _).tab p).frame : Nat) = g
        rw [htab]
        exact PartOne.ofNat_frame hf
    rw [show PartTwo.State.bytes (PartTwo.State.setTab _ _ _) g = (t.withMem m).bytes g from rfl,
      hw.bytes hgf]
    refine h.bytes g hg (fun q ho => hno q ?_)
    have hq : q ≠ p := by
      rintro rfl
      rw [PartOne.State.holds_table, hout] at ho
      cases ho.1
    rw [PartOne.State.holds_table, PartOne.tab_setProc_ne hq]
    exact ho

/-- A byte of a page is written. -/
theorem poke {k : Nat} (h : Sim s t) (ho : s.view.Holds (.page p n) f) (hk : k < pageSize)
    (v : Byte) : Sim (s.poke f k v) (t.poke f k v) := by
  have ho₂ : t.view.Holds (.page p n) f := (h.holds _ _).mpr ho
  have hf : f < pageFrames := h.inv₁.wf.frame_lt _ _ ho
  have hw := PartTwo.poke_write h.inv₂ ho₂ hk v
  refine ⟨(PartOne.Put.poke h.inv₁ ho hk v).inv, hw.inv h.inv₂, h.tab, ?_, ?_, h.unused, h.out,
    h.noMove⟩
  · intro q j hq hj
    rw [PartOne.entry_poke hf hk q hj, if_neg (fun hc => h.inv₁.page_ne_tab ho hq hc.1)]
    show Match _ ((t.withMem _).entry q j)
    rw [hw.entry (h.tab_valid hq) hj]
    exact h.entry q j hq hj
  · intro g hg hno
    by_cases hgf : g = f
    · subst hgf
      rw [PartOne.bytes_poke hf hk, ← h.bytes g hg hno]
      exact PartTwo.bytes_poke hf hk v
    · rw [PartOne.bytes_poke_ne hk hgf, ← h.bytes g hg hno]
      exact hw.bytes hgf

/-! ## The calls -/

variable {s' : PartOne.State}

theorem mapEntry (h : Sim s t) (hp : (s.tab p).valid = true) {a : Address} {w b : Bool}
    (heq : PartOne.mapEntry p a w s = some (b, s')) (hok : s'.FramesSufficed) :
    ∃ t', PartTwo.mapPage p a w t = some (b, t') ∧ Sim s' t' := by
  have hn16 : a.page < pageSize := lt_trans a.page_lt (by decide)
  have hp₂ := h.tab_valid hp
  have hm := h.entry p a.page hp hn16
  unfold PartOne.mapEntry PartOne.findPage at heq
  rw [if_pos hp] at heq
  simp only [Option.bind_eq_bind, Option.bind_some] at heq
  by_cases hv : (s.page (.cell ((s.tab p).frame * pageSize + a.page))).valid = true
  · rw [if_pos hv] at heq
    cases heq
    refine ⟨_, PartTwo.mapPage_resident hp₂ a w (hm.valid.trans hv), ?_⟩
    refine (h.print rfl).setEntry hp hn16 ⟨hm.valid, hm.frame, fun _ => rfl⟩ ?_ ?_
    · exact ((PartOne.Put.chmod h.inv₁ hp hn16 hv w).print (.updatingWrite a.page)).inv
    · exact (PartTwo.chmod_inv h.inv₂ hp₂ hn16 w).print (.updatingWrite a.page)
  · have hout : (s.entry p a.page).valid = false := Bool.eq_false_iff.mpr hv
    have hout₂ := hm.valid.trans hout
    rw [if_neg hv, PartOne.findFreeFrame_eq] at heq
    cases hff : s.view.firstFree with
    | none =>
      rw [hff] at heq
      cases heq
      exact absurd hok (PartOne.State.not_framesSufficed rfl)
    | some f =>
      rw [hff] at heq
      cases heq
      obtain ⟨hf, hfree⟩ := View.firstFree_some hff
      have hff₂ := h.firstFree.trans hff
      refine ⟨_, PartTwo.mapPage_free h.inv₂ h.unused hp₂ a w hout₂ hff₂, ?_⟩
      refine Sim.print (h.setEntry hp hn16 ⟨rfl, fun _ => ?_, fun _ => rfl⟩ ?_ ?_) rfl
      · exact (PartTwo.ofNat_frame hf).trans (PartOne.ofNat_frame hf).symm
      · exact (PartOne.Put.fresh h.inv₁ hp a.page_lt hout hf hfree (e := { s.entry p a.page with
          frame := Fin.ofNat 64 f, valid := true, write := w }) rfl (PartOne.ofNat_frame hf)).inv
      · exact PartTwo.setEntry_inv h.inv₂ hp₂ a.page_lt hout₂ hf
          (fun o ho => hfree o ((h.holds o f).mp ho)) (h.not_stored _)
          ⟨rfl, PartTwo.ofNat_frame hf, h.inv₂.entry_procc p a.page hp₂ hn16⟩

theorem mapPage (h : Sim s t) {a : Address} {w b : Bool}
    (heq : PartOne.mapPage p a w s = some (b, s')) (hok : s'.FramesSufficed) :
    ∃ t', PartTwo.mapPage p a w t = some (b, t') ∧ Sim s' t' := by
  unfold PartOne.mapPage at heq
  by_cases hp : (s.tab p).valid = true
  · rw [if_pos hp] at heq
    exact h.mapEntry hp heq hok
  · rw [if_neg hp] at heq
    have hout : (s.tab p).valid = false := Bool.eq_false_iff.mpr hp
    cases hff : s.view.firstFree with
    | none =>
      -- without a table `map_page` gives up, and both lines are printed
      have hinit : PartOne.initTable p s = s.print (.unableTable p) := by
        unfold PartOne.initTable
        rw [PartOne.findFreeFrame_eq, hff]
      rw [hinit] at heq
      have hno : ((s.print (.unableTable p)).tab p).valid = false := hout
      simp only [hno, Bool.not_false, if_true] at heq
      cases heq
      refine absurd (fun m hm => hok m ?_) (PartOne.State.not_framesSufficed (s := s)
        (m := .unableTable p) rfl)
      exact List.mem_append_left _ hm
    | some f =>
      have htab := h.newTable (p := p) hout hff
      have hprint := htab.print (m := .putTable p f) rfl
      have hinit₂ := PartTwo.initTable_free h.unused p (h.firstFree.trans hff)
      rw [PartOne.initTable_free h.inv₁ p hff] at heq
      have hp₁ : (((s.setPage (.proc p) { valid := true, write := true, frame := Fin.ofNat 64 f
          }).print (.putTable p f)).tab p).valid = true :=
        congrArg PartOne.Page.valid (Cells.get_set_eq _ _ p.isLt)
      simp only [hp₁, Bool.not_true, Bool.false_eq_true, if_false] at heq
      obtain ⟨t', ht', hsim⟩ := hprint.mapEntry hp₁ heq hok
      refine ⟨t', ?_, hsim⟩
      rw [PartTwo.mapPage_newTable ((h.tab p).valid.trans hout) a w hinit₂
        (hprint.tab_valid hp₁)]
      exact ht'

theorem lookup (h : Sim s t) (p : Pid) (a : Address) :
    (∃ m, m.isMove = false ∧ PartOne.lookup p a s = some (none, s.print m) ∧
      PartTwo.lookup p a t = some (none, t.print m)) ∨
    ((s.tab p).valid = true ∧ (s.entry p a.page).valid = true ∧
      PartOne.lookup p a s = some (some (.cell ((s.tab p).frame * pageSize + a.page)), s) ∧
      PartTwo.lookup p a t = some (some (.cell ((t.tab p).frame * pageSize + a.page)), t)) := by
  have hn16 : a.page < pageSize := lt_trans a.page_lt (by decide)
  unfold PartOne.lookup
  by_cases hp : (s.tab p).valid = true
  · have hm := h.entry p a.page hp hn16
    unfold PartOne.findPage
    rw [if_neg (by rw [hp]; decide), if_pos hp]
    simp only [Option.bind_eq_bind, Option.bind_some]
    by_cases hv : (s.entry p a.page).valid = true
    · refine .inr ⟨hp, hv, if_neg ?_, ?_⟩
      · rw [PartOne.State.page_cell, hv]
        decide
      · exact PartTwo.lookup_resident (h.tab_valid hp) a (hm.valid.trans hv)
    · rw [Bool.not_eq_true] at hv
      refine .inl ⟨.noFrame a p, rfl, if_pos ?_, ?_⟩
      · rw [PartOne.State.page_cell, hv]
        rfl
      · exact PartTwo.lookup_noPage h.unused (h.tab_valid hp) a (hm.valid.trans hv)
  · rw [Bool.not_eq_true] at hp
    refine .inl ⟨.noPages p, rfl, if_pos (by rw [hp]; rfl), ?_⟩
    exact PartTwo.lookup_noTable h.unused ((h.tab p).valid.trans hp) a

/-- A page in memory is at the same physical address. -/
theorem phys (h : Sim s t) {a : Address} (hp : (s.tab p).valid = true)
    (hv : (s.entry p a.page).valid = true) :
    t.phys (.cell ((t.tab p).frame * pageSize + a.page)) a =
      s.phys (.cell ((s.tab p).frame * pageSize + a.page)) a := by
  have hn16 : a.page < pageSize := lt_trans a.page_lt (by decide)
  show (t.entry p a.page).frame * pageSize + a.offset = _
  rw [(h.entry p a.page hp hn16).frame hv]
  rfl

theorem store (h : Sim s t) {a : Address} {v : Byte} {b : Bool}
    (heq : PartOne.store p a v s = some (b, s')) :
    ∃ t', PartTwo.store p a v t = some (b, t') ∧ Sim s' t' := by
  unfold PartOne.store at heq
  unfold PartTwo.store
  rcases h.lookup p a with ⟨m, hm, h₁, h₂⟩ | ⟨hp, hv, h₁, h₂⟩
  · rw [h₁] at heq
    rw [h₂]
    cases heq
    exact ⟨_, rfl, h.print hm⟩
  · have hn16 : a.page < pageSize := lt_trans a.page_lt (by decide)
    have hwrite := (h.entry p a.page hp hn16).write hv
    rw [h₁] at heq
    rw [h₂]
    simp only [Option.bind_eq_bind, Option.bind_some] at heq ⊢
    rw [h.phys hp hv]
    by_cases hw : (s.entry p a.page).write = true
    · rw [if_neg (by rw [PartOne.State.page_cell, hw]; decide)] at heq
      rw [if_neg (by rw [PartTwo.State.page_cell, hwrite, hw]; decide)]
      cases heq
      have ho : s.view.Holds (.page p a.page) (s.entry p a.page).frame :=
        PartOne.State.holds_page.mpr ⟨hp, hn16, hv, rfl⟩
      exact ⟨_, rfl, Sim.print (h.poke ho a.offset_lt v) rfl⟩
    · rw [Bool.not_eq_true] at hw
      rw [if_pos (by rw [PartOne.State.page_cell, hw]; rfl)] at heq
      rw [if_pos (by rw [PartTwo.State.page_cell, hwrite, hw]; rfl)]
      cases heq
      exact ⟨_, rfl, h.print rfl⟩

theorem load (h : Sim s t) {a : Address} {v : Option Byte}
    (heq : PartOne.load p a s = some (v, s')) :
    ∃ t', PartTwo.load p a t = some (v, t') ∧ Sim s' t' := by
  unfold PartOne.load at heq
  unfold PartTwo.load
  rcases h.lookup p a with ⟨m, hm, h₁, h₂⟩ | ⟨hp, hv, h₁, h₂⟩
  · rw [h₁] at heq
    rw [h₂]
    cases heq
    exact ⟨_, rfl, h.print hm⟩
  · have hn16 : a.page < pageSize := lt_trans a.page_lt (by decide)
    have ho : s.view.Holds (.page p a.page) (s.entry p a.page).frame :=
      PartOne.State.holds_page.mpr ⟨hp, hn16, hv, rfl⟩
    -- a frame with a page in it holds no table
    have hbytes := h.bytes _ (h.inv₁.wf.frame_lt _ _ ho)
      (fun q hq => h.inv₁.page_ne_tab ho hq.1 hq.2)
    have hbyte : t.mainMemory.get (s.phys (.cell ((s.tab p).frame * pageSize + a.page)) a) =
        s.mainMemory.get (s.phys (.cell ((s.tab p).frame * pageSize + a.page)) a) := by
      have := congrArg (Cells.get · a.offset) hbytes
      simp only [PartTwo.State.get_bytes _ _ a.offset_lt,
        PartOne.State.get_bytes _ _ a.offset_lt] at this
      exact this
    rw [h₁] at heq
    rw [h₂]
    simp only [Option.bind_eq_bind, Option.bind_some] at heq ⊢
    rw [h.phys hp hv, hbyte]
    cases heq
    exact ⟨_, rfl, h.print rfl⟩

theorem exec (h : Sim s t) {c : Cmd} {r : Result} (heq : PartOne.exec c s = some (r, s'))
    (hok : s'.FramesSufficed) : ∃ t', PartTwo.exec c t = some (r, t') ∧ Sim s' t' := by
  cases c with
  | map p a w =>
    obtain ⟨⟨b, s₁⟩, hmap, hr⟩ := Option.map_eq_some_iff.mp heq
    cases hr
    obtain ⟨t', ht', hsim⟩ := h.mapPage hmap hok
    exact ⟨t', by rw [PartTwo.exec, ht']; rfl, hsim⟩
  | store p a v =>
    obtain ⟨⟨b, s₁⟩, hstore, hr⟩ := Option.map_eq_some_iff.mp heq
    cases hr
    obtain ⟨t', ht', hsim⟩ := h.store hstore
    exact ⟨t', by rw [PartTwo.exec, ht']; rfl, hsim⟩
  | load p a =>
    obtain ⟨⟨v, s₁⟩, hload, hr⟩ := Option.map_eq_some_iff.mp heq
    cases hr
    obtain ⟨t', ht', hsim⟩ := h.load hload
    exact ⟨t', by rw [PartTwo.exec, ht']; rfl, hsim⟩

end Sim

theorem init_sim : Sim PartOne.State.init PartTwo.State.init where
  inv₁ := PartOne.init_inv
  inv₂ := PartTwo.init_inv
  tab p := by
    have hout := PartOne.init_tab p
    refine ⟨(PartTwo.init_tab p).trans hout.symm, fun hv => ?_, fun hv => ?_⟩ <;>
    · rw [hout] at hv
      cases hv
  entry p j hp := by
    rw [PartOne.init_tab] at hp
    cases hp
  bytes f _ _ := by
    refine Cells.ext_get ?_
    intro j hj
    rw [PartTwo.State.get_bytes _ _ hj, PartOne.State.get_bytes _ _ hj]
    rfl
  unused i hi := by
    rw [PartTwo.State.slot, PartTwo.State.init, Cells.get_ofFn _ hi]
    decide
  out := rfl
  noMove := nofun

/-- On every sequence of calls on which `find_free_frame` of `Part1` never returns
-1, `Part2` gives the same answers, prints the same lines (and so uses the same
physical addresses), evicts nothing and uses no slot of the backing store. -/
theorem parts_agree_while_frames_suffice (cs : List Cmd) (tr : History) (s : PartOne.State)
    (h : PartOne.calls cs = some (tr, s)) (hok : s.FramesSufficed) :
    ∃ t, PartTwo.calls cs = some (tr, t) ∧ t.out = s.out ∧ (∀ m ∈ t.out, m.isMove = false) ∧
      ∀ i, i < PartTwo.storeFrames → (t.slot i).pid < 0 := by
  have hgood : ∀ s c r s', PartOne.exec c s = some (r, s') → s'.FramesSufficed →
      s.FramesSufficed := fun _ _ _ _ => PartOne.framesSufficed_of_exec
  have hstep : ∀ s t c r s', Sim s t → PartOne.exec c s = some (r, s') → s'.FramesSufficed →
      ∃ t', PartTwo.exec c t = some (r, t') ∧ Sim s' t' :=
    fun s t c r s' hsim he hg => hsim.exec he hg
  obtain ⟨t, ht, hsim⟩ := run_simulates hgood hstep init_sim cs tr s h hok
  exact ⟨t, ht, hsim.out, hsim.noMove, hsim.unused⟩

/-- Two pages of a process fit, next to its table. -/
theorem parts_agree_on_two_pages :
    ∃ tr s, PartOne.calls [.map 0 0 true, .store 0 1 7, .map 0 16 false, .store 0 16 9,
        .load 0 1] = some (tr, s) ∧ s.FramesSufficed ∧
      ∃ t, PartTwo.calls [.map 0 0 true, .store 0 1 7, .map 0 16 false, .store 0 16 9,
          .load 0 1] = some (tr, t) ∧ t.out = s.out ∧ (∀ m ∈ t.out, m.isMove = false) ∧
        ∀ i, i < PartTwo.storeFrames → (t.slot i).pid < 0 := by
  obtain ⟨tr, s, r, s', hrun, hcall, hok⟩ := exists_of_eval PartOne.exec
    [.map 0 0 true, .store 0 1 7, .map 0 16 false, .store 0 16 9] (.load 0 1) PartOne.State.init
    (fun _ _ _ s' => ∀ m ∈ s'.out, m.isFailure = false) (by decide +kernel)
  have hall := run_snoc hrun hcall
  exact ⟨_, s', hall, hok, parts_agree_while_frames_suffice _ _ s' hall hok⟩

end OsProjects.Paging
