import OsProjects.Paging.PartTwo.Calls

/-!
# `Part2` while the backing store is unused

With no slot in use `check_backing_store` finds nothing and changes nothing, and
with a frame free `find_free_frame` evicts nothing: the calls take the short way
through the code, written out here one equation per way.
-/

namespace OsProjects.Paging.PartTwo

open OsProjects.Lib OsProjects.Paging

/-- No slot is in use. -/
def State.Unused (t : State) : Prop := ∀ i, i < storeFrames → (t.slot i).pid < 0

section Unused

variable {t : State} {p : Pid}

theorem slotOf_unused (h : t.Unused) (p : Pid) (k : Int) : t.slotOf p k = none := by
  refine (Cells.find_eq_none_iff _ _).mpr ?_
  intro i hi
  have hpid : (t.slot i).pid < 0 := h i hi
  have hne : (t.backingStore.get i).pid ≠ (p.val : Int) := by
    show (t.slot i).pid ≠ _
    omega
  simp [hne]

theorem checkBackingStore_unused (h : t.Unused) (p : Pid) (k : Int) :
    checkBackingStore p k t = some (false, t) := by
  unfold checkBackingStore checkBackingStoreWith
  rw [slotOf_unused h]

theorem findFreeFrame_free {f : Nat} (hff : t.view.firstFree = some f) (p : Pid) :
    findFreeFrame p t = some (f, t) := by
  unfold findFreeFrame
  rw [hff]

theorem findPage_resident (hp : (t.tab p).valid = true) (n : Nat) :
    findPage p n t = some (.cell ((t.tab p).frame * pageSize + n), t) := by
  unfold findPage
  rw [if_pos hp]
  rfl

/-- `map_page` of a page in memory. -/
theorem mapPage_resident (hp : (t.tab p).valid = true) (a : Address) (w : Bool)
    (hv : (t.entry p a.page).valid = true) :
    mapPage p a w t = some (false, (t.print (.updatingWrite a.page)).setEntry p a.page
      { t.entry p a.page with write := w }) := by
  unfold mapPage
  rw [findPage_resident hp]
  exact if_pos hv

/-- `map_page` of a new page while a frame is free. -/
theorem mapPage_free (h : Inv t) (hun : t.Unused) (hp : (t.tab p).valid = true) (a : Address)
    (w : Bool) (hout : (t.entry p a.page).valid = false) {f : Nat}
    (hff : t.view.firstFree = some f) :
    mapPage p a w t = some (true, (t.setEntry p a.page
      { t.entry p a.page with frame := Fin.ofNat 16 f, valid := true, write := w }).print
        (.mapped a a.page f)) := by
  have hn16 : a.page < pageSize := lt_trans a.page_lt (by decide)
  unfold mapPage
  rw [findPage_resident hp]
  simp only [Option.bind_eq_bind, Option.bind_some]
  rw [if_neg (by rw [State.page_cell, hout]; decide), checkBackingStore_unused hun]
  simp only [Option.bind_some, Bool.false_eq_true, if_false, findFreeFrame_free hff]
  have hwrite : ((t.setEntry p a.page { t.entry p a.page with
      frame := Fin.ofNat 16 f, valid := true, write := w }).entry p a.page).write = w := by
    rw [State.setEntry, State.entry_setCell _ _ (h.tab_lt hp) hn16]
  exact congrArg (fun t => some (true, t)) (if_neg (not_not.mpr hwrite))

/-- The table `init_table` makes while a frame is free. -/
theorem initTable_free (hun : t.Unused) (p : Pid) {f : Nat} (hff : t.view.firstFree = some f) :
    initTable p t = some (((clearTable p f t).setTab p
      { valid := true, procc := p, write := true, frame := Fin.ofNat 16 f }).print
        (.putTable p f)) := by
  unfold initTable
  rw [← checkBackingStore_table, checkBackingStore_unused hun]
  simp only [Option.bind_eq_bind, Option.bind_some, Bool.false_eq_true, if_false,
    findFreeFrame_free hff]
  rw [← clearTable_setTab]
  rfl

/-- `map_page` of a process without a table makes the table first. -/
theorem mapPage_newTable (hout : (t.tab p).valid = false) (a : Address) (w : Bool) {t' : State}
    (hinit : initTable p t = some t') (hp : (t'.tab p).valid = true) :
    mapPage p a w t = mapPage p a w t' := by
  unfold mapPage
  rw [findPage_resident hp]
  unfold findPage
  rw [if_neg (by rw [hout]; decide), hinit]
  rfl

/-! The lookup of `store` and `load` finds what is in memory. -/

theorem lookup_resident (hp : (t.tab p).valid = true) (a : Address)
    (hv : (t.entry p a.page).valid = true) :
    lookup p a t = some (some (.cell ((t.tab p).frame * pageSize + a.page)), t) := by
  have hpage : pageReady (.cell ((t.tab p).frame * pageSize + a.page)) p a.page t =
      some (true, t) := if_pos hv
  unfold lookup tableReady
  rw [if_pos hp]
  simp only [Option.bind_eq_bind, Option.bind_some, findPage_resident hp, hpage]
  rfl

theorem lookup_noPage (hun : t.Unused) (hp : (t.tab p).valid = true) (a : Address)
    (hv : (t.entry p a.page).valid = false) :
    lookup p a t = some (none, t.print (.noFrame a p)) := by
  have hpage : pageReady (.cell ((t.tab p).frame * pageSize + a.page)) p a.page t =
      some (false, t) :=
    (if_neg (Bool.eq_false_iff.mp hv)).trans (checkBackingStore_unused hun p a.page)
  unfold lookup tableReady
  rw [if_pos hp]
  simp only [Option.bind_eq_bind, Option.bind_some, findPage_resident hp, hpage]
  rfl

theorem lookup_noTable (hun : t.Unused) (hout : (t.tab p).valid = false) (a : Address) :
    lookup p a t = some (none, t.print (.noPages p)) := by
  unfold lookup tableReady
  rw [if_neg (Bool.eq_false_iff.mp hout), checkBackingStore_unused hun]
  rfl

end Unused

end OsProjects.Paging.PartTwo
