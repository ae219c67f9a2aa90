import OsProjects.Paging.PartTwo.Model

/-!
# Reads after writes

How the four observations of a state — hardware entries (`tab`), table
entries (`entry`), frame contents (`bytes`) and backing-store slots (`slot`)
— react to the primitive writes. The page tables are bytes of the same
memory that `fill` and `store` write, so the entry laws are where the
exclusive ownership of frames enters: a write to a frame that holds no
resident table changes no entry, and a write to one entry changes no other.
-/

namespace OsProjects.Paging.PartTwo

open OsProjects.Lib OsProjects.Paging

namespace State

/-- Entry `j` of the page table of `p`. -/
def entry (s : State) (p : Pid) (j : Nat) : Page :=
  s.cell ((s.tab p).frame * pageSize + j)

/-- The pointer `find_page` returns denotes the entry. -/
theorem page_cell (s : State) (p : Pid) (j : Nat) :
    s.page (.cell ((s.tab p).frame * pageSize + j)) = s.entry p j := rfl

theorem holds_table {s : State} {p : Pid} {f : Nat} :
    s.view.Holds (.table p) f ↔ (s.tab p).valid = true ∧ ((s.tab p).frame : Nat) = f :=
  Iff.rfl

theorem holds_page {s : State} {p : Pid} {j f : Nat} :
    s.view.Holds (.page p j) f ↔ (s.tab p).valid = true ∧ j < pageSize ∧
      (s.entry p j).valid = true ∧ ((s.entry p j).frame : Nat) = f :=
  Iff.rfl

/-! ## Hardware entries -/

@[simp] theorem tab_setProc (s : State) (p : Pid) (e : Page) :
    (s.setPage (.proc p) e).tab p = e := Cells.get_set_eq _ _ p.isLt

theorem tab_setProc_ne (s : State) {p q : Pid} (e : Page) (h : q ≠ p) :
    (s.setPage (.proc p) e).tab q = s.tab q :=
  Cells.get_set_ne _ _ (fun heq => h (Fin.ext heq))

@[simp] theorem tab_setCell (s : State) (a : Nat) (e : Page) (q : Pid) :
    (s.setPage (.cell a) e).tab q = s.tab q := rfl

@[simp] theorem tab_fill (s : State) (f : Nat) (d : Cells Byte pageSize) (q : Pid) :
    (s.fill f d).tab q = s.tab q := by simp only [State.tab, State.fill]

@[simp] theorem tab_setSlot (s : State) (i : Nat) (b : StoredFrame) (q : Pid) :
    (s.setSlot i b).tab q = s.tab q := rfl

@[simp] theorem tab_print (s : State) (m : Message) (q : Pid) :
    (s.print m).tab q = s.tab q := rfl

/-! ## Memory cells -/

theorem cell_setCell (s : State) {a : Nat} (e : Page) (ha : a < physMemSize) :
    (s.setPage (.cell a) e).cell a = e := by
  show Page.ofByte ((s.mainMemory.set a e.toByte).get a) = e
  rw [Cells.get_set_eq _ _ ha, Page.ofByte_toByte]

theorem cell_setCell_ne (s : State) {a b : Nat} (e : Page) (h : b ≠ a) :
    (s.setPage (.cell a) e).cell b = s.cell b := by
  show Page.ofByte ((s.mainMemory.set a e.toByte).get b) = Page.ofByte (s.mainMemory.get b)
  rw [Cells.get_set_ne _ _ h]

@[simp] theorem cell_setSlot (s : State) (i : Nat) (b : StoredFrame) (a : Nat) :
    (s.setSlot i b).cell a = s.cell a := rfl

theorem cell_fill_in (s : State) {f : Nat} (d : Cells Byte pageSize) (hf : f < pageFrames)
    {j : Nat} (hj : j < pageSize) :
    (s.fill f d).cell (f * pageSize + j) = Page.ofByte (d.get j) := by
  show Page.ofByte ((s.mainMemory.blit _ d).get _) = _
  rw [Cells.get_blit_in _ _ (by simp only [pageSize, physMemSize, pageFrames] at *; omega) hj]

/-! ## Table entries -/

/-- Entries follow the hardware entry and the cells of its frame. -/
theorem entry_congr {s s' : State} {p : Pid} {j : Nat}
    (htab : (s'.tab p).frame = (s.tab p).frame)
    (hcell : s'.cell ((s.tab p).frame * pageSize + j) = s.cell ((s.tab p).frame * pageSize + j)) :
    s'.entry p j = s.entry p j := by
  show s'.cell ((s'.tab p).frame * pageSize + j) = _
  rw [htab, hcell]
  rfl

theorem entry_setCell (s : State) {p : Pid} {j : Nat} (e : Page)
    (hf : ((s.tab p).frame : Nat) < pageFrames) (hj : j < pageSize) :
    (s.setPage (.cell ((s.tab p).frame * pageSize + j)) e).entry p j = e :=
  cell_setCell s e (addr_lt hf hj)

theorem entry_setCell_ne (s : State) {p q : Pid} {j k : Nat} (e : Page)
    (hj : j < pageSize) (hk : k < pageSize)
    (h : ((s.tab q).frame : Nat) ≠ (s.tab p).frame ∨ k ≠ j) :
    (s.setPage (.cell ((s.tab p).frame * pageSize + j)) e).entry q k = s.entry q k := by
  refine entry_congr rfl (cell_setCell_ne s e ?_)
  intro heq
  obtain ⟨h1, h2⟩ := addr_inj hk hj heq
  rcases h with h | h
  · exact h h1
  · exact h h2

/-! ## Frame contents -/

theorem get_bytes (s : State) (f : Nat) {j : Nat} (hj : j < pageSize) :
    (s.bytes f).get j = s.mainMemory.get (f * pageSize + j) := Cells.get_ofFn _ hj

theorem bytes_setCell_ne (s : State) {g f j : Nat} (e : Page) (hj : j < pageSize)
    (h : g ≠ f) : (s.setPage (.cell (f * pageSize + j)) e).bytes g = s.bytes g := by
  refine Cells.ext_get ?_
  intro k hk
  rw [get_bytes _ _ hk, get_bytes _ _ hk]
  exact Cells.get_set_ne _ _ (fun heq => h (addr_inj hk hj heq).1)

@[simp] theorem bytes_setSlot (s : State) (i : Nat) (b : StoredFrame) (g : Nat) :
    (s.setSlot i b).bytes g = s.bytes g := rfl

theorem bytes_fill (s : State) {f : Nat} (d : Cells Byte pageSize) (hf : f < pageFrames) :
    (s.fill f d).bytes f = d := by
  refine Cells.ext_get ?_
  intro j hj
  rw [get_bytes _ _ hj]
  exact Cells.get_blit_in _ _ (by simp only [pageSize, physMemSize, pageFrames] at *; omega) hj

/-! ## Slots -/

@[simp] theorem slot_setPage (s : State) (r : Ref) (e : Page) (i : Nat) :
    (s.setPage r e).slot i = s.slot i := by cases r <;> rfl

@[simp] theorem slot_fill (s : State) (f : Nat) (d : Cells Byte pageSize) (i : Nat) :
    (s.fill f d).slot i = s.slot i := by simp only [State.slot, State.fill]

theorem slot_setSlot (s : State) {i : Nat} (b : StoredFrame) (hi : i < storeFrames) :
    (s.setSlot i b).slot i = b := Cells.get_set_eq _ _ hi

theorem slot_setSlot_ne (s : State) {i j : Nat} (b : StoredFrame) (h : j ≠ i) :
    (s.setSlot i b).slot j = s.slot j := Cells.get_set_ne _ _ h

@[simp] theorem freeSlot_setPage (s : State) (r : Ref) (e : Page) :
    (s.setPage r e).freeSlot = s.freeSlot := by cases r <;> rfl

/-- An unused slot that the search finds. -/
theorem freeSlot_some {s : State} {i : Nat} (h : s.freeSlot = some i) :
    i < storeFrames ∧ (s.slot i).pid < 0 := by
  obtain ⟨h1, h2⟩ := Cells.find_some h
  exact ⟨h1, of_decide_eq_true h2⟩

end State

end OsProjects.Paging.PartTwo
