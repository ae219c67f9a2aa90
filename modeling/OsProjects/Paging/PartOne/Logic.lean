import OsProjects.Paging.PartOne.Model

/-!
# The logical memory of `Project4/Part1`

Frames are never given back, so a frame nobody owns is still all zero. That is
one half of the invariant; the other is exclusive ownership, as in `Part2`.
`content` is a page's bytes and write bit. `exec_spec` says of every call what
it answers and what it does to the page it addresses, and that it does nothing
to the others.
-/

namespace OsProjects.Paging.PartOne

open OsProjects.Lib OsProjects.Paging

namespace State

/-- Entry `j` of the page table of `p`. -/
def entry (s : State) (p : Pid) (j : Nat) : Page := s.cell ((s.tab p).frame * pageSize + j)

/-- The bytes of a frame. -/
def bytes (s : State) (frame : Nat) : Cells Byte pageSize :=
  Cells.ofFn fun j => s.mainMemory.get (frame * pageSize + j)

/-- Page `n` of `p`, or `none` when it is unmapped. -/
def content (s : State) (p : Pid) (n : Nat) : Option Content :=
  if (s.tab p).valid && (s.entry p n).valid then
    some (s.bytes (s.entry p n).frame, (s.entry p n).write)
  else none

/-- Write entry `n` of the table of `p`. -/
def setEntry (s : State) (p : Pid) (n : Nat) (e : Page) : State :=
  s.setPage (.cell ((s.tab p).frame * pageSize + n)) e

/-- Write byte `k` of frame `f`. -/
def poke (s : State) (f k : Nat) (v : Byte) : State :=
  { s with mainMemory := s.mainMemory.set (f * pageSize + k) v }

theorem page_cell (s : State) (p : Pid) (j : Nat) :
    s.page (.cell ((s.tab p).frame * pageSize + j)) = s.entry p j := rfl

theorem holds_table {s : State} {p : Pid} {f : Nat} :
    s.view.Holds (.table p) f ↔ (s.tab p).valid = true ∧ ((s.tab p).frame : Nat) = f :=
  Iff.rfl

theorem holds_page {s : State} {p : Pid} {j f : Nat} :
    s.view.Holds (.page p j) f ↔ (s.tab p).valid = true ∧ j < pageSize ∧
      (s.entry p j).valid = true ∧ ((s.entry p j).frame : Nat) = f :=
  Iff.rfl

theorem get_bytes (s : State) (f : Nat) {j : Nat} (hj : j < pageSize) :
    (s.bytes f).get j = s.mainMemory.get (f * pageSize + j) := Cells.get_ofFn _ hj

theorem content_eq_some {s : State} {p : Pid} {n : Nat} (hp : (s.tab p).valid = true)
    (hv : (s.entry p n).valid = true) :
    s.content p n = some (s.bytes (s.entry p n).frame, (s.entry p n).write) := by
  simp [content, hp, hv]

theorem content_of_tab {s : State} {p : Pid} (hp : (s.tab p).valid = false) (n : Nat) :
    s.content p n = none := by
  simp [content, hp]

theorem content_of_entry {s : State} {p : Pid} {n : Nat} (hv : (s.entry p n).valid = false) :
    s.content p n = none := by
  simp [content, hv]

end State

/-- The state invariant. -/
structure Inv (s : State) : Prop where
  wf : s.view.Wf
  fresh : ∀ f, f < pageFrames → Unowned s.view.Holds f → ∀ j, j < pageSize →
    s.mainMemory.get (f * pageSize + j) = 0

namespace Inv

variable {s : State}

theorem tab_lt (h : Inv s) {p : Pid} (hp : (s.tab p).valid = true) :
    ((s.tab p).frame : Nat) < pageFrames := h.wf.frame_lt (.table p) _ ⟨hp, rfl⟩

theorem page_ne_tab (h : Inv s) {p q : Pid} {j f : Nat} (hp : s.view.Holds (.page p j) f)
    (hq : (s.tab q).valid = true) : ((s.tab q).frame : Nat) ≠ f := by
  intro heq
  have := h.wf.excl (.page p j) (.table q) f hp ⟨hq, heq⟩
  cases this

theorem print (h : Inv s) (m : Message) : Inv (s.print m) := ⟨h.wf, h.fresh⟩

end Inv

/-! ## Writing one byte -/

section Poke

variable {s : State} {f k : Nat} {v : Byte}

/-- An entry changes when the byte it lies in is written. -/
theorem entry_poke (hf : f < pageFrames) (hk : k < pageSize) (p : Pid) {j : Nat}
    (hj : j < pageSize) : (s.poke f k v).entry p j =
      if ((s.tab p).frame : Nat) = f ∧ j = k then Page.ofByte v else s.entry p j := by
  show Page.ofByte ((s.mainMemory.set (f * pageSize + k) v).get
    ((s.tab p).frame * pageSize + j)) = _
  split
  · rename_i heq
    rw [heq.1, heq.2, Cells.get_set_eq _ _ (addr_lt hf hk)]
  · rename_i hne
    rw [Cells.get_set_ne _ _ (fun heq => hne (addr_inj hj hk heq))]
    rfl

theorem bytes_poke_ne {g : Nat} (hk : k < pageSize) (hg : g ≠ f) :
    (s.poke f k v).bytes g = s.bytes g := by
  refine Cells.ext_get ?_
  intro j hj
  rw [State.get_bytes _ _ hj, State.get_bytes _ _ hj]
  exact Cells.get_set_ne _ _ (fun heq => hg (addr_inj hj hk heq).1)

theorem bytes_poke (hf : f < pageFrames) (hk : k < pageSize) :
    (s.poke f k v).bytes f = (s.bytes f).set k v := by
  refine Cells.ext_get ?_
  intro j hj
  rw [State.get_bytes _ _ hj]
  by_cases hjk : j = k
  · subst hjk
    rw [Cells.get_set_eq _ _ hj]
    exact Cells.get_set_eq _ _ (addr_lt hf hj)
  · rw [Cells.get_set_ne _ _ hjk, State.get_bytes _ _ hj]
    exact Cells.get_set_ne _ _ (fun heq => hjk (addr_inj hj hk heq).2)

/-- Free frames stay zero when a byte of a frame that stays owned is written. -/
theorem fresh_poke (h : Inv s) (hk : k < pageSize) {t : State}
    (hmem : t.mainMemory = s.mainMemory.set (f * pageSize + k) v)
    (hgrow : ∀ o g, s.view.Holds o g → t.view.Holds o g) (hown : ∃ o, t.view.Holds o f)
    {g : Nat} (hg : g < pageFrames) (hfree : Unowned t.view.Holds g) {j : Nat}
    (hj : j < pageSize) : t.mainMemory.get (g * pageSize + j) = 0 := by
  have hgf : g ≠ f := by
    rintro rfl
    obtain ⟨o, ho⟩ := hown
    exact hfree o ho
  rw [hmem, Cells.get_set_ne _ _ (fun heq => hgf (addr_inj hj hk heq).1)]
  exact h.fresh g hg (fun o ho => hfree o (hgrow o g ho)) j hj

/-- A page notices only writes to its entry and to its bytes. -/
theorem content_poke_ne (hf : f < pageFrames) (hk : k < pageSize) {q : Pid} {m : Nat}
    (hm : m < pageSize)
    (hentry : (s.tab q).valid = true → ¬ (((s.tab q).frame : Nat) = f ∧ m = k))
    (hdata : ¬ s.view.Holds (.page q m) f) : (s.poke f k v).content q m = s.content q m := by
  unfold State.content
  rw [show (s.poke f k v).tab q = s.tab q from rfl]
  by_cases hq : (s.tab q).valid = true
  · rw [entry_poke hf hk q hm, if_neg (hentry hq)]
    by_cases hv : (s.entry q m).valid = true
    · rw [bytes_poke_ne hk (fun heq => hdata (State.holds_page.mpr ⟨hq, hm, hv, heq⟩))]
    · simp [hv]
  · simp [hq]

end Poke

/-! ## The four changes a call makes -/

section Changes

variable {s : State} {p : Pid} {n f : Nat}

/-- Page `n` of `p` now is `c`; the other pages are as before. -/
structure Put (p : Pid) (n : Nat) (c : Content) (s s' : State) : Prop where
  inv : Inv s'
  own : s'.content p n = some c
  others : ∀ q m, m < pageSize → ¬ (q = p ∧ m = n) → s'.content q m = s.content q m

theorem Put.print {c : Content} {s' : State} (h : Put p n c s s') (m : Message) :
    Put p n c s (s'.print m) := ⟨h.inv.print m, h.own, h.others⟩

theorem entry_setEntry (h : Inv s) (hp : (s.tab p).valid = true) (hn : n < pageSize) (e : Page)
    {q : Pid} {k : Nat} (hq : (s.tab q).valid = true) (hk : k < pageSize) :
    (s.setEntry p n e).entry q k = if q = p ∧ k = n then e else s.entry q k := by
  show (s.poke (s.tab p).frame n e.toByte).entry q k = _
  rw [entry_poke (h.tab_lt hp) hn q hk, Page.ofByte_toByte]
  by_cases hqk : q = p ∧ k = n
  · rw [if_pos hqk, if_pos ⟨by rw [hqk.1], hqk.2⟩]
  · rw [if_neg hqk, if_neg (fun hc => hqk ⟨h.wf.tab_inj hq hp hc.1, hc.2⟩)]

/-- Writing an entry leaves the other pages alone. -/
theorem content_setEntry_ne (h : Inv s) (hp : (s.tab p).valid = true) (hn : n < pageSize)
    (e : Page) {q : Pid} {m : Nat} (hm : m < pageSize) (hne : ¬ (q = p ∧ m = n)) :
    (s.setEntry p n e).content q m = s.content q m :=
  content_poke_ne (h.tab_lt hp) hn hm (fun hq hc => hne ⟨h.wf.tab_inj hq hp hc.1, hc.2⟩)
    (fun ho => h.page_ne_tab ho hp rfl)

theorem content_setEntry (h : Inv s) (hp : (s.tab p).valid = true) (hn : n < pageSize) {e : Page}
    (hv : e.valid = true) (hframe : ((s.tab p).frame : Nat) ≠ e.frame) :
    (s.setEntry p n e).content p n = some (s.bytes e.frame, e.write) := by
  have hentry : (s.setEntry p n e).entry p n = e := by
    rw [entry_setEntry h hp hn e hp hn, if_pos ⟨rfl, rfl⟩]
  have hv' : ((s.setEntry p n e).entry p n).valid = true := by rw [hentry]; exact hv
  rw [State.content_eq_some (s := s.setEntry p n e) hp hv', hentry]
  show some ((s.poke (s.tab p).frame n e.toByte).bytes e.frame, e.write) = _
  rw [bytes_poke_ne hn hframe.symm]

theorem tab_setProc_ne {e : Page} {q : Pid} (hq : q ≠ p) :
    (s.setPage (.proc p) e).tab q = s.tab q :=
  Cells.get_set_ne _ _ (fun heq => hq (Fin.ext heq))

theorem entry_setProc_ne {e : Page} {q : Pid} (hq : q ≠ p) (k : Nat) :
    (s.setPage (.proc p) e).entry q k = s.entry q k := by
  show s.cell (((s.setPage (.proc p) e).tab q).frame * pageSize + k) = _
  rw [tab_setProc_ne hq]
  rfl

theorem view_entry (s : State) (p : Pid) (j : Nat) :
    s.view.entry p j = ⟨(s.entry p j).valid, (s.entry p j).frame⟩ := rfl

/-- An unmapped page takes a free frame, which is all zero. -/
theorem Put.fresh (h : Inv s) (hp : (s.tab p).valid = true) (hn : n < 4)
    (hout : (s.entry p n).valid = false) (hf : f < pageFrames) (hfree : Unowned s.view.Holds f)
    {e : Page} (hv : e.valid = true) (hframe : (e.frame : Nat) = f) :
    Put p n (Cells.ofFn fun _ => 0, e.write) s (s.setEntry p n e) := by
  have hn16 : n < pageSize := by simp only [pageSize]; omega
  have hne : ((s.tab p).frame : Nat) ≠ e.frame := by
    rw [hframe]
    exact fun heq => hfree (.table p) (State.holds_table.mpr ⟨hp, heq⟩)
  have hcl : Claimed s.view.Holds (s.setEntry p n e).view.Holds (.page p n) f := by
    refine View.claimed_page hp hn16 hout (fun _ => rfl) ?_ ?_
    · rw [view_entry, entry_setEntry h hp hn16 e hp hn16, if_pos ⟨rfl, rfl⟩, hv, hframe]
    · intro q k hq hk hqk
      rw [view_entry, entry_setEntry h hp hn16 e hq hk, if_neg hqk]
      rfl
  refine ⟨⟨h.wf.claimed hcl hf hfree (fun _ _ hc => by injection hc with _ hk; omega), ?_⟩, ?_,
    fun q m hm hqm => content_setEntry_ne h hp hn16 e hm hqm⟩
  · -- the byte written lies in the frame of the table, which stays owned
    intro g hg hfree' j hj
    exact fresh_poke h hn16 (t := s.setEntry p n e) rfl (fun o g ho => (hcl o g).mpr (.inl ho))
      ⟨.table p, State.holds_table.mpr ⟨hp, rfl⟩⟩ hg hfree' hj
  · rw [content_setEntry h hp hn16 hv hne, hframe]
    congr 2
    -- the frame has not been owned before, so it reads zero
    refine Cells.ext_get ?_
    intro j hj
    rw [State.get_bytes _ _ hj, Cells.get_ofFn _ hj]
    exact h.fresh f hf hfree j hj

/-- A mapped page changes its write bit. -/
theorem Put.chmod (h : Inv s) (hp : (s.tab p).valid = true) (hn : n < pageSize)
    (hv : (s.entry p n).valid = true) (w : Bool) :
    Put p n (s.bytes (s.entry p n).frame, w) s
      (s.setEntry p n { s.entry p n with write := w }) := by
  have hown : s.view.Holds (.page p n) (s.entry p n).frame :=
    State.holds_page.mpr ⟨hp, hn, hv, rfl⟩
  have hholds : ∀ o g, (s.setEntry p n { s.entry p n with write := w }).view.Holds o g ↔
      s.view.Holds o g := by
    refine View.holds_congr (fun _ => rfl) ?_
    intro q k hq hk
    rw [view_entry, entry_setEntry h hp hn _ hq hk]
    split
    · rename_i hqk
      rw [hqk.1, hqk.2]
      rfl
    · rfl
  refine ⟨⟨h.wf.congr hholds, ?_⟩, content_setEntry h hp hn hv (h.page_ne_tab hown hp),
    fun q m hm hqm => content_setEntry_ne h hp hn _ hm hqm⟩
  intro g hg hfree j hj
  exact fresh_poke h hn (t := s.setEntry p n { s.entry p n with write := w }) rfl
    (fun o g ho => (hholds o g).mpr ho) ⟨.table p, State.holds_table.mpr ⟨hp, rfl⟩⟩ hg hfree hj

/-- A byte of a mapped page is written. -/
theorem Put.poke {k : Nat} (h : Inv s) (ho : s.view.Holds (.page p n) f) (hk : k < pageSize)
    (v : Byte) : Put p n ((s.bytes f).set k v, (s.entry p n).write) s (s.poke f k v) := by
  obtain ⟨hp, hn, hv, hframe⟩ := State.holds_page.mp ho
  have hf : f < pageFrames := h.wf.frame_lt _ _ ho
  have hentry : ∀ q j, (s.tab q).valid = true → j < pageSize →
      (s.poke f k v).entry q j = s.entry q j := by
    intro q j hq hj
    rw [entry_poke hf hk q hj, if_neg (fun hc => h.page_ne_tab ho hq hc.1)]
  have hholds : ∀ o g, (s.poke f k v).view.Holds o g ↔ s.view.Holds o g := by
    refine View.holds_congr (fun _ => rfl) ?_
    intro q j hq hj
    rw [view_entry, hentry q j hq hj]
    rfl
  refine ⟨⟨h.wf.congr hholds, ?_⟩, ?_, ?_⟩
  · intro g hg hfree j hj
    exact fresh_poke h hk (t := s.poke f k v) rfl (fun o g ho => (hholds o g).mpr ho)
      ⟨_, (hholds _ f).mpr ho⟩ hg hfree hj
  · have hv' : ((s.poke f k v).entry p n).valid = true := by rw [hentry p n hp hn]; exact hv
    rw [State.content_eq_some (s := s.poke f k v) hp hv', hentry p n hp hn, hframe,
      bytes_poke hf hk]
  · intro q m hm hqm
    refine content_poke_ne hf hk hm (fun hq hc => h.page_ne_tab ho hq hc.1) ?_
    intro hq
    have := h.wf.excl _ _ _ hq ho
    injection this with h1 h2
    exact hqm ⟨h1, h2⟩

/-- The entries of an all-zero frame are invalid, and clearing them writes the
zeros that are there. -/
theorem clearTable_zero
    (hzero : ∀ j, j < pageSize → s.mainMemory.get (f * pageSize + j) = 0) :
    clearTable f s = s := by
  have hset : ∀ j, j < pageSize → s.setPage (.cell (f * pageSize + j))
      { s.cell (f * pageSize + j) with valid := false } = s := by
    intro j hj
    have hbyte : ({ s.cell (f * pageSize + j) with valid := false } : Page).toByte =
        s.mainMemory.get (f * pageSize + j) := by
      rw [State.cell, hzero j hj]
      decide
    show { s with mainMemory := s.mainMemory.set _ _ } = s
    rw [hbyte, Cells.set_get]
  -- no round of the loop changes the state
  have key : ∀ k, k ≤ pageSize → (List.range k).foldl (fun s j =>
      s.setPage (.cell (f * pageSize + j))
        { s.cell (f * pageSize + j) with valid := false }) s = s := by
    intro k
    induction k with
    | zero => exact fun _ => rfl
    | succ k ih =>
      intro hk
      rw [List.range_succ, List.foldl_append, ih (by omega)]
      exact hset k (by omega)
  exact key pageSize (Nat.le_refl _)

/-- A process without a table is given a free frame for it: no page changes. -/
theorem newTable_spec (h : Inv s) (hout : (s.tab p).valid = false) (hf : f < pageFrames)
    (hfree : Unowned s.view.Holds f) {e : Page} (hv : e.valid = true)
    (hframe : (e.frame : Nat) = f) :
    Inv (s.setPage (.proc p) e) ∧ (s.setPage (.proc p) e).tab p = e ∧
      (∀ k, k < pageSize → ((s.setPage (.proc p) e).entry p k).valid = false) ∧
      ∀ q m, m < pageSize → (s.setPage (.proc p) e).content q m = s.content q m := by
  have htab : (s.setPage (.proc p) e).tab p = e := Cells.get_set_eq _ _ p.isLt
  have hempty : ∀ k, k < pageSize → ((s.setPage (.proc p) e).entry p k).valid = false := by
    intro k hk
    show (Page.ofByte (s.mainMemory.get
      (((s.setPage (.proc p) e).tab p).frame * pageSize + k))).valid = false
    rw [htab, hframe, h.fresh f hf hfree k hk]
    decide
  have hcl : Claimed s.view.Holds (s.setPage (.proc p) e).view.Holds (.table p) f := by
    refine View.claimed_table hout ?_ hempty ?_ ?_
    · show (⟨((s.setPage (.proc p) e).tab p).valid, ((s.setPage (.proc p) e).tab p).frame⟩ :
        Entry) = _
      rw [htab, hv, hframe]
    · intro q hq
      show (⟨((s.setPage (.proc p) e).tab q).valid, ((s.setPage (.proc p) e).tab q).frame⟩ :
        Entry) = _
      rw [tab_setProc_ne hq]
      rfl
    · intro q k hq _ _
      rw [view_entry, entry_setProc_ne hq]
      rfl
  refine ⟨⟨h.wf.claimed hcl hf hfree (fun _ _ hc => by cases hc), ?_⟩, htab, hempty, ?_⟩
  · intro g hg hfree' j hj
    exact h.fresh g hg (fun o ho => hfree' o ((hcl o g).mpr (.inl ho))) j hj
  · intro q m hm
    by_cases hq : q = p
    · subst hq
      rw [State.content_of_entry (hempty m hm), State.content_of_tab hout]
    · unfold State.content
      rw [tab_setProc_ne hq, entry_setProc_ne hq]
      rfl

end Changes

/-! ## The calls -/

section Calls

variable {s : State}

theorem findFreeFrame_eq (s : State) : findFreeFrame s = s.view.firstFree := by
  unfold findFreeFrame View.firstFree frameAllocated
  congr 1
  funext i
  cases s.view.frameAllocated i <;> rfl

theorem ofNat_frame {f : Nat} (hf : f < pageFrames) : ((Fin.ofNat 64 f : Fin 64) : Nat) = f := by
  show f % 64 = f
  simp only [pageFrames] at hf
  omega

/-- `init_table` with a free frame: the hardware entry is all that changes. -/
theorem initTable_free (h : Inv s) (p : Pid) {f : Nat} (hff : s.view.firstFree = some f) :
    initTable p s = (s.setPage (.proc p)
      { valid := true, write := true, frame := Fin.ofNat 64 f }).print (.putTable p f) := by
  obtain ⟨hf, hfree⟩ := View.firstFree_some hff
  unfold initTable
  rw [findFreeFrame_eq, hff]
  show State.print (clearTable f _) _ = _
  rw [clearTable_zero (s := s.setPage (.proc p) _) (h.fresh f hf hfree)]

/-- `init_table` changes no page. -/
theorem initTable_spec (h : Inv s) {p : Pid} (hout : (s.tab p).valid = false) :
    Inv (initTable p s) ∧
      ∀ q m, m < pageSize → (initTable p s).content q m = s.content q m := by
  cases hff : s.view.firstFree with
  | none =>
    unfold initTable
    rw [findFreeFrame_eq, hff]
    exact ⟨h.print _, fun _ _ _ => rfl⟩
  | some f =>
    obtain ⟨hf, hfree⟩ := View.firstFree_some hff
    rw [initTable_free h p hff]
    obtain ⟨hinv, -, -, hsame⟩ := newTable_spec h hout hf hfree
      (e := { valid := true, write := true, frame := Fin.ofNat 64 f }) rfl (ofNat_frame hf)
    exact ⟨hinv.print _, hsame⟩

/-- What a call answers, and what becomes of the page it addresses. -/
def Answer (s : State) : Cmd → Result → State → Prop
  | .map p a w, r, s' =>
    (r.ret = true → s.content p a.page = none ∧
      s'.content p a.page = some (Cells.ofFn fun _ => 0, w)) ∧
    (r.ret = false → s'.content p a.page = (s.content p a.page).map fun c => (c.1, w))
  | .store p a v, r, s' =>
    (r.ret = true → ∃ d, s.content p a.page = some (d, true) ∧
      s'.content p a.page = some (d.set a.offset v, true)) ∧
    (r.ret = false → s'.content p a.page = s.content p a.page ∧
      ∀ d, s.content p a.page ≠ some (d, true))
  | .load p a, r, s' =>
    s'.content p a.page = s.content p a.page ∧ r.ret = r.out.isSome ∧
      r.out = (s.content p a.page).map fun c => c.1.get a.offset

/-- The pages a call does not address stay as they are. -/
def Others (p : Pid) (n : Nat) (s s' : State) : Prop :=
  ∀ q m, m < pageSize → ¬ (q = p ∧ m = n) → s'.content q m = s.content q m

/-- `map_page` of a process that has a table. -/
theorem mapEntry_spec (h : Inv s) {p : Pid} (hp : (s.tab p).valid = true) (a : Address)
    (w : Bool) : ∃ b s', mapEntry p a w s = some (b, s') ∧ Inv s' ∧ Others p a.page s s' ∧
      Answer s (.map p a w) ⟨b, none⟩ s' := by
  have hn16 : a.page < pageSize := lt_trans a.page_lt (by decide)
  unfold mapEntry findPage
  rw [if_pos hp]
  simp only [Option.bind_eq_bind, Option.bind_some]
  by_cases hv : (s.page (.cell ((s.tab p).frame * pageSize + a.page))).valid = true
  · have hput := (Put.chmod h hp hn16 hv w).print (.updatingWrite a.page)
    refine ⟨false, _, if_pos hv, hput.inv, hput.others, nofun, fun _ => ?_⟩
    rw [State.content_eq_some hp hv]
    exact hput.own
  · rw [if_neg hv, findFreeFrame_eq]
    have hout : (s.entry p a.page).valid = false := by rw [← Bool.not_eq_true]; exact hv
    cases hff : s.view.firstFree with
    | none =>
      refine ⟨false, _, rfl, h.print _, fun _ _ _ _ => rfl, nofun, fun _ => ?_⟩
      have hnone := State.content_of_entry hout
      rw [hnone]
      exact hnone
    | some f =>
      obtain ⟨hf, hfree⟩ := View.firstFree_some hff
      have hput := (Put.fresh h hp a.page_lt hout hf hfree (e := { s.entry p a.page with
        frame := Fin.ofNat 64 f, valid := true, write := w }) rfl (ofNat_frame hf)).print
          (.mapped a a.page f)
      exact ⟨true, _, rfl, hput.inv, hput.others,
        fun _ => ⟨State.content_of_entry hout, hput.own⟩, nofun⟩

theorem mapPage_spec (h : Inv s) (p : Pid) (a : Address) (w : Bool) :
    ∃ b s', mapPage p a w s = some (b, s') ∧ Inv s' ∧ Others p a.page s s' ∧
      Answer s (.map p a w) ⟨b, none⟩ s' := by
  have hn16 : a.page < pageSize := lt_trans a.page_lt (by decide)
  unfold mapPage
  by_cases hp : (s.tab p).valid = true
  · rw [if_pos hp]
    exact mapEntry_spec h hp a w
  · rw [if_neg hp]
    obtain ⟨hinv, hsame⟩ := initTable_spec h (p := p) (by simpa using hp)
    by_cases hp' : ((initTable p s).tab p).valid = true
    · obtain ⟨b, s', heq, hinv', hothers, hans⟩ := mapEntry_spec hinv hp' a w
      refine ⟨b, s', ?_, hinv', ?_, ?_⟩
      · simp only [hp', Bool.not_true, Bool.false_eq_true, if_false, heq]
      · intro q m hm hqm
        rw [hothers q m hm hqm, hsame q m hm]
      · simp only [Answer] at hans ⊢
        rw [hsame p _ hn16] at hans
        exact hans
    · refine ⟨false, (initTable p s).print (.noTable p), ?_, hinv.print _, ?_, nofun, ?_⟩
      · simp only [hp', Bool.not_false, if_true]
      · exact fun q m hm _ => hsame q m hm
      · intro _
        have hnone := State.content_of_tab (s := s) (by simpa using hp) a.page
        rw [hnone]
        exact (hsame p _ hn16).trans hnone

/-- The lookup finds exactly the mapped pages. -/
theorem lookup_spec (h : Inv s) (p : Pid) (a : Address) :
    ∃ r s', lookup p a s = some (r, s') ∧ Inv s' ∧ (∀ q m, s'.content q m = s.content q m) ∧
      (∀ page, r = some page → s' = s ∧ page = .cell ((s.tab p).frame * pageSize + a.page) ∧
        (s.tab p).valid = true ∧ (s.entry p a.page).valid = true) ∧
      (r = none → s.content p a.page = none) := by
  unfold lookup
  by_cases hp : (s.tab p).valid = true
  · rw [if_neg (by rw [hp]; decide)]
    unfold findPage
    rw [if_pos hp]
    simp only [Option.bind_eq_bind, Option.bind_some, State.page_cell]
    by_cases hv : (s.entry p a.page).valid = true
    · refine ⟨_, s, if_neg (by rw [hv]; decide), h, fun _ _ => rfl, ?_, nofun⟩
      intro page hpage
      cases hpage
      exact ⟨rfl, rfl, hp, hv⟩
    · rw [Bool.not_eq_true] at hv
      exact ⟨none, s.print (.noFrame a p), if_pos (by rw [hv]; rfl), h.print _, fun _ _ => rfl,
        nofun, fun _ => State.content_of_entry hv⟩
  · rw [Bool.not_eq_true] at hp
    rw [if_pos (by rw [hp]; rfl)]
    exact ⟨none, s.print (.noPages p), rfl, h.print _, fun _ _ => rfl, nofun,
      fun _ => State.content_of_tab hp _⟩

theorem store_spec (h : Inv s) (p : Pid) (a : Address) (v : Byte) :
    ∃ b s', store p a v s = some (b, s') ∧ Inv s' ∧ Others p a.page s s' ∧
      Answer s (.store p a v) ⟨b, none⟩ s' := by
  have hn16 : a.page < pageSize := lt_trans a.page_lt (by decide)
  obtain ⟨r, s₁, hlook, hinv, hsame, hsome, hnone⟩ := lookup_spec h p a
  unfold store
  rw [hlook]
  cases r with
  | none =>
    refine ⟨false, s₁, rfl, hinv, fun q m _ _ => hsame q m, nofun, fun _ => ⟨hsame _ _, ?_⟩⟩
    intro d hd
    rw [hnone rfl] at hd
    cases hd
  | some page =>
    obtain ⟨rfl, rfl, hp, hv⟩ := hsome page rfl
    have hcontent := State.content_eq_some hp hv
    simp only [Option.bind_eq_bind, Option.bind_some]
    by_cases hw : (s₁.entry p a.page).write = true
    · have ho : s₁.view.Holds (.page p a.page) (s₁.entry p a.page).frame :=
        State.holds_page.mpr ⟨hp, hn16, hv, rfl⟩
      have hput := (Put.poke hinv ho a.offset_lt v).print
        (.stored v a (s₁.phys (.cell ((s₁.tab p).frame * pageSize + a.page)) a))
      rw [hw] at hput hcontent
      exact ⟨true, _, if_neg (by rw [State.page_cell, hw]; decide), hput.inv, hput.others,
        fun _ => ⟨_, hcontent, hput.own⟩, nofun⟩
    · rw [Bool.not_eq_true] at hw
      rw [hw] at hcontent
      refine ⟨false, _, if_pos (by rw [State.page_cell, hw]; rfl), hinv.print _,
        fun _ _ _ _ => rfl, nofun, fun _ => ⟨rfl, ?_⟩⟩
      intro d hd
      rw [hcontent] at hd
      cases hd

theorem load_spec (h : Inv s) (p : Pid) (a : Address) :
    ∃ r s', load p a s = some (r, s') ∧ Inv s' ∧ Others p a.page s s' ∧
      Answer s (.load p a) ⟨r.isSome, r⟩ s' := by
  obtain ⟨r, s₁, hlook, hinv, hsame, hsome, hnone⟩ := lookup_spec h p a
  unfold load
  rw [hlook]
  cases r with
  | none =>
    refine ⟨none, s₁, rfl, hinv, fun q m _ _ => hsame q m, hsame _ _, rfl, ?_⟩
    rw [hnone rfl]
    rfl
  | some page =>
    obtain ⟨rfl, rfl, hp, hv⟩ := hsome page rfl
    refine ⟨_, _, rfl, hinv.print _, fun _ _ _ _ => rfl, rfl, rfl, ?_⟩
    rw [State.content_eq_some hp hv, Option.map_some, State.get_bytes _ _ a.offset_lt]
    rfl

/-- Every call comes back. -/
theorem exec_spec (h : Inv s) (c : Cmd) :
    ∃ r s', exec c s = some (r, s') ∧ Inv s' ∧ Others c.pid c.page s s' ∧ Answer s c r s' := by
  cases c with
  | map p a w =>
    obtain ⟨b, s', heq, hinv, hothers, hans⟩ := mapPage_spec h p a w
    exact ⟨⟨b, none⟩, s', by rw [exec, heq]; rfl, hinv, hothers, hans⟩
  | store p a v =>
    obtain ⟨b, s', heq, hrest⟩ := store_spec h p a v
    exact ⟨⟨b, none⟩, s', by rw [exec, heq]; rfl, hrest⟩
  | load p a =>
    obtain ⟨v, s', heq, hrest⟩ := load_spec h p a
    exact ⟨⟨v.isSome, v⟩, s', by rw [exec, heq]; rfl, hrest⟩

end Calls

end OsProjects.Paging.PartOne
