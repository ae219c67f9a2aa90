import OsProjects.Paging.PartTwo.Moves

/-!
# Bringing tables and pages into memory

The writes of `check_backing_store`, `init_table` and `map_page` once a free
frame `f` is at hand, one primitive at a time:

* `fill` — copying into a frame nobody owns changes nothing visible;
* `release` — the slot of a reloaded object becomes unused;
* `setTab` — a hardware entry takes `f`, whose bytes are the entries of an
  empty table;
* `setEntry` — a table entry takes `f` (or changes its write bit);
* `poke` — a byte of a resident page changes.

Each keeps the invariant; the lemmas say what each does to the logical
memory.
-/

namespace OsProjects.Paging.PartTwo

open OsProjects.Lib OsProjects.Paging

namespace State

/-- Slot `i` becomes unused. -/
def release (s : State) (i : Nat) : State := s.setSlot i { s.slot i with pid := -1 }

/-- Write the hardware entry of `p`. -/
def setTab (s : State) (p : Pid) (e : Page) : State := s.setPage (.proc p) e

/-- Write entry `n` of the table of `p`. -/
def setEntry (s : State) (p : Pid) (n : Nat) (e : Page) : State :=
  s.setPage (.cell ((s.tab p).frame * pageSize + n)) e

/-- Write byte `k` of frame `f`. -/
def poke (s : State) (f k : Nat) (v : Byte) : State :=
  { s with mainMemory := s.mainMemory.set (f * pageSize + k) v }

end State

/-- Same logical memory and counters: the two states differ in nothing a later
call can notice, apart from frame numbers and the printed lines. -/
structure SameLogic (s s' : State) : Prop where
  resident : ∀ q m, m < pageSize → s'.resident q m = s.resident q m
  swapped : ∀ q m, s'.swapped q m = s.swapped q m
  drops : s'.drops = s.drops
  leaked : s'.leakedSlots = s.leakedSlots

namespace SameLogic

variable {s s₁ s₂ : State}

theorem refl (s : State) : SameLogic s s := ⟨fun _ _ _ => rfl, fun _ _ => rfl, rfl, rfl⟩

theorem trans (h₁ : SameLogic s s₁) (h₂ : SameLogic s₁ s₂) : SameLogic s s₂ :=
  ⟨fun q m hm => (h₂.resident q m hm).trans (h₁.resident q m hm),
    fun q m => (h₂.swapped q m).trans (h₁.swapped q m),
    h₂.drops.trans h₁.drops, h₂.leaked.trans h₁.leaked⟩

theorem content (h : SameLogic s s₁) (q : Pid) {m : Nat} (hm : m < pageSize) :
    s₁.content q m = s.content q m := by
  unfold State.content
  rw [h.resident q m hm, h.swapped]

theorem pageZeros (h : SameLogic s s₁) : s₁.pageZeros = s.pageZeros := by
  unfold State.pageZeros
  rw [h.leaked]
  simp only [h.resident _ 0 (by decide : 0 < pageSize)]

end SameLogic

/-! ## Writing a frame that holds no resident table

`fill`, the loop of `init_table` and `store` all write within one frame. -/

section FrameWrite

variable {s : State} {f : Nat} {m : Cells Byte physMemSize}

def State.withMem (s : State) (m : Cells Byte physMemSize) : State := { s with mainMemory := m }

/-- `m` differs from the memory of `s` at most in frame `f`, which holds no
resident table. -/
structure FrameWrite (s : State) (f : Nat) (m : Cells Byte physMemSize) : Prop where
  mem : ∀ g j, g ≠ f → j < pageSize →
    m.get (g * pageSize + j) = s.mainMemory.get (g * pageSize + j)
  data : ∀ q, (s.tab q).valid = true → ((s.tab q).frame : Nat) ≠ f

theorem FrameWrite.entry (hw : FrameWrite s f m) {q : Pid} {k : Nat}
    (hq : (s.tab q).valid = true) (hk : k < pageSize) :
    (s.withMem m).entry q k = s.entry q k := by
  refine State.entry_congr rfl ?_
  show Page.ofByte (m.get _) = Page.ofByte (s.mainMemory.get _)
  rw [hw.mem _ _ (hw.data q hq) hk]

theorem FrameWrite.bytes (hw : FrameWrite s f m) {g : Nat} (hg : g ≠ f) :
    (s.withMem m).bytes g = s.bytes g := by
  refine Cells.ext_get ?_
  intro j hj
  rw [State.get_bytes _ _ hj, State.get_bytes _ _ hj]
  exact hw.mem g j hg hj

theorem FrameWrite.holds (hw : FrameWrite s f m) (o : Owner) (g : Nat) :
    (s.withMem m).view.Holds o g ↔ s.view.Holds o g := by
  refine View.holds_congr (fun q => show (s.withMem m).view.tab q = s.view.tab q from rfl) ?_ o g
  intro q k hq hk
  show (⟨((s.withMem m).entry q k).valid, ((s.withMem m).entry q k).frame⟩ : Entry) = _
  rw [hw.entry hq hk]
  rfl

theorem FrameWrite.inv (hw : FrameWrite s f m) (h : Inv s) : Inv (s.withMem m) := by
  refine h.of_slots_eq (fun _ => rfl) (h.wf.congr hw.holds) h.robin_lt h.tab_procc ?_ ?_
  · intro p j hp hj
    rw [hw.entry hp hj]
    exact h.entry_procc p j hp hj
  · rintro o i hst ⟨g, hg⟩
    exact h.slot_absent o i hst ⟨g, (hw.holds o g).mp hg⟩

/-- Pages in other frames do not notice. -/
theorem FrameWrite.resident (hw : FrameWrite s f m) {q : Pid} {n : Nat} (hn : n < pageSize)
    (hne : ¬ s.view.Holds (.page q n) f) : (s.withMem m).resident q n = s.resident q n := by
  unfold State.resident
  rw [show (s.withMem m).tab q = s.tab q from rfl]
  by_cases hq : (s.tab q).valid = true
  · rw [hw.entry hq hn]
    by_cases hv : (s.entry q n).valid = true
    · rw [hw.bytes (fun heq => hne (State.holds_page.mpr ⟨hq, hn, hv, heq⟩))]
    · simp [hv]
  · simp [hq]

/-- A frame nobody owns can be written unnoticed. -/
theorem FrameWrite.same (hw : FrameWrite s f m) (hfree : Unowned s.view.Holds f) :
    SameLogic s (s.withMem m) :=
  ⟨fun q _ hn => hw.resident hn (hfree (.page q _)), fun _ _ => rfl, rfl, rfl⟩

theorem Unowned.not_table (hfree : Unowned s.view.Holds f) (q : Pid)
    (hq : (s.tab q).valid = true) : ((s.tab q).frame : Nat) ≠ f :=
  fun heq => hfree (.table q) (State.holds_table.mpr ⟨hq, heq⟩)

theorem fill_write (d : Cells Byte pageSize) (hf : f < pageFrames)
    (hfree : Unowned s.view.Holds f) :
    FrameWrite s f (s.mainMemory.blit (f * pageSize) d) := by
  refine ⟨?_, fun q hq => Unowned.not_table hfree q hq⟩
  intro g j hg hj
  exact Cells.get_blit_out _ _ (by simp only [pageSize, physMemSize, pageFrames] at *; omega)
    (by simp only [pageSize] at *; omega)

/-- The loop of `init_table` leaves an empty table in the frame. -/
theorem clearTable_write (p : Pid) (hf : f < pageFrames) (hfree : Unowned s.view.Holds f) :
    ∃ m, clearTable p f s = s.withMem m ∧ FrameWrite s f m ∧
      ∀ j, j < pageSize → (Page.ofByte (m.get (f * pageSize + j))).valid = false ∧
        (Page.ofByte (m.get (f * pageSize + j))).procc = p := by
  -- after `k` rounds the first `k` entries are cleared and nothing else was written
  have key : ∀ k, k ≤ pageSize → ∃ m, (List.range k).foldl (fun s j =>
        s.setPage (.cell (f * pageSize + j))
          { s.cell (f * pageSize + j) with valid := false, procc := p }) s = s.withMem m ∧
      (∀ a, a < f * pageSize ∨ f * pageSize + k ≤ a → m.get a = s.mainMemory.get a) ∧
      ∀ j, j < k → (Page.ofByte (m.get (f * pageSize + j))).valid = false ∧
        (Page.ofByte (m.get (f * pageSize + j))).procc = p := by
    intro k
    induction k with
    | zero => exact fun _ => ⟨s.mainMemory, rfl, fun _ _ => rfl, fun j hj => by omega⟩
    | succ k ih =>
      intro hk
      obtain ⟨m, heq, hout, hin⟩ := ih (by omega)
      rw [List.range_succ, List.foldl_append, List.foldl_cons, List.foldl_nil, heq]
      refine ⟨_, rfl, ?_, ?_⟩
      · intro a ha
        rw [Cells.get_set_ne _ _ (by omega)]
        exact hout a (by omega)
      · intro j hj
        by_cases hjk : j = k
        · subst hjk
          rw [Cells.get_set_eq _ _ (addr_lt hf (by omega)), Page.ofByte_toByte]
          exact ⟨rfl, rfl⟩
        · rw [Cells.get_set_ne _ _ (by omega)]
          exact hin j (by omega)
  obtain ⟨m, heq, hout, hin⟩ := key pageSize (Nat.le_refl _)
  refine ⟨m, heq, ⟨?_, fun q hq => Unowned.not_table hfree q hq⟩, hin⟩
  intro g j hg hj
  exact hout _ (by simp only [pageSize] at *; omega)

end FrameWrite

/-! ## Freeing the slot of a reloaded object -/

section Release

variable {s : State} {o : Owner} {i : Nat}

theorem stored_release (hst : s.Stored o i) {o' : Owner} {j : Nat} :
    (s.release i).Stored o' j ↔ s.Stored o' j ∧ j ≠ i := by
  unfold State.Stored State.release
  by_cases hj : j = i
  · subst hj
    rw [State.slot_setSlot s _ hst.1]
    simp only [ne_eq, not_true_eq_false, and_false, iff_false]
    rintro ⟨_, hpid, _⟩
    omega
  · rw [State.slot_setSlot_ne s _ hj]
    tauto

theorem release_inv (h : Inv s) (hst : s.Stored o i) : Inv (s.release i) := by
  have hrel : ∀ {o' j}, (s.release i).Stored o' j ↔ s.Stored o' j ∧ j ≠ i := stored_release hst
  have hslot : ∀ j, j ≠ i → (s.release i).slot j = s.slot j :=
    fun j hj => State.slot_setSlot_ne s _ hj
  refine ⟨h.wf, h.robin_lt, h.tab_procc, h.entry_procc, ?_, ?_, ?_, ?_, ?_⟩
  · -- slot_kind: the released slot is not in use
    intro j hj hpid
    have hji : j ≠ i := by
      rintro rfl
      rw [State.release, State.slot_setSlot s _ hj] at hpid
      have : (0 : Int) ≤ -1 := hpid
      omega
    rw [hslot j hji] at hpid
    rcases h.slot_kind j hj hpid with hl | ⟨o', ho', hne⟩
    · exact .inl ⟨hj, (hslot j hji).symm ▸ hl.2.1, (hslot j hji).symm ▸ hl.2.2⟩
    · exact .inr ⟨o', hrel.mpr ⟨ho', hji⟩, hne⟩
  · intro j p hj
    obtain ⟨hj, hji⟩ := hrel.mp hj
    rw [hslot j hji]
    exact h.slot_table j p hj
  · exact fun j p n hj => h.slot_page j p n (hrel.mp hj).1
  · exact fun o' j j' h1 h2 => h.slot_unique o' j j' (hrel.mp h1).1 (hrel.mp h2).1
  · exact fun o' j hj => h.slot_absent o' j (hrel.mp hj).1

/-- The released object is in no slot any more. -/
theorem not_stored_release (h : Inv s) (hst : s.Stored o i) (j : Nat) :
    ¬ (s.release i).Stored o j := by
  intro hj
  obtain ⟨hj, hne⟩ := (stored_release hst).mp hj
  exact hne (h.slot_unique o j i hj hst)

theorem leaked_release (hst : s.Stored o i) : (s.release i).leakedSlots = s.leakedSlots := by
  refine Cells.used_congr (fun j hj => ?_)
  show (decide (0 ≤ ((s.release i).slot j).pid) && decide (((s.release i).slot j).page = -2)) =
    (decide (0 ≤ (s.slot j).pid) && decide ((s.slot j).page = -2))
  by_cases hji : j = i
  · subst hji
    have hpage : (s.slot j).page ≠ -2 := by
      rw [hst.2.2]
      cases o <;> simp only [Owner.num] <;> omega
    rw [State.release, State.slot_setSlot s _ hj]
    simp [hpage]
  · rw [State.release, State.slot_setSlot_ne s _ hji]

/-- Other objects keep their slots. -/
theorem swapped_release_ne (h : Inv s) (hst : s.Stored o i) {q : Pid} {m : Nat}
    (hne : o ≠ .page q m) : (s.release i).swapped q m = s.swapped q m := by
  have hkeep : ∀ j, s.Stored (.page q m) j → j ≠ i := by
    rintro j hj rfl
    refine hne (Owner.num_inj (Fin.ext ?_) ?_)
    · have h1 := hst.2.1
      have h2 := hj.2.1
      omega
    · exact hst.2.2.symm.trans hj.2.2
  have hslotOf : (s.release i).slotOf q m = s.slotOf q m := by
    refine State.slotOf_congr (o := .page q m) h (release_inv h hst) (fun j => ?_)
    rw [stored_release hst]
    exact ⟨And.left, fun hj => ⟨hj, hkeep j hj⟩⟩
  unfold State.swapped
  rw [hslotOf]
  cases hs : s.slotOf q m with
  | none => rfl
  | some j =>
    have hji := hkeep j (State.slotOf_some hs)
    simp only [Option.map_some, State.release, State.slot_setSlot_ne s _ hji]

end Release

/-! ## A table enters memory -/

section SetTab

variable {s : State} {p : Pid} {f : Nat} {e : Page}

/-- `e` is the entry of an object of `p` in frame `f`. -/
structure Page.Maps (e : Page) (p : Pid) (f : Nat) : Prop where
  valid : e.valid = true
  frame : (e.frame : Nat) = f
  procc : e.procc = p

/-- Frame `f` reads as a table of `p` with no valid entry. -/
def State.EmptyTable (s : State) (p : Pid) (f : Nat) : Prop :=
  ∀ j, j < pageSize →
    (s.cell (f * pageSize + j)).valid = false ∧ (s.cell (f * pageSize + j)).procc = p

theorem entry_setTab (he : e.Maps p f) (j : Nat) :
    (s.setTab p e).entry p j = s.cell (f * pageSize + j) := by
  show s.cell (((s.setTab p e).tab p).frame * pageSize + j) = _
  rw [State.setTab, State.tab_setProc, he.frame]

theorem entry_setTab_ne {q : Pid} (hq : q ≠ p) (j : Nat) :
    (s.setTab p e).entry q j = s.entry q j :=
  State.entry_congr (by rw [State.setTab, State.tab_setProc_ne s e hq]) rfl

theorem claimed_setTab (hout : (s.tab p).valid = false) (he : e.Maps p f)
    (hempty : s.EmptyTable p f) :
    Claimed s.view.Holds (s.setTab p e).view.Holds (.table p) f := by
  have htab : ∀ q, q ≠ p → (s.setTab p e).tab q = s.tab q :=
    fun q hq => by rw [State.setTab, State.tab_setProc_ne s e hq]
  refine View.claimed_table hout ?_ ?_ ?_ ?_
  · show (⟨((s.setTab p e).tab p).valid, ((s.setTab p e).tab p).frame⟩ : Entry) = _
    rw [State.setTab, State.tab_setProc, he.valid, he.frame]
  · intro k hk
    show ((s.setTab p e).entry p k).valid = false
    rw [entry_setTab he]
    exact (hempty k hk).1
  · intro q hq
    show (⟨((s.setTab p e).tab q).valid, ((s.setTab p e).tab q).frame⟩ : Entry) = _
    rw [htab q hq]
    rfl
  · intro q k hq _ _
    show (⟨((s.setTab p e).entry q k).valid, ((s.setTab p e).entry q k).frame⟩ : Entry) = _
    rw [entry_setTab_ne hq]
    rfl

theorem setTab_inv (h : Inv s) (hout : (s.tab p).valid = false) (hf : f < pageFrames)
    (hfree : Unowned s.view.Holds f) (hst : ∀ i, ¬ s.Stored (.table p) i) (he : e.Maps p f)
    (hempty : s.EmptyTable p f) : Inv (s.setTab p e) := by
  have hcl := claimed_setTab hout he hempty
  refine h.of_slots_eq (State.slot_setPage s _ _)
    (h.wf.claimed hcl hf hfree (fun _ _ hc => by cases hc)) h.robin_lt ?_ ?_ ?_
  · intro q hq
    by_cases hqp : q = p
    · subst hqp
      rw [State.setTab, State.tab_setProc]
      exact he.procc
    · rw [State.setTab, State.tab_setProc_ne s e hqp] at hq ⊢
      exact h.tab_procc q hq
  · intro q j hq hj
    by_cases hqp : q = p
    · subst hqp
      rw [entry_setTab he]
      exact (hempty j hj).2
    · rw [State.setTab, State.tab_setProc_ne s e hqp] at hq
      rw [entry_setTab_ne hqp]
      exact h.entry_procc q j hq hj
  · -- slot_absent: the only new owner is the table, which no slot holds
    rintro o i hi ⟨g, hg⟩
    rcases (hcl o g).mp hg with hg | ⟨rfl, _⟩
    · exact h.slot_absent o i hi ⟨g, hg⟩
    · exact hst i hi

theorem setTab_same (hout : (s.tab p).valid = false) (he : e.Maps p f)
    (hempty : s.EmptyTable p f) : SameLogic s (s.setTab p e) := by
  refine ⟨?_, fun _ _ => rfl, rfl, rfl⟩
  intro q m hm
  unfold State.resident
  by_cases hq : q = p
  · subst hq
    rw [entry_setTab he, (hempty m hm).1, hout]
    simp
  · rw [entry_setTab_ne hq, State.setTab, State.tab_setProc_ne s e hq]
    rfl

end SetTab

/-! ## A page enters memory, or its entry changes -/

section SetEntry

variable {s : State} {p : Pid} {n f : Nat} {e : Page}

theorem entry_setEntry (h : Inv s) (hp : (s.tab p).valid = true) (hn : n < pageSize) (e : Page)
    {q : Pid} {k : Nat} (hq : (s.tab q).valid = true) (hk : k < pageSize) :
    (s.setEntry p n e).entry q k = if q = p ∧ k = n then e else s.entry q k := by
  by_cases hqk : q = p ∧ k = n
  · obtain ⟨rfl, rfl⟩ := hqk
    rw [if_pos ⟨rfl, rfl⟩]
    exact State.entry_setCell s e (h.tab_lt hp) hn
  · rw [if_neg hqk]
    refine State.entry_setCell_ne s e hn hk ?_
    by_cases hqp : q = p
    · exact .inr (fun hkn => hqk ⟨hqp, hkn⟩)
    · exact .inl (fun heq => hqp (h.tab_inj hq hp heq))

/-- A data frame does not change when an entry is written. -/
theorem bytes_setEntry (hn : n < pageSize) (e : Page) {g : Nat}
    (hg : ((s.tab p).frame : Nat) ≠ g) : (s.setEntry p n e).bytes g = s.bytes g :=
  State.bytes_setCell_ne s e hn (Ne.symm hg)

/-- The other pages do not notice. -/
theorem resident_setEntry_ne (h : Inv s) (hp : (s.tab p).valid = true) (hn : n < pageSize)
    (e : Page) {q : Pid} {m : Nat} (hm : m < pageSize) (hne : ¬ (q = p ∧ m = n)) :
    (s.setEntry p n e).resident q m = s.resident q m := by
  unfold State.resident
  rw [show (s.setEntry p n e).tab q = s.tab q from rfl]
  by_cases hq : (s.tab q).valid = true
  · rw [entry_setEntry h hp hn e hq hm, if_neg hne]
    by_cases hv : (s.entry q m).valid = true
    · have hown : s.view.Holds (.page q m) (s.entry q m).frame :=
        State.holds_page.mpr ⟨hq, hm, hv, rfl⟩
      rw [bytes_setEntry hn e (h.page_ne_tab hown hp)]
    · simp [hv]
  · simp [hq]

theorem claimed_setEntry (h : Inv s) (hp : (s.tab p).valid = true) (hn : n < pageSize)
    (hout : (s.entry p n).valid = false) (he : e.Maps p f) :
    Claimed s.view.Holds (s.setEntry p n e).view.Holds (.page p n) f := by
  have hentry : ∀ q k, (s.tab q).valid = true → k < pageSize →
      (s.setEntry p n e).view.entry q k =
        if q = p ∧ k = n then ⟨true, f⟩ else s.view.entry q k := by
    intro q k hq hk
    show (⟨((s.setEntry p n e).entry q k).valid, ((s.setEntry p n e).entry q k).frame⟩ : Entry) = _
    rw [entry_setEntry h hp hn e hq hk]
    split
    · rw [he.valid, he.frame]
    · rfl
  refine View.claimed_page hp hn hout (fun _ => rfl) ?_ ?_
  · rw [hentry p n hp hn, if_pos ⟨rfl, rfl⟩]
  · intro q k hq hk hne
    rw [hentry q k hq hk, if_neg hne]

/-- A page takes a free frame. -/
theorem setEntry_inv (h : Inv s) (hp : (s.tab p).valid = true) (hn : n < 4)
    (hout : (s.entry p n).valid = false) (hf : f < pageFrames) (hfree : Unowned s.view.Holds f)
    (hst : ∀ i, ¬ s.Stored (.page p n) i) (he : e.Maps p f) : Inv (s.setEntry p n e) := by
  have hn16 : n < pageSize := by simp only [pageSize]; omega
  have hcl := claimed_setEntry h hp hn16 hout he
  refine h.of_slots_eq (State.slot_setPage s _ _)
    (h.wf.claimed hcl hf hfree (fun _ _ hc => by injection hc with _ hk; omega))
    h.robin_lt h.tab_procc ?_ ?_
  · intro q j hq hj
    rw [entry_setEntry h hp hn16 e hq hj]
    split
    · rename_i hc
      rw [hc.1]
      exact he.procc
    · exact h.entry_procc q j hq hj
  · rintro o i hi ⟨g, hg⟩
    rcases (hcl o g).mp hg with hg | ⟨rfl, _⟩
    · exact h.slot_absent o i hi ⟨g, hg⟩
    · exact hst i hi

theorem resident_setEntry (h : Inv s) (hp : (s.tab p).valid = true) (hn : n < pageSize)
    (he : e.Maps p f) (hf : ((s.tab p).frame : Nat) ≠ f) :
    (s.setEntry p n e).resident p n = some (s.bytes f, e.write) := by
  have hentry : (s.setEntry p n e).entry p n = e := by
    rw [entry_setEntry h hp hn e hp hn, if_pos ⟨rfl, rfl⟩]
  have hv : ((s.setEntry p n e).entry p n).valid = true := by rw [hentry]; exact he.valid
  rw [State.resident_eq_some (s := s.setEntry p n e) hp hv, hentry, he.frame,
    bytes_setEntry hn e hf]

/-- A resident page changes its write bit. -/
theorem chmod_view (h : Inv s) (hp : (s.tab p).valid = true) (hn : n < pageSize) (w : Bool) :
    (s.setEntry p n { s.entry p n with write := w }).view = s.view := by
  have hcell : ∀ a, ((s.setEntry p n { s.entry p n with write := w }).cell a).valid =
        (s.cell a).valid ∧
      ((s.setEntry p n { s.entry p n with write := w }).cell a).frame = (s.cell a).frame := by
    intro a
    by_cases ha : a = (s.tab p).frame * pageSize + n
    · subst ha
      rw [State.setEntry, State.cell_setCell s _ (addr_lt (h.tab_lt hp) hn)]
      exact ⟨rfl, rfl⟩
    · rw [State.setEntry, State.cell_setCell_ne s _ ha]
      exact ⟨rfl, rfl⟩
  unfold State.view
  congr 1
  funext a
  rw [(hcell a).1, (hcell a).2]

theorem chmod_inv (h : Inv s) (hp : (s.tab p).valid = true) (hn : n < pageSize) (w : Bool) :
    Inv (s.setEntry p n { s.entry p n with write := w }) := by
  have hview := chmod_view h hp hn w
  refine h.of_slots_eq (State.slot_setPage s _ _) (hview ▸ h.wf) h.robin_lt h.tab_procc ?_ ?_
  · intro q j hq hj
    rw [entry_setEntry h hp hn _ hq hj]
    split
    · rename_i hc
      rw [hc.1]
      exact h.entry_procc p n hp hn
    · exact h.entry_procc q j hq hj
  · rintro o i hi ⟨g, hg⟩
    exact h.slot_absent o i hi ⟨g, hview ▸ hg⟩

theorem resident_chmod (h : Inv s) (hp : (s.tab p).valid = true) (hn : n < pageSize)
    (hv : (s.entry p n).valid = true) (w : Bool) :
    (s.setEntry p n { s.entry p n with write := w }).resident p n =
      some (s.bytes (s.entry p n).frame, w) := by
  have hown : s.view.Holds (.page p n) (s.entry p n).frame :=
    State.holds_page.mpr ⟨hp, hn, hv, rfl⟩
  exact resident_setEntry h hp hn (e := { s.entry p n with write := w })
    ⟨hv, rfl, h.entry_procc p n hp hn⟩ (h.page_ne_tab hown hp)

end SetEntry

/-! ## A byte of a resident page changes -/

section Poke

variable {s : State} {p : Pid} {n f k : Nat}

theorem poke_write (h : Inv s) (ho : s.view.Holds (.page p n) f) (hk : k < pageSize) (v : Byte) :
    FrameWrite s f (s.mainMemory.set (f * pageSize + k) v) := by
  refine ⟨?_, fun q hq => h.page_ne_tab ho hq⟩
  intro g j hg hj
  exact Cells.get_set_ne _ _ (fun heq => hg (addr_inj hj hk heq).1)

theorem poke_inv (h : Inv s) (ho : s.view.Holds (.page p n) f) (hk : k < pageSize) (v : Byte) :
    Inv (s.poke f k v) := (poke_write h ho hk v).inv h

theorem resident_poke_ne (h : Inv s) (ho : s.view.Holds (.page p n) f) (hk : k < pageSize)
    (v : Byte) {q : Pid} {m : Nat} (hm : m < pageSize) (hne : ¬ (q = p ∧ m = n)) :
    (s.poke f k v).resident q m = s.resident q m := by
  refine (poke_write h ho hk v).resident hm ?_
  intro hq
  exact hne (h.page_inj hq ho)

theorem bytes_poke (hf : f < pageFrames) (hk : k < pageSize) (v : Byte) :
    (s.poke f k v).bytes f = (s.bytes f).set k v := by
  refine Cells.ext_get ?_
  intro j hj
  rw [State.get_bytes _ _ hj]
  by_cases hjk : j = k
  · subst hjk
    rw [Cells.get_set_eq _ _ hj]
    exact Cells.get_set_eq _ _ (addr_lt hf hj)
  · rw [Cells.get_set_ne _ _ hjk, State.get_bytes _ _ hj]
    exact Cells.get_set_ne _ _ (fun heq => hjk (addr_inj hj hk heq).2)

theorem resident_poke (h : Inv s) (ho : s.view.Holds (.page p n) f) (hk : k < pageSize)
    (v : Byte) :
    (s.poke f k v).resident p n = some ((s.bytes f).set k v, (s.entry p n).write) := by
  obtain ⟨hp, hn, hv, hf⟩ := State.holds_page.mp ho
  have hw := poke_write h ho hk v
  have hentry : (s.poke f k v).entry p n = s.entry p n := hw.entry hp hn
  have hv' : ((s.poke f k v).entry p n).valid = true := by rw [hentry]; exact hv
  rw [State.resident_eq_some (s := s.poke f k v) hp hv', hentry, hf,
    bytes_poke (h.wf.frame_lt _ _ ho) hk]

end Poke

end OsProjects.Paging.PartTwo
