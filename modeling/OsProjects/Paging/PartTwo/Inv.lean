import OsProjects.Paging.PartTwo.Access

/-!
# The state invariant and the logical memory

`Inv` is what every state between two primitive steps satisfies, in the
middle of a call as well as between calls and whether or not the backing
store has overflowed. It has three parts:

* frames — the ownership scan sees a well-formed view (`View.Wf`);
* stamps — the tables and their entries carry their process in `procc`, which
  is what `free_specific_frame` labels a slot with;
* slots — a used slot holds a table, one of the pages 1, 2, 3, or a page 0
  under the key `-2` that `get_page_num` gives it; apart from the latter no
  object is stored twice, nor stored and resident at once, and a stored table
  has no valid entry.

`content` is the logical memory: the bytes and write bit of a page wherever
it currently lies.
-/

namespace OsProjects.Paging

/-- The process an object belongs to. -/
def Owner.pid : Owner → Pid
  | .table p => p
  | .page p _ => p

/-- The number `check_backing_store` looks an object up under. -/
def Owner.num : Owner → Int
  | .table _ => -1
  | .page _ j => j

/-- The number `get_page_num` computes for an object. -/
def Owner.key : Owner → Int
  | .table _ => -1
  | .page _ 0 => -2
  | .page _ (j + 1) => (j + 1 : Nat)

theorem Owner.num_inj {o o' : Owner} (hp : o.pid = o'.pid) (hn : o.num = o'.num) : o = o' := by
  cases o with
  | table p =>
    cases o' with
    | table q => exact congrArg Owner.table hp
    | page q k => simp only [Owner.num] at hn; omega
  | page p j =>
    cases o' with
    | table q => simp only [Owner.num] at hn; omega
    | page q k =>
      simp only [Owner.num, Int.natCast_inj] at hn
      rw [show p = q from hp, hn]

/-- The key is the number, except that page 0 gets `-2`. -/
theorem Owner.key_eq_num {o : Owner} (h : ∀ p, o ≠ .page p 0) : o.key = o.num := by
  cases o with
  | table p => rfl
  | page p j =>
    cases j with
    | zero => exact absurd rfl (h p)
    | succ j => rfl

/-- A label determines its object, and page 0 is labelled as no object. -/
theorem Owner.of_key_eq_num {o o' : Owner} (hp : o.pid = o'.pid) (hk : o.key = o'.num) :
    o = o' ∧ ∀ p, o ≠ .page p 0 := by
  have hne : ∀ p, o ≠ .page p 0 := by
    intro p hc
    subst hc
    cases o' <;> simp only [Owner.key, Owner.num] at hk <;> omega
  rw [Owner.key_eq_num hne] at hk
  exact ⟨Owner.num_inj hp hk, hne⟩

theorem Owner.key_eq_neg_two_iff {o : Owner} : o.key = -2 ↔ ∃ p, o = .page p 0 := by
  constructor
  · intro h
    by_contra hne
    push Not at hne
    rw [Owner.key_eq_num hne] at h
    cases o <;> simp only [Owner.num] at h <;> omega
  · rintro ⟨p, rfl⟩
    rfl

/-- The line of an eviction that found no unused slot. -/
def Message.isDrop : Message → Bool
  | .moved _ i => i == PartTwo.storeFrames
  | _ => false

/-- The line of an eviction. -/
def Message.isMove : Message → Bool
  | .moved _ _ => true
  | _ => false

theorem Message.not_isDrop {m : Message} (h : m.isMove = false) : m.isDrop = false := by
  cases m <;> first | rfl | cases h

end OsProjects.Paging

namespace OsProjects.Paging.PartTwo

open OsProjects.Lib OsProjects.Paging

namespace State

/-- Slot `i` holds `o`. -/
def Stored (s : State) (o : Owner) (i : Nat) : Prop :=
  i < storeFrames ∧ (s.slot i).pid = o.pid.val ∧ (s.slot i).page = o.num

/-- `o` is in memory. -/
def Resident (s : State) (o : Owner) : Prop := ∃ f, s.view.Holds o f

/-- The page table of `p` exists, in memory or in the backing store. -/
def HasTable (s : State) (p : Pid) : Prop :=
  (s.tab p).valid = true ∨ ∃ i, s.Stored (.table p) i

/-- Slot `i` is taken by a page 0 nobody will look up again. -/
def Leaked (s : State) (i : Nat) : Prop :=
  i < storeFrames ∧ 0 ≤ (s.slot i).pid ∧ (s.slot i).page = -2

end State

/-- The state invariant. -/
structure Inv (s : State) : Prop where
  wf : s.view.Wf
  robin_lt : s.robin < pageFrames
  tab_procc : ∀ p, (s.tab p).valid = true → (s.tab p).procc = p
  entry_procc : ∀ p j, (s.tab p).valid = true → j < pageSize → (s.entry p j).procc = p
  slot_kind : ∀ i, i < storeFrames → 0 ≤ (s.slot i).pid →
    s.Leaked i ∨ ∃ o, s.Stored o i ∧ ∀ p, o ≠ .page p 0
  slot_table : ∀ i p, s.Stored (.table p) i → ∀ j, j < pageSize →
    (Page.ofByte ((s.slot i).data.get j)).valid = false ∧
      (Page.ofByte ((s.slot i).data.get j)).procc = p
  slot_page : ∀ i p j, s.Stored (.page p j) i → j < 4
  slot_unique : ∀ o i i', s.Stored o i → s.Stored o i' → i = i'
  slot_absent : ∀ o i, s.Stored o i → ¬ s.Resident o

/-! ## The logical memory -/

namespace State

/-- Page `n` of `p`, if it is in memory. -/
def resident (s : State) (p : Pid) (n : Nat) : Option Content :=
  if (s.tab p).valid && (s.entry p n).valid then
    some (s.bytes (s.entry p n).frame, (s.entry p n).write)
  else none

/-- Page `n` of `p`, if a slot holds it. -/
def swapped (s : State) (p : Pid) (n : Nat) : Option Content :=
  (s.slotOf p n).map fun i => ((s.slot i).data, (s.slot i).write)

/-- Page `n` of `p`, wherever it is; `none` when it is unmapped. -/
def content (s : State) (p : Pid) (n : Nat) : Option Content :=
  (s.resident p n).or (s.swapped p n)

/-! ## Counters -/

/-- The evictions that found no unused slot, read off the printed lines. -/
def drops (s : State) : Nat := s.out.countP Message.isDrop

/-- The used slots. -/
def usedSlots (s : State) : Nat :=
  s.backingStore.used fun b => decide (0 ≤ b.pid)

/-- The slots taken by a page 0. -/
def leakedSlots (s : State) : Nat :=
  s.backingStore.used fun b => decide (0 ≤ b.pid) && decide (b.page = -2)

end State

/-! ## First consequences -/

namespace Inv

variable {s : State}

theorem tab_lt (h : Inv s) {p : Pid} (hp : (s.tab p).valid = true) :
    ((s.tab p).frame : Nat) < pageFrames := h.wf.frame_lt (.table p) _ ⟨hp, rfl⟩

theorem tab_inj (h : Inv s) {p q : Pid} (hp : (s.tab p).valid = true)
    (hq : (s.tab q).valid = true) (heq : ((s.tab p).frame : Nat) = (s.tab q).frame) : p = q :=
  h.wf.tab_inj hp hq heq

/-- A page never lies in a frame that holds a table. -/
theorem page_ne_tab (h : Inv s) {p q : Pid} {j f : Nat} (hp : s.view.Holds (.page p j) f)
    (hq : (s.tab q).valid = true) : ((s.tab q).frame : Nat) ≠ f := by
  intro heq
  have := h.wf.excl (.page p j) (.table q) f hp ⟨hq, heq⟩
  cases this

/-- Two resident pages in one frame are the same page. -/
theorem page_inj (h : Inv s) {p q : Pid} {j k f : Nat} (hp : s.view.Holds (.page p j) f)
    (hq : s.view.Holds (.page q k) f) : p = q ∧ j = k := by
  have := h.wf.excl _ _ _ hp hq
  injection this with h1 h2
  exact ⟨h1, h2⟩

end Inv

theorem State.stored_congr {s s' : State} (hslot : ∀ i, s'.slot i = s.slot i) {o : Owner}
    {i : Nat} : s'.Stored o i ↔ s.Stored o i := by
  unfold State.Stored
  rw [hslot]

/-- The frame part of the invariant is enough when the slots are untouched and
no stored object comes into memory. -/
theorem Inv.of_slots_eq {s s' : State} (h : Inv s) (hslot : ∀ i, s'.slot i = s.slot i)
    (hwf : s'.view.Wf) (hrobin : s'.robin < pageFrames)
    (htab : ∀ p, (s'.tab p).valid = true → (s'.tab p).procc = p)
    (hentry : ∀ p j, (s'.tab p).valid = true → j < pageSize → (s'.entry p j).procc = p)
    (habsent : ∀ o i, s.Stored o i → ¬ s'.Resident o) : Inv s' := by
  have hst : ∀ {o i}, s'.Stored o i ↔ s.Stored o i := State.stored_congr hslot
  refine ⟨hwf, hrobin, htab, hentry, ?_, ?_, ?_, ?_, ?_⟩
  · intro i hi hpid
    rw [hslot] at hpid
    rcases h.slot_kind i hi hpid with hl | ⟨o, ho, hne⟩
    · exact .inl ⟨hi, hslot i ▸ hl.2.1, hslot i ▸ hl.2.2⟩
    · exact .inr ⟨o, hst.mpr ho, hne⟩
  · intro i p hi
    rw [hslot]
    exact h.slot_table i p (hst.mp hi)
  · exact fun i p j hi => h.slot_page i p j (hst.mp hi)
  · exact fun o i i' h1 h2 => h.slot_unique o i i' (hst.mp h1) (hst.mp h2)
  · exact fun o i hi => habsent o i (hst.mp hi)

namespace State

theorem stored_iff_slot {s : State} {o : Owner} {i : Nat} :
    s.Stored o i ↔ i < storeFrames ∧
      (decide ((s.slot i).pid = o.pid.val) && decide ((s.slot i).page = o.num)) = true := by
  simp [Stored]

/-- The search of `check_backing_store` finds a slot holding the object. -/
theorem slotOf_some {s : State} {o : Owner} {i : Nat} (h : s.slotOf o.pid o.num = some i) :
    s.Stored o i := by
  obtain ⟨h1, h2⟩ := Cells.find_some h
  exact stored_iff_slot.mpr ⟨h1, h2⟩

theorem slotOf_none_iff {s : State} {o : Owner} :
    s.slotOf o.pid o.num = none ↔ ∀ i, ¬ s.Stored o i := by
  rw [slotOf, Cells.find_eq_none_iff]
  constructor
  · intro h i hi
    obtain ⟨h1, h2⟩ := stored_iff_slot.mp hi
    have hno : (decide ((s.slot i).pid = o.pid.val) && decide ((s.slot i).page = o.num)) = false :=
      h i h1
    rw [hno] at h2
    cases h2
  · intro h i hi
    have := mt (fun hp => stored_iff_slot.mpr ⟨hi, hp⟩) (h i)
    exact Bool.not_eq_true _ ▸ this

theorem slotOf_eq_some_iff {s : State} (h : Inv s) {o : Owner} {i : Nat} :
    s.slotOf o.pid o.num = some i ↔ s.Stored o i := by
  refine ⟨slotOf_some, ?_⟩
  intro hi
  cases hs : s.slotOf o.pid o.num with
  | none => exact absurd hi (slotOf_none_iff.mp hs i)
  | some j => rw [h.slot_unique o j i (slotOf_some hs) hi]

/-- The stored objects decide what the search returns. -/
theorem slotOf_congr {s s' : State} (h : Inv s) (h' : Inv s') {o : Owner}
    (hst : ∀ i, s'.Stored o i ↔ s.Stored o i) :
    s'.slotOf o.pid o.num = s.slotOf o.pid o.num := by
  cases hs : s.slotOf o.pid o.num with
  | none =>
    rw [slotOf_none_iff] at hs ⊢
    exact fun i hi => hs i ((hst i).mp hi)
  | some i =>
    rw [slotOf_eq_some_iff h] at hs
    rw [slotOf_eq_some_iff h']
    exact (hst i).mpr hs

theorem resident_eq_some {s : State} {p : Pid} {n : Nat} (hp : (s.tab p).valid = true)
    (hn : (s.entry p n).valid = true) :
    s.resident p n = some (s.bytes (s.entry p n).frame, (s.entry p n).write) := by
  simp [resident, hp, hn]

theorem resident_eq_none_iff {s : State} {p : Pid} {n : Nat} (hn : n < pageSize) :
    s.resident p n = none ↔ ¬ s.Resident (.page p n) := by
  unfold resident Resident
  by_cases h : (s.tab p).valid = true ∧ (s.entry p n).valid = true
  · simp only [h.1, h.2, Bool.and_self, if_true]
    constructor
    · intro hc; cases hc
    · intro hc
      exact absurd ⟨_, holds_page.mpr ⟨h.1, hn, h.2, rfl⟩⟩ hc
  · rw [if_neg (by simpa using h)]
    simp only [true_iff]
    rintro ⟨f, hf⟩
    obtain ⟨h1, _, h2, _⟩ := holds_page.mp hf
    exact h ⟨h1, h2⟩

end State

end OsProjects.Paging.PartTwo
