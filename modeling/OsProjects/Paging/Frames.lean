import OsProjects.Lib.Cells
import OsProjects.Lib.Ownership

/-!
# Page tables embedded in physical memory

The part of `Project4` that `Part1` and `Part2` share: the memory geometry,
pointers to page-table entries, and the ownership scan `frame_allocated`.

The two parts pack `page_t` differently into its one byte, but the scan looks
only at the `valid` and `frame` fields; `View` is the memory as the scan sees
it — the hardware table `procTable` and every byte of `mainMemory` read as an
entry — so the scan and its specification are stated once, over `View`.
-/

namespace OsProjects.Paging

open OsProjects.Lib

/-- `MAX_PROCESSES`. -/
abbrev maxProcesses : Nat := 4

/-- `PHYS_MEM_SIZE`. -/
abbrev physMemSize : Nat := 64

/-- `VIRT_ADD_SPACE`. -/
abbrev virtAddSpace : Nat := 64

/-- `PAGE_SIZE`. -/
abbrev pageSize : Nat := 16

/-- `PAGE_FRAMES`, `PHYS_MEM_SIZE / PAGE_SIZE`. -/
abbrev pageFrames : Nat := 4

/-- `unsigned char`. -/
abbrev Byte := BitVec 8

/-- A process id that has an entry in `procTable`. -/
abbrev Pid := Fin maxProcesses

/-- A virtual address accepted by the command loop. -/
abbrev Address := Fin virtAddSpace

/-- The page number of an address, `address / PAGE_SIZE`. -/
def Address.page (a : Address) : Nat := a.val / pageSize

/-- The offset of an address in its page, `address % PAGE_SIZE`. -/
def Address.offset (a : Address) : Nat := a.val % pageSize

theorem Address.page_lt (a : Address) : a.page < 4 := by
  have := a.isLt
  simp only [Address.page, pageSize, virtAddSpace] at *
  omega

theorem Address.offset_lt (a : Address) : a.offset < 16 := by
  simp only [Address.offset, pageSize]
  omega

/-- A page's bytes and write bit. -/
abbrev Content := Cells Byte pageSize × Bool

/-- Frames do not overlap. -/
theorem addr_inj {f g j k : Nat} (hj : j < pageSize) (hk : k < pageSize)
    (h : f * pageSize + j = g * pageSize + k) : f = g ∧ j = k := by
  simp only [pageSize] at *
  omega

theorem addr_lt {f j : Nat} (hf : f < pageFrames) (hj : j < pageSize) :
    f * pageSize + j < physMemSize := by
  simp only [pageSize, pageFrames, physMemSize] at *
  omega

/-- A `page_t*`: an entry of `procTable`, or a byte of `mainMemory`. -/
inductive Ref
  | proc (i : Pid)
  | cell (a : Nat)
  deriving DecidableEq

/-- The fields of `page_t` the ownership scan reads. -/
structure Entry where
  valid : Bool
  frame : Nat
  deriving DecidableEq

/-- Memory as the ownership scan sees it. -/
structure View where
  /-- `procTable[p]` -/
  tab : Pid → Entry
  /-- `*(page_t*)&mainMemory[a]` -/
  cell : Nat → Entry

namespace View

/-- Entry `j` of the page table of `p`. -/
def entry (v : View) (p : Pid) (j : Nat) : Entry :=
  v.cell ((v.tab p).frame * pageSize + j)

/-- `frame_allocated`: the first entry, in scan order, that owns `frame`. The
table of a process whose own frame is `frame` is not searched. -/
def frameAllocated (v : View) (frame : Nat) : Option Ref :=
  (List.finRange maxProcesses).findSome? fun i =>
    if (v.tab i).valid then
      if (v.tab i).frame = frame then some (.proc i)
      else ((List.range' ((v.tab i).frame * pageSize) pageSize).find? fun j =>
        (v.cell j).valid && (v.cell j).frame == frame).map .cell
    else none

/-- The scan of `find_free_frame`: the first frame no entry owns. -/
def firstFree (v : View) : Option Nat :=
  (List.range pageFrames).find? fun i => (v.frameAllocated i).isNone

end View

/-! ## Owners

A frame is owned by the entry that maps it: the hardware entry of a process
(the frame holds its page table) or an entry of a resident table. -/

/-- Who may own a frame. -/
inductive Owner
  | table (p : Pid)
  | page (p : Pid) (j : Nat)
  deriving DecidableEq

namespace View

/-- `o`'s entry is valid and names frame `f`. -/
def Holds (v : View) : Owner → Nat → Prop
  | .table p, f => (v.tab p).valid = true ∧ (v.tab p).frame = f
  | .page p j, f => (v.tab p).valid = true ∧ j < pageSize ∧
      (v.entry p j).valid = true ∧ (v.entry p j).frame = f

/-- Where `o`'s entry lies. -/
def ref (v : View) : Owner → Ref
  | .table p => .proc p
  | .page p j => .cell ((v.tab p).frame * pageSize + j)

/-- Ownership is exclusive, owned frames exist, and only the four entries that
addresses can reach are ever valid. -/
structure Wf (v : View) : Prop where
  excl : Exclusive v.Holds
  frame_lt : ∀ o f, v.Holds o f → f < pageFrames
  page_lt : ∀ p j f, v.Holds (.page p j) f → j < 4

/-- An owner holds one frame. -/
theorem Holds.unique {v : View} {o : Owner} {f f' : Nat} (h : v.Holds o f)
    (h' : v.Holds o f') : f = f' := by
  cases o with
  | table p => exact h.2.symm.trans h'.2
  | page p j => exact h.2.2.2.symm.trans h'.2.2.2

/-- A page is held only under a resident table. -/
theorem Holds.table {v : View} {p : Pid} {j f : Nat} (h : v.Holds (.page p j) f) :
    v.Holds (.table p) (v.tab p).frame := ⟨h.1, rfl⟩

/-- Resident tables lie in different frames. -/
theorem Wf.tab_inj {v : View} (h : v.Wf) {p q : Pid} (hp : (v.tab p).valid = true)
    (hq : (v.tab q).valid = true) (heq : (v.tab p).frame = (v.tab q).frame) : p = q := by
  have := h.excl (.table p) (.table q) (v.tab q).frame ⟨hp, heq⟩ ⟨hq, rfl⟩
  injection this

/-- The scan returns the entry of an owner. -/
theorem frameAllocated_some {v : View} {f : Nat} {r : Ref}
    (h : v.frameAllocated f = some r) : ∃ o, v.Holds o f ∧ r = v.ref o := by
  obtain ⟨p, _, hp⟩ := List.exists_of_findSome?_eq_some h
  by_cases hv : (v.tab p).valid = true
  · rw [if_pos hv] at hp
    by_cases hf : (v.tab p).frame = f
    · rw [if_pos hf] at hp
      exact ⟨.table p, ⟨hv, hf⟩, (Option.some.inj hp).symm⟩
    · rw [if_neg hf] at hp
      obtain ⟨a, ha, rfl⟩ := Option.map_eq_some_iff.mp hp
      have hmem := List.mem_of_find?_eq_some ha
      have hval := List.find?_some ha
      simp only [List.mem_range'_1, Bool.and_eq_true, beq_iff_eq] at hmem hval
      refine ⟨.page p (a - (v.tab p).frame * pageSize), ?_, ?_⟩
      · have haddr : (v.tab p).frame * pageSize + (a - (v.tab p).frame * pageSize) = a := by
          omega
        refine ⟨hv, by omega, ?_, ?_⟩
        · show (v.cell _).valid = true
          rw [haddr]
          exact hval.1
        · show (v.cell _).frame = f
          rw [haddr]
          exact hval.2
      · show Ref.cell a = Ref.cell _
        congr 1
        omega
  · rw [if_neg hv] at hp
    cases hp

/-- The scan misses no owner. -/
theorem frameAllocated_none_iff {v : View} {f : Nat} :
    v.frameAllocated f = none ↔ Unowned v.Holds f := by
  constructor
  · intro h o ho
    have hscan := fun p => List.findSome?_eq_none_iff.mp h p (List.mem_finRange p)
    cases o with
    | table p =>
      have hp := hscan p
      rw [if_pos ho.1, if_pos ho.2] at hp
      cases hp
    | page p j =>
      obtain ⟨hv, hj, hval, hfr⟩ := ho
      have hp := hscan p
      rw [if_pos hv] at hp
      split at hp
      · cases hp
      · rw [Option.map_eq_none_iff, List.find?_eq_none] at hp
        refine hp ((v.tab p).frame * pageSize + j) ?_ ?_
        · simp only [List.mem_range'_1]
          omega
        · simp only [Bool.and_eq_true, beq_iff_eq]
          exact ⟨hval, hfr⟩
  · intro h
    cases hs : v.frameAllocated f with
    | none => rfl
    | some r =>
      obtain ⟨o, ho, _⟩ := frameAllocated_some hs
      exact absurd ho (h o)

/-- The first free frame exists and is free. -/
theorem firstFree_some {v : View} {i : Nat} (h : v.firstFree = some i) :
    i < pageFrames ∧ Unowned v.Holds i := by
  refine ⟨by simpa using List.mem_of_find?_eq_some h, ?_⟩
  have hnone := List.find?_some h
  rw [Option.isNone_iff_eq_none] at hnone
  exact frameAllocated_none_iff.mp hnone

/-- Without a free frame every frame has an owner. -/
theorem firstFree_none {v : View} (h : v.firstFree = none) {f : Nat} (hf : f < pageFrames) :
    ∃ o, v.Holds o f ∧ v.frameAllocated f = some (v.ref o) := by
  have hno := List.find?_eq_none.mp h f (List.mem_range.mpr hf)
  cases hs : v.frameAllocated f with
  | none => rw [hs] at hno; exact absurd rfl hno
  | some r =>
    obtain ⟨o, ho, rfl⟩ := frameAllocated_some hs
    exact ⟨o, ho, rfl⟩

/-- The scan sees ownership only. -/
theorem firstFree_congr {v v' : View} (h : ∀ o f, v'.Holds o f ↔ v.Holds o f) :
    v'.firstFree = v.firstFree := by
  unfold firstFree
  congr 1
  funext i
  rw [Bool.eq_iff_iff, Option.isNone_iff_eq_none, Option.isNone_iff_eq_none,
    frameAllocated_none_iff, frameAllocated_none_iff]
  exact forall_congr' (fun o => not_congr (h o i))

/-- Ownership is what the hardware table and the resident tables say. -/
theorem holds_congr {v v' : View} (htab : ∀ q, v'.tab q = v.tab q)
    (hentry : ∀ q k, (v.tab q).valid = true → k < pageSize → v'.entry q k = v.entry q k)
    (o : Owner) (f : Nat) : v'.Holds o f ↔ v.Holds o f := by
  cases o with
  | table q => simp only [Holds, htab]
  | page q k =>
    simp only [Holds, htab]
    by_cases hq : (v.tab q).valid = true ∧ k < pageSize
    · rw [hentry q k hq.1 hq.2]
    · tauto

theorem Wf.congr {v v' : View} (h : v.Wf) (hh : ∀ o f, v'.Holds o f ↔ v.Holds o f) : v'.Wf where
  excl o o' f h1 h2 := h.excl o o' f ((hh o f).mp h1) ((hh o' f).mp h2)
  frame_lt o f ho := h.frame_lt o f ((hh o f).mp ho)
  page_lt p j f ho := h.page_lt p j f ((hh _ f).mp ho)

/-- Without a table in memory nothing owns a frame. -/
theorem not_holds_of_noTable {v : View} (hout : ∀ p, (v.tab p).valid = false) (o : Owner)
    (f : Nat) : ¬ v.Holds o f := by
  intro ho
  obtain ⟨p, hp⟩ : ∃ p, (v.tab p).valid = true := by
    cases o with
    | table p => exact ⟨p, ho.1⟩
    | page p j => exact ⟨p, ho.1⟩
  rw [hout p] at hp
  cases hp

theorem Wf.of_noTable {v : View} (hout : ∀ p, (v.tab p).valid = false) : v.Wf where
  excl o _ f ho := absurd ho (not_holds_of_noTable hout o f)
  frame_lt o f ho := absurd ho (not_holds_of_noTable hout o f)
  page_lt _ _ f ho := absurd ho (not_holds_of_noTable hout _ f)

/-! ## Taking a frame -/

section Claim

variable {v v' : View} {p : Pid} {n f : Nat}

/-- An invalid entry of a resident table is pointed at `f`. -/
theorem claimed_page (hp : (v.tab p).valid = true) (hn : n < pageSize)
    (hout : (v.entry p n).valid = false) (htab : ∀ q, v'.tab q = v.tab q)
    (hown : v'.entry p n = ⟨true, f⟩)
    (hother : ∀ q k, (v.tab q).valid = true → k < pageSize → ¬ (q = p ∧ k = n) →
      v'.entry q k = v.entry q k) : Claimed v.Holds v'.Holds (.page p n) f := by
  intro o g
  cases o with
  | table q => simp only [Holds, htab, reduceCtorEq, false_and, or_false]
  | page q k =>
    simp only [Holds, htab, Owner.page.injEq]
    by_cases hqk : (v.tab q).valid = true ∧ k < pageSize
    · by_cases heq : q = p ∧ k = n
      · obtain ⟨rfl, rfl⟩ := heq
        rw [hown, hout]
        simp [hqk.1, hqk.2, eq_comm]
      · rw [hother q k hqk.1 hqk.2 heq]
        simp [heq]
    · constructor
      · rintro ⟨h1, h2, _⟩
        exact absurd ⟨h1, h2⟩ hqk
      · rintro (⟨h1, h2, _⟩ | ⟨⟨rfl, rfl⟩, _⟩)
        · exact absurd ⟨h1, h2⟩ hqk
        · exact absurd ⟨hp, hn⟩ hqk

/-- A hardware entry is pointed at `f`, which reads as an empty table. -/
theorem claimed_table (hout : (v.tab p).valid = false) (hown : v'.tab p = ⟨true, f⟩)
    (hempty : ∀ k, k < pageSize → (v'.entry p k).valid = false)
    (htab : ∀ q, q ≠ p → v'.tab q = v.tab q)
    (hother : ∀ q k, q ≠ p → (v.tab q).valid = true → k < pageSize →
      v'.entry q k = v.entry q k) : Claimed v.Holds v'.Holds (.table p) f := by
  intro o g
  cases o with
  | table q =>
    simp only [Holds, Owner.table.injEq]
    by_cases hq : q = p
    · subst hq
      rw [hown, hout]
      simp [eq_comm]
    · rw [htab q hq]
      simp [hq]
  | page q k =>
    simp only [Holds, reduceCtorEq, false_and, or_false]
    by_cases hq : q = p
    · subst hq
      rw [hout]
      constructor
      · rintro ⟨_, hk, hv, _⟩
        rw [hempty k hk] at hv
        cases hv
      · rintro ⟨hv, _⟩
        cases hv
    · rw [htab q hq]
      by_cases hqk : (v.tab q).valid = true ∧ k < pageSize
      · rw [hother q k hq hqk.1 hqk.2]
      · tauto

theorem Wf.claimed {o : Owner} (h : v.Wf) (hcl : Claimed v.Holds v'.Holds o f)
    (hf : f < pageFrames) (hfree : Unowned v.Holds f) (hpage : ∀ p j, o = .page p j → j < 4) :
    v'.Wf := by
  refine ⟨h.excl.claimed hfree hcl, ?_, ?_⟩
  · intro o' g ho
    rcases (hcl o' g).mp ho with ho | ⟨_, rfl⟩
    · exact h.frame_lt o' g ho
    · exact hf
  · intro q k g ho
    rcases (hcl _ g).mp ho with ho | ⟨hc, _⟩
    · exact h.page_lt q k g ho
    · exact hpage q k hc.symm

end Claim

end View

end OsProjects.Paging
