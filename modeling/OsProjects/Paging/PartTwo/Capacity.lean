import OsProjects.Paging.PartTwo.Evict
import Mathlib.Data.Fintype.Card
import Mathlib.Data.Fintype.Prod

/-!
# Room in the backing store

The slots that can ever be looked up again hold different objects, and there
are 16 such objects: four tables and the pages 1, 2, 3 of each process. So the
used slots exceed 16 only by leaked ones (`usedSlots_le`), and an eviction,
which starts with a table in memory, finds an unused slot as long as at most
`STORE_FRAMES - 16` slots have leaked (`freeSlot_ne_none`).
-/

namespace OsProjects.Paging.PartTwo

open OsProjects.Lib OsProjects.Paging

/-- The objects that are looked up under the number they are stored with. -/
def objects : Finset Owner :=
  (Finset.univ.image Owner.table) ∪
    ((Finset.univ : Finset (Pid × Fin 3)).image fun x => Owner.page x.1 (x.2.val + 1))

theorem card_objects : objects.card = 16 := by decide

theorem table_mem_objects (p : Pid) : Owner.table p ∈ objects := by simp [objects]

theorem page_mem_objects {p : Pid} {j : Nat} (h0 : j ≠ 0) (hj : j < 4) :
    Owner.page p j ∈ objects := by
  refine Finset.mem_union_right _ (Finset.mem_image.mpr ?_)
  refine ⟨(p, ⟨j - 1, by omega⟩), Finset.mem_univ _, ?_⟩
  show Owner.page p (j - 1 + 1) = Owner.page p j
  rw [Nat.sub_add_cancel (by omega)]

/-- The processes in turn. -/
def pidOfNat (n : Nat) : Pid := ⟨n % maxProcesses, Nat.mod_lt n (Nat.zero_lt_succ _)⟩

theorem pidOfNat_val (p : Pid) : pidOfNat p = p := Fin.ext (Nat.mod_eq_of_lt p.isLt)

/-- The object a slot holds, read off its label. -/
def StoredFrame.owner (b : StoredFrame) : Owner :=
  if b.page = -1 then .table (pidOfNat b.pid.toNat) else .page (pidOfNat b.pid.toNat) b.page.toNat

theorem owner_of_stored {s : State} {o : Owner} {i : Nat} (h : s.Stored o i) :
    (s.slot i).owner = o := by
  obtain ⟨_, hp, hn⟩ := h
  have hpid : pidOfNat (s.slot i).pid.toNat = o.pid := by
    rw [hp, Int.toNat_natCast, pidOfNat_val]
  unfold StoredFrame.owner
  rw [hn, hpid]
  cases o with
  | table p => rfl
  | page p j =>
    rw [if_neg (by simp only [Owner.num]; omega)]
    rfl

section

variable {s : State}

/-- The slots in use that can be looked up. -/
def State.lookups (s : State) : Finset Nat :=
  (Finset.range storeFrames).filter fun i =>
    0 ≤ (s.slot i).pid ∧ (s.slot i).page ≠ -2

theorem usedSlots_eq (s : State) : s.usedSlots = s.leakedSlots + s.lookups.card := by
  unfold State.usedSlots State.leakedSlots State.lookups Cells.used
  rw [← Finset.card_union_of_disjoint]
  · congr 1
    ext i
    simp only [Finset.mem_filter, Finset.mem_union, Finset.mem_range, Bool.and_eq_true,
      decide_eq_true_eq]
    simp only [State.slot]
    tauto
  · rw [Finset.disjoint_filter]
    intro i _ h1 h2
    simp only [Bool.and_eq_true, decide_eq_true_eq] at h1
    exact h2.2 h1.2

/-- A slot in use that has not leaked holds one of the objects. -/
theorem stored_of_lookup (h : Inv s) {i : Nat} (hi : i ∈ s.lookups) :
    ∃ o ∈ objects, s.Stored o i := by
  simp only [State.lookups, Finset.mem_filter, Finset.mem_range] at hi
  obtain ⟨hlt, hpid, hpage⟩ := hi
  rcases h.slot_kind i hlt hpid with hl | ⟨o, ho, hne⟩
  · exact absurd hl.2.2 hpage
  · refine ⟨o, ?_, ho⟩
    cases o with
    | table p => exact table_mem_objects p
    | page p j =>
      have hj0 : j ≠ 0 := by
        rintro rfl
        exact hne p rfl
      exact page_mem_objects hj0 (h.slot_page i p j ho)

/-- Looked-up slots hold different objects, none of them resident. -/
theorem card_lookups_le (h : Inv s) (objs : Finset Owner)
    (hobjs : ∀ o ∈ objects, ¬ s.Resident o → o ∈ objs) : s.lookups.card ≤ objs.card := by
  refine Finset.card_le_card_of_injOn (fun i => (s.slot i).owner) ?_ ?_
  · intro i hi
    obtain ⟨o, ho, hst⟩ := stored_of_lookup h hi
    show (s.slot i).owner ∈ objs
    rw [owner_of_stored hst]
    exact hobjs o ho (h.slot_absent o i hst)
  · intro i hi j hj heq
    obtain ⟨o, _, hst⟩ := stored_of_lookup h hi
    obtain ⟨o', _, hst'⟩ := stored_of_lookup h hj
    have heq' : (s.slot i).owner = (s.slot j).owner := heq
    rw [owner_of_stored hst, owner_of_stored hst'] at heq'
    subst heq'
    exact h.slot_unique o i j hst hst'

/-- Used slots beyond the 16 objects are leaks. -/
theorem usedSlots_le (h : Inv s) : s.usedSlots ≤ s.leakedSlots + 16 := by
  have := card_lookups_le h objects (fun o ho _ => ho)
  rw [card_objects] at this
  rw [usedSlots_eq]
  omega

/-- While something is in memory, an unused slot is left unless more than
`STORE_FRAMES - 16` slots have leaked. -/
theorem freeSlot_ne_none (h : Inv s) {o : Owner} {f : Nat} (ho : s.view.Holds o f)
    (hroom : s.leakedSlots ≤ 48) : s.freeSlot ≠ none := by
  have htab : s.Resident (.table o.pid) := by
    cases o with
    | table p => exact ⟨f, ho⟩
    | page p j => exact ⟨_, ho.table⟩
  -- the table of the owner is in memory, so one of the 16 objects is not in a slot
  have hcard : s.lookups.card ≤ (objects.erase (.table o.pid)).card := by
    refine card_lookups_le h _ (fun o' ho' hres => ?_)
    refine Finset.mem_erase.mpr ⟨?_, ho'⟩
    rintro rfl
    exact hres htab
  rw [Finset.card_erase_of_mem (table_mem_objects _), card_objects] at hcard
  have hused : s.usedSlots < storeFrames := by
    rw [usedSlots_eq]
    simp only [storeFrames]
    omega
  obtain ⟨i, hi, hneg⟩ := Cells.exists_unused hused
  intro hnone
  have := (Cells.find_eq_none_iff _ _).mp hnone i hi
  simp only [decide_eq_false_iff_not] at hneg this
  omega

end

end OsProjects.Paging.PartTwo
