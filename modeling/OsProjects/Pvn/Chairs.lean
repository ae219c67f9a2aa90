import OsProjects.Pvn.Steps
import Mathlib.Data.Finset.Card

/-!
# Chairs and alignment

What holds in every run, without further conditions: `dept.sem` is a lock; who was
let in finds the department aligned with their team and a chair free until they
sit; exactly those between `enter_department` and `leave_department` are in chairs,
all of one team; and a change of hands lasts only while somebody is seated. In
particular there is never a fight.
-/

namespace OsProjects.Pvn

open OsProjects.Lib

namespace Pc

/-- Between `sem_wait(&dept.sem)` and `sem_post(&dept.sem)`. -/
def holdsDept : Pc → Bool
  | .testing | .turnedAway | .lockQueue | .dequeueing | .postNext | .entering | .unlockQueue
  | .unlockDept | .leaving | .lockOwner | .wakeHead | .unlockOwner | .unlockLeft => true
  | _ => false

/-- Let in, and not yet seated. -/
def admitted : Pc → Bool
  | .lockQueue | .dequeueing | .postNext | .entering => true
  | _ => false

/-- Between `enter_department` and `leave_department`. -/
def inChair : Pc → Bool
  | .unlockQueue | .unlockDept | .costuming | .leaving => true
  | _ => false

/-- `visitsLeft` was decremented. -/
def counted : Pc → Bool
  | .unlockCount | .done => true
  | _ => false

theorem holdsDept_of_admitted (pc : Pc) (h : pc.admitted = true) : pc.holdsDept = true := by
  cases pc <;> first | rfl | cases h

theorem holdsDept_succ (pc : Pc) : ∀ pc' ∈ pc.succ, pc.usesDeptSem = false →
    pc'.holdsDept = pc.holdsDept := by
  cases pc <;> decide

theorem admitted_succ (pc : Pc) : ∀ pc' ∈ pc.succ, pc.editsDept = false → pc'.admitted = true →
    pc.admitted = true ∨ pc = .testing := by
  cases pc <;> decide

theorem inChair_succ (pc : Pc) : ∀ pc' ∈ pc.succ, pc.editsDept = false →
    pc'.inChair = pc.inChair := by
  cases pc <;> decide

theorem counted_succ (pc : Pc) : ∀ pc' ∈ pc.succ, pc ≠ .counting → pc'.counted = pc.counted := by
  cases pc <;> decide

end Pc

variable {H : Type}

/-! ## Chairs -/

section Chairs

variable {d : Department H}

theorem chairFree_iff : chairFree d = true ↔ ∃ i, d.empty i = true := by
  simp [chairFree]

theorem allEmpty_false_iff : allEmpty d = false ↔ ∃ i g, d.seated i = some g := by
  simp [allEmpty, ← Option.ne_none_iff_exists']

theorem seated_congr {d' : Department H} (h : d'.chairs = d.chairs) (i : Fin 4) :
    d'.seated i = d.seated i := by
  rw [Department.seated, Department.seated, h]

theorem chairFree_congr {d' : Department H} (h : d'.chairs = d.chairs) :
    chairFree d' = chairFree d := by
  unfold chairFree Department.empty
  rw [h]

theorem seated_of_empty {i : Fin 4} (h : d.empty i = true) :
    ∃ chair, d.chairs i = some chair ∧ d.seated i = none := by
  unfold Department.empty at h
  cases hc : d.chairs i with
  | none =>
    rw [hc] at h
    cases h
  | some chair =>
    rw [hc] at h
    refine ⟨chair, rfl, ?_⟩
    rw [Department.seated, hc]
    exact Option.isNone_iff_eq_none.mp h

/-- The chair that is taken exists and is empty, and it is booked. -/
theorem seat_eq (h : H) (visitTime now : Int) (hfree : chairFree d = true) :
    ∃ i chair, d.chairs i = some chair ∧ d.empty i = true ∧
      d.seat h visitTime now =
        { d with
          chairs := Function.update d.chairs i
            (some (updateChair { chair with hum := some h } visitTime now)) } := by
  cases hfind : (List.finRange 4).find? d.empty with
  | none =>
    obtain ⟨i, hi⟩ := chairFree_iff.mp hfree
    exact absurd hi (List.find?_eq_none.mp hfind i (List.mem_finRange i))
  | some i =>
    have hempty : d.empty i = true := List.find?_some hfind
    obtain ⟨chair, hchair, -⟩ := seated_of_empty hempty
    refine ⟨i, chair, hchair, hempty, ?_⟩
    unfold Department.seat
    simp only [hfind, hchair, Option.map_some]

/-- A free chair is taken, and nothing else happens. -/
theorem seat_spec (h : H) (visitTime now : Int) (hfree : chairFree d = true) :
    ∃ i, d.seated i = none ∧
      (∀ j, (d.seat h visitTime now).seated j = if j = i then some h else d.seated j) ∧
      ∀ j, ((d.seat h visitTime now).chairs j).isSome = (d.chairs j).isSome := by
  obtain ⟨i, chair, hchair, hempty, heq⟩ := seat_eq h visitTime now hfree
  obtain ⟨-, -, hnone⟩ := seated_of_empty hempty
  rw [heq]
  refine ⟨i, hnone, ?_, ?_⟩ <;> intro j <;> simp only [Department.seated] <;>
    by_cases hj : j = i
  · subst hj
    rw [Function.update_self, if_pos rfl]
    rfl
  · rw [Function.update_of_ne hj, if_neg hj]
  · subst hj
    rw [Function.update_self, hchair]
    rfl
  · rw [Function.update_of_ne hj]

theorem seated_stand [DecidableEq H] (h : H) (j : Fin 4) :
    (d.stand h).seated j = if d.seated j = some h then none else d.seated j := by
  show ((d.chairs j).map _).bind Chair.hum = _
  unfold Department.seated
  cases d.chairs j with
  | none => rfl
  | some chair =>
    simp only [Option.map_some, Option.bind_some]
    split <;> rfl

theorem isSome_stand [DecidableEq H] (h : H) (j : Fin 4) :
    ((d.stand h).chairs j).isSome = (d.chairs j).isSome := by
  simp [Department.stand]

end Chairs

/-! ## The invariant -/

/-- Chairs, alignment and `dept.sem`, in every run. -/
structure Orderly (c : Setup H) (s : State H) : Prop where
  running : s.aborted = false
  willReturn : ∀ g, s.willReturn g = 0
  lock : Lock s.dept.sem (fun g => (s.pc g).holdsDept = true)
  admitted : ∀ g, (s.pc g).admitted = true →
    s.dept.alignment = .team (c.team g) ∧ chairFree s.dept = true
  seated : ∀ i g, s.dept.seated i = some g → (s.pc g).inChair = true
  chair : ∀ g, (s.pc g).inChair = true → ∃ i, s.dept.seated i = some g
  ours : ∀ g, (s.pc g).inChair = true →
    s.dept.alignment = .team (c.team g) ∨ s.dept.alignment = .toTeam (c.team g).other
  changing : ∀ t, s.dept.alignment = .toTeam t → ∃ i g, s.dept.seated i = some g
  exist : ∀ i, (s.dept.chairs i).isSome = decide (i.val < c.chairs)

section Steps

variable [DecidableEq H] [Fintype H] {c : Setup H} {l : Label H} {s s' : State H} {place : Pc}

omit [DecidableEq H] [Fintype H] in
theorem waitDept_sem (hw : s.waitDept = some s') :
    0 < s.dept.sem ∧ s'.dept.sem = s.dept.sem - 1 := by
  obtain ⟨v, hv, rfl⟩ := Option.map_eq_some_iff.mp hw
  exact semWait_eq_some.mp hv

/-- The lock of the department. -/
theorem lock_step (h : Orderly c s) (hplace : s.pc l.who = place)
    (hact : act c l s place = some s') (hf : Frame l.who place s s')
    (hsucc : s'.pc l.who ∈ place.succ) :
    Lock s'.dept.sem (fun g => (s'.pc g).holdsDept = true) := by
  have hacquire : (s'.pc l.who).holdsDept = true →
      ∀ g, (s'.pc g).holdsDept = true ↔ (s.pc g).holdsDept = true ∨ g = l.who := by
    intro hin g
    by_cases hg : g = l.who
    · subst hg
      simp [hin]
    · rw [hf.others g hg]
      simp [hg]
  have hrelease : (s'.pc l.who).holdsDept = false →
      ∀ g, (s'.pc g).holdsDept = true ↔ (s.pc g).holdsDept = true ∧ g ≠ l.who := by
    intro hout g
    by_cases hg : g = l.who
    · subst hg
      simp [hout]
    · rw [hf.others g hg]
      simp [hg]
  -- two places wait on `dept.sem`, three post it, and the others keep the holders as they are
  cases huse : place.usesDeptSem with
  | false =>
    rw [hf.deptSem huse]
    refine h.lock.congr (fun g => ?_)
    rw [hf.same hplace (Pc.holdsDept_succ place _ hsucc huse)]
  | true =>
    have hin : place.holdsDept = true → (s.pc l.who).holdsDept = true := fun hp => by
      rw [hplace]
      exact hp
    cases place with
    | askDept | costuming =>
      obtain ⟨s₁, h₁, rfl⟩ := Option.map_eq_some_iff.mp hact
      obtain ⟨hpos, heq⟩ := waitDept_sem h₁
      show Lock s₁.dept.sem _
      rw [heq]
      refine h.lock.acquire hpos (hacquire ?_)
      rw [List.mem_singleton.mp hsucc]
      rfl
    | turnedAway | unlockDept | unlockLeft =>
      cases hact
      refine h.lock.release (hin rfl) (hrelease ?_)
      rw [List.mem_singleton.mp hsucc]
      rfl
    | _ => cases huse

/-- Steps that change neither the alignment nor a chair. -/
theorem Orderly.plain_step (h : Orderly c s) (hplace : s.pc l.who = place)
    (hact : act c l s place = some s') (hf : Frame l.who place s s')
    (hno : place.editsDept = false) : Orderly c s' := by
  have hne : place ≠ .entering := by
    rintro rfl
    cases hno
  have hrun : s'.aborted = false := (hf.aborted hne).trans h.running
  have hsucc : s'.pc l.who ∈ place.succ := by
    rcases hf.succ with hab | hsucc
    · rw [hrun] at hab
      cases hab
    · exact hsucc
  obtain ⟨halign, hchairs⟩ := hf.dept hno
  have hseat : ∀ i, s'.dept.seated i = s.dept.seated i := seated_congr hchairs
  have hchair : ∀ g, (s'.pc g).inChair = (s.pc g).inChair :=
    hf.same hplace (Pc.inChair_succ place _ hsucc hno)
  refine ⟨hrun, hf.willReturn, lock_step h hplace hact hf hsucc, ?_, ?_, ?_, ?_, ?_, ?_⟩
  · -- admitted: only the test in `human_main` lets somebody in
    intro g hg
    rw [halign, chairFree_congr hchairs]
    by_cases hgw : g = l.who
    · subst hgw
      rcases Pc.admitted_succ place _ hsucc hno hg with hin | rfl
      · exact h.admitted _ (hplace ▸ hin)
      · rcases act_testing hact with ⟨-, htest⟩ | ⟨hpc, -⟩
        · exact htest
        · rw [hpc] at hg
          cases hg
    · rw [hf.others g hgw] at hg
      exact h.admitted g hg
  · intro i g hg
    rw [hseat] at hg
    rw [hchair]
    exact h.seated i g hg
  · intro g hg
    rw [hchair] at hg
    obtain ⟨i, hi⟩ := h.chair g hg
    exact ⟨i, (hseat i).trans hi⟩
  · intro g hg
    rw [hchair] at hg
    rw [halign]
    exact h.ours g hg
  · intro t ht
    rw [halign] at ht
    obtain ⟨i, g, hi⟩ := h.changing t ht
    exact ⟨i, g, (hseat i).trans hi⟩
  · intro i
    rw [hchairs]
    exact h.exist i

theorem Team.ne_other (t : Team) : t ≠ t.other := by
  cases t <;> nofun

omit [DecidableEq H] [Fintype H] in
theorem fight_eq_false {h : H} (hteam : ∀ i g, s.dept.seated i = some g → c.team g = c.team h) :
    fight c h s = false := by
  refine List.any_eq_false.mpr ?_
  intro i _
  cases hg : s.dept.seated i with
  | none => exact Bool.false_ne_true
  | some g =>
    show ¬ (c.team g == (c.team h).other) = true
    rw [hteam i g hg]
    simpa using Team.ne_other _

omit [DecidableEq H] [Fintype H] in
/-- Nobody else is in the department's section. -/
theorem Orderly.alone (h : Orderly c s) {w g : H} (hw : (s.pc w).holdsDept = true)
    (hg : g ≠ w) : (s.pc g).holdsDept = false := by
  by_contra hin
  exact hg (h.lock.excl g w (Bool.eq_true_of_not_eq_false hin) hw)

omit [DecidableEq H] [Fintype H] in
theorem Orderly.not_admitted (h : Orderly c s) {w g : H} (hw : (s.pc w).holdsDept = true)
    (hg : g ≠ w) : (s.pc g).admitted = false := by
  by_contra hadm
  have hin := Pc.holdsDept_of_admitted _ (Bool.eq_true_of_not_eq_false hadm)
  rw [h.alone hw hg] at hin
  cases hin

omit [DecidableEq H] [Fintype H] in
/-- While `g` is in a chair and the department is `t`'s, `g` is of team `t`. -/
theorem Orderly.team_of_inChair (h : Orderly c s) {g : H} {t : Team}
    (hg : (s.pc g).inChair = true) (ht : s.dept.alignment = .team t) : c.team g = t := by
  rcases h.ours g hg with hours | hours <;> rw [ht] at hours
  · injection hours with hours
    exact hours.symm
  · cases hours

/-- Who enters finds only their own team, so there is no fight. -/
theorem Orderly.entering_spec (h : Orderly c s) (hplace : s.pc l.who = .entering)
    (hact : act c l s .entering = some s') :
    ∃ a, s' = ((sit l.who l s).align a).goto l.who .unlockQueue ∧ SwapStart c l.who s a := by
  obtain ⟨halign, hfree⟩ := h.admitted l.who (by rw [hplace]; rfl)
  obtain ⟨i, -, hseat, -⟩ := seat_spec (d := s.dept) l.who l.visitTime l.chairNow hfree
  have hteam : ∀ j g, (sit l.who l s).dept.seated j = some g → c.team g = c.team l.who := by
    intro j g hg
    rw [show (sit l.who l s).dept.seated j = _ from hseat j] at hg
    split at hg
    · cases hg
      rfl
    · exact h.team_of_inChair (h.seated j g hg) halign
  obtain ⟨s₁, h₁, rfl⟩ := Option.map_eq_some_iff.mp hact
  rcases enterDepartment_spec h₁ with ⟨hyes, -⟩ | ⟨-, a, rfl, hswap⟩
  · rw [fight_eq_false hteam] at hyes
    cases hyes
  · have hrun : ((sit l.who l s).align a).aborted = false := h.running
    exact ⟨a, if_neg (by rw [hrun]; decide), hswap⟩

theorem Orderly.enter_step (h : Orderly c s) (hplace : s.pc l.who = .entering)
    (hact : act c l s .entering = some s') (hf : Frame l.who .entering s s') : Orderly c s' := by
  obtain ⟨halign, hfree⟩ := h.admitted l.who (by rw [hplace]; rfl)
  have honly : ∀ g, g ≠ l.who → (s.pc g).admitted = false :=
    fun g hg => h.not_admitted (by rw [hplace]; rfl) hg
  obtain ⟨i, hempty, hseat, hsome⟩ := seat_spec (d := s.dept) l.who l.visitTime l.chairNow hfree
  obtain ⟨a, rfl, hswap⟩ := h.entering_spec hplace hact
  have ha : a = .team (c.team l.who) ∨ a = .toTeam (c.team l.who).other := by
    rcases hswap with rfl | ⟨t, ht, rfl, -⟩
    · exact .inl halign
    · rw [halign] at ht
      cases ht
      exact .inr rfl
  have hpc : (((sit l.who l s).align a).goto l.who .unlockQueue).pc l.who = .unlockQueue :=
    goto_pc_self ..
  refine ⟨h.running, hf.willReturn, lock_step h hplace hact hf ?_, ?_, ?_, ?_, ?_, ?_, ?_⟩
  · rw [hpc]
    simp [Pc.succ]
  · -- admitted: `l.who` was the only one
    intro g hg
    by_cases hgw : g = l.who
    · subst hgw
      rw [hpc] at hg
      cases hg
    · rw [hf.others g hgw, honly g hgw] at hg
      cases hg
  · -- seated: the new chair, and the old ones
    intro j g hg
    replace hg : (if j = i then some l.who else s.dept.seated j) = some g := (hseat j).symm.trans hg
    by_cases hgw : g = l.who
    · rw [hgw, hpc]
      rfl
    · rw [hf.others g hgw]
      split at hg
      · cases hg
        exact absurd rfl hgw
      · exact h.seated j g hg
  · -- chair: the chair that was taken was empty, so nobody lost theirs
    intro g hg
    by_cases hgw : g = l.who
    · exact ⟨i, (hseat i).trans (by rw [if_pos rfl, hgw])⟩
    · rw [hf.others g hgw] at hg
      obtain ⟨j, hj⟩ := h.chair g hg
      refine ⟨j, (hseat j).trans ?_⟩
      rw [if_neg ?_, hj]
      rintro rfl
      rw [hempty] at hj
      cases hj
  · -- ours: everybody in a chair is of the team that was let in
    intro g hg
    by_cases hgw : g = l.who
    · rw [hgw]
      exact ha
    · rw [hf.others g hgw] at hg
      rw [h.team_of_inChair hg halign]
      exact ha
  · exact fun _ _ => ⟨i, l.who, (hseat i).trans (if_pos rfl)⟩
  · exact fun j => (hsome j).trans (h.exist j)

theorem Orderly.leave_step (h : Orderly c s) (hplace : s.pc l.who = .leaving)
    (hact : act c l s .leaving = some s') (hf : Frame l.who .leaving s s') : Orderly c s' := by
  have honly : ∀ g, g ≠ l.who → (s.pc g).admitted = false :=
    fun g hg => h.not_admitted (by rw [hplace]; rfl) hg
  obtain ⟨s₁, h₁, rfl⟩ := Option.map_eq_some_iff.mp hact
  obtain ⟨a₁, a, rfl, hstart, hend⟩ := leaveDepartment_spec h₁
  have hpc : ((({ s with dept := s.dept.stand l.who } : State H).align a).goto l.who
      .lockOwner).pc l.who = .lockOwner := goto_pc_self ..
  have hseat : ∀ j, (s.dept.stand l.who).seated j =
      if s.dept.seated j = some l.who then none else s.dept.seated j := seated_stand l.who
  have hstay : ∀ j g, g ≠ l.who → s.dept.seated j = some g →
      (s.dept.stand l.who).seated j = some g := by
    intro j g hg hj
    rw [hseat, if_neg (by rw [hj]; exact fun heq => hg (Option.some.inj heq)), hj]
  refine ⟨h.running, hf.willReturn, lock_step h hplace hact hf ?_, ?_, ?_, ?_, ?_, ?_, ?_⟩
  · rw [hpc]
    simp [Pc.succ]
  · -- admitted: nobody, `l.who` is the one in the section
    intro g hg
    by_cases hgw : g = l.who
    · subst hgw
      rw [hpc] at hg
      cases hg
    · rw [hf.others g hgw, honly g hgw] at hg
      cases hg
  · -- seated: who is left in a chair is somebody else
    intro j g hg
    replace hg : (if s.dept.seated j = some l.who then none else s.dept.seated j) = some g :=
      (hseat j).symm.trans hg
    split at hg
    · cases hg
    · rename_i hne
      have hgw : g ≠ l.who := fun heq => hne (heq ▸ hg)
      rw [hf.others g hgw]
      exact h.seated j g hg
  · intro g hg
    by_cases hgw : g = l.who
    · subst hgw
      rw [hpc] at hg
      cases hg
    · rw [hf.others g hgw] at hg
      obtain ⟨j, hj⟩ := h.chair g hg
      exact ⟨j, hstay j g hgw hj⟩
  · intro g hg
    have hgw : g ≠ l.who := by
      rintro rfl
      rw [hpc] at hg
      cases hg
    rw [hf.others g hgw] at hg
    have ha₁ : a₁ = .team (c.team g) ∨ a₁ = .toTeam (c.team g).other := by
      rcases hstart with rfl | ⟨t, ht, rfl, -⟩
      · exact h.ours g hg
      · rw [h.team_of_inChair hg ht]
        exact .inr rfl
    rcases hend with ⟨rfl, -⟩ | ⟨t, -, hall, -⟩
    · exact ha₁
    · -- `g` is still seated, so the change of hands goes on
      obtain ⟨j, hj⟩ := h.chair g hg
      rw [allEmpty_false_iff.mpr ⟨j, g, hstay j g hgw hj⟩] at hall
      cases hall
  · -- changing: a change of hands that goes on was not ended for want of a seated human
    intro t ht
    replace ht : a = .toTeam t := ht
    rcases hend with ⟨rfl, hsome⟩ | ⟨u, -, -, rfl⟩
    · exact allEmpty_false_iff.mp (hsome t ht)
    · cases ht
  · exact fun j => (isSome_stand l.who j).trans (h.exist j)

theorem Orderly.step (h : Orderly c s) (hs : step c l s = some (place, s')) : Orderly c s' := by
  obtain ⟨-, rfl, hact⟩ := step_inv hs
  have hf := act_frame h.willReturn hact
  cases hed : (s.pc l.who).editsDept with
  | false => exact h.plain_step rfl hact hf hed
  | true =>
    cases hplace : s.pc l.who with
    | entering =>
      rw [hplace] at hact hf
      exact h.enter_step hplace hact hf
    | leaving =>
      rw [hplace] at hact hf
      exact h.leave_step hplace hact hf
    | _ =>
      rw [hplace] at hed
      cases hed

/-- A step from an orderly state: no fight, so the thread moves on. -/
theorem Orderly.moves (h : Orderly c s) (hs : Pvn.step c l s = some (place, s')) :
    s.pc l.who = place ∧ act c l s place = some s' ∧ Frame l.who place s s' ∧
      s'.pc l.who ∈ place.succ := by
  have h' := h.step hs
  obtain ⟨-, hplace, hact⟩ := step_inv hs
  have hf := act_frame h.willReturn hact
  refine ⟨hplace.symm, hact, hf, ?_⟩
  rcases hf.succ with hab | hsucc
  · rw [h'.running] at hab
    cases hab
  · exact hsucc

/-- `visitsLeft` counts the humans that have not decremented it. -/
theorem Orderly.count_step (h : Orderly c s) (hs : Pvn.step c l s = some (place, s'))
    (hcount : s.visitsLeft = (Finset.univ.filter fun g => (s.pc g).counted = false).card) :
    s'.visitsLeft = (Finset.univ.filter fun g => (s'.pc g).counted = false).card := by
  obtain ⟨hplace, hact, hf, hsucc⟩ := h.moves hs
  by_cases hc : place = .counting
  · subst hc
    have hpc : s'.pc l.who = .unlockCount := List.mem_singleton.mp hsucc
    have hleft : s'.visitsLeft = s.visitsLeft - 1 := by
      cases hact
      rfl
    have herase : (Finset.univ.filter fun g => (s'.pc g).counted = false) =
        (Finset.univ.filter fun g => (s.pc g).counted = false).erase l.who := by
      ext g
      simp only [Finset.mem_filter, Finset.mem_univ, true_and, Finset.mem_erase]
      by_cases hg : g = l.who
      · subst hg
        rw [hpc]
        simp [Pc.counted]
      · rw [hf.others g hg]
        simp [hg]
    have hmem : l.who ∈ Finset.univ.filter fun g => (s.pc g).counted = false :=
      Finset.mem_filter.mpr ⟨Finset.mem_univ _, by rw [hplace]; rfl⟩
    have hpos := Finset.card_pos.mpr ⟨_, hmem⟩
    rw [hleft, herase, Finset.card_erase_of_mem hmem, hcount]
    omega
  · have hsame : ∀ g, (s'.pc g).counted = (s.pc g).counted :=
      hf.same hplace (Pc.counted_succ place _ hsucc hc)
    rw [hf.visitsLeft hc, hcount]
    simp only [hsame]

end Steps

theorem init_orderly [Fintype H] (c : Setup H) : Orderly c (init c) where
  running := rfl
  willReturn _ := rfl
  lock := ⟨Nat.le_refl 1, fun _ _ => nofun, fun _ _ => nofun⟩
  admitted _ := nofun
  seated i g hg := by
    replace hg : (if i.val < c.chairs then some (createChair (c.created i)) else none).bind
      Chair.hum = some g := hg
    split at hg <;> cases hg
  chair _ := nofun
  ours _ := nofun
  changing _ := nofun
  exist i := by
    show (if i.val < c.chairs then some _ else none).isSome = _
    split <;> simp [*]

end OsProjects.Pvn
