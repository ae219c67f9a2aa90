import OsProjects.Pvn.Queue
import Mathlib.Algebra.BigOperators.Group.Finset.Piecewise
import Mathlib.Algebra.BigOperators.Fin

/-!
# Chair statistics and visit records

`enter_department` books a visit twice: as a record at the head of the human's list and
in the accumulators of the chair it takes. The chair that was free at the door is still
free there, so the second booking is never skipped and the two ledgers agree. Everybody
decrements `visitsLeft` once, as the last thing they do to the shared state, so after
the last decrement nothing is booked any more.
-/

namespace OsProjects.Pvn

open OsProjects.Lib

/-- A sum in which one entry gains `d`. -/
theorem sum_gain {I : Type} [Fintype I] [DecidableEq I] {f f' : I → Int} {i : I} {d : Int}
    (hi : f' i = f i + d) (hne : ∀ j, j ≠ i → f' j = f j) : ∑ j, f' j = ∑ j, f j + d := by
  have heq : ∀ j, f' j = f j + if j = i then d else 0 := by
    intro j
    by_cases hj : j = i
    · subst hj
      rw [if_pos rfl, hi]
    · rw [if_neg hj, hne j hj, Int.add_zero]
  simp only [heq, Finset.sum_add_distrib, Finset.sum_ite_eq', Finset.mem_univ, if_true]

namespace Pc

theorem not_inChair_of_counted (pc : Pc) (h : pc.counted = true) : pc.inChair = false := by
  cases pc <;> first | rfl | cases h

end Pc

variable {H : Type}

/-! ## The two ledgers -/

/-- The sum of `occupied` over the chairs. -/
def bookedByChairs (s : State H) : Int := ∑ i, (s.dept.chairs i).elim 0 Chair.occupied

/-- The sum of `visitTime` over the records of `h`. -/
def visitTimes (s : State H) (h : H) : Int := ((s.visit h).map Visit.visitTime).sum

/-- The sum of `visitTime` over all records of all humans. -/
def bookedByHumans [Fintype H] (s : State H) : Int := ∑ h, visitTimes s h

section Log

variable [DecidableEq H]

/-- What an entry of the history adds to when `h` last queued up and to its visits. -/
def logEntry (h : H) (x : Int × List Visit) (e : Label H × Pc) : Int × List Visit :=
  if e.1.who = h then
    match e.2 with
    | .queueing => (e.1.now, x.2)
    | .entering => (x.1, createVisit (e.1.now - x.1) e.1.visitTime :: x.2)
    | _ => x
  else x

/-- When `h` last queued up, and one record for each of its `enter_department`, newest
first. -/
def visitLog (h : H) (tr : History H) : Int × List Visit := tr.foldl (logEntry h) (0, [])

/-- How often `h` completed `enter_department`. -/
def entered (h : H) (tr : History H) : Nat :=
  tr.countP fun e => decide (e.1.who = h) && decide (e.2 = .entering)

theorem visitLog_snoc (h : H) (tr : History H) (e : Label H × Pc) :
    visitLog h (tr ++ [e]) = logEntry h (visitLog h tr) e := by
  simp only [visitLog, List.foldl_append, List.foldl_cons, List.foldl_nil]

theorem logEntry_snd (h : H) (x : Int × List Visit) {e : Label H × Pc} (hne : e.2 ≠ .entering) :
    (logEntry h x e).2 = x.2 := by
  unfold logEntry
  split
  · split
    · rfl
    · exact absurd ‹_› hne
    · rfl
  · rfl

theorem logEntry_length (h : H) (x : Int × List Visit) (e : Label H × Pc) :
    (logEntry h x e).2.length = x.2.length +
      if decide (e.1.who = h) && decide (e.2 = .entering) then 1 else 0 := by
  unfold logEntry
  by_cases hw : e.1.who = h
  · rw [if_pos hw]
    split <;> simp_all
  · rw [if_neg hw]
    simp [hw]

theorem length_visitLog (h : H) (tr : History H) : (visitLog h tr).2.length = entered h tr := by
  induction tr using List.reverseRecOn with
  | nil => rfl
  | append_singleton tr e ih =>
    rw [visitLog_snoc, logEntry_length, ih, entered, entered, List.countP_append,
      List.countP_singleton]

end Log

/-! ## Steps -/

section Steps

variable [DecidableEq H] [Fintype H] {c : Setup H} {l : Label H} {s s' : State H} {place : Pc}

/-- Arrival times are written in `queue_human`, visit records in `enter_department`. -/
theorem act_quiet (hact : act c l s place = some s') (hq : place ≠ .queueing)
    (he : place ≠ .entering) : s'.t = s.t ∧ s'.visit = s.visit := by
  cases place with
  | queueing => exact absurd rfl hq
  | entering => exact absurd rfl he
  | arriving | waitTurn | askDept | waitAgain | lockQueue | costuming | lockOwner | askCount =>
    obtain ⟨s₁, h₁, rfl⟩ := Option.map_eq_some_iff.mp hact
    obtain ⟨v, -, rfl⟩ := Option.map_eq_some_iff.mp h₁
    exact ⟨rfl, rfl⟩
  | dequeueing =>
    cases hact
    unfold dequeueHuman
    cases s.queue (c.team l.who) <;> exact ⟨rfl, rfl⟩
  | postNext | wakeHead =>
    cases hact
    unfold State.wake
    split <;> exact ⟨rfl, rfl⟩
  | leaving =>
    obtain ⟨s₁, h₁, rfl⟩ := Option.map_eq_some_iff.mp hact
    obtain ⟨_, a, rfl, -, -⟩ := leaveDepartment_spec h₁
    exact ⟨rfl, rfl⟩
  | tossing =>
    cases hact
    cases l.returns with
    | true =>
      rw [if_pos rfl, loop_again]
      exact ⟨rfl, rfl⟩
    | false => exact ⟨rfl, rfl⟩
  | unlockCount =>
    cases hact
    unfold State.loop
    split <;> exact ⟨rfl, rfl⟩
  | postSelf | unlockArrival | testing | turnedAway | unlockQueue | unlockDept | unlockOwner
  | unlockLeft | counting =>
    cases hact
    exact ⟨rfl, rfl⟩
  | done => cases hact

theorem queueHuman_records {h : H} {now : Int} (hq : queueHuman c h now s = some s') :
    s'.t = Function.update s.t h now ∧ s'.visit = s.visit := by
  unfold queueHuman at hq
  dsimp only at hq
  cases hhead : s.queue (c.team h) with
  | none =>
    simp only [hhead, Option.some.injEq] at hq
    subst hq
    exact ⟨rfl, rfl⟩
  | some x =>
    simp only [hhead] at hq
    obtain ⟨cur, -, hq⟩ := Option.bind_eq_some_iff.mp hq
    cases hq
    exact ⟨rfl, rfl⟩

theorem enterDepartment_records {h : H} (hs : enterDepartment c h l s = some s') :
    s'.t = s.t ∧ s'.visit = (sit h l s).visit := by
  rcases enterDepartment_spec hs with ⟨-, rfl⟩ | ⟨-, a, rfl, -⟩ <;> exact ⟨rfl, rfl⟩

/-- The arrival times and the visit records after a step are those its entry in the
history calls for. -/
theorem act_records (hact : act c l s place = some s') (h : H) :
    logEntry h (s.t h, s.visit h) (l, place) = (s'.t h, s'.visit h) := by
  unfold logEntry
  by_cases hplace : place = .queueing ∨ place = .entering
  · rcases hplace with rfl | rfl <;> obtain ⟨s₁, h₁, rfl⟩ := Option.map_eq_some_iff.mp hact
    · obtain ⟨ht, hv⟩ := queueHuman_records h₁
      show _ = (s₁.t h, s₁.visit h)
      rw [ht, hv]
      by_cases hw : l.who = h
      · subst hw
        rw [if_pos rfl, Function.update_self]
      · rw [if_neg hw, Function.update_of_ne (Ne.symm hw)]
    · obtain ⟨ht, hv⟩ := enterDepartment_records h₁
      have hsame : ∀ s₂, s₂ = (if s₁.aborted then s₁ else s₁.goto l.who .unlockQueue) →
          s₂.t = s.t ∧ s₂.visit = (sit l.who l s).visit := by
        rintro s₂ rfl
        split <;> exact ⟨ht, hv⟩
      obtain ⟨ht, hv⟩ := hsame _ rfl
      rw [ht, hv]
      by_cases hw : l.who = h
      · subst hw
        rw [if_pos rfl]
        simp only [sit, Function.update_self, currentWaitTime]
      · rw [if_neg hw]
        simp only [sit, Function.update_of_ne (Ne.symm hw)]
  · have hne := not_or.mp hplace
    obtain ⟨ht, hv⟩ := act_quiet hact hne.1 hne.2
    rw [ht, hv]
    split
    · split
      · exact absurd ‹_› hne.1
      · exact absurd ‹_› hne.2
      · rfl
    · rfl

/-- The accumulators of a chair. -/
def Chair.times (chair : Chair H) : Int × Int × Int := (chair.last, chair.occupied, chair.free)

/-- A chair is booked when it is taken, and at no other time. -/
theorem Orderly.step_chairs (h : Orderly c s) (hs : Pvn.step c l s = some (place, s')) :
    (place = .entering ∧ ∃ i chair, s.dept.chairs i = some chair ∧ s'.dept.chairs =
        Function.update s.dept.chairs i
          (some (updateChair { chair with hum := some l.who } l.visitTime l.chairNow))) ∨
      place ≠ .entering ∧
        ∀ i, (s'.dept.chairs i).map Chair.times = (s.dept.chairs i).map Chair.times := by
  obtain ⟨hplace, hact, hf, -⟩ := h.moves hs
  cases hed : place.editsDept with
  | false =>
    refine .inr ⟨fun heq => ?_, fun i => by rw [(hf.dept hed).2]⟩
    rw [heq] at hed
    cases hed
  | true =>
    cases place with
    | entering =>
      obtain ⟨-, hfree⟩ := h.admitted l.who (by rw [hplace]; rfl)
      obtain ⟨i, chair, hchair, -, heq⟩ :=
        seat_eq (d := s.dept) l.who l.visitTime l.chairNow hfree
      obtain ⟨a, rfl, -⟩ := h.entering_spec hplace hact
      refine .inl ⟨rfl, i, chair, hchair, ?_⟩
      show (s.dept.seat l.who l.visitTime l.chairNow).chairs = _
      rw [heq]
    | leaving =>
      obtain ⟨s₁, h₁, rfl⟩ := Option.map_eq_some_iff.mp hact
      obtain ⟨_, a, rfl, -, -⟩ := leaveDepartment_spec h₁
      refine .inr ⟨nofun, fun i => ?_⟩
      show ((s.dept.stand l.who).chairs i).map Chair.times = _
      simp only [Department.stand, Option.map_map]
      refine congrArg (fun f => (s.dept.chairs i).map f) (funext fun chair => ?_)
      simp only [Function.comp_apply]
      split <;> rfl
    | _ => cases hed

/-- Everything that is booked, in every run. -/
structure Booked (c : Setup H) (tr : History H) (s : State H) : Prop where
  orderly : Orderly c s
  ledgers : bookedByChairs s = bookedByHumans s
  clock : ∀ i chair, s.dept.chairs i = some chair →
    chair.free + chair.occupied = chair.last - c.created i
  log : ∀ h, visitLog h tr = (s.t h, s.visit h)
  left : s.visitsLeft = (Finset.univ.filter fun g => (s.pc g).counted = false).card

theorem Booked.ledgers_step {tr : History H} (h : Booked c tr s)
    (hs : Pvn.step c l s = some (place, s')) : bookedByChairs s' = bookedByHumans s' := by
  have hrec := act_records (step_inv hs).2.2
  rcases h.orderly.step_chairs hs with ⟨rfl, i, chair, hchair, heq⟩ | ⟨hne, heq⟩
  · have hchairs : bookedByChairs s' = bookedByChairs s + l.visitTime := by
      refine sum_gain (i := i) ?_ (fun j hj => ?_)
      · rw [heq, Function.update_self, hchair]
        rfl
      · rw [heq, Function.update_of_ne hj]
    have hhumans : bookedByHumans s' = bookedByHumans s + l.visitTime := by
      refine sum_gain (i := l.who) ?_ (fun j hj => ?_)
      · have hvisit := congrArg Prod.snd (hrec l.who)
        simp only [logEntry, if_true] at hvisit
        simp only [visitTimes, ← hvisit, List.map_cons, List.sum_cons]
        exact Int.add_comm ..
      · have hvisit := congrArg Prod.snd (hrec j)
        simp only [logEntry, if_neg (Ne.symm hj)] at hvisit
        simp only [visitTimes, ← hvisit]
    rw [hchairs, hhumans, h.ledgers]
  · have hchairs : bookedByChairs s' = bookedByChairs s := by
      refine Finset.sum_congr rfl (fun i _ => ?_)
      have hocc := congrArg (fun o => o.elim 0 fun x : Int × Int × Int => x.2.1) (heq i)
      simp only [Option.elim_map] at hocc
      exact hocc
    have hhumans : bookedByHumans s' = bookedByHumans s := by
      refine Finset.sum_congr rfl (fun g _ => ?_)
      have hvisit : s'.visit g = s.visit g :=
        (congrArg Prod.snd (hrec g)).symm.trans (logEntry_snd g _ hne)
      simp only [visitTimes, hvisit]
    rw [hchairs, hhumans, h.ledgers]

theorem Booked.clock_step {tr : History H} (h : Booked c tr s)
    (hs : Pvn.step c l s = some (place, s')) (j : Fin 4) (chair' : Chair H)
    (hj : s'.dept.chairs j = some chair') :
    chair'.free + chair'.occupied = chair'.last - c.created j := by
  rcases h.orderly.step_chairs hs with ⟨-, i, chair, hchair, heq⟩ | ⟨-, heq⟩
  · rw [heq] at hj
    by_cases hji : j = i
    · subst hji
      rw [Function.update_self] at hj
      cases hj
      have hclock := h.clock j chair hchair
      simp only [updateChair]
      omega
    · rw [Function.update_of_ne hji] at hj
      exact h.clock j chair' hj
  · have htimes := heq j
    rw [hj] at htimes
    obtain ⟨chair, hchair, htimes⟩ := Option.map_eq_some_iff.mp htimes.symm
    have hclock := h.clock j chair hchair
    simp only [Chair.times, Prod.mk.injEq] at htimes
    omega

theorem Booked.step {tr : History H} (h : Booked c tr s)
    (hs : Pvn.step c l s = some (place, s')) : Booked c (tr ++ [(l, place)]) s' where
  orderly := h.orderly.step hs
  ledgers := h.ledgers_step hs
  clock := h.clock_step hs
  log g := by rw [visitLog_snoc, h.log, act_records (step_inv hs).2.2]
  left := h.orderly.count_step hs h.left

theorem init_booked (c : Setup H) : Booked c [] (init c) where
  orderly := init_orderly c
  ledgers := by
    have hchairs : ∀ i, ((init c).dept.chairs i).elim 0 Chair.occupied = 0 := by
      intro i
      simp only [init, initDepartment]
      split <;> rfl
    have hvisits : ∀ g, visitTimes (init c) g = 0 := fun _ => rfl
    simp only [bookedByChairs, bookedByHumans, hchairs, hvisits, Finset.sum_const_zero]
  clock i chair hchair := by
    simp only [init, initDepartment] at hchair
    split at hchair
    · cases hchair
      simp [createChair]
    · cases hchair
  log _ := rfl
  left := by simp [init, Pc.counted]

theorem Booked.of_steps {ls : List (Label H)} {tr : History H} (hrun : steps c ls = some (tr, s)) :
    Booked c tr s :=
  run_rule (P := Booked c) (init_booked c) (fun _ _ _ _ _ h hs => h.step hs) ls tr s hrun

/-! ## After the last visit -/

/-- Everybody has been counted. -/
def Finished (s : State H) : Prop := ∀ h, (s.pc h).counted = true

/-- `s'` has the bookings of `s`. -/
structure Settled (s s' : State H) : Prop where
  chairs : s'.dept.chairs = s.dept.chairs
  visit : s'.visit = s.visit
  visitsLeft : s'.visitsLeft = s.visitsLeft

theorem Booked.finished {tr : History H} (h : Booked c tr s) (hleft : s.visitsLeft = 0) :
    Finished s := by
  intro g
  have hnone := h.left.symm.trans hleft
  rw [Nat.cast_eq_zero, Finset.card_eq_zero, Finset.filter_eq_empty_iff] at hnone
  exact Bool.eq_true_of_not_eq_false (hnone (Finset.mem_univ g))

omit [DecidableEq H] [Fintype H] in
theorem Finished.nobody_seated (hfin : Finished s) (h : Orderly c s) (i : Fin 4) :
    s.dept.seated i = none := by
  cases hi : s.dept.seated i with
  | none => rfl
  | some g =>
    have hin := h.seated i g hi
    rw [Pc.not_inChair_of_counted _ (hfin g)] at hin
    cases hin

/-- Who was counted only gives the lock of the count back and returns. -/
theorem Finished.step (hfin : Finished s) (h : Orderly c s)
    (hs : Pvn.step c l s = some (place, s')) : Finished s' ∧ Settled s s' := by
  obtain ⟨hplace, hact, hf, hsucc⟩ := h.moves hs
  have hcounted : place.counted = true := hplace ▸ hfin l.who
  have hne : ∀ pc : Pc, pc.counted = false → place ≠ pc := by
    rintro pc hpc rfl
    rw [hpc] at hcounted
    cases hcounted
  have hed : place.editsDept = false := by
    cases place <;> first | rfl | cases hcounted
  refine ⟨fun g => ?_, (hf.dept hed).2, (act_quiet hact (hne _ rfl) (hne _ rfl)).2,
    hf.visitsLeft (hne _ rfl)⟩
  rw [hf.same hplace (Pc.counted_succ place _ hsucc (hne _ rfl))]
  exact hfin g

theorem Finished.run (hfin : Finished s) (h : Orderly c s) {ls : List (Label H)}
    {tr : History H} (hrun : Lib.run (Pvn.step c) ls s = some (tr, s')) :
    Finished s' ∧ Orderly c s' ∧ Settled s s' := by
  refine run_rule (P := fun _ s' => Finished s' ∧ Orderly c s' ∧ Settled s s')
    ⟨hfin, h, rfl, rfl, rfl⟩ ?_ ls tr s' hrun
  rintro _ s₁ l place s₂ ⟨hfin₁, h₁, hset₁⟩ hs
  obtain ⟨hfin₂, hset₂⟩ := hfin₁.step h₁ hs
  exact ⟨hfin₂, h₁.step hs, hset₂.chairs.trans hset₁.chairs, hset₂.visit.trans hset₁.visit,
    hset₂.visitsLeft.trans hset₁.visitsLeft⟩

theorem statistics_agree (c : Setup H) (ls : List (Label H)) (tr : History H) (s : State H)
    (hrun : steps c ls = some (tr, s)) :
    bookedByChairs s = bookedByHumans s ∧
    (∀ i chair, s.dept.chairs i = some chair →
      chair.free + chair.occupied = chair.last - c.created i) ∧
    (∀ h, s.visit h = (visitLog h tr).2 ∧ (s.visit h).length = entered h tr) ∧
    (s.visitsLeft = 0 → ∀ ls' tr' s', run (step c) ls' s = some (tr', s') →
      Settled s s' ∧ ∀ i, s'.dept.seated i = none) := by
  have h := Booked.of_steps hrun
  refine ⟨h.ledgers, h.clock, fun g => ?_, fun hleft ls' tr' s' hrun' => ?_⟩
  · have hvisit : s.visit g = (visitLog g tr).2 := by rw [h.log]
    exact ⟨hvisit, by rw [hvisit, length_visitLog]⟩
  · obtain ⟨hfin', h', hset⟩ := (h.finished hleft).run h.orderly hrun'
    exact ⟨hset, hfin'.nobody_seated h'⟩

end Steps

/-- A pirate alone; the chairs are created at time 5. -/
def onePirate : Setup (Fin 1) := tenEach.withHumans (fun _ => .pirate) fun _ => 5

/-- At time 8 the pirate comes for two visits of length 3, up to the decrement of
`visitsLeft`. -/
def comesTwice : List (Label (Fin 1)) :=
  List.replicate 20 ⟨⟨0, Nat.one_pos⟩, 8, 8, 8, 3, true⟩ ++
    List.replicate 22 ⟨⟨0, Nat.one_pos⟩, 8, 8, 8, 3, false⟩

theorem statistics_agree_two_visits :
    ∃ tr s, steps onePirate comesTwice = some (tr, s) ∧ s.visitsLeft = 0 ∧
      bookedByChairs s = 6 ∧ bookedByChairs s = bookedByHumans s ∧
      ∀ ls' tr' s', run (step onePirate) ls' s = some (tr', s') →
        Settled s s' ∧ ∀ i, s'.dept.seated i = none := by
  have heval : (steps onePirate comesTwice).map
      (fun x => decide (x.2.visitsLeft = 0 ∧ bookedByChairs x.2 = 6)) = some true := by
    decide +kernel
  obtain ⟨⟨tr, s⟩, hrun, h⟩ := Option.map_eq_some_iff.mp heval
  obtain ⟨hleft, hsix⟩ := of_decide_eq_true h
  obtain ⟨hledgers, -, -, hend⟩ := statistics_agree onePirate comesTwice tr s hrun
  exact ⟨tr, s, hrun, hleft, hsix, hledgers, hend hleft⟩

end OsProjects.Pvn
