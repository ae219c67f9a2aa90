import OsProjects.Pvn.Deadlock
import OsProjects.Pvn.Statistics

/-!
# How the department comes to rest

Two facts about whole runs. From when on nobody tosses the return coin with success, only
so many steps are left, whatever the schedule: what is left of a visit is a number
(`Pc.left`), and a token on somebody's own semaphore, which sends them once more to the
door, is paid for by the human who posts it. And as long as somebody can be where the
semaphores say (`Manned`), the threads stop in two ways only: everybody is done, or
everybody else is blocked on their own semaphore.
-/

namespace OsProjects.Pvn

open OsProjects.Lib

/-! ## What is left of a visit -/

namespace Pc

/-- A bound for the steps left of a last visit, with one refusal at the door. -/
def left : Pc → Nat
  | .done => 0
  | .unlockCount => 1
  | .counting => 2
  | .askCount => 3
  | .tossing => 4
  | .unlockLeft => 5
  | .unlockOwner => 6
  | .wakeHead => 11
  | .lockOwner => 12
  | .leaving => 13
  | .costuming => 14
  | .unlockDept => 15
  | .unlockQueue => 16
  | .entering => 17
  | .postNext => 22
  | .dequeueing | .waitTurn | .waitAgain => 23
  | .lockQueue | .turnedAway | .unlockArrival => 24
  | .testing => 25
  | .askDept => 26
  | .postSelf => 29
  | .queueing => 30
  | .arriving => 31

/-- What the step gives: the price of a token. -/
def gift : Pc → Nat
  | .postSelf | .postNext | .wakeHead => 4
  | _ => 0

/-- What the step uses up. -/
def price : Pc → Nat
  | .waitTurn | .waitAgain => 4
  | _ => 0

theorem left_succ (pc : Pc) (hne : pc ≠ .tossing) :
    ∀ pc' ∈ pc.succ, pc'.left + pc.gift < pc.left + pc.price := by
  cases pc with
  | tossing => exact absurd rfl hne
  | _ => decide

theorem left_le (pc : Pc) : pc.left ≤ 31 := by
  cases pc <;> decide

end Pc

variable {H : Type}

def State.load (s : State H) (h : H) : Nat := (s.pc h).left + 4 * s.sem h

section Load

variable [DecidableEq H] [Fintype H] {c : Setup H} {l : Label H} {s s' : State H} {place : Pc}

/-- A step of somebody who does not come back is paid for. -/
theorem Orderly.step_load (ho : Orderly c s) (hs : Pvn.step c l s = some (place, s'))
    (hlast : l.returns = false) :
    ∃ given : H → Nat, (∀ g, g ≠ l.who → s'.load g ≤ s.load g + given g) ∧
      s'.load l.who + ∑ g, given g < s.load l.who := by
  obtain ⟨hplace, hact, hf, hsucc⟩ := ho.moves hs
  have hsem := act_sem ho.willReturn hact
  have hpc : ∀ g, g ≠ l.who → s'.pc g = s.pc g := hf.others
  -- everybody else keeps their tokens, and at most the head `g` of a queue gets one more
  have hwake : ∀ t, place.gift = 4 → place.price = 0 → place ≠ .tossing →
      (∀ g, s'.sem g = if s.queue t = some g then s.sem g + 1 else s.sem g) →
      ∃ given : H → Nat, (∀ g, g ≠ l.who → s'.load g ≤ s.load g + given g) ∧
        s'.load l.who + ∑ g, given g < s.load l.who := by
    intro t hgift hprice hne htok
    have hlt := Pc.left_succ place hne _ hsucc
    by_cases hself : s.queue t = some l.who
    · refine ⟨fun _ => 0, ?_, ?_⟩
      · intro g hg
        have hother : s.queue t ≠ some g := fun h => hg (Option.some.inj (h.symm.trans hself))
        rw [State.load, State.load, hpc g hg, htok, if_neg hother]
        omega
      · rw [Finset.sum_const_zero, State.load, State.load, htok, if_pos hself, hplace]
        omega
    · refine ⟨fun g => if s.queue t = some g then 4 else 0, ?_, ?_⟩
      · intro g hg
        beta_reduce
        rw [State.load, State.load, hpc g hg, htok]
        split <;> omega
      · have hsum : ∑ g, (if s.queue t = some g then 4 else 0) ≤ 4 := by
          cases s.queue t with
          | none => simp
          | some x =>
            simp only [Option.some.injEq]
            rw [Finset.sum_ite_eq Finset.univ x fun _ => 4, if_pos (Finset.mem_univ x)]
        beta_reduce
        rw [State.load, State.load, htok, if_neg hself, hplace]
        omega
  -- the other steps concern nobody else
  have hplain : (∀ g, g ≠ l.who → s'.sem g = s.sem g) →
      (s'.pc l.who).left + 4 * s'.sem l.who < place.left + 4 * s.sem l.who →
      ∃ given : H → Nat, (∀ g, g ≠ l.who → s'.load g ≤ s.load g + given g) ∧
        s'.load l.who + ∑ g, given g < s.load l.who := by
    intro hothers hlt
    refine ⟨fun _ => 0, ?_, ?_⟩
    · intro g hg
      rw [State.load, State.load, hpc g hg, hothers g hg]
      omega
    · rw [Finset.sum_const_zero, State.load, State.load, hplace]
      exact hlt
  cases place with
  | postNext => exact hwake _ rfl rfl (by simp) hsem
  | wakeHead => exact hwake _ rfl rfl (by simp) hsem
  | postSelf =>
    refine hplain (fun g hg => (hsem g).trans (if_neg hg)) ?_
    have hown : s'.sem l.who = s.sem l.who + 1 := (hsem l.who).trans (if_pos rfl)
    have hlt := Pc.left_succ .postSelf (by simp) _ hsucc
    simp only [Pc.gift, Pc.price] at hlt
    omega
  | waitTurn | waitAgain =>
    refine hplain (fun g hg => (hsem g).trans (if_neg hg)) ?_
    have hpos := act_wait_pos hact (by simp)
    have hown : s'.sem l.who = s.sem l.who - 1 := (hsem l.who).trans (if_pos rfl)
    have hlt := Pc.left_succ _ (by simp) _ hsucc
    simp only [Pc.gift, Pc.price] at hlt
    omega
  | tossing =>
    refine hplain (fun g _ => hsem g) ?_
    have hown : s'.sem l.who = s.sem l.who := hsem l.who
    have hnext : s'.pc l.who = .askCount := by
      cases hact
      rw [hlast]
      exact goto_pc_self ..
    rw [hown, hnext]
    exact Nat.add_lt_add_right (by decide) _
  | _ =>
    refine hplain (fun g _ => hsem g) ?_
    have hown : s'.sem l.who = s.sem l.who := hsem l.who
    have hlt := Pc.left_succ _ (by simp) _ hsucc
    simp only [Pc.gift, Pc.price] at hlt
    omega

/-- From every reachable state, and under every schedule: if nobody who leaves decides to
come back, there are at most 31 steps for each human and 4 for each token on a human's own
semaphore. -/
theorem last_visits_end (c : Setup H) (ls : List (Label H)) (tr : History H) (s : State H)
    (hrun : steps c ls = some (tr, s)) (ms : List (Label H)) (tr' : History H) (s' : State H)
    (hms : run (step c) ms s = some (tr', s')) (hlast : ∀ l ∈ ms, l.returns = false) :
    ms.length ≤ 31 * Fintype.card H + 4 * ∑ h, s.sem h := by
  have hguard : Guarded (step c) (fun l _ => l.returns = false) ms s := by
    intro cs l _ _ hpre _
    exact hlast l (hpre.subset (by simp))
  have hstart := (Booked.of_steps hrun).orderly
  have hlen := (run_length_le (I := Orderly c) (μ := fun s => ∑ h, s.load h) hstart
    (fun s l place s' ho hl hs => by
      obtain ⟨given, hothers, hself⟩ := ho.step_load hs hl
      exact ⟨ho.step hs, sum_lt_of_paid hothers hself⟩) ms tr' s' hms hguard).2
  have hle : ∑ h, s.load h ≤ ∑ h, (31 + 4 * s.sem h) := by
    refine Finset.sum_le_sum fun h _ => ?_
    have hleft := Pc.left_le (s.pc h)
    rw [State.load]
    omega
  rw [Finset.sum_add_distrib, ← Finset.mul_sum, Finset.sum_const_nat fun _ _ => rfl,
    Finset.card_univ, Nat.mul_comm] at hle
  omega

/-- The pirate goes home while the ninja waits at the door. -/
theorem last_visits_end_two_humans : ∃ tr s tr' s',
    steps twoHumans (refusedThenWoken.take 21) = some (tr, s) ∧ s.pc 1 = .waitAgain ∧
    run (step twoHumans) (refusedThenWoken.drop 21) s = some (tr', s') ∧
    (refusedThenWoken.drop 21).length ≤ 31 * 2 + 4 * ∑ h, s.sem h := by
  have heval : ((steps twoHumans (refusedThenWoken.take 21)).bind fun x =>
      (run (step twoHumans) (refusedThenWoken.drop 21) x.2).map fun _ =>
        decide (x.2.pc 1 = .waitAgain)) = some true := by
    decide +kernel
  obtain ⟨⟨tr, s⟩, hrun, h⟩ := Option.bind_eq_some_iff.mp heval
  obtain ⟨⟨tr', s'⟩, hms, h⟩ := Option.map_eq_some_iff.mp h
  exact ⟨tr, s, tr', s', hrun, of_decide_eq_true h, hms,
    last_visits_end twoHumans _ tr s hrun _ tr' s' hms (by decide)⟩

end Load

/-! ## Who is in which section -/

/-- The semaphores that start at 1 and guard a section. -/
inductive Guard
  | dept
  | queue (t : Team)
  | count
  deriving DecidableEq

def State.value (s : State H) : Guard → Nat
  | .dept => s.dept.sem
  | .queue t => s.queueSem t
  | .count => s.vCountSem

namespace Pc

/-- The semaphore that a human of team `own` waits on here, when the department is, or
comes, into the hands of `owner`. -/
def waits (own owner : Team) : Pc → Option Guard
  | .arriving | .lockQueue => some (.queue own)
  | .askDept | .costuming => some .dept
  | .lockOwner => some (.queue owner)
  | .askCount => some .count
  | _ => none

/-- The semaphore that is posted here. -/
def posts (own owner : Team) : Pc → Option Guard
  | .unlockArrival | .unlockQueue => some (.queue own)
  | .turnedAway | .unlockDept | .unlockLeft => some .dept
  | .unlockOwner => some (.queue owner)
  | .unlockCount => some .count
  | _ => none

/-- The sections a human is in. -/
def held (own owner : Team) : Pc → List Guard
  | .queueing | .postSelf | .unlockArrival => [.queue own]
  | .testing | .turnedAway | .lockQueue | .unlockDept | .leaving | .lockOwner | .unlockLeft =>
    [.dept]
  | .dequeueing | .postNext | .entering | .unlockQueue => [.dept, .queue own]
  | .wakeHead | .unlockOwner => [.dept, .queue owner]
  | .counting | .unlockCount => [.count]
  | _ => []

/-- Waking the head of the owner's queue. -/
def atOwner : Pc → Bool
  | .wakeHead | .unlockOwner => true
  | _ => false

theorem held_succ (pc : Pc) (own owner : Team) : ∀ pc' ∈ pc.succ, ∀ m ∈ pc.held own owner,
    pc.posts own owner = some m ∨ m ∈ pc'.held own owner := by
  cases pc <;> cases own <;> cases owner <;> decide

theorem held_of_waits (pc : Pc) (own owner : Team) : ∀ pc' ∈ pc.succ,
    ∀ m ∈ pc.waits own owner, m ∈ pc'.held own owner := by
  cases pc <;> cases own <;> cases owner <;> decide

theorem held_owner (pc : Pc) (own owner owner' : Team) (h : pc.atOwner = false) :
    pc.held own owner = pc.held own owner' := by
  cases pc <;> first | rfl | cases h

theorem holdsDept_of_atOwner (pc : Pc) (h : pc.atOwner = true) : pc.holdsDept = true := by
  cases pc <;> first | rfl | cases h

theorem editsDept_spec (pc : Pc) (h : pc.editsDept = true) :
    pc.holdsDept = true ∧ ∀ pc' ∈ pc.succ, pc'.atOwner = false := by
  cases pc <;> first | decide | cases h

/-- On their own semaphore. -/
def waitsSelf : Pc → Bool
  | .waitTurn | .waitAgain => true
  | _ => false

/-- Inside a queue's section, or that of the count, nobody waits. -/
theorem awake_of_held (pc : Pc) (own owner : Team) : ∀ m ∈ pc.held own owner, m ≠ .dept →
    pc.waits own owner = none ∧ pc.waitsSelf = false ∧ pc ≠ .done := by
  cases pc <;> cases own <;> cases owner <;> decide

/-- Inside the department's section somebody waits for a queue at the most. -/
theorem awake_of_dept (pc : Pc) (own owner : Team) (h : .dept ∈ pc.held own owner) :
    (∀ m ∈ pc.waits own owner, m = .queue own ∨ m = .queue owner) ∧ pc.waitsSelf = false ∧
      pc ≠ .done := by
  revert h
  cases pc <;> cases own <;> cases owner <;> decide

end Pc

/-- The team whose queue is woken. -/
abbrev State.owner (s : State H) : Team := s.dept.alignment.teamAlignment

/-- A semaphore that is down has somebody in its section. -/
def Manned (c : Setup H) (s : State H) : Prop :=
  ∀ m, 0 < s.value m ∨ ∃ h, m ∈ (s.pc h).held (c.team h) s.owner

theorem init_manned [Fintype H] (c : Setup H) : Manned c (init c) := by
  intro m
  cases m <;> exact .inl Nat.one_pos

section Values

variable [DecidableEq H] [Fintype H] {c : Setup H} {l : Label H} {s s' : State H} {place : Pc}
  {m : Guard}

omit [DecidableEq H] [Fintype H] in
theorem waitQueue_value {t : Team} (hw : s.waitQueue t = some s') (hm : m ≠ .queue t) :
    s'.value m = s.value m := by
  obtain ⟨v, -, rfl⟩ := Option.map_eq_some_iff.mp hw
  cases m with
  | queue u => exact Function.update_of_ne (fun h => hm (congrArg Guard.queue h)) ..
  | _ => rfl

omit [DecidableEq H] [Fintype H] in
theorem waitDept_value (hw : s.waitDept = some s') (hm : m ≠ .dept) : s'.value m = s.value m := by
  obtain ⟨v, -, rfl⟩ := Option.map_eq_some_iff.mp hw
  cases m with
  | dept => exact absurd rfl hm
  | _ => rfl

omit [DecidableEq H] [Fintype H] in
theorem waitCount_value (hw : s.waitCount = some s') (hm : m ≠ .count) :
    s'.value m = s.value m := by
  obtain ⟨v, -, rfl⟩ := Option.map_eq_some_iff.mp hw
  cases m with
  | count => exact absurd rfl hm
  | _ => rfl

omit [DecidableEq H] [Fintype H] in
theorem postQueue_value (t : Team) (s : State H) (m : Guard) :
    s.value m ≤ (s.postQueue t).value m ∧ 0 < (s.postQueue t).value (.queue t) := by
  constructor
  · cases m with
    | queue u =>
      show s.queueSem u ≤ Function.update s.queueSem t (s.queueSem t + 1) u
      rw [Function.update_apply]
      split
      · next hu => rw [hu]; exact Nat.le_succ _
      · exact Nat.le_refl _
    | _ => exact Nat.le_refl _
  · show 0 < Function.update s.queueSem t (s.queueSem t + 1) t
    rw [Function.update_self]
    exact Nat.succ_pos _

omit [DecidableEq H] [Fintype H] in
theorem postDept_value (s : State H) (m : Guard) :
    s.value m ≤ s.postDept.value m ∧ 0 < s.postDept.value .dept := by
  refine ⟨?_, Nat.succ_pos _⟩
  cases m with
  | dept => exact Nat.le_succ _
  | _ => exact Nat.le_refl _

omit [DecidableEq H] [Fintype H] in
/-- What touches none of these semaphores. -/
theorem value_eq (hdept : s'.dept.sem = s.dept.sem) (hqueue : s'.queueSem = s.queueSem)
    (hcount : s'.vCountSem = s.vCountSem) : s.value m ≤ s'.value m := by
  cases m with
  | dept => exact hdept.ge
  | queue t => exact (congrFun hqueue t).ge
  | count => exact hcount.ge

omit [Fintype H] in
theorem wake_value (t : Team) (s : State H) (m : Guard) : s.value m ≤ (s.wake t).value m := by
  unfold State.wake
  cases s.queue t <;> exact value_eq rfl rfl rfl

/-- A semaphore goes down only where somebody waits on it, and is up once it was posted. -/
theorem act_value (hr : ∀ g, s.willReturn g = 0) (hact : act c l s place = some s') (m : Guard) :
    (place.waits (c.team l.who) s.owner ≠ some m → s.value m ≤ s'.value m) ∧
      (place.posts (c.team l.who) s.owner = some m → 0 < s'.value m) := by
  cases place with
  | arriving | lockQueue =>
    obtain ⟨s₁, h₁, rfl⟩ := Option.map_eq_some_iff.mp hact
    exact ⟨fun hm => (waitQueue_value h₁ fun h => hm (congrArg some h.symm)).ge, nofun⟩
  | lockOwner =>
    obtain ⟨s₁, h₁, rfl⟩ := Option.map_eq_some_iff.mp hact
    exact ⟨fun hm => (waitQueue_value h₁ fun h => hm (congrArg some h.symm)).ge, nofun⟩
  | askDept | costuming =>
    obtain ⟨s₁, h₁, rfl⟩ := Option.map_eq_some_iff.mp hact
    exact ⟨fun hm => (waitDept_value h₁ fun h => hm (congrArg some h.symm)).ge, nofun⟩
  | askCount =>
    obtain ⟨s₁, h₁, rfl⟩ := Option.map_eq_some_iff.mp hact
    exact ⟨fun hm => (waitCount_value h₁ fun h => hm (congrArg some h.symm)).ge, nofun⟩
  | unlockArrival | unlockQueue =>
    cases hact
    refine ⟨fun _ => (postQueue_value _ s m).1, ?_⟩
    rintro ⟨⟩
    exact (postQueue_value (c.team l.who) s .dept).2
  | unlockOwner =>
    cases hact
    refine ⟨fun _ => (postQueue_value _ s m).1, ?_⟩
    rintro ⟨⟩
    exact (postQueue_value s.owner s .dept).2
  | turnedAway | unlockDept | unlockLeft =>
    cases hact
    refine ⟨fun _ => (postDept_value s m).1, ?_⟩
    rintro ⟨⟩
    exact (postDept_value s .dept).2
  | unlockCount =>
    cases hact
    rw [loop_done (s := s.postCount) (hr l.who)]
    refine ⟨fun _ => ?_, ?_⟩
    · cases m with
      | count => exact Nat.le_succ _
      | _ => exact Nat.le_refl _
    · rintro ⟨⟩
      exact Nat.succ_pos _
  | queueing =>
    obtain ⟨s₁, h₁, rfl⟩ := Option.map_eq_some_iff.mp hact
    rw [queueHuman_eq] at h₁
    obtain ⟨x, -, rfl⟩ := Option.map_eq_some_iff.mp h₁
    exact ⟨fun _ => value_eq rfl rfl rfl, nofun⟩
  | dequeueing =>
    cases hact
    refine ⟨fun _ => ?_, nofun⟩
    unfold dequeueHuman
    cases s.queue (c.team l.who) <;> exact value_eq rfl rfl rfl
  | postNext | wakeHead =>
    cases hact
    exact ⟨fun _ => wake_value _ s m, nofun⟩
  | entering =>
    obtain ⟨s₁, h₁, rfl⟩ := Option.map_eq_some_iff.mp hact
    have hsame : s.value m ≤ s₁.value m := by
      rcases enterDepartment_spec h₁ with ⟨-, rfl⟩ | ⟨-, a, rfl, -⟩ <;>
        exact value_eq (seat_sem ..) rfl rfl
    refine ⟨fun _ => ?_, nofun⟩
    split <;> exact hsame
  | leaving =>
    obtain ⟨s₁, h₁, rfl⟩ := Option.map_eq_some_iff.mp hact
    obtain ⟨a, b, rfl, -⟩ := leaveDepartment_spec h₁
    exact ⟨fun _ => value_eq rfl rfl rfl, nofun⟩
  | tossing =>
    cases hact
    refine ⟨fun _ => ?_, nofun⟩
    cases l.returns with
    | true =>
      rw [if_pos rfl, loop_again]
      exact value_eq rfl rfl rfl
    | false => exact value_eq rfl rfl rfl
  | waitTurn | waitAgain =>
    obtain ⟨s₁, h₁, rfl⟩ := Option.map_eq_some_iff.mp hact
    obtain ⟨v, -, rfl⟩ := Option.map_eq_some_iff.mp h₁
    exact ⟨fun _ => value_eq rfl rfl rfl, nofun⟩
  | done => cases hact
  | _ =>
    cases hact
    exact ⟨fun _ => value_eq rfl rfl rfl, nofun⟩

/-- Nobody's sections change when somebody else moves. -/
theorem Orderly.held_other (ho : Orderly c s) (hs : Pvn.step c l s = some (place, s')) {h : H}
    (hne : h ≠ l.who) : (s'.pc h).held (c.team h) s'.owner = (s.pc h).held (c.team h) s.owner := by
  obtain ⟨hplace, -, hf, -⟩ := ho.moves hs
  rw [hf.others h hne]
  cases hed : place.editsDept with
  | false => rw [State.owner, (hf.dept hed).1]
  | true =>
    -- who changes the alignment is alone in the department's section
    refine Pc.held_owner _ _ _ _ (Bool.eq_false_iff.mpr fun hat => hne ?_)
    refine ho.lock.excl h l.who (Pc.holdsDept_of_atOwner _ hat) ?_
    rw [hplace]
    exact (Pc.editsDept_spec place hed).1

theorem Manned.step (hm : Manned c s) (ho : Orderly c s)
    (hs : Pvn.step c l s = some (place, s')) : Manned c s' := by
  obtain ⟨hplace, hact, hf, hsucc⟩ := ho.moves hs
  have howner : (s'.pc l.who).held (c.team l.who) s'.owner =
      (s'.pc l.who).held (c.team l.who) s.owner := by
    cases hed : place.editsDept with
    | false => rw [State.owner, (hf.dept hed).1]
    | true => exact Pc.held_owner _ _ _ _ ((Pc.editsDept_spec place hed).2 _ hsucc)
  intro m
  obtain ⟨hle, hpost⟩ := act_value ho.willReturn hact m
  by_cases hwait : place.waits (c.team l.who) s.owner = some m
  · refine .inr ⟨l.who, ?_⟩
    rw [howner]
    exact Pc.held_of_waits place _ _ _ hsucc m hwait
  · rcases hm m with hpos | ⟨h, hh⟩
    · exact .inl (Nat.lt_of_lt_of_le hpos (hle hwait))
    · by_cases hself : h = l.who
      · subst hself
        rw [hplace] at hh
        rcases Pc.held_succ place _ _ _ hsucc m hh with hp | hin
        · exact .inl (hpost hp)
        · exact .inr ⟨l.who, by rw [howner]; exact hin⟩
      · exact .inr ⟨h, by rw [ho.held_other hs hself]; exact hh⟩

end Values

/-! ## Who can move -/

/-- Not done, and at no semaphore that is down. -/
def Ready (c : Setup H) (s : State H) (h : H) : Prop :=
  s.pc h ≠ .done ∧ (∀ m, (s.pc h).waits (c.team h) s.owner = some m → 0 < s.value m) ∧
    ((s.pc h).waitsSelf = true → 0 < s.sem h)

section Ready

variable [DecidableEq H] [Fintype H] {c : Setup H} {l : Label H} {s : State H}
  {q : Team → List H}

omit [DecidableEq H] in
theorem Lined.swapDue_total (hl : Lined c s q) (hum : H) (now : Int) :
    ∃ due, swapDue c hum now s = some due := by
  unfold swapDue
  rw [queueCount_of_linked (hl.linked _), queueCount_of_linked (hl.linked _)]
  split <;> exact ⟨_, rfl⟩

omit [DecidableEq H] in
theorem startSwap_total {hum : H} {now : Int} {due : Bool} (h : swapDue c hum now s = some due) :
    ∃ s', startSwap c hum now s = some s' := by
  unfold startSwap
  rw [h]
  cases s.dept.alignment <;> exact ⟨_, rfl⟩

/-- A human that is ready has a step, whatever the clocks and the coin say. -/
theorem Lined.act_of_ready (hl : Lined c s q) (hready : Ready c s l.who) :
    ∃ s', act c l s (s.pc l.who) = some s' := by
  obtain ⟨hdone, hopen, hself⟩ := hready
  have hdown : ∀ v, 0 < v → ∃ v', semWait v = some v' := fun v hv =>
    ⟨v - 1, semWait_eq_some.mpr ⟨hv, rfl⟩⟩
  have hqueue : ∀ t pc, 0 < s.queueSem t →
      ∃ s', (s.waitQueue t).map (·.goto l.who pc) = some s' := by
    intro t pc hpos
    obtain ⟨v, hv⟩ := hdown _ hpos
    exact ⟨_, by rw [State.waitQueue, hv]; rfl⟩
  have hdept : ∀ pc, 0 < s.dept.sem → ∃ s', s.waitDept.map (·.goto l.who pc) = some s' := by
    intro pc hpos
    obtain ⟨v, hv⟩ := hdown _ hpos
    exact ⟨_, by rw [State.waitDept, hv]; rfl⟩
  have hown : ∀ pc, 0 < s.sem l.who →
      ∃ s', (s.waitSelf l.who).map (·.goto l.who pc) = some s' := by
    intro pc hpos
    obtain ⟨v, hv⟩ := hdown _ hpos
    exact ⟨_, by rw [State.waitSelf, hv]; rfl⟩
  cases hplace : s.pc l.who with
  | done => exact absurd hplace hdone
  | arriving | lockQueue =>
    exact hqueue _ _ (hopen (.queue (c.team l.who)) (by rw [hplace]; rfl))
  | lockOwner => exact hqueue _ _ (hopen (.queue s.owner) (by rw [hplace]; rfl))
  | askDept | costuming => exact hdept _ (hopen .dept (by rw [hplace]; rfl))
  | waitTurn | waitAgain => exact hown _ (hself (by rw [hplace]; rfl))
  | askCount =>
    obtain ⟨v, hv⟩ := hdown s.vCountSem (hopen .count (by rw [hplace]; rfl))
    exact ⟨_, by rw [act, State.waitCount, hv]; rfl⟩
  | queueing =>
    obtain ⟨next, queue, heq, -⟩ :=
      hl.queues.enqueue_spec (hl.out (by rw [hplace]; rfl)) (c.team l.who)
    exact ⟨_, by rw [act, queueHuman_eq, heq]; rfl⟩
  | entering =>
    obtain ⟨due, hdue⟩ := hl.swapDue_total l.who l.headNow
    have hdue' : swapDue c l.who l.headNow (sit l.who l s) = some due := by
      rw [← hdue]
      unfold swapDue
      rw [show (sit l.who l s).dept.alignment = s.dept.alignment from seat_alignment ..]
      rfl
    obtain ⟨s₁, h₁⟩ := startSwap_total hdue'
    rw [act, enterDepartment]
    split
    · exact ⟨_, rfl⟩
    · rw [h₁]
      exact ⟨_, rfl⟩
  | leaving =>
    obtain ⟨due, hdue⟩ := hl.swapDue_total l.who l.headNow
    have hdue' : swapDue c l.who l.headNow { s with dept := s.dept.stand l.who } = some due := hdue
    obtain ⟨s₁, h₁⟩ := startSwap_total hdue'
    exact ⟨_, by rw [act, leaveDepartment, h₁]; rfl⟩
  | _ => exact ⟨_, rfl⟩

omit [DecidableEq H] [Fintype H] in
/-- When nobody is ready, no section is occupied. -/
theorem Manned.value_pos (hm : Manned c s) (hstuck : ∀ h, ¬ Ready c s h) (m : Guard) :
    0 < s.value m := by
  have hinner : ∀ m, m ≠ .dept → 0 < s.value m := by
    intro m hne
    rcases hm m with hpos | ⟨h, hh⟩
    · exact hpos
    · obtain ⟨hwaits, hself, hdone⟩ := Pc.awake_of_held _ _ _ m hh hne
      refine absurd ⟨hdone, ?_, ?_⟩ (hstuck h)
      · rw [hwaits]
        nofun
      · rw [hself]
        nofun
  by_cases hne : m = .dept
  · subst hne
    rcases hm .dept with hpos | ⟨h, hh⟩
    · exact hpos
    · obtain ⟨hwaits, hself, hdone⟩ := Pc.awake_of_dept _ _ _ hh
      refine absurd ⟨hdone, ?_, ?_⟩ (hstuck h)
      · intro m hmem
        rcases hwaits m hmem with rfl | rfl
        · exact hinner _ (by simp)
        · exact hinner _ (by simp)
      · rw [hself]
        nofun
  · exact hinner m hne

omit [DecidableEq H] [Fintype H] in
/-- When nobody is ready, everybody is done or blocked on their own semaphore. -/
theorem Manned.blocked (hm : Manned c s) (hstuck : ∀ h, ¬ Ready c s h) {h : H}
    (hdone : s.pc h ≠ .done) : Blocked s h := by
  by_contra hno
  refine hstuck h ⟨hdone, fun m _ => hm.value_pos hstuck m, fun hself => ?_⟩
  have hpc : s.pc h = .waitTurn ∨ s.pc h = .waitAgain := by
    generalize s.pc h = pc at hself
    cases pc <;> first | exact .inl rfl | exact .inr rfl | cases hself
  exact Nat.pos_of_ne_zero fun hzero => hno ⟨hpc, hzero⟩

omit [DecidableEq H] in
theorem Manned.rest (hm : Manned c s) (ho : Orderly c s)
    (hleft : s.visitsLeft = (Finset.univ.filter fun g => (s.pc g).counted = false).card)
    (hstuck : ∀ h, ¬ Ready c s h) :
    ((∀ h, s.pc h = .done) ∧ s.visitsLeft = 0) ∨ Deadlocked s := by
  by_cases hall : ∀ h, s.pc h = .done
  · refine .inl ⟨hall, ?_⟩
    rw [hleft, Finset.filter_false_of_mem fun h _ => by rw [hall h]; decide]
    rfl
  · obtain ⟨h, hh⟩ := not_forall.mp hall
    have hblocked : ∀ g, s.pc g ≠ .done → Blocked s g := fun g => hm.blocked hstuck
    refine .inr ⟨?_, ?_, hblocked⟩
    · have hmem : h ∈ Finset.univ.filter fun g => (s.pc g).counted = false := by
        refine Finset.mem_filter.mpr ⟨Finset.mem_univ h, ?_⟩
        rcases (hblocked h hh).1 with hpc | hpc <;> rw [hpc] <;> rfl
      have hpos := Finset.card_pos.mpr ⟨h, hmem⟩
      omega
    · intro i
      cases hi : s.dept.seated i with
      | none => rfl
      | some g =>
        have hin := ho.seated i g hi
        by_cases hg : s.pc g = .done
        · rw [hg] at hin
          cases hin
        · rcases (hblocked g hg).1 with hpc | hpc <;> rw [hpc] at hin <;> cases hin

end Ready

section Runs

variable [DecidableEq H] [Fintype H]

/-- What every disciplined run keeps. -/
theorem disciplined_manned (c : Setup H) (ls : List (Label H)) (tr : History H) (s : State H)
    (hrun : steps c ls = some (tr, s)) (hd : Guarded (step c) (Disciplined c) ls (init c)) :
    Manned c s ∧ ∃ b q, InOrder c tr s b q := by
  refine guarded_rule (P := fun tr s => Manned c s ∧ ∃ b q, InOrder c tr s b q)
    ⟨init_manned c, _, _, init_inOrder c⟩ ?_ ls tr s hrun hd
  rintro tr s l place s' ⟨hm, b, q, h⟩ hl hs
  exact ⟨hm.step h.orderly hs, h.step hl hs⟩

/-- In every state that a disciplined run comes to, everybody is done and no visit is
left; or the run is deadlocked; or somebody unfinished can take a step, whatever the
clocks and the coin say. There is no other way to stop. -/
theorem department_stops (c : Setup H) (ls : List (Label H)) (tr : History H) (s : State H)
    (hrun : steps c ls = some (tr, s)) (hd : Guarded (step c) (Disciplined c) ls (init c)) :
    ((∀ h, s.pc h = .done) ∧ s.visitsLeft = 0) ∨ Deadlocked s ∨
      ∃ h, s.pc h ≠ .done ∧ ∀ l : Label H, l.who = h →
        ∃ place s', step c l s = some (place, s') := by
  obtain ⟨hm, b, q, h⟩ := disciplined_manned c ls tr s hrun hd
  by_cases hready : ∃ g, Ready c s g
  · obtain ⟨g, hg⟩ := hready
    refine .inr (.inr ⟨g, hg.1, ?_⟩)
    rintro l rfl
    obtain ⟨s', hact⟩ := h.lined.act_of_ready (l := l) hg
    refine ⟨s.pc l.who, s', ?_⟩
    rw [step, h.orderly.running, if_neg (by decide), hact]
    rfl
  · rcases hm.rest h.orderly (Booked.of_steps hrun).left (not_exists.mp hready) with hend | hdead
    · exact .inl hend
    · exact .inr (.inl hdead)

/-- The pirate is done, and the ninja it has woken can go on. -/
theorem department_stops_two_humans : ∃ tr s, steps twoHumans refusedThenWoken = some (tr, s) ∧
    s.pc 0 = .done ∧ ∃ h, s.pc h ≠ .done ∧ ∀ l : Label (Fin 2), l.who = h →
      ∃ place s', step twoHumans l s = some (place, s') := by
  have hd : Guarded (step twoHumans) (Disciplined twoHumans) refusedThenWoken (init twoHumans) :=
    Guarded.of_eval (by decide +kernel)
  have heval : (steps twoHumans refusedThenWoken).map (fun x =>
      decide (x.2.pc 0 = .done ∧ x.2.pc 1 = .waitAgain ∧ ¬ Deadlocked x.2)) = some true := by
    decide +kernel
  obtain ⟨⟨tr, s⟩, hrun, h⟩ := Option.map_eq_some_iff.mp heval
  obtain ⟨hdone, hwaits, hlive⟩ := of_decide_eq_true h
  refine ⟨tr, s, hrun, hdone, ?_⟩
  rcases department_stops twoHumans refusedThenWoken tr s hrun hd with ⟨hall, -⟩ | hdead | hgo
  · rw [hall 1] at hwaits
    cases hwaits
  · exact absurd hdead hlive
  · exact hgo

end Runs

end OsProjects.Pvn
