import Mathlib.Algebra.BigOperators.Group.Finset.Piecewise
import Mathlib.Data.Fintype.Option
import OsProjects.Drivers.Progress

/-!
# Every car gets home

When no car sets out again and nobody wakes up without a signal, the intersection runs
empty, however the threads are scheduled. What is left of a trip is a number (`Pc.left`)
that every step lowers; a wake-up sends a car back by a few places, and the signal that
causes it is paid for by the car that sends it. So the sum over the cars goes down
(`act_load`), and since some car on its way can always move (`exists_mover`), the last step
leaves everybody at home.
-/

namespace OsProjects.Drivers

open OsProjects.Lib

/-! ## What is left of a trip -/

def Turn.wanted : Turn → Bool
  | .want _ => true
  | _ => false

namespace Pc

/-- A bound for the steps left, with one sleep at the front and one at the intersection;
`wanted` tells whether the route is still to be claimed. -/
def left (wanted : Bool) : Pc → Nat
  | .choosing => 0
  | .unlockDequeue => 1
  | .signalNext => 6
  | .dequeueing => 7
  | .lockDequeue => 8
  | .unlockLeave => 9
  | .unlockScan i => 10 + 8 * (3 - i.index)
  | .signalHead i => 15 + 8 * (3 - i.index)
  | .scan i => 16 + 8 * (3 - i.index)
  | .lockScan i => 17 + 8 * (3 - i.index)
  | .stopping => 42
  | .release i => 43 + (3 - i.index)
  | .departing => 47
  | .crossing => 48
  | .unlockCross => 49
  | .acquire i => 50 + (3 - i.index)
  | .sleepTurn => 54
  | .waitTurn | .signalSelf => 55
  | .testTurn => if wanted then 56 else 54
  | .lockCross | .sleepFront => 57
  | .unlockFront | .waitFront => 58
  | .testFront => 59
  | .lockFront => 60
  | .unlockJoin => 61
  | .joining => 62
  | .lockJoin => 63

/-- What the step gives to the car it signals. -/
def bell : Pc → Nat
  | .signalHead _ | .signalNext => 4
  | _ => 0

/-- A step lowers what is left by more than it gives, wherever the turn does not matter. -/
theorem left_succ (pc : Pc) (b b' : Bool) (hne : pc ≠ .choosing) (hasleep : pc.asleep = false)
    (htest : pc ≠ .testTurn) (hself : pc ≠ .signalSelf) :
    ∀ pc' ∈ pc.succ, pc'.left b' + pc.bell < pc.left b := by
  cases pc with
  | choosing => exact absurd rfl hne
  | testTurn => exact absurd rfl htest
  | signalSelf => exact absurd rfl hself
  | sleepFront | sleepTurn => cases hasleep
  | acquire i | release i | lockScan i | scan i | signalHead i | unlockScan i =>
    cases i <;> cases b <;> cases b' <;> decide
  | _ => cases b <;> cases b' <;> decide

/-- A route that is claimed already takes nobody further from home. -/
theorem left_claimed_le (pc : Pc) (b : Bool) : pc.left false ≤ pc.left b := by
  cases pc with
  | testTurn => cases b <;> decide
  | _ => exact Nat.le_refl _

theorem left_le (pc : Pc) (b : Bool) : pc.left b ≤ 63 := by
  cases pc with
  | acquire i | release i | lockScan i | scan i | signalHead i | unlockScan i =>
    cases i <;> cases b <;> decide
  | _ => cases b <;> decide

end Pc

variable {C : Type}

/-- A signal that is not used yet. -/
def State.bell (s : State C) (g : C) : Nat := if s.signalled g then 4 else 0

def State.load (s : State C) (g : C) : Nat := (s.pc g).left (s.turn g).wanted + s.bell g

section Steps

variable [DecidableEq C] {s s' : State C} {g : C}

theorem signal_bell (s : State C) (h g : C) :
    (s.signal h).bell g ≤ s.bell g + (if g = h then 4 else 0) := by
  unfold State.signal
  split
  · unfold State.bell
    by_cases hg : g = h
    · rw [if_pos hg]
      split <;> split <;> omega
    · simp only [Function.update_of_ne hg, if_neg hg, Nat.add_zero, Nat.le_refl]
  · exact Nat.le_add_right ..

theorem signal_awake (s : State C) (h : C) (hawake : (s.pc g).asleep = false) :
    (s.signal h).bell g = s.bell g := by
  unfold State.signal
  split
  · next hasleep =>
    have hg : g ≠ h := by
      rintro rfl
      cases hawake.symm.trans hasleep
    simp only [State.bell, Function.update_of_ne hg]
  · rfl

/-- A signal to the head of a queue is given to one car, which is asleep. -/
theorem signalQueue_bell [Fintype C] (s : State C) (i : Direction) :
    ∃ given : C → Nat, ∑ g, given g ≤ 4 ∧
      (∀ g, (s.signalQueue i).bell g ≤ s.bell g + given g) ∧
      ∀ g, (s.pc g).asleep = false → (s.signalQueue i).bell g = s.bell g := by
  unfold State.signalQueue
  cases s.queue i with
  | none => exact ⟨fun _ => 0, by simp, fun g => Nat.le_refl _, fun g _ => rfl⟩
  | some h =>
    refine ⟨fun g => if g = h then 4 else 0, ?_, signal_bell s h, fun g => signal_awake s h⟩
    rw [Finset.sum_ite_eq' Finset.univ h fun _ => 4, if_pos (Finset.mem_univ h)]

variable [Fintype C] {c : Setup C} {l : Label C} {q : Direction → List C} {place : Pc}
  {line : Option (Line C)}

/-- The steps of others take no car further from its goal. -/
theorem Traffic.left_other (hl : Lined s q) (ht : Traffic c s) (hplace : s.pc l.who = place)
    (hact : act c l s place = some (line, s')) (hg : g ≠ l.who) :
    (s'.pc g).left (s'.turn g).wanted ≤ (s.pc g).left (s.turn g).wanted := by
  obtain ⟨hf, -⟩ := act_frame hact
  rw [hf.others g hg]
  cases hturn : s'.turn g with
  | want way =>
    rw [ht.want_of_step hl hplace hact hg hturn]
  | _ => exact Pc.left_claimed_le ..

/-- A step at a place where nobody is signalled. -/
theorem Traffic.load_plain (hl : Lined s q) (ht : Traffic c s) (hplace : s.pc l.who = place)
    (hact : act c l s place = some (line, s')) (hsig : s'.signalled = s.signalled)
    (hlt : (s'.pc l.who).left (s'.turn l.who).wanted < place.left (s.turn l.who).wanted) :
    ∃ given : C → Nat, (∀ g, g ≠ l.who → s'.load g ≤ s.load g + given g) ∧
      s'.load l.who + ∑ g, given g < s.load l.who := by
  have hbell : ∀ g, s'.bell g = s.bell g := fun g => by rw [State.bell, hsig, State.bell]
  refine ⟨fun _ => 0, ?_, ?_⟩
  · intro g hg
    have hleft := ht.left_other hl hplace hact hg
    rw [State.load, State.load, hbell g]
    omega
  · rw [Finset.sum_const_zero, State.load, State.load, hbell, hplace]
    omega

/-- A step on the way home, woken by a signal at the most, is paid for. -/
theorem Traffic.act_load (hl : Lined s q) (ht : Traffic c s) (hplace : s.pc l.who = place)
    (hact : act c l s place = some (line, s')) (hne : place ≠ .choosing)
    (hwoken : l.spurious = false) :
    ∃ given : C → Nat, (∀ g, g ≠ l.who → s'.load g ≤ s.load g + given g) ∧
      s'.load l.who + ∑ g, given g < s.load l.who := by
  obtain ⟨hf, -⟩ := act_frame hact
  have hsucc := hf.succ
  -- what a wake-up costs is in the signal that is used up
  have hwake : ∀ pc, (s.wake l.who l.spurious pc).map ((none : Option (Line C)), ·) =
      some (line, s') → pc.left (s.turn l.who).wanted < place.left (s.turn l.who).wanted + 4 →
      ∃ given : C → Nat, (∀ g, g ≠ l.who → s'.load g ≤ s.load g + given g) ∧
        s'.load l.who + ∑ g, given g < s.load l.who := by
    intro pc hmap hlt
    obtain ⟨s₁, h₁, heq⟩ := Option.map_eq_some_iff.mp hmap
    cases heq
    unfold State.wake at h₁
    rw [hwoken, Bool.or_false] at h₁
    split at h₁
    · next hsig =>
      cases h₁
      refine ⟨fun _ => 0, ?_, ?_⟩
      · intro g hg
        have hleft := ht.left_other hl hplace hact hg
        simp only [State.load, State.bell, State.goto, Function.update_of_ne hg, Nat.add_zero,
          Nat.le_refl]
      · simp only [State.load, State.bell, goto_pc_self, hsig, hplace, Finset.sum_const_zero]
        simpa [State.goto] using hlt
    · cases h₁
  -- a signal to the head of a queue is paid by the car that sends it
  have hring : ∀ i pc, place.bell = 4 → place.asleep = false → place ≠ .testTurn →
      place ≠ .signalSelf → s' = (s.signalQueue i).goto l.who pc →
      ∃ given : C → Nat, (∀ g, g ≠ l.who → s'.load g ≤ s.load g + given g) ∧
        s'.load l.who + ∑ g, given g < s.load l.who := by
    intro i pc hbell hawake htest hself heq
    obtain ⟨given, hsum, hle, hsame⟩ := signalQueue_bell s i
    refine ⟨given, ?_, ?_⟩
    · intro g hg
      have hleft := ht.left_other hl hplace hact hg
      have hg' : s'.bell g ≤ s.bell g + given g := by
        rw [heq]
        exact hle g
      rw [State.load, State.load]
      omega
    · have hlt := Pc.left_succ place (s.turn l.who).wanted (s'.turn l.who).wanted hne hawake htest
        hself _ hsucc
      have hw : s'.bell l.who = s.bell l.who := by
        rw [heq]
        exact hsame l.who (by rw [hplace]; exact hawake)
      rw [State.load, State.load, hw, hplace]
      omega
  cases place with
  | choosing => exact absurd rfl hne
  | sleepFront => exact hwake .lockFront hact (Nat.lt_succ_self 60)
  | sleepTurn => exact hwake .lockCross hact (Nat.lt_succ_self 57)
  | signalHead i =>
    cases hact
    exact hring i _ rfl rfl (by simp) (by simp) rfl
  | signalNext =>
    cases hact
    exact hring (s.qid l.who) _ rfl rfl (by simp) (by simp) rfl
  | signalSelf =>
    have hawake : s.signal l.who = s := by
      rw [State.signal, hplace]
      rfl
    have hallows := ht.turns l.who
    rw [hplace] at hallows
    refine ht.load_plain hl hplace hact ?_ ?_
    · cases hact
      rw [hawake]
      rfl
    · cases hact
      rw [hawake, goto_pc_self]
      cases hturn : s.turn l.who with
      | turning way =>
        simp only [State.goto, hturn]
        exact Nat.lt_succ_self 54
      | _ =>
        rw [hturn] at hallows
        cases hallows
  | testTurn =>
    refine ht.load_plain hl hplace hact (hf.signalled rfl) ?_
    rcases act_testTurn ht hplace hact with
      ⟨way, hway, -, -, rfl⟩ | ⟨way, hway, -, -, rfl⟩ | ⟨way, hway, -, rfl⟩
    · rw [goto_pc_self, hway]
      exact Nat.lt_succ_self 55
    · rw [goto_pc_self, hway]
      exact Nat.lt_succ_self 55
    · rw [goto_pc_self, hway]
      exact Nat.lt_succ_self 53
  | _ =>
    refine ht.load_plain hl hplace hact (hf.signalled rfl) ?_
    exact Nat.lt_of_le_of_lt (Nat.le_add_right _ _)
      (Pc.left_succ _ _ _ hne rfl (by simp) (by simp) _ hsucc)

end Steps

/-! ## An empty intersection -/

section Home

variable {c : Setup C} {s : State C} {q : Direction → List C}

/-- Nobody is on the way, and nothing is left behind. -/
structure Empty (s : State C) : Prop where
  pc : ∀ g, s.pc g = .choosing
  queue : ∀ i, s.queue i = none
  quadrant : ∀ k, s.quadrant k = -1
  lock : ∀ m, s.lock m = none

theorem Traffic.empty (ht : Traffic c s) (hl : Lined s q) (hhome : ∀ g, s.pc g = .choosing) :
    Empty s := by
  refine ⟨hhome, ?_, ?_, ?_⟩
  · intro i
    cases hq : s.queue i with
    | none => rfl
    | some g =>
      have hqueued := (hl.head hq).1
      rw [hhome g] at hqueued
      cases hqueued
  · intro k
    rcases ht.owned k with hfree | ⟨g, hg⟩
    · exact hfree
    · exact absurd hg (ht.unclaimed (ht.not_turning (by rw [hhome g]; rfl)))
  · intro m
    refine ht.locks.free_iff.mpr fun g hg => ?_
    cases m with
    | quadrantLock k =>
      have htook := hg.1
      rw [hhome g] at htook
      cases htook
    | _ =>
      rw [Holds, hhome g] at hg
      · cases hg
      · simp

end Home

/-! ## The whole run -/

/-- A step of a car on its way, which wakes up only if it was signalled. -/
def Homeward (l : Label C) (s : State C) : Prop := s.pc l.who ≠ .choosing ∧ l.spurious = false

instance instDecidableHomeward (l : Label C) (s : State C) : Decidable (Homeward l s) :=
  inferInstanceAs (Decidable (s.pc l.who ≠ .choosing ∧ l.spurious = false))

section Runs

variable [DecidableEq C] [Fintype C] (c : Setup C)

def Reachable (s : State C) : Prop := ∃ ls tr, steps c ls = some (tr, s)

theorem homeward_step (s : State C) (l : Label C) (a : Answer C) (s' : State C)
    (hreach : Reachable c s) (hhome : Homeward l s) (hs : step c l s = some (a, s')) :
    Reachable c s' ∧ ∑ g, s'.load g < ∑ g, s.load g := by
  obtain ⟨ls, tr, hrun⟩ := hreach
  refine ⟨⟨ls ++ [l], _, run_snoc hrun hs⟩, ?_⟩
  obtain ⟨q, hl⟩ := steps_lined c ls tr s hrun
  obtain ⟨-, hact⟩ := step_inv hs
  obtain ⟨given, hothers, hself⟩ :=
    (steps_traffic c ls tr s hrun).act_load hl rfl hact hhome.1 hhome.2
  exact sum_lt_of_paid hothers hself

omit [DecidableEq C] in
theorem sum_load_le (s : State C) : ∑ g, s.load g ≤ 67 * Fintype.card C := by
  have hload : ∀ g, s.load g ≤ 67 := by
    intro g
    have hleft := Pc.left_le (s.pc g) (s.turn g).wanted
    unfold State.load State.bell
    split <;> omega
  calc ∑ g, s.load g ≤ ∑ _g : C, 67 := Finset.sum_le_sum fun g _ => hload g
    _ = 67 * Fintype.card C := by
      rw [Finset.sum_const_nat fun _ _ => rfl, Finset.card_univ, Nat.mul_comm]

/-- From every reachable state, and under every schedule: as long as no car sets out again
and nobody wakes up without a signal, at most 67 steps per car are taken; and when they are
taken, or before, all cars are home and nothing is left behind, for until then some car on
its way can move. -/
theorem intersection_runs_empty (ls : List (Label C)) (tr : History C) (s : State C)
    (hrun : steps c ls = some (tr, s)) (ms : List (Label C)) (tr' : History C) (s' : State C)
    (hms : run (step c) ms s = some (tr', s')) (hhome : Guarded (step c) Homeward ms s) :
    ms.length ≤ 67 * Fintype.card C ∧
      (Empty s' ∨ ∃ g, s'.pc g ≠ .choosing ∧
        ∀ l : Label C, l.who = g → ∃ a s'', step c l s' = some (a, s'')) := by
  obtain ⟨⟨ls', tr'', hrun'⟩, hlen⟩ := run_length_le (I := Reachable c)
    (μ := fun s => ∑ g, s.load g) ⟨ls, tr, hrun⟩ (homeward_step c) ms tr' s' hms hhome
  have hle := sum_load_le s
  refine ⟨by omega, ?_⟩
  obtain ⟨q, hl⟩ := steps_lined c ls' tr'' s' hrun'
  have ht := steps_traffic c ls' tr'' s' hrun'
  by_cases hall : ∀ g, s'.pc g = .choosing
  · exact .inl (ht.empty hl hall)
  · obtain ⟨g₀, hg₀⟩ := not_forall.mp hall
    obtain ⟨g, hg, hfree⟩ := exists_mover hl ht (steps_awaited c ls' tr'' s' hrun')
      (steps_signals c ls' tr'' s' hrun') hg₀
    refine .inr ⟨g, hg, ?_⟩
    rintro l rfl
    obtain ⟨⟨line, s''⟩, hact⟩ := act_of_not_blocked hl hfree
    exact ⟨⟨s'.pc l.who, line⟩, s'', by rw [step, hact]; rfl⟩

end Runs

/-- The first car drives home, and then the second one, which it has woken. -/
def driveHome : List (Label Bool) :=
  List.replicate 24 ⟨false, .north, .straight, false⟩ ++
    List.replicate 31 ⟨true, .north, .straight, false⟩

theorem intersection_runs_empty_second : ∃ tr s tr' s',
    steps twoCars secondWaits = some (tr, s) ∧ s.pc true = .sleepTurn ∧
    run (step twoCars) driveHome s = some (tr', s') ∧ driveHome.length ≤ 67 * 2 ∧ Empty s' := by
  have heval : ((steps twoCars secondWaits).bind fun x =>
      (run (step twoCars) driveHome x.2).map fun y => decide (x.2.pc true = .sleepTurn ∧
        guardedEval (step twoCars) (fun l s => decide (Homeward l s)) driveHome x.2 = true ∧
        ∀ g, y.2.pc g = .choosing)) = some true := by
    decide +kernel
  obtain ⟨⟨tr, s⟩, hrun, h⟩ := Option.bind_eq_some_iff.mp heval
  obtain ⟨⟨tr', s'⟩, hms, h⟩ := Option.map_eq_some_iff.mp h
  obtain ⟨hsleeps, hguard, hall⟩ := of_decide_eq_true h
  obtain ⟨hlen, hempty | ⟨g, hg, -⟩⟩ := intersection_runs_empty twoCars secondWaits tr s hrun
    driveHome tr' s' hms (Guarded.of_eval hguard)
  · exact ⟨tr, s, tr', s', hrun, hsleeps, hms, hlen, hempty⟩
  · exact absurd (hall g) hg

/-! ## But not while others keep coming

The head of a queue claims its whole route at once, and so it can be overtaken without
end by cars that take turns in keeping a part of it. -/

theorem Direction.mem_all (d : Direction) :
    d ∈ [Direction.north, Direction.south, Direction.east, Direction.west] := by
  cases d <;> decide

theorem Quadrant.mem_all (k : Quadrant) :
    k ∈ [Quadrant.nw, Quadrant.ne, Quadrant.sw, Quadrant.se] := by
  cases k <;> decide

instance instFintypeDirection : Fintype Direction := Fintype.ofList _ Direction.mem_all

instance instFintypeQuadrant : Fintype Quadrant := Fintype.ofList _ Quadrant.mem_all

/-- Equality of states, tested place by place. -/
def State.Same (s s' : State C) : Prop :=
  (∀ g, s.turn g = s'.turn g ∧ s.next g = s'.next g ∧ s.signalled g = s'.signalled g ∧
    s.pc g = s'.pc g ∧ s.qid g = s'.qid g) ∧
  (∀ i, s.queue i = s'.queue i ∧ s.lock (.queueLock i) = s'.lock (.queueLock i)) ∧
  (∀ k, s.quadrant k = s'.quadrant k ∧ s.lock (.quadrantLock k) = s'.lock (.quadrantLock k)) ∧
  s.lock .intersectionLock = s'.lock .intersectionLock

theorem State.Same.eq {s s' : State C} (h : s.Same s') : s = s' := by
  obtain ⟨hcars, hqueues, hquads, hcross⟩ := h
  cases s with
  | mk turn next signalled pc qid queue quadrant lock =>
    cases s' with
    | mk turn' next' signalled' pc' qid' queue' quadrant' lock' =>
      have hlock : lock = lock' := by
        funext m
        cases m with
        | intersectionLock => exact hcross
        | queueLock i => exact (hqueues i).2
        | quadrantLock k => exact (hquads k).2
      rw [State.mk.injEq]
      exact ⟨funext fun g => (hcars g).1, funext fun g => (hcars g).2.1,
        funext fun g => (hcars g).2.2.1, funext fun g => (hcars g).2.2.2.1,
        funext fun g => (hcars g).2.2.2.2, funext fun i => (hqueues i).1,
        funext fun k => (hquads k).1, hlock⟩

instance instDecidableSame [DecidableEq C] [Fintype C] (s s' : State C) : Decidable (s.Same s') :=
  inferInstanceAs (Decidable (_ ∧ _ ∧ _ ∧ _))

/-- How many cars have left the intersection. -/
def departures (tr : History C) : Nat :=
  tr.countP fun x => match x.2.line with
    | some (.left _) => true
    | _ => false

theorem departures_repeat (n : Nat) (tr : History C) :
    departures (List.replicate n tr).flatten = n * departures tr := by
  rw [departures, List.countP_flatten, List.map_replicate, List.sum_replicate_nat]
  rfl

/-- Three cars, with `cid` 0, 1 and 2. -/
def waiting : Option Bool := none

def fromWest : Option Bool := some false

def fromSouth : Option Bool := some true

def threeCars : Setup (Option Bool) where
  cid car := match car with
    | none => 0
    | some false => 1
    | some true => 2
  nonneg := by decide
  distinct := by decide

/-- While one crosses the other leaves, comes back and enters. -/
def takingTurns : List (Label (Option Bool)) :=
  drivesIn fromSouth .south .right ++ List.replicate 24 ⟨fromWest, .west, .right, false⟩ ++
    (drivesIn fromWest .west .right ++ List.replicate 24 ⟨fromSouth, .south, .right, false⟩)

/-- The first car wants to turn left when they have started. -/
def leftTurner : List (Label (Option Bool)) :=
  drivesIn fromWest .west .right ++ List.replicate 10 ⟨waiting, .north, .left, false⟩ ++ takingTurns

/-- The head of a queue may be overtaken any number of times: it sleeps, the others leave
the intersection as often as one likes, and it sleeps still, without a signal. -/
theorem head_overtaken (n : Nat) : ∃ ls tr s ms tr' s', steps threeCars ls = some (tr, s) ∧
    s.queue .north = some waiting ∧ s.pc waiting = .sleepTurn ∧
    run (step threeCars) ms s = some (tr', s') ∧
    (∀ l ∈ ms, l.who ≠ waiting ∧ l.spurious = false) ∧ n ≤ departures tr' ∧
    s'.pc waiting = .sleepTurn ∧ s'.signalled waiting = false := by
  have heval : ((steps threeCars leftTurner).bind fun x =>
      (run (step threeCars) takingTurns x.2).map fun y => decide (y.2.Same x.2 ∧
        x.2.queue .north = some waiting ∧ x.2.pc waiting = .sleepTurn ∧
        x.2.signalled waiting = false ∧ departures y.1 = 2)) = some true := by
    decide +kernel
  obtain ⟨⟨tr, s⟩, hrun, h⟩ := Option.bind_eq_some_iff.mp heval
  obtain ⟨⟨tr', s'⟩, hms, h⟩ := Option.map_eq_some_iff.mp h
  obtain ⟨hsame, hhead, hsleeps, hquiet, hcount⟩ := of_decide_eq_true h
  cases hsame.eq
  refine ⟨leftTurner, tr, s, _, _, s, hrun, hhead, hsleeps, run_repeat hms n, ?_, ?_, hsleeps,
    hquiet⟩
  · intro l hl
    obtain ⟨w, hw, hl⟩ := List.mem_flatten.mp hl
    rw [List.eq_of_mem_replicate hw] at hl
    have hothers : ∀ l ∈ takingTurns, l.who ≠ waiting ∧ l.spurious = false := by decide
    exact hothers l hl
  · rw [departures_repeat, hcount]
    omega

end OsProjects.Drivers
