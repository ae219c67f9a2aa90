import OsProjects.Drivers.Traffic

/-!
# Sleeping at the intersection

A car that finds its route taken sleeps until some leaving car lets it in. `Awaited` says
why none is forgotten: as long as it wants to enter, its route is not free, or somebody
is leaving and will still look at its queue, whose head it is.
-/

namespace OsProjects.Drivers

open OsProjects.Lib

/-- The position in `0..3`. -/
def Direction.index : Direction → Nat
  | .north => 0
  | .south => 1
  | .east => 2
  | .west => 3

namespace Pc

/-- In the `pthread_cond_wait` of `car_main`, not yet woken. -/
def waitsTurn : Pc → Bool
  | .waitTurn | .sleepTurn => true
  | _ => false

/-- Giving back, with the attempt for the head of queue `d` still to come. -/
def willScan : Pc → Direction → Bool
  | .release _, _ | .stopping, _ => true
  | .lockScan i, d | .scan i, d => i.index ≤ d.index
  | .signalHead i, d | .unlockScan i, d => i.index < d.index
  | _, _ => false

/-- Not yet at the `leave_intersection` of this trip. -/
def beforeLeave : Pc → Bool
  | .departing | .release _ | .stopping | .lockScan _ | .scan _ | .signalHead _ | .unlockScan _
  | .unlockLeave | .lockDequeue | .dequeueing | .signalNext | .unlockDequeue => false
  | _ => true

theorem willScan_succ (pc : Pc) (d : Direction) : ∀ pc' ∈ pc.succ, pc.willScan d = true →
    pc'.willScan d = true ∨ pc = .scan d := by
  cases pc with
  | acquire i | release i => cases i <;> cases d <;> decide
  | lockScan i | scan i | signalHead i | unlockScan i => cases i <;> cases d <;> decide
  | _ => cases d <;> decide

theorem willScan_release (i : Quadrant) (d : Direction) :
    ∀ pc' ∈ (release i).succ, pc'.willScan d = true := by
  cases i <;> cases d <;> decide

theorem waitsTurn_succ (pc : Pc) : ∀ pc' ∈ pc.succ, pc'.waitsTurn = true →
    pc = .testTurn ∨ pc = .waitTurn := by
  cases pc with
  | acquire i | release i | lockScan i | scan i | signalHead i | unlockScan i =>
    cases i <;> decide
  | _ => decide

theorem atFront_of_waitsTurn (pc : Pc) (h : pc.waitsTurn = true) : pc.atFront = true := by
  cases pc <;> first | rfl | cases h

/-- Who is scanning is in the intersection's critical section. -/
theorem cross_of_willScan (pc : Pc) (qid d : Direction) (h : pc.willScan d = true) :
    .intersectionLock ∈ pc.held qid := by
  cases pc <;> first | exact List.mem_cons_self | cases h

/-- Outside the intersection's critical section, who crosses has not left. -/
theorem beforeLeave_of_crosses (pc : Pc) (qid : Direction) (h : pc.crosses = true)
    (hout : .intersectionLock ∉ pc.held qid) : pc.beforeLeave = true := by
  cases pc <;> first | rfl | exact absurd List.mem_cons_self hout | cases h

end Pc

variable {C : Type}

/-- Who waits in the loop of `car_main` is obstructed, or will be looked at. -/
def Awaited (s : State C) : Prop :=
  ∀ g way, (s.pc g).waitsTurn = true → s.turn g = .want way →
    ¬ Free s (s.qid g) way ∨ ∃ h, (s.pc h).willScan (s.qid g) = true

theorem init_awaited : Awaited (init : State C) := nofun

section Steps

variable [DecidableEq C] [Fintype C] {c : Setup C} {l : Label C} {s s' : State C}
  {q : Direction → List C} {place : Pc} {line : Option (Line C)} {g : C} {way : Way}

/-- A route that is not free stays so, unless somebody is giving back. -/
theorem Traffic.obstructed_step (hl : Lined s q) (ht : Traffic c s)
    (hplace : s.pc l.who = place) (hact : act c l s place = some (line, s')) {d : Direction}
    (hnot : ¬ Free s d way) :
    ¬ Free s' d way ∨ (s'.pc l.who).willScan d = true := by
  obtain ⟨hf, -⟩ := act_frame hact
  have hsame : s'.quadrant = s.quadrant → ¬ Free s' d way := by
    intro hquad hfree
    exact hnot fun k hk => hquad ▸ hfree k hk
  cases act_effect hl ht hplace hact with
  | drawn _ hquad | stopped _ hquad | none _ _ _ _ _ hquad => exact .inl (hsame hquad)
  | granted g₀ _ _ _ _ _ _ hquad =>
    refine .inl fun hfree => hnot fun k hk => ?_
    have hk' := hfree k hk
    rw [hquad, claimed] at hk'
    split at hk'
    · exact absurd hk' (c.cid_ne g₀)
    · exact hk'
  | gave i => exact .inr (Pc.willScan_release i d _ hf.succ)

/-- Only a car itself decides where it wants to go. -/
theorem Traffic.want_of_step (hl : Lined s q) (ht : Traffic c s) (hplace : s.pc l.who = place)
    (hact : act c l s place = some (line, s')) (hg : g ≠ l.who) (hway : s'.turn g = .want way) :
    s.turn g = .want way := by
  cases act_effect hl ht hplace hact with
  | drawn hturn | stopped hturn => rwa [hturn, Function.update_of_ne hg] at hway
  | gave _ _ hturn | none _ _ _ _ hturn => rwa [hturn] at hway
  | granted g₀ _ _ _ _ _ hturn =>
    by_cases hgg : g = g₀
    · subst hgg
      rw [hturn, Function.update_self] at hway
      cases hway
    · rwa [hturn, Function.update_of_ne hgg] at hway

/-- The scan of a queue finds a waiting car, which is the head, obstructed. -/
theorem Traffic.scan_spec (hl : Lined s q) (ht : Traffic c s)
    (hact : act c l s (.scan (s.qid g)) = some (line, s')) (hwaits : (s.pc g).waitsTurn = true)
    (hway : s.turn g = .want way) (hstill : s'.turn g = .want way) :
    ¬ Free s' (s.qid g) way := by
  have hhead := hl.front g (Pc.atFront_of_waitsTurn _ hwaits)
  rcases act_scan hl ht hact with
    ⟨-, rfl, hno⟩ | ⟨h, way', hh, hturn, -⟩ | ⟨h, way', hh, -, -, -, -, rfl⟩
  · rcases hno g hhead with hturn | ⟨way', hturn, hnot⟩
    · cases hway.symm.trans hturn
    · cases hway.symm.trans hturn
      exact hnot
  · cases hhead.symm.trans hh
    cases hway.symm.trans hturn
  · cases hhead.symm.trans hh
    cases (Function.update_self ..).symm.trans hstill

theorem Awaited.step {a : Answer C} (hw : Awaited s) (hl : Lined s q) (ht : Traffic c s)
    (hs : Drivers.step c l s = some (a, s')) : Awaited s' := by
  obtain ⟨-, hact⟩ := step_inv hs
  generalize a.line = line at hact
  obtain ⟨hf, -⟩ := act_frame hact
  intro g way hwaits hway
  by_cases hg : g = l.who
  · subst hg
    -- the car itself: its attempt has just failed, or it falls asleep
    rcases Pc.waitsTurn_succ _ _ hf.succ hwaits with hplace | hplace
    · rw [hplace] at hact
      rcases act_testTurn ht hplace hact with
        ⟨way', -, -, -, rfl⟩ | ⟨way', hway', hnot, -, rfl⟩ | ⟨way', -, -, rfl⟩
      · rw [goto_pc_self] at hwaits
        cases hwaits
      · cases hway.symm.trans hway'
        exact .inl hnot
      · rw [goto_pc_self] at hwaits
        cases hwaits
    · rw [hplace] at hact
      cases hact
      rcases hw l.who way (by rw [hplace]; rfl) hway with hnot | ⟨h, hscan⟩
      · exact .inl hnot
      · have hh : h ≠ l.who := by
          rintro rfl
          rw [hplace] at hscan
          cases hscan
        exact .inr ⟨h, by rw [hf.others h hh]; exact hscan⟩
  · have hqid : s'.qid g = s.qid g := act_qid hact (.inl hg)
    have hold := ht.want_of_step hl rfl hact hg hway
    rw [hf.others g hg] at hwaits
    rw [hqid]
    rcases hw g way hwaits hold with hnot | ⟨h, hscan⟩
    · exact (ht.obstructed_step hl rfl hact hnot).imp_right fun hscan => ⟨l.who, hscan⟩
    · by_cases hh : h = l.who
      · subst hh
        rcases Pc.willScan_succ _ _ _ hf.succ hscan with hscan' | hplace
        · exact .inr ⟨l.who, hscan'⟩
        · rw [hplace] at hact
          exact .inl (ht.scan_spec hl hact hwaits hold hway)
      · exact .inr ⟨h, by rw [hf.others h hh]; exact hscan⟩

theorem steps_awaited (c : Setup C) : ∀ ls tr s, steps c ls = some (tr, s) → Awaited s := by
  refine run_rule_with (P := fun _ s => (∃ q, Lined s q) ∧ Traffic c s) (Q := fun _ s => Awaited s)
    (fun ls tr s hrun => ⟨steps_lined c ls tr s hrun, steps_traffic c ls tr s hrun⟩)
    init_awaited ?_
  rintro tr s l a s' ⟨⟨q, hl⟩, ht⟩ hw hs
  exact hw.step hl ht hs

omit [DecidableEq C] [Fintype C] in
/-- An obstacle is a car that is crossing. -/
theorem Traffic.obstacle (ht : Traffic c s) {d : Direction} (hnot : ¬ Free s d way) :
    ∃ k ∈ route d way, ∃ h, s.quadrant k = c.cid h ∧ ∃ way', s.turn h = .turning way' := by
  unfold Free at hnot
  push Not at hnot
  obtain ⟨k, hk, hne⟩ := hnot
  obtain ⟨h, hown⟩ := (ht.owned k).resolve_left hne
  obtain ⟨-, way', hway', -⟩ := (ht.claims h k).mp hown
  exact ⟨k, hk, h, hown, way', hway'⟩

/-- While `intersectionLock` is free, who sleeps in `car_main` and still wants to enter is
kept out by another car that is crossing and has not left. -/
theorem no_lost_wakeup (c : Setup C) (ls : List (Label C)) (tr : History C) (s : State C)
    (hrun : steps c ls = some (tr, s)) (hfree : s.lock .intersectionLock = none) (g : C)
    (way : Way) (hsleeps : s.pc g = .sleepTurn) (hway : s.turn g = .want way) :
    (∃ k ∈ route (s.qid g) way, ∃ h, h ≠ g ∧ s.quadrant k = c.cid h ∧
      (∃ way', s.turn h = .turning way') ∧ (s.pc h).beforeLeave = true) ∧
    ¬ Free s (s.qid g) way := by
  have ht := steps_traffic c ls tr s hrun
  have hw := steps_awaited c ls tr s hrun
  have hout : ∀ h, .intersectionLock ∉ (s.pc h).held (s.qid h) := ht.locks.free_iff.mp hfree
  have hnot : ¬ Free s (s.qid g) way := by
    refine (hw g way (by rw [hsleeps]; rfl) hway).resolve_right ?_
    rintro ⟨h, hscan⟩
    exact hout h (Pc.cross_of_willScan _ _ _ hscan)
  refine ⟨?_, hnot⟩
  obtain ⟨k, hk, h, hown, way', hway'⟩ := ht.obstacle hnot
  refine ⟨k, hk, h, ?_, hown, ⟨way', hway'⟩, ?_⟩
  · rintro rfl
    cases hway.symm.trans hway'
  · have hcrosses := ht.turns h
    rw [hway'] at hcrosses
    exact Pc.beforeLeave_of_crosses _ _ hcrosses (hout h)

/-- The second car comes from the west while the first crosses from the north. -/
def secondWaits : List (Label Bool) :=
  drivesIn false .north .straight ++ List.replicate 10 ⟨true, .west, .straight, false⟩

theorem no_lost_wakeup_second : ∃ tr s, steps twoCars secondWaits = some (tr, s) ∧
    s.pc true = .sleepTurn ∧ s.turn true = .want .straight ∧
    ∃ k ∈ route .west .straight, ∃ h, h ≠ true ∧ s.quadrant k = twoCars.cid h ∧
      (∃ way', s.turn h = .turning way') ∧ (s.pc h).beforeLeave = true := by
  have heval : (steps twoCars secondWaits).map (fun x => decide (
      x.2.lock .intersectionLock = none ∧ x.2.pc true = .sleepTurn ∧
      x.2.turn true = .want .straight ∧ x.2.qid true = .west)) = some true := by
    decide +kernel
  obtain ⟨⟨tr, s⟩, hrun, h⟩ := Option.map_eq_some_iff.mp heval
  obtain ⟨hfree, hsleeps, hway, hwest⟩ := of_decide_eq_true h
  have hblocked := (no_lost_wakeup twoCars secondWaits tr s hrun hfree true .straight
    hsleeps hway).1
  rw [hwest] at hblocked
  exact ⟨tr, s, hrun, hsleeps, hway, hblocked⟩

end Steps

end OsProjects.Drivers
