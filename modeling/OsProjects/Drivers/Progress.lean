import OsProjects.Drivers.Wakeups

/-!
# Somebody can always move

A car is blocked at a mutex that somebody holds, or asleep without a signal; otherwise it
has a step, whatever it draws. As long as a car is on its way, not all of those are blocked
(`exists_mover`): a holder of a queue's mutex is never blocked, hence neither is a holder of
`intersectionLock`, and if all of them slept, the head of some queue would sleep for a car
that is crossing, and for that one a signal is under way (`Signals`).
-/

namespace OsProjects.Drivers

open OsProjects.Lib

namespace Pc

/-- How a thread gets to sleep. -/
theorem sleep_pred (pc : Pc) : ∀ pc' ∈ pc.succ, (pc' = .waitFront → pc = .testFront) ∧
    (pc' = .sleepFront → pc = .waitFront) ∧ (pc' = .sleepTurn → pc = .waitTurn) := by
  cases pc with
  | acquire i | release i | lockScan i | scan i | signalHead i | unlockScan i =>
    cases i <;> decide
  | _ => decide

end Pc

variable {C : Type}

/-- At a mutex that is held, or asleep without a signal. -/
def Blocked (c : Setup C) (s : State C) (g : C) : Prop :=
  (∃ m, taken c s g (s.pc g) = some m ∧ s.lock m ≠ none) ∨
    (s.pc g).asleep = true ∧ s.signalled g = false

/-- Who is at the front, or may cross, is awake or will be woken. -/
structure Signals (s : State C) : Prop where
  behind : ∀ g, s.pc g = .waitFront → s.queue (s.qid g) ≠ some g
  front : ∀ g, s.pc g = .sleepFront → s.queue (s.qid g) = some g →
    s.signalled g = true ∨ ∃ h, s.pc h = .signalNext ∧ s.qid h = s.qid g
  turn : ∀ g way, s.pc g = .sleepTurn → s.turn g = .turning way →
    s.signalled g = true ∨ ∃ h, s.pc h = .signalHead (s.qid g)

theorem init_signals : Signals (init : State C) := ⟨nofun, nofun, nofun⟩

section Steps

variable [DecidableEq C] {s s' : State C} {g : C}

theorem signal_signalled (s : State C) (h : C) (hg : s.signalled g = true) :
    (s.signal h).signalled g = true := by
  unfold State.signal
  split
  · by_cases hh : g = h
    · rw [hh]
      exact Function.update_self ..
    · exact (Function.update_of_ne hh ..).trans hg
  · exact hg

/-- A signal reaches a car that is asleep. -/
theorem signal_asleep (hg : (s.pc g).asleep = true) : (s.signal g).signalled g = true := by
  unfold State.signal
  rw [if_pos hg]
  exact Function.update_self ..

theorem signalQueue_signalled (s : State C) (i : Direction) (hg : s.signalled g = true) :
    (s.signalQueue i).signalled g = true := by
  unfold State.signalQueue
  cases s.queue i with
  | none => exact hg
  | some h => exact signal_signalled s h hg

theorem signalQueue_head {i : Direction} (hhead : s.queue i = some g)
    (hg : (s.pc g).asleep = true) : (s.signalQueue i).signalled g = true := by
  unfold State.signalQueue
  rw [hhead]
  exact signal_asleep hg

variable [Fintype C] {c : Setup C} {l : Label C} {q : Direction → List C} {place : Pc}
  {line : Option (Line C)} {way : Way}

/-- A signal is there until its car wakes up. -/
theorem act_signalled (hact : act c l s place = some (line, s')) (hg : g ≠ l.who)
    (hsig : s.signalled g = true) : s'.signalled g = true := by
  obtain ⟨hf, -⟩ := act_frame hact
  cases hed : place.editsSignal with
  | false => rwa [hf.signalled hed]
  | true =>
    cases place with
    | sleepFront | sleepTurn =>
      obtain ⟨s₁, h₁, heq⟩ := Option.map_eq_some_iff.mp hact
      cases heq
      unfold State.wake at h₁
      split at h₁
      · cases h₁
        exact (Function.update_of_ne hg ..).trans hsig
      · cases h₁
    | signalSelf =>
      cases hact
      exact signal_signalled s l.who hsig
    | signalHead i =>
      cases hact
      exact signalQueue_signalled s i hsig
    | signalNext =>
      cases hact
      exact signalQueue_signalled s (s.qid l.who) hsig
    | _ => cases hed

/-- A car becomes the head of its queue when the one before it leaves. -/
theorem Lined.new_head (hl : Lined s q) (hplace : s.pc l.who = place)
    (hact : act c l s place = some (line, s')) (hqueued : (s.pc g).queued = true)
    (hnot : s.queue (s.qid g) ≠ some g) (hhead : s'.queue (s.qid g) = some g) :
    place = .dequeueing ∧ s.qid l.who = s.qid g ∧ s'.pc l.who = .signalNext := by
  have hmem : g ∈ q (s.qid g) := (hl.mem _ g).mpr ⟨hqueued, rfl⟩
  have hdeq : place = .dequeueing ∧ s.qid l.who = s.qid g := by
    by_contra hne
    cases hq : s.queue (s.qid g) with
    | none =>
      rw [hl.queues.eq_nil hq] at hmem
      cases hmem
    | some h =>
      have hstays := act_head hact hq fun hplace hqid => hne ⟨hplace, hqid⟩
      exact hnot (hq.trans (hstays.symm.trans hhead))
  refine ⟨hdeq.1, hdeq.2, ?_⟩
  obtain ⟨rfl, hqid⟩ := hdeq
  obtain ⟨s₁, h₁, heq⟩ := Option.map_eq_some_iff.mp hact
  cases heq
  rw [goto_pc_self]
  refine if_pos ?_
  have hq : s₁.qid = s.qid := by
    obtain ⟨tmp, -, rfl⟩ := dequeueCar_eq_some.mp h₁
    rfl
  rw [hq, hqid]
  exact Option.isSome_iff_exists.mpr ⟨g, hhead⟩

theorem Signals.behind_step (hsig : Signals s) (hl : Lined s q) (ht : Traffic c s)
    (hact : act c l s (s.pc l.who) = some (line, s')) (g : C) (hpc : s'.pc g = .waitFront) :
    s'.queue (s'.qid g) ≠ some g := by
  obtain ⟨hf, -⟩ := act_frame hact
  intro hhead
  by_cases hg : g = l.who
  · subst hg
    have hplace : s.pc l.who = .testFront := (Pc.sleep_pred _ _ hf.succ).1 hpc
    rw [hplace] at hact
    rcases act_testFront hact with ⟨-, -, rfl⟩ | ⟨hnot, -, rfl⟩
    · rw [goto_pc_self] at hpc
      cases hpc
    · exact hnot hhead
  · rw [hf.others g hg] at hpc
    rw [act_qid hact (.inl hg)] at hhead
    obtain ⟨hplace, hqid, -⟩ := hl.new_head rfl hact (by rw [hpc]; rfl) (hsig.behind g hpc) hhead
    -- both would hold the queue's mutex
    refine hg (Held.excl (m := Mutex.queueLock (s.qid g)) ht.locks ?_ ?_)
    · rw [Holds, hpc]
      · exact List.mem_cons_self
      · simp
    · rw [Holds, hplace, hqid]
      · exact List.mem_cons_self
      · simp

theorem Signals.front_step (hsig : Signals s) (hl : Lined s q)
    (hact : act c l s (s.pc l.who) = some (line, s')) (g : C) (hpc : s'.pc g = .sleepFront)
    (hhead : s'.queue (s'.qid g) = some g) :
    s'.signalled g = true ∨ ∃ h, s'.pc h = .signalNext ∧ s'.qid h = s'.qid g := by
  obtain ⟨hf, -⟩ := act_frame hact
  by_cases hg : g = l.who
  · subst hg
    have hplace : s.pc l.who = .waitFront := (Pc.sleep_pred _ _ hf.succ).2.1 hpc
    have hbehind := hsig.behind l.who hplace
    rw [hplace] at hact
    cases hact
    exact absurd hhead hbehind
  · rw [hf.others g hg] at hpc
    rw [act_qid hact (.inl hg)] at hhead ⊢
    by_cases hold : s.queue (s.qid g) = some g
    · rcases hsig.front g hpc hold with hs | ⟨h, hnext, hqid⟩
      · exact .inl (act_signalled hact hg hs)
      · by_cases hh : h = l.who
        · subst hh
          rw [hnext] at hact
          cases hact
          refine .inl (signalQueue_head ?_ (by rw [hpc]; rfl))
          rw [hqid]
          exact hold
        · exact .inr ⟨h, by rw [hf.others h hh]; exact hnext,
            (act_qid hact (.inl hh)).trans hqid⟩
    · obtain ⟨hplace, hqid, hnext⟩ := hl.new_head rfl hact (by rw [hpc]; rfl) hold hhead
      exact .inr ⟨l.who, hnext, (act_qid hact (.inr (by rw [hplace]; simp))).trans hqid⟩

theorem Signals.turn_step (hsig : Signals s) (hl : Lined s q) (ht : Traffic c s)
    (hplace : s.pc l.who = place) (hact : act c l s place = some (line, s')) (g : C) (way : Way)
    (hpc : s'.pc g = .sleepTurn) (hway : s'.turn g = .turning way) :
    s'.signalled g = true ∨ ∃ h, s'.pc h = .signalHead (s'.qid g) := by
  obtain ⟨hf, -⟩ := act_frame hact
  by_cases hg : g = l.who
  · subst hg
    have hwait : s.pc l.who = .waitTurn := hplace.trans ((Pc.sleep_pred _ _ hf.succ).2.2 hpc)
    have hallows := ht.turns l.who
    rw [hwait] at hallows
    rw [← hplace, hwait] at hact
    cases hact
    rw [show s.turn l.who = .turning way from hway] at hallows
    cases hallows
  · rw [hf.others g hg] at hpc
    rw [act_qid hact (.inl hg)]
    rcases ht.turning_of_step hl hplace hact hway with ⟨way', hturn⟩ | ⟨way', htries, hturn, hfree⟩
    · rcases hsig.turn g way' hpc hturn with hs | ⟨h, hnext⟩
      · exact .inl (act_signalled hact hg hs)
      · by_cases hh : h = l.who
        · subst hh
          rw [← hplace, hnext] at hact
          cases hact
          exact .inl (signalQueue_head (ht.ahead g way' hturn) (by rw [hpc]; rfl))
        · exact .inr ⟨h, by rw [hf.others h hh]; exact hnext⟩
    · obtain ⟨-, hself⟩ | ⟨rfl, hhead⟩ := htries
      · exact absurd hself hg
      · refine .inr ⟨l.who, ?_⟩
        rcases act_scan hl ht hact with
          ⟨-, rfl, hno⟩ | ⟨h, _, -, -, -, rfl⟩ | ⟨h, _, -, -, -, -, -, rfl⟩
        · rcases hno g hhead with hturn' | ⟨way'', hturn', hnot⟩
          · cases hturn.symm.trans hturn'
          · cases hturn.symm.trans hturn'
            exact absurd hfree hnot
        · exact goto_pc_self ..
        · exact goto_pc_self ..

theorem Signals.step {a : Answer C} (hsig : Signals s) (hl : Lined s q) (ht : Traffic c s)
    (hs : Drivers.step c l s = some (a, s')) : Signals s' := by
  obtain ⟨-, hact⟩ := step_inv hs
  exact ⟨hsig.behind_step hl ht hact, hsig.front_step hl hact, hsig.turn_step hl ht rfl hact⟩

end Steps

/-! ## Progress -/

namespace Pc

/-- Who has locked a queue is at no mutex, and awake. -/
theorem free_of_queueLock (c : Setup C) (s : State C) (g : C) (pc : Pc) (qid d : Direction)
    (h : .queueLock d ∈ pc.held qid) : taken c s g pc = none ∧ pc.asleep = false := by
  cases pc <;> first | exact ⟨rfl, rfl⟩ | simp [held] at h

/-- Who has locked the intersection is awake, and may be at a queue or a quadrant. -/
theorem awake_of_cross (c : Setup C) (s : State C) (g : C) (pc : Pc) (qid : Direction)
    (h : .intersectionLock ∈ pc.held qid) :
    taken c s g pc ≠ some .intersectionLock ∧ pc.asleep = false := by
  cases pc <;> simp_all [held, taken, asleep]

theorem queued_of_asleep (pc : Pc) (h : pc.asleep = true) : pc.queued = true := by
  cases pc <;> first | rfl | cases h

theorem away_of_held (pc : Pc) (qid : Direction) (m : Mutex) (h : m ∈ pc.held qid) :
    pc ≠ .choosing := by
  rintro rfl
  cases h

end Pc

section Movers

variable {c : Setup C} {s : State C} {q : Direction → List C} {g : C}

theorem Traffic.mover_of_queueLock (ht : Traffic c s) {d : Direction}
    (hheld : s.lock (.queueLock d) ≠ none) : ∃ g, s.pc g ≠ .choosing ∧ ¬ Blocked c s g := by
  obtain ⟨g, hg⟩ := Option.ne_none_iff_exists'.mp hheld
  have hholds : .queueLock d ∈ (s.pc g).held (s.qid g) := (ht.locks _ g).mp hg
  obtain ⟨htaken, hawake⟩ := Pc.free_of_queueLock c s g _ _ d hholds
  refine ⟨g, Pc.away_of_held _ _ _ hholds, ?_⟩
  rintro (⟨m, hm, -⟩ | ⟨hasleep, -⟩)
  · cases htaken.symm.trans hm
  · cases hawake.symm.trans hasleep

/-- While no queue is locked, a thread can be at no mutex that is held but
`intersectionLock`. -/
theorem Traffic.taken_held (ht : Traffic c s) (hqueue : ∀ d, s.lock (.queueLock d) = none)
    {m : Mutex} (hm : taken c s g (s.pc g) = some m) (hne : s.lock m ≠ none) :
    m = .intersectionLock := by
  cases m with
  | intersectionLock => rfl
  | queueLock d => exact absurd (hqueue d) hne
  | quadrantLock k => exact absurd (ht.quadrant_free hm).2 hne

theorem Traffic.mover_of_cross (ht : Traffic c s) (hqueue : ∀ d, s.lock (.queueLock d) = none)
    (hheld : s.lock .intersectionLock ≠ none) : ∃ g, s.pc g ≠ .choosing ∧ ¬ Blocked c s g := by
  obtain ⟨g, hg⟩ := Option.ne_none_iff_exists'.mp hheld
  have hholds : .intersectionLock ∈ (s.pc g).held (s.qid g) := (ht.locks _ g).mp hg
  obtain ⟨htaken, hawake⟩ := Pc.awake_of_cross c s g _ _ hholds
  refine ⟨g, Pc.away_of_held _ _ _ hholds, ?_⟩
  rintro (⟨m, hm, hne⟩ | ⟨hasleep, -⟩)
  · exact htaken (ht.taken_held hqueue hm hne ▸ hm)
  · cases hawake.symm.trans hasleep

theorem Lined.exists_head (hl : Lined s q) (hg : (s.pc g).queued = true) :
    ∃ h, s.queue (s.qid h) = some h := by
  have hmem := (hl.mem _ g).mpr ⟨hg, rfl⟩
  cases hq : s.queue (s.qid g) with
  | none =>
    rw [hl.queues.eq_nil hq] at hmem
    cases hmem
  | some h => exact ⟨h, by rw [(hl.head hq).2, hq]⟩

/-- All cars on their way are asleep, without a signal. -/
def AllAsleep (s : State C) : Prop :=
  ∀ g, s.pc g ≠ .choosing → (s.pc g).asleep = true ∧ s.signalled g = false

namespace AllAsleep

theorem nobody_at (h : AllAsleep s) {pc : Pc} (haway : pc ≠ .choosing) (hpc : pc.asleep = false)
    (g : C) : s.pc g ≠ pc := by
  rintro rfl
  cases hpc.symm.trans (h g haway).1

/-- The head of a queue has been told that it is there. -/
theorem head (h : AllAsleep s) (hl : Lined s q) (hsig : Signals s)
    (hhead : s.queue (s.qid g) = some g) : s.pc g = .sleepTurn ∧ s.signalled g = false := by
  have haway : s.pc g ≠ .choosing := by
    intro hpc
    have hqueued := (hl.head hhead).1
    rw [hpc] at hqueued
    cases hqueued
  obtain ⟨hpc, hquiet⟩ := h g haway
  refine ⟨?_, hquiet⟩
  cases hplace : s.pc g with
  | sleepTurn => rfl
  | sleepFront =>
    rcases hsig.front g hplace hhead with hs | ⟨g', hnext, -⟩
    · cases hquiet.symm.trans hs
    · exact absurd hnext (h.nobody_at (by simp) rfl g')
  | _ =>
    rw [hplace] at hpc
    cases hpc

/-- Who was let into the intersection has been told so. -/
theorem not_turning (h : AllAsleep s) (hl : Lined s q) (ht : Traffic c s) (hsig : Signals s)
    (g : C) (way : Way) : s.turn g ≠ .turning way := by
  intro hway
  obtain ⟨hpc, hquiet⟩ := h.head hl hsig (ht.ahead g way hway)
  rcases hsig.turn g way hpc hway with hs | ⟨g', hnext⟩
  · cases hquiet.symm.trans hs
  · exact h.nobody_at (by simp) rfl g' hnext

end AllAsleep

/-- If all cars on their way were asleep, the head of a queue would be one of them, although
nobody is in its way. -/
theorem Lined.not_all_asleep (hl : Lined s q) (ht : Traffic c s) (hw : Awaited s)
    (hsig : Signals s) (hg : s.pc g ≠ .choosing) : ¬ AllAsleep s := by
  intro hasleep
  have hturn := hasleep.not_turning hl ht hsig
  obtain ⟨h, hhead⟩ := hl.exists_head (Pc.queued_of_asleep _ (hasleep g hg).1)
  have hpc := (hasleep.head hl hsig hhead).1
  cases hway : s.turn h with
  | noTurn =>
    have hallows := ht.turns h
    rw [hpc, hway] at hallows
    cases hallows
  | turning way => exact hturn h way hway
  | want way =>
    rcases hw h way (by rw [hpc]; rfl) hway with hnot | ⟨h', hscan⟩
    · obtain ⟨-, -, h', -, way', hway'⟩ := ht.obstacle hnot
      exact hturn h' way' hway'
    · have hcross := Pc.cross_of_willScan _ (s.qid h') _ hscan
      have hawake := (Pc.awake_of_cross c s h' _ _ hcross).2
      exact hasleep.nobody_at (Pc.away_of_held _ _ _ hcross) hawake h' rfl

/-- As long as somebody is on the way, somebody on the way can move. -/
theorem exists_mover (hl : Lined s q) (ht : Traffic c s) (hw : Awaited s) (hsig : Signals s)
    (hg : s.pc g ≠ .choosing) : ∃ g, s.pc g ≠ .choosing ∧ ¬ Blocked c s g := by
  by_cases hqueue : ∀ d, s.lock (.queueLock d) = none
  · by_cases hcross : s.lock .intersectionLock = none
    · by_contra hno
      push Not at hno
      refine hl.not_all_asleep ht hw hsig hg fun h hh => ?_
      rcases hno h hh with ⟨m, hm, hne⟩ | hasleep
      · exact absurd hcross (ht.taken_held hqueue hm hne ▸ hne)
      · exact hasleep
    · exact ht.mover_of_cross hqueue hcross
  · obtain ⟨d, hd⟩ := not_forall.mp hqueue
    exact ht.mover_of_queueLock hd

/-- Somebody is not blocked: a car at home never is. -/
theorem exists_not_blocked [Nonempty C] (hl : Lined s q) (ht : Traffic c s) (hw : Awaited s)
    (hsig : Signals s) : ∃ g, ¬ Blocked c s g := by
  by_cases haway : ∃ g, s.pc g ≠ .choosing
  · obtain ⟨g, hg⟩ := haway
    obtain ⟨h, -, hfree⟩ := exists_mover hl ht hw hsig hg
    exact ⟨h, hfree⟩
  · obtain ⟨g⟩ := ‹Nonempty C›
    have hhome : s.pc g = .choosing := Classical.not_not.mp fun hne => haway ⟨g, hne⟩
    refine ⟨g, ?_⟩
    rintro (⟨m, hm, -⟩ | ⟨hasleep, -⟩)
    · rw [hhome] at hm
      cases hm
    · rw [hhome] at hasleep
      cases hasleep

end Movers

section Progress

variable [DecidableEq C] [Fintype C] {c : Setup C} {l : Label C} {s : State C}
  {q : Direction → List C} {g : C}

/-- A car that is not blocked has a step, whatever it draws. -/
theorem act_of_not_blocked (hl : Lined s q) (hb : ¬ Blocked c s l.who) :
    ∃ x, act c l s (s.pc l.who) = some x := by
  have hmutex : ∀ m, taken c s l.who (s.pc l.who) = some m → s.lock m = none := by
    intro m hm
    by_contra hne
    exact hb (.inl ⟨m, hm, hne⟩)
  have hwoken : (s.pc l.who).asleep = true → s.signalled l.who = true := by
    intro hasleep
    by_contra hne
    exact hb (.inr ⟨hasleep, Bool.eq_false_iff.mpr hne⟩)
  have htake : ∀ m pc, s.lock m = none → ∃ x : Option (Line C) × State C,
      (s.take l.who m pc).map (none, ·) = some x := by
    intro m pc hm
    exact ⟨_, Option.map_eq_some_iff.mpr ⟨_, take_eq_some.mpr ⟨hm, rfl⟩, rfl⟩⟩
  have hwake : ∀ pc, s.signalled l.who = true → ∃ x : Option (Line C) × State C,
      (s.wake l.who l.spurious pc).map (none, ·) = some x := by
    intro pc hsig
    exact ⟨_, by rw [State.wake, hsig, Bool.true_or, if_pos rfl]; rfl⟩
  cases hplace : s.pc l.who with
  | lockJoin | lockFront | lockDequeue | lockCross | crossing =>
    exact htake _ _ (hmutex _ (by rw [hplace]; rfl))
  | lockScan i => exact htake _ _ (hmutex _ (by rw [hplace]; rfl))
  | sleepFront | sleepTurn => exact hwake _ (hwoken (by rw [hplace]; rfl))
  | joining =>
    obtain ⟨next, queue, heq, -⟩ :=
      hl.queues.enqueue_spec (hl.out (by rw [hplace]; rfl)) (s.qid l.who)
    exact ⟨_, by rw [act, queueCar_eq, heq]; rfl⟩
  | dequeueing =>
    have hhead := hl.front l.who (by rw [hplace]; rfl)
    exact ⟨_, by rw [act, dequeueCar_eq_some.mpr ⟨_, hhead, rfl⟩]; rfl⟩
  | acquire i =>
    by_cases hown : s.quadrant i = c.cid l.who
    · have hfree : s.lock (.quadrantLock i) = none :=
        hmutex _ (by rw [hplace]; exact if_pos hown)
      simp only [act, if_pos hown]
      exact htake _ _ hfree
    · exact ⟨_, by rw [act, if_neg hown]⟩
  | release i =>
    by_cases hown : s.quadrant i = c.cid l.who
    · exact ⟨_, by rw [act, if_pos hown]⟩
    · exact ⟨_, by rw [act, if_neg hown]⟩
  | _ => exact ⟨_, rfl⟩

theorem steps_signals (c : Setup C) : ∀ ls tr s, steps c ls = some (tr, s) → Signals s := by
  refine run_rule_with (P := fun _ s => (∃ q, Lined s q) ∧ Traffic c s) (Q := fun _ s => Signals s)
    (fun ls tr s hrun => ⟨steps_lined c ls tr s hrun, steps_traffic c ls tr s hrun⟩)
    init_signals ?_
  rintro tr s l a s' ⟨⟨q, hl⟩, ht⟩ hsig hs
  exact hsig.step hl ht hs

/-- In every reachable state some car is neither at a mutex that is held nor asleep without
a signal, and it can take a step, whatever it draws. -/
theorem no_deadlock [Nonempty C] (c : Setup C) (ls : List (Label C)) (tr : History C)
    (s : State C) (hrun : steps c ls = some (tr, s)) :
    ∃ g, ¬ Blocked c s g ∧ ∀ l : Label C, l.who = g → ∃ a s', step c l s = some (a, s') := by
  obtain ⟨q, hl⟩ := steps_lined c ls tr s hrun
  obtain ⟨g, hg⟩ := exists_not_blocked hl (steps_traffic c ls tr s hrun)
    (steps_awaited c ls tr s hrun) (steps_signals c ls tr s hrun)
  refine ⟨g, hg, ?_⟩
  rintro l rfl
  obtain ⟨⟨line, s'⟩, hact⟩ := act_of_not_blocked hl hg
  exact ⟨⟨s.pc l.who, line⟩, s', by rw [step, hact]; rfl⟩

/-- One car sleeps, and the other one drives. -/
theorem no_deadlock_second : ∃ tr s, steps twoCars secondWaits = some (tr, s) ∧
    Blocked twoCars s true ∧ ∃ g, ¬ Blocked twoCars s g ∧
      ∀ l : Label Bool, l.who = g → ∃ a s', step twoCars l s = some (a, s') := by
  have heval : (steps twoCars secondWaits).map (fun x => decide (
      (x.2.pc true).asleep = true ∧ x.2.signalled true = false)) = some true := by
    decide +kernel
  obtain ⟨⟨tr, s⟩, hrun, h⟩ := Option.map_eq_some_iff.mp heval
  exact ⟨tr, s, hrun, .inr (of_decide_eq_true h), no_deadlock twoCars secondWaits tr s hrun⟩

end Progress

end OsProjects.Drivers
