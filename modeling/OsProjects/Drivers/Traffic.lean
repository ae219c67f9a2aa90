import OsProjects.Drivers.Entering
import OsProjects.Drivers.Lines

/-!
# Who may be in the intersection

Routes are claimed whole, whether a car runs `enter_intersection` for itself or for the
head of some queue. Hence, all along a run, the claims in `quadrant[]` are the routes of
the cars that are crossing, less what such a car has already given back, and the mutexes
are held according to where the threads are (`Traffic`).
-/

namespace OsProjects.Drivers

open OsProjects.Lib

/-! ## Places -/

/-- The position in `0..3`. -/
def Quadrant.index : Quadrant → Nat
  | .nw => 0
  | .ne => 1
  | .sw => 2
  | .se => 3

namespace Pc

/-- Places of a car whose turn is a `W` one. -/
def wants : Pc → Bool
  | .lockJoin | .joining | .unlockJoin | .lockFront | .testFront | .waitFront | .sleepFront
  | .unlockFront | .lockCross | .testTurn | .waitTurn | .sleepTurn => true
  | _ => false

/-- Places of a car whose turn is a `T` one. -/
def crosses : Pc → Bool
  | .unlockJoin | .lockFront | .testFront | .waitFront | .sleepFront | .unlockFront | .lockCross
  | .testTurn | .signalSelf | .sleepTurn | .acquire _ | .unlockCross | .crossing | .departing
  | .release _ | .stopping => true
  | _ => false

/-- Places of a car that has `NO_TURN`. -/
def stopped : Pc → Bool
  | .choosing | .lockScan _ | .scan _ | .signalHead _ | .unlockScan _ | .unlockLeave
  | .lockDequeue | .dequeueing | .signalNext | .unlockDequeue => true
  | _ => false

/-- The turns a car may have at a place. -/
def allows (pc : Pc) : Turn → Bool
  | .noTurn => pc.stopped
  | .want _ => pc.wants
  | .turning _ => pc.crosses

/-- `k`, if claimed, was not given back yet. -/
def keeps : Pc → Quadrant → Bool
  | .release i, k => i.index ≤ k.index
  | .stopping, _ => false
  | _, _ => true

/-- `quadrantLock[k]` is locked, if `k` is claimed. -/
def took : Pc → Quadrant → Bool
  | .acquire i, k => k.index < i.index
  | .unlockCross, _ | .crossing, _ | .departing, _ => true
  | .release i, k => i.index ≤ k.index
  | _, _ => false

/-- The other mutexes that are locked at a place. -/
def held (qid : Direction) : Pc → List Mutex
  | .joining | .unlockJoin | .testFront | .waitFront | .unlockFront | .dequeueing | .signalNext
  | .unlockDequeue => [.queueLock qid]
  | .testTurn | .signalSelf | .waitTurn | .acquire _ | .unlockCross | .departing | .release _
  | .stopping | .lockScan _ | .unlockLeave => [.intersectionLock]
  | .scan i | .signalHead i | .unlockScan i => [.intersectionLock, .queueLock i]
  | _ => []

theorem held_succ {C : Type} (c : Setup C) (s : State C) (car : C) {pc pc' : Pc}
    (hsucc : pc' ∈ pc.succ) {m : Mutex} (hm : ∀ k, m ≠ .quadrantLock k) :
    m ∈ pc'.held (s.qid car) ↔
      (m ∈ pc.held (s.qid car) ∨ taken c s car pc = some m) ∧ given c s car pc ≠ some m := by
  have hquad : ∀ (p : Prop) [Decidable p] k,
      (if p then some (Mutex.quadrantLock k) else none) ≠ some m := by
    intro p _ k heq
    split at heq
    · exact hm k (Option.some.inj heq).symm
    · cases heq
  cases pc with
  | testFront | scan i | dequeueing =>
    rcases List.mem_pair.mp hsucc with rfl | rfl <;> simp [held, taken, given]
  | testTurn =>
    simp only [succ, List.mem_cons, List.not_mem_nil, or_false] at hsucc
    rcases hsucc with rfl | rfl | rfl <;> simp [held, taken, given]
  | acquire i | release i =>
    have hpc' : pc'.held (s.qid car) = [.intersectionLock] := by
      rw [List.mem_singleton.mp hsucc]
      cases i <;> rfl
    rw [hpc']
    simp [held, taken, given, hquad]
  | unlockScan i =>
    have hpc' : pc'.held (s.qid car) = [.intersectionLock] := by
      rw [List.mem_singleton.mp hsucc]
      cases i <;> rfl
    rw [hpc']
    cases m <;> simp [held, taken, given, eq_comm]
  | _ =>
    cases List.mem_singleton.mp hsucc
    simp [held, taken, given, eq_comm]

theorem allows_succ {pc pc' : Pc} {t : Turn} (hsucc : pc' ∈ pc.succ)
    (hno : pc.editsTurn = false) (ht : pc.allows t = true) : pc'.allows t = true := by
  have h : ∀ pc' ∈ pc.succ, pc.editsTurn = false → (pc.stopped = true → pc'.stopped = true) ∧
      (pc.wants = true → pc'.wants = true) ∧ (pc.crosses = true → pc'.crosses = true) := by
    cases pc with
    | acquire i | release i | lockScan i | scan i | signalHead i | unlockScan i =>
      cases i <;> decide
    | _ => decide
  obtain ⟨hstopped, hwants, hcrosses⟩ := h pc' hsucc hno
  cases t with
  | noTurn => exact hstopped ht
  | want way => exact hwants ht
  | turning way => exact hcrosses ht

theorem keeps_succ (pc : Pc) (k : Quadrant) : ∀ pc' ∈ pc.succ, pc ≠ .stopping →
    pc'.keeps k = (pc.keeps k && decide (pc ≠ .release k)) := by
  cases pc with
  | acquire i | release i => cases i <;> cases k <;> decide
  | lockScan i | scan i | signalHead i | unlockScan i => cases i <;> cases k <;> decide
  | _ => cases k <;> decide

/-- Only `aquire_locks` and `leave_intersection` change which quadrants are locked. -/
theorem took_succ (pc : Pc) (k : Quadrant) : ∀ pc' ∈ pc.succ,
    pc'.took k = ((pc.took k || decide (pc = .acquire k)) && decide (pc ≠ .release k)) := by
  cases pc with
  | acquire i | release i => cases i <;> cases k <;> decide
  | lockScan i | scan i | signalHead i | unlockScan i => cases i <;> cases k <;> decide
  | _ => cases k <;> decide

/-- A car that still wants to enter has locked no quadrant. -/
theorem wants_spec (pc : Pc) (k : Quadrant) (h : pc.wants = true) :
    pc.took k = false ∧ pc.keeps k = true := by
  cases pc <;> first | exact ⟨rfl, rfl⟩ | cases h

/-- Somebody else may let a car cross that waits for `intersectionLock`, or for less. -/
theorem crosses_of_wants (pc : Pc) (qid : Direction) (h : pc.wants = true)
    (hqueued : pc.queued = true) (hout : .intersectionLock ∉ pc.held qid) :
    pc.crosses = true := by
  cases pc <;>
    first | rfl | exact absurd List.mem_cons_self hout | simp_all [wants, queued]

/-- A car locks what it has claimed. -/
theorem keeps_of_took (pc : Pc) (k : Quadrant) (h : pc.took k = true) : pc.keeps k = true := by
  cases pc <;> first | rfl | exact h

end Pc

/-! ## The invariant -/

variable {C : Type}

/-- `k` is on the route that the car takes. -/
def Routed (s : State C) (car : C) (k : Quadrant) : Prop :=
  ∃ way, s.turn car = .turning way ∧ k ∈ route (s.qid car) way

/-- Car `g` has locked `m`. -/
def Holds (s : State C) (g : C) : Mutex → Prop
  | .quadrantLock k => (s.pc g).took k = true ∧ Routed s g k
  | m => m ∈ (s.pc g).held (s.qid g)

structure Traffic (c : Setup C) (s : State C) : Prop where
  turns : ∀ g, (s.pc g).allows (s.turn g) = true
  claims : ∀ g k, s.quadrant k = c.cid g ↔ (s.pc g).keeps k = true ∧ Routed s g k
  owned : ∀ k, s.quadrant k = -1 ∨ ∃ g, s.quadrant k = c.cid g
  ahead : ∀ g way, s.turn g = .turning way → s.queue (s.qid g) = some g
  locks : Held s.lock (Holds s)

section Claims

variable {c : Setup C} {s : State C} {g : C} {way : Way} {k : Quadrant}

theorem not_routed (hturn : ∀ way, s.turn g ≠ .turning way) : ¬ Routed s g k := by
  rintro ⟨way, hway, -⟩
  exact hturn way hway

/-- Who is not crossing owns nothing. -/
theorem Traffic.unclaimed (ht : Traffic c s) (hturn : ∀ way, s.turn g ≠ .turning way) :
    s.quadrant k ≠ c.cid g := fun hk => not_routed hturn ((ht.claims g k).mp hk).2

theorem Traffic.clear (ht : Traffic c s) (g : C) :
    ∀ way, s.turn g = .want way → ∀ k, s.quadrant k ≠ c.cid g := by
  intro way hway k
  refine ht.unclaimed ?_
  intro way' hway'
  rw [hway] at hway'
  cases hway'

/-- One car at a time in the intersection's critical section. -/
theorem Traffic.cross_unique {car : C} (ht : Traffic c s)
    (hg : .intersectionLock ∈ (s.pc g).held (s.qid g))
    (hcar : .intersectionLock ∈ (s.pc car).held (s.qid car)) : g = car :=
  Held.excl (m := Mutex.intersectionLock) ht.locks hg hcar

theorem claimed_eq_iff {h : C} {quads : List Quadrant} (hgh : h ≠ g)
    (hfree : ∀ k ∈ quads, s.quadrant k = -1) :
    claimed (c.cid g) quads s.quadrant k = c.cid h ↔ s.quadrant k = c.cid h := by
  unfold claimed
  by_cases hk : k ∈ quads
  · rw [if_pos hk, hfree k hk]
    have hne : c.cid g ≠ c.cid h := fun heq => hgh (c.distinct heq).symm
    exact iff_of_false hne (c.cid_ne h).symm
  · rw [if_neg hk]

/-- At most places a car is not crossing. -/
theorem Traffic.not_turning (ht : Traffic c s) (hpc : (s.pc g).crosses = false) (way : Way) :
    s.turn g ≠ .turning way := by
  intro hway
  have hallows := ht.turns g
  rw [hway] at hallows
  cases hpc.symm.trans hallows

theorem routed_congr {s' : State C} (hturn : s'.turn g = s.turn g) (hqid : s'.qid g = s.qid g) :
    Routed s' g k ↔ Routed s g k := by
  unfold Routed
  rw [hturn, hqid]

end Claims

theorem init_traffic (c : Setup C) : Traffic c init where
  turns _ := rfl
  claims g k := by
    have hne : (-1 : Int) ≠ c.cid g := (c.cid_ne g).symm
    simp [init, Routed, hne]
  owned _ := .inl rfl
  ahead _ _ := nofun
  locks m g := by
    cases m with
    | quadrantLock k => simp [init, Holds, Pc.took]
    | _ => simp [init, Holds, Pc.held]

/-! ## Steps -/

section Steps

variable [DecidableEq C] [Fintype C] {c : Setup C} {l : Label C} {s s' : State C}
  {q : Direction → List C}
  {place : Pc} {line : Option (Line C)} {i : Direction}

/-- A step that may claim a route for car `g`. -/
def Tries (l : Label C) (s : State C) (g : C) (place : Pc) : Prop :=
  place = .testTurn ∧ g = l.who ∨ place = .scan (s.qid g) ∧ s.queue (s.qid g) = some g

/-- What a step does to the turns and the claims. -/
inductive Effect (c : Setup C) (l : Label C) (s s' : State C) : Pc → Prop
  | drawn : s'.turn = Function.update s.turn l.who (.want l.way) → s'.quadrant = s.quadrant →
      Effect c l s s' .choosing
  | granted (g : C) (way : Way) (place : Pc) : Tries l s g place → s.turn g = .want way →
      Free s (s.qid g) way → s'.turn = Function.update s.turn g (.turning way) →
      s'.quadrant = claimed (c.cid g) (route (s.qid g) way) s.quadrant → Effect c l s s' place
  | gave (i : Quadrant) : s.quadrant i = c.cid l.who → s'.turn = s.turn →
      s'.quadrant = Function.update s.quadrant i (-1) → Effect c l s s' (.release i)
  | stopped : s'.turn = Function.update s.turn l.who .noTurn → s'.quadrant = s.quadrant →
      Effect c l s s' .stopping
  | none (place : Pc) : place ≠ .choosing → place ≠ .stopping →
      (∀ i, place = .release i → s.quadrant i ≠ c.cid l.who) → s'.turn = s.turn →
      s'.quadrant = s.quadrant → Effect c l s s' place

/-- The test in the loop of `car_main`. -/
theorem act_testTurn (ht : Traffic c s) (hplace : s.pc l.who = .testTurn)
    (hact : act c l s .testTurn = some (line, s')) :
    (∃ way, s.turn l.who = .want way ∧ Free s (s.qid l.who) way ∧
        line = some (.entered l.who (s.qid l.who) (.turning way)) ∧
        s' = (s.claim c l.who (s.qid l.who) way).goto l.who .signalSelf) ∨
      (∃ way, s.turn l.who = .want way ∧ ¬ Free s (s.qid l.who) way ∧ line = none ∧
        s' = s.goto l.who .waitTurn) ∨
      (∃ way, s.turn l.who = .turning way ∧ line = none ∧ s' = s.goto l.who (.acquire .nw)) := by
  have henters := enterIntersection_enters (s.qid l.who) (ht.clear l.who)
  have hallows := ht.turns l.who
  rw [hplace] at hallows
  cases hturn : s.turn l.who with
  | noTurn =>
    rw [hturn] at hallows
    cases hallows
  | turning way =>
    simp only [act, hturn] at hact
    cases hact
    exact .inr (.inr ⟨way, rfl, rfl, rfl⟩)
  | want way =>
    simp only [act, hturn] at hact
    generalize enterIntersection c l.who (s.qid l.who) s = r at henters hact
    cases henters with
    | stopped hno => cases hturn.symm.trans hno
    | again way' hway => cases hturn.symm.trans hway
    | blocked way' hway hfree =>
      cases hact
      exact .inr (.inl ⟨way', hturn.symm.trans hway, hfree, rfl, rfl⟩)
    | granted way' hway hfree =>
      cases hact
      exact .inl ⟨way', hturn.symm.trans hway, hfree, rfl, rfl⟩

/-- `enter_intersection(queue[i], i)` in the loop of `leave_intersection`. -/
theorem act_scan (hl : Lined s q) (ht : Traffic c s)
    (hact : act c l s (.scan i) = some (line, s')) :
    (line = none ∧ s' = s.goto l.who (.unlockScan i) ∧ ∀ g, s.queue i = some g →
        s.turn g = .noTurn ∨ ∃ way, s.turn g = .want way ∧ ¬ Free s i way) ∨
      (∃ g way, s.queue i = some g ∧ s.turn g = .turning way ∧
        line = some (.entered g i (.turning way)) ∧ s' = s.goto l.who (.signalHead i)) ∨
      (∃ g way, s.queue i = some g ∧ s.qid g = i ∧ s.turn g = .want way ∧ Free s i way ∧
        line = some (.entered g i (.turning way)) ∧
        s' = (s.claim c g i way).goto l.who (.signalHead i)) := by
  cases hhead : s.queue i with
  | none =>
    simp only [act, hhead] at hact
    cases hact
    exact .inl ⟨rfl, rfl, by simp⟩
  | some g =>
    have henters := enterIntersection_enters i (ht.clear g)
    simp only [act, hhead] at hact
    generalize enterIntersection c g i s = r at henters hact
    cases henters with
    | stopped hno =>
      cases hact
      refine .inl ⟨rfl, rfl, ?_⟩
      rintro g' ⟨⟩
      exact .inl hno
    | blocked way hway hfree =>
      cases hact
      refine .inl ⟨rfl, rfl, ?_⟩
      rintro g' ⟨⟩
      exact .inr ⟨way, hway, hfree⟩
    | again way hway =>
      cases hact
      exact .inr (.inl ⟨g, way, rfl, hway, rfl, rfl⟩)
    | granted way hway hfree =>
      cases hact
      exact .inr (.inr ⟨g, way, rfl, (hl.head hhead).2, hway, hfree, rfl, rfl⟩)

theorem act_effect (hl : Lined s q) (ht : Traffic c s) (hplace : s.pc l.who = place)
    (hact : act c l s place = some (line, s')) : Effect c l s s' place := by
  obtain ⟨hf, -⟩ := act_frame hact
  by_cases hplain : place.editsTurn = false ∧ place.editsQuadrant = false
  · refine .none place ?_ ?_ ?_ (hf.turn hplain.1) (hf.quadrant hplain.2)
    · rintro rfl
      cases hplain.1
    · rintro rfl
      cases hplain.1
    · rintro i rfl
      cases hplain.2
  · cases place with
    | choosing =>
      cases hact
      exact .drawn rfl rfl
    | stopping =>
      cases hact
      exact .stopped rfl rfl
    | testTurn =>
      rcases act_testTurn ht hplace hact with
        ⟨way, hway, hfree, -, rfl⟩ | ⟨way, -, -, -, rfl⟩ | ⟨way, -, -, rfl⟩
      · exact .granted l.who way _ (.inl ⟨rfl, rfl⟩) hway hfree rfl rfl
      · exact .none _ (by simp) (by simp) (by simp) rfl rfl
      · exact .none _ (by simp) (by simp) (by simp) rfl rfl
    | scan i =>
      rcases act_scan hl ht hact with
        ⟨-, rfl, -⟩ | ⟨g, way, -, -, -, rfl⟩ | ⟨g, way, hhead, rfl, hway, hfree, -, rfl⟩
      · exact .none _ (by simp) (by simp) (by simp) rfl rfl
      · exact .none _ (by simp) (by simp) (by simp) rfl rfl
      · exact .granted g way _ (.inr ⟨rfl, hhead⟩) hway hfree rfl rfl
    | release i =>
      by_cases hown : s.quadrant i = c.cid l.who
      · simp only [act, if_pos hown] at hact
        cases hact
        exact .gave i hown rfl rfl
      · simp only [act, if_neg hown] at hact
        cases hact
        refine .none _ (by simp) (by simp) ?_ rfl rfl
        rintro _ ⟨⟩
        exact hown
    | _ => exact absurd ⟨rfl, rfl⟩ hplain

/-- A trip's side is drawn by its own car. -/
theorem act_qid {g : C} (hact : act c l s place = some (line, s'))
    (hg : g ≠ l.who ∨ place ≠ .choosing) : s'.qid g = s.qid g := by
  by_cases hch : place = .choosing
  · subst hch
    cases hact
    exact Function.update_of_ne (hg.resolve_right fun hne => hne rfl) ..
  · rw [(act_frame hact).1.qid hch]

omit [Fintype C] in
/-- The car for which a route is claimed is queued, wants to enter, and is not in the
intersection's critical section unless it runs the step itself. -/
theorem Traffic.tries_spec (hl : Lined s q) (ht : Traffic c s) {g : C} {way : Way}
    (hplace : s.pc l.who = place) (htries : Tries l s g place) (hway : s.turn g = .want way) :
    s.queue (s.qid g) = some g ∧ (s.pc g).wants = true ∧
      (g = l.who ∨ (s.pc g).crosses = true) := by
  have hwants : (s.pc g).wants = true := by
    have hallows := ht.turns g
    rwa [hway] at hallows
  rcases htries with ⟨rfl, rfl⟩ | ⟨rfl, hhead⟩
  · exact ⟨hl.front _ (by rw [hplace]; rfl), hwants, .inl rfl⟩
  · refine ⟨hhead, hwants, ?_⟩
    by_cases hg : g = l.who
    · exact .inl hg
    · refine .inr (Pc.crosses_of_wants _ (s.qid g) hwants (hl.head hhead).1 ?_)
      intro hin
      exact hg (ht.cross_unique hin (by rw [hplace]; exact List.mem_cons_self))

omit [Fintype C] in
/-- The turn of one car changes. -/
theorem allows_update {g₀ : C} {t : Turn} (hturn : s'.turn = Function.update s.turn g₀ t)
    (hnew : (s'.pc g₀).allows t = true)
    (hold : ∀ g, g ≠ g₀ → (s'.pc g).allows (s.turn g) = true) (g : C) :
    (s'.pc g).allows (s'.turn g) = true := by
  rw [hturn]
  by_cases hg : g = g₀
  · subst hg
    rw [Function.update_self]
    exact hnew
  · rw [Function.update_of_ne hg]
    exact hold g hg

theorem Traffic.turns_step (hl : Lined s q) (ht : Traffic c s) (hplace : s.pc l.who = place)
    (hact : act c l s place = some (line, s')) : ∀ g, (s'.pc g).allows (s'.turn g) = true := by
  obtain ⟨hf, -⟩ := act_frame hact
  have hothers : ∀ g, g ≠ l.who → (s'.pc g).allows (s.turn g) = true := by
    intro g hg
    rw [hf.others g hg]
    exact ht.turns g
  have hself := ht.turns l.who
  rw [hplace] at hself
  -- the steps that change no turn
  have hsame : s'.turn = s.turn → (s'.pc l.who).allows (s.turn l.who) = true →
      ∀ g, (s'.pc g).allows (s'.turn g) = true := by
    intro hturn hnew g
    rw [hturn]
    by_cases hg : g = l.who
    · subst hg
      exact hnew
    · exact hothers g hg
  cases hno : place.editsTurn with
  | false => exact hsame (hf.turn hno) (Pc.allows_succ hf.succ hno hself)
  | true =>
    cases place with
    | choosing =>
      cases hact
      exact allows_update rfl (by rw [goto_pc_self]; rfl) hothers
    | stopping =>
      cases hact
      exact allows_update rfl (by rw [goto_pc_self]; rfl) hothers
    | testTurn =>
      rcases act_testTurn ht hplace hact with
        ⟨way, -, -, -, rfl⟩ | ⟨way, hway, -, -, rfl⟩ | ⟨way, hway, -, rfl⟩
      · exact allows_update rfl (by rw [goto_pc_self]; rfl) hothers
      · exact hsame rfl (by rw [goto_pc_self, hway]; rfl)
      · exact hsame rfl (by rw [goto_pc_self, hway]; rfl)
    | scan i =>
      have hstill : (s'.pc l.who).allows (s.turn l.who) = true := by
        rcases List.mem_pair.mp hf.succ with hpc | hpc <;> rw [hpc] <;> exact hself
      rcases act_scan hl ht hact with
        ⟨-, rfl, -⟩ | ⟨g, way, -, -, -, rfl⟩ | ⟨g, way, hhead, rfl, hway, -, -, rfl⟩
      · exact hsame rfl hstill
      · exact hsame rfl hstill
      · obtain ⟨-, -, hself' | hcrosses⟩ := ht.tries_spec hl hplace (.inr ⟨rfl, hhead⟩) hway
        · subst hself'
          rw [hway] at hself
          cases hself
        · have hg : g ≠ l.who := by
            rintro rfl
            rw [hplace] at hcrosses
            cases hcrosses
          refine allows_update rfl (by rw [hf.others g hg]; exact hcrosses) ?_
          intro h _
          by_cases hh : h = l.who
          · subst hh
            exact hstill
          · exact hothers h hh
    | _ => cases hno

/-- A car that neither gains nor loses. -/
theorem Traffic.claims_same (ht : Traffic c s) (hplace : s.pc l.who = place)
    (hact : act c l s place = some (line, s')) {g : C} {k : Quadrant}
    (hor : g ≠ l.who ∨ place ≠ .choosing ∧ place ≠ .stopping ∧ place ≠ .release k)
    (hturn : s'.turn g = s.turn g) (hquad : s'.quadrant k = c.cid g ↔ s.quadrant k = c.cid g) :
    s'.quadrant k = c.cid g ↔ (s'.pc g).keeps k = true ∧ Routed s' g k := by
  obtain ⟨hf, -⟩ := act_frame hact
  have hqid : s'.qid g = s.qid g := act_qid hact (hor.imp_right And.left)
  rw [hquad, ht.claims g k, routed_congr hturn hqid]
  by_cases hg : g = l.who
  · obtain ⟨-, hst, hrel⟩ := hor.resolve_left fun hne => hne hg
    subst hg
    rw [Pc.keeps_succ place k _ hf.succ hst, hplace]
    simp [hrel]
  · rw [hf.others g hg]

theorem Traffic.claims_step (hl : Lined s q) (ht : Traffic c s) (hplace : s.pc l.who = place)
    (hact : act c l s place = some (line, s')) (g : C) (k : Quadrant) :
    s'.quadrant k = c.cid g ↔ (s'.pc g).keeps k = true ∧ Routed s' g k := by
  obtain ⟨hf, -⟩ := act_frame hact
  have hold := ht.claims g k
  have hsame := ht.claims_same hplace hact (g := g) (k := k)
  -- the car has just drawn its trip, or just ended it
  have hout : ∀ t, (∀ way, t ≠ .turning way) → s'.turn = Function.update s.turn l.who t →
      ¬ Routed s' l.who k := by
    intro t hne hturn
    refine not_routed fun way => ?_
    rw [hturn, Function.update_self]
    exact hne way
  cases act_effect hl ht hplace hact with
  | drawn hturn hquad =>
    by_cases hg : g = l.who
    · subst hg
      have hbefore := ht.not_turning (g := l.who) (by rw [hplace]; rfl)
      rw [hquad]
      exact iff_of_false (ht.unclaimed hbefore) fun h => hout _ (by simp) hturn h.2
    · exact hsame (.inl hg) (by rw [hturn, Function.update_of_ne hg]) (by rw [hquad])
  | granted g₀ way _ htries hway hfree hturn hquad =>
    have hmoves : place ≠ .choosing ∧ place ≠ .stopping ∧ place ≠ .release k := by
      rcases htries with ⟨rfl, -⟩ | ⟨rfl, -⟩ <;> simp
    by_cases hg : g = g₀
    · subst hg
      obtain ⟨-, hwants, -⟩ := ht.tries_spec hl hplace htries hway
      have hkeeps : (s'.pc g).keeps k = true := by
        have hbefore := (Pc.wants_spec _ k hwants).2
        by_cases hgw : g = l.who
        · subst hgw
          rw [hplace] at hbefore
          rw [Pc.keeps_succ place k _ hf.succ hmoves.2.1, hbefore]
          simp [hmoves.2.2]
        · rw [hf.others g hgw]
          exact hbefore
      have hrouted : Routed s' g k ↔ k ∈ route (s.qid g) way := by
        unfold Routed
        rw [hturn, act_qid hact (.inr hmoves.1), Function.update_self]
        simp
      rw [hrouted, hquad, claimed]
      by_cases hk : k ∈ route (s.qid g) way
      · simp [hk, hkeeps]
      · simp [hk, ht.clear g way hway k]
    · exact hsame (.inr hmoves) (by rw [hturn, Function.update_of_ne hg])
        (by rw [hquad]; exact claimed_eq_iff hg hfree)
  | gave i hown hturn hquad =>
    by_cases hk : k = i
    · subst hk
      rw [hquad, Function.update_self]
      refine iff_of_false (c.cid_ne g).symm ?_
      rintro ⟨hkeeps, hrouted⟩
      by_cases hg : g = l.who
      · subst hg
        rw [Pc.keeps_succ _ k _ hf.succ (by simp)] at hkeeps
        simp at hkeeps
      · rw [hf.others g hg] at hkeeps
        rw [routed_congr (by rw [hturn]) (act_qid hact (.inl hg))] at hrouted
        exact hg (c.distinct ((hold.mpr ⟨hkeeps, hrouted⟩).symm.trans hown))
    · refine hsame (.inr ⟨by simp, by simp, ?_⟩) (by rw [hturn])
        (by rw [hquad, Function.update_of_ne hk])
      rintro ⟨⟩
      exact hk rfl
  | stopped hturn hquad =>
    by_cases hg : g = l.who
    · subst hg
      rw [hquad, hold, hplace]
      exact iff_of_false (fun h => by cases h.1) fun h => hout _ (by simp) hturn h.2
    · exact hsame (.inl hg) (by rw [hturn, Function.update_of_ne hg]) (by rw [hquad])
  | none _ hch hst hrel hturn hquad =>
    by_cases hk : g = l.who ∧ place = .release k
    · obtain ⟨rfl, rfl⟩ := hk
      rw [hquad]
      refine iff_of_false (hrel k rfl) ?_
      rintro ⟨hkeeps, -⟩
      rw [Pc.keeps_succ _ k _ hf.succ hst] at hkeeps
      simp at hkeeps
    · refine hsame ?_ (by rw [hturn]) (by rw [hquad])
      by_cases hg : g = l.who
      · exact .inr ⟨hch, hst, fun heq => hk ⟨hg, heq⟩⟩
      · exact .inl hg

theorem Traffic.owned_step (hl : Lined s q) (ht : Traffic c s) (hplace : s.pc l.who = place)
    (hact : act c l s place = some (line, s')) (k : Quadrant) :
    s'.quadrant k = -1 ∨ ∃ g, s'.quadrant k = c.cid g := by
  cases act_effect hl ht hplace hact with
  | granted g way _ _ _ _ _ hquad =>
    rw [hquad, claimed]
    split
    · exact .inr ⟨g, rfl⟩
    · exact ht.owned k
  | gave i _ _ hquad =>
    rw [hquad]
    by_cases hk : k = i
    · exact .inl (by rw [hk, Function.update_self])
    · rw [Function.update_of_ne hk]
      exact ht.owned k
  | drawn _ hquad | stopped _ hquad | none _ _ _ _ _ hquad =>
    rw [hquad]
    exact ht.owned k

/-- Who is crossing was crossing before, or was just given its route. -/
theorem Traffic.turning_of_step {g : C} {way : Way} (hl : Lined s q) (ht : Traffic c s)
    (hplace : s.pc l.who = place) (hact : act c l s place = some (line, s'))
    (hway : s'.turn g = .turning way) :
    (∃ way, s.turn g = .turning way) ∨
      ∃ way, Tries l s g place ∧ s.turn g = .want way ∧ Free s (s.qid g) way := by
  cases act_effect hl ht hplace hact with
  | drawn hturn | stopped hturn =>
    by_cases hg : g = l.who
    · subst hg
      rw [hturn, Function.update_self] at hway
      cases hway
    · rw [hturn, Function.update_of_ne hg] at hway
      exact .inl ⟨way, hway⟩
  | granted g₀ way₀ _ htries hway₀ hfree hturn =>
    by_cases hg : g = g₀
    · subst hg
      exact .inr ⟨way₀, htries, hway₀, hfree⟩
    · rw [hturn, Function.update_of_ne hg] at hway
      exact .inl ⟨way, hway⟩
  | gave _ _ hturn | none _ _ _ _ hturn =>
    rw [hturn] at hway
    exact .inl ⟨way, hway⟩

theorem Traffic.ahead_step (hl : Lined s q) (ht : Traffic c s) (hplace : s.pc l.who = place)
    (hact : act c l s place = some (line, s')) (g : C) (way : Way)
    (hway : s'.turn g = .turning way) : s'.queue (s'.qid g) = some g := by
  rcases ht.turning_of_step hl hplace hact hway with ⟨way', hold⟩ | ⟨way', htries, hway', -⟩
  · -- who was crossing stays ahead: `dequeue_car` takes off a car that has stopped
    have hself : g = l.who → place.crosses = true := by
      rintro rfl
      rw [← hplace]
      have hallows := ht.turns l.who
      rwa [hold] at hallows
    have hqid : s'.qid g = s.qid g := by
      refine act_qid hact ?_
      by_cases hg : g = l.who
      · refine .inr ?_
        rintro rfl
        cases hself hg
      · exact .inl hg
    rw [hqid]
    refine act_head hact (ht.ahead g way' hold) ?_
    rintro rfl hqid'
    have hhead := hl.front l.who (by rw [hplace]; rfl)
    rw [hqid', ht.ahead g way' hold] at hhead
    cases hself (Option.some.inj hhead)
  · have hmoves : place ≠ .choosing ∧ place ≠ .dequeueing := by
      rcases htries with ⟨rfl, -⟩ | ⟨rfl, -⟩ <;> simp
    rw [act_qid hact (.inr hmoves.1)]
    exact act_head hact (ht.tries_spec hl hplace htries hway').1 fun h => absurd h hmoves.2

/-- A step that gives a car a route, or ends its trip, is taken where the car has locked
no quadrant. -/
theorem Traffic.took_routed (hl : Lined s q) (ht : Traffic c s) (hplace : s.pc l.who = place)
    (hact : act c l s place = some (line, s')) (g : C) (k : Quadrant)
    (htook : (s'.pc g).took k = true) : Routed s' g k ↔ Routed s g k := by
  obtain ⟨hf, -⟩ := act_frame hact
  have hno : place.took k = false → place ≠ .acquire k → g ≠ l.who := by
    rintro hbefore hacq rfl
    rw [Pc.took_succ place k _ hf.succ, hbefore] at htook
    simp [hacq] at htook
  cases act_effect hl ht hplace hact with
  | drawn hturn hquad =>
    have hg := hno rfl (by simp)
    exact routed_congr (by rw [hturn, Function.update_of_ne hg]) (act_qid hact (.inl hg))
  | granted g₀ way _ htries hway _ hturn hquad =>
    have hmoves : place ≠ .choosing ∧ place ≠ .acquire k := by
      rcases htries with ⟨rfl, -⟩ | ⟨rfl, -⟩ <;> simp
    have hg : g ≠ g₀ := by
      rintro rfl
      have hbefore := (Pc.wants_spec _ k (ht.tries_spec hl hplace htries hway).2.1).1
      by_cases hgw : g = l.who
      · rw [hgw, hplace] at hbefore
        exact hno hbefore hmoves.2 hgw
      · rw [hf.others g hgw, hbefore] at htook
        cases htook
    exact routed_congr (by rw [hturn, Function.update_of_ne hg]) (act_qid hact (.inr hmoves.1))
  | gave i hown hturn hquad => exact routed_congr (by rw [hturn]) (act_qid hact (.inr (by simp)))
  | stopped hturn hquad =>
    have hg := hno rfl (by simp)
    exact routed_congr (by rw [hturn, Function.update_of_ne hg]) (act_qid hact (.inl hg))
  | none _ hch _ _ hturn hquad => exact routed_congr (by rw [hturn]) (act_qid hact (.inr hch))

omit [DecidableEq C] [Fintype C] in
theorem Traffic.taken_quadrant {g : C} (ht : Traffic c s) (hplace : s.pc g = place)
    (k : Quadrant) :
    (taken c s g place = some (.quadrantLock k) ↔ place = .acquire k ∧ Routed s g k) ∧
      (given c s g place = some (.quadrantLock k) ↔ place = .release k ∧ Routed s g k) := by
  have hclaims := ht.claims g k
  rw [hplace] at hclaims
  constructor
  · cases place with
    | acquire i =>
      simp only [taken, Option.ite_none_right_eq_some, Option.some.injEq,
        Mutex.quadrantLock.injEq, Pc.acquire.injEq]
      constructor
      · rintro ⟨hown, rfl⟩
        exact ⟨rfl, (hclaims.mp hown).2⟩
      · rintro ⟨rfl, hrouted⟩
        exact ⟨hclaims.mpr ⟨rfl, hrouted⟩, rfl⟩
    | _ => simp [taken]
  · cases place with
    | release i =>
      simp only [given, Option.ite_none_right_eq_some, Option.some.injEq,
        Mutex.quadrantLock.injEq, Pc.release.injEq]
      constructor
      · rintro ⟨hown, rfl⟩
        exact ⟨rfl, (hclaims.mp hown).2⟩
      · rintro ⟨rfl, hrouted⟩
        exact ⟨hclaims.mpr ⟨decide_eq_true le_rfl, hrouted⟩, rfl⟩
    | _ => simp [given]

omit [DecidableEq C] [Fintype C] in
/-- A mutex is unlocked by the car that has locked it. -/
theorem Traffic.given_holds (ht : Traffic c s) (hplace : s.pc l.who = place) {m : Mutex}
    (hgiven : given c s l.who place = some m) : Holds s l.who m := by
  cases place with
  | release i =>
    obtain ⟨-, rfl⟩ : s.quadrant i = c.cid l.who ∧ .quadrantLock i = m := by
      simpa only [given, Option.ite_none_right_eq_some, Option.some.injEq] using hgiven
    obtain ⟨-, hrouted⟩ := (ht.taken_quadrant hplace i).2.mp hgiven
    refine ⟨?_, hrouted⟩
    rw [hplace]
    exact decide_eq_true le_rfl
  | _ =>
    cases hgiven
    all_goals simp [Holds, hplace, Pc.held]

/-- The step of a car changes what it has locked by `taken` and `given`. -/
theorem Traffic.holds_step (hl : Lined s q) (ht : Traffic c s) (hplace : s.pc l.who = place)
    (hact : act c l s place = some (line, s')) (m : Mutex) :
    Holds s' l.who m ↔
      (Holds s l.who m ∨ taken c s l.who place = some m) ∧ given c s l.who place ≠ some m := by
  obtain ⟨hf, -⟩ := act_frame hact
  have hrest : ∀ m, (∀ k, m ≠ .quadrantLock k) → (m ∈ (s'.pc l.who).held (s'.qid l.who) ↔
      (m ∈ (s.pc l.who).held (s.qid l.who) ∨ taken c s l.who place = some m) ∧
        given c s l.who place ≠ some m) := by
    intro m hm
    rw [hplace, ← Pc.held_succ c s l.who hf.succ hm]
    by_cases hch : place = .choosing
    · subst hch
      rw [List.mem_singleton.mp hf.succ]
      exact Iff.rfl
    · rw [act_qid hact (.inr hch)]
  cases m with
  | intersectionLock => exact hrest _ (by simp)
  | queueLock i => exact hrest _ (by simp)
  | quadrantLock k =>
    obtain ⟨htaken, hgiven⟩ := ht.taken_quadrant hplace k
    have htook := Pc.took_succ place k _ hf.succ
    have hrouted := ht.took_routed hl hplace hact l.who k
    simp only [Holds, htaken, hgiven, hplace, ne_eq]
    rw [and_congr_right hrouted, htook]
    simp only [Bool.and_eq_true, Bool.or_eq_true, decide_eq_true_eq, ne_eq, ← or_and_right]
    constructor
    · rintro ⟨⟨htakes, hkeeps⟩, hroute⟩
      exact ⟨⟨htakes, hroute⟩, fun hgives => hkeeps hgives.1⟩
    · rintro ⟨⟨htakes, hroute⟩, hkeeps⟩
      exact ⟨⟨htakes, fun hgives => hkeeps ⟨hgives, hroute⟩⟩, hroute⟩

theorem Traffic.locks_step (hl : Lined s q) (ht : Traffic c s) (hplace : s.pc l.who = place)
    (hact : act c l s place = some (line, s')) : Held s'.lock (Holds s') := by
  obtain ⟨hf, hlock⟩ := act_frame hact
  have hothers : ∀ g, g ≠ l.who → ∀ m, Holds s' g m ↔ Holds s g m := by
    intro g hg m
    cases m with
    | quadrantLock k =>
      have hrouted := ht.took_routed hl hplace hact g k
      simp only [Holds]
      rw [hf.others g hg] at hrouted ⊢
      exact and_congr_right hrouted
    | _ => simp only [Holds, hf.others g hg, act_qid hact (.inl hg)]
  have hself := ht.holds_step hl hplace hact
  unfold LockStep at hlock
  cases htaken : taken c s l.who place with
  | some m =>
    have hgiven : given c s l.who place = none := by
      cases place <;> first | rfl | cases htaken
    rw [htaken] at hlock
    obtain ⟨hfree, heq⟩ := hlock
    rw [heq]
    refine ht.locks.acquire hfree hothers fun m' => ?_
    rw [hself, htaken, hgiven]
    simp [eq_comm]
  | none =>
    cases hgiven : given c s l.who place with
    | some m =>
      rw [htaken, hgiven] at hlock
      rw [hlock]
      refine ht.locks.release (ht.given_holds hplace hgiven) hothers fun m' => ?_
      rw [hself, htaken, hgiven]
      simp [eq_comm]
    | none =>
      rw [htaken, hgiven] at hlock
      rw [hlock]
      refine ht.locks.congr fun g m => ?_
      by_cases hg : g = l.who
      · subst hg
        rw [hself, htaken, hgiven]
        simp
      · exact hothers g hg m

theorem Traffic.step {a : Answer C} (hl : Lined s q) (ht : Traffic c s)
    (hs : Drivers.step c l s = some (a, s')) : Traffic c s' := by
  obtain ⟨-, hact⟩ := step_inv hs
  exact ⟨ht.turns_step hl rfl hact, ht.claims_step hl rfl hact, ht.owned_step hl rfl hact,
    ht.ahead_step hl rfl hact, ht.locks_step hl rfl hact⟩

theorem steps_traffic (c : Setup C) : ∀ ls tr s, steps c ls = some (tr, s) → Traffic c s := by
  refine run_rule_with (Q := fun _ s => Traffic c s) (steps_lined c) (init_traffic c) ?_
  rintro tr s l a s' ⟨q, hl⟩ ht hs
  exact ht.step hl hs

end Steps

/-! ## Safety -/

section Safety

variable {c : Setup C} {s : State C} {g : C} {way : Way}

/-- While nobody is in the intersection's critical section, nobody is giving back. -/
theorem Traffic.keeps_of_free (ht : Traffic c s) (hfree : s.lock .intersectionLock = none)
    (k : Quadrant) : (s.pc g).keeps k = true := by
  have hout : ¬ Holds s g .intersectionLock := ht.locks.free_iff.mp hfree g
  rw [Holds] at hout
  · generalize s.pc g = pc at hout
    cases pc <;> first | rfl | exact absurd List.mem_cons_self hout
  · simp

theorem Traffic.owns_route (ht : Traffic c s) (hfree : s.lock .intersectionLock = none)
    (hway : s.turn g = .turning way) (k : Quadrant) :
    s.quadrant k = c.cid g ↔ k ∈ route (s.qid g) way := by
  rw [ht.claims, Routed, hway]
  simp [ht.keeps_of_free hfree]

/-- Nobody finds a quadrant locked: it would be claimed twice. -/
theorem Traffic.quadrant_free (ht : Traffic c s) {k : Quadrant}
    (htaken : taken c s g (s.pc g) = some (.quadrantLock k)) :
    s.pc g = .acquire k ∧ s.lock (.quadrantLock k) = none := by
  obtain ⟨hplace, hrouted⟩ := (ht.taken_quadrant rfl k).1.mp htaken
  refine ⟨hplace, ht.locks.free_iff.mpr ?_⟩
  rintro h ⟨htook, hrouted'⟩
  have hg : s.quadrant k = c.cid g := (ht.claims g k).mpr ⟨by rw [hplace]; rfl, hrouted⟩
  have hh : s.quadrant k = c.cid h :=
    (ht.claims h k).mpr ⟨Pc.keeps_of_took _ k htook, hrouted'⟩
  rw [← c.distinct (hg.symm.trans hh), hplace] at htook
  exact absurd (of_decide_eq_true htook) (lt_irrefl _)

/-- While `intersectionLock` is free, a crossing car owns its route, and nobody else
owns anything; so two crossing cars do not meet. -/
theorem intersection_safe [DecidableEq C] [Fintype C] (c : Setup C) (ls : List (Label C))
    (tr : History C) (s : State C) (hrun : steps c ls = some (tr, s))
    (hfree : s.lock .intersectionLock = none) :
    (∀ g way, s.turn g = .turning way → ∀ k, s.quadrant k = c.cid g ↔ k ∈ route (s.qid g) way) ∧
    (∀ g, (∀ way, s.turn g ≠ .turning way) → ∀ k, s.quadrant k ≠ c.cid g) ∧
    (∀ g h way way', g ≠ h → s.turn g = .turning way → s.turn h = .turning way' →
      List.Disjoint (route (s.qid g) way) (route (s.qid h) way')) := by
  have ht := steps_traffic c ls tr s hrun
  refine ⟨fun g way hway => ht.owns_route hfree hway, fun g hturn k => ht.unclaimed hturn, ?_⟩
  intro g h way way' hne hg hh k hk hk'
  refine hne (c.distinct ?_)
  rw [← (ht.owns_route hfree hg k).mpr hk, (ht.owns_route hfree hh k).mpr hk']

/-- A car goes from `choosing` to `crossing` without stopping. -/
def drivesIn (car : C) (qid : Direction) (way : Way) : List (Label C) :=
  List.replicate 16 ⟨car, qid, way, false⟩

/-- From the north and from the south, both straight on. -/
theorem intersection_safe_opposite : ∃ tr s,
    steps twoCars (drivesIn false .north .straight ++ drivesIn true .south .straight) =
      some (tr, s) ∧
    s.lock .intersectionLock = none ∧
    s.turn false = .turning .straight ∧ s.turn true = .turning .straight ∧
    (∀ k, s.quadrant k = 0 ↔ k ∈ route .north .straight) ∧
    List.Disjoint (route .north .straight) (route .south .straight) := by
  have heval : (steps twoCars (drivesIn false .north .straight ++
      drivesIn true .south .straight)).map (fun x => decide (
        x.2.lock .intersectionLock = none ∧ x.2.turn false = .turning .straight ∧
        x.2.turn true = .turning .straight ∧ x.2.qid false = .north ∧ x.2.qid true = .south)) =
      some true := by
    decide +kernel
  obtain ⟨⟨tr, s⟩, hrun, h⟩ := Option.map_eq_some_iff.mp heval
  obtain ⟨hfree, hfalse, htrue, hnorth, hsouth⟩ := of_decide_eq_true h
  obtain ⟨howns, -, hdisj⟩ := intersection_safe twoCars _ tr s hrun hfree
  have hroute := howns false .straight hfalse
  have hmeet := hdisj false true .straight .straight nofun hfalse htrue
  rw [hnorth] at hroute hmeet
  rw [hsouth] at hmeet
  exact ⟨tr, s, hrun, hfree, hfalse, htrue, hroute, hmeet⟩

/-! ## The quadrant mutexes -/

/-- The mutex of a quadrant is held by the car that has claimed the quadrant, or by
nobody. -/
theorem Traffic.lock_claimed (ht : Traffic c s) {k : Quadrant}
    (hlock : s.lock (.quadrantLock k) = some g) : s.quadrant k = c.cid g := by
  obtain ⟨htook, hrouted⟩ := (ht.locks _ g).mp hlock
  exact (ht.claims g k).mpr ⟨Pc.keeps_of_took _ k htook, hrouted⟩

/-- From `aquire_locks` on, a claimed quadrant that was not given back is locked. -/
theorem Traffic.lock_iff_claimed (ht : Traffic c s) {k : Quadrant}
    (hplace : (s.pc g).took k = (s.pc g).keeps k) :
    s.lock (.quadrantLock k) = some g ↔ s.quadrant k = c.cid g := by
  rw [ht.locks, ht.claims, Holds, hplace]

/-- The two records of who is where, `quadrant[]` and the mutexes, agree. In
`aquire_locks` no mutex is found locked, in `leave_intersection` every mutex is unlocked
by its holder, and in between a car holds the mutexes of the quadrants it has claimed. -/
theorem quadrant_locks_follow_claims [DecidableEq C] [Fintype C] (c : Setup C)
    (ls : List (Label C)) (tr : History C) (s : State C) (hrun : steps c ls = some (tr, s)) :
    (∀ i g, s.lock (.quadrantLock i) = some g → s.quadrant i = c.cid g) ∧
    (∀ l i, s.pc l.who = .acquire i → s.lock .intersectionLock = some l.who ∧
      (s.quadrant i = c.cid l.who → s.lock (.quadrantLock i) = none) ∧
      ∃ a s', step c l s = some (a, s')) ∧
    (∀ g i, s.pc g = .release i → s.quadrant i = c.cid g →
      s.lock (.quadrantLock i) = some g) ∧
    (∀ g, s.pc g = .unlockCross ∨ s.pc g = .crossing ∨ s.pc g = .departing ∨
        (∃ i, s.pc g = .release i) →
      ∀ k, s.lock (.quadrantLock k) = some g ↔ s.quadrant k = c.cid g) := by
  have ht := steps_traffic c ls tr s hrun
  refine ⟨fun i g => ht.lock_claimed, ?_, ?_, ?_⟩
  · intro l i hplace
    have hcross : s.lock .intersectionLock = some l.who := by
      refine (ht.locks .intersectionLock l.who).mpr ?_
      show .intersectionLock ∈ (s.pc l.who).held (s.qid l.who)
      rw [hplace]
      exact List.mem_cons_self
    have hfree : s.quadrant i = c.cid l.who → s.lock (.quadrantLock i) = none := by
      intro hown
      refine (ht.quadrant_free (g := l.who) ?_).2
      rw [hplace, taken, if_pos hown]
    refine ⟨hcross, hfree, ?_⟩
    unfold step
    rw [hplace]
    by_cases hown : s.quadrant i = c.cid l.who
    · simp [act, hown, State.take, mutexLock, hfree hown]
    · simp [act, hown]
  · intro g i hplace hown
    refine (ht.lock_iff_claimed ?_).mpr hown
    rw [hplace]
    rfl
  · intro g hplace k
    refine ht.lock_iff_claimed ?_
    rcases hplace with h | h | h | ⟨i, h⟩ <;> rw [h] <;> rfl

/-- Car 0 has got as far as the last mutex of its way straight on from the north, and
takes it. -/
theorem quadrant_locks_follow_claims_last_mutex : ∃ tr s,
    steps twoCars ((drivesIn false .north .straight).take 13) = some (tr, s) ∧
    s.pc false = .acquire .sw ∧ s.quadrant .nw = 0 ∧ s.quadrant .sw = 0 ∧
    s.lock (.quadrantLock .nw) = some false ∧ s.lock (.quadrantLock .sw) = none := by
  have heval : (steps twoCars ((drivesIn false .north .straight).take 13)).map (fun x =>
      decide (x.2.pc false = .acquire .sw ∧ x.2.quadrant .nw = 0 ∧ x.2.quadrant .sw = 0 ∧
        x.2.lock (.quadrantLock .nw) = some false)) = some true := by decide +kernel
  obtain ⟨⟨tr, s⟩, hrun, h⟩ := Option.map_eq_some_iff.mp heval
  obtain ⟨hplace, hnw, hsw, hlock⟩ := of_decide_eq_true h
  obtain ⟨-, hacquire, -⟩ := quadrant_locks_follow_claims twoCars _ tr s hrun
  obtain ⟨-, hfree, -⟩ := hacquire ⟨false, .north, .straight, false⟩ .sw hplace
  exact ⟨tr, s, hrun, hplace, hnw, hsw, hlock, hfree hsw⟩

end Safety

end OsProjects.Drivers
