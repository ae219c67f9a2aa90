import OsProjects.Drivers.Traffic
import OsProjects.Lib.Lists

/-!
# What is said about a trip

A trip should be announced as approaching, arrived, entered, left. A leaving car calls
`enter_intersection` for the head of every queue, and that call prints also for a head
that is crossing already, and for one that was let in before its own thread got through
`wait_for_queue`. The announcements are in order exactly as long as neither happens
(`Prompt`).
-/

namespace OsProjects.Drivers

open OsProjects.Lib

/-! ## Events -/

inductive Event
  | approaching
  | arrived
  | entered
  | left
  deriving DecidableEq

/-- The announcements of a trip, in order. -/
def trip : List Event := [.approaching, .arrived, .entered, .left]

variable {C : Type}

/-- The car that a line is about. -/
def Line.car : Line C → C
  | .approaching car _ | .arrived car _ | .entered car _ _ | .left car => car

def Line.event : Line C → Event
  | .approaching .. => .approaching
  | .arrived .. => .arrived
  | .entered .. => .entered
  | .left .. => .left

section Events

variable [DecidableEq C]

/-- What a step says about car `g`. -/
def told (g : C) (line : Option (Line C)) : Option Event :=
  line.bind fun x => if x.car = g then some x.event else none

/-- The printed events of car `g`. -/
def events (g : C) (tr : History C) : List Event := tr.filterMap fun x => told g x.2.line

theorem events_snoc (g : C) (tr : History C) (l : Label C) (a : Answer C) :
    events g (tr ++ [(l, a)]) = events g tr ++ (told g a.line).toList := by
  unfold events
  rw [List.filterMap_append]
  cases h : told g a.line <;> simp [h]

theorem told_self (x : Line C) : told x.car (some x) = some x.event := if_pos rfl

theorem told_ne {g : C} {x : Line C} (h : g ≠ x.car) : told g (some x) = none :=
  if_neg (Ne.symm h)

end Events

/-! ## Stages of a trip -/

namespace Pc

/-- How many announcements of the trip were printed at a place, at a `W` turn. -/
def stage : Pc → Nat
  | .choosing | .lockJoin | .joining => 0
  | .unlockJoin | .lockFront | .testFront | .waitFront | .sleepFront => 1
  | .unlockFront | .lockCross | .testTurn | .signalSelf | .waitTurn | .sleepTurn | .acquire _
  | .unlockCross | .crossing | .departing => 2
  | _ => 0

/-- The step may print something. -/
def tells : Pc → Bool
  | .joining | .testFront | .testTurn | .departing | .scan _ => true
  | _ => false

theorem stage_succ (pc : Pc) : ∀ pc' ∈ pc.succ, pc.tells = false → pc'.stage = pc.stage := by
  cases pc with
  | acquire i | release i | lockScan i | scan i | signalHead i | unlockScan i =>
    cases i <;> decide
  | _ => decide

theorem atFront_forward (pc : Pc) : ∀ pc' ∈ pc.succ, pc.atFront = true → pc ≠ .dequeueing →
    pc'.atFront = true := by
  cases pc with
  | acquire i | release i | lockScan i | scan i | signalHead i | unlockScan i =>
    cases i <;> decide
  | _ => decide

theorem atFront_of_stage (pc : Pc) (h : pc.stage = 2) : pc.atFront = true := by
  cases pc <;> first | rfl | cases h

theorem stage_of_wants (pc : Pc) (h : pc.wants = true) (hfront : pc.atFront = true) :
    pc.stage = 2 := by
  cases pc <;> first | rfl | simp_all [wants, atFront]

theorem stage_of_crosses (pc : Pc) (qid : Direction) (h : pc.crosses = true)
    (hfront : pc.atFront = true) (hout : .intersectionLock ∉ pc.held qid) : pc.stage = 2 := by
  cases pc <;>
    first | rfl | exact absurd List.mem_cons_self hout | simp_all [crosses, atFront]

end Pc

/-- The announcements of the trip that were printed. -/
def said (pc : Pc) : Turn → Nat
  | .turning _ => if pc.stage = 2 then 3 else pc.stage
  | _ => pc.stage

theorem said_of_stage {pc : Pc} (h : pc.stage ≠ 2) (t : Turn) : said pc t = pc.stage := by
  cases t with
  | turning way => exact if_neg h
  | _ => rfl

theorem said_congr {pc pc' : Pc} (h : pc'.stage = pc.stage) (t : Turn) :
    said pc' t = said pc t := by
  cases t <;> simp [said, h]

/-- When `leave_intersection` looks at a queue, its head is not crossing; and if the route
of the head is free, its thread has got through `wait_for_queue`. -/
def Prompt (l : Label C) (s : State C) : Prop :=
  ∀ i g, s.pc l.who = .scan i → s.queue i = some g →
    (∀ way, s.turn g ≠ .turning way) ∧
    (∀ way, s.turn g = .want way → Free s i way → (s.pc g).atFront = true)

/-- Every car's events are in order, up to where it is in its trip. -/
structure Telling [DecidableEq C] (tr : History C) (s : State C) : Prop where
  cycles : ∀ g, Cycles trip (events g tr)
  phase : ∀ g, (events g tr).length % 4 = said (s.pc g) (s.turn g)
  late : ∀ g way, s.turn g = .turning way → (s.pc g).atFront = true

section Steps

variable [DecidableEq C] [Fintype C] {c : Setup C} {l : Label C} {s s' : State C}
  {q : Direction → List C} {place : Pc} {line : Option (Line C)} {tr : History C} {g : C}

/-- What a step says about a car is what comes next, and brings it on by one. -/
def Next (s s' : State C) (line : Option (Line C)) (g : C) : Prop :=
  match told g line with
  | none => said (s'.pc g) (s'.turn g) = said (s.pc g) (s.turn g)
  | some e => trip[said (s.pc g) (s.turn g)]? = some e ∧
      said (s'.pc g) (s'.turn g) = (said (s.pc g) (s.turn g) + 1) % 4

theorem act_silent (hact : act c l s place = some (line, s')) (hno : place.tells = false) :
    line = none := by
  have hmap : ∀ {x : Option (State C)}, x.map (none, ·) = some (line, s') → line = none := by
    intro x hx
    obtain ⟨s₁, -, heq⟩ := Option.map_eq_some_iff.mp hx
    cases heq
    rfl
  cases place with
  | lockJoin | lockFront | lockDequeue | lockCross | crossing | sleepFront | sleepTurn =>
    exact hmap hact
  | lockScan i => exact hmap hact
  | acquire i =>
    by_cases hown : s.quadrant i = c.cid l.who
    · simp only [act, if_pos hown] at hact
      exact hmap hact
    · simp only [act, if_neg hown] at hact
      cases hact
      rfl
  | release i =>
    by_cases hown : s.quadrant i = c.cid l.who
    · simp only [act, if_pos hown] at hact
      cases hact
      rfl
    · simp only [act, if_neg hown] at hact
      cases hact
      rfl
  | dequeueing =>
    obtain ⟨s₁, -, heq⟩ := Option.map_eq_some_iff.mp hact
    cases heq
    rfl
  | joining | testFront | testTurn | departing | scan i => cases hno
  | _ =>
    cases hact
    rfl

omit [Fintype C] in
/-- A car about which nothing is said, and that does not move. -/
theorem next_none (htold : told g line = none)
    (hsaid : said (s'.pc g) (s'.turn g) = said (s.pc g) (s.turn g)) : Next s s' line g := by
  unfold Next
  rw [htold]
  exact hsaid

omit [Fintype C] in
theorem next_some {e : Event} (htold : told g line = some e)
    (hnext : trip[said (s.pc g) (s.turn g)]? = some e)
    (hsaid : said (s'.pc g) (s'.turn g) = (said (s.pc g) (s.turn g) + 1) % 4) :
    Next s s' line g := by
  unfold Next
  rw [htold]
  exact ⟨hnext, hsaid⟩

/-- The turn of a car changes where nothing is printed when it is drawn or given up. -/
theorem act_turn_silent (hact : act c l s place = some (line, s')) (hno : place.tells = false) :
    (∀ g, g ≠ l.who → s'.turn g = s.turn g) ∧
      (s'.turn l.who = s.turn l.who ∨ place.stage ≠ 2) := by
  obtain ⟨hf, -⟩ := act_frame hact
  cases hed : place.editsTurn with
  | false =>
    rw [hf.turn hed]
    exact ⟨fun _ _ => rfl, .inl rfl⟩
  | true =>
    cases place with
    | choosing | stopping =>
      cases hact
      exact ⟨fun g hg => Function.update_of_ne hg .., .inr nofun⟩
    | testTurn | scan i => cases hno
    | _ => cases hed

theorem next_silent (hplace : s.pc l.who = place) (hact : act c l s place = some (line, s'))
    (hno : place.tells = false) (g : C) : Next s s' line g := by
  obtain ⟨hf, -⟩ := act_frame hact
  obtain ⟨hothers, hself⟩ := act_turn_silent hact hno
  have hstage := Pc.stage_succ place _ hf.succ hno
  refine next_none (by rw [act_silent hact hno]; rfl) ?_
  by_cases hg : g = l.who
  · subst hg
    rw [hplace]
    rcases hself with hturn | hne
    · rw [hturn, said_congr hstage]
    · rw [said_of_stage hne, said_of_stage (by rw [hstage]; exact hne), hstage]
  · rw [hf.others g hg, hothers g hg]

omit [Fintype C] in
/-- A step that only goes on to a place of the same stage. -/
theorem next_goto {car : C} (pc : Pc) (hplace : s.pc car = place) (hstage : pc.stage = place.stage)
    (g : C) : Next s (s.goto car pc) none g := by
  refine next_none rfl ?_
  by_cases hg : g = car
  · subst hg
    rw [hplace, goto_pc_self]
    exact said_congr hstage _
  · rw [goto_pc_ne s pc hg]
    rfl

/-- At its own steps a car says what is next. -/
theorem next_self (ht : Traffic c s) (hlate : ∀ way, s.turn l.who = .turning way →
      (s.pc l.who).atFront = true) (hplace : s.pc l.who = place)
    (hact : act c l s place = some (line, s')) (htells : place.tells = true)
    (hscan : ∀ i, place ≠ .scan i) (g : C) : Next s s' line g := by
  obtain ⟨hf, -⟩ := act_frame hact
  have hother : g ≠ l.who → (∀ x, line = some x → x.car = l.who) → s'.turn g = s.turn g →
      Next s s' line g := by
    intro hg hline hturn
    refine next_none ?_ (by rw [hf.others g hg, hturn])
    cases line with
    | none => rfl
    | some x => exact told_ne (by rw [hline x rfl]; exact hg)
  have hallows := ht.turns l.who
  rw [hplace] at hallows hlate
  cases place with
  | joining =>
    have hturn := hf.turn rfl
    have hpc : s'.pc l.who = .unlockJoin := List.mem_singleton.mp hf.succ
    obtain ⟨s₁, -, heq⟩ := Option.map_eq_some_iff.mp hact
    obtain ⟨rfl, -⟩ := Prod.mk.inj heq
    by_cases hg : g = l.who
    · subst hg
      refine next_some (told_self _) ?_ ?_
      · rw [hplace]
        cases s.turn l.who <;> rfl
      · rw [hplace, hpc, hturn]
        cases s.turn l.who <;> rfl
    · exact hother hg (by rintro x ⟨⟩; rfl) (by rw [hturn])
  | testFront =>
    rcases act_testFront hact with ⟨-, rfl, rfl⟩ | ⟨-, rfl, rfl⟩
    · by_cases hg : g = l.who
      · subst hg
        refine next_some (told_self _) ?_ ?_
        · rw [hplace]
          cases s.turn l.who <;> rfl
        · -- the car is not crossing yet
          rw [hplace, goto_pc_self]
          show said .unlockFront (s.turn l.who) = (said .testFront (s.turn l.who) + 1) % 4
          cases hturn : s.turn l.who with
          | turning way => cases hlate way hturn
          | _ => rfl
      · exact hother hg (by rintro x ⟨⟩; rfl) rfl
    · exact next_goto .waitFront hplace rfl g
  | testTurn =>
    rcases act_testTurn ht hplace hact with
      ⟨way, hway, -, rfl, rfl⟩ | ⟨way, hway, -, rfl, rfl⟩ | ⟨way, hway, rfl, rfl⟩
    · by_cases hg : g = l.who
      · subst hg
        refine next_some (told_self _) ?_ ?_
        · rw [hplace, hway]
          rfl
        · rw [hplace, hway, goto_pc_self]
          show said .signalSelf (Function.update s.turn l.who _ l.who) = 3
          rw [Function.update_self]
          rfl
      · exact hother hg (by rintro x ⟨⟩; rfl) (Function.update_of_ne hg ..)
    · exact next_goto .waitTurn hplace rfl g
    · exact next_goto (.acquire .nw) hplace rfl g
  | departing =>
    cases hact
    by_cases hg : g = l.who
    · subst hg
      obtain ⟨way, hway⟩ : ∃ way, s.turn l.who = .turning way := by
        cases hturn : s.turn l.who with
        | turning way => exact ⟨way, rfl⟩
        | _ =>
          rw [hturn] at hallows
          cases hallows
      refine next_some (told_self _) ?_ ?_
      · rw [hplace, hway]
        rfl
      · rw [hplace, goto_pc_self]
        show said (.release .nw) (s.turn l.who) = (said .departing (s.turn l.who) + 1) % 4
        rw [hway]
        simp [said, Pc.stage]
    · exact hother hg (by rintro x ⟨⟩; rfl) rfl
  | scan i => exact absurd rfl (hscan i)
  | _ => cases htells

omit [DecidableEq C] [Fintype C] in
/-- Who is looked at while somebody leaves is not that car, and not in the intersection's
critical section. -/
theorem Traffic.looked_at (ht : Traffic c s) {i : Direction} (hplace : s.pc l.who = .scan i)
    (hturn : s.turn g ≠ .noTurn) :
    g ≠ l.who ∧ .intersectionLock ∉ (s.pc g).held (s.qid g) := by
  have hg : g ≠ l.who := by
    rintro rfl
    have hallows := ht.turns l.who
    rw [hplace] at hallows
    cases h : s.turn l.who with
    | noTurn => exact hturn h
    | _ =>
      rw [h] at hallows
      cases hallows
  refine ⟨hg, fun hin => hg (ht.cross_unique hin ?_)⟩
  rw [hplace]
  exact List.mem_cons_self

/-- While somebody leaves, the head is announced only as a car that has just entered. -/
theorem next_scan (hl : Lined s q) (ht : Traffic c s) {i : Direction} (hprompt : Prompt l s)
    (hplace : s.pc l.who = .scan i) (hact : act c l s (.scan i) = some (line, s')) (g : C) :
    Next s s' line g := by
  obtain ⟨hf, -⟩ := act_frame hact
  -- the leaving car is between trips
  have hsame : s'.turn g = s.turn g → said (s'.pc g) (s'.turn g) = said (s.pc g) (s.turn g) := by
    intro hturn
    rw [hturn]
    by_cases hg : g = l.who
    · subst hg
      rw [hplace]
      refine said_congr ?_ _
      rcases List.mem_pair.mp hf.succ with hpc | hpc <;> rw [hpc] <;> rfl
    · rw [hf.others g hg]
  rcases act_scan hl ht hact with
    ⟨rfl, rfl, -⟩ | ⟨h, way, hhead, hway, -⟩ | ⟨h, way, hhead, rfl, hway, hfree, rfl, rfl⟩
  · exact next_none rfl (hsame rfl)
  · exact absurd hway ((hprompt i h hplace hhead).1 way)
  · by_cases hg : g = h
    · subst hg
      have hfront := (hprompt _ g hplace hhead).2 way hway hfree
      have hwants := ht.turns g
      rw [hway] at hwants
      have hstage := Pc.stage_of_wants _ hwants hfront
      have hgw := (ht.looked_at hplace (by rw [hway]; exact nofun)).1
      refine next_some (told_self _) ?_ ?_
      · rw [hway]
        show trip[(s.pc g).stage]? = _
        rw [hstage]
        rfl
      · rw [hf.others g hgw, hway]
        show said _ (Function.update s.turn g _ g) = ((s.pc g).stage + 1) % 4
        rw [Function.update_self, hstage]
        exact if_pos hstage
    · exact next_none (told_ne hg) (hsame (Function.update_of_ne hg ..))

theorem Telling.late_step (hl : Lined s q) (ht : Traffic c s) (hlate : ∀ g way,
      s.turn g = .turning way → (s.pc g).atFront = true) (hprompt : Prompt l s)
    (hplace : s.pc l.who = place) (hact : act c l s place = some (line, s')) (g : C) (way : Way)
    (hway : s'.turn g = .turning way) : (s'.pc g).atFront = true := by
  obtain ⟨hf, -⟩ := act_frame hact
  have hforward : (s.pc g).atFront = true → (s'.pc g).atFront = true := by
    intro hfront
    by_cases hg : g = l.who
    · subst hg
      rw [hplace] at hfront
      refine Pc.atFront_forward place _ hf.succ hfront ?_
      rintro rfl
      rw [hf.turn rfl] at hway
      exact ht.not_turning (by rw [hplace]; rfl) way hway
    · rw [hf.others g hg]
      exact hfront
  rcases ht.turning_of_step hl hplace hact hway with ⟨way', hold⟩ | ⟨way', htries, hold, hfree⟩
  · exact hforward (hlate g way' hold)
  · refine hforward ?_
    rcases htries with ⟨rfl, rfl⟩ | ⟨rfl, hhead⟩
    · rw [hplace]
      rfl
    · exact (hprompt _ g hplace hhead).2 way' hold hfree

theorem Telling.step {a : Answer C} (h : Telling tr s) (hl : Lined s q) (ht : Traffic c s)
    (hprompt : Prompt l s) (hs : Drivers.step c l s = some (a, s')) :
    Telling (tr ++ [(l, a)]) s' := by
  obtain ⟨-, hact⟩ := step_inv hs
  have hnext : ∀ g, Next s s' a.line g := by
    intro g
    cases htells : (s.pc l.who).tells with
    | false => exact next_silent rfl hact htells g
    | true =>
      by_cases hscan : ∃ i, s.pc l.who = .scan i
      · obtain ⟨i, hplace⟩ := hscan
        rw [hplace] at hact
        exact next_scan hl ht hprompt hplace hact g
      · push Not at hscan
        exact next_self ht (h.late l.who) rfl hact htells hscan g
  refine ⟨fun g => ?_, fun g => ?_, Telling.late_step hl ht h.late hprompt rfl hact⟩
  · have hg := hnext g
    unfold Next at hg
    rw [events_snoc]
    cases htold : told g a.line with
    | none => simpa using h.cycles g
    | some e =>
      rw [htold] at hg
      refine (cycles_snoc (by decide)).mpr ⟨h.cycles g, ?_⟩
      show trip[(events g tr).length % 4]? = some e
      rw [h.phase g]
      exact hg.1
  · have hg := hnext g
    unfold Next at hg
    rw [events_snoc]
    cases htold : told g a.line with
    | none =>
      rw [htold] at hg
      simpa [hg] using h.phase g
    | some e =>
      rw [htold] at hg
      simp only [Option.toList_some, List.length_append, List.length_singleton, hg.2]
      have hphase := h.phase g
      omega

/-- A head that is crossing, or has a free route, is announced as entered. -/
theorem scan_line (hl : Lined s q) (ht : Traffic c s) {i : Direction}
    (hact : act c l s (.scan i) = some (line, s')) (hhead : s.queue i = some g)
    (hturn : s.turn g ≠ .noTurn) (hfree : ∀ way, s.turn g = .want way → Free s i way) :
    told g line = some .entered := by
  rcases act_scan hl ht hact with
    ⟨-, -, hno⟩ | ⟨h, _, hh, -, rfl, -⟩ | ⟨h, _, hh, -, -, -, rfl, -⟩
  · rcases hno g hhead with hno | ⟨way, hway, hnot⟩
    · exact absurd hno hturn
    · exact absurd (hfree way hway) hnot
  · cases hhead.symm.trans hh
    exact told_self _
  · cases hhead.symm.trans hh
    exact told_self _

/-- What is said out of order is said by a leaving car. -/
theorem Telling.prompt_of_cycles {a : Answer C} (h : Telling tr s) (hl : Lined s q)
    (ht : Traffic c s) (hs : Drivers.step c l s = some (a, s'))
    (hcycles : ∀ g, Cycles trip (events g (tr ++ [(l, a)]))) : Prompt l s := by
  obtain ⟨-, hact⟩ := step_inv hs
  have hsays : ∀ g e, told g a.line = some e → trip[said (s.pc g) (s.turn g)]? = some e := by
    intro g e htold
    have hg := hcycles g
    rw [events_snoc, htold] at hg
    rw [← h.phase g]
    exact ((cycles_snoc (by decide)).mp hg).2
  intro i g hplace hhead
  rw [hplace] at hact
  refine ⟨fun way hway => ?_, fun way hway hfree => ?_⟩
  · have hline := scan_line hl ht hact hhead (by rw [hway]; exact nofun)
      (fun way' hway' => absurd (hway.symm.trans hway') nofun)
    have hcrosses := ht.turns g
    rw [hway] at hcrosses
    have hout := (ht.looked_at hplace (by rw [hway]; exact nofun)).2
    have hstage := Pc.stage_of_crosses _ _ hcrosses (h.late g way hway) hout
    have hnext := hsays g _ hline
    rw [hway] at hnext
    simp [said, hstage, trip] at hnext
  · have hline := scan_line hl ht hact hhead (by rw [hway]; exact nofun)
      (fun way' hway' => by cases hway.symm.trans hway'; exact hfree)
    have hnext := hsays g _ hline
    rw [hway] at hnext
    refine Pc.atFront_of_stage _ ?_
    change trip[(s.pc g).stage]? = some .entered at hnext
    generalize (s.pc g).stage = n at hnext
    match n with
    | 0 | 1 | 3 => simp [trip] at hnext
    | 2 => rfl
    | n + 4 => simp [trip] at hnext

end Steps

/-! ## Runs -/

theorem init_telling [DecidableEq C] : Telling [] (init : State C) where
  cycles _ := cycles_nil trip
  phase _ := rfl
  late _ _ := nofun

/-- Every car's events are a prefix of repetitions of a trip, exactly if no leaving car
finds at the head of a queue a car that is crossing, or one that has not arrived and whose
route is free. -/
theorem announced_in_order_iff [DecidableEq C] [Fintype C] (c : Setup C) (ls : List (Label C))
    (tr : History C) (s : State C) (hrun : steps c ls = some (tr, s)) :
    (∀ g, ∃ n, events g tr <+: (List.replicate n trip).flatten) ↔
      Guarded (step c) Prompt ls init := by
  refine guarded_iff (P := fun tr s => (∃ q, Lined s q) ∧ Traffic c s ∧ Telling tr s)
    (G := fun tr => ∀ g, Cycles trip (events g tr))
    ⟨⟨_, init_lined⟩, init_traffic c, init_telling⟩ ?_ ?_ ?_ ?_ ls tr s hrun
  · rintro tr s l a s' ⟨⟨q, hl⟩, ht, h⟩ hprompt hs
    obtain ⟨q', hl', -⟩ := hl.step hs
    exact ⟨⟨q', hl'⟩, ht.step hl hs, h.step hl ht hprompt hs⟩
  · exact fun tr s h => h.2.2.cycles
  · rintro tr ⟨l, a⟩ h g
    refine (h g).shorten ?_
    rw [events_snoc]
    exact List.prefix_append ..
  · rintro tr s l a s' ⟨⟨q, hl⟩, ht, h⟩ hs hcycles
    exact h.prompt_of_cycles hl ht hs hcycles

/-- A whole trip of one car, alone. -/
def oneTrip : List (Label Bool) := List.replicate 39 ⟨false, .north, .straight, false⟩

theorem announced_in_order_iff_one_trip : ∃ tr s, steps twoCars oneTrip = some (tr, s) ∧
    events false tr = trip ∧ Guarded (step twoCars) Prompt oneTrip init := by
  have heval : (steps twoCars oneTrip).map (fun x => decide (
      events false x.1 = trip ∧ events true x.1 = [])) = some true := by
    decide +kernel
  obtain ⟨⟨tr, s⟩, hrun, h⟩ := Option.map_eq_some_iff.mp heval
  obtain ⟨hfalse, htrue⟩ := of_decide_eq_true h
  refine ⟨tr, s, hrun, hfalse, (announced_in_order_iff twoCars oneTrip tr s hrun).mp ?_⟩
  intro g
  cases g with
  | false => exact ⟨1, by rw [hfalse]; exact List.prefix_rfl⟩
  | true => exact ⟨0, by rw [htrue]; exact List.prefix_rfl⟩

/-! ## Announced twice -/

/-- The `NUM_CARS` cars that `main` creates. -/
def numCars : Setup (Fin 20) where
  cid car := car.val
  nonneg car := Int.natCast_nonneg car.val
  distinct _ _ h := Fin.ext (Int.ofNat.inj h)

/-- The first two of them. -/
def carZero : Fin 20 := ⟨0, Nat.zero_lt_succ _⟩

def carOne : Fin 20 := ⟨1, Nat.succ_lt_succ (Nat.zero_lt_succ _)⟩

/-- Both drive in, from opposite sides, and the first one leaves. -/
def leavesBefore : List (Label (Fin 20)) :=
  drivesIn carZero .north .straight ++ drivesIn carOne .south .straight ++
    List.replicate 12 ⟨carZero, .north, .straight, false⟩

/-- The second car is announced as entered once more while it crosses. -/
theorem entered_twice : ∃ tr s, steps numCars leavesBefore = some (tr, s) ∧
    events carOne tr = [.approaching, .arrived, .entered, .entered] ∧
    ¬ ∃ n, events carOne tr <+: (List.replicate n trip).flatten := by
  have heval : (steps numCars leavesBefore).map (fun x => decide (
      events carOne x.1 = [.approaching, .arrived, .entered, .entered])) = some true := by
    decide +kernel
  obtain ⟨⟨tr, s⟩, hrun, h⟩ := Option.map_eq_some_iff.mp heval
  have hevents := of_decide_eq_true h
  refine ⟨tr, s, hrun, hevents, ?_⟩
  rw [hevents]
  intro (hcycles : Cycles trip ([.approaching, .arrived, .entered] ++ [.entered]))
  have hlast := ((cycles_snoc (by decide)).mp hcycles).2
  cases hlast

end OsProjects.Drivers
