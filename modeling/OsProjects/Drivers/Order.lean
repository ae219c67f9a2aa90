import OsProjects.Drivers.Traffic

/-!
# The order of the queues

`log` reads off a history which cars have joined which queue, and which have left it, in
the order of the two. Whoever has joined a queue has left it or is in it, in the order of
joining (`Logged`): a queue is first in, first out, and `dequeue_car` takes off the car
that runs it.
-/

namespace OsProjects.Drivers

open OsProjects.Lib

variable {C : Type}

/-- The comings and goings of a run. -/
structure Log (C : Type) where
  /-- the queue that the car joined last -/
  side : C → Direction
  joined : Direction → List C
  left : Direction → List C

section Reading

variable [DecidableEq C]

/-- A car joins where it says it is approaching from, and leaves the queue it joined. -/
def Log.add (log : Log C) : Label C × Answer C → Log C
  | (l, ⟨.joining, some (.approaching _ qid)⟩) =>
    { log with
      side := Function.update log.side l.who qid
      joined := Function.update log.joined qid (log.joined qid ++ [l.who]) }
  | (l, ⟨.dequeueing, _⟩) =>
    { log with
      left := Function.update log.left (log.side l.who) (log.left (log.side l.who) ++ [l.who]) }
  | _ => log

def log (tr : History C) : Log C :=
  tr.foldl Log.add ⟨fun _ => .north, fun _ => [], fun _ => []⟩

theorem log_snoc (tr : History C) (e : Label C × Answer C) : log (tr ++ [e]) = (log tr).add e := by
  rw [log, List.foldl_append]
  rfl

/-- The steps that move no car into or out of a queue are not in the log. -/
theorem Log.add_plain (lg : Log C) (l : Label C) (a : Answer C)
    (hno : a.place.editsQueue = false) : lg.add (l, a) = lg := by
  obtain ⟨place, line⟩ := a
  cases place with
  | joining | dequeueing => cases hno
  | _ => rfl

end Reading

/-- The queues are what has joined and not left. -/
structure Logged [DecidableEq C] (tr : History C) (s : State C) (q : Direction → List C) :
    Prop where
  lined : Lined s q
  side : ∀ g, (s.pc g).queued = true → (log tr).side g = s.qid g
  order : ∀ i, (log tr).joined i = (log tr).left i ++ q i

section Steps

variable [DecidableEq C] [Fintype C] {c : Setup C} {l : Label C} {s s' : State C}
  {q q' : Direction → List C} {a : Answer C} {tr : History C} {line : Option (Line C)}

/-- `queue_car` says where it has put the car. -/
theorem act_joining (hact : act c l s .joining = some (line, s')) :
    line = some (.approaching l.who (s.qid l.who)) := by
  obtain ⟨s₁, h₁, heq⟩ := Option.map_eq_some_iff.mp hact
  cases heq
  rw [(queueCar_kept h₁).1.qid (by simp)]

/-- The sides of the cars, after a step that is no `queue_car`. -/
theorem Logged.side_step (h : Logged tr s q) (hs : step c l s = some (a, s'))
    (hplace : s.pc l.who ≠ .joining) (g : C) (hg : (s'.pc g).queued = true) :
    (log tr).side g = s'.qid g := by
  obtain ⟨-, hact⟩ := step_inv hs
  obtain ⟨hf, -⟩ := act_frame hact
  by_cases hgw : g = l.who
  · subst hgw
    -- it was queued already, so this is the trip it joined for
    have hin : (s.pc l.who).queued = true := by
      cases hed : (s.pc l.who).editsQueue with
      | false => rwa [← Pc.queued_succ _ _ hf.succ hed]
      | true =>
        cases hpc : s.pc l.who with
        | joining => exact absurd hpc hplace
        | dequeueing => rfl
        | _ =>
          rw [hpc] at hed
          cases hed
    have hmoves : s.pc l.who ≠ .choosing := by
      intro hpc
      rw [hpc] at hin
      cases hin
    rw [act_qid hact (.inr hmoves)]
    exact h.side _ hin
  · rw [hf.others g hgw] at hg
    rw [act_qid hact (.inl hgw)]
    exact h.side g hg

theorem Logged.join_step (h : Logged tr s q) (hs : step c l s = some (a, s'))
    (hplace : s.pc l.who = .joining) (hl' : Lined s' q')
    (hpass : Passes l.who (s.qid l.who) q q' .joining) : Logged (tr ++ [(l, a)]) s' q' := by
  obtain ⟨hwhere, hact⟩ := step_inv hs
  obtain ⟨hf, -⟩ := act_frame hact
  have hlog : log (tr ++ [(l, a)]) =
      { log tr with
        side := Function.update (log tr).side l.who (s.qid l.who)
        joined := Function.update (log tr).joined (s.qid l.who)
          ((log tr).joined (s.qid l.who) ++ [l.who]) } := by
    obtain ⟨place, line⟩ := a
    rw [hplace] at hwhere hact
    cases hwhere
    cases act_joining hact
    exact log_snoc tr _
  refine ⟨hl', ?_, ?_⟩
  · intro g hg
    rw [hlog]
    show Function.update (log tr).side l.who (s.qid l.who) g = s'.qid g
    by_cases hgw : g = l.who
    · rw [hgw, Function.update_self, act_qid hact (.inr (by rw [hplace]; simp))]
    · rw [hf.others g hgw] at hg
      rw [Function.update_of_ne hgw, act_qid hact (.inl hgw)]
      exact h.side g hg
  · intro i
    rw [hlog, hpass]
    show Function.update (log tr).joined (s.qid l.who) _ i = (log tr).left i ++ _
    by_cases hi : i = s.qid l.who
    · rw [hi, Function.update_self, Function.update_self, h.order, List.append_assoc]
    · rw [Function.update_of_ne hi, Function.update_of_ne hi, h.order]

theorem Logged.leave_step (h : Logged tr s q) (hs : step c l s = some (a, s'))
    (hplace : s.pc l.who = .dequeueing) (hl' : Lined s' q')
    (hpass : Passes l.who (s.qid l.who) q q' .dequeueing) : Logged (tr ++ [(l, a)]) s' q' := by
  -- the car leaves the queue it joined
  have hside : (log tr).side l.who = s.qid l.who := h.side l.who (by rw [hplace]; rfl)
  have hlog : log (tr ++ [(l, a)]) =
      { log tr with
        left := Function.update (log tr).left (s.qid l.who)
          ((log tr).left (s.qid l.who) ++ [l.who]) } := by
    obtain ⟨place, line⟩ := a
    cases (step_inv hs).1.trans hplace
    rw [log_snoc, ← hside]
    rfl
  refine ⟨hl', ?_, ?_⟩
  · intro g hg
    rw [hlog]
    exact h.side_step hs (by rw [hplace]; simp) g hg
  · intro i
    rw [hlog]
    show (log tr).joined i = Function.update (log tr).left (s.qid l.who) _ i ++ q' i
    rw [h.order, hpass]
    by_cases hi : i = s.qid l.who
    · rw [hi, Function.update_self, Function.update_self, List.append_assoc]
      rfl
    · rw [Function.update_of_ne hi, Function.update_of_ne hi]

theorem Logged.step (h : Logged tr s q) (hs : Drivers.step c l s = some (a, s')) :
    ∃ q', Logged (tr ++ [(l, a)]) s' q' := by
  obtain ⟨q', hl', hpass⟩ := h.lined.step hs
  cases hplace : s.pc l.who with
  | joining => exact ⟨q', h.join_step hs hplace hl' (hplace ▸ hpass)⟩
  | dequeueing => exact ⟨q', h.leave_step hs hplace hl' (hplace ▸ hpass)⟩
  | _ =>
    rw [hplace] at hpass
    cases hpass
    have hlog : log (tr ++ [(l, a)]) = log tr := by
      rw [log_snoc]
      refine Log.add_plain _ l a ?_
      rw [(step_inv hs).1, hplace]
      rfl
    refine ⟨q, hl', ?_, ?_⟩
    · rw [hlog]
      exact h.side_step hs (by rw [hplace]; simp)
    · rw [hlog]
      exact h.order

end Steps

theorem steps_logged [DecidableEq C] [Fintype C] (c : Setup C) :
    ∀ ls tr s, steps c ls = some (tr, s) → ∃ q, Logged tr s q := by
  refine run_rule (P := fun tr s => ∃ q, Logged tr s q)
    ⟨_, init_lined, nofun, fun _ => rfl⟩ ?_
  rintro tr s l a s' ⟨q, h⟩ hs
  exact h.step hs

/-- `dequeue_car` comes back, and takes off the car that runs it. -/
theorem Lined.dequeues_itself [DecidableEq C] [Fintype C] {c : Setup C} {l : Label C}
    {s : State C} {q : Direction → List C} (hl : Lined s q) (hplace : s.pc l.who = .dequeueing) :
    ∃ rest a s', q (s.qid l.who) = l.who :: rest ∧ Drivers.step c l s = some (a, s') ∧
      Linked s'.next (s'.queue (s.qid l.who)) rest ∧
      ∀ i, i ≠ s.qid l.who → Linked s'.next (s'.queue i) (q i) := by
  have hhead := hl.front l.who (by rw [hplace]; rfl)
  obtain ⟨s', hdeq⟩ : ∃ s', dequeueCar (s.qid l.who) s = some s' :=
    ⟨_, dequeueCar_eq_some.mpr ⟨_, hhead, rfl⟩⟩
  have hs : ∃ a s', Drivers.step c l s = some (a, s') := by
    unfold Drivers.step
    rw [hplace, act, hdeq]
    exact ⟨_, _, rfl⟩
  obtain ⟨a, s', hs⟩ := hs
  obtain ⟨q', hl', hpass⟩ := hl.step hs
  rw [hplace, Passes] at hpass
  refine ⟨q' (s.qid l.who), a, s', ?_, hs, hl'.queues.linked _, ?_⟩
  · rw [hpass, Function.update_self]
  · intro i hi
    rw [hpass, Function.update_of_ne hi]
    exact hl'.queues.linked i

/-- The queues are lists without a car that occurs twice; a car is in the queue of its
trip from `queue_car` to `dequeue_car`; cars leave a queue as they joined it; and
`dequeue_car` takes off the car that runs it. -/
theorem queues_first_in_first_out [DecidableEq C] [Fintype C] (c : Setup C)
    (ls : List (Label C)) (tr : History C) (s : State C) (hrun : steps c ls = some (tr, s)) :
    ∃ q : Direction → List C,
      (∀ i, Linked s.next (s.queue i) (q i)) ∧
      (∀ i, (q i).Nodup) ∧ (∀ i j g, g ∈ q i → g ∈ q j → i = j) ∧
      (∀ i g, g ∈ q i ↔ (s.pc g).queued = true ∧ s.qid g = i) ∧
      (∀ i, (log tr).joined i = (log tr).left i ++ q i) ∧
      ∀ l, s.pc l.who = .dequeueing →
        s.queue (s.qid l.who) = some l.who ∧ (log tr).side l.who = s.qid l.who ∧
        ∃ rest a s', q (s.qid l.who) = l.who :: rest ∧ step c l s = some (a, s') ∧
          Linked s'.next (s'.queue (s.qid l.who)) rest ∧
          ∀ i, i ≠ s.qid l.who → Linked s'.next (s'.queue i) (q i) := by
  obtain ⟨q, h⟩ := steps_logged c ls tr s hrun
  have hqueues := h.lined.queues
  refine ⟨q, hqueues.linked, fun i => (hqueues.linked i).nodup, hqueues.disjoint, h.lined.mem,
    h.order, ?_⟩
  intro l hplace
  refine ⟨h.lined.front _ (by rw [hplace]; rfl), h.side _ (by rw [hplace]; rfl), ?_⟩
  exact h.lined.dequeues_itself hplace

/-- Car 0 is about to leave the northern queue, which car 1 has joined behind it. -/
def leavesFirst : List (Label Bool) :=
  drivesIn false .north .right ++ List.replicate 4 ⟨true, .north, .left, false⟩ ++
    List.replicate 21 ⟨false, .north, .right, false⟩

theorem queues_first_in_first_out_second : ∃ tr s,
    ∃ q : Direction → List Bool, steps twoCars leavesFirst = some (tr, s) ∧
    s.pc false = .dequeueing ∧
    (log tr).joined .north = [false, true] ∧ (log tr).left .north = [] ∧
    q .north = [false, true] ∧ Linked s.next (s.queue .north) (q .north) := by
  have heval : (steps twoCars leavesFirst).map (fun x => decide (x.2.pc false = .dequeueing ∧
      (log x.1).joined .north = [false, true] ∧ (log x.1).left .north = [])) = some true := by
    decide +kernel
  obtain ⟨⟨tr, s⟩, hrun, h⟩ := Option.map_eq_some_iff.mp heval
  obtain ⟨hplace, hjoined, hleft⟩ := of_decide_eq_true h
  obtain ⟨q, hlinked, -, -, -, horder, -⟩ := queues_first_in_first_out twoCars _ tr s hrun
  have hq := horder .north
  rw [hjoined, hleft, List.nil_append] at hq
  exact ⟨tr, s, q, hrun, hplace, hjoined, hleft, hq.symm, hlinked .north⟩

end OsProjects.Drivers
