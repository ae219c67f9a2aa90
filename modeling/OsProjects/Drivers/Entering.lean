import OsProjects.Drivers.Model

/-!
# `enter_intersection`

The claims of a route are attempted one by one, and a loop over all quadrants takes back
what a failed attempt grabbed. For a car that owns nothing this is all or nothing:
`enter_intersection` claims the whole route if it is free, and otherwise changes nothing
(`Enters`).
-/

namespace OsProjects.Drivers

/-! ## Attempts -/

section Attempts

variable {cid : Int} {quads : List Quadrant} {quadrant : Quadrant → Int}

/-- `quadrant[]` once the car `cid` has claimed `quads`. -/
def claimed (cid : Int) (quads : List Quadrant) (quadrant : Quadrant → Int) : Quadrant → Int :=
  fun k => if k ∈ quads then cid else quadrant k

theorem attemptQuadrants_free (hnodup : quads.Nodup) (hfree : ∀ k ∈ quads, quadrant k = -1) :
    attemptQuadrants cid quads quadrant = (true, claimed cid quads quadrant) := by
  induction quads generalizing quadrant with
  | nil => exact congrArg _ (funext fun k => (if_neg List.not_mem_nil).symm)
  | cons quad quads ih =>
    obtain ⟨hnew, hnodup⟩ := List.nodup_cons.mp hnodup
    have hrest : ∀ k ∈ quads, Function.update quadrant quad cid k = -1 := by
      intro k hk
      rw [Function.update_of_ne (ne_of_mem_of_not_mem hk hnew)]
      exact hfree k (List.mem_cons_of_mem _ hk)
    simp only [attemptQuadrants, attemptQuadrant, if_pos (hfree quad List.mem_cons_self)]
    rw [ih hnodup hrest]
    congr 1
    funext k
    by_cases hk : k = quad
    · subst hk
      simp [claimed]
    · simp [claimed, hk]

/-- What a failed attempt leaves is what there was, up to quadrants it grabbed. -/
theorem attemptQuadrants_taken (htaken : ∃ k ∈ quads, quadrant k ≠ -1) (hcid : cid ≠ -1) :
    ∃ quadrant', attemptQuadrants cid quads quadrant = (false, quadrant') ∧
      ∀ k, quadrant' k = quadrant k ∨ quadrant k = -1 ∧ quadrant' k = cid := by
  induction quads generalizing quadrant with
  | nil => simp at htaken
  | cons quad quads ih =>
    by_cases hquad : quadrant quad = -1
    · have hrest : ∃ k ∈ quads, Function.update quadrant quad cid k ≠ -1 := by
        obtain ⟨k, hk, hne⟩ := htaken
        have hkq : k ≠ quad := by
          rintro rfl
          exact hne hquad
        exact ⟨k, List.mem_of_ne_of_mem hkq hk, by rwa [Function.update_of_ne hkq]⟩
      obtain ⟨quadrant', heq, hsame⟩ := ih hrest
      refine ⟨quadrant', by simpa [attemptQuadrants, attemptQuadrant, hquad] using heq, ?_⟩
      intro k
      by_cases hk : k = quad
      · subst hk
        have h := hsame k
        rw [Function.update_self] at h
        rcases h with h | ⟨h, -⟩
        · exact .inr ⟨hquad, h⟩
        · exact absurd h hcid
      · have h := hsame k
        rwa [Function.update_of_ne hk] at h
    · exact ⟨quadrant, by simp [attemptQuadrants, attemptQuadrant, hquad], fun _ => .inl rfl⟩

/-- The loop takes back just what the attempt grabbed. -/
theorem rollBack_attempt {quadrant' : Quadrant → Int}
    (hsame : ∀ k, quadrant' k = quadrant k ∨ quadrant k = -1 ∧ quadrant' k = cid)
    (hnone : ∀ k, quadrant k ≠ cid) : rollBack cid quadrant' = quadrant := by
  funext k
  unfold rollBack
  rcases hsame k with heq | ⟨hfree, heq⟩
  · rw [heq, if_neg (hnone k)]
  · rw [if_pos heq, hfree]

end Attempts

theorem route_nodup (qid : Direction) (way : Way) : (route qid way).Nodup := by
  cases qid <;> cases way <;> decide

variable {C : Type}

theorem Setup.cid_ne (c : Setup C) (car : C) : c.cid car ≠ -1 := by
  have := c.nonneg car
  omega

/-- Two cars, numbered 0 and 1. -/
def twoCars : Setup Bool where
  cid car := if car then 1 else 0
  nonneg car := by cases car <;> decide
  distinct := by decide

/-! ## `enter_intersection` -/

/-- The whole route is free. -/
def Free (s : State C) (qid : Direction) (way : Way) : Prop :=
  ∀ k ∈ route qid way, s.quadrant k = -1

variable [DecidableEq C]

/-- The car has the route. -/
def State.claim (s : State C) (c : Setup C) (car : C) (qid : Direction) (way : Way) : State C :=
  { s with
    quadrant := claimed (c.cid car) (route qid way) s.quadrant
    turn := Function.update s.turn car (.turning way) }

/-- What `enter_intersection(car, qid)` returns and does. -/
inductive Enters (c : Setup C) (car : C) (qid : Direction) (s : State C) :
    Option (Line C) × State C → Prop
  | stopped : s.turn car = .noTurn → Enters c car qid s (none, s)
  | blocked (way : Way) : s.turn car = .want way → ¬ Free s qid way → Enters c car qid s (none, s)
  | granted (way : Way) : s.turn car = .want way → Free s qid way →
      Enters c car qid s (some (.entered car qid (.turning way)), s.claim c car qid way)
  | again (way : Way) : s.turn car = .turning way →
      Enters c car qid s (some (.entered car qid (.turning way)), s)

theorem enterIntersection_enters {c : Setup C} {car : C} {s : State C} (qid : Direction)
    (hclear : ∀ way, s.turn car = .want way → ∀ k, s.quadrant k ≠ c.cid car) :
    Enters c car qid s (enterIntersection c car qid s) := by
  unfold enterIntersection
  cases hturn : s.turn car with
  | noTurn => exact .stopped hturn
  | turning way => exact .again way hturn
  | want way =>
    by_cases hfree : Free s qid way
    · simp only [attemptQuadrants_free (route_nodup qid way) hfree]
      exact .granted way hturn hfree
    · have htaken : ∃ k ∈ route qid way, s.quadrant k ≠ -1 := by
        unfold Free at hfree
        push Not at hfree
        exact hfree
      obtain ⟨quadrant', heq, hsame⟩ := attemptQuadrants_taken htaken (c.cid_ne car)
      simp only [heq, rollBack_attempt hsame (hclear way hturn)]
      exact .blocked way hturn hfree

/-- Car 1 is in the south west, and car 0 wants to turn. -/
def parked (way : Way) : State Bool where
  turn car := if car then .turning .right else .want way
  next _ := none
  signalled _ := false
  pc car := if car then .crossing else .testTurn
  qid car := if car then .west else .north
  queue i := match i with
    | .west => some true
    | .north => some false
    | _ => none
  quadrant k := match k with
    | .sw => 1
    | _ => -1
  lock _ := none

/-- A car that wants to turn and owns no quadrant gets all of its route or nothing, and a
call for any other car changes nothing; `enter_intersection` returns 1 with a line. -/
theorem enters_all_or_nothing (c : Setup C) (car : C) (qid : Direction) (s : State C)
    (r : Option (Line C)) (s' : State C) (hcall : enterIntersection c car qid s = (r, s')) :
    (∀ way, s.turn car = .want way → (∀ k, s.quadrant k ≠ c.cid car) →
      (r.isSome = true ↔ ∀ k ∈ route qid way, s.quadrant k = -1) ∧
      (r.isSome = true →
        (∀ k, s'.quadrant k = if k ∈ route qid way then c.cid car else s.quadrant k) ∧
        s'.turn = Function.update s.turn car (.turning way)) ∧
      (r.isSome = false → s'.quadrant = s.quadrant ∧ s'.turn = s.turn)) ∧
    ((∀ way, s.turn car ≠ .want way) → s'.quadrant = s.quadrant ∧ s'.turn = s.turn) := by
  constructor
  · intro way hway hclear
    have henters := enterIntersection_enters (c := c) qid fun _ _ => hclear
    rw [hcall] at henters
    cases henters with
    | stopped hno => cases hway.symm.trans hno
    | again way' hway' => cases hway.symm.trans hway'
    | blocked way' hway' hfree =>
      cases hway.symm.trans hway'
      exact ⟨iff_of_false Bool.false_ne_true hfree, nofun, fun _ => ⟨rfl, rfl⟩⟩
    | granted way' hway' hfree =>
      cases hway.symm.trans hway'
      exact ⟨iff_of_true rfl hfree, fun _ => ⟨fun _ => rfl, rfl⟩, nofun⟩
  · intro hturn
    have henters := enterIntersection_enters (c := c) qid fun way hway => absurd hway (hturn way)
    rw [hcall] at henters
    cases henters with
    | stopped | again => exact ⟨rfl, rfl⟩
    | blocked way hway | granted way hway => exact absurd hway (hturn way)

/-- Car 1 is in the south west: car 0 coming from the north may turn right, but gets
nothing of the way to the left. -/
theorem enters_all_or_nothing_south_west :
    (∃ line s', enterIntersection twoCars false .north (parked .right) = (some line, s') ∧
      s'.turn false = .turning .right ∧ s'.quadrant .nw = 0 ∧ s'.quadrant .sw = 1) ∧
    ∃ s', enterIntersection twoCars false .north (parked .left) = (none, s') ∧
      s'.turn false = .want .left ∧ s'.quadrant .nw = -1 := by
  constructor
  · obtain ⟨-, hgets, -⟩ := (enters_all_or_nothing twoCars false .north (parked .right) _ _ rfl).1
      .right rfl (fun k => by cases k <;> decide)
    obtain ⟨hquadrant, hturn⟩ := hgets rfl
    exact ⟨_, _, rfl, congrFun hturn false, hquadrant .nw, hquadrant .sw⟩
  · obtain ⟨-, -, hkeeps⟩ := (enters_all_or_nothing twoCars false .north (parked .left) _ _ rfl).1
      .left rfl (fun k => by cases k <;> decide)
    obtain ⟨hquadrant, hturn⟩ := hkeeps rfl
    exact ⟨_, rfl, congrFun hturn false, congrFun hquadrant .nw⟩

end OsProjects.Drivers
