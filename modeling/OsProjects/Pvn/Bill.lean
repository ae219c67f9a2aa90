import OsProjects.Lib.Cells
import OsProjects.Lib.CString
import OsProjects.Pvn.Model
import Mathlib.Algebra.Ring.Int.Defs

/-!
# The bill

`main` creates the humans in one loop over both arrays and, when the last visit is over,
adds up the visits in one loop over each. A human is known by its `id`: `i` for a pirate
and `i + 50` for a ninja; `none` is `NULL`, as the result of a function a `NULL` that was
dereferenced.

The totals are of type `int`; C leaves open what happens when they overflow, and here
they wrap around. The lines about the chairs are left out.
-/

namespace OsProjects.Pvn

open OsProjects.Lib

/-! ## The loops -/

/-- `pirates[]` and `ninjas[]`. -/
structure Humans where
  pirates : Cells (Option Nat) 50
  ninjas : Cells (Option Nat) 50

/-- One round of the loop that creates the humans. -/
def createRound (numPirates numNinjas : Nat) (hs : Humans) (i : Nat) : Humans :=
  let hs := { hs with pirates := hs.pirates.set i (if i < numPirates then some i else none) }
  if i < numNinjas then { hs with ninjas := hs.ninjas.set i (some (i + 50)) }
  -- it is `pirates[i]` that the source clears here
  else { hs with pirates := hs.pirates.set i none }

/-- The loop that creates the humans. -/
def createHumans (numPirates numNinjas : Nat) : Humans :=
  (List.range 50).foldl (createRound numPirates numNinjas)
    ⟨Cells.ofFn fun _ => none, Cells.ofFn fun _ => none⟩

/-- The lines of the bill. -/
inductive BillLine
  | pirates
  | pirate (i : Nat)
  | ninjas
  | ninja (i : Nat)
  | visit (dur wait : Int)
  | totalGoldOwed (gold : Int)
  | averageQueue (totalWait totalVisits : Int)
  | grossRevenue (gold : Int)
  | goldPerVisit (gold totalVisits : Int)
  | totalProfits (gold : Int)

/-- The totals, and what was printed. -/
structure Bill where
  grossIncome : Int
  totalWait : Int
  totalVisits : Int
  out : List BillLine

def Bill.print (b : Bill) (line : BillLine) : Bill := { b with out := b.out ++ [line] }

/-- `while (cur != NULL)`, with `totalPrice`. -/
def billVisits : List Visit → Int → Bill → Int × Bill
  | [], totalPrice, b => (totalPrice, b)
  | cur :: rest, totalPrice, b =>
    let b := { b with
      totalVisits := toInt (b.totalVisits + 1)
      totalWait := toInt (b.totalWait + cur.waitTime) }
    billVisits rest (toInt (totalPrice + cur.goldOwed))
      (b.print (.visit cur.visitTime cur.waitTime))

/-- A round of either billing loop. -/
def billHuman (visit : Nat → List Visit) (heading : Nat → BillLine)
    (humans : Cells (Option Nat) 50) (b : Bill) (i : Nat) : Option Bill :=
  match humans.get i with
  | none => none
  | some hum =>
    let (totalPrice, b) := billVisits (visit hum) 0 (b.print (heading i))
    let b := b.print (.totalGoldOwed totalPrice)
    some { b with grossIncome := toInt (b.grossIncome + totalPrice) }

/-- `for (int i = 0; i < num && i < 50; i++)`. -/
def billTeam (visit : Nat → List Visit) (heading : Nat → BillLine)
    (humans : Cells (Option Nat) 50) (num : Nat) (b : Bill) : Option Bill :=
  (List.range (min num 50)).foldlM (billHuman visit heading humans) b

/-- The last lines. -/
def Bill.close (numChairs : Nat) (b : Bill) : Bill :=
  { b with out := b.out ++
      [.averageQueue b.totalWait b.totalVisits, .grossRevenue b.grossIncome,
        .goldPerVisit b.grossIncome b.totalVisits,
        .totalProfits (toInt (b.grossIncome - 5 * numChairs))] }

/-- What `main` prints once `visitsLeft` is 0. -/
def bill (visit : Nat → List Visit) (numChairs numPirates numNinjas : Nat) : Option Bill := do
  let humans := createHumans numPirates numNinjas
  let b ← billTeam visit .pirate humans.pirates numPirates ⟨0, 0, 0, [.pirates]⟩
  let b ← billTeam visit .ninja humans.ninjas numNinjas (b.print .ninjas)
  some (b.close numChairs)

/-! ## Who is there -/

section Created

variable {numPirates numNinjas : Nat}

/-- The rounds below `k` are done: pirates beyond the ninjas are not there. -/
def Filled (numPirates numNinjas k : Nat) (hs : Humans) : Prop :=
  ∀ i, i < 50 →
    hs.pirates.get i = (if i < k ∧ i < numPirates ∧ i < numNinjas then some i else none) ∧
      hs.ninjas.get i = if i < k ∧ i < numNinjas then some (i + 50) else none

theorem Filled.round {k : Nat} {hs : Humans} (h : Filled numPirates numNinjas k hs)
    (hk : k < 50) :
    Filled numPirates numNinjas (k + 1) (createRound numPirates numNinjas hs k) := by
  intro i hi
  obtain ⟨hp, hn⟩ := h i hi
  by_cases hik : i = k
  · subst hik
    by_cases hni : i < numNinjas
    · simp [createRound, hni, Cells.get_set_eq _ _ hi]
    · simp [createRound, hni, Cells.get_set_eq _ _ hi, hn]
  · have hlt : i < k + 1 ↔ i < k := by omega
    simp only [hlt]
    by_cases hni : k < numNinjas
    · simp [createRound, hni, hik, hp, hn]
    · simp [createRound, hni, hik, hp, hn]

theorem createHumans_filled (numPirates numNinjas : Nat) :
    Filled numPirates numNinjas 50 (createHumans numPirates numNinjas) := by
  have hrounds : ∀ k, k ≤ 50 → Filled numPirates numNinjas k
      ((List.range k).foldl (createRound numPirates numNinjas)
        ⟨Cells.ofFn fun _ => none, Cells.ofFn fun _ => none⟩) := by
    intro k
    induction k with
    | zero => exact fun _ i hi => by simp [hi]
    | succ k ih =>
      intro hk
      rw [List.range_succ, List.foldl_append]
      exact (ih (by omega)).round hk
  exact hrounds 50 (Nat.le_refl 50)

theorem pirates_get {i : Nat} (hi : i < 50) : (createHumans numPirates numNinjas).pirates.get i =
    if i < numPirates ∧ i < numNinjas then some i else none := by
  rw [(createHumans_filled numPirates numNinjas i hi).1]
  simp [hi]

theorem ninjas_get {i : Nat} (hi : i < 50) : (createHumans numPirates numNinjas).ninjas.get i =
    if i < numNinjas then some (i + 50) else none := by
  rw [(createHumans_filled numPirates numNinjas i hi).2]
  simp [hi]

end Created

/-! ## What is added up -/

/-- The totals are those of the visits `vs`. -/
structure Carries (b : Bill) (vs : List Visit) : Prop where
  visits : b.totalVisits = toInt vs.length
  wait : b.totalWait = toInt (vs.map Visit.waitTime).sum
  gross : b.grossIncome = toInt (vs.map Visit.goldOwed).sum

section Adding

variable {b : Bill} {vs : List Visit}

theorem Carries.print (h : Carries b vs) (line : BillLine) : Carries (b.print line) vs :=
  ⟨h.visits, h.wait, h.gross⟩

/-- The walk along the visits `ws` of a human, the price being that of `us` so far. -/
theorem billVisits_spec (vs ws us : List Visit) (b : Bill)
    (hvisits : b.totalVisits = toInt (vs ++ us).length)
    (hwait : b.totalWait = toInt ((vs ++ us).map Visit.waitTime).sum) :
    ∃ b', billVisits ws (toInt (us.map Visit.goldOwed).sum) b =
        (toInt ((us ++ ws).map Visit.goldOwed).sum, b') ∧
      b'.totalVisits = toInt (vs ++ (us ++ ws)).length ∧
      b'.totalWait = toInt ((vs ++ (us ++ ws)).map Visit.waitTime).sum ∧
      b'.grossIncome = b.grossIncome := by
  induction ws generalizing us b with
  | nil =>
    rw [List.append_nil]
    exact ⟨b, rfl, hvisits, hwait, rfl⟩
  | cons cur rest ih =>
    have hprice : toInt (toInt (us.map Visit.goldOwed).sum + cur.goldOwed) =
        toInt ((us ++ [cur]).map Visit.goldOwed).sum := by
      rw [toInt_toInt_add]
      simp
    have hsplit : us ++ cur :: rest = us ++ [cur] ++ rest := by simp
    rw [billVisits, hprice, hsplit]
    refine ih (us ++ [cur]) _ ?_ ?_
    · show toInt (b.totalVisits + 1) = _
      rw [hvisits, toInt_toInt_add]
      simp [Int.add_assoc]
    · show toInt (b.totalWait + cur.waitTime) = _
      rw [hwait, toInt_toInt_add]
      simp [Int.add_assoc]

theorem billHuman_spec (visit : Nat → List Visit) (heading : Nat → BillLine)
    {humans : Cells (Option Nat) 50} {i hum : Nat} (h : Carries b vs)
    (hhum : humans.get i = some hum) :
    ∃ b', billHuman visit heading humans b i = some b' ∧ Carries b' (vs ++ visit hum) := by
  have hb := h.print (heading i)
  obtain ⟨b', heq, hvisits, hwait, hgross⟩ := billVisits_spec vs (visit hum) []
    (b.print (heading i)) (by rw [List.append_nil]; exact hb.visits)
    (by rw [List.append_nil]; exact hb.wait)
  rw [List.map_nil, List.sum_nil, toInt_zero, List.nil_append] at heq
  unfold billHuman
  rw [hhum]
  simp only [heq]
  refine ⟨_, rfl, hvisits, hwait, ?_⟩
  show toInt (b'.grossIncome + _) = _
  rw [hgross, hb.gross, toInt_add_toInt, List.map_append, List.sum_append]

section Team

variable (visit : Nat → List Visit) (heading : Nat → BillLine) {humans : Cells (Option Nat) 50}
  {num : Nat}

/-- A loop that finds everybody adds up all their visits. -/
theorem billTeam_spec (h : Carries b vs) (hnum : num ≤ 50) {hum : Nat → Nat}
    (hall : ∀ i, i < num → humans.get i = some (hum i)) :
    ∃ b', billTeam visit heading humans num b = some b' ∧
      Carries b' (vs ++ (List.range num).flatMap fun i => visit (hum i)) := by
  unfold billTeam
  rw [Nat.min_eq_left hnum]
  clear hnum
  induction num with
  | zero => exact ⟨b, rfl, by simpa using h⟩
  | succ n ih =>
    obtain ⟨b₁, heq, h₁⟩ := ih fun i hi => hall i (by omega)
    obtain ⟨b₂, heq₂, h₂⟩ := billHuman_spec visit heading h₁
      (hall n (Nat.lt_succ_self n))
    refine ⟨b₂, ?_, ?_⟩
    · rw [List.range_succ, List.foldlM_append, heq]
      simpa using heq₂
    · simpa [List.range_succ] using h₂

/-- A loop that meets `NULL` does not come back. -/
theorem billTeam_null {i : Nat} (hi : i < num) (hnum : num ≤ 50) (hnull : humans.get i = none) :
    billTeam visit heading humans num b = none := by
  unfold billTeam
  rw [Nat.min_eq_left hnum]
  clear hnum
  induction num with
  | zero => omega
  | succ n ih =>
    rw [List.range_succ, List.foldlM_append]
    by_cases hin : i = n
    · subst hin
      have hstep : ∀ b', billHuman visit heading humans b' i = none := by
        intro b'
        unfold billHuman
        rw [hnull]
      cases List.foldlM (billHuman visit heading humans) b (List.range i) with
      | none => rfl
      | some b' => simp [hstep]
    · rw [ih (by omega)]
      rfl

end Team

end Adding

/-! ## The bill as a whole -/

/-- The visits of all pirates and ninjas. -/
def allVisits (visit : Nat → List Visit) (numPirates numNinjas : Nat) : List Visit :=
  (List.range numPirates).flatMap visit ++
    (List.range numNinjas).flatMap fun i => visit (i + 50)

/-- The bill finds everybody and its totals are the exact ones, if and only if there are
no more pirates than ninjas and the totals fit. -/
theorem bill_complete_iff (visit : Nat → List Visit) (numChairs numPirates numNinjas : Nat)
    (hpirates : 10 ≤ numPirates ∧ numPirates ≤ 50) (hninjas : 10 ≤ numNinjas ∧ numNinjas ≤ 50) :
    ((∀ i, i < numPirates → (createHumans numPirates numNinjas).pirates.get i ≠ none) ∧
      (∀ i, i < numNinjas → (createHumans numPirates numNinjas).ninjas.get i ≠ none) ∧
      ∃ b, bill visit numChairs numPirates numNinjas = some b ∧
        b.totalVisits = (allVisits visit numPirates numNinjas).length ∧
        b.totalWait = ((allVisits visit numPirates numNinjas).map Visit.waitTime).sum ∧
        b.grossIncome = ((allVisits visit numPirates numNinjas).map Visit.goldOwed).sum) ↔
    numPirates ≤ numNinjas ∧
      FitsInt (allVisits visit numPirates numNinjas).length ∧
      FitsInt ((allVisits visit numPirates numNinjas).map Visit.waitTime).sum ∧
      FitsInt ((allVisits visit numPirates numNinjas).map Visit.goldOwed).sum := by
  have hcreated : numPirates ≤ numNinjas → ∀ i, i < numPirates →
      (createHumans numPirates numNinjas).pirates.get i = some i := by
    intro hle i hi
    rw [pirates_get (by omega), if_pos ⟨hi, by omega⟩]
  have hninja : ∀ i, i < numNinjas →
      (createHumans numPirates numNinjas).ninjas.get i = some (i + 50) := by
    intro i hi
    rw [ninjas_get (by omega), if_pos hi]
  -- with everybody there, the totals are the exact ones converted to `int`
  have hbill : numPirates ≤ numNinjas → ∃ b, bill visit numChairs numPirates numNinjas = some b ∧
      Carries b (allVisits visit numPirates numNinjas) := by
    intro hle
    have hnothing : Carries ⟨0, 0, 0, [.pirates]⟩ [] := ⟨rfl, rfl, rfl⟩
    obtain ⟨b₁, heq₁, h₁⟩ := billTeam_spec visit .pirate hnothing hpirates.2 (hcreated hle)
    obtain ⟨b₂, heq₂, h₂⟩ := billTeam_spec visit .ninja (h₁.print .ninjas) hninjas.2 hninja
    refine ⟨b₂.close numChairs, ?_, h₂.visits, h₂.wait, h₂.gross⟩
    unfold bill
    simp only [heq₁, heq₂, Option.bind_eq_bind, Option.bind_some]
  constructor
  · rintro ⟨hthere, -, b, heq, hvisits, hwait, hgross⟩
    have hle : numPirates ≤ numNinjas := by
      by_contra hlt
      refine hthere numNinjas (by omega) ?_
      rw [pirates_get (by omega), if_neg (by omega)]
    obtain ⟨b', heq', h⟩ := hbill hle
    cases heq.symm.trans heq'
    exact ⟨hle, toInt_eq_self_iff.mp (h.visits.symm.trans hvisits),
      toInt_eq_self_iff.mp (h.wait.symm.trans hwait),
      toInt_eq_self_iff.mp (h.gross.symm.trans hgross)⟩
  · rintro ⟨hle, hvisits, hwait, hgross⟩
    obtain ⟨b, heq, h⟩ := hbill hle
    refine ⟨?_, ?_, b, heq, h.visits.trans (toInt_eq_self_iff.mpr hvisits),
      h.wait.trans (toInt_eq_self_iff.mpr hwait), h.gross.trans (toInt_eq_self_iff.mpr hgross)⟩
    · intro i hi
      rw [hcreated hle i hi]
      exact Option.some_ne_none _
    · intro i hi
      rw [hninja i hi]
      exact Option.some_ne_none _

/-- With more pirates than ninjas there is no bill, whatever the visits were. -/
theorem bill_of_more_pirates (visit : Nat → List Visit) (numChairs : Nat)
    {numPirates numNinjas : Nat} (hmore : numNinjas < numPirates) (hpirates : numPirates ≤ 50) :
    bill visit numChairs numPirates numNinjas = none := by
  have hnull : (createHumans numPirates numNinjas).pirates.get numNinjas = none := by
    rw [pirates_get (by omega), if_neg (by omega)]
  have hbill := billTeam_null visit .pirate (b := ⟨0, 0, 0, [.pirates]⟩) hmore hpirates hnull
  unfold bill
  simp only [hbill, Option.bind_eq_bind, Option.bind_none]

/-- Everybody came once, waited three seconds and was served for five. -/
def oneVisit : Nat → List Visit := fun _ => [createVisit 3 5]

/-- Ten pirates and eleven ninjas. -/
theorem bill_complete_iff_ten_eleven : ∃ b, bill oneVisit 2 10 11 = some b ∧
    b.totalVisits = 21 ∧ b.totalWait = 63 ∧ b.grossIncome = 105 := by
  have hlength : (allVisits oneVisit 10 11).length = 21 := by decide
  have hwait : ((allVisits oneVisit 10 11).map Visit.waitTime).sum = 63 := by decide
  have hgold : ((allVisits oneVisit 10 11).map Visit.goldOwed).sum = 105 := by decide
  have hiff := bill_complete_iff oneVisit 2 10 11 (by decide) (by decide)
  rw [hlength, hwait, hgold] at hiff
  obtain ⟨-, -, b, heq, htotals⟩ := hiff.mpr (by decide)
  exact ⟨b, heq, htotals⟩

/-- Eleven pirates and ten ninjas: `pirates[10]` is cleared after its thread was started,
and the bill stops there. -/
theorem eleventh_pirate_is_null :
    (createHumans 11 10).pirates.get 10 = none ∧ (bill oneVisit 2 11 10).isNone = true := by
  rw [bill_of_more_pirates oneVisit 2 (by decide) (by decide)]
  decide +kernel

end OsProjects.Pvn
