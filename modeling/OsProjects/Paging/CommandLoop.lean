import OsProjects.Lib.CString
import OsProjects.Paging.PartOne.Model
import OsProjects.Paging.PartTwo.Model

/-!
# The command loops

`main` of either part reads a line, splits it at the commas and makes at most one call.
The two loops are the same text, so they are one definition here, over the calls of a part.
The line is what `fgets` has put into the buffer; the end of the input, which the loops do
not notice, is left out.

The check of the pid prints its line and goes on, and nothing checks that there is an
instruction. On all lines that pass these two checks the loop is the machine of calls that
the other modules are about (`session_is_run`).
-/

namespace OsProjects.Paging

open OsProjects.Lib

/-- `','` -/
def comma : Byte := 44

/-- The variables of `main` after the line is split. -/
structure Fields where
  pid : Int
  instruction : Option CString
  address : Int
  value : Int

def fields (line : List Byte) : Fields :=
  let (pidstr, rest) := strtok comma (cString line)
  let (instruction, rest) := strtok comma rest
  let (addressstr, rest) := strtok comma rest
  let (valuestr, _) := strtok comma rest
  { pid := (pidstr.map atoi).getD 0
    instruction := instruction
    address := (addressstr.map atoi).getD 0
    value := (valuestr.map atoi).getD 0 }

/-- The lines `main` prints itself. -/
inductive Notice
  | address
  | pid
  | writeFlag
  | instruction
  deriving DecidableEq

/-- A call as `main` makes it. -/
inductive Call
  | map (pid address write : Int)
  | store (pid address : Int) (value : Byte)
  | load (pid address : Int)
  deriving DecidableEq

/-- What `main` prints and the call it makes; `none` if it passes `NULL` to `strcmp`. -/
def interpret (f : Fields) : Option (List Notice × Option Call) :=
  if f.address ≥ virtAddSpace ∨ f.address < 0 then some ([.address], none)
  else
    -- no `continue` here
    let notices := if f.pid ≥ maxProcesses ∨ f.pid < 0 then [.pid] else []
    f.instruction.map fun instruction =>
      if instruction = literal "map" then
        if f.value > 1 ∨ f.value < 0 then (notices ++ [.writeFlag], none)
        else (notices, some (.map f.pid f.address f.value))
      else if instruction = literal "store" then
        (notices, some (.store f.pid f.address (BitVec.ofInt 8 f.value)))
      else if instruction = literal "load" then (notices, some (.load f.pid f.address))
      else (notices ++ [.instruction], none)

/-- An index into an array of `n`. -/
def index (n : Nat) (x : Int) : Option (Fin n) :=
  if h : 0 ≤ x ∧ x < n then some ⟨x.toNat, by omega⟩ else none

/-- The call, if `procTable` and the table of the process have the entries it addresses. -/
def Call.cmd : Call → Option Cmd
  | .map pid address write => do some (.map (← index _ pid) (← index _ address) (write != 0))
  | .store pid address value => do some (.store (← index _ pid) (← index _ address) value)
  | .load pid address => do some (.load (← index _ pid) (← index _ address))

/-- The arguments the functions are made for. -/
def Call.InRange : Call → Prop
  | .map pid address write => (0 ≤ pid ∧ pid < maxProcesses) ∧
      (0 ≤ address ∧ address < virtAddSpace) ∧ (write = 0 ∨ write = 1)
  | .store pid address _ | .load pid address =>
      (0 ≤ pid ∧ pid < maxProcesses) ∧ (0 ≤ address ∧ address < virtAddSpace)

section Loop

variable {S R : Type}

/-- One round of the loop, with the calls of a part; `none` if it does not come back. -/
def round (exec : Cmd → S → Option (R × S)) (line : List Byte) (s : S) :
    Option (List Notice × S) := do
  let (notices, call) ← interpret (fields line)
  match call with
  | none => some (notices, s)
  | some call => call.cmd.bind fun c => (exec c s).map fun (_, s) => (notices, s)

/-- The loop does with the line what its checks are for: there is an instruction to
compare, a call has arguments in range, and a line without one changes nothing. -/
structure Validates (exec : Cmd → S → Option (R × S)) (line : List Byte) : Prop where
  instruction : interpret (fields line) ≠ none
  inRange : ∀ notices call, interpret (fields line) = some (notices, some call) → call.InRange
  unchanged : (¬ ∃ notices call, interpret (fields line) = some (notices, some call)) →
    ∀ s, ∃ notices, round exec line s = some (notices, s)

end Loop

/-! ## Which lines lead to a call -/

def Fields.PidInRange (f : Fields) : Prop := 0 ≤ f.pid ∧ f.pid < maxProcesses

/-- A check other than that of the pid fails. -/
def Fields.Rejected (f : Fields) (instruction : CString) : Prop :=
  (f.address ≥ virtAddSpace ∨ f.address < 0) ∨
    (instruction = literal "map" ∧ (f.value > 1 ∨ f.value < 0)) ∨
    (instruction ≠ literal "map" ∧ instruction ≠ literal "store" ∧ instruction ≠ literal "load")

/-- The line has an instruction, and its pid is in range unless another check fails. -/
def Fields.Proper (f : Fields) : Prop :=
  ∃ instruction, f.instruction = some instruction ∧ (f.PidInRange ∨ f.Rejected instruction)

section Lines

variable {f : Fields} {instruction : CString} {line : List Byte}

/-- Without an instruction there is no address either, so its check does not help. -/
theorem address_of_no_instruction (h : (fields line).instruction = none) :
    (fields line).address = 0 := by
  have hrest : (strtok comma (strtok comma (cString line)).2).2 = [] := strtok_rest_of_none h
  simp only [fields, hrest, strtok_nil]
  rfl

theorem interpret_eq_none_iff :
    interpret (fields line) = none ↔ (fields line).instruction = none := by
  constructor
  · intro h
    unfold interpret at h
    split at h
    · cases h
    · exact Option.map_eq_none_iff.mp h
  · intro h
    rw [interpret, address_of_no_instruction h, if_neg (by decide), h]
    rfl

theorem index_of_inRange {n : Nat} {x : Int} (h : 0 ≤ x ∧ x < n) : ∃ i, index n x = some i :=
  ⟨_, dif_pos h⟩

theorem Call.InRange.cmd {call : Call} (h : call.InRange) : ∃ c, call.cmd = some c := by
  cases call with
  | map pid address write =>
    obtain ⟨p, hp⟩ := index_of_inRange h.1
    obtain ⟨a, ha⟩ := index_of_inRange h.2.1
    exact ⟨_, by rw [Call.cmd, hp, ha]; rfl⟩
  | store pid address value =>
    obtain ⟨p, hp⟩ := index_of_inRange h.1
    obtain ⟨a, ha⟩ := index_of_inRange h.2
    exact ⟨_, by rw [Call.cmd, hp, ha]; rfl⟩
  | load pid address =>
    obtain ⟨p, hp⟩ := index_of_inRange h.1
    obtain ⟨a, ha⟩ := index_of_inRange h.2
    exact ⟨_, by rw [Call.cmd, hp, ha]; rfl⟩

/-- A line with an instruction is rejected, or leads to a call that is in range if its
pid is. -/
theorem interpret_cases (h : f.instruction = some instruction) :
    (f.Rejected instruction ∧ ∃ notices, interpret f = some (notices, none)) ∨
      ¬ f.Rejected instruction ∧ ∃ notices call, interpret f = some (notices, some call) ∧
        (call.InRange ↔ f.PidInRange) := by
  by_cases haddress : f.address ≥ virtAddSpace ∨ f.address < 0
  · exact .inl ⟨.inl haddress, _, by rw [interpret, if_pos haddress]⟩
  have hin : 0 ≤ f.address ∧ f.address < virtAddSpace := by omega
  rw [show f.Rejected instruction ↔ _ from or_iff_right haddress, interpret, if_neg haddress, h,
    Option.map_some]
  by_cases hmap : instruction = literal "map"
  · rw [if_pos hmap]
    by_cases hvalue : f.value > 1 ∨ f.value < 0
    · exact .inl ⟨.inl ⟨hmap, hvalue⟩, _, by rw [if_pos hvalue]⟩
    · rw [if_neg hvalue]
      exact .inr ⟨by simp [hmap, hvalue], _, _, rfl, fun h => h.1, fun h => ⟨h, hin, by omega⟩⟩
  rw [if_neg hmap]
  by_cases hstore : instruction = literal "store"
  · rw [if_pos hstore]
    refine .inr ⟨?_, _, _, rfl, fun h => h.1, fun h => ⟨h, hin⟩⟩
    rintro (⟨h, -⟩ | ⟨-, h, -⟩)
    · exact hmap h
    · exact h hstore
  rw [if_neg hstore]
  by_cases hload : instruction = literal "load"
  · rw [if_pos hload]
    refine .inr ⟨?_, _, _, rfl, fun h => h.1, fun h => ⟨h, hin⟩⟩
    rintro (⟨h, -⟩ | ⟨-, -, h⟩)
    · exact hmap h
    · exact h hload
  · exact .inl ⟨.inr ⟨hmap, hstore, hload⟩, _, by rw [if_neg hload]⟩

/-- A line is dealt with properly exactly if it has an instruction, and a pid in range
unless another check rejects it. -/
theorem validates_iff_proper {S R : Type} (exec : Cmd → S → Option (R × S)) :
    Validates exec line ↔ (fields line).Proper := by
  constructor
  · rintro ⟨hinstruction, hinRange, -⟩
    obtain ⟨instruction, h⟩ := Option.ne_none_iff_exists'.mp
      (fun hnone => hinstruction (interpret_eq_none_iff.mpr hnone))
    refine ⟨instruction, h, ?_⟩
    rcases interpret_cases h with ⟨hrejected, -⟩ | ⟨-, notices, call, heq, hiff⟩
    · exact .inr hrejected
    · exact .inl (hiff.mp (hinRange notices call heq))
  · rintro ⟨instruction, h, hproper⟩
    have hsome : interpret (fields line) ≠ none := by
      rw [Ne, interpret_eq_none_iff, h]
      simp
    rcases interpret_cases h with ⟨-, notices, heq⟩ | ⟨hnot, notices, call, heq, hiff⟩
    · refine ⟨hsome, fun _ _ h' => ?_, fun _ s => ⟨notices, ?_⟩⟩
      · cases heq.symm.trans h'
      · rw [round, heq]
        rfl
    · refine ⟨hsome, fun _ _ h' => ?_, fun hno => absurd ⟨notices, call, heq⟩ hno⟩
      cases heq.symm.trans h'
      exact hiff.mpr (hproper.resolve_right hnot)

end Lines

/-- Of the lines of either part, exactly the proper ones are dealt with as the checks
intend. -/
theorem line_validated_iff (line : List Byte) :
    (Validates PartOne.exec line ↔ (fields line).Proper) ∧
      (Validates PartTwo.exec line ↔ (fields line).Proper) :=
  ⟨validates_iff_proper PartOne.exec, validates_iff_proper PartTwo.exec⟩

/-- A pid out of range is reported and used, and a line without a comma gives `strcmp` a
`NULL`. -/
theorem unchecked_lines :
    interpret (fields (literal "7,load,0\n")) = some ([.pid], some (.load 7 0)) ∧
      interpret (fields (literal "0\n")) = none ∧
      ¬ Validates PartOne.exec (literal "7,load,0\n") ∧
      ¬ Validates PartTwo.exec (literal "7,load,0\n") ∧
      ¬ Validates PartOne.exec (literal "0\n") ∧
      ¬ Validates PartTwo.exec (literal "0\n") := by
  have hload : interpret (fields (literal "7,load,0\n")) = some ([.pid], some (.load 7 0)) := by
    decide +kernel
  have hnone : interpret (fields (literal "0\n")) = none := by decide +kernel
  have hout : ¬ (Call.load 7 0).InRange := fun h => absurd h.1.2 (by decide)
  exact ⟨hload, hnone, fun h => hout (h.inRange _ _ hload), fun h => hout (h.inRange _ _ hload),
    fun h => h.instruction hnone, fun h => h.instruction hnone⟩

/-! ## Sessions -/

/-- The call that a line leads to, if it has the arguments for it. -/
def lineCmd (line : List Byte) : Option Cmd := (interpret (fields line)).bind fun x =>
  x.2.bind Call.cmd

section Sessions

variable {S R : Type} (exec : Cmd → S → Option (R × S)) {line : List Byte}

/-- A proper line is its call, or nothing. -/
theorem round_eq_lineCmd (h : (fields line).Proper) (s : S) :
    (round exec line s).map Prod.snd =
      match lineCmd line with
      | none => some s
      | some c => (exec c s).map Prod.snd := by
  obtain ⟨instruction, h, hproper⟩ := h
  rcases interpret_cases h with ⟨-, notices, heq⟩ | ⟨hnot, notices, call, heq, hiff⟩
  · rw [round, lineCmd, heq]
    rfl
  · obtain ⟨c, hc⟩ := (hiff.mpr (hproper.resolve_right hnot)).cmd
    rw [round, lineCmd, heq]
    simp only [Option.bind_eq_bind, Option.bind_some, hc, Option.map_map]
    rfl

/-- A session of proper lines ends where their calls, made one after the other, end. -/
theorem session_is_run {lines : List (List Byte)} (h : ∀ line ∈ lines, (fields line).Proper)
    (s : S) : (run (round exec) lines s).map Prod.snd =
      (run exec (lines.filterMap lineCmd) s).map Prod.snd := by
  induction lines generalizing s with
  | nil => rfl
  | cons line lines ih =>
    have ih := ih fun line hline => h line (by simp [hline])
    rw [map_snd_run_cons, round_eq_lineCmd exec (h line (by simp))]
    simp only [ih]
    cases hc : lineCmd line with
    | none =>
      rw [List.filterMap_cons_none hc]
      rfl
    | some c => rw [List.filterMap_cons_some hc, map_snd_run_cons]

end Sessions

end OsProjects.Paging
