import OsProjects.Lib.Text
import OsProjects.Paging.CommandLoop

/-!
# Command scripts

A call written as `pid,cmd,address,value`, the form the users of either part type, and a script
of such lines. The loop of `main`, which reads the text with `fgets` and takes each line apart
with `strtok` and `atoi`, makes exactly the calls that were written (`script_makes_the_calls`):
all that is proved of runs of calls is about what can be typed, and a session of proper lines is
always that of a script (`session_as_script`).
-/

namespace OsProjects.Paging

open OsProjects.Lib

/-- `char buf[120]` -/
abbrev bufSize : Nat := 120

def Cmd.instruction : Cmd → CString
  | .map _ _ _ => literal "map"
  | .store _ _ _ => literal "store"
  | .load _ _ => literal "load"

def Cmd.address : Cmd → Address
  | .map _ a _ => a
  | .store _ a _ => a
  | .load _ a => a

/-- The last field; `load` does not use it. -/
def Cmd.value : Cmd → Nat
  | .map _ _ w => w.toNat
  | .store _ _ v => v.toNat
  | .load _ _ => 0

/-- A line without its end. -/
def commandText (pid : Nat) (instruction : CString) (address value : Nat) : CString :=
  decimal pid ++ comma :: (instruction ++ comma :: (decimal address ++ comma :: decimal value))

def Cmd.text (c : Cmd) : CString := commandText c.pid c.instruction c.address c.value

/-- The line as `fgets` delivers it. -/
def Cmd.line (c : Cmd) : List Byte := c.text ++ [10]

def script (cs : List Cmd) : List Byte := (cs.map Cmd.line).flatten

example : script [.map 0 1 true, .store 0 1 25, .load 0 1] =
    literal "0,map,1,1\n0,store,1,25\n0,load,1,0\n" := by
  decide +kernel

/-! ## One line -/

section Line

variable {pid address value : Nat} {instruction : CString} {b : Byte}

theorem mem_commandText (h : b ∈ commandText pid instruction address value) :
    isdigit b = true ∨ b = comma ∨ b ∈ instruction := by
  simp only [commandText, List.mem_append, List.mem_cons] at h
  rcases h with h | h | h | h | h | h | h
  · exact .inl (isdigit_of_mem_decimal h)
  · exact .inr (.inl h)
  · exact .inr (.inr h)
  · exact .inr (.inl h)
  · exact .inl (isdigit_of_mem_decimal h)
  · exact .inr (.inl h)
  · exact .inl (isdigit_of_mem_decimal h)

/-- `main` takes the line apart into the fields it was made of. -/
theorem fields_commandText (hpid : pid < 2147483648) (haddress : address < 2147483648)
    (hvalue : value < 2147483648) (hne : instruction ≠ []) (hcomma : comma ∉ instruction)
    (hnul : 0 ∉ instruction) :
    fields (commandText pid instruction address value ++ [10]) =
      ⟨pid, some instruction, address, value⟩ := by
  have hdigit : ∀ n, comma ∉ decimal n := fun n => not_mem_decimal (by decide)
  have hlast : comma ∉ decimal value ++ [10] := by
    intro h
    rcases List.mem_append.mp h with h | h
    · exact hdigit _ h
    · exact absurd (List.mem_singleton.mp h) (by decide)
  have hstring : cString (commandText pid instruction address value ++ [10]) =
      commandText pid instruction address value ++ [10] := by
    refine List.takeWhile_eq_self_iff.mpr fun b hb => bne_iff_ne.mpr ?_
    rintro rfl
    rcases List.mem_append.mp hb with hb | hb
    · rcases mem_commandText hb with hb | hb | hb
      · exact absurd hb (by decide)
      · exact absurd hb (by decide)
      · exact hnul hb
    · exact absurd (List.mem_singleton.mp hb) (by decide)
  have hsplit : commandText pid instruction address value ++ [10] =
      decimal pid ++ comma :: (instruction ++ comma ::
        (decimal address ++ comma :: (decimal value ++ [10]))) := by
    simp [commandText]
  rw [fields, hstring, hsplit, strtok_field (decimal_ne_nil _) (hdigit _)]
  simp only [strtok_field hne hcomma, strtok_field (decimal_ne_nil _) (hdigit _),
    strtok_last (List.append_ne_nil_of_left_ne_nil (decimal_ne_nil value) _) hlast,
    Option.map_some, Option.getD_some]
  have hatoi : ∀ n, n < 2147483648 → atoi (decimal n) = n := fun n hn => by
    have h : atoi (decimal n ++ []) = n := atoi_decimal hn rfl
    rwa [List.append_nil] at h
  rw [hatoi pid hpid, hatoi address haddress, atoi_decimal hvalue (by decide)]

theorem Cmd.value_lt (c : Cmd) : c.value < 256 := by
  cases c with
  | map p a w => exact lt_of_le_of_lt w.toNat_le (by decide)
  | store p a v => exact v.isLt
  | load p a => exact Nat.succ_pos 255

/-- The instruction is a word of a few letters. -/
theorem Cmd.instruction_spec (c : Cmd) :
    c.instruction ≠ [] ∧ c.instruction.length ≤ 5 ∧ comma ∉ c.instruction ∧ 0 ∉ c.instruction ∧
      10 ∉ c.instruction := by
  have hwords : ∀ t ∈ [literal "map", literal "store", literal "load"],
      t ≠ [] ∧ t.length ≤ 5 ∧ comma ∉ t ∧ 0 ∉ t ∧ 10 ∉ t := by
    decide
  exact hwords _ (by cases c <;> simp [Cmd.instruction])

theorem fields_line (c : Cmd) :
    fields c.line = ⟨(c.pid : Nat), some c.instruction, (c.address : Nat), c.value⟩ := by
  obtain ⟨hne, -, hcomma, hnul, -⟩ := c.instruction_spec
  have hpid := c.pid.isLt
  have haddress := c.address.isLt
  have hvalue := c.value_lt
  exact fields_commandText (lt_trans hpid (by decide)) (lt_trans haddress (by decide))
    (lt_trans hvalue (by decide)) hne hcomma hnul

theorem index_val {n : Nat} (i : Fin n) : index n (i : Nat) = some i := by
  rw [index, dif_pos (by omega)]
  rfl

/-- The line of a call passes all checks and leads to the call. -/
theorem interpret_line (c : Cmd) :
    ∃ call, interpret (fields c.line) = some ([], some call) ∧ call.cmd = some c := by
  have hpid : ¬ (((c.pid : Nat) : Int) ≥ maxProcesses ∨ ((c.pid : Nat) : Int) < 0) := by
    have := c.pid.isLt
    omega
  have haddress : ¬ (((c.address : Nat) : Int) ≥ virtAddSpace ∨ ((c.address : Nat) : Int) < 0) := by
    have := c.address.isLt
    omega
  rw [fields_line, interpret]
  simp only [hpid, haddress, if_false, Option.map_some]
  cases c with
  | map p a w =>
    refine ⟨.map (p : Nat) (a : Nat) w.toNat, ?_, ?_⟩
    · cases w <;> rfl
    · cases w <;> simp [Call.cmd, index_val]
  | store p a v =>
    refine ⟨.store (p : Nat) (a : Nat) v, ?_, ?_⟩
    · have hv : BitVec.ofInt 8 (v.toNat : Int) = v := by simp
      show some ([], some (Call.store (p : Nat) (a : Nat) (BitVec.ofInt 8 v.toNat))) = _
      rw [hv]
    · simp [Call.cmd, index_val]
  | load p a =>
    refine ⟨.load (p : Nat) (a : Nat), ?_, ?_⟩
    · rfl
    · simp [Call.cmd, index_val]

theorem Cmd.text_spec (c : Cmd) : 10 ∉ c.text ∧ c.text.length + 2 ≤ bufSize := by
  obtain ⟨-, hlength, -, -, hend⟩ := c.instruction_spec
  constructor
  · intro h
    rcases mem_commandText h with h | h | h
    · exact absurd h (by decide)
    · exact absurd h (by decide)
    · exact hend h
  · have hpid : (decimal c.pid).length ≤ 1 :=
      decimal_length (by decide) (lt_trans c.pid.isLt (by decide))
    have haddress : (decimal c.address).length ≤ 2 :=
      decimal_length (by decide) (lt_trans c.address.isLt (by decide))
    have hvalue : (decimal c.value).length ≤ 3 :=
      decimal_length (by decide) (lt_trans c.value_lt (by decide))
    simp only [Cmd.text, commandText, List.length_append, List.length_cons, bufSize]
    omega

end Line

/-! ## Scripts -/

/-- `fgets` delivers the lines of the script. -/
theorem readLines_script (cs : List Cmd) : readLines bufSize [] (script cs) = cs.map Cmd.line := by
  induction cs with
  | nil => rfl
  | cons c cs ih =>
    obtain ⟨hend, hfits⟩ := c.text_spec
    have hsplit : script (c :: cs) = c.text ++ 10 :: script cs := by
      simp [script, Cmd.line]
    rw [hsplit, readLines_line hend (by simpa using hfits), ih]
    rfl

section Loop

variable {S R : Type} (exec : Cmd → S → Option (R × S))

/-- The history of the loop that a history of calls is: no line of `main` is printed. -/
def asTyped (x : List (Cmd × R) × S) : List (List Byte × List Notice) × S :=
  (x.1.map fun e => (e.1.line, []), x.2)

theorem round_line (c : Cmd) (s : S) :
    round exec c.line s = (exec c s).map fun x => ([], x.2) := by
  obtain ⟨call, hcall, hcmd⟩ := interpret_line c
  rw [round, hcall]
  simp only [Option.bind_eq_bind, Option.bind_some, hcmd]

theorem run_lines (cs : List Cmd) (s : S) :
    run (round exec) (cs.map Cmd.line) s = (run exec cs s).map asTyped := by
  induction cs generalizing s with
  | nil => rfl
  | cons c cs ih =>
    rw [List.map_cons, run, run, round_line]
    cases exec c s with
    | none => rfl
    | some x =>
      simp only [Option.bind_eq_bind, Option.map_some, Option.bind_some, ih]
      cases run exec cs x.2 with
      | none => rfl
      | some y => rfl

/-- A session of proper lines comes to the state that the script of its calls comes to. -/
theorem session_as_script {lines : List (List Byte)} (h : ∀ line ∈ lines, (fields line).Proper)
    (s : S) : (run (round exec) lines s).map Prod.snd =
      (run (round exec) (readLines bufSize [] (script (lines.filterMap lineCmd))) s).map
        Prod.snd := by
  rw [session_is_run exec h, readLines_script, run_lines, Option.map_map]
  rfl

end Loop

/-- The text of a script makes the loop of either part make the calls it was written from, in
their order and with nothing else printed or called. -/
theorem script_makes_the_calls (cs : List Cmd) :
    run (round PartOne.exec) (readLines bufSize [] (script cs)) PartOne.State.init =
        (PartOne.calls cs).map asTyped ∧
      run (round PartTwo.exec) (readLines bufSize [] (script cs)) PartTwo.State.init =
        (PartTwo.calls cs).map asTyped := by
  rw [readLines_script]
  exact ⟨run_lines PartOne.exec cs _, run_lines PartTwo.exec cs _⟩

end OsProjects.Paging
