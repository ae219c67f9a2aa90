import OsProjects.Mc2.Menu

/-!
# `Project1/v1`: the options of the menu

`appendOption` and `addOption` of the `option.c` of `v1`, with the arrays and faults of
`v2`. The `struct option` of `v1` has no `blocking`, since every command is waited for: here
an option is one of `v2` that blocks. What `v2` takes for a mark, a token that starts with
`'&'`, is an argument like any other.
-/

namespace OsProjects.Mc1

open OsProjects.Lib OsProjects.Mc2

def appendOption (allocated : Bool) (cmds : List Opt) (path name desc head : CString)
    (defArgs : DefArgs) (args argPath : Bool) : Except Mc2.Fault (Int × List Opt) :=
  Mc2.appendOption allocated cmds path name desc head defArgs args argPath true

/-- The loop of `addOption` over the tokens after the path. -/
def addArgs (rest : CString) (defArgs : List CString) : Except Mc2.Fault (List CString) :=
  match _h : (strtok space rest).1 with
  | none => .ok defArgs
  | some tmp =>
    if defArgs.length < maxDefArgs - 1 then do
      let arg ← strcpy maxInLength tmp
      let defArgs ← push maxDefArgs defArgs arg
      addArgs (strtok space rest).2 defArgs
    else .ok defArgs
termination_by rest.length
decreasing_by exact strtok_snd_length _h

/-- `addOption` from the first token on. -/
def addCommand (allocated : Bool) (cmds : List Opt) (nameStr tmp rest : CString) :
    Except Mc2.Fault (Int × List Opt) := do
  let pathStr ← strcpy maxInLength tmp
  let defArgs ← addArgs rest []
  -- the terminator
  let _ ← push maxDefArgs (defArgs.map some) none
  let headStr ← header nameStr
  appendOption allocated cmds pathStr nameStr (literal "A user generated command.") headStr
    (.array defArgs) false false

/-- `addOption` when its last call, of `appendOption`, has come back. -/
def addOptionBody (allocated : Bool) (cmds : List Opt) (line : List (BitVec 8)) :
    Except Mc2.Fault (Int × List Opt) :=
  readCommand cmds line (addCommand allocated cmds)

def addOption (allocated : Bool) (cmds : List Opt) (line : List (BitVec 8)) :
    Except Mc2.Fault (Int × List Opt) :=
  (addOptionBody allocated cmds line).map fun (id, cmds') => (id, endFrame cmds.length cmds')

/-! ## What the calls do -/

section Specifications

/-- The loop, from any of its rounds. -/
theorem addArgs_eq {later defArgs : List CString} {rest : CString}
    (hrest : tokens space rest = later) (hfits : ∀ t ∈ later, t.length < maxInLength)
    {room : Nat} (hroom : defArgs.length + room = maxDefArgs - 1) :
    addArgs rest defArgs = .ok (defArgs ++ later.take room) := by
  induction later generalizing rest defArgs room with
  | nil =>
    rw [addArgs]
    split
    · rw [List.take_nil, List.append_nil]
    · next tmp htmp => exact absurd ((strtok_of_nil hrest).symm.trans htmp) (by simp)
  | cons tmp later ih =>
    obtain ⟨hsome, hlater⟩ := strtok_of_cons hrest
    rw [addArgs]
    split
    · next hnone => exact absurd (hsome.symm.trans hnone) (by simp)
    next tmp' htmp =>
    cases hsome.symm.trans htmp
    cases room with
    | zero =>
      have hfull : ¬ defArgs.length < maxDefArgs - 1 := by omega
      rw [if_neg hfull, List.take_zero, List.append_nil]
    | succ room =>
      have hroom' : (defArgs ++ [tmp]).length + room = maxDefArgs - 1 := by
        rw [List.length_append, List.length_singleton]
        omega
      rw [if_pos (by omega), strcpy_of_fits (hfits tmp List.mem_cons_self), ok_bind,
        push_of_room (by omega), ok_bind,
        ih hlater (fun t ht => hfits t (List.mem_cons_of_mem _ ht)) hroom', List.append_assoc]
      rfl

/-- The option of a command with these tokens. -/
def userOption (name path : CString) (later : List CString) : Opt :=
  commandOption name path (later.take (maxDefArgs - 1)) true

theorem addOptionBody_spec (allocated : Bool) (cmds : List Opt) (line : List (BitVec 8)) :
    addOptionBody allocated cmds line =
      commandResult allocated cmds line (userOption (typed line)) := by
  refine readCommand_eq ?_
  intro tmp rest later hname htmp hrest hlater
  have hargs : addArgs rest [] = .ok (later.take (maxDefArgs - 1)) :=
    addArgs_eq hrest (fun t ht => by have := hlater t ht; omega) (Nat.zero_add _)
  rw [addCommand, strcpy_of_fits (by omega), ok_bind, hargs, ok_bind]
  exact appendCommand_eq hname htmp (length_take_lt _)

/-- All that a call can do; in `v2` it is the same, but for the option. -/
theorem addOption_spec (allocated : Bool) (cmds : List Opt) (line : List (BitVec 8)) :
    addOption allocated cmds line =
      commandResult allocated cmds line fun path later =>
        (userOption (typed line) path later).outlives := by
  rw [addOption, addOptionBody_spec, commandResult_endFrame]

end Specifications

/-! ## Against `v2` -/

section Comparison

variable {room : Nat} {later : List CString}

theorem ampersandSeen_eq_false_iff :
    ampersandSeen room later = false ↔ ∀ t ∈ later.take room, ampersand t = false := by
  induction later generalizing room with
  | nil => simp [ampersandSeen]
  | cons tmp later ih =>
    cases room with
    | zero => simp
    | succ room => simp [ampersandSeen_cons, ih]

/-- The loop of `v2` takes the same arguments if it sees no mark. -/
theorem take_arguments (h : ∀ t ∈ later.take room, ampersand t = false) :
    (arguments later).take room = later.take room := by
  induction later generalizing room with
  | nil => rfl
  | cons tmp later ih =>
    cases room with
    | zero => rfl
    | succ room =>
      rw [List.take_succ_cons] at h ⊢
      have htmp : ampersand tmp = false := h tmp List.mem_cons_self
      have hrest := ih fun t ht => h t (List.mem_cons_of_mem _ ht)
      rw [← hrest]
      simp [arguments, htmp]

theorem userOption_of_unseen {name path : CString}
    (hnone : ∀ t ∈ later.take (maxDefArgs - 1), ampersand t = false) :
    userOption name path later = Mc2.userOption name path later := by
  rw [userOption, Mc2.userOption, take_arguments hnone, ampersandSeen_eq_false_iff.mpr hnone]
  rfl

/-- Without the default arguments it is the flag that tells the options apart. -/
theorem unseen_of_outlives {name path : CString}
    (heq : (userOption name path later).outlives = (Mc2.userOption name path later).outlives) :
    ∀ t ∈ later.take (maxDefArgs - 1), ampersand t = false := by
  have hblocking : true = !ampersandSeen (maxDefArgs - 1) later := congrArg Opt.blocking heq
  exact ampersandSeen_eq_false_iff.mp (by simpa using hblocking.symm)

theorem userOption_eq_iff (name path : CString) :
    userOption name path later = Mc2.userOption name path later ↔
      ∀ t ∈ later.take (maxDefArgs - 1), ampersand t = false :=
  ⟨fun heq => unseen_of_outlives (congrArg Opt.outlives heq), userOption_of_unseen⟩

theorem outlives_eq_iff (name path : CString) :
    (userOption name path later).outlives = (Mc2.userOption name path later).outlives ↔
      ∀ t ∈ later.take (maxDefArgs - 1), ampersand t = false :=
  ⟨unseen_of_outlives, fun hnone => congrArg Opt.outlives (userOption_of_unseen hnone)⟩

variable {allocated : Bool} {cmds : List Opt} {line : List (BitVec 8)}
  {f g : CString → List CString → Opt}

theorem commandResult_fst : (commandResult allocated cmds line f).map Prod.fst =
    (commandResult allocated cmds line g).map Prod.fst := by
  unfold commandResult
  repeat' split
  all_goals rfl

/-- The two are told apart by a line of which an option comes. -/
theorem commandResult_eq_iff {P : List CString → Prop}
    (hoption : ∀ path later, f path later = g path later ↔ ¬ P later) :
    commandResult allocated cmds line f = commandResult allocated cmds line g ↔
      ¬ (NameFits line ∧ allocated = true ∧ cmds.length < maxOptions ∧
        tokens space (typed line) ≠ [] ∧ P (tokens space (typed line)).tail) := by
  by_cases hfits : NameFits line
  case neg => simp [commandResult_overflow, hfits]
  by_cases hline : line = []
  case pos =>
    subst hline
    exact iff_of_true rfl fun h => h.2.2.2.1 tokens_nil
  cases htokens : tokens space (typed line) with
  | nil => simp [commandResult_nil hline hfits htokens]
  | cons path later =>
    rw [commandResult_cons hline hfits htokens, commandResult_cons hline hfits htokens]
    cases allocated with
    | false => simp
    | true =>
      by_cases hroom : cmds.length < maxOptions
      case neg => simp [hroom]
      simp only [hfits, hroom, if_true, true_and, List.tail_cons, Except.ok.injEq, Prod.mk.injEq,
        List.append_cancel_left_eq, List.cons.injEq, and_true, hoption, ne_eq, reduceCtorEq,
        not_false_eq_true]

end Comparison

/-- `addOption` of `v1` and of `v2` return the same number or have the same fault; what they
append is the same but for a line with a token that starts with `'&'`, among the tokens after
the path that there is room for: when it is appended, and when the calls have returned. -/
theorem additions_agree_iff (allocated : Bool) (cmds : List Opt) (line : List (BitVec 8)) :
    (addOption allocated cmds line).map Prod.fst =
        (Mc2.addOption allocated cmds line).map Prod.fst ∧
      (addOptionBody allocated cmds line = Mc2.addOptionBody allocated cmds line ↔
        ¬ (NameFits line ∧ allocated = true ∧ cmds.length < maxOptions ∧
          ∃ t ∈ (tokens space (typed line)).tail.take (maxDefArgs - 1), ampersand t = true)) ∧
      (addOption allocated cmds line = Mc2.addOption allocated cmds line ↔
        ¬ (NameFits line ∧ allocated = true ∧ cmds.length < maxOptions ∧
          ∃ t ∈ (tokens space (typed line)).tail.take (maxDefArgs - 1), ampersand t = true)) := by
  have hseen : ∀ later : List CString,
      (∀ t ∈ later.take (maxDefArgs - 1), ampersand t = false) ↔
        ¬ ∃ t ∈ later.take (maxDefArgs - 1), ampersand t = true := by
    intro later
    simp only [not_exists, not_and, Bool.not_eq_true]
  -- where there is a mark, there is a token
  have htoken : tokens space (typed line) ≠ [] ∧
      (∃ t ∈ (tokens space (typed line)).tail.take (maxDefArgs - 1), ampersand t = true) ↔
      ∃ t ∈ (tokens space (typed line)).tail.take (maxDefArgs - 1), ampersand t = true := by
    refine and_iff_right_of_imp ?_
    rintro ⟨t, ht, -⟩ hnil
    rw [hnil] at ht
    cases ht
  rw [addOption_spec, Mc2.addOption_spec, addOptionBody_spec, Mc2.addOptionBody_spec]
  refine ⟨commandResult_fst, ?_, ?_⟩
  · rw [commandResult_eq_iff fun path later => (userOption_eq_iff _ path).trans (hseen later),
      htoken]
  · rw [commandResult_eq_iff fun path later => (outlives_eq_iff _ path).trans (hseen later),
      htoken]

end OsProjects.Mc1
