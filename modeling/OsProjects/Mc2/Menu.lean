import OsProjects.Lib.Machine
import OsProjects.Mc2.Options

/-!
# `Project1`: the menu

`selectOption` of `v1` and of `v2`: the second one knows the letter `r`, and the first one
takes a number that is one too high. Then the loop of `main` in `v2`, as far as it changes the
menu: it reads a choice, and for the choice `a` the line of a command.
-/

namespace OsProjects

open OsProjects.Lib

/-! ## `selectOption` -/

/-- `OPT_A` -/
abbrev optA : Int := -2

/-- `OPT_C` -/
abbrev optC : Int := -3

/-- `OPT_E` -/
abbrev optE : Int := -4

/-- `OPT_P` -/
abbrev optP : Int := -5

/-- `OPT_R` -/
abbrev optR : Int := -6

/-- `selectOption` of `v1`, with the answer of `feof` after the line was read. -/
def Mc1.selectOption (size : Int) (feof : Bool) (choiceStr : List (BitVec 8)) : Int :=
  let c := choiceStr.headD 0
  if feof then optE
  else if c = 97 then optA -- 'a'
  else if c = 99 then optC -- 'c'
  else if c = 101 then optE -- 'e'
  else if c = 112 then optP -- 'p'
  else if isdigit c then
    let option := atoi (cString choiceStr)
    if 0 ≤ option ∧ option ≤ size then option else -1
  else -1

/-- `selectOption` of `v2`. -/
def Mc2.selectOption (size : Int) (feof : Bool) (choiceStr : List (BitVec 8)) : Int :=
  let c := choiceStr.headD 0
  if feof then optE
  else if c = 97 then optA -- 'a'
  else if c = 99 then optC -- 'c'
  else if c = 101 then optE -- 'e'
  else if c = 112 then optP -- 'p'
  else if c = 114 then optR -- 'r'
  else if isdigit c then
    let option := atoi (cString choiceStr)
    if 0 ≤ option ∧ option < size then option else -1
  else -1

section Selecting

variable {size : Int} {choiceStr : List (BitVec 8)}

theorem not_letter_of_isdigit {c : BitVec 8} (h : isdigit c = true) :
    c ≠ 97 ∧ c ≠ 99 ∧ c ≠ 101 ∧ c ≠ 112 ∧ c ≠ 114 := by
  refine ⟨?_, ?_, ?_, ?_, ?_⟩ <;>
  · rintro rfl
    exact absurd h (by decide)

/-- The two ranges. -/
theorem selectOption_of_digit (h : isdigit (choiceStr.headD 0) = true) :
    Mc1.selectOption size false choiceStr =
        (if 0 ≤ atoi (cString choiceStr) ∧ atoi (cString choiceStr) ≤ size
          then atoi (cString choiceStr) else -1) ∧
      Mc2.selectOption size false choiceStr =
        (if 0 ≤ atoi (cString choiceStr) ∧ atoi (cString choiceStr) < size
          then atoi (cString choiceStr) else -1) := by
  obtain ⟨ha, hc, he, hp, hr⟩ := not_letter_of_isdigit h
  constructor
  · simp only [Mc1.selectOption, if_neg ha, if_neg hc, if_neg he, if_neg hp, if_pos h,
      Bool.false_eq_true, if_false]
  · simp only [Mc2.selectOption, if_neg ha, if_neg hc, if_neg he, if_neg hp, if_neg hr, if_pos h,
      Bool.false_eq_true, if_false]

/-- The letters and the rest. -/
theorem selectOption_of_not_digit (h : isdigit (choiceStr.headD 0) = false) :
    Mc1.selectOption size false choiceStr < 0 ∧ Mc2.selectOption size false choiceStr < 0 ∧
      (choiceStr.headD 0 ≠ 114 →
        Mc1.selectOption size false choiceStr = Mc2.selectOption size false choiceStr) := by
  simp only [Mc1.selectOption, Mc2.selectOption, h, Bool.false_eq_true, if_false]
  refine ⟨?_, ?_, ?_⟩
  · repeat' split
    all_goals decide
  · repeat' split
    all_goals decide
  · intro hr
    rw [if_neg hr]

theorem selections_agree_iff (n : Nat) (choiceStr : List (BitVec 8)) :
    ((0 ≤ Mc1.selectOption n false choiceStr → Mc1.selectOption n false choiceStr < n) ∧
      (0 ≤ Mc2.selectOption n false choiceStr → Mc2.selectOption n false choiceStr < n) ∧
      (choiceStr.headD 0 ≠ 114 →
        Mc1.selectOption n false choiceStr = Mc2.selectOption n false choiceStr)) ↔
      ¬ (isdigit (choiceStr.headD 0) = true ∧ atoi (cString choiceStr) = n) := by
  cases hdigit : isdigit (choiceStr.headD 0) with
  | false =>
    obtain ⟨h₁, h₂, hsame⟩ := @selectOption_of_not_digit n choiceStr hdigit
    exact iff_of_true ⟨fun h => absurd h (by omega), fun h => absurd h (by omega), hsame⟩ (by simp)
  | true =>
    obtain ⟨h₁, h₂⟩ := @selectOption_of_digit n choiceStr hdigit
    rw [h₁, h₂]
    generalize atoi (cString choiceStr) = option
    by_cases heq : option = n
    · refine iff_of_false ?_ fun h => h ⟨rfl, heq⟩
      rintro ⟨hbelow, -⟩
      rw [if_pos (by omega)] at hbelow
      omega
    · refine iff_of_true ?_ fun h => heq h.2
      by_cases hrange : 0 ≤ option ∧ option < n
      · rw [if_pos hrange, if_pos (by omega)]
        exact ⟨fun _ => hrange.2, fun _ => hrange.2, fun _ => rfl⟩
      · rw [if_neg hrange, if_neg (by omega)]
        exact ⟨fun h => absurd h (by decide), fun h => absurd h (by decide), fun _ => rfl⟩

/-- `v1` takes the number of the next option for one of the menu. -/
theorem one_too_high :
    Mc1.selectOption 3 false (literal "3\n") = 3 ∧
      Mc2.selectOption 3 false (literal "3\n") = -1 := by
  decide +kernel

end Selecting

/-! ## `main` of `v2` -/

namespace Mc2

/-- Start-up, with what each `malloc` says: `main` exits if an option was not appended. -/
def addDefaults (whoami last ls : Bool) : Except Fault (Option (List Opt)) := do
  let (id, cmds) ← appendOption whoami [] (literal "whoami") (literal "whoami")
    (literal "Prints out the result of the 'whoami' command.") (literal "-- Who am I? --")
    .null false false true
  if id < 0 then return none
  let (id, cmds) ← appendOption last cmds (literal "last") (literal "last")
    (literal "Prints out the result of the 'last' command.") (literal "-- Last logins --")
    .null false false true
  if id < 0 then return none
  let (id, cmds) ← appendOption ls cmds (literal "ls") (literal "ls")
    (literal "Prints out the result of the 'ls' command.") (literal "-- Directory listing --")
    .null true true true
  if id < 0 then return none
  return some cmds

/-- The options of every menu. -/
def defaultOptions : List Opt :=
  [{ path := literal "whoami", name := literal "whoami"
     desc := literal "Prints out the result of the 'whoami' command."
     head := literal "-- Who am I? --"
     defArgs := .null, args := false, argPath := false, blocking := true },
   { path := literal "last", name := literal "last"
     desc := literal "Prints out the result of the 'last' command."
     head := literal "-- Last logins --"
     defArgs := .null, args := false, argPath := false, blocking := true },
   { path := literal "ls", name := literal "ls"
     desc := literal "Prints out the result of the 'ls' command."
     head := literal "-- Directory listing --"
     defArgs := .null, args := true, argPath := true, blocking := true }]

structure Menu where
  cmds : List Opt
  finished : Bool

/-- The menu when the loop starts. -/
def startMenu : Menu := { cmds := defaultOptions, finished := false }

/-- What a round of the loop reads, and what the `malloc` of `appendOption` says in it. -/
structure Turn where
  choiceStr : List (BitVec 8)
  feof : Bool
  command : List (BitVec 8)
  allocated : Bool

/-- A round of the loop of `main`: the fault that ends it, if there is one, and the menu. -/
def Menu.round (turn : Turn) (menu : Menu) : Option (Option Fault × Menu) :=
  if menu.finished then none
  else
    let option := selectOption menu.cmds.length turn.feof turn.choiceStr
    if option = optA then
      match addOption turn.allocated menu.cmds turn.command with
      | .ok (_, cmds) => some (none, { menu with cmds := cmds })
      -- what comes after a fault is not defined
      | .error fault => some (some fault, { menu with finished := true })
    else if option = optE then some (none, { menu with finished := true })
    else some (none, menu) -- the other choices only read `cmds`

/-- The round adds a command. -/
def Turn.Adds (turn : Turn) : Prop := turn.feof = false ∧ turn.choiceStr.headD 0 = 97

/-- What a round must be given: with the choice `a`, a line that fits `nameStr`, and room in
the menu if an option comes of the line. -/
def Turn.Fits (turn : Turn) (menu : Menu) : Prop :=
  turn.Adds → NameFits turn.command ∧
    (turn.allocated = true → tokens space (typed turn.command) ≠ [] →
      menu.cmds.length < maxOptions)

instance Turn.decidableAdds (turn : Turn) : Decidable turn.Adds :=
  inferInstanceAs (Decidable (_ ∧ _))

instance Turn.decidableFits (turn : Turn) (menu : Menu) : Decidable (turn.Fits menu) :=
  inferInstanceAs (Decidable (_ → _))

/-- Start-up comes to the default options, if there is memory for them. -/
theorem addDefaults_eq (whoami last ls : Bool) : addDefaults whoami last ls =
    .ok (if whoami && last && ls then some defaultOptions else none) := by
  revert whoami last ls
  decide +kernel

theorem selectOption_eq_optA_iff {size : Nat} {feof : Bool} {choiceStr : List (BitVec 8)} :
    selectOption size feof choiceStr = optA ↔ feof = false ∧ choiceStr.headD 0 = 97 := by
  cases feof with
  | true => exact iff_of_false (by simp [selectOption]) (by simp)
  | false =>
    by_cases ha : choiceStr.headD 0 = 97
    · exact iff_of_true (by simp only [selectOption, ha]; rfl) ⟨rfl, ha⟩
    · refine iff_of_false ?_ fun h => ha h.2
      simp only [selectOption, Bool.false_eq_true, if_false, if_neg ha, optA, optC, optE, optP,
        optR]
      repeat' split
      all_goals omega

theorem addOption_eq_overflow_iff {allocated : Bool} {cmds : List Opt} {line : List (BitVec 8)} :
    addOption allocated cmds line = .error .overflow ↔
      ¬ (NameFits line ∧ (allocated = true → tokens space (typed line) ≠ [] →
        cmds.length < maxOptions)) := by
  rw [addOption_spec, commandResult]
  split
  · next hfits => exact iff_of_true rfl fun h => hfits h.1
  next hfits =>
  rw [Classical.not_not] at hfits
  split
  · next hline =>
    have hnone : tokens space (typed line) = [] := by rw [hline]; exact tokens_nil
    simp [hnone, hfits]
  split
  · next hnone => split <;> simp [hnone, hfits]
  · next htokens =>
    cases allocated with
    | false => simp [hfits]
    | true => by_cases hroom : cmds.length < maxOptions <;> simp [htokens, hfits, hroom]

/-- What a round does: an addition that comes back, one that does not, and all the rest. -/
theorem Menu.round_cases {turn : Turn} {menu menu' : Menu} {fault : Option Fault}
    (h : Menu.round turn menu = some (fault, menu')) :
    (turn.Adds ∧ fault = none ∧
      ∃ id, addOption turn.allocated menu.cmds turn.command = .ok (id, menu'.cmds)) ∨
    (turn.Adds ∧ menu'.cmds = menu.cmds ∧
      ∃ f, fault = some f ∧ addOption turn.allocated menu.cmds turn.command = .error f) ∨
    (¬ turn.Adds ∧ fault = none ∧ menu'.cmds = menu.cmds) := by
  rw [Menu.round] at h
  split at h
  · cases h
  rw [Turn.Adds, ← @selectOption_eq_optA_iff menu.cmds.length]
  simp only at h
  split at h
  · next hadd =>
    split at h
    · next id cmds hresult =>
      cases h
      exact .inl ⟨hadd, rfl, id, hresult⟩
    · next f hresult =>
      cases h
      exact .inr (.inl ⟨hadd, rfl, f, rfl, hresult⟩)
  · next hnot =>
    split at h
    all_goals
      cases h
      exact .inr (.inr ⟨hnot, rfl, rfl⟩)

theorem Menu.round_overflow_iff {turn : Turn} {menu menu' : Menu} {fault : Option Fault}
    (h : Menu.round turn menu = some (fault, menu')) :
    fault = some .overflow ↔ ¬ turn.Fits menu := by
  rcases Menu.round_cases h with
    ⟨hadds, rfl, id, hresult⟩ | ⟨hadds, -, f, rfl, hresult⟩ | ⟨hnot, rfl, -⟩
  · rw [Turn.Fits, forall_prop_of_true hadds, ← addOption_eq_overflow_iff, hresult]
    simp
  · rw [Turn.Fits, forall_prop_of_true hadds, ← addOption_eq_overflow_iff, hresult]
    simp
  · exact iff_of_false (by simp) fun h => h fun hadds => absurd hadds hnot

theorem arrays_kept_iff (turns : List Turn) (history : List (Turn × Option Fault)) (menu : Menu)
    (hrun : run Menu.round turns startMenu = some (history, menu)) :
    ((∀ whoami last ls, addDefaults whoami last ls ≠ .error .overflow) ∧
      ∀ entry ∈ history, entry.2 ≠ some .overflow) ↔
      Guarded Menu.round Turn.Fits turns startMenu := by
  have hstart : ∀ whoami last ls, addDefaults whoami last ls ≠ .error .overflow := by
    intro whoami last ls
    rw [addDefaults_eq]
    simp
  rw [and_iff_right hstart]
  -- the invariant is the property itself: no call so far has written past an array
  refine guarded_iff (G := fun history => ∀ entry ∈ history, entry.2 ≠ some .overflow)
    (P := fun history _ => ∀ entry ∈ history, entry.2 ≠ some .overflow) (by simp) ?_
    (fun _ _ h => h) ?_ ?_ turns history menu hrun
  · intro history menu turn fault menu' hkept hfits hround entry hentry
    rcases List.mem_append.mp hentry with hentry | hentry
    · exact hkept entry hentry
    · rw [List.mem_singleton.mp hentry]
      exact fun hover => (Menu.round_overflow_iff hround).mp hover hfits
  · intro history entry hkept e he
    exact hkept e (List.mem_append_left _ he)
  · intro history menu turn fault menu' _ hround hkept
    by_contra hfits
    exact hkept (turn, fault) (by simp) ((Menu.round_overflow_iff hround).mpr hfits)

/-- The choice `a` with this command. -/
def adding (command : List (BitVec 8)) : Turn where
  choiceStr := literal "a\n"
  feof := false
  command := command
  allocated := true

theorem arrays_kept_iff_one_command : ∃ history menu,
    run Menu.round [adding (literal "date\n")] startMenu = some (history, menu) ∧
      Guarded Menu.round Turn.Fits [adding (literal "date\n")] startMenu ∧
      ∀ entry ∈ history, entry.2 ≠ some .overflow := by
  have hsome : (run Menu.round [adding (literal "date\n")] startMenu).isSome = true := by
    decide +kernel
  have hfits : Guarded Menu.round Turn.Fits [adding (literal "date\n")] startMenu :=
    Guarded.of_eval (by decide +kernel)
  obtain ⟨⟨history, menu⟩, hrun⟩ := Option.isSome_iff_exists.mp hsome
  exact ⟨history, menu, hrun, hfits, ((arrays_kept_iff _ _ _ hrun).mpr hfits).2⟩

/-- A command of 193 characters, and the thirtieth command. -/
theorem long_name_and_full_menu :
    (List.replicate 193 97 ++ literal "\n").length < maxInLength ∧
    (run Menu.round [adding (List.replicate 193 97 ++ literal "\n")] startMenu).map
        (fun x => x.1.map Prod.snd) = some [some .overflow] ∧
    (run Menu.round (List.replicate 30 (adding (literal "date\n"))) startMenu).map
        (fun x => x.1.map Prod.snd) = some (List.replicate 29 none ++ [some .overflow]) := by
  decide +kernel

end Mc2

end OsProjects
