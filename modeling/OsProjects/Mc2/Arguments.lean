import OsProjects.Mc2.Menu

/-!
# `Project1/v2`: the arguments of a command

How `main` fills `args` for an option of the menu: the path, the default arguments, the
tokens of a line, another line as one argument, and the terminator. The entries written so far
are a list, and `argsSize` is its length; the three stages have limits of their own.

An option whose default arguments are `NULL` or a list that is there gets its vector
(`vector_assembled`). But the list of an option that was added is gone when the option is
chosen, so that of a menu only the default options can be run (`menu_runs_defaults`).
-/

namespace OsProjects.Mc2

open OsProjects.Lib

/-- `MAX_ARGS` -/
abbrev maxArgs : Nat := 40

/-- The loop over `defArgs`, which ends in `NULL` after the last string. -/
def unpackDefArgs (defArgs args : List CString) : Except Fault (List CString) :=
  if args.length < maxDefArgs then
    match defArgs[args.length - 1]? with
    | none => .ok args
    | some arg => do
      let arg ← strcpy maxInLength arg
      let _ ← push (maxArgs + 1) args arg
      unpackDefArgs defArgs (args ++ [arg])
  else .ok args
termination_by maxDefArgs - args.length
decreasing_by
  rw [List.length_append, List.length_singleton]
  omega

/-- The loop over the tokens of a line; it leaves room for the path argument. -/
def userArgs (rest : CString) (args : List CString) : Except Fault (List CString) :=
  match _h : (strtok space rest).1 with
  | none => .ok args
  | some tmp =>
    if args.length < maxArgs - 1 then do
      let arg ← strcpy maxInLength tmp
      let args ← push (maxArgs + 1) args arg
      userArgs (strtok space rest).2 args
    else .ok args
termination_by rest.length
decreasing_by exact strtok_snd_length _h

/-- The default arguments, if there are any. -/
def getDefArgs (opt : Opt) (args : List CString) : Except Fault (List CString) :=
  match opt.defArgs with
  | .null => .ok args
  | .array strings => unpackDefArgs strings args
  | .dangling => .error .dangling

/-- The user's arguments, if required. -/
def getUserArgs (opt : Opt) (line : List (BitVec 8)) (args : List CString) :
    Except Fault (List CString) := do
  if !opt.args then return args
  let buf ← fgets maxInLength line
  let buf := cleanNewline buf
  if buf.isEmpty then return args
  userArgs buf args

/-- The user's path argument, if required. -/
def getPathArg (opt : Opt) (line : List (BitVec 8)) (args : List CString) :
    Except Fault (List CString) := do
  if !opt.argPath then return args
  let buf ← fgets maxInLength line
  let buf := cleanNewline buf
  if buf.isEmpty then return args
  let arg ← strcpy maxInLength buf
  push (maxArgs + 1) args arg

/-- `args` as `executeCommand` gets it, for the lines read on the way. -/
def assemble (opt : Opt) (argsLine pathLine : List (BitVec 8)) :
    Except Fault (List (Option CString)) := do
  let args ← push (maxArgs + 1) [] opt.path
  let args ← getDefArgs opt args
  let args ← getUserArgs opt argsLine args
  let args ← getPathArg opt pathLine args
  push (maxArgs + 1) (args.map some) none

/-! ## The options of the menu -/

/-- The strings of `opt->defArgs`. -/
def Opt.defaults (opt : Opt) : List CString :=
  match opt.defArgs with
  | .array strings => strings
  | _ => []

/-- Default arguments that are there, and end within `defArgs` and within their buffers. -/
structure Opt.Usable (opt : Opt) : Prop where
  live : opt.defArgs ≠ .dangling
  few : opt.defaults.length ≤ maxDefArgs - 1
  fit : ∀ arg ∈ opt.defaults, arg.length < maxInLength

/-- A line that `fgets` can deliver. -/
structure Delivered (line : List (BitVec 8)) : Prop where
  nonempty : line ≠ []
  fits : line.length < maxInLength

theorem defaultOptions_usable : ∀ opt ∈ defaultOptions, opt.Usable := by
  have hnull : ∀ opt ∈ defaultOptions, opt.defArgs = .null := by decide
  intro opt hopt
  have hnone : opt.defaults = [] := by rw [Opt.defaults, hnull opt hopt]
  refine ⟨by rw [hnull opt hopt]; simp, ?_, ?_⟩
  · rw [hnone]
    decide
  · rw [hnone]
    simp

/-! ## The stages -/

theorem typed_length_lt {line : List (BitVec 8)} (hline : Delivered line) :
    (typed line).length < maxInLength := Nat.lt_of_le_of_lt (length_typed_le line) hline.fits

theorem fgets_of_delivered {line : List (BitVec 8)} (hline : Delivered line) :
    fgets maxInLength line = .ok (cString line) := fgets_of_fits hline.nonempty hline.fits

/-- The loop, with the strings from `defArgs[argsSize - 1]` on still to come. -/
theorem unpackDefArgs_eq {defArgs rest args : List CString}
    (hrest : defArgs.drop (args.length - 1) = rest) (hargs : args ≠ [])
    (hroom : args.length + rest.length ≤ maxDefArgs)
    (hfits : ∀ arg ∈ rest, arg.length < maxInLength) :
    unpackDefArgs defArgs args = .ok (args ++ rest) := by
  induction rest generalizing args with
  | nil =>
    have hend : defArgs[args.length - 1]? = none :=
      List.getElem?_eq_none (List.drop_eq_nil_iff.mp hrest)
    rw [unpackDefArgs, hend, List.append_nil]
    split <;> rfl
  | cons arg rest ih =>
    have hpos : 0 < args.length := List.length_pos_iff.mpr hargs
    have hhead : defArgs[args.length - 1]? = some arg := by
      rw [← List.head?_drop, hrest]
      rfl
    have hnext : defArgs.drop ((args ++ [arg]).length - 1) = rest := by
      rw [List.length_append, List.length_singleton, Nat.add_sub_cancel,
        ← Nat.sub_add_cancel hpos, ← List.tail_drop, hrest]
      rfl
    rw [List.length_cons] at hroom
    have hroom' : (args ++ [arg]).length + rest.length ≤ maxDefArgs := by
      rw [List.length_append, List.length_singleton]
      omega
    have hlimits : maxDefArgs ≤ maxArgs := by decide
    have hindex : args.length < maxArgs + 1 := by omega
    rw [unpackDefArgs, if_pos (by omega), hhead]
    simp only
    rw [strcpy_of_fits (hfits arg List.mem_cons_self), ok_bind, push_of_room hindex, ok_bind,
      ih hnext (by simp) hroom' (fun t ht => hfits t (List.mem_cons_of_mem _ ht)),
      List.append_assoc]
    rfl

theorem userArgs_eq {later args : List CString} {rest : CString}
    (hrest : tokens space rest = later) (hfits : ∀ t ∈ later, t.length < maxInLength)
    {room : Nat} (hroom : args.length + room = maxArgs - 1) :
    userArgs rest args = .ok (args ++ later.take room) := by
  induction later generalizing rest args room with
  | nil =>
    rw [userArgs]
    split
    · rw [List.take_nil, List.append_nil]
    · next tmp htmp => exact absurd ((strtok_of_nil hrest).symm.trans htmp) (by simp)
  | cons tmp later ih =>
    obtain ⟨hsome, hlater⟩ := strtok_of_cons hrest
    rw [userArgs]
    split
    · next hnone => exact absurd (hsome.symm.trans hnone) (by simp)
    next tmp' htmp =>
    cases hsome.symm.trans htmp
    cases room with
    | zero =>
      have hfull : ¬ args.length < maxArgs - 1 := by omega
      rw [if_neg hfull, List.take_zero, List.append_nil]
    | succ room =>
      have hroom' : (args ++ [tmp]).length + room = maxArgs - 1 := by
        rw [List.length_append, List.length_singleton]
        omega
      rw [if_pos (by omega), strcpy_of_fits (hfits tmp List.mem_cons_self), ok_bind,
        push_of_room (by omega), ok_bind,
        ih hlater (fun t ht => hfits t (List.mem_cons_of_mem _ ht)) hroom', List.append_assoc]
      rfl

/-- What the argument line gives: its first tokens, up to `MAX_ARGS - 1` entries in all. -/
def Opt.userPart (opt : Opt) (line : List (BitVec 8)) : List CString :=
  if opt.args then
    (tokens space (typed line)).take (maxArgs - 1 - (opt.path :: opt.defaults).length)
  else []

/-- What the path line gives. -/
def Opt.pathPart (opt : Opt) (line : List (BitVec 8)) : List CString :=
  if opt.argPath ∧ typed line ≠ [] then [typed line] else []

section Stages

variable {opt : Opt} {line : List (BitVec 8)}

theorem getDefArgs_eq (husable : opt.Usable) :
    getDefArgs opt [opt.path] = .ok (opt.path :: opt.defaults) := by
  obtain ⟨hlive, hfew, hfit⟩ := husable
  rw [Opt.defaults] at hfew hfit
  rw [getDefArgs, Opt.defaults]
  cases hdef : opt.defArgs with
  | null => rfl
  | dangling => exact absurd hdef hlive
  | array defArgs =>
    rw [hdef] at hfew hfit
    have hroom : [opt.path].length + defArgs.length ≤ maxDefArgs := by
      rw [List.length_singleton]
      exact Nat.add_le_of_le_sub' (by decide) hfew
    exact unpackDefArgs_eq rfl (by simp) hroom hfit

/-- The path and the default arguments leave room for the others. -/
theorem Opt.Usable.length_le (husable : opt.Usable) :
    (opt.path :: opt.defaults).length ≤ maxArgs - 1 :=
  Nat.le_trans (Nat.add_le_of_le_sub (by decide) husable.few)
    (show maxDefArgs ≤ maxArgs - 1 by decide)

theorem getUserArgs_eq (husable : opt.Usable) (hline : Delivered line) :
    getUserArgs opt line (opt.path :: opt.defaults) =
      .ok (opt.path :: opt.defaults ++ opt.userPart line) := by
  have hroom : (opt.path :: opt.defaults).length +
      (maxArgs - 1 - (opt.path :: opt.defaults).length) = maxArgs - 1 :=
    Nat.add_sub_cancel' husable.length_le
  have hfits : ∀ t ∈ tokens space (typed line), t.length < maxInLength :=
    fun t ht => Nat.lt_of_le_of_lt (length_of_mem_tokens ht) (typed_length_lt hline)
  rw [getUserArgs, Opt.userPart]
  cases opt.args with
  | false => simp [pure, Except.pure]
  | true =>
    simp only [Bool.not_true, Bool.false_eq_true, if_false, if_true, fgets_of_delivered hline,
      ok_bind, cleanNewline_cString]
    split
    · next hempty =>
      rw [List.isEmpty_iff.mp hempty]
      simp [pure, Except.pure]
    · exact userArgs_eq rfl hfits hroom

theorem getPathArg_eq (hline : Delivered line) {args : List CString}
    (hroom : args.length < maxArgs + 1) :
    getPathArg opt line args = .ok (args ++ opt.pathPart line) := by
  rw [getPathArg, Opt.pathPart]
  cases opt.argPath with
  | false => simp [pure, Except.pure]
  | true =>
    simp only [Bool.not_true, Bool.false_eq_true, if_false, true_and, fgets_of_delivered hline,
      ok_bind, cleanNewline_cString, List.isEmpty_iff]
    by_cases hempty : typed line = []
    · rw [if_pos hempty, if_neg (by simpa using hempty), List.append_nil]
      rfl
    · rw [if_neg hempty, if_pos hempty, strcpy_of_fits (typed_length_lt hline), ok_bind,
        push_of_room hroom]

end Stages

section Vectors

variable {opt : Opt} {argsLine pathLine : List (BitVec 8)}

/-- The vector of a usable option has room for the user's arguments, -/
theorem length_userPart_le (husable : opt.Usable) :
    (opt.path :: opt.defaults ++ opt.userPart argsLine).length ≤ maxArgs - 1 := by
  have hdefaults := husable.length_le
  have htokens : (opt.userPart argsLine).length ≤
      maxArgs - 1 - (opt.path :: opt.defaults).length := by
    rw [Opt.userPart]
    split
    · exact List.length_take_le _ _
    · exact Nat.zero_le _
  rw [List.length_append]
  omega

/-- and for the path. -/
theorem length_vector_le (husable : opt.Usable) :
    (opt.path :: opt.defaults ++ opt.userPart argsLine ++ opt.pathPart pathLine).length ≤
      maxArgs := by
  have hpart : (opt.pathPart pathLine).length ≤ 1 := by
    rw [Opt.pathPart]
    split <;> simp
  rw [List.length_append]
  exact Nat.add_le_add (length_userPart_le husable) hpart

theorem assemble_eq (husable : opt.Usable) (hargs : Delivered argsLine)
    (hpath : Delivered pathLine) :
    assemble opt argsLine pathLine =
      .ok ((opt.path :: opt.defaults ++ opt.userPart argsLine ++ opt.pathPart pathLine).map some
        ++ [none]) := by
  have huser := @length_userPart_le opt argsLine husable
  have hterminator := @length_vector_le opt argsLine pathLine husable
  rw [assemble, push_of_room (by decide), ok_bind, List.nil_append, getDefArgs_eq husable, ok_bind,
    getUserArgs_eq husable hargs, ok_bind, getPathArg_eq hpath (by omega), ok_bind,
    push_of_room (by rw [List.length_map]; omega)]

/-- `main` reads the array that `addOption` had. -/
theorem assemble_dangling (hdangling : opt.defArgs = .dangling) :
    assemble opt argsLine pathLine = .error .dangling := by
  rw [assemble, push_of_room (by decide), ok_bind, getDefArgs, hdangling]
  rfl

end Vectors

theorem vector_assembled (opt : Opt) (husable : opt.Usable) (argsLine pathLine : List (BitVec 8))
    (hargs : Delivered argsLine) (hpath : Delivered pathLine) :
    assemble opt argsLine pathLine =
        .ok ((opt.path :: opt.defaults ++ opt.userPart argsLine ++ opt.pathPart pathLine).map some
          ++ [none]) ∧
      (opt.path :: opt.defaults ++ opt.userPart argsLine ++ opt.pathPart pathLine).length ≤
        maxArgs :=
  ⟨assemble_eq husable hargs hpath, length_vector_le husable⟩

/-- `ls -l`, which asks for arguments and a path. -/
def listing : Opt :=
  { userOption (literal "ls -l") (literal "ls") [literal "-l"] with args := true, argPath := true }

theorem vector_assembled_listing :
    assemble listing (literal " -a  -R\n") (literal "src\n") =
      .ok [some (literal "ls"), some (literal "-l"), some (literal "-a"), some (literal "-R"),
        some (literal "src"), none] := by
  have husable : listing.Usable := ⟨by decide, by decide, by decide⟩
  have hvector := (vector_assembled listing husable (literal " -a  -R\n") (literal "src\n")
    ⟨by decide, by decide⟩ ⟨by decide, by decide⟩).1
  have huser : listing.userPart (literal " -a  -R\n") = [literal "-a", literal "-R"] := by
    decide +kernel
  have hpath : listing.pathPart (literal "src\n") = [literal "src"] := by decide +kernel
  rw [hvector, huser, hpath]
  rfl

/-! ## The options of a session -/

/-- The default options, and what `addOption` has appended and returned from. -/
def Grown (cmds : List Opt) : Prop :=
  ∃ added, cmds = defaultOptions ++ added ∧ ∀ opt ∈ added, opt.defArgs = .dangling

theorem Grown.defaults : Grown defaultOptions := ⟨[], (List.append_nil _).symm, by simp⟩

/-- `addOption`, of `v1` or of `v2`, keeps it so. -/
theorem Grown.commandResult {allocated : Bool} {cmds cmds' : List Opt} {line : List (BitVec 8)}
    {option : CString → List CString → Opt} {id : Int} (hgrown : Grown cmds)
    (h : commandResult allocated cmds line (fun path later => (option path later).outlives) =
      .ok (id, cmds')) : Grown cmds' := by
  obtain ⟨added, rfl, hadded⟩ := hgrown
  rcases commandResult_cases h with rfl | ⟨path, later, rfl⟩
  · exact ⟨added, rfl, hadded⟩
  · refine ⟨added ++ [(option path later).outlives], List.append_assoc .., ?_⟩
    intro opt hopt
    rcases List.mem_append.mp hopt with hopt | hopt
    · exact hadded opt hopt
    · rw [List.mem_singleton.mp hopt]
      rfl

/-- The numbers of the default options. -/
theorem Grown.option {cmds : List Opt} {opt : Opt} {i : Nat} (hgrown : Grown cmds)
    (hopt : cmds[i]? = some opt) :
    i < 3 ∧ defaultOptions[i]? = some opt ∨ 3 ≤ i ∧ opt.defArgs = .dangling := by
  obtain ⟨added, rfl, hadded⟩ := hgrown
  by_cases hi : i < defaultOptions.length
  · rw [List.getElem?_append_left hi] at hopt
    exact .inl ⟨hi, hopt⟩
  · rw [List.getElem?_append_right (Nat.le_of_not_lt hi)] at hopt
    exact .inr ⟨Nat.le_of_not_lt hi, hadded opt (List.mem_of_getElem? hopt)⟩

theorem menu_grown : ∀ turns history menu,
    run Menu.round turns startMenu = some (history, menu) → Grown menu.cmds := by
  refine run_rule (P := fun _ (menu : Menu) => Grown menu.cmds) Grown.defaults ?_
  intro _ menu turn fault menu' hgrown hround
  rcases Menu.round_cases hround with ⟨-, -, id, hadd⟩ | ⟨-, hsame, -⟩ | ⟨-, -, hsame⟩
  · rw [addOption_spec] at hadd
    exact hgrown.commandResult hadd
  · rw [hsame]
    exact hgrown
  · rw [hsame]
    exact hgrown

/-- Whatever was added in a session, only the three default options can be run: for every
other one `main` reads an array that is gone. -/
theorem menu_runs_defaults {turns : List Turn} {history : List (Turn × Option Fault)}
    {menu : Menu} (hrun : run Menu.round turns startMenu = some (history, menu)) {i : Nat}
    {opt : Opt} (hopt : menu.cmds[i]? = some opt) {argsLine pathLine : List (BitVec 8)}
    (hargs : Delivered argsLine) (hpath : Delivered pathLine) :
    (∃ args, assemble opt argsLine pathLine = .ok args) ↔ i < 3 := by
  rcases (menu_grown turns history menu hrun).option hopt with ⟨hi, hdefault⟩ | ⟨hi, hdangling⟩
  · have husable := defaultOptions_usable opt (List.mem_of_getElem? hdefault)
    exact iff_of_true ⟨_, assemble_eq husable hargs hpath⟩ hi
  · rw [assemble_dangling hdangling]
    exact iff_of_false (by simp) (Nat.not_lt.mpr hi)

theorem menu_runs_defaults_after_date : ∃ history menu opt,
    run Menu.round [adding (literal "date\n")] startMenu = some (history, menu) ∧
      menu.cmds[3]? = some opt ∧
      ¬ ∃ args, assemble opt (literal "\n") (literal "\n") = .ok args := by
  have hsome : ((run Menu.round [adding (literal "date\n")] startMenu).bind
      fun x => x.2.cmds[3]?).isSome = true := by decide +kernel
  obtain ⟨opt, hbind⟩ := Option.isSome_iff_exists.mp hsome
  obtain ⟨⟨history, menu⟩, hrun, hopt⟩ := Option.bind_eq_some_iff.mp hbind
  have hline : Delivered (literal "\n") := ⟨by decide, by decide⟩
  refine ⟨history, menu, opt, hrun, hopt, fun hargs => ?_⟩
  exact absurd ((menu_runs_defaults hrun hopt hline hline).mp hargs) (by decide)

end OsProjects.Mc2
