import OsProjects.Lib.CString

/-!
# `Project1/v2`: the options of the menu

`appendOption` and `addOption` of `option.c`, with `cleanNewline` of `util.c`. A line is the
list of the bytes that `fgets` delivers, with the newline if there is one. Every array has
its size, and a call that writes past one ends in a `Fault`.

The `malloc` of `appendOption` may fail; those that no caller checks are taken to succeed.

`defArgs` is a local array of `addOption`, and `appendOption` stores its address. So the
option has its default arguments when it is appended (`addOptionBody`), and points to nothing
when `addOption` has returned (`endFrame`).
-/

namespace OsProjects.Mc2

open OsProjects.Lib

/-- `MAX_IN_LENGTH` -/
abbrev maxInLength : Nat := 200

/-- `MAX_DEF_ARGS` -/
abbrev maxDefArgs : Nat := 20

/-- `MAX_OPTIONS` -/
abbrev maxOptions : Nat := 32

/-- Where a call leaves the C language. -/
inductive Fault
  /-- A write past the end of an array. -/
  | overflow
  /-- A null pointer used as a string. -/
  | null
  /-- A buffer used that nothing was read into, at the end of the input. -/
  | unread
  /-- An array used that a function had which has returned. -/
  | dangling
  deriving DecidableEq

@[simp] theorem ok_bind {α β : Type} (x : α) (f : α → Except Fault β) :
    ((Except.ok x : Except Fault α) >>= f) = f x := rfl

@[simp] theorem error_bind {α β : Type} (fault : Fault) (f : α → Except Fault β) :
    ((Except.error fault : Except Fault α) >>= f) = .error fault := rfl

/-! ## Arrays -/

/-- `strcpy` into an array of `size` bytes. -/
def strcpy (size : Nat) (s : CString) : Except Fault CString :=
  if s.length + 1 ≤ size then .ok s else .error .overflow

/-- `fgets` into an array of `size` bytes. -/
def fgets (size : Nat) (line : List (BitVec 8)) : Except Fault CString :=
  if line.isEmpty then .error .unread
  else if line.length + 1 ≤ size then .ok (cString line)
  else .error .overflow

/-- The next entry of an array of `size` entries. -/
def push {α : Type} (size : Nat) (entries : List α) (entry : α) : Except Fault (List α) :=
  if entries.length < size then .ok (entries ++ [entry]) else .error .overflow

theorem fgets_of_fits {size : Nat} {line : List (BitVec 8)} (hline : line ≠ [])
    (h : line.length + 1 ≤ size) : fgets size line = .ok (cString line) := by
  rw [fgets, if_neg (by simpa using hline), if_pos h]

theorem strcpy_of_fits {size : Nat} {s : CString} (h : s.length + 1 ≤ size) :
    strcpy size s = .ok s := if_pos h

theorem push_of_room {α : Type} {size : Nat} {entries : List α} {entry : α}
    (h : entries.length < size) : push size entries entry = .ok (entries ++ [entry]) := if_pos h

/-! ## `util.c` -/

/-- The byte `'\n'`. -/
def newline : BitVec 8 := 10

def cleanNewline (str : CString) : CString :=
  if str.head? = some newline then []
  else match (strtok newline str).1 with
    | some token => token
    | none => str

/-- `cleanNewline` ends the string at its first newline. -/
theorem cleanNewline_eq (str : CString) : cleanNewline str = str.takeWhile (· != newline) := by
  cases str with
  | nil => rfl
  | cons c rest =>
    by_cases hc : c = newline
    · rw [cleanNewline, if_pos (by rw [hc]; rfl), hc]
      rfl
    · have htoken := (strtok_spec newline (c :: rest)).1
      rw [tokens_cons hc] at htoken
      rw [cleanNewline, if_neg (by simpa using hc), htoken]
      rfl

/-- The characters of a line before the newline. -/
def typed (line : List (BitVec 8)) : CString := (cString line).takeWhile (· != newline)

theorem cleanNewline_cString (line : List (BitVec 8)) : cleanNewline (cString line) = typed line :=
  cleanNewline_eq _

theorem length_typed_le (line : List (BitVec 8)) : (typed line).length ≤ line.length := by
  rw [typed, cString]
  exact Nat.le_trans (List.takeWhile_sublist _).length_le (List.takeWhile_sublist _).length_le

/-! ## `option.c` -/

/-- `opt->defArgs` -/
inductive DefArgs
  | null
  /-- An array, with the strings before the terminator. -/
  | array (strings : List CString)
  /-- An array of a function that has returned. -/
  | dangling
  deriving DecidableEq

/-- `struct option` -/
structure Opt where
  path : CString
  name : CString
  desc : CString
  head : CString
  defArgs : DefArgs
  args : Bool
  argPath : Bool
  blocking : Bool
  deriving DecidableEq

/-- `appendOption`, with a `malloc` that succeeds or not: the number returned, and `cmds`. -/
def appendOption (allocated : Bool) (cmds : List Opt) (path name desc head : CString)
    (defArgs : DefArgs) (args argPath blocking : Bool) : Except Fault (Int × List Opt) := do
  if !allocated then return (-1, cmds)
  let path ← strcpy maxInLength path
  let name ← strcpy maxInLength name
  let desc ← strcpy maxInLength desc
  let head ← strcpy maxInLength head
  let cmds ← push maxOptions cmds { path, name, desc, head, defArgs, args, argPath, blocking }
  return (cmds.length - 1, cmds)

/-- The byte `' '`. -/
def space : BitVec 8 := 32

/-- `tmp[0] == '&'` -/
def ampersand (tmp : CString) : Bool := tmp.head? == some 38

/-- The loop of `addOption` over the tokens after the path. -/
def addArgs (rest : CString) (defArgs : List CString) (blocking : Bool) :
    Except Fault (List CString × Bool) :=
  match _h : (strtok space rest).1 with
  | none => .ok (defArgs, blocking)
  | some tmp =>
    if defArgs.length < maxDefArgs - 1 then
      if ampersand tmp then addArgs (strtok space rest).2 defArgs false
      else do
        let arg ← strcpy maxInLength tmp
        let defArgs ← push maxDefArgs defArgs arg
        addArgs (strtok space rest).2 defArgs blocking
    else .ok (defArgs, blocking)
termination_by rest.length
decreasing_by all_goals exact strtok_snd_length _h

/-- `headStr` -/
def header (nameStr : CString) : Except Fault CString := do
  let headStr ← strcpy maxInLength (literal "-- ")
  let headStr ← strcpy maxInLength (headStr ++ nameStr)
  strcpy maxInLength (headStr ++ literal " --")

/-- `addOption` after the loop: the terminator, the header, and the call of `appendOption`. -/
def appendCommand (allocated : Bool) (cmds : List Opt) (nameStr pathStr : CString)
    (defArgs : List CString) (blocking : Bool) : Except Fault (Int × List Opt) := do
  let _ ← push maxDefArgs (defArgs.map some) none
  let headStr ← header nameStr
  appendOption allocated cmds pathStr nameStr (literal "A user generated command.") headStr
    (.array defArgs) false false blocking

/-- `addOption` from the first token on. -/
def addCommand (allocated : Bool) (cmds : List Opt) (nameStr tmp rest : CString) :
    Except Fault (Int × List Opt) := do
  let pathStr ← strcpy maxInLength tmp
  let (defArgs, blocking) ← addArgs rest [] true
  appendCommand allocated cmds nameStr pathStr defArgs blocking

/-- `addOption` up to the first token, in `v1` as in `v2`. -/
def readCommand (cmds : List Opt) (line : List (BitVec 8))
    (addCommand : CString → CString → CString → Except Fault (Int × List Opt)) :
    Except Fault (Int × List Opt) := do
  let nameStr ← fgets (maxInLength - 6) line
  let nameStr := cleanNewline nameStr
  let buf ← strcpy maxInLength nameStr
  if buf.isEmpty then return (-1, cmds)
  match strtok space buf with
  | (none, _) => .error .null -- `strcpy` from the token that `strtok` did not find
  | (some tmp, rest) => addCommand nameStr tmp rest

/-- `addOption` when its last call, of `appendOption`, has come back. -/
def addOptionBody (allocated : Bool) (cmds : List Opt) (line : List (BitVec 8)) :
    Except Fault (Int × List Opt) :=
  readCommand cmds line (addCommand allocated cmds)

/-- The option, when the array that `defArgs` points to is gone. -/
def Opt.outlives (opt : Opt) : Opt := { opt with defArgs := .dangling }

/-- The return from a call of `addOption` that has found `size` options: those it has
appended point into its frame. -/
def endFrame (size : Nat) (cmds : List Opt) : List Opt :=
  cmds.take size ++ (cmds.drop size).map Opt.outlives

def addOption (allocated : Bool) (cmds : List Opt) (line : List (BitVec 8)) :
    Except Fault (Int × List Opt) :=
  (addOptionBody allocated cmds line).map fun (id, cmds') => (id, endFrame cmds.length cmds')

/-! ## What the calls do -/

section Specifications

variable {allocated : Bool} {cmds : List Opt} {line : List (BitVec 8)}

/-- Strings that fit make an option, if there is memory for it, and the menu has room. -/
theorem appendOption_eq (cmds : List Opt) {opt : Opt} (hpath : opt.path.length < maxInLength)
    (hname : opt.name.length < maxInLength) (hdesc : opt.desc.length < maxInLength)
    (hhead : opt.head.length < maxInLength) :
    appendOption allocated cmds opt.path opt.name opt.desc opt.head opt.defArgs opt.args
      opt.argPath opt.blocking =
      if allocated then
        if cmds.length < maxOptions then .ok (cmds.length, cmds ++ [opt]) else .error .overflow
      else .ok (-1, cmds) := by
  cases allocated with
  | false => rfl
  | true =>
    simp only [appendOption, Bool.not_true, Bool.false_eq_true, if_false, if_true,
      strcpy_of_fits hpath, strcpy_of_fits hname, strcpy_of_fits hdesc, strcpy_of_fits hhead,
      ok_bind, push]
    split
    · simp [pure, Except.pure]
    · rfl

/-- `'&'` is seen: less than `room` arguments stand before the first one. -/
def ampersandSeen (room : Nat) (later : List CString) : Bool :=
  later.any ampersand && decide ((later.takeWhile (!ampersand ·)).length < room)

@[simp] theorem ampersandSeen_zero (later : List CString) : ampersandSeen 0 later = false := by
  simp [ampersandSeen]

theorem ampersandSeen_cons (room : Nat) (tmp : CString) (later : List CString) :
    ampersandSeen (room + 1) (tmp :: later) = (ampersand tmp || ampersandSeen room later) := by
  cases h : ampersand tmp <;> simp [ampersandSeen, h]

/-- The tokens that the loop takes for arguments. -/
def arguments (later : List CString) : List CString := later.filter (!ampersand ·)

theorem addArgs_of_nil {rest : CString} (defArgs : List CString) (blocking : Bool)
    (h : tokens space rest = []) : addArgs rest defArgs blocking = .ok (defArgs, blocking) := by
  rw [addArgs]
  split
  · rfl
  · next tmp htmp => exact absurd ((strtok_of_nil h).symm.trans htmp) (by simp)

/-- One round of the loop. -/
theorem addArgs_of_cons {rest tmp : CString} {later : List CString} (defArgs : List CString)
    (blocking : Bool) (h : tokens space rest = tmp :: later) :
    ∃ rest', tokens space rest' = later ∧ addArgs rest defArgs blocking =
      if defArgs.length < maxDefArgs - 1 then
        if ampersand tmp then addArgs rest' defArgs false
        else do
          let arg ← strcpy maxInLength tmp
          let defArgs ← push maxDefArgs defArgs arg
          addArgs rest' defArgs blocking
      else .ok (defArgs, blocking) := by
  obtain ⟨hsome, hlater⟩ := strtok_of_cons h
  refine ⟨(strtok space rest).2, hlater, ?_⟩
  rw [addArgs]
  split
  · next hnone => exact absurd (hsome.symm.trans hnone) (by simp)
  · next tmp' htmp =>
    cases hsome.symm.trans htmp
    rfl

/-- The loop, from any of its rounds. -/
theorem addArgs_eq {later defArgs : List CString} {rest : CString} (blocking : Bool)
    (hrest : tokens space rest = later) (hfits : ∀ t ∈ later, t.length < maxInLength)
    {room : Nat} (hroom : defArgs.length + room = maxDefArgs - 1) :
    addArgs rest defArgs blocking = .ok
      (defArgs ++ (arguments later).take room, blocking && !ampersandSeen room later) := by
  induction later generalizing rest defArgs blocking room with
  | nil => simp [addArgs_of_nil defArgs blocking hrest, arguments, ampersandSeen]
  | cons tmp later ih =>
    obtain ⟨rest', hrest', heq⟩ := addArgs_of_cons defArgs blocking hrest
    rw [heq]
    cases room with
    | zero =>
      rw [if_neg (by omega), ampersandSeen_zero, List.take_zero, List.append_nil, Bool.not_false,
        Bool.and_true]
    | succ room =>
      have hlater : ∀ t ∈ later, t.length < maxInLength :=
        fun t ht => hfits t (List.mem_cons_of_mem _ ht)
      rw [if_pos (by omega), ampersandSeen_cons]
      by_cases hamp : ampersand tmp
      · rw [if_pos hamp, ih false hrest' hlater hroom]
        simp [arguments, hamp]
      · have hpush : defArgs.length < maxDefArgs := by omega
        have hroom' : (defArgs ++ [tmp]).length + room = maxDefArgs - 1 := by
          rw [List.length_append, List.length_singleton]
          omega
        rw [if_neg hamp, strcpy_of_fits (hfits tmp List.mem_cons_self), ok_bind,
          push_of_room hpush, ok_bind, ih blocking hrest' hlater hroom']
        simp [arguments, hamp]

/-- The option that comes of a command. -/
def commandOption (name path : CString) (defArgs : List CString) (blocking : Bool) : Opt where
  path := path
  name := name
  desc := literal "A user generated command."
  head := literal "-- " ++ name ++ literal " --"
  defArgs := .array defArgs
  args := false
  argPath := false
  blocking := blocking

/-- The option of a command with these tokens. -/
def userOption (name path : CString) (later : List CString) : Opt :=
  commandOption name path ((arguments later).take (maxDefArgs - 1))
    (!ampersandSeen (maxDefArgs - 1) later)

/-- The line and its zero fit `nameStr`. -/
abbrev NameFits (line : List (BitVec 8)) : Prop := line.length + 1 ≤ maxInLength - 6

theorem length_typed_of_fits (hfits : NameFits line) : (typed line).length + 7 ≤ maxInLength := by
  have hle := length_typed_le line
  omega

/-- All that `addOption` can do with a line, if `option` comes of its tokens. -/
def commandResult (allocated : Bool) (cmds : List Opt) (line : List (BitVec 8))
    (option : CString → List CString → Opt) : Except Fault (Int × List Opt) :=
  if ¬ NameFits line then .error .overflow
  else if line = [] then .error .unread
  else match tokens space (typed line) with
    | [] => if typed line = [] then .ok (-1, cmds) else .error .null
    | path :: later =>
      if allocated then
        if cmds.length < maxOptions then .ok (cmds.length, cmds ++ [option path later])
        else .error .overflow
      else .ok (-1, cmds)

theorem readCommand_eq {option : CString → List CString → Opt}
    {addCommand : CString → CString → CString → Except Fault (Int × List Opt)}
    (hcommand : ∀ {tmp rest later}, (typed line).length + 7 ≤ maxInLength →
      tmp.length ≤ (typed line).length → tokens space rest = later →
      (∀ t ∈ later, t.length ≤ (typed line).length) →
      addCommand (typed line) tmp rest =
        if allocated then
          if cmds.length < maxOptions then .ok (cmds.length, cmds ++ [option tmp later])
          else .error .overflow
        else .ok (-1, cmds)) :
    readCommand cmds line addCommand = commandResult allocated cmds line option := by
  by_cases hline : line = []
  · subst hline
    rfl
  by_cases hfits : NameFits line
  case neg =>
    rw [commandResult, if_pos hfits, readCommand, fgets, if_neg (by simpa using hline),
      if_neg hfits, error_bind]
  rw [commandResult, if_neg (Classical.not_not.mpr hfits), if_neg hline]
  have hcopy : strcpy maxInLength (typed line) = .ok (typed line) := by
    have hlen := length_typed_of_fits hfits
    exact strcpy_of_fits (by omega)
  simp only [readCommand, fgets_of_fits hline hfits, ok_bind, cleanNewline_cString, hcopy,
    List.isEmpty_iff]
  cases htokens : tokens space (typed line) with
  | nil =>
    have hnone := strtok_of_nil htokens
    rcases hpair : strtok space (typed line) with ⟨first, rest⟩
    rw [hpair] at hnone
    cases hnone
    rfl
  | cons path later =>
    have hne : typed line ≠ [] := by
      intro hempty
      rw [hempty] at htokens
      cases htokens
    have hfit : ∀ t ∈ path :: later, t.length ≤ (typed line).length :=
      fun t ht => length_of_mem_tokens (htokens ▸ ht)
    obtain ⟨hhead, htail⟩ := strtok_of_cons htokens
    rcases hpair : strtok space (typed line) with ⟨first, rest⟩
    rw [hpair] at hhead htail
    cases hhead
    rw [if_neg hne]
    exact hcommand (length_typed_of_fits hfits) (hfit path List.mem_cons_self) htail
      fun t ht => hfit t (List.mem_cons_of_mem _ ht)

theorem header_eq {name : CString} (hname : name.length + 7 ≤ maxInLength) :
    header name = .ok (literal "-- " ++ name ++ literal " --") ∧
      (literal "-- " ++ name ++ literal " --").length < maxInLength := by
  have hopening : (literal "-- ").length = 3 := by decide
  have hclosing : (literal " --").length = 3 := by decide
  have hhead : (literal "-- " ++ name ++ literal " --").length < maxInLength := by
    rw [List.length_append, List.length_append, hopening, hclosing]
    omega
  have hbegun : (literal "-- " ++ name).length < maxInLength := by
    rw [List.length_append, hopening]
    omega
  refine ⟨?_, hhead⟩
  rw [header, strcpy_of_fits (by decide), ok_bind, strcpy_of_fits hbegun, ok_bind,
    strcpy_of_fits hhead]

/-- The strings of an option that `addOption` builds fit. -/
theorem appendCommand_eq {name path : CString} {defArgs : List CString} {blocking : Bool}
    (hname : name.length + 7 ≤ maxInLength) (hpath : path.length ≤ name.length)
    (hargs : defArgs.length < maxDefArgs) :
    appendCommand allocated cmds name path defArgs blocking =
      if allocated then
        if cmds.length < maxOptions
        then .ok (cmds.length, cmds ++ [commandOption name path defArgs blocking])
        else .error .overflow
      else .ok (-1, cmds) := by
  obtain ⟨hheader, hhead⟩ := header_eq hname
  have hterminator : (defArgs.map some).length < maxDefArgs := by
    rw [List.length_map]
    exact hargs
  have hdesc : (literal "A user generated command.").length < maxInLength := by decide
  have hname' : name.length < maxInLength := by omega
  rw [appendCommand, push_of_room hterminator, ok_bind, hheader, ok_bind]
  exact @appendOption_eq allocated cmds (commandOption name path defArgs blocking)
    (Nat.lt_of_le_of_lt hpath hname') hname' hdesc hhead

theorem length_take_lt (later : List CString) :
    (later.take (maxDefArgs - 1)).length < maxDefArgs :=
  Nat.lt_of_le_of_lt (List.length_take_le _ _) (by decide)

theorem addOptionBody_spec (allocated : Bool) (cmds : List Opt) (line : List (BitVec 8)) :
    addOptionBody allocated cmds line =
      commandResult allocated cmds line (userOption (typed line)) := by
  refine readCommand_eq ?_
  intro tmp rest later hname htmp hrest hlater
  have hargs : addArgs rest [] true =
      .ok ((arguments later).take (maxDefArgs - 1), !ampersandSeen (maxDefArgs - 1) later) :=
    addArgs_eq true hrest (fun t ht => by have := hlater t ht; omega) (Nat.zero_add _)
  rw [addCommand, strcpy_of_fits (by omega), ok_bind, hargs, ok_bind]
  exact appendCommand_eq hname htmp (length_take_lt _)

/-- With the return the option that was appended has lost its default arguments. -/
theorem commandResult_endFrame {option : CString → List CString → Opt} :
    ((commandResult allocated cmds line option).map fun (id, cmds') =>
        (id, endFrame cmds.length cmds')) =
      commandResult allocated cmds line fun path later => (option path later).outlives := by
  have hsame : endFrame cmds.length cmds = cmds := by simp [endFrame]
  have hmore : ∀ opt, endFrame cmds.length (cmds ++ [opt]) = cmds ++ [opt.outlives] := by
    simp [endFrame]
  unfold commandResult
  split
  · rfl
  split
  · rfl
  split
  · split
    · exact congrArg (fun x => Except.ok (-1, x)) hsame
    · rfl
  · split
    · split
      · exact congrArg (fun x => Except.ok ((cmds.length : Int), x)) (hmore _)
      · rfl
    · exact congrArg (fun x => Except.ok (-1, x)) hsame

/-- All that a call can do. -/
theorem addOption_spec (allocated : Bool) (cmds : List Opt) (line : List (BitVec 8)) :
    addOption allocated cmds line =
      commandResult allocated cmds line fun path later =>
        (userOption (typed line) path later).outlives := by
  rw [addOption, addOptionBody_spec, commandResult_endFrame]

section Results

variable {option : CString → List CString → Opt}

theorem commandResult_overflow (h : ¬ NameFits line) :
    commandResult allocated cmds line option = .error .overflow := if_pos h

theorem commandResult_nil (hline : line ≠ []) (hfits : NameFits line)
    (htokens : tokens space (typed line) = []) :
    commandResult allocated cmds line option =
      if typed line = [] then .ok (-1, cmds) else .error .null := by
  rw [commandResult, if_neg (Classical.not_not.mpr hfits), if_neg hline, htokens]

theorem commandResult_cons {path : CString} {later : List CString} (hline : line ≠ [])
    (hfits : NameFits line) (htokens : tokens space (typed line) = path :: later) :
    commandResult allocated cmds line option =
      if allocated then
        if cmds.length < maxOptions then .ok (cmds.length, cmds ++ [option path later])
        else .error .overflow
      else .ok (-1, cmds) := by
  rw [commandResult, if_neg (Classical.not_not.mpr hfits), if_neg hline, htokens]

/-- A call that comes back leaves the menu alone, or appends the option of its tokens. -/
theorem commandResult_cases {id : Int} {cmds' : List Opt}
    (h : commandResult allocated cmds line option = .ok (id, cmds')) :
    cmds' = cmds ∨ ∃ path later, cmds' = cmds ++ [option path later] := by
  unfold commandResult at h
  split at h
  · cases h
  split at h
  · cases h
  split at h
  · split at h
    · cases h
      exact .inl rfl
    · cases h
  next path later _ =>
  split at h
  · split at h
    · cases h
      exact .inr ⟨path, later, rfl⟩
    · cases h
  · cases h
    exact .inl rfl

end Results

/-! ## Commands as they are typed -/

/-- What a line is to do: without a token nothing is added, else the option of its tokens. -/
def AddedAsTyped (cmds : List Opt) (line : List (BitVec 8))
    (result : Except Fault (Int × List Opt)) : Prop :=
  match tokens space (typed line) with
  | [] => result = .ok (-1, cmds)
  | path :: later => ∃ opt : Opt, result = .ok (cmds.length, cmds ++ [opt]) ∧ opt.path = path ∧
      opt.defArgs = .array ((arguments later).take (maxDefArgs - 1)) ∧
      (opt.blocking = false ↔ ∃ t ∈ later, ampersand t = true)

/-- Where the option is that one when it is appended: a line that fits `nameStr`, and is empty
if it has no token; for the option there must be memory and room in the menu, and if there is
a token that begins with `'&'`, less than `MAX_DEF_ARGS - 1` tokens between the path and the
first of these. -/
def Addable (allocated : Bool) (cmds : List Opt) (line : List (BitVec 8)) : Prop :=
  NameFits line ∧
    match tokens space (typed line) with
    | [] => typed line = []
    | _ :: later => allocated = true ∧ cmds.length < maxOptions ∧
        ((∃ t ∈ later, ampersand t = true) →
          (later.takeWhile (!ampersand ·)).length < maxDefArgs - 1)

theorem userOption_background_iff (name path : CString) (later : List CString) :
    (userOption name path later).blocking = false ↔ (∃ t ∈ later, ampersand t = true) ∧
      (later.takeWhile (!ampersand ·)).length < maxDefArgs - 1 := by
  show (!ampersandSeen (maxDefArgs - 1) later) = false ↔ _
  rw [Bool.not_eq_false', ampersandSeen, Bool.and_eq_true, List.any_eq_true, decide_eq_true_eq]

/-- A line without a token: only the test of the first byte decides. -/
theorem added_nil_iff {option : CString → List CString → Opt} (hline : line ≠ [])
    (hfits : NameFits line) (htokens : tokens space (typed line) = []) :
    AddedAsTyped cmds line (commandResult allocated cmds line option) ↔ typed line = [] := by
  simp only [AddedAsTyped, htokens, commandResult_nil hline hfits htokens]
  split
  · next hempty => exact iff_of_true rfl hempty
  · next hempty => exact iff_of_false (by simp) hempty

theorem not_added_of_overflow {option : CString → List CString → Opt} (h : ¬ NameFits line) :
    ¬ AddedAsTyped cmds line (commandResult allocated cmds line option) := by
  rw [commandResult_overflow h, AddedAsTyped]
  split <;> simp

theorem appended_as_typed_iff (hline : line ≠ []) :
    AddedAsTyped cmds line (addOptionBody allocated cmds line) ↔ Addable allocated cmds line := by
  rw [addOptionBody_spec]
  by_cases hfits : NameFits line
  case neg => exact iff_of_false (not_added_of_overflow hfits) fun h => hfits h.1
  cases htokens : tokens space (typed line) with
  | nil =>
    rw [added_nil_iff hline hfits htokens]
    simp only [Addable, htokens, hfits, true_and]
  | cons path later =>
    simp only [AddedAsTyped, Addable, htokens, hfits, true_and]
    rw [commandResult_cons hline hfits htokens]
    cases allocated with
    | false =>
      refine iff_of_false ?_ (by simp)
      rintro ⟨opt, hresult, -⟩
      -- the number of an option is not negative
      simp only [Bool.false_eq_true, if_false, Except.ok.injEq, Prod.mk.injEq] at hresult
      omega
    | true =>
      by_cases hroom : cmds.length < maxOptions
      · simp only [if_true, hroom, true_and]
        have hflag := userOption_background_iff (typed line) path later
        constructor
        · rintro ⟨opt, hresult, -, -, hblocking⟩ hamp
          cases List.append_cancel_left (Prod.mk.inj (Except.ok.inj hresult)).2
          exact (hflag.mp (hblocking.mpr hamp)).2
        · intro hearly
          refine ⟨_, rfl, rfl, rfl, ?_⟩
          rw [hflag]
          exact ⟨And.left, fun hamp => ⟨hamp, hearly hamp⟩⟩
      · rw [if_pos rfl, if_neg hroom]
        exact iff_of_false (by simp) fun h => hroom h.2.1

/-- After the return no option that was added has its default arguments, not even an empty
list of them: the pointer is not `NULL`. -/
theorem returned_as_typed_iff (hline : line ≠ []) :
    AddedAsTyped cmds line (addOption allocated cmds line) ↔
      NameFits line ∧ typed line = [] := by
  rw [addOption_spec]
  by_cases hfits : NameFits line
  case neg => exact iff_of_false (not_added_of_overflow hfits) fun h => hfits h.1
  cases htokens : tokens space (typed line) with
  | nil => rw [added_nil_iff hline hfits htokens, and_iff_right hfits]
  | cons path later =>
    refine iff_of_false ?_ ?_
    · simp only [AddedAsTyped, htokens]
      rintro ⟨opt, hresult, -, hdefArgs, -⟩
      rcases commandResult_cases hresult with hcmds | ⟨path', later', hcmds⟩
      · simp at hcmds
      · cases List.append_cancel_left hcmds
        cases hdefArgs
    · rintro ⟨-, hempty⟩
      rw [hempty] at htokens
      cases htokens

theorem added_as_typed_iff (allocated : Bool) (cmds : List Opt) (line : List (BitVec 8))
    (hline : line ≠ []) :
    (AddedAsTyped cmds line (addOptionBody allocated cmds line) ↔ Addable allocated cmds line) ∧
      (AddedAsTyped cmds line (addOption allocated cmds line) ↔
        NameFits line ∧ typed line = []) :=
  ⟨appended_as_typed_iff hline, returned_as_typed_iff hline⟩

theorem added_as_typed_iff_background :
    (Addable true [] (literal "sleep 10 &\n") ∧ AddedAsTyped [] (literal "sleep 10 &\n")
      (addOptionBody true [] (literal "sleep 10 &\n"))) ∧
    AddedAsTyped [] (literal "\n") (addOption true [] (literal "\n")) := by
  have htokens : tokens space (typed (literal "sleep 10 &\n")) =
      [literal "sleep", literal "10", literal "&"] := by decide +kernel
  have hadd : Addable true [] (literal "sleep 10 &\n") := by
    refine ⟨by decide, ?_⟩
    simp only [htokens]
    exact ⟨trivial, by decide, fun _ => by decide⟩
  exact ⟨⟨hadd, (added_as_typed_iff true [] _ (by decide)).1.mpr hadd⟩,
    (added_as_typed_iff true [] _ (by decide)).2.mpr (by decide)⟩

/-- `"a b .. b &\n"`, with 19 arguments. -/
def lateAmpersand : List (BitVec 8) :=
  literal "a b b b b b b b b b b b b b b b b b b b &\n"

/-- A line of blanks; a `'&'` that is not seen; and any command, once it is added. -/
theorem blanks_and_late_ampersand :
    (NameFits (literal "  \n") ∧ addOption true [] (literal "  \n") = .error .null ∧
      ¬ AddedAsTyped [] (literal "  \n") (addOption true [] (literal "  \n"))) ∧
    (NameFits lateAmpersand ∧
      (addOptionBody true [] lateAmpersand).map (fun r => r.2.map Opt.blocking) = .ok [true] ∧
      ¬ AddedAsTyped [] lateAmpersand (addOptionBody true [] lateAmpersand)) ∧
    NameFits (literal "date\n") ∧
      (addOption true [] (literal "date\n")).map (fun r => r.2.map Opt.defArgs) =
        .ok [.dangling] ∧
      ¬ AddedAsTyped [] (literal "date\n") (addOption true [] (literal "date\n")) := by
  have hblank : tokens space (typed (literal "  \n")) = [] := by decide +kernel
  have hnull : addOption true [] (literal "  \n") = .error .null := by decide +kernel
  have hlate : tokens space (typed lateAmpersand) =
      literal "a" :: (List.replicate 19 (literal "b") ++ [literal "&"]) := by decide +kernel
  have hblocking : (addOptionBody true [] lateAmpersand).map (fun r => r.2.map Opt.blocking) =
      .ok [true] := by decide +kernel
  have hdate : ¬ AddedAsTyped [] (literal "date\n") (addOption true [] (literal "date\n")) := by
    rw [returned_as_typed_iff (by decide)]
    decide
  refine ⟨⟨by decide, hnull, ?_⟩, ⟨by decide, hblocking, ?_⟩, by decide, by decide +kernel, hdate⟩
  · simp [AddedAsTyped, hblank, hnull]
  · simp only [AddedAsTyped, hlate]
    rintro ⟨opt, hresult, -, -, hflag⟩
    have hset : opt.blocking = false := hflag.mpr ⟨literal "&", by simp, by decide⟩
    rw [hresult] at hblocking
    simp [Except.map, hset] at hblocking

end Specifications

end OsProjects.Mc2
