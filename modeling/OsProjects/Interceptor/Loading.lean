import Mathlib.Data.Fintype.Basic
import OsProjects.Interceptor.Ancestry
import OsProjects.Interceptor.Scan
import OsProjects.Interceptor.Search
import OsProjects.Lib.Machine

/-!
# `Project2/module`: loading and unloading

`interceptor_start` saves five entries of the system call table and writes its own functions
over them; `interceptor_end` writes the saved ones back. Meanwhile tasks make system calls.
A step is one operation of the module (`Op`), or what a task does up to the next point where
it enters or leaves a function of the module or of the kernel (`Pc`).

The kernel's own functions are any function of the request and the kernel's state, and take
effect in one step. The module's text and variables are there from `insmod` until
`interceptor_end` has returned; nothing keeps a task from still being inside one of the
module's functions then, and `load` tells one life of the module from the next. What cannot
go on is recorded as a `Crash`, after which there are no steps; what the function that crashes
has logged before is left out.

`cr0` is that of the processor on which the module's code runs, and the code stays there.
The memory that `find_sys_call_table` searches is not part of the state: the search may come
to anything that `Scan` allows. What `new_sys_cs3013_syscall2` writes for the caller is in
`Ancestry`.
-/

namespace OsProjects.Interceptor

open OsProjects.Lib

/-! ## Requests and what is logged -/

/-- The entries of `sys_call_table` that the module replaces. -/
inductive Call
  | syscall1
  | syscall2
  | sysOpen
  | sysClose
  | sysRead
  deriving DecidableEq

/-- A call with its arguments. -/
inductive Request
  | syscall1
  | syscall2 (pid : Option Int) (response : Option Ancestry) (writable : Bool)
  /-- the name as it is when `open` has returned, if it can be read then -/
  | sysOpen (filename : Option String) (flags mode : Int)
  | sysClose (filedescriptor : Nat)
  | sysRead (filedescriptor : Nat) (before : List Byte) (count : Int)

def Request.call : Request → Call
  | .syscall1 => .syscall1
  | .syscall2 .. => .syscall2
  | .sysOpen .. => .sysOpen
  | .sysClose .. => .sysClose
  | .sysRead .. => .sysRead

/-- The module's function does not call the kernel's. -/
def Call.replaced : Call → Bool
  | .syscall1 | .syscall2 => true
  | _ => false

/-- What a function of the kernel comes back with. -/
inductive Reply
  | code (n : Int)
  | read (r : RefRead)

def Reply.value : Reply → Int
  | .code n => n
  | .read r => r.code

def Reply.refRead : Reply → RefRead
  | .code n => .fails n
  | .read r => r

/-- The lines given to `printk`. -/
inductive Line
  | goodbye
  | table (address : Nat)
  | note (n : Note)
  | opening (uid : Nat) (code : Int) (filename : String)
  | closing (uid filedescriptor : Nat)
  | alert (a : Alert)
  | loaded
  | unloaded
  deriving DecidableEq

/-! ## The module's code -/

/-- The operations of `interceptor_start` and `interceptor_end`. -/
inductive Op
  | find             -- sys_call_table = find_sys_call_table(), and the test of the result
  | save (c : Call)  -- ref_.. = sys_call_table[..]
  | disable          -- disable_page_protection()
  | patch (c : Call) -- sys_call_table[..] = new_..
  | enable           -- enable_page_protection()
  | check            -- if(!sys_call_table) return
  | restore (c : Call) -- sys_call_table[..] = ref_..
  | print (line : Line)
  deriving DecidableEq

def interceptorStart : List Op :=
  [.find,
    .save .syscall1, .save .syscall2, .save .sysOpen, .save .sysClose, .save .sysRead,
    .disable,
    .patch .syscall1, .patch .syscall2, .patch .sysOpen, .patch .sysClose, .patch .sysRead,
    .enable,
    .print .loaded]

def interceptorEnd : List Op :=
  [.check,
    .disable,
    .restore .syscall1, .restore .syscall2, .restore .sysOpen, .restore .sysClose,
    .restore .sysRead,
    .enable,
    .print .unloaded]

/-- Where the module is, with the operations still to come. -/
inductive Phase
  | absent
  | starting (code : List Op)
  | live
  | ending (code : List Op)
  deriving DecidableEq

def Phase.present : Phase → Bool
  | .absent => false
  | _ => true

/-- Bit 16 of `cr0`. -/
def writeProtect (w : Width) : Word w := BitVec.ofNat w.bits 0x10000

def disablePageProtection {w : Width} (cr0 : Word w) : Word w := cr0 &&& ~~~writeProtect w

def enablePageProtection {w : Width} (cr0 : Word w) : Word w := cr0 ||| writeProtect w

/-- A function for an entry: the kernel's or the module's. -/
inductive Fn
  | sys
  | new
  deriving DecidableEq

/-- Where a task is. -/
inductive Pc
  | user
  /-- in the kernel's function, which the user has called, or the module's function -/
  | sys (r : Request) (caller : Option Nat)
  /-- on the way back to the user -/
  | returning (r : Request) (code : Int)
  /-- at the start of the module's function -/
  | new (load : Nat) (r : Request)
  /-- in the module's function, which the kernel's has returned to -/
  | back (load : Nat) (r : Request) (reply : Reply)

/-- The life of the module whose function the task is in, or will return to. -/
def Pc.inside : Pc → Option Nat
  | .new load _ | .back load _ _ | .sys _ (some load) => some load
  | _ => none

inductive Crash (T : Type)
  /-- a call of `NULL` -/
  | nullCall (t : T)
  /-- a task in the text of a module that is gone -/
  | freedCode (t : T)
  /-- a write to the table under protection -/
  | protectedWrite
  /-- a task in a function of the module that is there, outside of the memory it may use -/
  | badAccess (t : T)
  /-- `find_sys_call_table` where nothing is mapped -/
  | badScan
  deriving DecidableEq

/-- The kernel: what its own functions do, and what `new_sys_cs3013_syscall2` sees. -/
structure Kernel (K P : Type) where
  sys : Request → K → Reply × K
  tasks : K → Tasks P

structure State (w : Width) (K T : Type) where
  table : Call → Option Fn
  ref : Call → Option Fn
  sysCallTable : Bool
  cr0 : Word w
  phase : Phase
  load : Nat
  pc : T → Pc
  kernel : K
  crashed : Option (Crash T)

inductive Label (w : Width) (T : Type)
  | insmod
  | rmmod
  /-- the next operation of the module, and how far `find_sys_call_table` comes in it -/
  | module (scanned : Scanned w)
  /-- the next step of a task; a task of the user makes the request -/
  | task (t : T) (r : Request)

/-- What a step shows: the lines logged, and the result a task was given. -/
structure Answer (T : Type) where
  lines : List Line
  result : Option (T × Request × Int)

/-! ## Steps -/

section Steps

variable {w : Width} {K T P : Type}

/-- The state before any module is loaded. -/
def boot (cr0 : Word w) (k : K) : State w K T where
  table _ := some .sys
  ref _ := none
  sysCallTable := false
  cr0 := cr0
  phase := .absent
  load := 0
  pc _ := .user
  kernel := k
  crashed := none

namespace State

def crash (s : State w K T) (why : Crash T) : State w K T := { s with crashed := some why }

/-- The text of this life of the module is there. -/
def runs (s : State w K T) (load : Nat) : Bool := decide (s.load = load) && s.phase.present

/-- `sys_call_table[c] = f`. -/
def writeTable (s : State w K T) (c : Call) (f : Option Fn) : State w K T :=
  if s.cr0.getLsbD 16 then s.crash .protectedWrite
  else { s with table := Function.update s.table c f }

end State

/-- An operation of the module. -/
def Op.exec (scanned : Scanned w) : Op → State w K T → List Line × State w K T
  | .find, s =>
    match scanned with
    | .found sct => ([.table sct.toNat], { s with sysCallTable := decide (sct ≠ 0) })
    | .null => ([], { s with sysCallTable := false })
    | .fault _ => ([], s.crash .badScan)
    | .running _ => ([], s)
  | .save c, s => ([], { s with ref := Function.update s.ref c (s.table c) })
  | .disable, s => ([], { s with cr0 := disablePageProtection s.cr0 })
  | .patch c, s => ([], s.writeTable c (some .new))
  | .enable, s => ([], { s with cr0 := enablePageProtection s.cr0 })
  | .check, s => ([], s)
  | .restore c, s => ([], s.writeTable c (s.ref c))
  | .print line, s => ([line], s)

/-- The operation does not come back: the search for the table goes on, or has crashed. -/
def Op.stays (scanned : Scanned w) : Op → Bool
  | .find =>
    match scanned with
    | .fault _ | .running _ => true
    | _ => false
  | _ => false

/-- The operation leaves `interceptor_start` or `interceptor_end` early: the state it is
given is the one after it. -/
def Op.returns (s : State w K T) : Op → Bool
  | .find | .check => !s.sysCallTable
  | _ => false

/-- The next operation of `interceptor_start`, after which the module is there, or of
`interceptor_end`, after which it is gone; or a start that fails. -/
def moduleStep (scanned : Scanned w) (s : State w K T) : Option (List Line × State w K T) :=
  match s.phase with
  | .starting (op :: rest) =>
    let (lines, s) := op.exec scanned s
    some (lines,
      if op.stays scanned then s
      else if op.returns s then { s with phase := .absent }
      else { s with phase := if rest.isEmpty then .live else .starting rest })
  | .ending (op :: rest) =>
    let (lines, s) := op.exec scanned s
    some (lines,
      if op.stays scanned then s
      else if op.returns s then { s with phase := .absent }
      else { s with phase := if rest.isEmpty then .absent else .ending rest })
  | _ => none

section Tasks

variable [DecidableEq T] (kern : Kernel K P) (uid : T → Nat)

def State.goto (s : State w K T) (t : T) (pc : Pc) : State w K T :=
  { s with pc := Function.update s.pc t pc }

/-- A call of the function `f` for the request. -/
def State.jump (s : State w K T) (t : T) (r : Request) (caller : Option Nat) :
    Option Fn → State w K T
  | none => s.crash (.nullCall t)
  | some .sys => s.goto t (.sys r caller)
  | some .new => s.goto t (.new s.load r)

/-- The module's function from its start up to the call of the kernel's, or to the end if
it has none. -/
def enterNew (t : T) (load : Nat) (r : Request) (s : State w K T) : Answer T × State w K T :=
  match r with
  | .syscall1 => (⟨[.goodbye], some (t, r, 0)⟩, s.goto t .user)
  | .syscall2 pid response writable =>
    match newSysCs3013Syscall2 (kern.tasks s.kernel) pid response writable with
    | none => (⟨[], none⟩, s.crash (.badAccess t))
    | some (notes, code, _) => (⟨notes.map .note, some (t, r, code)⟩, s.goto t .user)
  | .sysClose filedescriptor =>
    (⟨if uid t ≥ 1000 then [.closing (uid t) filedescriptor] else [], none⟩,
      s.jump t r (some load) (s.ref .sysClose))
  | _ => (⟨[], none⟩, s.jump t r (some load) (s.ref r.call))

/-- The module's function from the return of the kernel's on. -/
def leaveNew (t : T) (r : Request) (reply : Reply) (s : State w K T) : Answer T × State w K T :=
  match r with
  | .sysOpen filename _ _ =>
    if reply.value ≥ 0 ∧ uid t ≥ 1000 then
      match filename with
      | none => (⟨[], none⟩, s.crash (.badAccess t))
      | some name =>
        (⟨[.opening (uid t) reply.value name], some (t, r, reply.value)⟩, s.goto t .user)
    else (⟨[], some (t, r, reply.value)⟩, s.goto t .user)
  | .sysRead filedescriptor before count =>
    match newSysRead (uid t) filedescriptor before count reply.refRead with
    | none => (⟨[], none⟩, s.crash (.badAccess t))
    | some (alerts, code) => (⟨alerts.map .alert, some (t, r, code)⟩, s.goto t .user)
  | _ => (⟨[], some (t, r, reply.value)⟩, s.goto t .user)

def taskStep (t : T) (request : Request) (s : State w K T) : Answer T × State w K T :=
  match s.pc t with
  | .user => (⟨[], none⟩, s.jump t request none (s.table request.call))
  | .sys r caller =>
    let (reply, k) := kern.sys r s.kernel
    let s := { s with kernel := k }
    (⟨[], none⟩, s.goto t (match caller with
      | none => .returning r reply.value
      | some load => .back load r reply))
  | .returning r code => (⟨[], some (t, r, code)⟩, s.goto t .user)
  | .new load r =>
    if s.runs load then enterNew kern uid t load r s
    else (⟨[], none⟩, s.crash (.freedCode t))
  | .back load r reply =>
    if s.runs load then leaveNew uid t r reply s
    else (⟨[], none⟩, s.crash (.freedCode t))

def step (l : Label w T) (s : State w K T) : Option (Answer T × State w K T) :=
  if s.crashed.isSome then none
  else match l, s.phase with
    | .insmod, .absent => some (⟨[], none⟩,
        { s with
          load := s.load + 1
          phase := .starting interceptorStart
          sysCallTable := false
          ref := fun _ => none })
    | .insmod, _ => none
    | .rmmod, .live => some (⟨[], none⟩, { s with phase := .ending interceptorEnd })
    | .rmmod, _ => none
    | .module scanned, _ => (moduleStep scanned s).map fun (lines, s) => (⟨lines, none⟩, s)
    | .task t r, _ => some (taskStep kern uid t r s)

/-- The steps of a run and what each showed. -/
abbrev History (w : Width) (T : Type) := List (Label w T × Answer T)

def steps (cr0 : Word w) (k : K) (ls : List (Label w T)) :
    Option (History w T × State w K T) :=
  run (step kern uid) ls (boot cr0 k)

end Tasks

end Steps

/-! ## The order of the operations -/

theorem Call.mem_all (c : Call) :
    c ∈ [Call.syscall1, Call.syscall2, Call.sysOpen, Call.sysClose, Call.sysRead] := by
  cases c <;> decide

instance instFintypeCall : Fintype Call := Fintype.ofList _ Call.mem_all

/-- What is still to come after an operation of `interceptor_start`, and what is not. -/
def startOrder : List Op → Bool
  | .find :: rest => decide ((∀ c, .patch c ∈ rest) ∧ .disable ∈ rest)
  | .save c :: rest => decide (.patch c ∈ rest)
  | .disable :: rest => decide (.enable ∈ rest ∧ .disable ∉ rest)
  | .patch c :: rest => decide (.disable ∉ rest ∧ .enable ∈ rest ∧ .patch c ∉ rest ∧
      ∀ c', .save c' ∉ rest)
  | .enable :: rest => decide (.enable ∉ rest)
  | .check :: _ | .restore _ :: _ => false
  | _ => true

/-- The same for `interceptor_end`. -/
def endOrder : List Op → Bool
  | .disable :: rest => decide (.enable ∈ rest)
  | .restore c :: rest => decide (.disable ∉ rest ∧ .enable ∈ rest ∧ .restore c ∉ rest)
  | .enable :: rest => decide (.enable ∉ rest)
  | .find :: _ | .save _ :: _ | .patch _ :: _ => false
  | _ => true

theorem startOrder_of_suffix {code : List Op} (h : code <:+ interceptorStart) :
    startOrder code = true := by
  have hall : ∀ code ∈ interceptorStart.tails, startOrder code = true := by decide
  exact hall code ((List.mem_tails ..).mpr h)

theorem endOrder_of_suffix {code : List Op} (h : code <:+ interceptorEnd) :
    endOrder code = true := by
  have hall : ∀ code ∈ interceptorEnd.tails, endOrder code = true := by decide
  exact hall code ((List.mem_tails ..).mpr h)

theorem find_first {op : Op} {rest : List Op} (h : op :: rest <:+ interceptorStart) :
    .find ∉ rest := by
  have hall : ∀ code ∈ interceptorStart.tails, .find ∉ code.tail := by decide
  exact hall _ ((List.mem_tails ..).mpr h)

/-- Everything is saved before the first write. -/
theorem saved_of_patched {rest : List Op} (h : rest <:+ interceptorStart) {c : Call}
    (hc : .patch c ∉ rest) (c' : Call) : .save c' ∉ rest := by
  have hall : ∀ rest ∈ interceptorStart.tails, ∀ c, .patch c ∉ rest → ∀ c', .save c' ∉ rest := by
    decide
  exact hall rest ((List.mem_tails ..).mpr h) c hc c'

/-- The search is only made by a module that has done nothing yet. -/
theorem start_of_find {rest : List Op} (h : .find :: rest <:+ interceptorStart) :
    .find :: rest = interceptorStart := by
  have hall : ∀ code ∈ interceptorStart.tails, code.head? = some .find →
      code = interceptorStart := by decide
  exact hall _ ((List.mem_tails ..).mpr h) rfl

/-! ## The bit -/

section Bit

variable {w : Width}

theorem writeProtect_bit (i : Nat) : (writeProtect w).getLsbD i = decide (i = 16) := by
  by_cases hi : i < 64
  · have hall : ∀ i < 64, (writeProtect w).getLsbD i = decide (i = 16) := by
      cases w <;> decide
    exact hall i hi
  · have hge : w.bits ≤ i := by
      cases w <;> simp only [Width.bits] <;> omega
    rw [BitVec.getLsbD_of_ge _ _ hge, eq_comm, decide_eq_false_iff_not]
    omega

theorem disable_bit (cr0 : Word w) (i : Nat) :
    (disablePageProtection cr0).getLsbD i = (cr0.getLsbD i && decide (i ≠ 16)) := by
  by_cases hi : i < w.bits
  · rw [disablePageProtection, BitVec.getLsbD_and, BitVec.getLsbD_not, writeProtect_bit]
    simp [hi]
  · simp [disablePageProtection, BitVec.getLsbD_of_ge _ _ (Nat.le_of_not_lt hi)]

theorem enable_bit (cr0 : Word w) (i : Nat) :
    (enablePageProtection cr0).getLsbD i = (cr0.getLsbD i || decide (i = 16)) := by
  rw [enablePageProtection, BitVec.getLsbD_or, writeProtect_bit]

end Bit

end OsProjects.Interceptor
