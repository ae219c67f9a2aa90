import OsProjects.Paging.Commands

/-!
# `Project4/Part1`: page tables without a backing store

The state is `mainMemory`, `procTable` and the text printed so far. Functions
keep the source's names and order of effects. `none` stands for a run that does
not come back: dereferencing the `NULL` that `find_page` returns for a process
without a table.
-/

namespace OsProjects.Paging.PartOne

open OsProjects.Lib OsProjects.Paging

/-- `page_t`: one byte of bit fields. -/
structure Page where
  valid : Bool
  write : Bool
  frame : Fin 64
  deriving DecidableEq, Inhabited

/-- Bit fields are allocated from the least significant bit. -/
def Page.toByte (p : Page) : Byte :=
  BitVec.ofNat 8 (p.valid.toNat + 2 * p.write.toNat + 4 * p.frame.val)

/-- `*(page_t*)&b`. -/
def Page.ofByte (b : Byte) : Page where
  valid := b.toNat % 2 = 1
  write := b.toNat / 2 % 2 = 1
  frame := Fin.ofNat 64 (b.toNat / 4)

@[simp] theorem Page.ofByte_toByte (p : Page) : Page.ofByte p.toByte = p := by
  obtain ⟨v, w, f⟩ := p
  revert v w f
  decide

structure State where
  mainMemory : Cells Byte physMemSize
  procTable : Cells Page maxProcesses
  out : List Message

/-- Zeroed memory. -/
def State.init : State where
  mainMemory := Cells.ofFn fun _ => 0
  procTable := Cells.ofFn fun _ => default
  out := []

namespace State

def print (s : State) (m : Message) : State := { s with out := s.out ++ [m] }

/-- `procTable[p]`. -/
def tab (s : State) (p : Pid) : Page := s.procTable.get p

/-- `*(page_t*)&mainMemory[a]`. -/
def cell (s : State) (a : Nat) : Page := Page.ofByte (s.mainMemory.get a)

/-- `*page`. -/
def page (s : State) : Ref → Page
  | .proc i => s.tab i
  | .cell a => s.cell a

/-- `*page = p`. -/
def setPage (s : State) (r : Ref) (p : Page) : State :=
  match r with
  | .proc i => { s with procTable := s.procTable.set i p }
  | .cell a => { s with mainMemory := s.mainMemory.set a p.toByte }

/-- What the ownership scan sees. -/
def view (s : State) : View where
  tab p := ⟨(s.tab p).valid, (s.tab p).frame⟩
  cell a := ⟨(s.cell a).valid, (s.cell a).frame⟩

end State

/-- `frame_allocated`. -/
def frameAllocated (s : State) (frame : Nat) : Bool := (s.view.frameAllocated frame).isSome

/-- `find_free_frame`; `none` stands for -1. -/
def findFreeFrame (s : State) : Option Nat :=
  (List.range pageFrames).find? fun i => !frameAllocated s i

/-- `find_page`; `none` stands for `NULL`. -/
def findPage (pid : Pid) (n : Nat) (s : State) : Option Ref :=
  if (s.tab pid).valid then some (.cell ((s.tab pid).frame * pageSize + n)) else none

/-- The loop of `init_table` over the entries of a new table. -/
def clearTable (frame : Nat) (s : State) : State :=
  (List.range pageSize).foldl (fun s j =>
    s.setPage (.cell (frame * pageSize + j))
      { s.cell (frame * pageSize + j) with valid := false }) s

/-- `init_table`. -/
def initTable (pid : Pid) (s : State) : State :=
  match findFreeFrame s with
  | some frame =>
    let s := s.setPage (.proc pid)
      { valid := true, write := true, frame := Fin.ofNat 64 frame }
    (clearTable frame s).print (.putTable pid frame)
  | none => s.print (.unableTable pid)

/-- The part of `map_page` after the page table is there. -/
def mapEntry (pid : Pid) (address : Address) (write : Bool) (s : State) :
    Option (Bool × State) := do
  let page ← findPage pid address.page s
  if (s.page page).valid then
    let s := s.print (.updatingWrite address.page)
    some (false, s.setPage page { s.page page with write := write })
  else match findFreeFrame s with
    | none => some (false, s.print .unablePage)
    | some frame =>
      some (true, (s.setPage page
        { s.page page with frame := Fin.ofNat 64 frame, valid := true, write := write }).print
          (.mapped address address.page frame))

/-- `map_page`. -/
def mapPage (pid : Pid) (address : Address) (write : Bool) (s : State) : Option (Bool × State) :=
  if (s.tab pid).valid then mapEntry pid address write s
  else
    let s := initTable pid s
    if !(s.tab pid).valid then some (false, s.print (.noTable pid))
    else mapEntry pid address write s

/-- The lookup `store` and `load` start with: the entry of the addressed page, or
`none` after the line that reports why there is none. -/
def lookup (pid : Pid) (address : Address) (s : State) : Option (Option Ref × State) :=
  if !(s.tab pid).valid then some (none, s.print (.noPages pid))
  else do
    let page ← findPage pid address.page s
    if !(s.page page).valid then some (none, s.print (.noFrame address pid))
    else some (some page, s)

/-- The physical address `page->frame * PAGE_SIZE + offset`. -/
def State.phys (s : State) (page : Ref) (address : Address) : Nat :=
  (s.page page).frame * pageSize + address.offset

/-- `store`. -/
def store (pid : Pid) (address : Address) (value : Byte) (s : State) :
    Option (Bool × State) := do
  let (entry, s) ← lookup pid address s
  match entry with
  | none => some (false, s)
  | some page =>
    if !(s.page page).write then some (false, s.print (.forbidden address pid))
    else
      let phys := s.phys page address
      some (true, { s with mainMemory := s.mainMemory.set phys value }.print
        (.stored value address phys))

/-- `load`: `some (some b)` returns 1 with `*out = b`, `some none` returns 0. -/
def load (pid : Pid) (address : Address) (s : State) : Option (Option Byte × State) := do
  let (entry, s) ← lookup pid address s
  match entry with
  | none => some (none, s)
  | some page =>
    let phys := s.phys page address
    let value := s.mainMemory.get phys
    some (some value, s.print (.read value address phys))

/-- The call a command stands for. -/
def exec : Cmd → State → Option (Result × State)
  | .map p a w, s => (mapPage p a w s).map fun (b, s) => (⟨b, none⟩, s)
  | .store p a v, s => (store p a v s).map fun (b, s) => (⟨b, none⟩, s)
  | .load p a, s => (load p a s).map fun (v, s) => (⟨v.isSome, v⟩, s)

/-- The calls `cs` made one after the other from zeroed memory. -/
def calls (cs : List Cmd) : Option (History × State) := run exec cs State.init

end OsProjects.Paging.PartOne
