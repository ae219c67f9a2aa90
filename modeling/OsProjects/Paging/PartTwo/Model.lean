import OsProjects.Paging.Commands

/-!
# `Project4/Part2`: demand paging with a backing store

The state is the program's globals — `mainMemory`, `procTable`,
`backingStore`, the static `robin` of `free_frame` — and the text printed so
far. Functions keep the source's names and order of effects.

`none` stands for a run that does not come back: the `NULL` page that
`free_frame` would hand to `free_specific_frame`, or its recursion going round
forever. `int` results of `find_free_frame` are natural numbers, since it
returns a loop index or `robin`; the `frame < 0` branches of the source are
unreachable for that reason and are not modelled.
-/

namespace OsProjects.Paging.PartTwo

open OsProjects.Lib OsProjects.Paging

/-- `STORE_FRAMES`. -/
abbrev storeFrames : Nat := 64

/-- `page_t`: one byte of bit fields. -/
structure Page where
  valid : Bool
  write : Bool
  frame : Fin 16
  procc : Fin 4
  deriving DecidableEq, Inhabited

/-- Bit fields are allocated from the least significant bit. -/
def Page.toByte (p : Page) : Byte :=
  BitVec.ofNat 8 (p.valid.toNat + 2 * p.write.toNat + 4 * p.frame.val + 64 * p.procc.val)

/-- `*(page_t*)&b`. -/
def Page.ofByte (b : Byte) : Page where
  valid := b.toNat % 2 = 1
  write := b.toNat / 2 % 2 = 1
  frame := Fin.ofNat 16 (b.toNat / 4)
  procc := Fin.ofNat 4 (b.toNat / 64)

@[simp] theorem Page.ofByte_toByte (p : Page) : Page.ofByte p.toByte = p := by
  obtain ⟨v, w, f, c⟩ := p
  revert v w f c
  decide

/-- `storedFrame_t`; the slot is unused while `pid < 0`. -/
structure StoredFrame where
  data : Cells Byte pageSize
  pid : Int
  page : Int
  write : Bool

instance : Inhabited StoredFrame := ⟨⟨Cells.ofFn fun _ => 0, 0, 0, false⟩⟩

structure State where
  mainMemory : Cells Byte physMemSize
  procTable : Cells Page maxProcesses
  backingStore : Cells StoredFrame storeFrames
  robin : Nat
  out : List Message

/-- The state `main` enters its input loop with. -/
def State.init : State where
  mainMemory := Cells.ofFn fun _ => 0
  procTable := Cells.ofFn fun _ => default
  backingStore := Cells.ofFn fun _ => { (default : StoredFrame) with pid := -1 }
  robin := 0
  out := []

namespace State

def print (s : State) (m : Message) : State := { s with out := s.out ++ [m] }

/-- `procTable[p]`. -/
def tab (s : State) (p : Pid) : Page := s.procTable.get p

/-- `*(page_t*)&mainMemory[a]`. -/
def cell (s : State) (a : Nat) : Page := Page.ofByte (s.mainMemory.get a)

/-- `backingStore[i]`. -/
def slot (s : State) (i : Nat) : StoredFrame := s.backingStore.get i

/-- `*page`. -/
def page (s : State) : Ref → Page
  | .proc i => s.tab i
  | .cell a => s.cell a

/-- `*page = p`. -/
def setPage (s : State) (r : Ref) (p : Page) : State :=
  match r with
  | .proc i => { s with procTable := s.procTable.set i p }
  | .cell a => { s with mainMemory := s.mainMemory.set a p.toByte }

def setSlot (s : State) (i : Nat) (b : StoredFrame) : State :=
  { s with backingStore := s.backingStore.set i b }

/-- The bytes of a frame. -/
def bytes (s : State) (frame : Nat) : Cells Byte pageSize :=
  Cells.ofFn fun j => s.mainMemory.get (frame * pageSize + j)

/-- Copy a page over a frame. -/
def fill (s : State) (frame : Nat) (d : Cells Byte pageSize) : State :=
  { s with mainMemory := s.mainMemory.blit (frame * pageSize) d }

/-- What the ownership scan sees. -/
def view (s : State) : View where
  tab p := ⟨(s.tab p).valid, (s.tab p).frame⟩
  cell a := ⟨(s.cell a).valid, (s.cell a).frame⟩

/-- `robin++; if (robin >= PAGE_FRAMES) robin = 0;` -/
def advance (s : State) : State :=
  { s with robin := if s.robin + 1 ≥ pageFrames then 0 else s.robin + 1 }

end State

/-- `frame_allocated`. -/
def frameAllocated (s : State) (frame : Nat) : Option Ref := s.view.frameAllocated frame

/-- `get_page_num`. The inner loop starts at `j = 1`. -/
def getPageNum (s : State) (page : Ref) : Int :=
  ((List.finRange maxProcesses).findSome? fun i =>
    if page = .proc i then some (-1)
    else if (s.tab i).valid then
      ((List.range' 1 (pageSize - 1)).find? fun j =>
        decide (page = .cell ((s.tab i).frame * pageSize + j))).map Int.ofNat
    else none).getD (-2)

/-- The first unused slot of the backing store. -/
def State.freeSlot (s : State) : Option Nat :=
  s.backingStore.find fun b => decide (b.pid < 0)

/-- `free_specific_frame`. When no slot is unused the frame is dropped, and the
line printed names slot `STORE_FRAMES`. -/
def freeSpecificFrame (page : Ref) (s : State) : State :=
  let s := s.setPage page { s.page page with valid := false }
  let frame := (s.page page).frame
  match s.freeSlot with
  | some i =>
    (s.setSlot i
      { data := s.bytes frame
        pid := (s.page page).procc.val
        page := getPageNum s page
        write := (s.page page).write }).print (.moved frame i)
  | none => s.print (.moved frame storeFrames)

/-- One round of the loop of `free_frame` that empties the table in `frame`. -/
def unloadEntry (frame : Nat) (s : State) (i : Nat) : State :=
  if (s.cell (frame * pageSize + i)).valid then
    freeSpecificFrame (.cell (frame * pageSize + i)) s
  else s

def unload (frame : Nat) (s : State) : State :=
  (List.range pageSize).foldl (unloadEntry frame) s

/-- The part of `free_frame` that gives up the frame of `page`; the frame of a
table goes after the frames the table maps. -/
def freeVictim (page : Ref) (s : State) : State :=
  freeSpecificFrame page (match page with
    | .proc _ => unload (s.page page).frame (s.print (.unloading (s.page page).procc))
    | .cell _ => s)

/-- `free_frame`. Each recursive call skips one frame, and skipping changes
only `robin`: after a full turn the recursion repeats itself forever. -/
def freeFrameFuel (pid : Pid) : Nat → State → Option (Nat × State)
  | 0, _ => none
  | fuel + 1, s =>
    match frameAllocated s s.robin with
    | none => none
    | some page =>
      if page = .proc pid then
        freeFrameFuel pid fuel (s.print (.skipped s.robin)).advance
      else
        let s := freeVictim page s
        some (s.robin, s.advance)

def freeFrame (pid : Pid) (s : State) : Option (Nat × State) :=
  freeFrameFuel pid (pageFrames + 1) s

/-- `find_free_frame`. -/
def findFreeFrame (pid : Pid) (s : State) : Option (Nat × State) :=
  match s.view.firstFree with
  | some i => some (i, s)
  | none => freeFrame pid s

/-- The slot of the backing store that holds page `pageNum` of `pid`. -/
def State.slotOf (s : State) (pid : Pid) (pageNum : Int) : Option Nat :=
  s.backingStore.find fun b => decide (b.pid = pid.val) && decide (b.page = pageNum)

/-- `check_backing_store` over the `find_page` it calls. -/
def checkBackingStoreWith (findPage : Pid → Nat → State → Option (Ref × State))
    (pid : Pid) (pageNum : Int) (s : State) : Option (Bool × State) :=
  match s.slotOf pid pageNum with
  | none => some (false, s)
  | some i => do
    let (frame, s) ← findFreeFrame pid s
    let s := s.fill frame (s.slot i).data
    let s ←
      if pageNum = -1 then
        some ((s.setPage (.proc pid)
          { frame := Fin.ofNat 16 frame, procc := pid, valid := true,
            write := (s.slot i).write }).print (.loadedTable pid frame))
      else do
        let (tmp, s) ← findPage pid pageNum.toNat s
        some ((s.setPage tmp
          { frame := Fin.ofNat 16 frame, procc := pid, valid := true,
            write := (s.slot i).write }).print (.loadedPage pageNum.toNat pid frame))
    some (true, s.setSlot i { s.slot i with pid := -1 })

/-- `check_backing_store(pid, -1)`, which never reaches `find_page`. -/
def checkTable (pid : Pid) (s : State) : Option (Bool × State) :=
  checkBackingStoreWith (fun _ _ _ => none) pid (-1) s

/-- The loop of `init_table` over the entries of a new table. -/
def clearTable (pid : Pid) (frame : Nat) (s : State) : State :=
  (List.range pageSize).foldl (fun s j =>
    s.setPage (.cell (frame * pageSize + j))
      { s.cell (frame * pageSize + j) with valid := false, procc := pid }) s

/-- `init_table`. -/
def initTable (pid : Pid) (s : State) : Option State := do
  let (found, s) ← checkTable pid s
  if found then some s
  else do
    let (frame, s) ← findFreeFrame pid s
    let s := s.setPage (.proc pid)
      { valid := true, procc := pid, write := true, frame := Fin.ofNat 16 frame }
    some ((clearTable pid frame s).print (.putTable pid frame))

/-- `find_page`. -/
def findPage (pid : Pid) (n : Nat) (s : State) : Option (Ref × State) := do
  let s ← if (s.tab pid).valid then some s else initTable pid s
  some (.cell ((s.tab pid).frame * pageSize + n), s)

/-- `check_backing_store`. -/
def checkBackingStore (pid : Pid) (pageNum : Int) (s : State) : Option (Bool × State) :=
  checkBackingStoreWith findPage pid pageNum s

/-- `map_page`. -/
def mapPage (pid : Pid) (address : Address) (write : Bool) (s : State) :
    Option (Bool × State) := do
  let (page, s) ← findPage pid address.page s
  if (s.page page).valid then
    let s := s.print (.updatingWrite address.page)
    some (false, s.setPage page { s.page page with write := write })
  else do
    let (found, s) ← checkBackingStore pid address.page s
    let s ←
      if found then some s
      else do
        let (frame, s) ← findFreeFrame pid s
        some ((s.setPage page
          { s.page page with frame := Fin.ofNat 16 frame, valid := true, write := write }).print
            (.mapped address address.page frame))
    let s :=
      if (s.page page).write ≠ write then
        let s := s.print (.updatingWrite address.page)
        s.setPage page { s.page page with write := write }
      else s
    some (true, s)

/-- `procTable[pid].valid || check_backing_store(pid, -1)`. -/
def tableReady (pid : Pid) (s : State) : Option (Bool × State) :=
  if (s.tab pid).valid then some (true, s) else checkBackingStore pid (-1) s

/-- `page->valid || check_backing_store(pid, n)`. -/
def pageReady (page : Ref) (pid : Pid) (n : Nat) (s : State) : Option (Bool × State) :=
  if (s.page page).valid then some (true, s) else checkBackingStore pid n s

/-- The lookup `store` and `load` start with: the entry of the addressed page,
made resident, or `none` after the line that reports why there is none. -/
def lookup (pid : Pid) (address : Address) (s : State) : Option (Option Ref × State) := do
  let (haveTable, s) ← tableReady pid s
  if !haveTable then some (none, s.print (.noPages pid))
  else do
    let (page, s) ← findPage pid address.page s
    let (havePage, s) ← pageReady page pid address.page s
    if !havePage then some (none, s.print (.noFrame address pid))
    else some (some page, s)

/-- The physical address `page->frame * PAGE_SIZE + offset`. -/
def State.phys (s : State) (page : Ref) (address : Address) : Nat :=
  (s.page page).frame * pageSize + address.offset

/-- `store`. -/
def store (pid : Pid) (address : Address) (value : Byte) (s : State) :
    Option (Bool × State) := do
  let (entry, s) ← lookup pid address s
  match entry with
  | none => some (false, s)
  | some page =>
    if !(s.page page).write then some (false, s.print (.forbidden address pid))
    else
      let phys := s.phys page address
      some (true, { s with mainMemory := s.mainMemory.set phys value }.print
        (.stored value address phys))

/-- `load`: `some (some b)` returns 1 with `*out = b`, `some none` returns 0. -/
def load (pid : Pid) (address : Address) (s : State) : Option (Option Byte × State) := do
  let (entry, s) ← lookup pid address s
  match entry with
  | none => some (none, s)
  | some page =>
    let phys := s.phys page address
    let value := s.mainMemory.get phys
    some (some value, s.print (.read value address phys))

/-- The call a command stands for. -/
def exec : Cmd → State → Option (Result × State)
  | .map p a w, s => (mapPage p a w s).map fun (b, s) => (⟨b, none⟩, s)
  | .store p a v, s => (store p a v s).map fun (b, s) => (⟨b, none⟩, s)
  | .load p a, s => (load p a s).map fun (v, s) => (⟨v.isSome, v⟩, s)

/-- The calls `cs` made one after the other from the initial state. -/
def calls (cs : List Cmd) : Option (History × State) := run exec cs State.init

end OsProjects.Paging.PartTwo
