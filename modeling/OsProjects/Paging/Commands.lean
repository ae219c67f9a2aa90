import OsProjects.Paging.Frames
import OsProjects.Lib.Machine

/-!
# Commands, answers and histories

The calls the command loops of `Project4` make, what they return and print,
and what a history of calls and answers says about a page: the flag of its
last `map_page`, the last value stored to one of its bytes, whether a
`map_page` has ever succeeded for it. The specifications of both parts are
written in these terms.
-/

namespace OsProjects.Paging

/-- A call made by `main`, with arguments in range. -/
inductive Cmd
  | map (pid : Pid) (address : Address) (write : Bool)
  | store (pid : Pid) (address : Address) (value : Byte)
  | load (pid : Pid) (address : Address)
  deriving DecidableEq

/-- The process a call is made for. -/
def Cmd.pid : Cmd → Pid
  | .map p _ _ => p
  | .store p _ _ => p
  | .load p _ => p

/-- The page a call addresses. -/
def Cmd.page : Cmd → Nat
  | .map _ a _ => a.page
  | .store _ a _ => a.page
  | .load _ a => a.page

/-- What a call returns, and the byte a successful `load` puts into `*out`. -/
@[ext] structure Result where
  ret : Bool
  out : Option Byte
  deriving DecidableEq

/-- The `printf` lines of `pageTable.c`, of either part. -/
inductive Message
  | skipped (frame : Nat)
  | unloading (pid : Pid)
  | moved (frame slot : Nat)
  | loadedTable (pid : Pid) (frame : Nat)
  | loadedPage (page : Nat) (pid : Pid) (frame : Nat)
  | putTable (pid : Pid) (frame : Nat)
  | updatingWrite (page : Nat)
  | mapped (address page frame : Nat)
  | noPages (pid : Pid)
  | noFrame (address : Nat) (pid : Pid)
  | forbidden (address : Nat) (pid : Pid)
  | stored (value : Byte) (address phys : Nat)
  | read (value : Byte) (address phys : Nat)
  -- only in `Part1`
  | unableTable (pid : Pid)
  | noTable (pid : Pid)
  | unablePage
  deriving DecidableEq

/-- The calls made so far, oldest first, with their answers. -/
abbrev History := List (Cmd × Result)

/-- The flag of the last `map_page` for page `n` of `p`. -/
def lastMap (tr : History) (p : Pid) (n : Nat) : Option Bool :=
  tr.foldl (fun acc e => match e.1 with
    | .map q a w => if q = p ∧ a.page = n then some w else acc
    | _ => acc) none

/-- The value of the last successful `store` to address `a` of `p`. -/
def lastStore (tr : History) (p : Pid) (a : Address) : Option Byte :=
  tr.foldl (fun acc e => match e.1 with
    | .store q b v => if e.2.ret = true ∧ q = p ∧ b = a then some v else acc
    | _ => acc) none

/-- Some `map_page` for page `n` of `p` has returned 1. -/
def everMapped (tr : History) (p : Pid) (n : Nat) : Bool :=
  tr.any fun e => match e.1 with
    | .map q a _ => e.2.ret && decide (q = p ∧ a.page = n)
    | _ => false

section Snoc

variable (tr : History) (p q : Pid) (a b : Address) (n : Nat) (w : Bool) (v : Byte) (r : Result)

@[simp] theorem lastMap_map : lastMap (tr ++ [(.map q a w, r)]) p n =
    if q = p ∧ a.page = n then some w else lastMap tr p n := by
  simp [lastMap]

@[simp] theorem lastMap_store : lastMap (tr ++ [(.store q a v, r)]) p n = lastMap tr p n := by
  simp [lastMap]

@[simp] theorem lastMap_load : lastMap (tr ++ [(.load q a, r)]) p n = lastMap tr p n := by
  simp [lastMap]

@[simp] theorem lastStore_map : lastStore (tr ++ [(.map q b w, r)]) p a = lastStore tr p a := by
  simp [lastStore]

@[simp] theorem lastStore_store : lastStore (tr ++ [(.store q b v, r)]) p a =
    if r.ret = true ∧ q = p ∧ b = a then some v else lastStore tr p a := by
  simp [lastStore]

@[simp] theorem lastStore_load : lastStore (tr ++ [(.load q b, r)]) p a = lastStore tr p a := by
  simp [lastStore]

@[simp] theorem everMapped_map : everMapped (tr ++ [(.map q a w, r)]) p n =
    (everMapped tr p n || r.ret && decide (q = p ∧ a.page = n)) := by
  simp [everMapped]

@[simp] theorem everMapped_store :
    everMapped (tr ++ [(.store q a v, r)]) p n = everMapped tr p n := by
  simp [everMapped]

@[simp] theorem everMapped_load :
    everMapped (tr ++ [(.load q a, r)]) p n = everMapped tr p n := by
  simp [everMapped]

end Snoc

/-! A call says nothing about the pages it does not address. -/

section Other

variable {tr : History} {c : Cmd} {r : Result}

theorem everMapped_other {q : Pid} {m : Nat} (hne : ¬ (q = c.pid ∧ m = c.page)) :
    everMapped (tr ++ [(c, r)]) q m = everMapped tr q m := by
  cases c with
  | map p a w =>
    have hno : decide (p = q ∧ a.page = m) = false :=
      decide_eq_false (fun hc => hne ⟨hc.1.symm, hc.2.symm⟩)
    rw [everMapped_map, hno, Bool.and_false, Bool.or_false]
  | store p a v => exact everMapped_store tr q p a m v r
  | load p a => exact everMapped_load tr q p a m r

theorem lastMap_other {q : Pid} {m : Nat} (hne : ¬ (q = c.pid ∧ m = c.page)) :
    lastMap (tr ++ [(c, r)]) q m = lastMap tr q m := by
  cases c with
  | map p a w => rw [lastMap_map, if_neg (fun hc => hne ⟨hc.1.symm, hc.2.symm⟩)]
  | store p a v => exact lastMap_store tr q p a m v r
  | load p a => exact lastMap_load tr q p a m r

theorem lastStore_other {q : Pid} {a : Address} (hne : ¬ (q = c.pid ∧ a.page = c.page)) :
    lastStore (tr ++ [(c, r)]) q a = lastStore tr q a := by
  cases c with
  | map p b w => exact lastStore_map tr q p a b w r
  | store p b v =>
    rw [lastStore_store, if_neg]
    rintro ⟨_, rfl, rfl⟩
    exact hne ⟨rfl, rfl⟩
  | load p b => exact lastStore_load tr q p a b r

end Other

/-- The bytes of one page differ in their offsets. -/
theorem Address.eq_of_page_offset {a b : Address} (hp : a.page = b.page)
    (ho : a.offset = b.offset) : a = b := by
  simp only [Address.page, Address.offset, pageSize] at hp ho
  exact Fin.ext (by omega)

/-- The bytes of a page after a store to `a`. -/
theorem Address.get_set {a b : Address} (d : Lib.Cells Byte pageSize) (v : Byte)
    (hb : b.page = a.page) :
    (d.set a.offset v).get b.offset = if a = b then v else d.get b.offset := by
  split
  · next hab => rw [hab, Lib.Cells.get_set_eq _ _ b.offset_lt]
  · next hab =>
    have hoff : b.offset ≠ a.offset := fun ho => hab (eq_of_page_offset hb.symm ho.symm)
    rw [Lib.Cells.get_set_ne _ _ hoff]

end OsProjects.Paging
