import Mathlib.Data.BitVec

/-!
# `find_sys_call_table`

The search for the table goes through memory in steps of a pointer from `PAGE_OFFSET` on,
and takes the first place from which entry `__NR_close` is the address of `sys_close`. The
loop ends at `ULLONG_MAX`, which has 64 bits; but a shorter offset is always below it, and one
of 64 bits is a multiple of 8 and wraps around to 0 before. So the loop never ends, and the
`return NULL` below it is never reached: the search finds a place, reads where nothing is
mapped, or goes on for ever.
-/

namespace OsProjects.Interceptor

/-- The processors that the module is for. -/
inductive Width
  | bits32
  | bits64
  deriving DecidableEq

abbrev Width.bits : Width → Nat
  | .bits32 => 32
  | .bits64 => 64

/-- `sizeof(void *)` -/
abbrev Width.bytes : Width → Nat
  | .bits32 => 4
  | .bits64 => 8

/-- `unsigned long`: an address, an entry of the table, or `cr0`. -/
abbrev Word (w : Width) := BitVec w.bits

/-- What the search depends on; `read` is `none` where nothing is mapped. -/
structure Memory (w : Width) where
  pageOffset : Word w
  nrClose : Nat
  sysClose : Word w
  read : Word w → Option (Word w)

/-- How far the search has come. -/
inductive Scanned (w : Width)
  | found (sct : Word w)
  | null
  | fault (offset : Word w)
  /-- out of fuel -/
  | running (offset : Word w)
  deriving DecidableEq

abbrev ullongMax : Nat := 0xffffffffffffffff

section Search

variable {w : Width}

/-- `i` pointers behind an address -/
def Word.plus (a : Word w) (i : Nat) : Word w := a + BitVec.ofNat w.bits (w.bytes * i)

/-- `sct[__NR_close]` -/
def Memory.entry (m : Memory w) (sct : Word w) : Option (Word w) := m.read (sct.plus m.nrClose)

def scan (m : Memory w) : Nat → Word w → Scanned w
  | 0, offset => .running offset
  | fuel + 1, offset =>
    if offset.toNat < ullongMax then
      match m.entry offset with
      | none => .fault offset
      | some word => if word = m.sysClose then .found offset else scan m fuel (offset.plus 1)
    else .null

def findSysCallTable (m : Memory w) (fuel : Nat) : Scanned w := scan m fuel m.pageOffset

variable {m : Memory w}

/-- The offset after `i` steps. -/
def Memory.offset (m : Memory w) (i : Nat) : Word w := m.pageOffset.plus i

/-- There is something at step `i`, but not the table. -/
def Memory.Skips (m : Memory w) (i : Nat) : Prop :=
  ∃ word, m.entry (m.offset i) = some word ∧ word ≠ m.sysClose

theorem Memory.offset_zero : m.offset 0 = m.pageOffset := by
  simp [Memory.offset, Word.plus]

theorem Memory.offset_succ (i : Nat) : m.offset (i + 1) = (m.offset i).plus 1 := by
  rw [Memory.offset, Memory.offset, Word.plus, Word.plus, Word.plus, Nat.mul_add,
    BitVec.ofNat_add, BitVec.add_assoc]

theorem Memory.toNat_offset (i : Nat) :
    (m.offset i).toNat = (m.pageOffset.toNat + w.bytes * i) % 2 ^ w.bits := by
  rw [Memory.offset, Word.plus, BitVec.toNat_add, BitVec.toNat_ofNat, Nat.add_mod_mod]

/-- An offset of 32 bits is below `ULLONG_MAX`, and so is one of 64 that is a multiple of 8. -/
theorem Memory.offset_lt (halign : m.pageOffset.toNat % w.bytes = 0) (i : Nat) :
    (m.offset i).toNat < ullongMax := by
  rw [Memory.toNat_offset]
  cases w with
  | bits32 => exact Nat.lt_trans (Nat.mod_lt _ (by decide)) (by decide)
  | bits64 =>
    have halign : m.pageOffset.toNat % 8 = 0 := halign
    show (m.pageOffset.toNat + 8 * i) % 2 ^ 64 < 0xffffffffffffffff
    omega

theorem scan_skips (halign : m.pageOffset.toNat % w.bytes = 0) {i : Nat} (hskip : m.Skips i)
    (fuel : Nat) : scan m (fuel + 1) (m.offset i) = scan m fuel (m.offset (i + 1)) := by
  obtain ⟨word, hword, hne⟩ := hskip
  simp only [scan, if_pos (Memory.offset_lt halign i), hword, if_neg hne, Memory.offset_succ]

theorem scan_skips_all (halign : m.pageOffset.toNat % w.bytes = 0) (fuel i n : Nat)
    (hskip : ∀ j < n, m.Skips (i + j)) :
    scan m (fuel + n) (m.offset i) = scan m fuel (m.offset (i + n)) := by
  induction n generalizing i with
  | zero => rfl
  | succ n ih =>
    have htail : ∀ j < n, m.Skips (i + 1 + j) := by
      intro j hj
      rw [show i + 1 + j = i + (j + 1) by omega]
      exact hskip (j + 1) (by omega)
    have hfirst : m.Skips i := hskip 0 (by omega)
    rw [← Nat.add_assoc, scan_skips halign hfirst, ih (i + 1) htail]
    rw [show i + 1 + n = i + (n + 1) by omega]

/-- Where a search from step `i` on has come to. -/
theorem scan_result (halign : m.pageOffset.toNat % w.bytes = 0) (fuel i : Nat) :
    ∃ n, (∀ j < n, m.Skips (i + j)) ∧
      (scan m fuel (m.offset i) = .running (m.offset (i + n)) ∧ n = fuel ∨
        scan m fuel (m.offset i) = .fault (m.offset (i + n)) ∧ m.entry (m.offset (i + n)) = none ∨
        scan m fuel (m.offset i) = .found (m.offset (i + n)) ∧
          m.entry (m.offset (i + n)) = some m.sysClose) := by
  induction fuel generalizing i with
  | zero => exact ⟨0, by simp, .inl ⟨rfl, rfl⟩⟩
  | succ fuel ih =>
    cases hentry : m.entry (m.offset i) with
    | none =>
      refine ⟨0, by simp, .inr (.inl ⟨?_, hentry⟩)⟩
      simp only [scan, if_pos (Memory.offset_lt halign i), hentry, Nat.add_zero]
    | some word =>
      by_cases hmatch : word = m.sysClose
      · refine ⟨0, by simp, .inr (.inr ⟨?_, by rw [← hmatch]; exact hentry⟩)⟩
        simp only [scan, if_pos (Memory.offset_lt halign i), hentry, if_pos hmatch, Nat.add_zero]
      · have hskip : m.Skips i := ⟨word, hentry, hmatch⟩
        obtain ⟨n, hskips, hres⟩ := ih (i + 1)
        refine ⟨n + 1, ?_, ?_⟩
        · intro j hj
          cases j with
          | zero => exact hskip
          | succ j =>
            rw [show i + (j + 1) = i + 1 + j by omega]
            exact hskips j (by omega)
        · rw [scan_skips halign hskip, show i + (n + 1) = i + 1 + n by omega]
          simpa using hres

/-- The search never comes to the `return NULL` after the loop, so that `NULL` comes back only
as the address of a table; what it finds is the first place with `sys_close` in the right
entry, if everything before it is mapped; and it goes on for ever exactly if every place is
mapped and none has it. -/
theorem find_sys_call_table_spec (halign : m.pageOffset.toNat % w.bytes = 0) :
    (∀ fuel, findSysCallTable m fuel ≠ .null) ∧
    (∀ sct, (∃ fuel, findSysCallTable m fuel = .found sct) ↔
      ∃ n, sct = m.offset n ∧ m.entry sct = some m.sysClose ∧ ∀ i < n, m.Skips i) ∧
    ((∀ fuel, ∃ offset, findSysCallTable m fuel = .running offset) ↔ ∀ i, m.Skips i) := by
  have hres : ∀ fuel, ∃ n, (∀ i < n, m.Skips i) ∧
      (findSysCallTable m fuel = .running (m.offset n) ∧ n = fuel ∨
        findSysCallTable m fuel = .fault (m.offset n) ∧ m.entry (m.offset n) = none ∨
        findSysCallTable m fuel = .found (m.offset n) ∧
          m.entry (m.offset n) = some m.sysClose) := by
    intro fuel
    have h := scan_result halign fuel 0
    simpa only [Memory.offset_zero, Nat.zero_add, findSysCallTable] using h
  have hskips : ∀ fuel n, (∀ i < n, m.Skips i) →
      findSysCallTable m (fuel + n) = scan m fuel (m.offset n) := by
    intro fuel n hskip
    have h := scan_skips_all halign fuel 0 n (by simpa only [Nat.zero_add] using hskip)
    simpa only [Memory.offset_zero, Nat.zero_add, findSysCallTable] using h
  refine ⟨fun fuel => ?_, fun sct => ⟨?_, ?_⟩, ?_, ?_⟩
  · obtain ⟨n, -, ⟨h, -⟩ | ⟨h, -⟩ | ⟨h, -⟩⟩ := hres fuel <;> rw [h] <;> nofun
  · rintro ⟨fuel, hfound⟩
    obtain ⟨n, hskip, ⟨h, -⟩ | ⟨h, -⟩ | ⟨h, hentry⟩⟩ := hres fuel
    · cases h.symm.trans hfound
    · cases h.symm.trans hfound
    · cases h.symm.trans hfound
      exact ⟨n, rfl, hentry, hskip⟩
  · rintro ⟨n, rfl, hentry, hskip⟩
    refine ⟨1 + n, (hskips 1 n hskip).trans ?_⟩
    simp only [scan, if_pos (Memory.offset_lt halign n), hentry, if_true]
  · intro hrun i
    obtain ⟨n, hskip, ⟨-, rfl⟩ | ⟨h, -⟩ | ⟨h, -⟩⟩ := hres (i + 1)
    · exact hskip i (by omega)
    · obtain ⟨offset, hoffset⟩ := hrun (i + 1)
      cases h.symm.trans hoffset
    · obtain ⟨offset, hoffset⟩ := hrun (i + 1)
      cases h.symm.trans hoffset
  · intro hall fuel
    have h := hskips 0 fuel fun i _ => hall i
    rw [Nat.zero_add] at h
    exact ⟨_, h⟩

end Search

/-- A table three pointers behind the start of the kernel's memory. -/
def smallImage : Memory .bits64 where
  pageOffset := 0xffff880000000000#64
  nrClose := 3
  sysClose := 0xffffffff811d5a10#64
  read address := some (if address = 0xffff880000000030#64 then 0xffffffff811d5a10#64 else 0#64)

theorem find_sys_call_table_small : ∃ fuel, findSysCallTable smallImage fuel =
    .found (smallImage.offset 3) := by
  have hskip : ∀ i < 3, smallImage.Skips i := by
    intro i hi
    refine ⟨0#64, ?_, by decide⟩
    have hall : ∀ i < 3, smallImage.entry (smallImage.offset i) = some 0#64 := by decide
    exact hall i hi
  exact ((find_sys_call_table_spec (m := smallImage) (by decide)).2.1 _).mpr
    ⟨3, rfl, by decide, hskip⟩

end OsProjects.Interceptor
