import Mathlib.Data.List.Infix
import OsProjects.Lib.CString

/-!
# `Project2/module`: the virus scan

`contstr`, the naive search for a string in a buffer, and `new_sys_read`, which calls it on
the caller's buffer after the original `read`. A read outside of the bytes that are there
does not come back (`none`), so that a result says that only they were read.

`contstr` is exact (`contstr_eq`), and leaves the bytes only if the key is not among them
(`contstr_found`, `contstr_lost`). But `new_sys_read` gives it the number of bytes that were
asked for, not the number that came, and so it scans what an earlier `read` has left behind
as well, and what comes after a buffer that is smaller than the number.
-/

namespace OsProjects.Interceptor

open OsProjects.Lib

abbrev Byte := BitVec 8

/-! ## `contstr` -/

/-- The inner loop of `contstr`, from `i` on. -/
def matchAt (target : List Byte) (tsize : Int) (key : List Byte) (tindex i : Nat) : Option Bool :=
  if (tindex + i : Int) < tsize then do
    let c ← target[tindex + i]?
    let k ← key[i]?
    if c = k then
      let next ← key[i + 1]?
      if next = 0 then some true else matchAt target tsize key tindex (i + 1)
    else some false
  else some false
termination_by (tsize - tindex - i).toNat

/-- The outer loop, from `tindex` on. -/
def search (target : List Byte) (tsize : Int) (key : List Byte) (tindex : Nat) : Option Int :=
  if (tindex : Int) < tsize then do
    let found ← matchAt target tsize key tindex 0
    if found then some 1 else search target tsize key (tindex + 1)
  else some 0
termination_by (tsize - tindex).toNat

def contstr (target : List Byte) (tsize : Int) (key : List Byte) : Option Int :=
  search target tsize key 0

section Contstr

variable {target key rest : List Byte} {tsize : Int} {tindex i : Nat}

/-- The bytes of a key at and after `i`, and the terminator. -/
theorem getElem?_key (hi : i < key.length) :
    (key ++ 0 :: rest)[i]? = some key[i] ∧
      (key ++ 0 :: rest)[i + 1]? = if h : i + 1 < key.length then some key[i + 1] else some 0 := by
  constructor
  · rw [List.getElem?_append_left hi, List.getElem?_eq_getElem hi]
  · split
    · next h => rw [List.getElem?_append_left h, List.getElem?_eq_getElem h]
    · next h =>
      have hlen : i + 1 = key.length := by omega
      rw [hlen, List.getElem?_append_right (Nat.le_refl _), Nat.sub_self]
      rfl

/-- The inner loop compares the rest of the key with the bytes from there on, if they are
enough for the key. -/
theorem matchAt_eq (hsize : tsize ≤ target.length ∨ tindex + key.length ≤ target.length)
    (hkey : 0 ∉ key) (hi : i < key.length) :
    matchAt target tsize (key ++ 0 :: rest) tindex i =
      some (decide (key.drop i <+: (target.take tsize.toNat).drop (tindex + i))) := by
  -- by the recursion of the loop: `i` goes up to the end of the key
  induction hn : key.length - i generalizing i with
  | zero => omega
  | succ n ih =>
    obtain ⟨hget, hnext⟩ := @getElem?_key key rest i hi
    rw [matchAt]
    split
    · next hlt =>
      have hin : tindex + i < (target.take tsize.toNat).length := by
        rw [List.length_take]
        omega
      have hin' : tindex + i < target.length := by omega
      rw [List.drop_eq_getElem_cons hi, List.drop_eq_getElem_cons hin, List.getElem_take]
      simp only [List.getElem?_eq_getElem hin', hget, hnext, Option.bind_eq_bind,
        Option.bind_some, List.cons_prefix_cons]
      by_cases hc : target[tindex + i] = key[i]
      · rw [if_pos hc]
        by_cases hlast : i + 1 < key.length
        · have hne : key[i + 1] ≠ 0 := fun h => hkey (h ▸ List.getElem_mem hlast)
          simp only [dif_pos hlast, Option.bind_some, if_neg hne, ih hlast (by omega), hc, true_and]
          rfl
        · have hnil : key.drop (i + 1) = [] := List.drop_eq_nil_iff.mpr (by omega)
          simp [dif_neg hlast, hc, hnil]
      · rw [if_neg hc]
        simp [Ne.symm hc]
    · next hge =>
      have hnil : (target.take tsize.toNat).drop (tindex + i) = [] := by
        rw [List.drop_eq_nil_iff, List.length_take]
        omega
      rw [hnil]
      simp [hi]

/-- The outer loop finds the key in the bytes from there on. -/
theorem search_eq (hsize : tsize ≤ target.length) (hkey : 0 ∉ key) (hne : key ≠ []) :
    search target tsize (key ++ 0 :: rest) tindex =
      some (if key <:+: (target.take tsize.toNat).drop tindex then 1 else 0) := by
  induction hn : (tsize - tindex).toNat generalizing tindex with
  | zero =>
    have hnil : (target.take tsize.toNat).drop tindex = [] := by
      rw [List.drop_eq_nil_iff, List.length_take]
      omega
    rw [search, if_neg (by omega), hnil, if_neg (by simpa using hne)]
  | succ n ih =>
    have hin : tindex < (target.take tsize.toNat).length := by
      rw [List.length_take]
      omega
    rw [search, if_pos (by omega), matchAt_eq (.inl hsize) hkey (List.length_pos_iff.mpr hne)]
    simp only [Option.bind_eq_bind, Option.bind_some, Nat.add_zero, List.drop_zero,
      decide_eq_true_eq, ih (by omega : (tsize - (tindex + 1 : Nat)).toNat = n)]
    rw [List.drop_eq_getElem_cons hin]
    simp only [List.infix_cons_iff]
    split
    · next hlead => simp only [hlead, true_or, if_true]
    · next hlead => simp only [hlead, false_or]

theorem contstr_eq (hsize : tsize ≤ target.length) (hkey : 0 ∉ key) (hne : key ≠ []) :
    contstr target tsize (key ++ 0 :: rest) =
      some (if key <:+: target.take tsize.toNat then 1 else 0) :=
  search_eq hsize hkey hne

/-- The key is found where it occurs first, before the loops could leave the bytes. -/
theorem search_found (hkey : 0 ∉ key) (hne : key ≠ [])
    (hin : key <:+: (target.take tsize.toNat).drop tindex) :
    search target tsize (key ++ 0 :: rest) tindex = some 1 := by
  have hpos := List.length_pos_iff.mpr hne
  induction hn : (tsize - tindex).toNat generalizing tindex with
  | zero =>
    have hlen := hin.length_le
    rw [List.length_drop, List.length_take] at hlen
    omega
  | succ n ih =>
    -- the key is still ahead, so there are enough bytes for it
    have hroom : tindex + key.length ≤ target.length := by
      have hlen := hin.length_le
      rw [List.length_drop, List.length_take] at hlen
      omega
    have hlt : tindex < (target.take tsize.toNat).length := by
      rw [List.length_take]
      omega
    rw [search, if_pos (by omega), matchAt_eq (.inr hroom) hkey hpos]
    simp only [Option.bind_eq_bind, Option.bind_some, Nat.add_zero, List.drop_zero,
      decide_eq_true_eq]
    split
    · rfl
    · next hlead =>
      rw [List.drop_eq_getElem_cons hlt, List.infix_cons_iff,
        ← List.drop_eq_getElem_cons hlt] at hin
      exact ih (hin.resolve_left hlead) (by omega)

theorem contstr_found (hkey : 0 ∉ key) (hne : key ≠ [])
    (hin : key <:+: target.take tsize.toNat) :
    contstr target tsize (key ++ 0 :: rest) = some 1 :=
  search_found hkey hne hin

/-- The inner loop says so only when the whole key was read. -/
theorem room_of_matchAt (hkey : 0 ∉ key) (hi : i < key.length)
    (h : matchAt target tsize (key ++ 0 :: rest) tindex i = some true) :
    tindex + key.length ≤ target.length := by
  induction hn : key.length - i generalizing i with
  | zero => omega
  | succ n ih =>
    obtain ⟨hget, hnext⟩ := @getElem?_key key rest i hi
    rw [matchAt] at h
    split at h
    · obtain ⟨c, hc, h⟩ := Option.bind_eq_some_iff.mp h
      have hin : tindex + i < target.length := (List.getElem?_eq_some_iff.mp hc).1
      simp only [hget, hnext, Option.bind_eq_bind, Option.bind_some] at h
      split at h
      · by_cases hlast : i + 1 < key.length
        · have hne : key[i + 1] ≠ 0 := fun h => hkey (h ▸ List.getElem_mem hlast)
          simp only [dif_pos hlast, Option.bind_some, if_neg hne] at h
          exact ih hlast h (by omega)
        · omega
      · cases h
    · cases h

/-- A key that is not among the bytes is looked for beyond their end. -/
theorem search_lost (hsize : target.length < tsize) (hkey : 0 ∉ key) (hne : key ≠ [])
    (hin : tindex ≤ target.length) (hnot : ¬ key <:+: target.drop tindex) :
    search target tsize (key ++ 0 :: rest) tindex = none := by
  have hpos := List.length_pos_iff.mpr hne
  have htake : target.take tsize.toNat = target := List.take_of_length_le (by omega)
  induction hn : target.length - tindex generalizing tindex with
  | zero =>
    have hend : target[tindex + 0]? = none := List.getElem?_eq_none (by omega)
    rw [search, if_pos (by omega), matchAt, if_pos (by omega), hend]
    rfl
  | succ n ih =>
    have hlt : tindex < target.length := by omega
    rw [search, if_pos (by omega)]
    cases hmatch : matchAt target tsize (key ++ 0 :: rest) tindex 0 with
    | none => rfl
    | some found =>
      cases found with
      | true =>
        have hlead : matchAt target tsize (key ++ 0 :: rest) tindex 0 = _ :=
          matchAt_eq (.inr (room_of_matchAt hkey hpos hmatch)) hkey hpos
        rw [hmatch, htake] at hlead
        simp only [Nat.add_zero, List.drop_zero, Option.some.injEq] at hlead
        exact absurd (of_decide_eq_true hlead.symm).isInfix hnot
      | false =>
        rw [List.drop_eq_getElem_cons hlt, List.infix_cons_iff] at hnot
        exact ih (by omega) (fun h => hnot (.inr h)) (by omega)

theorem contstr_lost (hsize : target.length < tsize) (hkey : 0 ∉ key) (hne : key ≠ [])
    (hnot : ¬ key <:+: target) : contstr target tsize (key ++ 0 :: rest) = none :=
  search_lost hsize hkey hne (Nat.zero_le _) hnot

end Contstr

/-- `contstr` comes back with 1 or 0, as the key occurs among the first `tsize` bytes or
not; and it does so when there are no other bytes than these, and nothing follows the
terminator of the key. -/
theorem contstr_exact (target : List Byte) (tsize : Int) (hsize : tsize ≤ target.length)
    (key rest : List Byte) (hkey : 0 ∉ key) (hne : key ≠ []) :
    ∃ r, contstr target tsize (key ++ 0 :: rest) = some r ∧
      contstr (target.take tsize.toNat) tsize (key ++ [0]) = some r ∧
      (r = 1 ↔ key <:+: target.take tsize.toNat) ∧
      (r = 0 ↔ ¬ key <:+: target.take tsize.toNat) ∧ (tsize < 0 → r = 0) := by
  have hsize' : tsize ≤ (target.take tsize.toNat).length := by
    rw [List.length_take]
    omega
  refine ⟨_, contstr_eq hsize hkey hne, ?_, ?_, ?_, ?_⟩
  · rw [contstr_eq hsize' hkey hne, List.take_take, Nat.min_self]
  · split <;> simp [*]
  · split <;> simp [*]
  · intro hneg
    rw [Int.toNat_of_nonpos (by omega), List.take_zero, if_neg (by simpa using hne)]

/-- A key that starts again after a partial match, next to a zero byte. -/
theorem contstr_exact_zero_byte :
    contstr [0, 7, 7, 8, 9] 4 ([7, 8] ++ 0 :: []) = some 1 := by
  obtain ⟨r, heq, -, hone, -⟩ :=
    contstr_exact [0, 7, 7, 8, 9] 4 (by decide) [7, 8] [] (by decide) (by decide)
  rw [heq, hone.mpr (by decide)]

/-! ## `new_sys_read` -/

/-- What the original `read` does: it fails, or puts bytes at the front of the buffer. -/
inductive RefRead
  | fails (code : Int)
  | delivers (bytes : List Byte)

def RefRead.code : RefRead → Int
  | .fails code => code
  | .delivers bytes => bytes.length

/-- The buffer afterwards. -/
def RefRead.buf (before : List Byte) : RefRead → List Byte
  | .fails _ => before
  | .delivers bytes => bytes ++ before.drop bytes.length

/-- An error code is negative, and no more is delivered than asked for. -/
def RefRead.Fits (count : Int) : RefRead → Prop
  | .fails code => code < 0
  | .delivers bytes => bytes.length ≤ count

inductive Alert
  | malicious (uid filedescriptor : Nat)
  deriving DecidableEq

def virus : CString := literal "VIRUS"

def newSysRead (uid filedescriptor : Nat) (before : List Byte) (count : Int) (read : RefRead) :
    Option (List Alert × Int) :=
  let code := read.code
  if uid ≥ 1000 ∧ code ≥ 0 then
    (contstr (read.buf before) count (virus ++ [0])).map fun found =>
      (if found ≠ 0 then [.malicious uid filedescriptor] else [], code)
  else some ([], code)

/-- The code of the original `read` is returned, and there is an alert exactly if a user
was delivered the string. -/
def ReflectsDelivered (uid filedescriptor : Nat) (before : List Byte) (count : Int)
    (read : RefRead) : Prop :=
  ∃ log, newSysRead uid filedescriptor before count read = some (log, read.code) ∧
    (Alert.malicious uid filedescriptor ∈ log ↔
      uid ≥ 1000 ∧ ∃ bytes, read = .delivers bytes ∧ virus <:+: bytes)

section Reads

variable {uid filedescriptor : Nat} {before bytes : List Byte} {count : Int}

/-- A read that fails, and one of the system, is not looked at. -/
theorem newSysRead_unseen {read : RefRead} (h : ¬ (uid ≥ 1000 ∧ read.code ≥ 0)) :
    newSysRead uid filedescriptor before count read = some ([], read.code) :=
  if_neg h

/-- A user's read is scanned, up to the number of bytes that were asked for. -/
theorem newSysRead_user (huid : uid ≥ 1000) :
    newSysRead uid filedescriptor before count (.delivers bytes) =
      (contstr (bytes ++ before.drop bytes.length) count (virus ++ [0])).map fun found =>
        (if found ≠ 0 then [Alert.malicious uid filedescriptor] else [], (bytes.length : Int)) :=
  if_pos ⟨huid, Int.natCast_nonneg _⟩

/-- A log that is as it should be, of a user's read. -/
theorem reflectsDelivered_user (huid : uid ≥ 1000) :
    ReflectsDelivered uid filedescriptor before count (.delivers bytes) ↔
      ∃ found, contstr (bytes ++ before.drop bytes.length) count (virus ++ [0]) = some found ∧
        (found ≠ 0 ↔ virus <:+: bytes) := by
  have hlog : ∀ found : Int, Alert.malicious uid filedescriptor ∈
      (if found ≠ 0 then [Alert.malicious uid filedescriptor] else []) ↔ found ≠ 0 := by
    intro found
    split <;> simp [*]
  have hbytes : (uid ≥ 1000 ∧ ∃ bytes', RefRead.delivers bytes = .delivers bytes' ∧
      virus <:+: bytes') ↔ virus <:+: bytes := by simp [huid]
  rw [ReflectsDelivered, hbytes, newSysRead_user huid]
  constructor
  · rintro ⟨log, heq, hiff⟩
    obtain ⟨found, hfound, heq⟩ := Option.map_eq_some_iff.mp heq
    obtain rfl := (Prod.mk.inj heq).1
    exact ⟨found, hfound, (hlog found).symm.trans hiff⟩
  · rintro ⟨found, hfound, hiff⟩
    exact ⟨_, by rw [hfound]; rfl, (hlog found).trans hiff⟩

/-- A user's read is dealt with properly if it delivered the string, or if the scan stays in
the buffer and does not find it there. -/
theorem reflectsDelivered_user_iff (huid : uid ≥ 1000) (hfits : bytes.length ≤ count) :
    ReflectsDelivered uid filedescriptor before count (.delivers bytes) ↔
      virus <:+: bytes ∨ count ≤ ((bytes ++ before.drop bytes.length).length : Nat) ∧
        ¬ virus <:+: (bytes ++ before.drop bytes.length).take count.toNat := by
  have hkey : 0 ∉ virus := by decide
  have hne : virus ≠ [] := by decide
  rw [reflectsDelivered_user huid]
  by_cases hbytes : virus <:+: bytes
  · -- what is delivered is what is scanned first
    have hfront : virus <:+: (bytes ++ before.drop bytes.length).take count.toNat := by
      refine hbytes.trans (List.IsPrefix.isInfix ?_)
      rw [List.prefix_take_iff]
      exact ⟨List.prefix_append _ _, by omega⟩
    exact iff_of_true ⟨1, contstr_found hkey hne hfront, iff_of_true (by decide) hbytes⟩
      (.inl hbytes)
  · rw [or_iff_right hbytes]
    by_cases hscan : virus <:+: (bytes ++ before.drop bytes.length).take count.toNat
    · rw [contstr_found hkey hne hscan]
      simp [hbytes, hscan]
    · by_cases hsize : count ≤ ((bytes ++ before.drop bytes.length).length : Nat)
      · rw [contstr_eq hsize hkey hne, if_neg hscan]
        exact iff_of_true ⟨0, rfl, iff_of_false (by decide) hbytes⟩ ⟨hsize, hscan⟩
      · have hlost := hscan
        rw [List.take_of_length_le (by omega)] at hlost
        rw [contstr_lost (by omega) hkey hne hlost]
        refine iff_of_false ?_ (fun h => hsize h.1)
        rintro ⟨found, hfound, -⟩
        cases hfound

end Reads

/-- Alerts reflect what was delivered exactly if they are not looked for, or what was delivered
has the string, or the scan of the bytes that were asked for stays in the buffer and does not
find the string there. -/
theorem alerts_reflect_delivered_iff (uid filedescriptor : Nat) (before : List Byte) (count : Int)
    (read : RefRead) (hfits : read.Fits count) :
    ReflectsDelivered uid filedescriptor before count read ↔
      (uid < 1000 ∨ (∃ code, read = .fails code) ∨
        ∃ bytes, read = .delivers bytes ∧
          (virus <:+: bytes ∨ count ≤ ((bytes ++ before.drop bytes.length).length : Nat) ∧
            ¬ virus <:+: (bytes ++ before.drop bytes.length).take count.toNat)) := by
  cases read with
  | fails code =>
    have hcode : ¬ (uid ≥ 1000 ∧ code ≥ 0) := fun h => absurd h.2 (Int.not_le.mpr hfits)
    exact iff_of_true ⟨[], newSysRead_unseen hcode, by simp⟩ (.inr (.inl ⟨code, rfl⟩))
  | delivers bytes =>
    by_cases huid : uid < 1000
    · have hsystem : ¬ (uid ≥ 1000 ∧ (RefRead.delivers bytes).code ≥ 0) :=
        fun h => absurd h.1 (Nat.not_le.mpr huid)
      exact iff_of_true ⟨[], newSysRead_unseen hsystem, by simp [Nat.not_le.mpr huid]⟩ (.inl huid)
    · rw [reflectsDelivered_user_iff (Nat.not_lt.mp huid) hfits]
      simp [huid]

theorem alerts_reflect_delivered_iff_first_read :
    ReflectsDelivered 1000 3 (List.replicate 8 0) 8 (.delivers (literal "a VIRUS")) :=
  (alerts_reflect_delivered_iff 1000 3 (List.replicate 8 0) 8
    (.delivers (literal "a VIRUS")) (show (_ : Int) ≤ 8 by decide)).mpr
      (.inr (.inr ⟨_, rfl, .inl (by decide)⟩))

/-- The end of a file that contained the string: nothing is delivered, and the alert comes
a second time. And a buffer that is smaller than the count: the scan leaves it. -/
theorem alert_at_end_of_file :
    newSysRead 1000 3 (literal "a VIRUS") 7 (.delivers []) = some ([.malicious 1000 3], 0) ∧
      ¬ ReflectsDelivered 1000 3 (literal "a VIRUS") 7 (.delivers []) ∧
      newSysRead 1000 3 (literal "a") 8 (.delivers (literal "a")) = none ∧
      ¬ ReflectsDelivered 1000 3 (literal "a") 8 (.delivers (literal "a")) := by
  have hstale : newSysRead 1000 3 (literal "a VIRUS") 7 (.delivers []) =
      some ([.malicious 1000 3], 0) := by
    rw [newSysRead_user (by decide), contstr_found (by decide) (by decide) (by decide)]
    rfl
  have hbeyond : newSysRead 1000 3 (literal "a") 8 (.delivers (literal "a")) = none := by
    rw [newSysRead_user (by decide), contstr_lost (by decide) (by decide) (by decide) (by decide)]
    rfl
  refine ⟨hstale, ?_, hbeyond, ?_⟩
  · rw [reflectsDelivered_user_iff (by decide) (by decide)]
    decide
  · rw [reflectsDelivered_user_iff (by decide) (by decide)]
    decide

end OsProjects.Interceptor
