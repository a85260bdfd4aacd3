import Mathlib

/-!
# The kernel under the logger

What `AsyncLogger` asks of the operating system (`async_logger.hpp`): `::open` with
`O_WRONLY | O_CREAT | O_TRUNC`, `ftruncate`, a shared writable `mmap` of the file and stores
through it, `::write` at the descriptor's offset, and `munmap`. The environment answers each
call, by its number in the run and the size it asks for. The kernel itself refuses sizes that no
`off_t` holds, and, as Linux does with `EACCES`, a `MAP_SHARED` mapping with `PROT_WRITE` of a
descriptor opened write-only. The ghost flag `ok` records whether every call so far succeeded in
full.
-/

namespace FastMarket

set_option autoImplicit false

/-- The value each system call returns, by call number and requested size. -/
def Env := Nat → Nat → Int

/-- An environment in which every call succeeds and `::write` takes all it is given. -/
def Env.Succeeds (env : Env) : Prop := ∀ c n : Nat, (n : Int) ≤ env c n

/-- The largest `off_t`, hence the largest file. -/
def maxFileSize : Nat := 2 ^ 63 - 1

/-- How a run of the logger ends other than by returning. -/
inductive Fault
  | thrown (what : String)
  | bufferOverrun
  | mappingOverrun
  | busError
  deriving DecidableEq, Repr

structure Kernel where
  file : List (BitVec 8)
  offset : Nat
  mapping : Option Nat
  calls : Nat
  ok : Bool
  /-- The descriptor `::open` returned was opened `O_WRONLY`. -/
  writeOnly : Bool

/-- `file` with `bytes` stored from offset `off`, a gap before it read as zero bytes. -/
def writeAt (file : List (BitVec 8)) (off : Nat) (bytes : List (BitVec 8)) : List (BitVec 8) :=
  (file ++ List.replicate (off - file.length) 0).take off ++ bytes ++ file.drop (off + bytes.length)

/-- The contents `ftruncate` leaves: cut at `n`, or extended by zero bytes. -/
def resize (file : List (BitVec 8)) (n : Nat) : List (BitVec 8) :=
  file.take n ++ List.replicate (n - file.length) 0

/-- Bytes stored at the end of the file are appended. -/
theorem writeAt_length (file bytes : List (BitVec 8)) :
    writeAt file file.length bytes = file ++ bytes := by
  simp [writeAt]

/-- Bytes stored right after a prefix `p`, inside the zero bytes that follow it. -/
theorem writeAt_zeros (p bytes : List (BitVec 8)) (m : Nat) :
    writeAt (p ++ List.replicate m 0) p.length bytes =
      p ++ bytes ++ List.replicate (m - bytes.length) 0 := by
  simp only [writeAt, List.length_append, List.length_replicate]
  rw [show p.length - (p.length + m) = 0 by omega, List.replicate_zero, List.append_nil,
    List.take_left' rfl, Nat.add_comm, List.drop_append_eq_append_drop]
  simp [List.drop_replicate, Nat.sub_eq_zero_of_le (Nat.le_add_right p.length bytes.length)]

/-- Truncating or extending a prefix followed by zero bytes, at least as long as the prefix. -/
theorem resize_zeros (p : List (BitVec 8)) (m : Nat) {n : Nat} (h : p.length ≤ n) :
    resize (p ++ List.replicate m 0) n = p ++ List.replicate (n - p.length) 0 := by
  simp only [resize, List.take_append_eq_append_take, List.take_replicate, List.length_append,
    List.length_replicate, List.take_of_length_le h, List.append_assoc,
    List.append_replicate_replicate]
  congr 2
  omega

theorem resize_nil (n : Nat) : resize [] n = List.replicate n 0 := by
  simp [resize]

namespace Kernel

/-- `::open(name, O_WRONLY | O_CREAT | O_TRUNC, 0644)`: a write-only descriptor, or `-1`. -/
def «open» (env : Env) (k : Kernel) : Int × Kernel :=
  if env k.calls 0 < 0 then (-1, { k with calls := k.calls + 1, ok := false })
  else (env k.calls 0, { k with file := [], offset := 0, calls := k.calls + 1, writeOnly := true })

/-- `ftruncate(fd, n)`: `0`, or `-1`; a size past `off_t` always fails. -/
def ftruncate (env : Env) (k : Kernel) (n : Nat) : Int × Kernel :=
  if maxFileSize < n ∨ env k.calls n < 0 then (-1, { k with calls := k.calls + 1, ok := false })
  else (0, { k with file := resize k.file n, calls := k.calls + 1 })

/-- `mmap(nullptr, n, PROT_WRITE, MAP_SHARED, fd, 0)`: whether it did not return `MAP_FAILED`.
A shared writable mapping needs a descriptor open for reading and writing. -/
def mmap (env : Env) (k : Kernel) (n : Nat) : Bool × Kernel :=
  if k.writeOnly ∨ n = 0 ∨ maxFileSize < n ∨ env k.calls n < 0 then
    (false, { k with calls := k.calls + 1, ok := false })
  else (true, { k with mapping := some n, calls := k.calls + 1 })

def munmap (k : Kernel) : Kernel := { k with mapping := none }

/-- `::write(fd, buf, bytes.length)` at the descriptor's offset: the count taken, or `-1`. -/
def write (env : Env) (k : Kernel) (bytes : List (BitVec 8)) : Int × Kernel :=
  let room := maxFileSize - k.offset
  if env k.calls bytes.length < 0 ∨ (room = 0 ∧ bytes ≠ []) then
    (-1, { k with calls := k.calls + 1, ok := false })
  else
    let w := min (min (env k.calls bytes.length).toNat bytes.length) room
    (w, { k with file := writeAt k.file k.offset (bytes.take w), offset := k.offset + w,
                 calls := k.calls + 1, ok := k.ok && w == bytes.length })

/-- A store through the mapping at offset `off`. -/
def store (k : Kernel) (off : Nat) (bytes : List (BitVec 8)) : Except Fault Kernel :=
  match k.mapping with
  | some len =>
    if len < off + bytes.length then .error .mappingOverrun
    else if k.file.length < off + bytes.length then .error .busError
    else .ok { k with file := writeAt k.file off bytes }
  | none => .error .mappingOverrun

section Succeeds

variable {env : Env} (henv : env.Succeeds) (k : Kernel)
include henv

theorem open_of_succeeds :
    ∃ fd, 0 ≤ fd ∧
      k.open env = (fd, { k with file := [], offset := 0, calls := k.calls + 1, writeOnly := true }) :=
  have h0 : ¬ env k.calls 0 < 0 := by have := henv k.calls 0; omega
  ⟨env k.calls 0, by omega, by rw [Kernel.open, if_neg h0]⟩

theorem ftruncate_of_le {n : Nat} (hn : n ≤ maxFileSize) :
    k.ftruncate env n = (0, { k with file := resize k.file n, calls := k.calls + 1 }) :=
  if_neg fun h => h.elim (by omega) fun h' => by have := henv k.calls n; omega

/-- A write that fits under the largest file takes all its bytes. -/
theorem write_of_le (bytes : List (BitVec 8)) (hroom : k.offset + bytes.length ≤ maxFileSize) :
    k.write env bytes = ((bytes.length : Int),
      { k with file := writeAt k.file k.offset bytes, offset := k.offset + bytes.length,
               calls := k.calls + 1 }) := by
  have h := henv k.calls bytes.length
  have hw : min (min (env k.calls bytes.length).toNat bytes.length) (maxFileSize - k.offset) =
      bytes.length := by omega
  have hcond : ¬ (env k.calls bytes.length < 0 ∨ (maxFileSize - k.offset = 0 ∧ bytes ≠ [])) := by
    rintro (h' | ⟨h', hb⟩)
    · omega
    · exact hb (List.length_eq_zero.1 (by omega))
  rw [write, if_neg hcond]
  simp only [hw, List.take_length, beq_self_eq_true, Bool.and_true]

end Succeeds

/-- `mmap` of the write-only descriptor fails, whatever the environment answers. -/
theorem mmap_of_writeOnly {env : Env} {k : Kernel} (h : k.writeOnly = true) (n : Nat) :
    k.mmap env n = (false, { k with calls := k.calls + 1, ok := false }) := by
  rw [mmap, if_pos (.inl h)]

section Ok

variable {env : Env} {k : Kernel}

theorem ok_of_open (h : (k.open env).2.ok = true) : k.ok = true := by
  unfold Kernel.open at h; split at h <;> simp_all

theorem ok_of_ftruncate {n : Nat} (h : (k.ftruncate env n).2.ok = true) : k.ok = true := by
  unfold ftruncate at h; split at h <;> simp_all

theorem ok_of_mmap {n : Nat} (h : (k.mmap env n).2.ok = true) : k.ok = true := by
  unfold mmap at h; split at h <;> simp_all

/-- A write after which every call has still succeeded took all its bytes. -/
theorem write_of_ok {bytes : List (BitVec 8)} (h : (k.write env bytes).2.ok = true) :
    k.write env bytes = ((bytes.length : Int),
      { k with file := writeAt k.file k.offset bytes, offset := k.offset + bytes.length,
               calls := k.calls + 1 }) ∧
    k.ok = true ∧ bytes.length ≤ maxFileSize - k.offset := by
  unfold write at h ⊢
  dsimp only at h ⊢
  split at h
  · simp at h
  · rename_i hc
    simp only [Bool.and_eq_true, beq_iff_eq] at h
    obtain ⟨hk, hw⟩ := h
    refine ⟨?_, hk, by omega⟩
    rw [if_neg hc]
    simp only [hw, List.take_length, hk, Bool.true_and, beq_self_eq_true]

theorem ok_of_write {bytes : List (BitVec 8)} (h : (k.write env bytes).2.ok = true) : k.ok = true :=
  (write_of_ok h).2.1

theorem ok_of_store {off : Nat} {bytes : List (BitVec 8)} {k' : Kernel}
    (h : k.store off bytes = .ok k') : k'.ok = k.ok := by
  unfold store at h
  split at h
  · split_ifs at h
    cases h
    rfl
  · cases h

end Ok

end Kernel

end FastMarket
