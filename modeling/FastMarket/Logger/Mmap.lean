import FastMarket.Logger.Records

/-!
# `MMAP` never starts

`open_file` opens the file `O_WRONLY` and, under `MMAP`, sizes it to 1 GiB and asks for a
`MAP_SHARED` mapping with `PROT_WRITE` of that descriptor. A shared writable mapping needs a
descriptor open for reading and writing, so `mmap` fails with `EACCES` whatever else holds and
`open_file` throws. `start()` of an `MMAP` logger that is not running therefore throws, before
`running_` is set and before the worker thread exists: the mapping, `write_message`'s stores
through it, `expand_mmap` and `close_file`'s truncation are never reached.
-/

namespace FastMarket

set_option autoImplicit false

/-- What `open_file` throws under `MMAP`, by the first of its calls that fails: `::open`, the
`ftruncate` to 1 GiB, and otherwise the `mmap`. -/
def mmapOpenError (env : Env) (filename : String) (calls : Nat) : String :=
  if env calls 0 < 0 then "Failed to open file: " ++ filename
  else if env (calls + 1) (2 ^ 30) < 0 then "Failed to allocate file"
  else "Failed to mmap file"

/-- When every call the environment answers succeeds, only the `mmap` fails. -/
theorem mmapOpenError_of_succeeds {env : Env} (henv : env.Succeeds) (filename : String) (calls : Nat) :
    mmapOpenError env filename calls = "Failed to mmap file" := by
  have h₀ := henv calls 0
  have h₁ := henv (calls + 1) (2 ^ 30)
  rw [mmapOpenError, if_neg (by omega), if_neg (by omega)]

/-- `open_file`'s `initial_size`, 1 GiB. -/
theorem toNat_initialSize : (1024 * 1024 * 1024 : BitVec 64).toNat = 2 ^ 30 := by decide

variable {env : Env} {s : Logger} {k : Kernel}

/-- `open_file` under `MMAP` throws, whatever the environment answers. -/
theorem openFile_mmap (hmode : s.writeMode = .mmap) :
    openFile env s k = .error (.thrown (mmapOpenError env s.filename k.calls)) := by
  by_cases h₀ : env k.calls 0 < 0
  · simp only [openFile, Kernel.open, if_pos h₀, mmapOpenError]
    rfl
  have ho : k.open env = (env k.calls 0,
      { k with file := [], offset := 0, calls := k.calls + 1, writeOnly := true }) := if_neg h₀
  rw [openFile, ho]
  dsimp only
  rw [if_neg h₀, if_pos hmode, toNat_initialSize, mmapOpenError, if_neg h₀]
  dsimp only [Kernel.ftruncate]
  by_cases h₁ : env (k.calls + 1) (2 ^ 30) < 0
  · have hf : maxFileSize < 2 ^ 30 ∨ env (k.calls + 1) (2 ^ 30) < 0 := .inr h₁
    rw [if_pos hf, if_pos h₁]
    rfl
  · have hf : ¬ (maxFileSize < 2 ^ 30 ∨ env (k.calls + 1) (2 ^ 30) < 0) := by
      unfold maxFileSize; omega
    rw [if_neg hf, if_neg h₁]
    dsimp only
    rw [if_neg (not_not.2 rfl), Kernel.mmap_of_writeOnly rfl]

/-- `start` on an `MMAP` logger that is not running throws what `open_file` throws. -/
theorem start_mmap (hmode : s.writeMode = .mmap) (hrun : s.running = false) :
    start env s k = .error (.thrown (mmapOpenError env s.filename k.calls)) := by
  rw [start, hrun, if_neg Bool.false_ne_true, openFile_mmap hmode]
  rfl

/-- A session of an `MMAP` logger that is not running ends at `start()`. -/
theorem session_mmap (hmode : s.writeMode = .mmap) (hrun : s.running = false) (es : List Event) :
    session env es s k = .error (.thrown (mmapOpenError env s.filename k.calls)) := by
  rw [session, start_mmap hmode hrun]
  rfl

end FastMarket
