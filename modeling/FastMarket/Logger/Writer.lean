import FastMarket.Serialize
import FastMarket.Logger.Kernel

/-!
# The writer of `AsyncLogger`

The members of `AsyncLogger` (`async_logger.hpp`) that the worker thread and `start`/`stop`
run: `open_file`, `close_file`, `flush`, `write_message`, `expand_mmap`. The sizes are `size_t`
words. A `std::runtime_error` ends the run with its message; an access past `write_buffer_`
or past the mapping ends it with a fault.
-/

namespace FastMarket

set_option autoImplicit false

inductive WriteMode
  | mmap
  | direct
  | buffered
  deriving DecidableEq, Repr

/-- `BUFFER_SIZE`: 4 MiB. -/
def bufferSize : BitVec 64 := 4096 * 1024

/-- `ALIGNMENT`: the page size `O_DIRECT` writes are rounded to. -/
def alignment : BitVec 64 := 4096

structure Logger where
  filename : String
  writeMode : WriteMode
  running : Bool
  fd : Int
  mmapPtr : Bool
  mmapSize : BitVec 64
  writeBuffer : Nat → BitVec 8
  bufferOffset : BitVec 64
  totalWritten : BitVec 64

/-- The constructor; `write_buffer_` holds whatever `posix_memalign` handed out. -/
def Logger.new (filename : String) (mode : WriteMode) (garbage : Nat → BitVec 8) : Logger :=
  ⟨filename, mode, false, -1, false, 0, garbage, 0, 0⟩

section New

variable (filename : String) (mode : WriteMode) (garbage : Nat → BitVec 8)

@[simp] theorem Logger.new_writeMode : (Logger.new filename mode garbage).writeMode = mode := rfl
@[simp] theorem Logger.new_running : (Logger.new filename mode garbage).running = false := rfl
@[simp] theorem Logger.new_bufferOffset : (Logger.new filename mode garbage).bufferOffset = 0 := rfl
@[simp] theorem Logger.new_totalWritten : (Logger.new filename mode garbage).totalWritten = 0 := rfl

end New

/-- `mem` with `bytes` copied in from offset `off`. -/
def storeBytes (mem : Nat → BitVec 8) (off : Nat) (bytes : List (BitVec 8)) : Nat → BitVec 8 :=
  fun i => if off ≤ i ∧ i < off + bytes.length then bytes.getD (i - off) 0 else mem i

/-- A copy into `write_buffer_ + buffer_offset_`. -/
def Logger.copyToBuffer (s : Logger) (bytes : List (BitVec 8)) : Except Fault Logger :=
  if bufferSize.toNat < s.bufferOffset.toNat + bytes.length then .error .bufferOverrun
  else .ok { s with writeBuffer := storeBytes s.writeBuffer s.bufferOffset.toNat bytes }

def openFile (env : Env) (s : Logger) (k : Kernel) : Except Fault (Logger × Kernel) :=
  match k.open env with
  | (fd, k) =>
    let s := { s with fd := fd }
    if fd < 0 then .error (.thrown ("Failed to open file: " ++ s.filename))
    else if s.writeMode = .mmap then
      let initialSize : BitVec 64 := 1024 * 1024 * 1024
      match k.ftruncate env initialSize.toNat with
      | (r, k) =>
        if r ≠ 0 then .error (.thrown "Failed to allocate file")
        else
          match k.mmap env initialSize.toNat with
          | (false, _) => .error (.thrown "Failed to mmap file")
          | (true, k) => .ok ({ s with mmapPtr := true, mmapSize := initialSize }, k)
    else .ok (s, k)

/-- `close_file`: under `MMAP`, `msync`, `munmap` and a truncation to `total_written_`, whose
result is not checked. `mmap_ptr_` is left as it is. -/
def closeFile (env : Env) (s : Logger) (k : Kernel) : Logger × Kernel :=
  let k := if s.writeMode = .mmap ∧ s.mmapPtr = true then
      (k.munmap.ftruncate env s.totalWritten.toNat).2
    else k
  if 0 ≤ s.fd then ({ s with fd := -1 }, k) else (s, k)

/-- `(n + ALIGNMENT - 1) & ~(ALIGNMENT - 1)`. -/
def alignUp (n : BitVec 64) : BitVec 64 := (n + alignment - 1) &&& ~~~(alignment - 1)

/-- `bytes_to_write`: `buffer_offset_`, rounded up to `ALIGNMENT` under `DIRECT`. -/
def Logger.bytesToWrite (s : Logger) : BitVec 64 :=
  if s.writeMode = .direct then alignUp s.bufferOffset else s.bufferOffset

/-- The first `n` bytes of `write_buffer_`. -/
def Logger.bufferPrefix (s : Logger) (n : Nat) : List (BitVec 8) := (List.range n).map s.writeBuffer

def flush (env : Env) (s : Logger) (k : Kernel) : Except Fault (Logger × Kernel) :=
  if s.bufferOffset = 0 then .ok (s, k)
  else if s.writeMode = .mmap then .ok ({ s with bufferOffset := 0 }, k)
  -- `::write` reads `bytes_to_write` bytes from `write_buffer_`
  else if bufferSize < s.bytesToWrite then .error .bufferOverrun
  else
    match k.write env (s.bufferPrefix s.bytesToWrite.toNat) with
    | (written, k) =>
      let s := if 0 < written then { s with totalWritten := s.totalWritten + s.bufferOffset } else s
      .ok ({ s with bufferOffset := 0 }, k)

/-- `expand_mmap`: the `ftruncate` to the doubled size is not checked, the new `mmap` is. -/
def expandMmap (env : Env) (s : Logger) (k : Kernel) : Except Fault (Logger × Kernel) :=
  let newSize := s.mmapSize * 2
  let k := (k.munmap.ftruncate env newSize.toNat).2
  match k.mmap env newSize.toNat with
  | (false, _) => .error (.thrown "Failed to expand mmap")
  | (true, k) => .ok ({ s with mmapPtr := true, mmapSize := newSize }, k)

def writeMessage (env : Env) (msg : ParsedMessage) (s : Logger) (k : Kernel) :
    Except Fault (Logger × Kernel) :=
  let msgSize : BitVec 64 := BitVec.ofNat 64 (getMessageSize msg)
  if s.writeMode = .mmap then
    (if s.mmapSize < s.totalWritten + msgSize then expandMmap env s k else .ok (s, k)).bind
      fun (s, k) =>
        -- `serialize_message(mmap_ptr_ + total_written_, msg)`
        (k.store s.totalWritten.toNat (serializeMessage msg)).map fun k =>
          ({ s with totalWritten := s.totalWritten + msgSize }, k)
  else
    (if bufferSize < s.bufferOffset + msgSize then flush env s k else .ok (s, k)).bind
      fun (s, k) =>
        (s.copyToBuffer (serializeMessage msg)).map fun s =>
          ({ s with bufferOffset := s.bufferOffset + msgSize }, k)

def start (env : Env) (s : Logger) (k : Kernel) : Except Fault (Logger × Kernel) :=
  if s.running then .ok (s, k)
  else (openFile env s k).map fun (s, k) => ({ s with running := true }, k)

/-- `stop`, once the worker thread has been joined: the last `flush` and `close_file`. -/
def stop (env : Env) (s : Logger) (k : Kernel) : Except Fault (Logger × Kernel) :=
  if !s.running then .ok (s, k)
  else (flush env { s with running := false } k).map fun (s, k) => closeFile env s k

/-- What an iteration of `worker_loop` finds: a record it dequeued, which it writes, or an
empty queue while `running_`, on which it flushes. The drain loop only dequeues. -/
inductive Event
  | dequeued (msg : ParsedMessage)
  | empty

def Event.apply (env : Env) (s : Logger) (k : Kernel) : Event → Except Fault (Logger × Kernel)
  | .dequeued msg => writeMessage env msg s k
  | .empty => flush env s k

def runEvents (env : Env) : List Event → Logger → Kernel → Except Fault (Logger × Kernel)
  | [], s, k => .ok (s, k)
  | e :: es, s, k => (e.apply env s k).bind fun r => runEvents env es r.1 r.2

/-- `start()`, the worker's iterations, then `stop()`. -/
def session (env : Env) (events : List Event) (s : Logger) (k : Kernel) :
    Except Fault (Logger × Kernel) :=
  (start env s k).bind fun r => (runEvents env events r.1 r.2).bind fun r => stop env r.1 r.2

/-- Sessions one after another on the same logger. -/
def sessions (env : Env) : List (List Event) → Logger → Kernel → Except Fault (Logger × Kernel)
  | [], s, k => .ok (s, k)
  | es :: ss, s, k => (session env es s k).bind fun r => sessions env ss r.1 r.2

/-- The records the worker dequeued, in order. -/
def Event.records : List Event → List ParsedMessage
  | [] => []
  | .dequeued msg :: es => msg :: Event.records es
  | .empty :: es => Event.records es

section Except

variable {α β : Type} {x : Except Fault α} {b : β}

theorem bind_eq_ok {f : α → Except Fault β} (h : x.bind f = .ok b) : ∃ a, x = .ok a ∧ f a = .ok b := by
  cases x with
  | error e => cases h
  | ok a => exact ⟨a, rfl, h⟩

theorem map_eq_ok {f : α → β} (h : x.map f = .ok b) : ∃ a, x = .ok a ∧ f a = b := by
  cases x with
  | error e => cases h
  | ok a => exact ⟨a, rfl, Except.ok.inj h⟩

end Except

section Ok

variable {env : Env} {s s' : Logger} {k k' : Kernel}

theorem ok_of_flush (h : flush env s k = .ok (s', k')) (hok : k'.ok = true) : k.ok = true := by
  unfold flush at h
  split_ifs at h
  · cases h; exact hok
  · cases h; exact hok
  · split at h
    rename_i hw
    simp only [Except.ok.injEq, Prod.mk.injEq] at h
    rw [← h.2] at hok
    exact Kernel.ok_of_write (by rw [hw]; exact hok)

theorem ok_of_expandMmap (h : expandMmap env s k = .ok (s', k')) (hok : k'.ok = true) :
    k.ok = true := by
  unfold expandMmap at h
  dsimp -iota only at h
  split at h
  · cases h
  · rename_i hm
    simp only [Except.ok.injEq, Prod.mk.injEq] at h
    rw [← h.2] at hok
    exact Kernel.ok_of_ftruncate (k := k.munmap) (Kernel.ok_of_mmap (by rw [hm]; exact hok))

theorem ok_of_writeMessage {msg : ParsedMessage} (h : writeMessage env msg s k = .ok (s', k'))
    (hok : k'.ok = true) : k.ok = true := by
  unfold writeMessage at h
  split_ifs at h
  · obtain ⟨⟨s₁, k₁⟩, h₁, h₂⟩ := bind_eq_ok h
    obtain ⟨k₂, h₃, h₄⟩ := map_eq_ok h₂
    cases h₄
    have : k₁.ok = true := by rw [← Kernel.ok_of_store h₃]; exact hok
    split_ifs at h₁
    · exact ok_of_expandMmap h₁ this
    · cases h₁; exact this
  · obtain ⟨⟨s₁, k₁⟩, h₁, h₂⟩ := bind_eq_ok h
    obtain ⟨s₂, -, h₄⟩ := map_eq_ok h₂
    cases h₄
    split_ifs at h₁
    · exact ok_of_flush h₁ hok
    · cases h₁; exact hok

theorem ok_of_apply {e : Event} (h : e.apply env s k = .ok (s', k')) (hok : k'.ok = true) :
    k.ok = true := by
  cases e with
  | dequeued msg => exact ok_of_writeMessage h hok
  | empty => exact ok_of_flush h hok

theorem ok_of_runEvents {es : List Event} (h : runEvents env es s k = .ok (s', k'))
    (hok : k'.ok = true) : k.ok = true := by
  induction es generalizing s k with
  | nil => cases h; exact hok
  | cons e es ih =>
    obtain ⟨⟨s₁, k₁⟩, h₁, h₂⟩ := bind_eq_ok h
    exact ok_of_apply h₁ (ih h₂)

end Ok

section Running

variable {env : Env} {s s' : Logger} {k k' : Kernel}

theorem running_of_start (h : start env s k = .ok (s', k')) : s'.running = true := by
  unfold start at h
  split at h
  · cases h; assumption
  · obtain ⟨_, -, h⟩ := map_eq_ok h
    cases h; rfl

theorem running_of_flush (h : flush env s k = .ok (s', k')) : s'.running = s.running := by
  unfold flush at h
  split_ifs at h
  · cases h; rfl
  · cases h; rfl
  · split at h
    cases h
    split <;> rfl

theorem running_of_expandMmap (h : expandMmap env s k = .ok (s', k')) : s'.running = s.running := by
  unfold expandMmap at h
  dsimp -iota only at h
  split at h
  · cases h
  · cases h; rfl

theorem running_of_writeMessage {msg : ParsedMessage} (h : writeMessage env msg s k = .ok (s', k')) :
    s'.running = s.running := by
  unfold writeMessage at h
  split_ifs at h
  · obtain ⟨⟨s₁, k₁⟩, h₁, h₂⟩ := bind_eq_ok h
    obtain ⟨k₂, -, h₄⟩ := map_eq_ok h₂
    cases h₄
    split_ifs at h₁
    · have := running_of_expandMmap h₁; exact this
    · cases h₁; rfl
  · obtain ⟨⟨s₁, k₁⟩, h₁, h₂⟩ := bind_eq_ok h
    obtain ⟨s₂, h₃, h₄⟩ := map_eq_ok h₂
    cases h₄
    unfold Logger.copyToBuffer at h₃
    split_ifs at h₃
    cases h₃
    split_ifs at h₁
    · have := running_of_flush h₁; exact this
    · cases h₁; rfl

theorem running_of_runEvents {es : List Event} (h : runEvents env es s k = .ok (s', k')) :
    s'.running = s.running := by
  induction es generalizing s k with
  | nil => cases h; rfl
  | cons e es ih =>
    obtain ⟨⟨s₁, k₁⟩, h₁, h₂⟩ := bind_eq_ok h
    rw [ih h₂]
    cases e with
    | dequeued msg => exact running_of_writeMessage h₁
    | empty => exact running_of_flush h₁

theorem flush_setRunning (b : Bool) :
    flush env { s with running := b } k =
      (flush env s k).map fun r => ({ r.1 with running := b }, r.2) := by
  unfold flush
  dsimp only [Logger.bytesToWrite, Logger.bufferPrefix]
  split_ifs <;> rfl

theorem expandMmap_setRunning (b : Bool) :
    expandMmap env { s with running := b } k =
      (expandMmap env s k).map fun r => ({ r.1 with running := b }, r.2) := by
  unfold expandMmap
  dsimp only
  rcases (k.munmap.ftruncate env (s.mmapSize * 2).toNat).2.mmap env (s.mmapSize * 2).toNat with
    ⟨_ | _, k'⟩ <;> rfl

/-- `write_message` does not read `running_`. -/
theorem writeMessage_setRunning (b : Bool) (msg : ParsedMessage) :
    writeMessage env msg { s with running := b } k =
      (writeMessage env msg s k).map fun r => ({ r.1 with running := b }, r.2) := by
  unfold writeMessage
  dsimp only
  split_ifs
  · rw [expandMmap_setRunning]
    rcases expandMmap env s k with _ | ⟨s', k'⟩
    · rfl
    · show Except.map _ _ = Except.map _ (Except.map _ _)
      rcases k'.store s'.totalWritten.toNat (serializeMessage msg) with _ | k'' <;> rfl
  · show Except.map _ _ = Except.map _ (Except.map _ _)
    rcases k.store s.totalWritten.toNat (serializeMessage msg) with _ | k'' <;> rfl
  · rw [flush_setRunning]
    rcases flush env s k with _ | ⟨s', k'⟩
    · rfl
    · show Except.map _ _ = Except.map _ (Except.map _ _)
      unfold Logger.copyToBuffer
      split_ifs <;> rfl
  · show Except.map _ _ = Except.map _ (Except.map _ _)
    unfold Logger.copyToBuffer
    dsimp only
    split_ifs <;> rfl

theorem Event.apply_setRunning (b : Bool) (e : Event) :
    e.apply env { s with running := b } k =
      (e.apply env s k).map fun r => ({ r.1 with running := b }, r.2) := by
  cases e with
  | dequeued msg => exact writeMessage_setRunning b msg
  | empty => exact flush_setRunning b

end Running

/-- What the worker's iterations leave alone: the name, the mode, `running_`, the descriptor and
the mapping fields. -/
structure Logger.Frame (s s' : Logger) : Prop where
  filename : s'.filename = s.filename
  writeMode : s'.writeMode = s.writeMode
  running : s'.running = s.running
  fd : s'.fd = s.fd
  mmapPtr : s'.mmapPtr = s.mmapPtr
  mmapSize : s'.mmapSize = s.mmapSize

section Frame

variable {env : Env} {s s' : Logger} {k k' : Kernel}

theorem Logger.Frame.refl (s : Logger) : s.Frame s := ⟨rfl, rfl, rfl, rfl, rfl, rfl⟩

theorem Logger.Frame.trans {s₁ s₂ s₃ : Logger} (h₁ : s₁.Frame s₂) (h₂ : s₂.Frame s₃) : s₁.Frame s₃ :=
  ⟨h₂.filename.trans h₁.filename, h₂.writeMode.trans h₁.writeMode, h₂.running.trans h₁.running,
    h₂.fd.trans h₁.fd, h₂.mmapPtr.trans h₁.mmapPtr, h₂.mmapSize.trans h₁.mmapSize⟩

theorem frame_of_flush (h : flush env s k = .ok (s', k')) : s.Frame s' := by
  unfold flush at h
  split_ifs at h
  · cases h; exact ⟨rfl, rfl, rfl, rfl, rfl, rfl⟩
  · cases h; exact ⟨rfl, rfl, rfl, rfl, rfl, rfl⟩
  · split at h
    cases h
    split <;> exact ⟨rfl, rfl, rfl, rfl, rfl, rfl⟩

/-- `flush` always empties the buffer. -/
theorem bufferOffset_of_flush (h : flush env s k = .ok (s', k')) : s'.bufferOffset = 0 := by
  unfold flush at h
  split_ifs at h with h0
  · cases h; exact h0
  · cases h; rfl
  · split at h
    cases h
    rfl

theorem frame_of_writeMessage (hmode : s.writeMode ≠ .mmap) {msg : ParsedMessage}
    (h : writeMessage env msg s k = .ok (s', k')) : s.Frame s' := by
  unfold writeMessage at h
  split_ifs at h with hm
  · exact absurd hm hmode
  · obtain ⟨⟨s₁, k₁⟩, h₁, h₂⟩ := bind_eq_ok h
    obtain ⟨s₂, h₃, h₄⟩ := map_eq_ok h₂
    cases h₄
    unfold Logger.copyToBuffer at h₃
    split_ifs at h₃
    cases h₃
    split_ifs at h₁
    · obtain ⟨e₁, e₂, e₃, e₄, e₅, e₆⟩ := frame_of_flush h₁
      exact ⟨e₁, e₂, e₃, e₄, e₅, e₆⟩
    · cases h₁; exact ⟨rfl, rfl, rfl, rfl, rfl, rfl⟩

theorem frame_of_runEvents (hmode : s.writeMode ≠ .mmap) {es : List Event}
    (h : runEvents env es s k = .ok (s', k')) : s.Frame s' := by
  induction es generalizing s k with
  | nil => cases h; exact .refl _
  | cons e es ih =>
    obtain ⟨⟨s₁, k₁⟩, h₁, h₂⟩ := bind_eq_ok h
    have hf₁ : s.Frame s₁ := by
      cases e with
      | dequeued msg => exact frame_of_writeMessage hmode h₁
      | empty => exact frame_of_flush h₁
    exact hf₁.trans (ih (hf₁.writeMode ▸ hmode) h₂)

/-- `start` outside `MMAP`, on a logger that is not running: `::open`, and nothing else. -/
theorem start_not_running (hmode : s.writeMode ≠ .mmap) (hrun : s.running = false) :
    start env s k = if (k.open env).1 < 0 then .error (.thrown ("Failed to open file: " ++ s.filename))
      else .ok ({ s with fd := (k.open env).1, running := true }, (k.open env).2) := by
  rw [start, hrun, if_neg Bool.false_ne_true, openFile]
  rcases k.open env with ⟨fd, k'⟩
  by_cases hfd : fd < 0
  · simp only [if_pos hfd]
    rfl
  · simp only [if_neg hfd, hmode, if_false]
    rfl

/-- Outside `MMAP`, `close_file` closes an open descriptor and nothing else. -/
theorem closeFile_of_fd (hmode : s.writeMode ≠ .mmap) (hfd : 0 ≤ s.fd) :
    closeFile env s k = ({ s with fd := -1 }, k) := by
  simp [closeFile, hmode, hfd]

end Frame

/-- One more event after a run. -/
theorem runEvents_snoc {env : Env} {s l : Logger} {k k' : Kernel} {es : List Event} {e : Event}
    {r : Logger × Kernel} (h : runEvents env es s k = .ok (l, k')) (he : e.apply env l k' = .ok r) :
    runEvents env (es ++ [e]) s k = .ok r := by
  induction es generalizing s k with
  | nil =>
    cases h
    show (e.apply env _ _).bind _ = _
    rw [he]; rfl
  | cons e' es ih =>
    obtain ⟨⟨s₁, k₁⟩, h₁, h₂⟩ := bind_eq_ok h
    show (e'.apply env s k).bind _ = _
    rw [h₁]; exact ih h₂

@[simp] theorem Event.records_append (es es' : List Event) :
    Event.records (es ++ es') = Event.records es ++ Event.records es' := by
  induction es with
  | nil => rfl
  | cons e es ih => cases e <;> simp [Event.records, ih]

@[simp] theorem toNat_bufferSize : bufferSize.toNat = 4194304 := rfl

/-- Clearing the low twelve bits of a word rounds it down to a multiple of `4096`. -/
theorem and_not_4095 {x : Nat} (hx : x < 2 ^ 64) : x &&& (2 ^ 64 - 1 - 4095) = x / 4096 * 4096 := by
  apply Nat.eq_of_testBit_eq
  intro j
  rw [Nat.testBit_and, show 2 ^ 64 - 1 - 4095 = 2 ^ 12 * (2 ^ 52 - 1) from rfl,
    Nat.mul_comm (x / 4096), show 4096 = 2 ^ 12 from rfl, Nat.testBit_mul_pow_two,
    Nat.testBit_mul_pow_two, Nat.testBit_two_pow_sub_one, ← Nat.shiftRight_eq_div_pow,
    Nat.testBit_shiftRight]
  by_cases h12 : 12 ≤ j
  · by_cases h64 : j < 64
    · simp [h12, show j - 12 < 52 by omega, show 12 + (j - 12) = j by omega]
    · have : x.testBit j = false :=
        Nat.testBit_lt_two_pow (lt_of_lt_of_le hx (Nat.pow_le_pow_right (by decide) (by omega)))
      simp [h12, show ¬ j - 12 < 52 by omega, show 12 + (j - 12) = j by omega, this]
  · simp [h12]

/-- `alignUp` rounds up to a multiple of `ALIGNMENT` while the sum does not wrap. -/
theorem toNat_alignUp {n : BitVec 64} (h : n.toNat + 4095 < 2 ^ 64) :
    (alignUp n).toNat = (n.toNat + 4095) / 4096 * 4096 := by
  have e : (n + alignment - 1).toNat = n.toNat + 4095 := by
    simp only [BitVec.toNat_sub, BitVec.toNat_add]
    have : alignment.toNat = 4096 := rfl
    have : (1 : BitVec 64).toNat = 1 := rfl
    omega
  rw [alignUp, BitVec.toNat_and, BitVec.toNat_not, e, show (alignment - 1).toNat = 4095 from rfl,
    and_not_4095 h]

theorem alignUp_le_bufferSize {n : BitVec 64} (h : n ≤ bufferSize) : alignUp n ≤ bufferSize := by
  rw [BitVec.le_def] at h ⊢
  rw [toNat_alignUp (by simp at h; omega)]
  simp at h ⊢
  omega

end FastMarket
