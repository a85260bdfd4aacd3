import FastMarket.Logger.Buffer
import FastMarket.Logger.Records

/-!
# Sessions under `BUFFERED` and `DIRECT`

Each `flush` appends to the file what `write_buffer_` holds: the images of the records written
since the previous flush and, under `DIRECT`, the bytes after them up to the next multiple of
`ALIGNMENT`. A session's file is the sequence of these batches. The invariant `Streaming` holds
along every run in which every system call succeeds, as long as the file stays under the
largest `off_t`.
-/

namespace FastMarket

set_option autoImplicit false

/-- What one `flush` put in the file: the images of its records, then filler. -/
structure Batch where
  records : List ParsedMessage
  filler : List (BitVec 8)

def Batch.bytes (b : Batch) : List (BitVec 8) := images b.records ++ b.filler

/-- The filler of a batch: none under `BUFFERED`; under `DIRECT`, fewer than `ALIGNMENT` bytes
that make the batch a multiple of it. -/
def Batch.Padded (mode : WriteMode) (b : Batch) : Prop :=
  if mode = .direct then b.filler.length < 4096 ∧ b.bytes.length % 4096 = 0 else b.filler = []

/-- The records of batches, in order. -/
def Batch.allRecords (bs : List Batch) : List ParsedMessage := (bs.map Batch.records).flatten

@[simp] theorem Batch.allRecords_nil : Batch.allRecords [] = [] := rfl

@[simp] theorem Batch.allRecords_append (bs cs : List Batch) :
    Batch.allRecords (bs ++ cs) = Batch.allRecords bs ++ Batch.allRecords cs := by
  simp [Batch.allRecords]

@[simp] theorem Batch.allRecords_singleton (b : Batch) : Batch.allRecords [b] = b.records := by
  simp [Batch.allRecords]

/-- A bound on the bytes that flushing records with `n` bytes of images puts in the file:
`n` itself, and under `DIRECT` at most an `ALIGNMENT` block for each byte. -/
def fileCost (mode : WriteMode) (n : Nat) : Nat := if mode = .direct then 4096 * n else n

theorem fileCost_add (mode : WriteMode) (m n : Nat) :
    fileCost mode (m + n) = fileCost mode m + fileCost mode n := by
  unfold fileCost; split <;> omega

theorem fileCost_mono (mode : WriteMode) {m n : Nat} (h : m ≤ n) : fileCost mode m ≤ fileCost mode n := by
  unfold fileCost; split <;> omega

theorem Batch.length_bytes_le {mode : WriteMode} {b : Batch} (hb : b.Padded mode) :
    b.bytes.length ≤ fileCost mode (images b.records).length := by
  unfold Batch.Padded at hb
  unfold fileCost
  simp only [Batch.bytes, List.length_append] at hb ⊢
  split at hb
  · rw [if_pos ‹_›]; omega
  · rw [if_neg ‹_›, hb, List.length_nil, Nat.add_zero]

theorem length_flatten_bytes_le {mode : WriteMode} {bs : List Batch} (hbs : ∀ b ∈ bs, b.Padded mode) :
    (bs.map Batch.bytes).flatten.length ≤ fileCost mode (images (Batch.allRecords bs)).length := by
  induction bs with
  | nil => simp [fileCost]
  | cons b bs ih =>
    have hb := Batch.length_bytes_le (hbs b (List.mem_cons_self _ _))
    have := ih fun c hc => hbs c (List.mem_cons_of_mem _ hc)
    simp only [List.map_cons, List.flatten_cons, List.length_append, Batch.allRecords,
      images_append, fileCost_add] at hb this ⊢
    omega

@[simp] theorem Logger.length_bufferPrefix (s : Logger) (n : Nat) : (s.bufferPrefix n).length = n := by
  simp [Logger.bufferPrefix]

theorem Logger.take_bufferPrefix (s : Logger) {m n : Nat} (h : m ≤ n) :
    (s.bufferPrefix n).take m = s.bufferPrefix m := by
  rw [Logger.bufferPrefix, ← List.map_take, List.take_range, Nat.min_eq_left h]; rfl

/-- Copying `bytes` in at offset `off` extends the first `off` bytes by them. -/
theorem bufferPrefix_storeBytes {s s' : Logger} {off : Nat} {bytes : List (BitVec 8)}
    (hbuf : s'.writeBuffer = storeBytes s.writeBuffer off bytes) :
    s'.bufferPrefix (off + bytes.length) = s.bufferPrefix off ++ bytes := by
  apply List.ext_getElem (by simp)
  intro i h₁ h₂
  simp only [Logger.length_bufferPrefix] at h₁
  simp only [Logger.bufferPrefix, List.getElem_map, List.getElem_range, hbuf, storeBytes,
    List.getElem_append, List.length_map, List.length_range]
  by_cases hi : i < off
  · rw [dif_pos hi, if_neg (by omega)]
  · rw [dif_neg hi, if_pos ⟨by omega, h₁⟩, List.getD_eq_getElem]

/-- Copying a record in after buffered images appends its image, and stays inside the buffer. -/
theorem pending_copyMessage {s : Logger} {cur : List ParsedMessage} {msg : ParsedMessage}
    (hcur : s.bufferPrefix s.bufferOffset.toNat = images cur)
    (hlen : (serializeMessage msg).length = getMessageSize msg)
    (hfit : s.bufferOffset.toNat + getMessageSize msg ≤ 4194304) :
    (s.copyMessage msg).bufferPrefix (s.copyMessage msg).bufferOffset.toNat = images (cur ++ [msg]) ∧
      (s.copyMessage msg).bufferOffset ≤ bufferSize :=
  ⟨by rw [toNat_copyMessage_offset hfit, ← hlen, bufferPrefix_storeBytes rfl, hcur, images_append,
      images_cons, images_nil, List.append_nil],
    by rw [BitVec.le_def, toNat_copyMessage_offset hfit, toNat_bufferSize]; exact hfit⟩

/-- The length `flush` writes: the offset, rounded up to `ALIGNMENT` under `DIRECT`. -/
theorem toNat_bytesToWrite {s : Logger} (hoff : s.bufferOffset ≤ bufferSize) :
    s.bytesToWrite.toNat =
      if s.writeMode = .direct then (s.bufferOffset.toNat + 4095) / 4096 * 4096
      else s.bufferOffset.toNat := by
  rw [BitVec.le_def, toNat_bufferSize] at hoff
  unfold Logger.bytesToWrite
  split
  · exact toNat_alignUp (by omega)
  · rfl

theorem bytesToWrite_le_fileCost {s : Logger} (hoff : s.bufferOffset ≤ bufferSize) :
    s.bytesToWrite.toNat ≤ fileCost s.writeMode s.bufferOffset.toNat := by
  rw [toNat_bytesToWrite hoff, fileCost]
  split <;> omega

theorem le_bytesToWrite {s : Logger} (hoff : s.bufferOffset ≤ bufferSize) :
    s.bufferOffset.toNat ≤ s.bytesToWrite.toNat := by
  rw [toNat_bytesToWrite hoff]
  split <;> omega

/-- The batch a `flush` writes: the images in the buffer, then what lies after them up to the
length written. -/
theorem padded_bufferPrefix {s : Logger} (hoff : s.bufferOffset ≤ bufferSize) (cur : List ParsedMessage)
    (hcur : s.bufferPrefix s.bufferOffset.toNat = images cur) :
    Batch.Padded s.writeMode ⟨cur, (s.bufferPrefix s.bytesToWrite.toNat).drop s.bufferOffset.toNat⟩ ∧
      images cur ++ (s.bufferPrefix s.bytesToWrite.toNat).drop s.bufferOffset.toNat =
        s.bufferPrefix s.bytesToWrite.toNat := by
  have hsplit : images cur ++ (s.bufferPrefix s.bytesToWrite.toNat).drop s.bufferOffset.toNat =
      s.bufferPrefix s.bytesToWrite.toNat := by
    rw [← hcur, ← Logger.take_bufferPrefix s (le_bytesToWrite hoff), List.take_append_drop]
  refine ⟨?_, hsplit⟩
  have hn := toNat_bytesToWrite hoff
  unfold Batch.Padded
  simp only [Batch.bytes, hsplit, List.length_drop, Logger.length_bufferPrefix]
  split
  · rw [if_pos ‹_›] at hn; omega
  · rw [if_neg ‹_›] at hn
    rw [hn]; exact List.drop_eq_nil_of_le (Logger.length_bufferPrefix s _).le

/-- A `BUFFERED` or `DIRECT` logger with `running_ = r`: the file holds the flushed batches and
the buffer the images of the records written since. -/
structure Streaming (mode : WriteMode) (r : Bool) (s : Logger) (k : Kernel) (done : List Batch)
    (cur : List ParsedMessage) : Prop where
  not_mmap : mode ≠ .mmap
  mode_eq : s.writeMode = mode
  running : s.running = r
  file_eq : k.file = (done.map Batch.bytes).flatten
  offset_eq : k.offset = k.file.length
  pending_eq : s.bufferPrefix s.bufferOffset.toNat = images cur
  offset_le : s.bufferOffset ≤ bufferSize
  total_eq : s.totalWritten.toNat = (images (Batch.allRecords done)).length
  padded : ∀ b ∈ done, b.Padded mode

variable {env : Env} {mode : WriteMode} {r : Bool} {s : Logger} {k : Kernel} {done : List Batch}
  {cur : List ParsedMessage}

namespace Streaming

theorem length_file_le (h : Streaming mode r s k done cur) :
    k.file.length ≤ fileCost mode (images (Batch.allRecords done)).length := by
  rw [h.file_eq]; exact length_flatten_bytes_le h.padded

theorem total_le_file (h : Streaming mode r s k done cur) : s.totalWritten.toNat ≤ k.file.length := by
  rw [h.total_eq, h.file_eq]
  clear h
  induction done with
  | nil => exact le_rfl
  | cons b bs ih =>
    simp only [Batch.allRecords, List.map_cons, List.flatten_cons, images_append,
      List.length_append, Batch.bytes] at ih ⊢
    omega

/-- Under the budget, the next `flush` fits under the largest file. -/
theorem room (h : Streaming mode r s k done cur)
    (hbudget : fileCost mode (images (Batch.allRecords done ++ cur)).length ≤ maxFileSize) :
    k.file.length + s.bytesToWrite.toNat ≤ maxFileSize := by
  have h₁ := h.length_file_le
  have h₂ := bytesToWrite_le_fileCost h.offset_le
  have h₃ : s.bufferOffset.toNat = (images cur).length := by
    rw [← h.pending_eq, Logger.length_bufferPrefix]
  rw [images_append, List.length_append, fileCost_add] at hbudget
  rw [h.mode_eq, h₃] at h₂
  omega

/-- What a `flush` that emptied the buffer into the file does to the invariant. -/
theorem append_batch (h : Streaming mode r s k done cur) {s' : Logger} {k' : Kernel}
    {fill : List (BitVec 8)} (hmode : s'.writeMode = s.writeMode) (hrun : s'.running = s.running)
    (hfile : k'.file = k.file ++ (images cur ++ fill)) (hoff : k'.offset = k'.file.length)
    (h0 : s'.bufferOffset = 0)
    (htotal : s'.totalWritten.toNat = s.totalWritten.toNat + (images cur).length)
    (hpad : Batch.Padded mode ⟨cur, fill⟩) :
    Streaming mode r s' k' (done ++ [⟨cur, fill⟩]) [] where
  not_mmap := h.not_mmap
  mode_eq := hmode.trans h.mode_eq
  running := hrun.trans h.running
  file_eq := by simp [hfile, h.file_eq, Batch.bytes]
  offset_eq := hoff
  pending_eq := by rw [h0]; rfl
  offset_le := by rw [h0]; exact BitVec.le_def.2 (Nat.zero_le _)
  total_eq := by simp [htotal, h.total_eq]
  padded b hb := by
    rcases List.mem_append.1 hb with hb | hb
    · exact h.padded b hb
    · rw [List.mem_singleton.1 hb]; exact hpad

/-- Under `BUFFERED` the file is the images of the flushed records. -/
theorem file_eq_images (h : Streaming .buffered r s k done cur) :
    k.file = images (Batch.allRecords done) := by
  rw [h.file_eq, Batch.allRecords]
  have hpad := h.padded
  clear h
  induction done with
  | nil => rfl
  | cons b bs ih =>
    have hb : b.filler = [] := hpad b (List.mem_cons_self _ _)
    simp [Batch.bytes, hb, ih fun c hc => hpad c (List.mem_cons_of_mem _ hc)]

theorem toNat_offset (h : Streaming mode r s k done cur) : s.bufferOffset.toNat = (images cur).length := by
  rw [← h.pending_eq, Logger.length_bufferPrefix]

/-- Copying a record's image in after the buffered ones. -/
theorem copy (h : Streaming mode r s k done cur) {msg : ParsedMessage}
    (hlen : (serializeMessage msg).length = getMessageSize msg)
    (hfit : s.bufferOffset.toNat + getMessageSize msg ≤ 4194304) :
    Streaming mode r (s.copyMessage msg) k done (cur ++ [msg]) :=
  { h with
    pending_eq := (pending_copyMessage h.pending_eq hlen hfit).1
    offset_le := (pending_copyMessage h.pending_eq hlen hfit).2 }

theorem setRunning (h : Streaming mode r s k done cur) (r' : Bool) :
    Streaming mode r' { s with running := r' } k done cur :=
  { h with running := rfl }

/-- Outside `MMAP`, `close_file` only closes the descriptor. -/
theorem closeFile (env : Env) (h : Streaming mode r s k done cur) :
    Streaming mode r (FastMarket.closeFile env s k).1 (FastMarket.closeFile env s k).2 done cur ∧
      (FastMarket.closeFile env s k).2 = k := by
  have hm : ¬ (s.writeMode = .mmap ∧ s.mmapPtr = true) := fun hm => h.not_mmap (h.mode_eq ▸ hm.1)
  unfold FastMarket.closeFile
  dsimp only
  rw [if_neg hm]
  split
  · exact ⟨{ h with }, rfl⟩
  · exact ⟨h, rfl⟩

end Streaming

/-- The logger with `total_written_` moved on by `t`. Outside `MMAP` the writer adds to
`total_written_` and never reads it: each operation on a logger whose count is moved on by `t`
does what it does on the logger itself, the result's count moved on by `t`. -/
def Logger.addTotal (s : Logger) (t : BitVec 64) : Logger :=
  { s with totalWritten := s.totalWritten + t }

section AddTotal

variable (t : BitVec 64)

@[simp] theorem Logger.addTotal_writeMode : (s.addTotal t).writeMode = s.writeMode := rfl
@[simp] theorem Logger.addTotal_running : (s.addTotal t).running = s.running := rfl
@[simp] theorem Logger.addTotal_bufferOffset : (s.addTotal t).bufferOffset = s.bufferOffset := rfl
@[simp] theorem Logger.addTotal_totalWritten : (s.addTotal t).totalWritten = s.totalWritten + t := rfl
@[simp] theorem Logger.addTotal_bytesToWrite : (s.addTotal t).bytesToWrite = s.bytesToWrite := rfl
@[simp] theorem Logger.addTotal_fd : (s.addTotal t).fd = s.fd := rfl
@[simp] theorem Logger.addTotal_mmapPtr : (s.addTotal t).mmapPtr = s.mmapPtr := rfl
@[simp] theorem Logger.addTotal_bufferPrefix (n : Nat) : (s.addTotal t).bufferPrefix n = s.bufferPrefix n := rfl

theorem Logger.addTotal_zero : s.addTotal 0 = s := by
  simp [Logger.addTotal]

/-- `flush` adds to `total_written_` and never reads it. -/
theorem flush_addTotal :
    flush env (s.addTotal t) k = (flush env s k).map fun r => (r.1.addTotal t, r.2) := by
  unfold flush
  simp only [Logger.addTotal_bufferOffset, Logger.addTotal_writeMode, Logger.addTotal_bytesToWrite,
    Logger.addTotal_bufferPrefix]
  split_ifs
  · rfl
  · rfl
  · rfl
  · simp only [Except.map, Logger.addTotal, add_right_comm]
  · rfl

theorem copyToBuffer_addTotal (bytes : List (BitVec 8)) :
    (s.addTotal t).copyToBuffer bytes = (s.copyToBuffer bytes).map (·.addTotal t) := by
  simp only [Logger.copyToBuffer, Logger.addTotal_bufferOffset]
  split_ifs <;> rfl

/-- Outside `MMAP`, `write_message` never reads `total_written_`. -/
theorem writeMessage_addTotal (hmode : s.writeMode ≠ .mmap) (msg : ParsedMessage) :
    writeMessage env msg (s.addTotal t) k = (writeMessage env msg s k).map fun r => (r.1.addTotal t, r.2) := by
  unfold writeMessage
  simp only [Logger.addTotal_writeMode, Logger.addTotal_bufferOffset, if_neg hmode]
  split_ifs
  · rw [flush_addTotal]
    rcases flush env s k with _ | ⟨s', k'⟩
    · rfl
    · show Except.map _ ((s'.addTotal t).copyToBuffer _) = Except.map _ (Except.map _ _)
      rw [copyToBuffer_addTotal]
      rcases s'.copyToBuffer (serializeMessage msg) with _ | s'' <;> rfl
  · show Except.map _ ((s.addTotal t).copyToBuffer _) = Except.map _ (Except.map _ _)
    rw [copyToBuffer_addTotal]
    rcases s.copyToBuffer (serializeMessage msg) with _ | s'' <;> rfl

theorem Event.apply_addTotal (hmode : s.writeMode ≠ .mmap) (e : Event) :
    e.apply env (s.addTotal t) k = (e.apply env s k).map fun r => (r.1.addTotal t, r.2) := by
  cases e with
  | dequeued msg => exact writeMessage_addTotal t hmode msg
  | empty => exact flush_addTotal t

theorem runEvents_addTotal (hmode : s.writeMode ≠ .mmap) (hoff : s.bufferOffset ≤ bufferSize)
    (es : List Event) :
    runEvents env es (s.addTotal t) k = (runEvents env es s k).map fun r => (r.1.addTotal t, r.2) := by
  induction es generalizing s k with
  | nil => rfl
  | cons e es ih =>
    obtain ⟨s₁, k₁, h₁, hoff₁, hm₁⟩ := Event.apply_in_bounds env k hmode hoff e
    show (e.apply env _ _).bind _ = Except.map _ ((e.apply env _ _).bind _)
    rw [Event.apply_addTotal t hmode, h₁]
    exact ih (hm₁ ▸ hmode) hoff₁

theorem openFile_addTotal (hmode : s.writeMode ≠ .mmap) :
    openFile env (s.addTotal t) k = (openFile env s k).map fun r => (r.1.addTotal t, r.2) := by
  unfold openFile
  rcases k.open env with ⟨fd, k'⟩
  dsimp only
  split_ifs <;> first | rfl | exact absurd ‹_› hmode

theorem closeFile_addTotal (hmode : s.writeMode ≠ .mmap) :
    closeFile env (s.addTotal t) k = ((closeFile env s k).1.addTotal t, (closeFile env s k).2) := by
  have hm : ¬ (s.writeMode = .mmap ∧ s.mmapPtr = true) := fun h => hmode h.1
  unfold closeFile
  simp only [Logger.addTotal_writeMode, Logger.addTotal_mmapPtr, Logger.addTotal_fd, if_neg hm]
  split_ifs <;> rfl

theorem start_addTotal (hmode : s.writeMode ≠ .mmap) :
    start env (s.addTotal t) k = (start env s k).map fun r => (r.1.addTotal t, r.2) := by
  unfold start
  simp only [Logger.addTotal_running]
  split_ifs
  · rfl
  · rw [openFile_addTotal t hmode]
    rcases openFile env s k with _ | ⟨s', k'⟩ <;> rfl

theorem stop_addTotal (hmode : s.writeMode ≠ .mmap) (hoff : s.bufferOffset ≤ bufferSize) :
    stop env (s.addTotal t) k = (stop env s k).map fun r => (r.1.addTotal t, r.2) := by
  unfold stop
  simp only [Logger.addTotal_running]
  split_ifs
  · rfl
  · obtain ⟨s', k', hf, -, hm'⟩ := flush_in_bounds env k (s := { s with running := false }) hoff
    rw [show ({ s.addTotal t with running := false } : Logger) = { s with running := false }.addTotal t
      from rfl, flush_addTotal, hf]
    exact congrArg Except.ok (closeFile_addTotal t (hm' ▸ hmode))

/-- A session does on a logger whose count is moved on by `t` what it does on the logger itself,
whatever the kernel answers. -/
theorem session_addTotal (hmode : s.writeMode ≠ .mmap) (hrun : s.running = false)
    (hoff : s.bufferOffset ≤ bufferSize) (es : List Event) :
    session env es (s.addTotal t) k = (session env es s k).map fun r => (r.1.addTotal t, r.2) := by
  rw [session, session, start_addTotal t hmode, start_not_running hmode hrun]
  split_ifs
  · rfl
  · obtain ⟨s₂, k₂, h₂, hoff₂, hm₂⟩ := runEvents_in_bounds env (k.open env).2
      (s := { s with fd := (k.open env).1, running := true }) hmode hoff es
    show (runEvents env es (Logger.addTotal { s with fd := _, running := true } t) _).bind _ =
      ((runEvents env es _ _).bind _).map _
    rw [runEvents_addTotal t (s := { s with fd := (k.open env).1, running := true }) hmode hoff, h₂]
    exact stop_addTotal t (hm₂ ▸ hmode) hoff₂

end AddTotal

theorem budget_of_append {mode : WriteMode} {xs ys : List ParsedMessage} (h : fileCost mode (images (xs ++ ys)).length ≤ maxFileSize) :
    fileCost mode (images xs).length ≤ maxFileSize :=
  (fileCost_mono mode (by simp)).trans h

section Steps

variable (henv : env.Succeeds)
include henv

/-- A `flush` with room in the file empties the buffer into it as one batch. -/
theorem flush_streaming (h : Streaming mode r s k done cur) (hk : k.ok = true)
    (hroom : k.file.length + s.bytesToWrite.toNat ≤ maxFileSize) :
    ∃ s' k' fill, flush env s k = .ok (s', k') ∧ k'.ok = true ∧
      Streaming mode r s' k' (done ++ [⟨cur, fill⟩]) [] := by
  have hcur := h.pending_eq
  unfold flush
  split_ifs with h0 hm hover
  · refine ⟨s, k, [], rfl, hk, h.append_batch rfl rfl ?_ h.offset_eq h0 ?_ ?_⟩
    all_goals have hnil : images cur = [] := by rw [← hcur, h0]; rfl
    · simp [hnil]
    · simp [hnil]
    · unfold Batch.Padded; split <;> simp [Batch.bytes, hnil]
  · exact absurd (h.mode_eq.symm.trans hm) h.not_mmap
  · exact absurd (bytesToWrite_le h.offset_le) (BitVec.not_le.2 hover)
  · have hwrite := Kernel.write_of_le henv k (s.bufferPrefix s.bytesToWrite.toNat)
      (by rw [h.offset_eq, Logger.length_bufferPrefix]; exact hroom)
    have hpos : (0 : Int) < ((s.bufferPrefix s.bytesToWrite.toNat).length : Int) := by
      have := le_bytesToWrite h.offset_le
      have : s.bufferOffset.toNat ≠ 0 := fun h' => h0 (BitVec.eq_of_toNat_eq h')
      simp only [Logger.length_bufferPrefix]; omega
    obtain ⟨hpad, hsplit⟩ := padded_bufferPrefix h.offset_le cur hcur
    rw [hwrite]
    dsimp only
    rw [if_pos hpos]
    refine ⟨_, _, _, rfl, hk, h.append_batch rfl rfl ?_ ?_ rfl ?_ (h.mode_eq ▸ hpad)⟩
    · rw [hsplit, h.offset_eq, writeAt_length]
    · simp [h.offset_eq, writeAt_length]
    · have hoff : s.bufferOffset.toNat = (images cur).length := by
        rw [← hcur, Logger.length_bufferPrefix]
      have htot := h.total_le_file
      have hbuf := BitVec.le_def.1 h.offset_le
      rw [toNat_bufferSize] at hbuf
      rw [BitVec.toNat_add, Nat.mod_eq_of_lt (by unfold maxFileSize at hroom; omega), hoff]

/-- `write_message` copies the record's image after the buffered ones, flushing first when the
buffer has no room for it. -/
theorem writeMessage_streaming (h : Streaming mode r s k done cur) (hk : k.ok = true)
    (hroom : k.file.length + s.bytesToWrite.toNat ≤ maxFileSize) {msg : ParsedMessage}
    (hlen : (serializeMessage msg).length = getMessageSize msg) :
    ∃ s' k' done' cur', writeMessage env msg s k = .ok (s', k') ∧ k'.ok = true ∧
      Streaming mode r s' k' done' cur' ∧
      Batch.allRecords done' ++ cur' = Batch.allRecords done ++ cur ++ [msg] := by
  have hm : s.writeMode ≠ .mmap := h.mode_eq ▸ h.not_mmap
  by_cases hfit : s.bufferOffset.toNat + getMessageSize msg ≤ 4194304
  · exact ⟨_, k, done, cur ++ [msg], writeMessage_of_fits hm h.offset_le hfit, hk, h.copy hlen hfit,
      by rw [List.append_assoc]⟩
  · obtain ⟨s₁, k₁, fill, hf, hk₁, hs₁⟩ := flush_streaming henv h hk hroom
    have hfit₁ : s₁.bufferOffset.toNat + getMessageSize msg ≤ 4194304 := by
      rw [hs₁.toNat_offset, images_nil, List.length_nil]; have := getMessageSize_le msg; omega
    exact ⟨_, k₁, _, [msg], writeMessage_of_overflow hm h.offset_le (by omega) hf hfit₁, hk₁,
      hs₁.copy hlen hfit₁, by simp⟩

/-- A run of the worker keeps the invariant while the file stays under the budget. -/
theorem runEvents_streaming {es : List Event} (h : Streaming mode r s k done cur) (hk : k.ok = true)
    (hlen : ∀ msg ∈ Event.records es, (serializeMessage msg).length = getMessageSize msg)
    (hbudget : fileCost mode (images (Batch.allRecords done ++ cur ++ Event.records es)).length ≤
      maxFileSize) :
    ∃ s' k' done' cur', runEvents env es s k = .ok (s', k') ∧ k'.ok = true ∧
      Streaming mode r s' k' done' cur' ∧
      Batch.allRecords done' ++ cur' = Batch.allRecords done ++ cur ++ Event.records es := by
  induction es generalizing s k done cur with
  | nil => exact ⟨s, k, done, cur, rfl, hk, h, by simp [Event.records]⟩
  | cons e es ih =>
    have hroom := h.room (budget_of_append hbudget)
    cases e with
    | dequeued msg =>
      obtain ⟨s₁, k₁, done₁, cur₁, h₁, hk₁, hs₁, hrec⟩ :=
        writeMessage_streaming henv h hk hroom (hlen msg (List.mem_cons_self _ _))
      obtain ⟨s', k', done', cur', h', hk', hs', hrec'⟩ :=
        ih hs₁ hk₁ (fun m hm => hlen m (List.mem_cons_of_mem _ hm))
          (by rw [hrec]; simpa [Event.records] using hbudget)
      refine ⟨s', k', done', cur', by rw [runEvents, Event.apply, h₁]; exact h', hk', hs', ?_⟩
      rw [hrec', hrec]; simp [Event.records]
    | empty =>
      obtain ⟨s₁, k₁, fill, h₁, hk₁, hs₁⟩ := flush_streaming henv h hk hroom
      obtain ⟨s', k', done', cur', h', hk', hs', hrec'⟩ :=
        ih hs₁ hk₁ hlen (by simpa [Event.records] using hbudget)
      refine ⟨s', k', done', cur', by rw [runEvents, Event.apply, h₁]; exact h', hk', hs', ?_⟩
      rw [hrec']; simp [Event.records]

/-- `start` on a logger that is not running opens an empty file. -/
theorem start_streaming (hmode : mode ≠ .mmap) (hs : s.writeMode = mode) (hrun : s.running = false)
    (h0 : s.bufferOffset = 0) (ht : s.totalWritten = 0) :
    ∃ s' k', start env s k = .ok (s', k') ∧ k'.ok = k.ok ∧ Streaming mode true s' k' [] [] := by
  obtain ⟨fd, hfd, ho⟩ := Kernel.open_of_succeeds henv k
  have hm : s.writeMode ≠ .mmap := hs ▸ hmode
  simp only [start, hrun, openFile, ho, if_neg (show ¬ fd < 0 by omega), if_neg hm]
  refine ⟨_, _, rfl, rfl, hmode, hs, rfl, rfl, rfl, ?_, ?_, ?_, fun _ hb => absurd hb (List.not_mem_nil _)⟩
  · show s.bufferPrefix s.bufferOffset.toNat = _; rw [h0]; rfl
  · show s.bufferOffset ≤ _; rw [h0]; exact BitVec.le_def.2 (Nat.zero_le _)
  · show s.totalWritten.toNat = _; rw [ht]; rfl

/-- `stop` flushes what the buffer holds as the last batch. -/
theorem stop_streaming (h : Streaming mode true s k done cur) (hk : k.ok = true)
    (hroom : k.file.length + s.bytesToWrite.toNat ≤ maxFileSize) :
    ∃ s' k' fill, stop env s k = .ok (s', k') ∧ k'.ok = true ∧
      Streaming mode false s' k' (done ++ [⟨cur, fill⟩]) [] := by
  obtain ⟨s₁, k₁, fill, hf, hk₁, hs₁⟩ := flush_streaming henv (h.setRunning false) hk hroom
  obtain ⟨hs', hk'⟩ := hs₁.closeFile env
  refine ⟨(closeFile env s₁ k₁).1, (closeFile env s₁ k₁).2, fill, ?_, by rw [hk']; exact hk₁, hs'⟩
  simp only [stop, h.running, Bool.not_true, Bool.false_eq_true, if_false, hf]
  rfl

/-- A session of a `BUFFERED` or `DIRECT` logger that is not running, with nothing buffered and
`total_written_ = t`: the file holds batches, one for each `flush` that wrote, whose records are
the dequeued ones in order, and the session counts from `t` what it counts from `0`. -/
theorem session_streaming_addTotal (hmode : mode ≠ .mmap) (hs : s.writeMode = mode)
    (hrun : s.running = false) (h0 : s.bufferOffset = 0) (ht : s.totalWritten = 0) (t : BitVec 64)
    {es : List Event} (hk : k.ok = true)
    (hlen : ∀ msg ∈ Event.records es, (serializeMessage msg).length = getMessageSize msg)
    (hbudget : fileCost mode (images (Event.records es)).length ≤ maxFileSize) :
    ∃ s' k' done, session env es (s.addTotal t) k = .ok (s'.addTotal t, k') ∧
      k'.ok = true ∧ Streaming mode false s' k' done [] ∧ Batch.allRecords done = Event.records es := by
  obtain ⟨s₁, k₁, h₁, hk₁, hs₁⟩ := start_streaming henv (k := k) hmode hs hrun h0 ht
  obtain ⟨s₂, k₂, done₂, cur₂, h₂, hk₂, hs₂, hrec₂⟩ :=
    runEvents_streaming henv hs₁ (hk₁.trans hk) hlen (by simpa using hbudget)
  simp only [Batch.allRecords_nil, List.nil_append] at hrec₂
  obtain ⟨s', k', fill, h', hk', hs'⟩ := stop_streaming henv hs₂ hk₂ (hs₂.room (by rw [hrec₂]; exact hbudget))
  refine ⟨s', k', _, ?_, hk', hs', by simp [hrec₂]⟩
  rw [session, start_addTotal t (hs ▸ hmode), h₁]
  show (runEvents env es (s₁.addTotal t) k₁).bind _ = _
  rw [runEvents_addTotal t (hs₁.mode_eq ▸ hmode) hs₁.offset_le, h₂]
  show stop env (s₂.addTotal t) k₂ = _
  rw [stop_addTotal t (hs₂.mode_eq ▸ hmode) hs₂.offset_le, h']
  rfl

/-- A session of a new `BUFFERED` or `DIRECT` logger: the file holds batches, one for each
`flush` that wrote, whose records are the dequeued ones in order. -/
theorem session_streaming (hmode : mode ≠ .mmap) (filename : String) (garbage : Nat → BitVec 8)
    {es : List Event} (hk : k.ok = true)
    (hlen : ∀ msg ∈ Event.records es, (serializeMessage msg).length = getMessageSize msg)
    (hbudget : fileCost mode (images (Event.records es)).length ≤ maxFileSize) :
    ∃ s' k' done, session env es (Logger.new filename mode garbage) k = .ok (s', k') ∧
      k'.ok = true ∧ Streaming mode false s' k' done [] ∧ Batch.allRecords done = Event.records es := by
  obtain ⟨s', k', done, h, hrest⟩ :=
    session_streaming_addTotal henv (s := Logger.new filename mode garbage) hmode rfl rfl rfl rfl 0 hk hlen
      hbudget
  rw [Logger.addTotal_zero, Logger.addTotal_zero] at h
  exact ⟨s', k', done, h, hrest⟩

end Steps

end FastMarket
