import FastMarket.Logger.Streaming

/-!
# The flush history of a `DIRECT` session

Under `DIRECT` each `flush` that finds records buffered writes `write_buffer_` from offset 0 up
to the next multiple of `ALIGNMENT` past their images: the images, then whatever the buffer holds
after them, left there by earlier batches or by `posix_memalign`. `flushGroups` says which
records each such flush takes and `directBatches` what it writes. Along every run in which every
call succeeds, the file so far followed by what the flushes still to come will write is fixed by
the buffer and the records left (`Direct`), as the bits a writer emitted followed by its partial
byte are.
-/

namespace FastMarket

set_option autoImplicit false

/-- The records a `flush` finds buffered, as a group; with nothing buffered it writes nothing. -/
def pendingGroup (cur : List ParsedMessage) : List (List ParsedMessage) :=
  if cur = [] then [] else [cur]

/-- The records of each `flush` that writes under `DIRECT`, as the spec counts them: those
buffered since the previous flush, cut when the queue is momentarily empty, before a record that
would overflow the 4 MiB buffer, and at `stop()`. `cur` is what is buffered already. -/
def flushGroups (cur : List ParsedMessage) : List Event → List (List ParsedMessage)
  | [] => pendingGroup cur
  | .empty :: es => pendingGroup cur ++ flushGroups [] es
  | .dequeued msg :: es =>
    if 4194304 < (images cur).length + getMessageSize msg then
      pendingGroup cur ++ flushGroups [msg] es
    else flushGroups (cur ++ [msg]) es

/-- `n` rounded up to a multiple of `ALIGNMENT`. -/
def alignedLength (n : Nat) : Nat := (n + 4095) / 4096 * 4096

/-- The batch a `DIRECT` flush of the records `g` writes, `g` copied in over the buffer `buf`:
their images, then what the buffer holds after them up to the next multiple of `ALIGNMENT`. -/
def directBatch (buf : Nat → BitVec 8) (g : List ParsedMessage) : Batch :=
  ⟨g, ((List.range (alignedLength (images g).length)).map (storeBytes buf 0 (images g))).drop
    (images g).length⟩

/-- The batches of the groups `gs`, each copied in over what the ones before it left. -/
def directBatches (buf : Nat → BitVec 8) : List (List ParsedMessage) → List Batch
  | [] => []
  | g :: gs => directBatch buf g :: directBatches (storeBytes buf 0 (images g)) gs

/-- The bytes these batches put in the file. -/
def directFile (buf : Nat → BitVec 8) (gs : List (List ParsedMessage)) : List (BitVec 8) :=
  ((directBatches buf gs).map Batch.bytes).flatten

@[simp] theorem storeBytes_nil (mem : Nat → BitVec 8) (off : Nat) : storeBytes mem off [] = mem := by
  funext i
  simp [storeBytes]

/-- Consecutive copies store the concatenation of their bytes. -/
theorem storeBytes_append (mem : Nat → BitVec 8) (off : Nat) (xs ys : List (BitVec 8)) :
    storeBytes (storeBytes mem off xs) (off + xs.length) ys = storeBytes mem off (xs ++ ys) := by
  funext i
  simp only [storeBytes, List.length_append, List.getD_eq_getElem?_getD]
  by_cases h₁ : off + xs.length ≤ i ∧ i < off + xs.length + ys.length
  · rw [if_pos h₁, if_pos ⟨by omega, by omega⟩, List.getElem?_append_right (by omega), Nat.sub_sub]
  · rw [if_neg h₁]
    by_cases h₂ : off ≤ i ∧ i < off + xs.length
    · rw [if_pos h₂, if_pos ⟨h₂.1, by omega⟩, List.getElem?_append_left (by omega)]
    · rw [if_neg h₂, if_neg (by omega)]

/-- Bytes copied in at offset 0 are the first bytes read back. -/
theorem take_range_storeBytes (buf : Nat → BitVec 8) (bytes : List (BitVec 8)) {m : Nat}
    (h : bytes.length ≤ m) : ((List.range m).map (storeBytes buf 0 bytes)).take bytes.length = bytes := by
  apply List.ext_getElem (by simp [h])
  intro i h₁ _
  simp only [List.length_take, List.length_map, List.length_range] at h₁
  simp only [List.getElem_take, List.getElem_map, List.getElem_range, storeBytes, Nat.zero_le,
    Nat.zero_add, true_and, Nat.sub_zero, if_pos (show i < bytes.length by omega),
    List.getD_eq_getElem _ _ (show i < bytes.length by omega)]

theorem directBatch_bytes (buf : Nat → BitVec 8) (g : List ParsedMessage) :
    (directBatch buf g).bytes =
      (List.range (alignedLength (images g).length)).map (storeBytes buf 0 (images g)) :=
  have hle : (images g).length ≤ alignedLength (images g).length := by unfold alignedLength; omega
  (congrArg (· ++ _) (take_range_storeBytes buf _ hle)).symm.trans (List.take_append_drop _ _)

/-- Every batch is padded as `DIRECT` pads: fewer than `ALIGNMENT` bytes of filler, a multiple of
`ALIGNMENT` in all. -/
theorem directBatches_padded (buf : Nat → BitVec 8) (gs : List (List ParsedMessage)) :
    ∀ b ∈ directBatches buf gs, b.Padded .direct := by
  induction gs generalizing buf with
  | nil => exact fun _ hb => absurd hb (List.not_mem_nil _)
  | cons g gs ih =>
    rintro b (_ | ⟨_, hb⟩)
    · rw [Batch.Padded, if_pos rfl, directBatch_bytes]
      simp only [directBatch, List.length_drop, List.length_map, List.length_range, alignedLength]
      omega
    · exact ih _ b hb

@[simp] theorem allRecords_directBatches (buf : Nat → BitVec 8) (gs : List (List ParsedMessage)) :
    Batch.allRecords (directBatches buf gs) = gs.flatten := by
  induction gs generalizing buf with
  | nil => rfl
  | cons g gs ih =>
    rw [directBatches, ← List.singleton_append, Batch.allRecords_append, Batch.allRecords_singleton, ih]
    rfl

theorem flatten_pendingGroup (cur : List ParsedMessage) : (pendingGroup cur).flatten = cur := by
  unfold pendingGroup; split <;> simp_all

/-- The groups hold the dequeued records, in order. -/
theorem flatten_flushGroups (cur : List ParsedMessage) (es : List Event) :
    (flushGroups cur es).flatten = cur ++ Event.records es := by
  induction es generalizing cur with
  | nil => simp [flushGroups, flatten_pendingGroup, Event.records]
  | cons e es ih =>
    cases e with
    | empty => simp [flushGroups, flatten_pendingGroup, ih, Event.records]
    | dequeued msg =>
      simp only [flushGroups, Event.records]
      split <;> simp [flatten_pendingGroup, ih]

theorem ne_nil_of_mem_pendingGroup {cur g : List ParsedMessage} (hg : g ∈ pendingGroup cur) : g ≠ [] := by
  unfold pendingGroup at hg
  split at hg
  · exact absurd hg (List.not_mem_nil _)
  · rw [List.mem_singleton.1 hg]; assumption

/-- One group for each `flush` that writes: none is empty. -/
theorem ne_nil_of_mem_flushGroups {cur : List ParsedMessage} {es : List Event} {g : List ParsedMessage}
    (hg : g ∈ flushGroups cur es) : g ≠ [] := by
  induction es generalizing cur with
  | nil => exact ne_nil_of_mem_pendingGroup hg
  | cons e es ih =>
    cases e with
    | empty =>
      rw [flushGroups] at hg
      exact (List.mem_append.1 hg).elim ne_nil_of_mem_pendingGroup ih
    | dequeued msg =>
      rw [flushGroups] at hg
      split at hg
      · exact (List.mem_append.1 hg).elim ne_nil_of_mem_pendingGroup ih
      · exact ih hg

/-- A flush of what is buffered, followed by the flushes after it. -/
theorem directFile_pendingGroup_append (buf : Nat → BitVec 8) (cur : List ParsedMessage)
    (gs : List (List ParsedMessage)) :
    directFile buf (pendingGroup cur ++ gs) =
      directFile buf (pendingGroup cur) ++ directFile (storeBytes buf 0 (images cur)) gs := by
  unfold pendingGroup
  split
  · subst cur; simp [directFile, directBatches]
  · simp [directFile, directBatches]

/-- A `DIRECT` logger whose buffer holds the images of the parsed records `cur` copied in over
`prev`, with the descriptor at the end of the file. -/
structure Direct (s : Logger) (k : Kernel) (prev : Nat → BitVec 8) (cur : List ParsedMessage) :
    Prop where
  mode_eq : s.writeMode = .direct
  offset_eq : k.offset = k.file.length
  buffer_eq : s.writeBuffer = storeBytes prev 0 (images cur)
  toNat_offset : s.bufferOffset.toNat = (images cur).length
  fits : (images cur).length ≤ 4194304
  parsed : ∀ msg ∈ cur, Parsed msg

variable {env : Env} {s : Logger} {k : Kernel} {prev : Nat → BitVec 8} {cur : List ParsedMessage}

namespace Direct

theorem offset_le (h : Direct s k prev cur) : s.bufferOffset ≤ bufferSize := by
  rw [BitVec.le_def, toNat_bufferSize, h.toNat_offset]; exact h.fits

theorem not_mmap (h : Direct s k prev cur) : s.writeMode ≠ .mmap := by
  rw [h.mode_eq]; decide

/-- What the next `flush` writes is the batch of the buffered records. -/
theorem bufferPrefix (h : Direct s k prev cur) :
    s.bufferPrefix s.bytesToWrite.toNat = (directBatch prev cur).bytes := by
  rw [toNat_bytesToWrite h.offset_le, if_pos h.mode_eq, directBatch_bytes, Logger.bufferPrefix,
    h.buffer_eq, h.toNat_offset]
  rfl

/-- After a `flush` that emptied the buffer: the buffered images are what the next group is
copied in over. -/
theorem flushed (h : Direct s k prev cur) {s' : Logger} {k' : Kernel} (hm : s'.writeMode = s.writeMode)
    (hb : s'.writeBuffer = s.writeBuffer) (h0 : s'.bufferOffset = 0) (ho : k'.offset = k'.file.length) :
    Direct s' k' (storeBytes prev 0 (images cur)) [] :=
  ⟨hm.trans h.mode_eq, ho, by rw [hb, h.buffer_eq, images_nil, storeBytes_nil], by rw [h0]; rfl,
    by simp, by simp⟩

theorem setRunning (h : Direct s k prev cur) (r : Bool) : Direct { s with running := r } k prev cur :=
  ⟨h.mode_eq, h.offset_eq, h.buffer_eq, h.toNat_offset, h.fits, h.parsed⟩

/-- Copying a parsed record in after the buffered ones. -/
theorem copy (h : Direct s k prev cur) {msg : ParsedMessage} (hp : Parsed msg)
    (hfit : (images cur).length + getMessageSize msg ≤ 4194304) :
    Direct (s.copyMessage msg) k prev (cur ++ [msg]) where
  mode_eq := h.mode_eq
  offset_eq := h.offset_eq
  buffer_eq := by
    show storeBytes s.writeBuffer s.bufferOffset.toNat (serializeMessage msg) = _
    rw [h.buffer_eq, h.toNat_offset, ← Nat.zero_add (images cur).length, storeBytes_append]
    simp
  toNat_offset := by
    rw [toNat_copyMessage_offset (by rw [h.toNat_offset]; exact hfit), h.toNat_offset, ← hp.length_image]
    simp
  fits := by simpa [hp.length_image] using hfit
  parsed m hm := (List.mem_append.1 hm).elim (h.parsed m) fun hm => List.mem_singleton.1 hm ▸ hp

end Direct

/-- Outside `MMAP`, `close_file` leaves the kernel as it is. -/
theorem closeFile_snd (hmode : s.writeMode ≠ .mmap) : (closeFile env s k).2 = k := by
  unfold closeFile
  dsimp only
  rw [if_neg (show ¬ (s.writeMode = .mmap ∧ s.mmapPtr = true) from fun h => hmode h.1)]
  split <;> rfl

section Steps

variable (henv : env.Succeeds)
include henv

/-- A `flush` writes the batch of the buffered records, if there are any. -/
theorem flush_direct (h : Direct s k prev cur) (hk : k.ok = true)
    (hroom : k.file.length + 4096 * (images cur).length ≤ maxFileSize) :
    ∃ s' k', flush env s k = .ok (s', k') ∧ k'.ok = true ∧ s'.running = s.running ∧
      Direct s' k' (storeBytes prev 0 (images cur)) [] ∧
      k'.file = k.file ++ directFile prev (pendingGroup cur) ∧
      k'.file.length ≤ k.file.length + 4096 * (images cur).length := by
  have hnil : s.bufferOffset = 0 ↔ cur = [] := by
    rw [← images_eq_nil_iff h.parsed, ← List.length_eq_zero, ← h.toNat_offset, BitVec.toNat_eq]
    rfl
  unfold flush
  split_ifs with h0 hm hover
  · obtain rfl := hnil.1 h0
    exact ⟨s, k, rfl, hk, rfl, h.flushed rfl rfl h0 h.offset_eq,
      by simp [pendingGroup, directFile, directBatches], by simp⟩
  · exact absurd hm h.not_mmap
  · exact absurd (bytesToWrite_le h.offset_le) (BitVec.not_le.2 hover)
  · have hlen : (s.bufferPrefix s.bytesToWrite.toNat).length = alignedLength (images cur).length := by
      rw [h.bufferPrefix, directBatch_bytes, List.length_map, List.length_range]
    have hn : (images cur).length ≠ 0 := fun h' =>
      h0 (hnil.2 ((images_eq_nil_iff h.parsed).1 (List.length_eq_zero.1 h')))
    have hal : alignedLength (images cur).length ≤ 4096 * (images cur).length := by
      unfold alignedLength; omega
    have hpos : (0 : Int) < ((s.bufferPrefix s.bytesToWrite.toNat).length : Int) := by
      rw [hlen]; unfold alignedLength; omega
    rw [Kernel.write_of_le henv k (s.bufferPrefix s.bytesToWrite.toNat) (by rw [h.offset_eq, hlen]; omega)]
    dsimp only
    rw [if_pos hpos]
    refine ⟨_, _, rfl, hk, rfl, h.flushed rfl rfl rfl (by simp only [h.offset_eq, writeAt_length,
      List.length_append]), ?_, by simp only [h.offset_eq, writeAt_length, List.length_append, hlen]; omega⟩
    show writeAt k.file k.offset _ = _
    rw [h.offset_eq, writeAt_length, h.bufferPrefix, pendingGroup, if_neg (hnil.not.1 h0)]
    simp [directFile, directBatches]

/-- `write_message` copies the record in after the buffered ones, flushing them first as a batch
when the record would overflow the buffer; what the pending flushes write stays what it was. -/
theorem writeMessage_direct (h : Direct s k prev cur) (hk : k.ok = true) {msg : ParsedMessage}
    (hp : Parsed msg) (hroom : k.file.length + 4096 * (images (cur ++ [msg])).length ≤ maxFileSize) :
    ∃ s' k' prev' cur', writeMessage env msg s k = .ok (s', k') ∧ k'.ok = true ∧
      s'.running = s.running ∧ Direct s' k' prev' cur' ∧
      k'.file.length + 4096 * (images cur').length ≤
        k.file.length + 4096 * (images (cur ++ [msg])).length ∧
      ∀ es, k'.file ++ directFile prev' (flushGroups cur' es) =
        k.file ++ directFile prev (flushGroups cur (.dequeued msg :: es)) := by
  have hlen := hp.length_image
  by_cases hfit : (images cur).length + getMessageSize msg ≤ 4194304
  · refine ⟨_, k, prev, cur ++ [msg], writeMessage_of_fits h.not_mmap h.offset_le
      (by rw [h.toNat_offset]; exact hfit), hk, rfl, h.copy hp hfit, le_rfl, fun es => ?_⟩
    rw [flushGroups, if_neg (not_lt.2 hfit)]
  · obtain ⟨s₁, k₁, hf, hk₁, hr₁, h₁, hfile₁, hlen₁⟩ :=
      flush_direct henv h hk (by simp only [images_append, List.length_append] at hroom; omega)
    have hfit₁ : (images []).length + getMessageSize msg ≤ 4194304 := by
      have := getMessageSize_le msg
      simp only [images_nil, List.length_nil]
      omega
    refine ⟨_, k₁, _, [] ++ [msg], writeMessage_of_overflow h.not_mmap h.offset_le
      (by rw [h.toNat_offset]; omega) hf (by rw [h₁.toNat_offset]; exact hfit₁), hk₁,
      hr₁, h₁.copy hp hfit₁, ?_, fun es => ?_⟩
    · simp only [images_append, List.length_append, images_nil, List.length_nil] at hlen₁ ⊢
      omega
    · rw [flushGroups, if_pos (by omega), directFile_pendingGroup_append, hfile₁, List.nil_append,
        List.append_assoc]

/-- A run of the worker: the file so far followed by what the pending flushes write is the file
before it followed by the batches of the flushes the run and `stop()` make. -/
theorem runEvents_direct (h : Direct s k prev cur) (hk : k.ok = true) {es : List Event}
    (hparsed : ∀ msg ∈ Event.records es, Parsed msg)
    (hbudget : k.file.length + 4096 * (images (cur ++ Event.records es)).length ≤ maxFileSize) :
    ∃ s' k' prev' cur', runEvents env es s k = .ok (s', k') ∧ k'.ok = true ∧
      s'.running = s.running ∧ Direct s' k' prev' cur' ∧
      k'.file.length + 4096 * (images cur').length ≤ maxFileSize ∧
      k'.file ++ directFile prev' (pendingGroup cur') = k.file ++ directFile prev (flushGroups cur es) := by
  induction es generalizing s k prev cur with
  | nil => exact ⟨s, k, prev, cur, rfl, hk, rfl, h, by simpa [Event.records] using hbudget, rfl⟩
  | cons e es ih =>
    cases e with
    | dequeued msg =>
      have hp := hparsed msg (List.mem_cons_self _ _)
      obtain ⟨s₁, k₁, prev₁, cur₁, h₁, hk₁, hr₁, hd₁, hb₁, he₁⟩ := writeMessage_direct henv h hk hp
        (by simp only [Event.records, images_append, images_cons, images_nil, List.length_append,
              List.length_nil] at hbudget ⊢
            omega)
      obtain ⟨s', k', prev', cur', h', hk', hr', hd', hb', he'⟩ :=
        ih hd₁ hk₁ (fun m hm => hparsed m (List.mem_cons_of_mem _ hm))
          (by simp only [Event.records, images_append, images_cons, images_nil, List.length_append,
                List.length_nil] at hbudget hb₁ ⊢
              omega)
      exact ⟨s', k', prev', cur', by rw [runEvents, Event.apply, h₁]; exact h', hk', hr'.trans hr₁,
        hd', hb', he'.trans (he₁ es)⟩
    | empty =>
      obtain ⟨s₁, k₁, h₁, hk₁, hr₁, hd₁, hfile₁, hlen₁⟩ := flush_direct henv h hk
        (by simp only [Event.records, images_append, List.length_append] at hbudget; omega)
      obtain ⟨s', k', prev', cur', h', hk', hr', hd', hb', he'⟩ :=
        ih hd₁ hk₁ hparsed
          (by simp only [Event.records, images_append, List.length_append, List.nil_append] at hbudget ⊢
              omega)
      refine ⟨s', k', prev', cur', by rw [runEvents, Event.apply, h₁]; exact h', hk', hr'.trans hr₁,
        hd', hb', ?_⟩
      rw [he', flushGroups, directFile_pendingGroup_append, hfile₁, List.append_assoc]

/-- `start` on a new `DIRECT` logger opens an empty file over `posix_memalign`'s buffer. -/
theorem start_direct (filename : String) (garbage : Nat → BitVec 8) (k : Kernel) :
    ∃ s' k', start env (Logger.new filename .direct garbage) k = .ok (s', k') ∧ k'.ok = k.ok ∧
      s'.running = true ∧ k'.file = [] ∧ Direct s' k' garbage [] := by
  obtain ⟨fd, hfd, ho⟩ := Kernel.open_of_succeeds henv k
  simp only [start, Logger.new_running, openFile, ho, if_neg (show ¬ fd < 0 by omega)]
  exact ⟨_, _, rfl, rfl, rfl, rfl, rfl, rfl, by rw [images_nil, storeBytes_nil]; rfl, rfl, by simp,
    by simp⟩

/-- `stop` flushes the buffered records as the last batch. -/
theorem stop_direct (h : Direct s k prev cur) (hrun : s.running = true) (hk : k.ok = true)
    (hroom : k.file.length + 4096 * (images cur).length ≤ maxFileSize) :
    ∃ s' k', stop env s k = .ok (s', k') ∧ k'.ok = true ∧
      k'.file = k.file ++ directFile prev (pendingGroup cur) := by
  obtain ⟨s₁, k₁, hf, hk₁, -, h₁, hfile₁, -⟩ := flush_direct henv (h.setRunning false) hk hroom
  refine ⟨(closeFile env s₁ k₁).1, (closeFile env s₁ k₁).2, ?_,
    by rw [closeFile_snd h₁.not_mmap]; exact hk₁, by rw [closeFile_snd h₁.not_mmap]; exact hfile₁⟩
  simp only [stop, hrun, Bool.not_true, Bool.false_eq_true, if_false, hf]
  rfl

/-- A session of a new `DIRECT` logger: the file is the batches of its flush history. -/
theorem session_direct (filename : String) (garbage : Nat → BitVec 8) (k : Kernel) (hk : k.ok = true)
    {es : List Event} (hparsed : ∀ msg ∈ Event.records es, Parsed msg)
    (hbudget : 4096 * (images (Event.records es)).length ≤ maxFileSize) :
    ∃ s' k', session env es (Logger.new filename .direct garbage) k = .ok (s', k') ∧
      k'.file = directFile garbage (flushGroups [] es) := by
  obtain ⟨s₁, k₁, h₁, hk₁, hr₁, hf₁, hd₁⟩ := start_direct henv filename garbage k
  obtain ⟨s₂, k₂, prev₂, cur₂, h₂, hk₂, hr₂, hd₂, hb₂, he₂⟩ :=
    runEvents_direct henv hd₁ (hk₁.trans hk) hparsed (by simpa [hf₁] using hbudget)
  obtain ⟨s', k', h', -, hfile'⟩ := stop_direct henv hd₂ (hr₂.trans hr₁) hk₂ hb₂
  refine ⟨s', k', ?_, by rw [hfile', he₂, hf₁, List.nil_append]⟩
  rw [session, h₁]
  show (runEvents env es s₁ k₁).bind _ = _
  rw [h₂]
  exact h'

end Steps

end FastMarket
