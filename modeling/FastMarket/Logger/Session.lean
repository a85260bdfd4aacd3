import FastMarket.Logger.Mmap
import FastMarket.Logger.Direct

/-!
# What one session leaves in the file

A session of a new `AsyncLogger`: `start()`, the worker's iterations on the records it dequeues
and on an empty queue, then `stop()`, every system call succeeding. Under `BUFFERED` the file is
the records' images back to back, and a reader that takes each record's width from its tag byte
splits it back into them; under `MMAP` the session never gets past `start()`. Under `DIRECT`
every `flush` that writes rounds its batch up to `ALIGNMENT` with whatever follows the images in
`write_buffer_`, so filler lies between the records of consecutive batches.
-/

namespace FastMarket

set_option autoImplicit false

/-- The environment in which every call succeeds and `::write` takes exactly what it is given. -/
def Env.exact : Env := fun _ n => n

theorem Env.exact_succeeds : Env.exact.Succeeds := fun _ _ => le_rfl

/-- The environment in which call number `c` fails and every other call succeeds in full. -/
def Env.failsAt (c : Nat) : Env := fun c' n => if c' = c then -1 else n

@[simp] theorem Event.records_map_dequeued (msgs : List ParsedMessage) :
    Event.records (msgs.map .dequeued) = msgs := by
  induction msgs with
  | nil => rfl
  | cons m ms ih => exact congrArg (m :: ·) ih

/-- The `AddOrder` record `ITCHParser::parse` returns for 38 bytes of `'A'`. -/
def sampleAddOrder : ParsedMessage := ⟨.addOrder, .addOrder (parseAddOrder fun _ => 0x41), 0⟩

theorem parsed_sampleAddOrder : Parsed sampleAddOrder := ⟨fun _ => 0x41, 38, 0, rfl⟩

/-- A session of a new `BUFFERED` logger, every call succeeding: the file is the dequeued
records' images in order, `total_written_` its length and the sum of the records' widths, and
scanning it by tag widths gives back the images. The file stays under the largest `off_t`. Under
`MMAP` the `mmap` never succeeds: the session ends in `start()` with `"Failed to mmap file"`. -/
theorem session_file_is_images {env : Env} (henv : env.Succeeds) (filename : String)
    (garbage : Nat → BitVec 8) (k : Kernel) (hk : k.ok = true) (es : List Event)
    (hparsed : ∀ msg ∈ Event.records es, Parsed msg)
    (hbudget : (images (Event.records es)).length ≤ maxFileSize) :
    session env es (Logger.new filename .mmap garbage) k = .error (.thrown "Failed to mmap file") ∧
    ∃ s' k', session env es (Logger.new filename .buffered garbage) k = .ok (s', k') ∧ k'.ok = true ∧
      k'.file = images (Event.records es) ∧
      (∀ msg ∈ Event.records es, (serializeMessage msg).length = getMessageSize msg) ∧
      s'.totalWritten.toNat = k'.file.length ∧
      k'.file.length = ((Event.records es).map getMessageSize).sum ∧
      scanLog k'.file.length k'.file = some ((Event.records es).map serializeMessage) := by
  have hlen : ∀ msg ∈ Event.records es, (serializeMessage msg).length = getMessageSize msg :=
    fun msg hm => (hparsed msg hm).length_image
  obtain ⟨s', k', done, hs, hk', hst, hrec⟩ :=
    session_streaming henv (by decide : WriteMode.buffered ≠ .mmap) filename garbage hk hlen
      (by simpa [fileCost] using hbudget)
  have hfile : k'.file = images (Event.records es) := by rw [hst.file_eq_images, hrec]
  refine ⟨by rw [session_mmap rfl rfl, mmapOpenError_of_succeeds henv], s', k', hs, hk', hfile, hlen,
    by rw [hst.total_eq, hrec, hfile], ?_, ?_⟩
  · rw [hfile, length_images hparsed]
  · rw [hfile]; exact scanLog_images hparsed _ le_rfl

theorem session_file_is_images_two_records :
    (∀ msg ∈ Event.records [.dequeued sampleAddOrder, .empty, .dequeued sampleAddOrder], Parsed msg) ∧
    session Env.exact [.dequeued sampleAddOrder, .empty, .dequeued sampleAddOrder]
        (Logger.new "log.bin" .mmap fun _ => 0) ⟨[], 0, none, 0, true, false⟩ =
      .error (.thrown "Failed to mmap file") ∧
    ∃ s' k', session Env.exact [.dequeued sampleAddOrder, .empty, .dequeued sampleAddOrder]
        (Logger.new "log.bin" .buffered fun _ => 0) ⟨[], 0, none, 0, true, false⟩ = .ok (s', k') ∧
      k'.ok = true ∧ k'.file = images [sampleAddOrder, sampleAddOrder] ∧
      (∀ msg ∈ [sampleAddOrder, sampleAddOrder], (serializeMessage msg).length = getMessageSize msg) ∧
      s'.totalWritten.toNat = k'.file.length ∧
      k'.file.length = ([sampleAddOrder, sampleAddOrder].map getMessageSize).sum ∧
      scanLog k'.file.length k'.file = some ([sampleAddOrder, sampleAddOrder].map serializeMessage) :=
  have hparsed : ∀ msg ∈ Event.records [.dequeued sampleAddOrder, .empty, .dequeued sampleAddOrder],
      Parsed msg := fun msg hm => by
    rcases List.mem_pair.1 hm with rfl | rfl <;> exact parsed_sampleAddOrder
  ⟨hparsed, session_file_is_images Env.exact_succeeds "log.bin" (fun _ => 0) ⟨[], 0, none, 0, true, false⟩
    rfl [.dequeued sampleAddOrder, .empty, .dequeued sampleAddOrder] hparsed (by decide)⟩

/-- A session of a new `DIRECT` logger, every call succeeding: the file is the batches of its
flush history, one for each `flush` that wrote (on an empty queue, before a record that would
overflow the buffer, and in `stop()`). Each batch is the images of the records buffered since
the previous one, followed by what `write_buffer_` holds after them up to the next multiple of
`ALIGNMENT`: fewer than 4096 bytes, left by earlier batches or by `posix_memalign`.
`total_written_` counts the images only. -/
theorem direct_session_batches {env : Env} (henv : env.Succeeds) (filename : String)
    (garbage : Nat → BitVec 8) (k : Kernel) (hk : k.ok = true) (es : List Event)
    (hparsed : ∀ msg ∈ Event.records es, Parsed msg)
    (hbudget : 4096 * (images (Event.records es)).length ≤ maxFileSize) :
    ∃ s' k', session env es (Logger.new filename .direct garbage) k = .ok (s', k') ∧ k'.ok = true ∧
      k'.file = directFile garbage (flushGroups [] es) ∧
      (flushGroups [] es).flatten = Event.records es ∧ (∀ g ∈ flushGroups [] es, g ≠ []) ∧
      (∀ b ∈ directBatches garbage (flushGroups [] es),
        b.filler.length < 4096 ∧ b.bytes.length % 4096 = 0) ∧
      s'.totalWritten.toNat = (images (Event.records es)).length := by
  obtain ⟨s', k', done, hs, hk', hst, hrec⟩ :=
    session_streaming henv (by decide : WriteMode.direct ≠ .mmap) filename garbage hk
      (fun msg hm => (hparsed msg hm).length_image) (by simpa [fileCost] using hbudget)
  obtain ⟨s'', k'', hs'', hfile⟩ := session_direct henv filename garbage k hk hparsed hbudget
  rw [hs] at hs''
  cases hs''
  refine ⟨s', k', hs, hk', hfile, by rw [flatten_flushGroups, List.nil_append],
    fun _ => ne_nil_of_mem_flushGroups, fun b hb => ?_, by rw [hst.total_eq, hrec]⟩
  simpa [Batch.Padded] using directBatches_padded garbage _ b hb

theorem direct_session_batches_sample :
    (∀ msg ∈ Event.records [.dequeued sampleAddOrder, .empty, .dequeued sampleAddOrder], Parsed msg) ∧
    ∃ s' k', session Env.exact [.dequeued sampleAddOrder, .empty, .dequeued sampleAddOrder]
        (Logger.new "log.bin" .direct fun _ => 0) ⟨[], 0, none, 0, true, false⟩ = .ok (s', k') ∧
      k'.ok = true ∧
      k'.file = directFile (fun _ => 0)
        (flushGroups [] [.dequeued sampleAddOrder, .empty, .dequeued sampleAddOrder]) ∧
      (flushGroups [] [.dequeued sampleAddOrder, .empty, .dequeued sampleAddOrder]).flatten =
        [sampleAddOrder, sampleAddOrder] ∧
      (∀ g ∈ flushGroups [] [.dequeued sampleAddOrder, .empty, .dequeued sampleAddOrder], g ≠ []) ∧
      (∀ b ∈ directBatches (fun _ => 0)
          (flushGroups [] [.dequeued sampleAddOrder, .empty, .dequeued sampleAddOrder]),
        b.filler.length < 4096 ∧ b.bytes.length % 4096 = 0) ∧
      s'.totalWritten.toNat = (images [sampleAddOrder, sampleAddOrder]).length :=
  have hparsed : ∀ msg ∈ Event.records [.dequeued sampleAddOrder, .empty, .dequeued sampleAddOrder],
      Parsed msg := fun msg hm => by
    rcases List.mem_pair.1 hm with rfl | rfl <;> exact parsed_sampleAddOrder
  ⟨hparsed, direct_session_batches Env.exact_succeeds "log.bin" (fun _ => 0) ⟨[], 0, none, 0, true, false⟩
    rfl [.dequeued sampleAddOrder, .empty, .dequeued sampleAddOrder] hparsed (by decide)⟩

/-- Under `DIRECT`, a flush on an empty queue between two records leaves filler between them:
the file is two `ALIGNMENT` blocks, not the two images and fewer than 4096 bytes after them. -/
theorem direct_filler_between_records :
    ∃ s' k', session Env.exact [.dequeued sampleAddOrder, .empty, .dequeued sampleAddOrder]
        (Logger.new "log.bin" .direct fun _ => 0) ⟨[], 0, none, 0, true, false⟩ = .ok (s', k') ∧
      k'.file.length = 8192 ∧
      ¬ ∃ filler : List (BitVec 8), k'.file = images [sampleAddOrder, sampleAddOrder] ++ filler ∧
        filler.length < 4096 := by
  have henv := Env.exact_succeeds
  have hA : (serializeMessage sampleAddOrder).length = getMessageSize sampleAddOrder := rfl
  have hA38 : getMessageSize sampleAddOrder = 38 := rfl
  have hm : WriteMode.direct ≠ .mmap := by decide
  obtain ⟨s₁, k₁, h₁, hk₁, hs₁⟩ := start_streaming henv (k := ⟨[], 0, none, 0, true, false⟩) hm
    (s := Logger.new "log.bin" .direct fun _ => 0) rfl rfl rfl rfl
  have hfit₁ : s₁.bufferOffset.toNat + getMessageSize sampleAddOrder ≤ 4194304 := by
    rw [hs₁.toNat_offset, hA38]; decide
  have hs₂ := hs₁.copy hA hfit₁
  obtain ⟨s₃, k₃, fill₁, h₃, hk₃, hs₃⟩ := flush_streaming henv hs₂ hk₁ (hs₂.room (by decide))
  have hfit₃ : s₃.bufferOffset.toNat + getMessageSize sampleAddOrder ≤ 4194304 := by
    rw [hs₃.toNat_offset, hA38]; decide
  have hs₄ := hs₃.copy hA hfit₃
  obtain ⟨s₅, k₅, fill₂, h₅, -, hs₅⟩ := stop_streaming henv hs₄ hk₃
    (hs₄.room (by simp [fileCost, hA, hA38, maxFileSize]))
  have hrun : runEvents Env.exact [.dequeued sampleAddOrder, .empty, .dequeued sampleAddOrder] s₁ k₁ =
      .ok (s₃.copyMessage sampleAddOrder, k₃) := by
    rw [runEvents, Event.apply, writeMessage_of_fits (hs₁.mode_eq ▸ hm) hs₁.offset_le hfit₁]
    show runEvents _ [.empty, .dequeued sampleAddOrder] _ k₁ = _
    rw [runEvents, Event.apply, h₃]
    show runEvents _ [.dequeued sampleAddOrder] s₃ k₃ = _
    rw [runEvents, Event.apply, writeMessage_of_fits (hs₃.mode_eq ▸ hm) hs₃.offset_le hfit₃]
    rfl
  have hlen : k₅.file.length = 8192 := by
    have p₁ := hs₅.padded ⟨[sampleAddOrder], fill₁⟩ (by simp)
    have p₂ := hs₅.padded ⟨[sampleAddOrder], fill₂⟩ (by simp)
    simp only [Batch.Padded, if_true, Batch.bytes, images_cons, images_nil, List.append_nil,
      List.length_append, hA, hA38] at p₁ p₂
    simp only [hs₅.file_eq, List.nil_append, List.map_append, List.map_cons, List.map_nil,
      List.flatten_append, List.flatten_cons, List.flatten_nil, Batch.bytes, images_cons, images_nil,
      List.append_nil, List.length_append, hA, hA38]
    omega
  refine ⟨s₅, k₅, ?_, hlen, ?_⟩
  · rw [session, h₁]
    show (runEvents _ _ s₁ k₁).bind _ = _
    rw [hrun]
    exact h₅
  · rintro ⟨filler, hfile, hlt⟩
    have := congrArg List.length hfile
    simp only [images_cons, images_nil, List.append_nil, List.length_append, hA, hA38, hlen] at this
    omega

end FastMarket
