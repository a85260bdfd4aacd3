import FastMarket.Logger.Session

/-!
# Short writes under `BUFFERED`

`::write` may take fewer bytes than it is given. `flush` (`async_logger.hpp`) only tests
`written > 0`: it adds the whole `buffer_offset_` to `total_written_` and empties the buffer
whatever the count, so after a short write `total_written_` runs ahead of the file, and the
file ends inside a record's image.

Whatever the kernel answers once `::open` has succeeded, a `BUFFERED` session still runs
without a fault, and `Lossy` says what it leaves: a prefix of each flush's images, one after
another, with `total_written_` counting in full each flush whose `::write` returned a positive
count. A failed write drops its records; a short one keeps part of one.
-/

namespace FastMarket

set_option autoImplicit false

/-- The environment in which call number `c`, a `::write`, takes `w` bytes and every other
call succeeds in full. -/
def Env.shortAt (c w : Nat) : Env := fun c' n => if c' = c then w else n

/-- A `::write` that the environment lets take `w` of its bytes, `w` at most their number, with
room in the file: the first `w` bytes land at the offset. -/
theorem Kernel.write_eq_take {env : Env} {k : Kernel} {bytes : List (BitVec 8)} {w : Nat}
    (hw : env k.calls bytes.length = w) (hwn : w ≤ bytes.length)
    (hroom : k.offset + bytes.length ≤ maxFileSize) :
    k.write env bytes = ((w : Int),
      { k with file := writeAt k.file k.offset (bytes.take w), offset := k.offset + w,
               calls := k.calls + 1, ok := k.ok && w == bytes.length }) := by
  have hmin : min (min (env k.calls bytes.length).toNat bytes.length) (maxFileSize - k.offset) = w := by
    rw [hw]; omega
  have hcond : ¬ (env k.calls bytes.length < 0 ∨ (maxFileSize - k.offset = 0 ∧ bytes ≠ [])) := by
    rintro (h | ⟨h, hb⟩)
    · omega
    · exact hb (List.length_eq_zero.1 (by omega))
  rw [Kernel.write, if_neg hcond]
  simp only [hmin]

/-- Whatever the environment answers, a `::write` at the end of the file appends the first `w`
of its bytes, `w` the count it returns, or nothing when it returns `-1`. -/
theorem Kernel.write_append {env : Env} {k : Kernel} (hoff : k.offset = k.file.length)
    (bytes : List (BitVec 8)) :
    (k.write env bytes).1 ≤ bytes.length ∧
      (k.write env bytes).2.file = k.file ++ bytes.take (k.write env bytes).1.toNat ∧
      (k.write env bytes).2.offset = (k.write env bytes).2.file.length := by
  by_cases hc : env k.calls bytes.length < 0 ∨ (maxFileSize - k.offset = 0 ∧ bytes ≠ [])
  · rw [Kernel.write, if_pos hc]
    exact ⟨by omega, by simp, hoff⟩
  · rw [Kernel.write, if_neg hc]
    dsimp only
    refine ⟨by omega, by rw [hoff, writeAt_length, Int.toNat_ofNat], ?_⟩
    simp only [hoff, writeAt_length, List.length_append, List.length_take]
    omega

/-- `start` on a new logger whose `::open` returns a descriptor. -/
theorem start_new {env : Env} {k : Kernel} (filename : String) (mode : WriteMode)
    (garbage : Nat → BitVec 8) (hopen : 0 ≤ env k.calls 0) (hmode : mode ≠ .mmap) :
    start env (Logger.new filename mode garbage) k =
      .ok ({ Logger.new filename mode garbage with fd := env k.calls 0, running := true },
        { k with file := [], offset := 0, calls := k.calls + 1, writeOnly := true }) := by
  have ho : k.open env =
      (env k.calls 0, { k with file := [], offset := 0, calls := k.calls + 1, writeOnly := true }) := by
    rw [Kernel.open, if_neg (by omega)]
  simp only [start, Logger.new_running, openFile, ho, Logger.new_writeMode, hmode,
    if_neg (not_lt.2 hopen), Bool.false_eq_true, if_false]
  rfl

/-- `flush` of a `BUFFERED` logger with `bytes` buffered: one `::write` of them, and whatever it
returns the buffer is emptied; `total_written_` grows by all of `buffer_offset_` as soon as the
count is positive. -/
theorem flush_buffered {env : Env} {s : Logger} {k : Kernel} {bytes : List (BitVec 8)}
    (hmode : s.writeMode = .buffered) (hoff : s.bufferOffset ≤ bufferSize) (h0 : s.bufferOffset ≠ 0)
    (hbytes : s.bufferPrefix s.bufferOffset.toNat = bytes) :
    flush env s k = .ok
      ({ s with
          totalWritten := if 0 < (k.write env bytes).1 then s.totalWritten + s.bufferOffset
            else s.totalWritten
          bufferOffset := 0 }, (k.write env bytes).2) := by
  have hbw : s.bytesToWrite = s.bufferOffset := by simp [Logger.bytesToWrite, hmode]
  rw [flush, if_neg h0, if_neg (by rw [hmode]; decide), hbw, if_neg (BitVec.not_lt.2 hoff), hbytes]
  dsimp only
  split <;> rfl

/-- What one `flush` under `BUFFERED` did: the records it took out of the buffer, and the count
its `::write` returned, `-1` when the call failed. -/
structure Flushed where
  records : List ParsedMessage
  written : Int

/-- What the flush put in the file: the first `written` bytes of its records' images. -/
def Flushed.bytes (f : Flushed) : List (BitVec 8) := (images f.records).take f.written.toNat

/-- What the flush added to `total_written_`: all of the buffer once `written > 0`. -/
def Flushed.counted (f : Flushed) : Nat := if 0 < f.written then (images f.records).length else 0

/-- The records of flushes, in order. -/
def Flushed.allRecords (fs : List Flushed) : List ParsedMessage := (fs.map Flushed.records).flatten

/-- A `BUFFERED` logger with `running_ = r` after the flushes `fs`, whatever the kernel answered:
the file holds a prefix of each flush's images, `total_written_` (a `size_t`) counts each flush
whose `::write` returned a positive count in full, and the buffer holds the images of the
records written since. -/
structure Lossy (r : Bool) (s : Logger) (k : Kernel) (fs : List Flushed) (cur : List ParsedMessage) :
    Prop where
  mode_eq : s.writeMode = .buffered
  running : s.running = r
  file_eq : k.file = (fs.map Flushed.bytes).flatten
  offset_eq : k.offset = k.file.length
  pending_eq : s.bufferPrefix s.bufferOffset.toNat = images cur
  offset_le : s.bufferOffset ≤ bufferSize
  total_eq : s.totalWritten.toNat = (fs.map Flushed.counted).sum % 2 ^ 64
  written_le : ∀ f ∈ fs, f.written ≤ (images f.records).length

section Lossy

variable (env : Env) {r : Bool} {s : Logger} {k : Kernel} {fs : List Flushed} {cur : List ParsedMessage}

namespace Lossy

/-- `flush` empties the buffer into one more flush, whatever `::write` returns. -/
theorem flush (h : Lossy r s k fs cur) :
    ∃ s' k' f, FastMarket.flush env s k = .ok (s', k') ∧ Lossy r s' k' (fs ++ [f]) [] ∧
      f.records = cur := by
  by_cases h0 : s.bufferOffset = 0
  · refine ⟨s, k, ⟨cur, 0⟩, if_pos h0, ⟨h.mode_eq, h.running, ?_, h.offset_eq, ?_, h.offset_le, ?_, ?_⟩, rfl⟩
    · simp [h.file_eq, Flushed.bytes]
    · rw [h0]; rfl
    · simp [h.total_eq, Flushed.counted]
    · intro f hf
      rcases List.mem_append.1 hf with hf | hf
      · exact h.written_le f hf
      · rw [List.mem_singleton.1 hf]; simp
  · obtain ⟨hw, hfile, hoff⟩ := @Kernel.write_append env k h.offset_eq (images cur)
    have hcur : s.bufferOffset.toNat = (images cur).length := by
      rw [← h.pending_eq, Logger.length_bufferPrefix]
    refine ⟨_, _, ⟨cur, (k.write env (images cur)).1⟩,
      flush_buffered h.mode_eq h.offset_le h0 h.pending_eq, ?_, rfl⟩
    exact {
      mode_eq := h.mode_eq
      running := h.running
      file_eq := by simp [hfile, h.file_eq, Flushed.bytes]
      offset_eq := hoff
      pending_eq := rfl
      offset_le := BitVec.le_def.2 (Nat.zero_le _)
      total_eq := by
        simp only [List.map_append, List.map_cons, List.map_nil, List.sum_append, List.sum_cons,
          List.sum_nil, Nat.add_zero, Flushed.counted]
        split
        · rw [BitVec.toNat_add, h.total_eq, hcur, Nat.mod_add_mod]
        · rw [h.total_eq, Nat.add_zero]
      written_le := fun f hf => by
        rcases List.mem_append.1 hf with hf | hf
        · exact h.written_le f hf
        · rw [List.mem_singleton.1 hf]; exact hw }

omit env in
/-- Copying a record's image in after the buffered ones. -/
theorem copy (h : Lossy r s k fs cur) {msg : ParsedMessage}
    (hlen : (serializeMessage msg).length = getMessageSize msg)
    (hfit : s.bufferOffset.toNat + getMessageSize msg ≤ 4194304) :
    Lossy r (s.copyMessage msg) k fs (cur ++ [msg]) :=
  { h with
    pending_eq := (pending_copyMessage h.pending_eq hlen hfit).1
    offset_le := (pending_copyMessage h.pending_eq hlen hfit).2 }

/-- `write_message` copies the record in, after a `flush` when the buffer has no room for it. -/
theorem writeMessage (h : Lossy r s k fs cur) {msg : ParsedMessage}
    (hlen : (serializeMessage msg).length = getMessageSize msg) :
    ∃ s' k' fs' cur', FastMarket.writeMessage env msg s k = .ok (s', k') ∧ Lossy r s' k' fs' cur' ∧
      Flushed.allRecords fs' ++ cur' = Flushed.allRecords fs ++ cur ++ [msg] := by
  have hm : s.writeMode ≠ .mmap := by rw [h.mode_eq]; decide
  by_cases hfit : s.bufferOffset.toNat + getMessageSize msg ≤ 4194304
  · exact ⟨_, k, fs, cur ++ [msg], writeMessage_of_fits hm h.offset_le hfit, h.copy hlen hfit,
      by rw [List.append_assoc]⟩
  · obtain ⟨s₁, k₁, f, hf, hs₁, hrec⟩ := h.flush env
    have hfit₁ : s₁.bufferOffset.toNat + getMessageSize msg ≤ 4194304 := by
      rw [← Logger.length_bufferPrefix s₁ s₁.bufferOffset.toNat, hs₁.pending_eq]
      have := getMessageSize_le msg
      simp; omega
    exact ⟨_, k₁, _, [msg], writeMessage_of_overflow hm h.offset_le (by omega) hf hfit₁,
      hs₁.copy hlen hfit₁, by simp [Flushed.allRecords, hrec]⟩

omit env in
theorem setRunning (h : Lossy r s k fs cur) (r' : Bool) : Lossy r' { s with running := r' } k fs cur :=
  { h with running := rfl }

/-- Outside `MMAP`, `close_file` only closes the descriptor. -/
theorem closeFile (h : Lossy r s k fs cur) :
    Lossy r (FastMarket.closeFile env s k).1 (FastMarket.closeFile env s k).2 fs cur := by
  have hm : ¬ (s.writeMode = .mmap ∧ s.mmapPtr = true) := by rw [h.mode_eq]; simp
  unfold FastMarket.closeFile
  dsimp only
  rw [if_neg hm]
  split
  · exact { h with }
  · exact h

end Lossy

/-- A run of the worker keeps the invariant, whatever the kernel answers. -/
theorem runEvents_lossy {es : List Event} (h : Lossy r s k fs cur)
    (hlen : ∀ msg ∈ Event.records es, (serializeMessage msg).length = getMessageSize msg) :
    ∃ s' k' fs' cur', runEvents env es s k = .ok (s', k') ∧ Lossy r s' k' fs' cur' ∧
      Flushed.allRecords fs' ++ cur' = Flushed.allRecords fs ++ cur ++ Event.records es := by
  induction es generalizing s k fs cur with
  | nil => exact ⟨s, k, fs, cur, rfl, h, by simp [Event.records]⟩
  | cons e es ih =>
    cases e with
    | dequeued msg =>
      obtain ⟨s₁, k₁, fs₁, cur₁, h₁, hs₁, hrec⟩ := h.writeMessage env (hlen msg (List.mem_cons_self _ _))
      obtain ⟨s', k', fs', cur', h', hs', hrec'⟩ := ih hs₁ fun m hm => hlen m (List.mem_cons_of_mem _ hm)
      refine ⟨s', k', fs', cur', by rw [runEvents, Event.apply, h₁]; exact h', hs', ?_⟩
      rw [hrec', hrec]; simp [Event.records]
    | empty =>
      obtain ⟨s₁, k₁, f, h₁, hs₁, hrec⟩ := h.flush env
      obtain ⟨s', k', fs', cur', h', hs', hrec'⟩ := ih hs₁ hlen
      refine ⟨s', k', fs', cur', by rw [runEvents, Event.apply, h₁]; exact h', hs', ?_⟩
      rw [hrec']; simp [Event.records, Flushed.allRecords, hrec]

end Lossy

/-- A session of a new `BUFFERED` logger, whatever the kernel answers once `::open` has
succeeded: it runs without a fault, the flushes' records are the dequeued ones in order, the
file holds a prefix of each flush's images one after another, and `total_written_` counts each
flush whose `::write` returned a positive count in full. -/
theorem session_lossy {env : Env} {es : List Event} (hparsed : ∀ msg ∈ Event.records es, Parsed msg)
    (filename : String) (garbage : Nat → BitVec 8) (k : Kernel) (hopen : 0 ≤ env k.calls 0) :
    ∃ s' k' fs, session env es (Logger.new filename .buffered garbage) k = .ok (s', k') ∧
      Lossy false s' k' fs [] ∧ Flushed.allRecords fs = Event.records es := by
  have hs₁ : Lossy true { Logger.new filename .buffered garbage with fd := env k.calls 0, running := true }
      { k with file := [], offset := 0, calls := k.calls + 1, writeOnly := true } [] [] :=
    ⟨rfl, rfl, rfl, rfl, rfl, BitVec.le_def.2 (Nat.zero_le _), rfl, fun _ h => absurd h (List.not_mem_nil _)⟩
  obtain ⟨s₂, k₂, fs₂, cur₂, h₂, hs₂, hrec₂⟩ :=
    runEvents_lossy env hs₁ fun msg hm => (hparsed msg hm).length_image
  obtain ⟨s₃, k₃, f, hf, hs₃, hrec₃⟩ := (hs₂.setRunning false).flush env
  refine ⟨_, _, fs₂ ++ [f], ?_, hs₃.closeFile env, ?_⟩
  · rw [session, start_new filename .buffered garbage hopen (by decide)]
    show (runEvents env es _ _).bind _ = _
    rw [h₂]
    show stop env s₂ k₂ = _
    rw [stop, if_neg (by simp [hs₂.running]), hf]
    rfl
  · simpa [Flushed.allRecords, hrec₃] using hrec₂

theorem session_lossy_failed_write :
    (∀ msg ∈ Event.records [.dequeued sampleAddOrder, .empty, .dequeued sampleAddOrder], Parsed msg) ∧
      0 ≤ Env.failsAt 1 0 0 ∧
    ∃ s' k' fs, session (Env.failsAt 1) [.dequeued sampleAddOrder, .empty, .dequeued sampleAddOrder]
        (Logger.new "log.bin" .buffered fun _ => 0) ⟨[], 0, none, 0, true, false⟩ = .ok (s', k') ∧
      Lossy false s' k' fs [] ∧
      Flushed.allRecords fs = Event.records [.dequeued sampleAddOrder, .empty, .dequeued sampleAddOrder] := by
  have hparsed : ∀ msg ∈ Event.records [.dequeued sampleAddOrder, .empty, .dequeued sampleAddOrder],
      Parsed msg := fun msg hm => by
    simp only [Event.records, List.mem_cons, List.mem_singleton, or_self, List.not_mem_nil,
      or_false] at hm
    exact hm ▸ parsed_sampleAddOrder
  exact ⟨hparsed, by decide,
    session_lossy hparsed "log.bin" (fun _ => 0) ⟨[], 0, none, 0, true, false⟩ (by decide)⟩

/-- A `BUFFERED` session on one record whose `::write` in `stop()` takes `w` bytes, with
`0 < w` and `w` less than the record's size: `flush` counts all of the buffer, so
`total_written_` is the record's size while the file holds only the first `w` bytes of its
image, a part of a record. -/
theorem buffered_short_write_partial {msg : ParsedMessage} (hmsg : Parsed msg) (filename : String)
    (garbage : Nat → BitVec 8) (k : Kernel) {w : Nat} (hw₀ : 0 < w) (hw : w < getMessageSize msg) :
    ∃ s' k', session (Env.shortAt (k.calls + 1) w) [.dequeued msg]
        (Logger.new filename .buffered garbage) k = .ok (s', k') ∧
      k'.file = (serializeMessage msg).take w ∧ k'.file.length = w ∧
      s'.totalWritten.toNat = getMessageSize msg := by
  have hopen : 0 ≤ Env.shortAt (k.calls + 1) w k.calls 0 := by simp [Env.shortAt]
  obtain ⟨s₁, k₁, hstart, hm₁, hr₁, hb₁, ht₁, hfd₁, hf₁, ho₁, hc₁⟩ : ∃ s₁ k₁,
      start (Env.shortAt (k.calls + 1) w) (Logger.new filename .buffered garbage) k = .ok (s₁, k₁) ∧
      s₁.writeMode = .buffered ∧ s₁.running = true ∧ s₁.bufferOffset = 0 ∧ s₁.totalWritten = 0 ∧
      0 ≤ s₁.fd ∧ k₁.file = [] ∧ k₁.offset = 0 ∧ k₁.calls = k.calls + 1 :=
    ⟨_, _, start_new filename .buffered garbage hopen (by decide),
      rfl, rfl, rfl, rfl, hopen, rfl, rfl, rfl⟩
  have hlen := hmsg.length_image
  have hsize := getMessageSize_le msg
  have hfit : s₁.bufferOffset.toNat + getMessageSize msg ≤ 4194304 := by rw [hb₁]; simp; omega
  -- the worker copies the record in; `stop()` flushes it with the short write
  have hoff : (s₁.copyMessage msg).bufferOffset.toNat = getMessageSize msg := by
    rw [toNat_copyMessage_offset hfit, hb₁]; simp
  have hcopy := @pending_copyMessage s₁ [] msg (by rw [hb₁]; rfl) hlen hfit
  have hne : (s₁.copyMessage msg).bufferOffset ≠ 0 := fun h => by
    rw [h] at hoff; simp at hoff; omega
  have hk := @Kernel.write_eq_take (Env.shortAt (k.calls + 1) w) k₁ (serializeMessage msg) w
    (by simp [Env.shortAt, hc₁]) (by omega) (by rw [ho₁]; unfold maxFileSize; omega)
  have hf := @flush_buffered (Env.shortAt (k.calls + 1) w) { s₁.copyMessage msg with running := false }
    k₁ (serializeMessage msg) hm₁ hcopy.2 hne (hcopy.1.trans (by simp))
  rw [hk] at hf
  simp only [Nat.cast_pos, hw₀, if_true] at hf
  apply Exists.intro; apply Exists.intro
  refine ⟨?_, ?_, ?_, ?_⟩
  · rw [session, hstart]
    show (runEvents _ [.dequeued msg] s₁ k₁).bind _ = _
    rw [runEvents, Event.apply,
      writeMessage_of_fits (hm₁ ▸ by decide) (hb₁ ▸ BitVec.le_def.2 (Nat.zero_le _)) hfit]
    show stop _ (s₁.copyMessage msg) k₁ = _
    rw [stop, if_neg (by simp [Logger.copyMessage, hr₁]), hf]
    show Except.ok (closeFile _ _ _) = _
    rw [closeFile_of_fd] <;> simp [Logger.copyMessage, hm₁, hfd₁]
  · simp [hf₁, ho₁, writeAt]
  · simp [hf₁, ho₁, writeAt]; omega
  · show ((s₁.copyMessage msg).totalWritten + (s₁.copyMessage msg).bufferOffset).toNat = _
    rw [BitVec.toNat_add, hoff, show (s₁.copyMessage msg).totalWritten = 0 from ht₁]
    simp; omega

theorem buffered_short_write_partial_sample :
    Parsed sampleAddOrder ∧ 0 < 1 ∧ 1 < getMessageSize sampleAddOrder ∧
    ∃ s' k', session (Env.shortAt 1 1) [.dequeued sampleAddOrder]
        (Logger.new "log.bin" .buffered fun _ => 0) ⟨[], 0, none, 0, true, false⟩ = .ok (s', k') ∧
      k'.file = (serializeMessage sampleAddOrder).take 1 ∧ k'.file.length = 1 ∧
      s'.totalWritten.toNat = getMessageSize sampleAddOrder :=
  ⟨parsed_sampleAddOrder, by decide, by decide,
    buffered_short_write_partial parsed_sampleAddOrder "log.bin" (fun _ => 0) ⟨[], 0, none, 0, true, false⟩
      (by decide) (by decide)⟩

end FastMarket
