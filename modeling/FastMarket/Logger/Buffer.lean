import FastMarket.Logger.Writer

/-!
# The write buffer stays in bounds

Under `BUFFERED` and `DIRECT` the worker copies each record into `write_buffer_` at
`buffer_offset_` and `flush` hands `write_buffer_` to `::write`. The model faults on a copy or a
write that would pass `write_buffer_ + BUFFER_SIZE`; here no sequence of `write_message` and
`flush` calls, on records of any type and whatever the kernel answers, reaches such a fault.
-/

namespace FastMarket

set_option autoImplicit false

section Bounds

variable (env : Env) {s : Logger} (k : Kernel)

/-- The length `flush` hands to `::write` is at most `BUFFER_SIZE`. -/
theorem bytesToWrite_le (hoff : s.bufferOffset ≤ bufferSize) : s.bytesToWrite ≤ bufferSize := by
  unfold Logger.bytesToWrite
  split
  · exact alignUp_le_bufferSize hoff
  · exact hoff

/-- `flush` never faults from an offset inside the buffer, and empties the buffer. -/
theorem flush_in_bounds (hoff : s.bufferOffset ≤ bufferSize) :
    ∃ s' k', flush env s k = .ok (s', k') ∧ s'.bufferOffset = 0 ∧ s'.writeMode = s.writeMode := by
  unfold flush
  split_ifs with h0 hm hover
  · exact ⟨s, k, rfl, h0, rfl⟩
  · exact ⟨_, k, rfl, rfl, rfl⟩
  · exact absurd (bytesToWrite_le hoff) (BitVec.not_le.2 hover)
  · generalize k.write env _ = r
    obtain ⟨w, k'⟩ := r
    exact ⟨_, k', rfl, rfl, by dsimp only; split <;> rfl⟩

/-- `write_message`'s overflow test, on offsets inside the buffer, in numbers. -/
theorem overflow_iff (hoff : s.bufferOffset ≤ bufferSize) (msg : ParsedMessage) :
    bufferSize < s.bufferOffset + BitVec.ofNat 64 (getMessageSize msg) ↔
      4194304 < s.bufferOffset.toNat + getMessageSize msg := by
  have hsize := getMessageSize_le msg
  have hbuf := BitVec.le_def.1 hoff
  have hsz : (BitVec.ofNat 64 (getMessageSize msg)).toNat = getMessageSize msg :=
    Nat.mod_eq_of_lt (by omega)
  rw [toNat_bufferSize] at hbuf
  rw [BitVec.lt_def, BitVec.toNat_add_of_lt (by rw [hsz]; omega), hsz, toNat_bufferSize]

theorem copyToBuffer_of_le {bytes : List (BitVec 8)} (h : s.bufferOffset.toNat + bytes.length ≤ 4194304) :
    s.copyToBuffer bytes =
      .ok { s with writeBuffer := storeBytes s.writeBuffer s.bufferOffset.toNat bytes } :=
  if_neg (by rw [toNat_bufferSize]; omega)

/-- The record after the buffer's offset: `serialize_message` at `write_buffer_ + buffer_offset_`,
and the offset moved on by `get_message_size`. -/
def Logger.copyMessage (s : Logger) (msg : ParsedMessage) : Logger :=
  { s with
    writeBuffer := storeBytes s.writeBuffer s.bufferOffset.toNat (serializeMessage msg)
    bufferOffset := s.bufferOffset + BitVec.ofNat 64 (getMessageSize msg) }

section Write

variable {env : Env} {k : Kernel} {msg : ParsedMessage} (hmode : s.writeMode ≠ .mmap)
  (hoff : s.bufferOffset ≤ bufferSize)
include hmode hoff

/-- A record that fits after the buffered ones is copied in, with no `flush`. -/
theorem writeMessage_of_fits (hfit : s.bufferOffset.toNat + getMessageSize msg ≤ 4194304) :
    writeMessage env msg s k = .ok (s.copyMessage msg, k) := by
  have hlen := length_serializeMessage_le msg
  rw [writeMessage, if_neg hmode, if_neg (mt (overflow_iff hoff msg).1 (by omega))]
  show Except.map _ (s.copyToBuffer (serializeMessage msg)) = _
  rw [copyToBuffer_of_le (by omega)]; rfl

/-- A record that does not fit is copied in after a `flush`. -/
theorem writeMessage_of_overflow (hover : 4194304 < s.bufferOffset.toNat + getMessageSize msg)
    {s₁ : Logger} {k₁ : Kernel} (hf : flush env s k = .ok (s₁, k₁))
    (hfit : s₁.bufferOffset.toNat + getMessageSize msg ≤ 4194304) :
    writeMessage env msg s k = .ok (s₁.copyMessage msg, k₁) := by
  have hlen := length_serializeMessage_le msg
  rw [writeMessage, if_neg hmode, if_pos ((overflow_iff hoff msg).2 hover), hf]
  show Except.map _ (s₁.copyToBuffer (serializeMessage msg)) = _
  rw [copyToBuffer_of_le (by omega)]; rfl

end Write

theorem toNat_copyMessage_offset {msg : ParsedMessage} (hfit : s.bufferOffset.toNat + getMessageSize msg ≤ 4194304) :
    (s.copyMessage msg).bufferOffset.toNat = s.bufferOffset.toNat + getMessageSize msg :=
  BitVec.toNat_add_of_lt (by rw [BitVec.toNat_ofNat, Nat.mod_eq_of_lt (by omega)]; omega) |>.trans
    (by rw [BitVec.toNat_ofNat, Nat.mod_eq_of_lt (by omega)])

/-- A record, of any type, fits in the buffer after `write_message`'s overflow check. -/
theorem writeMessage_in_bounds (hmode : s.writeMode ≠ .mmap) (hoff : s.bufferOffset ≤ bufferSize)
    (msg : ParsedMessage) :
    ∃ s' k', writeMessage env msg s k = .ok (s', k') ∧ s'.bufferOffset ≤ bufferSize ∧
      s'.writeMode = s.writeMode := by
  have hsize := getMessageSize_le msg
  have hle {s₁ : Logger} (hfit : s₁.bufferOffset.toNat + getMessageSize msg ≤ 4194304) :
      (s₁.copyMessage msg).bufferOffset ≤ bufferSize := by
    rw [BitVec.le_def, toNat_copyMessage_offset hfit, toNat_bufferSize]; exact hfit
  by_cases hfit : s.bufferOffset.toNat + getMessageSize msg ≤ 4194304
  · exact ⟨_, k, writeMessage_of_fits hmode hoff hfit, hle hfit, rfl⟩
  · obtain ⟨s₁, k₁, hf, h0, hm⟩ := flush_in_bounds env k hoff
    have hfit₁ : s₁.bufferOffset.toNat + getMessageSize msg ≤ 4194304 := by rw [h0]; simp; omega
    exact ⟨_, k₁, writeMessage_of_overflow hmode hoff (by omega) hf hfit₁, hle hfit₁, hm⟩

theorem Event.apply_in_bounds (hmode : s.writeMode ≠ .mmap) (hoff : s.bufferOffset ≤ bufferSize)
    (e : Event) : ∃ s' k', e.apply env s k = .ok (s', k') ∧ s'.bufferOffset ≤ bufferSize ∧
      s'.writeMode = s.writeMode := by
  cases e with
  | dequeued msg => exact writeMessage_in_bounds env k hmode hoff msg
  | empty =>
    obtain ⟨s', k', h, h0, hm⟩ := flush_in_bounds env k hoff
    exact ⟨s', k', h, by rw [h0]; exact BitVec.le_def.2 (Nat.zero_le _), hm⟩

/-- A run of `write_message` and `flush` calls from an offset inside the buffer never faults. -/
theorem runEvents_in_bounds (hmode : s.writeMode ≠ .mmap) (hoff : s.bufferOffset ≤ bufferSize)
    (es : List Event) : ∃ s' k', runEvents env es s k = .ok (s', k') ∧ s'.bufferOffset ≤ bufferSize ∧
      s'.writeMode = s.writeMode := by
  induction es generalizing s k with
  | nil => exact ⟨s, k, rfl, hoff, rfl⟩
  | cons e es ih =>
    obtain ⟨s₁, k₁, h₁, hoff₁, hm₁⟩ := e.apply_in_bounds env k hmode hoff
    obtain ⟨s', k', h', hoff', hm'⟩ := ih k₁ (hm₁ ▸ hmode) hoff₁
    exact ⟨s', k', by rw [runEvents, h₁]; exact h', hoff', hm'.trans hm₁⟩

end Bounds

/-- Under `BUFFERED` or `DIRECT`, every sequence of `write_message` and `flush` calls from an
offset inside the buffer runs without a fault: no copy into `write_buffer_` and no `::write`
from it passes `BUFFER_SIZE`. The offset stays at most `BUFFER_SIZE` throughout, and so does
the length the next `flush` would write, the `DIRECT` rounding included. -/
theorem buffer_in_bounds (env : Env) (events : List Event) (s : Logger) (k : Kernel)
    (hmode : s.writeMode = .buffered ∨ s.writeMode = .direct) (hoff : s.bufferOffset ≤ bufferSize) :
    ∃ s' k', runEvents env events s k = .ok (s', k') ∧ s'.bufferOffset ≤ bufferSize ∧
      s'.bytesToWrite ≤ bufferSize := by
  obtain ⟨s', k', h, hoff', -⟩ :=
    runEvents_in_bounds env k (by rcases hmode with h | h <;> rw [h] <;> decide) hoff events
  exact ⟨s', k', h, hoff', bytesToWrite_le hoff'⟩

/-- 110377 records of 38 bytes, the last of which finds the 4 MiB buffer full, then an empty
queue. -/
theorem buffer_in_bounds_direct :
    (Logger.new "log.bin" .direct fun _ => 0).writeMode = .direct ∧
    (Logger.new "log.bin" .direct fun _ => 0).bufferOffset ≤ bufferSize ∧
    ∃ s' k', runEvents (fun _ n => n)
        (List.replicate 110377 (.dequeued ⟨.addOrder, .addOrder (parseAddOrder fun _ => 0x41), 0⟩) ++
          [.empty])
        (Logger.new "log.bin" .direct fun _ => 0) ⟨[], 0, none, 0, true, false⟩ = .ok (s', k') ∧
      s'.bufferOffset ≤ bufferSize ∧ s'.bytesToWrite ≤ bufferSize :=
  ⟨rfl, BitVec.le_def.2 (Nat.zero_le _), buffer_in_bounds _ _ _ _ (.inr rfl) (BitVec.le_def.2 (Nat.zero_le _))⟩

end FastMarket
