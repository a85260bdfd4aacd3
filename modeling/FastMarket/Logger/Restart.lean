import FastMarket.Logger.Session

/-!
# Sessions after the first

`start` after `stop` reopens the file with `O_TRUNC`; `stop` has flushed the buffer and closed
the descriptor, and outside `MMAP` nothing touches the mapping fields. So a stopped logger is
what the constructor builds but for two fields: `write_buffer_` keeps the bytes of the earlier
sessions, and `total_written_` their count. Outside `MMAP` the count is never read, so each
later session writes what a new logger's session writes over the same buffer, and only counts
from where the earlier ones stopped. Under `MMAP` no session gets past `start()`.

Under `BUFFERED` and `DIRECT`, after several sessions the file holds the last one's batches
while `total_written_` is the sum of all of them.
-/

namespace FastMarket

set_option autoImplicit false

/-- A logger as the constructor leaves it, but for `write_buffer_`'s bytes and `total_written_`. -/
structure Idle (filename : String) (mode : WriteMode) (s : Logger) : Prop where
  filename_eq : s.filename = filename
  mode_eq : s.writeMode = mode
  running : s.running = false
  fd : s.fd = -1
  mmapPtr : s.mmapPtr = false
  mmapSize : s.mmapSize = 0
  offset : s.bufferOffset = 0

namespace Idle

variable {env : Env} {filename : String} {mode : WriteMode} {s s' : Logger} {k k' : Kernel}

theorem new (filename : String) (mode : WriteMode) (garbage : Nat → BitVec 8) :
    Idle filename mode (Logger.new filename mode garbage) :=
  ⟨rfl, rfl, rfl, rfl, rfl, rfl, rfl⟩

theorem eq (h : Idle filename mode s) :
    s = (Logger.new filename mode s.writeBuffer).addTotal s.totalWritten := by
  obtain ⟨_, _, _, _, _, _, _, _, _⟩ := s
  obtain ⟨rfl, rfl, rfl, rfl, rfl, rfl, rfl⟩ := h
  simp [Logger.new, Logger.addTotal]

/-- A session of an idle `BUFFERED` or `DIRECT` logger that returns leaves it idle. -/
theorem session (h : Idle filename mode s) (hmode : mode ≠ .mmap) {es : List Event}
    (hs : FastMarket.session env es s k = .ok (s', k')) : Idle filename mode s' := by
  have hm : s.writeMode ≠ .mmap := h.mode_eq ▸ hmode
  obtain ⟨⟨s₁, k₁⟩, h₁, h'⟩ := bind_eq_ok hs
  obtain ⟨⟨s₂, k₂⟩, h₂, h₃⟩ := bind_eq_ok h'
  dsimp only at h₂ h₃
  rw [start_not_running hm h.running] at h₁
  split_ifs at h₁ with hfd
  cases h₁
  have hf₂ := frame_of_runEvents (by exact hm) h₂
  have hr₂ : s₂.running = true := hf₂.running
  simp only [stop, hr₂, Bool.not_true, Bool.false_eq_true, if_false] at h₃
  obtain ⟨⟨s₃, k₃⟩, h₄, h₅⟩ := map_eq_ok h₃
  have hf₃ := frame_of_flush h₄
  have hm₃ : s₃.writeMode = mode := hf₃.writeMode.trans (hf₂.writeMode.trans h.mode_eq)
  have hfd₃ : s₃.fd = (k.open env).1 := hf₃.fd.trans hf₂.fd
  rw [closeFile_of_fd (by rw [hm₃]; exact hmode) (by rw [hfd₃]; exact not_lt.1 hfd)] at h₅
  cases h₅
  exact ⟨hf₃.filename.trans (hf₂.filename.trans h.filename_eq), hm₃, hf₃.running, rfl,
    hf₃.mmapPtr.trans (hf₂.mmapPtr.trans h.mmapPtr), hf₃.mmapSize.trans (hf₂.mmapSize.trans h.mmapSize),
    (bufferOffset_of_flush h₄ : s₃.bufferOffset = 0)⟩

/-- Sessions of an idle logger that return leave it idle; under `MMAP` none returns. -/
theorem sessions (h : Idle filename mode s) {ss : List (List Event)}
    (hs : FastMarket.sessions env ss s k = .ok (s', k')) : Idle filename mode s' := by
  induction ss generalizing s k with
  | nil => cases hs; exact h
  | cons es ss ih =>
    obtain ⟨⟨s₁, k₁⟩, h₁, h₂⟩ := bind_eq_ok hs
    by_cases hm : mode = .mmap
    · rw [session_mmap (h.mode_eq.trans hm) h.running] at h₁
      cases h₁
    · exact ih (h.session hm h₁) h₂

end Idle

/-- Whatever sessions one logger ran before, and whatever the kernel answered, it is the
constructor's logger but for `write_buffer_`'s bytes and `total_written_`, and its next session
does what a new logger's session with the same name and mode does over those bytes, from the
same kernel: the same file and the same growth of `total_written_`, counted on from the earlier
sessions' total. -/
theorem restart_like_fresh {env : Env} {filename : String} {mode : WriteMode}
    {garbage : Nat → BitVec 8} {k : Kernel} {ss : List (List Event)} {s₁ : Logger} {k₁ : Kernel}
    (hss : sessions env ss (Logger.new filename mode garbage) k = .ok (s₁, k₁)) :
    s₁ = (Logger.new filename mode s₁.writeBuffer).addTotal s₁.totalWritten ∧
    ∀ es, session env es s₁ k₁ =
      (session env es (Logger.new filename mode s₁.writeBuffer) k₁).map
        fun r => (r.1.addTotal s₁.totalWritten, r.2) := by
  have h := (Idle.new filename mode garbage).sessions hss
  refine ⟨h.eq, fun es => ?_⟩
  conv_lhs => rw [h.eq]
  by_cases hm : mode = .mmap
  · subst hm
    rw [session_mmap rfl rfl, session_mmap rfl rfl]
    rfl
  · exact session_addTotal _ hm rfl (BitVec.le_def.2 (Nat.zero_le _)) es

theorem restart_like_fresh_direct :
    ∃ s₁ k₁, sessions Env.exact [[.dequeued sampleAddOrder]] (Logger.new "log.bin" .direct fun _ => 0)
        ⟨[], 0, none, 0, true, false⟩ = .ok (s₁, k₁) ∧
      s₁ = (Logger.new "log.bin" .direct s₁.writeBuffer).addTotal s₁.totalWritten ∧
      ∀ es, session Env.exact es s₁ k₁ =
        (session Env.exact es (Logger.new "log.bin" .direct s₁.writeBuffer) k₁).map
          fun r => (r.1.addTotal s₁.totalWritten, r.2) := by
  have hk : (⟨[], 0, none, 0, true, false⟩ : Kernel).ok = true := rfl
  have hlen : ∀ msg ∈ Event.records [.dequeued sampleAddOrder],
      (serializeMessage msg).length = getMessageSize msg := fun msg hm => by
    rw [List.mem_singleton.1 hm]; rfl
  obtain ⟨s₁, k₁, -, h₁, -⟩ := session_streaming Env.exact_succeeds
    (by decide : WriteMode.direct ≠ .mmap) "log.bin" (fun _ => 0) hk hlen (by decide)
  have hss : sessions Env.exact [[.dequeued sampleAddOrder]] (Logger.new "log.bin" .direct fun _ => 0)
      ⟨[], 0, none, 0, true, false⟩ = .ok (s₁, k₁) := by
    rw [sessions, h₁]
    rfl
  exact ⟨s₁, k₁, hss, restart_like_fresh hss⟩

section Streaming

variable {env : Env} (henv : env.Succeeds) {mode : WriteMode} (hmode : mode ≠ .mmap)
include henv hmode

/-- One `BUFFERED` or `DIRECT` session from a stopped logger with nothing buffered, whatever
`total_written_` holds. -/
theorem session_streaming_restart {s : Logger} {k : Kernel} (hs : s.writeMode = mode)
    (hrun : s.running = false) (h0 : s.bufferOffset = 0) {es : List Event} (hk : k.ok = true)
    (hlen : ∀ msg ∈ Event.records es, (serializeMessage msg).length = getMessageSize msg)
    (hbudget : fileCost mode (images (Event.records es)).length ≤ maxFileSize) :
    ∃ s' k' done, session env es s k = .ok (s', k') ∧ k'.ok = true ∧
      s'.writeMode = mode ∧ s'.running = false ∧ s'.bufferOffset = 0 ∧
      k'.file = (done.map Batch.bytes).flatten ∧ (∀ b ∈ done, b.Padded mode) ∧
      Batch.allRecords done = Event.records es ∧
      s'.totalWritten.toNat = (s.totalWritten.toNat + (images (Event.records es)).length) % 2 ^ 64 := by
  obtain ⟨s', k', done, h, hk', hst, hrec⟩ :=
    session_streaming_addTotal henv (s := { s with totalWritten := 0 }) hmode hs hrun h0 rfl s.totalWritten
      hk hlen hbudget
  have e : ({ s with totalWritten := 0 } : Logger).addTotal s.totalWritten = s := by
    simp [Logger.addTotal]
  rw [e] at h
  refine ⟨_, k', done, h, hk', hst.mode_eq, hst.running, ?_, hst.file_eq, hst.padded, hrec, ?_⟩
  · exact BitVec.eq_of_toNat_eq hst.toNat_offset
  · rw [Logger.addTotal_totalWritten, BitVec.toNat_add, hst.total_eq, hrec, Nat.add_comm]

/-- Sessions from a stopped `BUFFERED` or `DIRECT` logger with nothing buffered: the file holds
the last session's batches, and `total_written_` has grown by every session's images. -/
theorem sessions_streaming {s : Logger} {k : Kernel} (hs : s.writeMode = mode)
    (hrun : s.running = false) (h0 : s.bufferOffset = 0) (hk : k.ok = true)
    (ss : List (List Event)) (es : List Event)
    (hparsed : ∀ e ∈ ss ++ [es], ∀ msg ∈ Event.records e, Parsed msg)
    (hbudget : ∀ e ∈ ss ++ [es], fileCost mode (images (Event.records e)).length ≤ maxFileSize) :
    ∃ s' k' done, sessions env (ss ++ [es]) s k = .ok (s', k') ∧ k'.ok = true ∧
      k'.file = (done.map Batch.bytes).flatten ∧ (∀ b ∈ done, b.Padded mode) ∧
      Batch.allRecords done = Event.records es ∧
      s'.totalWritten.toNat =
        (s.totalWritten.toNat + ((ss ++ [es]).map fun e => (images (Event.records e)).length).sum) %
          2 ^ 64 := by
  induction ss generalizing s k with
  | nil =>
    obtain ⟨s', k', done, h, hk', -, -, -, hfile, hpad, hrec, htotal⟩ :=
      session_streaming_restart henv hmode hs hrun h0 hk
        (fun msg hm => (hparsed es (by simp) msg hm).length_image) (hbudget es (by simp))
    refine ⟨s', k', done, ?_, hk', hfile, hpad, hrec, by simpa using htotal⟩
    simp only [List.nil_append, sessions, h]
    rfl
  | cons e ss ih =>
    obtain ⟨s₁, k₁, done₁, h₁, hk₁, hs₁, hrun₁, h0₁, -, -, -, htotal₁⟩ :=
      session_streaming_restart henv hmode hs hrun h0 hk
        (fun msg hm => (hparsed e (by simp) msg hm).length_image) (hbudget e (by simp))
    obtain ⟨s', k', done, h, hk', hfile, hpad, hrec, htotal⟩ :=
      ih hs₁ hrun₁ h0₁ hk₁ (fun e' he' => hparsed e' (List.mem_cons_of_mem _ he'))
        (fun e' he' => hbudget e' (List.mem_cons_of_mem _ he'))
    refine ⟨s', k', done, ?_, hk', hfile, hpad, hrec, ?_⟩
    · simp only [List.cons_append, sessions, h₁]
      exact h
    · rw [htotal, htotal₁, Nat.mod_add_mod, List.cons_append, List.map_cons, List.sum_cons, Nat.add_assoc]

/-- Sessions of one `BUFFERED` or `DIRECT` logger: each `start` truncates the file, so after the
last session the file holds that session's batches alone, while `total_written_` is the sum of
every session's images, modulo `2 ^ 64`. -/
theorem streaming_restart_file (filename : String) (garbage : Nat → BitVec 8) {k : Kernel}
    (hk : k.ok = true) (ss : List (List Event)) (es : List Event)
    (hparsed : ∀ e ∈ ss ++ [es], ∀ msg ∈ Event.records e, Parsed msg)
    (hbudget : ∀ e ∈ ss ++ [es], fileCost mode (images (Event.records e)).length ≤ maxFileSize) :
    ∃ s' k' done, sessions env (ss ++ [es]) (Logger.new filename mode garbage) k = .ok (s', k') ∧
      k'.ok = true ∧ k'.file = (done.map Batch.bytes).flatten ∧ (∀ b ∈ done, b.Padded mode) ∧
      Batch.allRecords done = Event.records es ∧
      s'.totalWritten.toNat = ((ss ++ [es]).map fun e => (images (Event.records e)).length).sum % 2 ^ 64 := by
  simpa using sessions_streaming henv hmode (s := Logger.new filename mode garbage) rfl rfl rfl hk ss es
    hparsed hbudget

end Streaming

theorem streaming_restart_file_buffered :
    ∃ s' k' done, sessions Env.exact ([[Event.dequeued sampleAddOrder]] ++ [[Event.dequeued sampleAddOrder]])
        (Logger.new "log.bin" .buffered fun _ => 0) ⟨[], 0, none, 0, true, false⟩ = .ok (s', k') ∧
      k'.ok = true ∧ k'.file = (done.map Batch.bytes).flatten ∧ (∀ b ∈ done, b.Padded .buffered) ∧
      Batch.allRecords done = Event.records [Event.dequeued sampleAddOrder] ∧
      s'.totalWritten.toNat =
        (([[Event.dequeued sampleAddOrder]] ++ [[Event.dequeued sampleAddOrder]]).map
          fun e => (images (Event.records e)).length).sum % 2 ^ 64 :=
  streaming_restart_file Env.exact_succeeds (by decide) "log.bin" (fun _ => 0) rfl _ _
    (fun e he msg hm => by
      simp only [List.singleton_append, List.mem_pair, or_self] at he
      subst he
      simp only [Event.records, List.mem_singleton] at hm
      exact hm ▸ parsed_sampleAddOrder)
    (by decide)

end FastMarket
