import FastMarket.Logger.Concurrent

/-!
# What `stop()` leaves written

Which records logged before `stop()` the worker writes: all of them, unless a producer holds the
tail position between its compare-exchange and its publish when the drain loop makes its last
test (`stop_writes_logged`; `FastMarket.Logger.Concurrent` ends with a run where one does).

Then the file. The writer side of every run refines the sequential model: it replays one
`session` whose events are the worker's writes and its flushes on an empty queue
(`run_refines_session`), because `write_message` and `flush` never read `running_`, and `stop()`'s
last `flush()` and `close_file()` are the session's `stop`. With the order in which the worker
takes records (`inOrder_run`), once `stop()` has returned the file holds exactly the records at
the tail positions the worker took, in order.
-/

namespace FastMarket.Concurrent

open Interleaving

set_option autoImplicit false

/-- The drain loop, or past it. -/
def Draining : WorkerPc → Prop
  | .drain | .drainWrite _ | .exited => True
  | _ => False

/-- A `try_dequeue` of the main loop returns to the main loop. -/
theorem eq_drain_of_draining {ctl : WorkerPc} (hctl : ctl = .dequeue ∨ ctl = .drain)
    {old new : Pc ParsedMessage} (h : Draining (afterDequeue ctl old new)) : ctl = .drain := by
  rcases hctl with rfl | rfl
  · unfold afterDequeue at h; split at h <;> simp [Draining] at h
  · rfl

/-- The record a publish returns `true` for is a claimed one. -/
theorem mem_claimed_of_logReturn {C : Nat} {s : System ParsedMessage} (hinv : Inv C s) {t : Nat}
    {new : Pc ParsedMessage} {x : ParsedMessage} (hx : x ∈ logReturn C s (s.threads t) new) :
    x ∈ s.claimed := by
  have hok := hinv.pcOk t
  generalize s.threads t = old at hok hx
  unfold logReturn at hx
  split at hx
  · rw [List.mem_singleton.1 hx]; exact List.getElem?_mem hok.2.2.1
  · exact absurd hx (List.not_mem_nil _)

/-- What `stop()` has done, and where the logged records are: `running_` is `false`, and the
worker in or past its drain loop, only after `stop()`'s store; `loggedAtStop` is what had been
logged at that store; every logged record was claimed in the queue. -/
structure Logged (w : World) : Prop where
  running : w.logger.running = false → w.stopper ≠ .idle
  draining : Draining w.workerPc → w.stopper ≠ .idle
  atStop : w.loggedAtStop <+: w.logged
  claimed : ∀ x ∈ w.logged, x ∈ w.queue.claimed

section Logged

variable {env : Env} {C : Nat} {w w' : World}

theorem Logged.step (hinv : Inv C w.queue) (h : Logged w) (hs : Step env C w w') : Logged w' := by
  have hgrow (q : System ParsedMessage) (hq : Interleaving.Step C w.queue q) :
      ∀ x ∈ w.queue.claimed, x ∈ q.claimed := fun x hx => by
    obtain ⟨xs, hxs⟩ := claimed_step hq
    rw [hxs]; exact List.mem_append_left _ hx
  cases hs with
  | @produce q t _ hq _ _ =>
    refine ⟨h.running, h.draining, h.atStop.trans (List.prefix_append _ _), fun x hx => ?_⟩
    rcases List.mem_append.1 hx with hx | hx
    · exact hgrow q hq x (h.claimed x hx)
    · exact hgrow q hq x (mem_claimed_of_logReturn hinv hx)
  | check _ _ =>
    -- the worker enters the drain loop on reading `running_ = false`
    refine ⟨h.running, fun hd => h.running ?_, h.atStop, h.claimed⟩
    change Draining (if w.logger.running then WorkerPc.dequeue else .drain) at hd
    cases hrun : w.logger.running
    · rfl
    · simp [hrun, Draining] at hd
  | dequeue hw hq _ =>
    exact ⟨h.running, fun hd => h.draining (by rw [eq_drain_of_draining hw hd]; trivial), h.atStop,
      fun x hx => hgrow _ hq x (h.claimed x hx)⟩
  | write _ hwm =>
    exact ⟨fun hr => h.running ((running_of_writeMessage hwm).symm.trans hr), False.elim, h.atStop,
      h.claimed⟩
  | drainWrite hw hwm =>
    exact ⟨fun hr => h.running ((running_of_writeMessage hwm).symm.trans hr),
      fun _ => h.draining (by rw [hw]; trivial), h.atStop, h.claimed⟩
  | flush _ hf =>
    exact ⟨fun hr => h.running ((running_of_flush hf).symm.trans hr), False.elim, h.atStop, h.claimed⟩
  | stopStore _ => exact ⟨(fun _ e => nomatch e), (fun _ e => nomatch e), List.prefix_refl _, h.claimed⟩
  | stopReturn _ _ _ => exact ⟨(fun _ e => nomatch e), (fun _ e => nomatch e), h.atStop, h.claimed⟩

/-- Once the worker has exited it never moves again, and writes nothing more. -/
theorem exited_step (hs : Step env C w w') (hw : w.workerPc = .exited) :
    w'.workerPc = .exited ∧ w'.written = w.written := by
  cases hs with
  | produce _ _ _ _ _ | stopStore _ | stopReturn _ _ _ => exact ⟨hw, rfl⟩
  | check hw0 _ | write hw0 _ | drainWrite hw0 _ | flush hw0 _ =>
    exact absurd (hw.symm.trans hw0) (by simp)
  | dequeue hw0 _ _ => rcases hw0 with hw0 | hw0 <;> exact absurd (hw.symm.trans hw0) (by simp)

/-- After `stop()`'s store, `loggedAtStop` never changes. -/
theorem stopped_step (hs : Step env C w w') (hst : w.stopper ≠ .idle) :
    w'.stopper ≠ .idle ∧ w'.loggedAtStop = w.loggedAtStop := by
  cases hs with
  | stopStore hs0 => exact absurd hs0 hst
  | stopReturn _ _ _ => exact ⟨(fun e => nomatch e), rfl⟩
  | _ => exact ⟨hst, rfl⟩

/-- A run after the worker exited, `stop()` having stored `running_ = false`: nothing more is
written, and `loggedAtStop` stays. -/
theorem exited_run (hr : Relation.ReflTransGen (Step env C) w w') (hw : w.workerPc = .exited)
    (hst : w.stopper ≠ .idle) :
    w'.workerPc = .exited ∧ w'.stopper ≠ .idle ∧ w'.written = w.written ∧
      w'.loggedAtStop = w.loggedAtStop := by
  induction hr with
  | refl => exact ⟨hw, hst, rfl, rfl⟩
  | tail _ hs ih =>
    obtain ⟨hw', hst', hwr, hlog⟩ := ih
    obtain ⟨hw'', hwr'⟩ := exited_step hs hw'
    obtain ⟨hst'', hlog'⟩ := stopped_step hs hst'
    exact ⟨hw'', hst'', hwr'.trans hwr, hlog'.trans hlog⟩

variable {k : Nat} (hC : C = 2 ^ k) (hk : 1 ≤ k) {buffer : Nat → ParsedMessage} {s : Logger}
  {kernel : Kernel} (hrun : s.running = true)
  (hr : Relation.ReflTransGen (Step env C) (World.init buffer s kernel) w)
include hC hk hrun hr

/-- Every run of a logger that `start()` set running keeps `Logged`. -/
theorem logged_run : Logged w := by
  induction hr with
  | refl =>
    exact ⟨fun h => by simp [World.init, hrun] at h, False.elim, List.prefix_refl _,
      fun _ hx => absurd hx (List.not_mem_nil _)⟩
  | tail hr' hs ih => exact ih.step (reachable_inv hC hk (queue_reachable hr').1) hs

/-- Unless a producer held the tail position between its compare-exchange and its publish when
the drain loop ended, the worker has written every record claimed by then, in order, and so every
record whose `log` returned `true` before `stop()` stored `running_ = false`. -/
theorem stop_writes_logged {w₁ w₂ : World} (hs : Step env C w w₁) (hw : w.workerPc = .drain)
    (hw₁ : w₁.workerPc = .exited) (hquiet : ∀ t, ¬ (w.queue.threads t).Producing w.queue.tail)
    (hr₁ : Relation.ReflTransGen (Step env C) w₁ w₂) :
    w₂.written = w.queue.claimed ∧ ∀ x ∈ w₂.loggedAtStop, x ∈ w₂.written := by
  have hinv := reachable_inv hC hk (queue_reachable hr).1
  have hio := inOrder_run hC hk hr
  have hlg := logged_run hC hk hrun hr
  obtain ⟨h0, -, hwr₁⟩ := hio.exit_step hs hw hw₁
  have hempty : w.queue.tail = w.queue.head :=
    (drain_exit hC hk hr hs hw hw₁).resolve_right fun ⟨t, ht⟩ => hquiet t ht
  -- when the drain loop ends, the worker has written all that was claimed
  have hwr : w.written = w.queue.claimed := by
    have := hio.written_eq
    rw [hw, h0, hempty, ← hinv.claimed_length] at this
    simpa [WorkerPc.pending, released] using this
  obtain ⟨hst₁, hlog₁⟩ := stopped_step hs (hlg.draining (by rw [hw]; trivial))
  obtain ⟨-, -, hwr₂, hlog₂⟩ := exited_run hr₁ hw₁ hst₁
  rw [hwr₂, hwr₁, hwr, hlog₂, hlog₁]
  exact ⟨rfl, fun x hx => hlg.claimed x (hlg.atStop.subset hx)⟩

end Logged

theorem stop_writes_logged_two_records :
    ∃ s k w w₁ w₂, start Env.exact (Logger.new "log.bin" .buffered fun _ => 0) ⟨[], 0, none, 0, true, false⟩ =
        .ok (s, k) ∧ queueSize = 2 ^ 20 ∧ 1 ≤ 20 ∧ s.running = true ∧
      Relation.ReflTransGen (Step Env.exact queueSize) (World.init (fun _ => sampleAddOrder) s k) w ∧
      Step Env.exact queueSize w w₁ ∧ w.workerPc = .drain ∧ w₁.workerPc = .exited ∧
      (∀ t, ¬ (w.queue.threads t).Producing w.queue.tail) ∧
      Relation.ReflTransGen (Step Env.exact queueSize) w₁ w₂ ∧
      w₂.loggedAtStop = [otherAddOrder, sampleAddOrder] ∧
      w₂.written = w.queue.claimed ∧ ∀ x ∈ w₂.loggedAtStop, x ∈ w₂.written := by
  obtain ⟨s, k, w, w₁, w₂, hstart, hr, hw, hempty, hs, hw₁, hs₂, -, hlog, -⟩ := two_record_session_run
  have hC : queueSize = 2 ^ 20 := rfl
  have hquiet : ∀ t, ¬ (w.queue.threads t).Producing w.queue.tail := fun t ht => by
    have := ((reachable_inv hC (by decide) (queue_reachable hr).1).producing ht).2.1
    omega
  exact ⟨s, k, w, w₁, w₂, hstart, hC, by decide, running_of_start hstart, hr, hs, hw, hw₁, hquiet,
    .single hs₂, hlog,
    stop_writes_logged hC (by decide) (running_of_start hstart) hr hs hw hw₁ hquiet (.single hs₂)⟩

/-- The writer side of a run replays a sequential session from `(s, k)`, the state `start()`
left: the worker's writes and its flushes on an empty queue are the events `es`, and the logger
is the session's, with `running_` `true` until `stop()`'s store; once `stop()` has returned, the
session's `stop` has run as well. -/
def Replays (env : Env) (s : Logger) (k : Kernel) (w : World) : Prop :=
  ∃ es l k', Event.records es = w.written ∧ runEvents env es s k = .ok (l, k') ∧
    ((w.stopper ≠ .returned ∧ w.logger = { l with running := decide (w.stopper = .idle) } ∧
        w.kernel = k') ∨
      (w.stopper = .returned ∧ stop env l k' = .ok (w.logger, w.kernel)))

section Replays

variable {env : Env} {C : Nat} {s : Logger} {k : Kernel} {w w' : World}

/-- One step of the logger extends the replayed session by the event the worker ran, if any. -/
theorem Replays.step (hrun : s.running = true) (h : Replays env s k w) (hs : Step env C w w')
    (hstopped : w.stopper = .returned → w.workerPc = .exited) : Replays env s k w' := by
  obtain ⟨es, l, k', hrec, hev, ⟨hne, hl, hk⟩ | ⟨hret, hstop⟩⟩ := h
  · cases hs with
    | produce _ _ _ _ _ | check _ _ | dequeue _ _ _ => exact ⟨es, l, k', hrec, hev, .inl ⟨hne, hl, hk⟩⟩
    | @write msg _ _ _ hwm | @drainWrite msg _ _ _ hwm =>
      rw [hl, hk, writeMessage_setRunning] at hwm
      obtain ⟨⟨l', k''⟩, h₁, h₂⟩ := map_eq_ok hwm
      cases h₂
      exact ⟨es ++ [.dequeued msg], l', k'', by simp [hrec, Event.records], runEvents_snoc (e := .dequeued msg) hev h₁,
        .inl ⟨hne, rfl, rfl⟩⟩
    | flush _ hf =>
      rw [hl, hk, flush_setRunning] at hf
      obtain ⟨⟨l', k''⟩, h₁, h₂⟩ := map_eq_ok hf
      cases h₂
      exact ⟨es ++ [.empty], l', k'', by simp [hrec, Event.records], runEvents_snoc (e := .empty) hev h₁,
        .inl ⟨hne, rfl, rfl⟩⟩
    | stopStore hs0 =>
      refine ⟨es, l, k', hrec, hev, .inl ⟨(fun e => nomatch e), ?_, hk⟩⟩
      show { w.logger with running := false } = _
      rw [hl]; rfl
    | stopReturn hs0 _ hf =>
      -- `stop()` after the join: the session's `stop` on a logger still running
      have hl₁ : l.running = true := (running_of_runEvents hev).trans hrun
      refine ⟨es, l, k', hrec, hev, .inr ⟨rfl, ?_⟩⟩
      rw [hl, hk, hs0] at hf
      rw [stop, hl₁]
      exact hf
  · cases hs with
    | produce _ _ _ _ _ | check _ _ | dequeue _ _ _ => exact ⟨es, l, k', hrec, hev, .inr ⟨hret, hstop⟩⟩
    | write hw _ | drainWrite hw _ | flush hw _ => exact absurd (hstopped hret) (by simp [hw])
    | stopStore hs0 | stopReturn hs0 _ _ => rw [hret] at hs0; cases hs0

variable {k₀ : Nat} (hC : C = 2 ^ k₀) (hk : 1 ≤ k₀) {buffer : Nat → ParsedMessage}
include hC hk

/-- Every run of a logger that `start()` set running replays a session. -/
theorem replays_run (hrun : s.running = true)
    (hr : Relation.ReflTransGen (Step env C) (World.init buffer s k) w) : Replays env s k w := by
  induction hr with
  | refl =>
    refine ⟨[], s, k, rfl, rfl, .inl ⟨(fun e => nomatch e), ?_, rfl⟩⟩
    show s = { s with running := true }
    rw [← hrun]
  | tail hr' hs ih => exact ih.step hrun hs (inOrder_run hC hk hr').stopped

/-- Every run of the logger that `stop()` has ended is, on the writer's side, one sequential
session of the logger `start()` was called on: its events are the worker's writes and its flushes
on an empty queue, in order. -/
theorem run_refines_session {s₀ : Logger} {kernel₀ : Kernel}
    (hstart : start env s₀ kernel₀ = .ok (s, k))
    (hr : Relation.ReflTransGen (Step env C) (World.init buffer s k) w)
    (hstop : w.stopper = .returned) :
    ∃ es, Event.records es = w.written ∧ session env es s₀ kernel₀ = .ok (w.logger, w.kernel) := by
  obtain ⟨es, l, k', hrec, hev, ⟨hne, -⟩ | ⟨-, hst⟩⟩ :=
    replays_run hC hk (running_of_start hstart) hr
  · exact absurd hstop hne
  · refine ⟨es, hrec, ?_⟩
    rw [session, hstart]
    show (runEvents env es s k).bind _ = _
    rw [hev]
    exact hst

end Replays

section Stop

variable {env : Env} {C k : Nat} {mode : WriteMode} {w : World} {buffer : Nat → ParsedMessage}
  {s : Logger} {kernel : Kernel}

/-- A `BUFFERED` or `DIRECT` logger started afresh, every system call succeeding: once `stop()`
has returned, the file is the flushed batches, and their records are those at the tail positions
the worker took, in the order of their head positions, each once. -/
theorem stop_batches_in_order (henv : env.Succeeds) (hC : C = 2 ^ k) (hk : 1 ≤ k)
    (hmode : mode ≠ .mmap) (filename : String) (garbage : Nat → BitVec 8)
    {k₀ : Kernel} (hk₀ : k₀.ok = true)
    (hstart : start env (Logger.new filename mode garbage) k₀ = .ok (s, kernel))
    (hr : Relation.ReflTransGen (Step env C) (World.init buffer s kernel) w)
    (hstop : w.stopper = .returned)
    (hlen : ∀ msg ∈ w.written, (serializeMessage msg).length = getMessageSize msg)
    (hbudget : fileCost mode (images w.written).length ≤ maxFileSize) :
    w.kernel.ok = true ∧ ∃ r done, Streaming mode r w.logger w.kernel done [] ∧
      Batch.allRecords done = w.queue.claimed.take w.queue.tail := by
  obtain ⟨es, hrec, hsession⟩ := run_refines_session hC hk hstart hr hstop
  obtain ⟨s', k', done, h', hok, hst, hdone⟩ := session_streaming henv hmode filename garbage hk₀
    (by rw [hrec]; exact hlen) (by rw [hrec]; exact hbudget)
  rw [hsession] at h'
  cases h'
  exact ⟨hok, false, done, hst, by rw [hdone, hrec, stop_writes_in_order hC hk hr hstop]⟩

/-- A `BUFFERED` or `MMAP` logger started afresh, every system call succeeding: once `stop()` has
returned, the file is the images of the records at the tail positions the worker took, back to
back in the order of their head positions, each once. The images stay under the largest `off_t`,
and under `MMAP` under 4 EiB. -/
theorem stop_file_in_order (henv : env.Succeeds) (hC : C = 2 ^ k) (hk : 1 ≤ k)
    (hmode : mode = .buffered ∨ mode = .mmap) (filename : String) (garbage : Nat → BitVec 8)
    {k₀ : Kernel} (hk₀ : k₀.ok = true)
    (hstart : start env (Logger.new filename mode garbage) k₀ = .ok (s, kernel))
    (hr : Relation.ReflTransGen (Step env C) (World.init buffer s kernel) w)
    (hstop : w.stopper = .returned)
    (hlen : ∀ msg ∈ w.written, (serializeMessage msg).length = getMessageSize msg)
    (hbudget : (images w.written).length ≤ if mode = .mmap then 2 ^ 62 else maxFileSize) :
    w.kernel.ok = true ∧ w.kernel.file = images (w.queue.claimed.take w.queue.tail) := by
  rw [← stop_writes_in_order hC hk hr hstop]
  rcases hmode with rfl | rfl
  · obtain ⟨hok, r, done, hst, hrec⟩ := stop_batches_in_order henv hC hk (by decide) filename
      garbage hk₀ hstart hr hstop hlen (by simpa [fileCost] using hbudget)
    rw [← stop_writes_in_order hC hk hr hstop] at hrec
    exact ⟨hok, by rw [hst.file_eq_images, hrec]⟩
  · rw [start_mmap rfl rfl] at hstart
    cases hstart

theorem stop_file_in_order_two_records :
    ∃ s k w, start Env.exact (Logger.new "log.bin" .buffered fun _ => 0) ⟨[], 0, none, 0, true, false⟩ =
        .ok (s, k) ∧ Env.exact.Succeeds ∧ queueSize = 2 ^ 20 ∧ 1 ≤ 20 ∧
      Relation.ReflTransGen (Step Env.exact queueSize) (World.init (fun _ => sampleAddOrder) s k) w ∧
      w.stopper = .returned ∧ w.written = [sampleAddOrder, otherAddOrder] ∧
      (∀ msg ∈ w.written, (serializeMessage msg).length = getMessageSize msg) ∧
      (images w.written).length ≤ (if WriteMode.buffered = .mmap then 2 ^ 62 else maxFileSize) ∧
      w.kernel.ok = true ∧ w.kernel.file = images (w.queue.claimed.take w.queue.tail) := by
  obtain ⟨s, k, w, w₁, w₂, hstart, hr, -, -, hs, -, hs₂, hret, -, hwr⟩ := two_record_session_run
  have hlen : ∀ msg ∈ w₂.written, (serializeMessage msg).length = getMessageSize msg := by
    rw [hwr]
    intro msg hm
    rcases List.mem_pair.1 hm with rfl | rfl
    · exact parsed_sampleAddOrder.length_image
    · exact parsed_otherAddOrder.length_image
  have hbudget : (images w₂.written).length ≤ if WriteMode.buffered = .mmap then 2 ^ 62 else maxFileSize := by
    rw [hwr]; decide
  have hC : queueSize = 2 ^ 20 := rfl
  exact ⟨s, k, w₂, hstart, Env.exact_succeeds, hC, by decide, (hr.tail hs).tail hs₂, hret, hwr, hlen,
    hbudget, stop_file_in_order Env.exact_succeeds hC (by decide) (.inl rfl) "log.bin" _ rfl hstart
      ((hr.tail hs).tail hs₂) hret hlen hbudget⟩

end Stop

end FastMarket.Concurrent
