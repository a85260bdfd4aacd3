import FastMarket.Logger.Concurrent
import FastMarket.Queue.Progress

/-!
# How long `stop()` waits

`stop()` stores `running_ = false` and joins the worker, which leaves its drain loop
`while (queue_.try_dequeue(msg)) write_message(msg);` only when a `try_dequeue` returns `false`.
A producer that logs between two of the loop's calls keeps it going: the loop takes the records
logged after `running_ = false` as well as those before, and there is no bound on how many.
Under `BUFFERED` and `DIRECT` every `write_message` returns, whatever the kernel answers, so for
any list of records there is a run in which `stop()` is still joining after the worker has
written all of them.
-/

namespace FastMarket.Concurrent

open Interleaving

set_option autoImplicit false

/-- The worker at the top of its drain loop, about to call `try_dequeue` on an empty ring, with
every other thread outside `log`, `stop()` joining, and the writer outside `MMAP` with its buffer
in bounds. -/
structure DrainIdle (C : Nat) (w : World) : Prop where
  reachable : Reachable C w.queue
  worker : w.workerPc = .drain
  dequeuing : w.queue.threads workerThread = .deqLoadTail
  producers : ∀ t, t ≠ workerThread → w.queue.threads t = .idle
  empty : w.queue.head = w.queue.tail
  joining : w.stopper = .joining
  mode : w.logger.writeMode ≠ .mmap
  offset_le : w.logger.bufferOffset ≤ bufferSize

section Rounds

variable {env : Env} {C : Nat} {w w' : World}

/-- The queue of a run from a reachable queue stays reachable. -/
theorem Roles.reachable_run (h : Roles w) (hq : Reachable C w.queue)
    (hr : Relation.ReflTransGen (Step env C) w w') : Reachable C w'.queue ∧ Roles w' := by
  induction hr with
  | refl => exact ⟨hq, h⟩
  | tail _ hs ih =>
    refine ⟨?_, ih.2.step hs⟩
    rcases ih.2.queue_step hs with e | hstep
    · rw [e]; exact ih.1
    · exact ih.1.step hstep

/-- A producer that is not the worker's thread logs `x` in one uninterrupted `try_enqueue` on a
ring whose slot of `head_` is free. -/
theorem produce_alone {t : Nat} (ht0 : t ≠ workerThread) (ht : w.queue.threads t = .idle)
    (x : ParsedMessage) (hfree : w.queue.sequences (slot C w.queue.head) = w.queue.head) :
    Relation.ReflTransGen (Step env C) w
      { w with queue := w.queue.enqueued C x, logged := w.logged ++ [x] } := by
  have r1 : Relation.ReflTransGen (Step env C) w _ :=
    .single (Step.produce t ht0 (Interleaving.Step.invokeEnqueue x ht) (fun _ h => setPc_threads_ne h)
      (by simp [InLog]))
  have r2 := r1.tail (Step.produce t ht0 (@Interleaving.Step.enqLoadHead _ C _ t x (by simp))
    (fun _ h => setPc_threads_ne h) (by simp [InLog]))
  have r3 := r2.tail (Step.produce t ht0 (@Interleaving.Step.enqLoadSeq _ C _ t x w.queue.head (by simp))
    (fun _ h => setPc_threads_ne h) (by simp [enqBranch_eq, hfree, InLog]))
  have r4 := r3.tail (Step.produce t ht0
    (@Interleaving.Step.enqCasSucceed _ C _ t x w.queue.head (by simp [enqBranch_eq, hfree]) (by simp))
    (fun _ h => setPc_threads_ne h) (by simp [InLog]))
  have r5 := r4.tail (Step.produce t ht0 (@Interleaving.Step.enqWrite _ C _ t x w.queue.head (by simp))
    (fun _ h => setPc_threads_ne h) (by simp [InLog]))
  have r6 := r5.tail (Step.produce t ht0 (@Interleaving.Step.enqPublish _ C _ t w.queue.head (by simp))
    (fun _ h => setPc_threads_ne h) (by simp [InLog]))
  have e : Function.update w.queue.threads t .idle = w.queue.threads := Function.update_eq_self_iff.2 ht.symm
  convert r6 using 2
  · simp only [System.enqueued, System.setPc, Function.update_idem, e]
  · simp [logReturn]

/-- The drain loop's `try_dequeue` on a published `tail_`, then `write_message` on the record. -/
theorem drain_alone (hw : w.workerPc = .drain) (hq : w.queue.threads workerThread = .deqLoadTail)
    (hpub : w.queue.sequences (slot C w.queue.tail) = w.queue.tail + 1) {s : Logger} {k : Kernel}
    (hwrite : writeMessage env (w.queue.buffer (slot C w.queue.tail)) w.logger w.kernel = .ok (s, k)) :
    Relation.ReflTransGen (Step env C) w
      { w with queue := w.queue.dequeued C, logger := s, kernel := k,
               written := w.written ++ [w.queue.buffer (slot C w.queue.tail)] } := by
  have r1 : Relation.ReflTransGen (Step env C) w _ :=
    .single (Step.dequeue (.inr hw) (@Interleaving.Step.deqLoadTail _ C _ workerThread hq)
      (fun _ h => setPc_threads_ne h))
  have r2 := r1.tail (Step.dequeue (.inr (by simp [afterDequeue, hw, hq]))
    (@Interleaving.Step.deqLoadSeq _ C _ workerThread w.queue.tail (by simp)) (fun _ h => setPc_threads_ne h))
  have r3 := r2.tail (Step.dequeue (.inr (by simp [afterDequeue, hw, hq, deqBranch_eq, hpub]))
    (@Interleaving.Step.deqCasSucceed _ C _ workerThread w.queue.tail (by simp [deqBranch_eq, hpub]) (by simp))
    (fun _ h => setPc_threads_ne h))
  have r4 := r3.tail (Step.dequeue (.inr (by simp [afterDequeue, hw, hq, deqBranch_eq, hpub]))
    (@Interleaving.Step.deqRead _ C _ workerThread w.queue.tail (by simp)) (fun _ h => setPc_threads_ne h))
  have r5 := r4.tail (Step.dequeue (.inr (by simp [afterDequeue, hw, hq, deqBranch_eq, hpub]))
    (@Interleaving.Step.deqRelease _ C _ workerThread w.queue.tail (w.queue.buffer (slot C w.queue.tail))
      (by simp)) (fun _ h => setPc_threads_ne h))
  have r6 := r5.tail (Step.drainWrite (by simp [afterDequeue, hw, hq, deqBranch_eq, hpub]) hwrite)
  have e : Function.update w.queue.threads workerThread .deqLoadTail = w.queue.threads :=
    Function.update_eq_self_iff.2 hq.symm
  convert r6 using 2
  simp only [System.dequeued, System.setPc, Function.update_idem, e]

theorem DrainIdle.roles (h : DrainIdle C w) : Roles w where
  producers t ht := by rw [h.producers t ht]; trivial
  worker := by rw [h.worker, h.dequeuing]; trivial

variable {k : Nat} (hC : C = 2 ^ k) (hk : 1 ≤ k)
include hC hk

/-- One round: a producer logs `x` while the drain loop waits on the empty ring, and the drain
loop takes it and writes it; the worker is back at the top of its drain loop. -/
theorem DrainIdle.round (h : DrainIdle C w) (x : ParsedMessage) :
    ∃ w', Relation.ReflTransGen (Step env C) w w' ∧ DrainIdle C w' ∧ w'.written = w.written ++ [x] ∧
      w'.logged = w.logged ++ [x] ∧ w'.loggedAtStop = w.loggedAtStop := by
  have hC2 := two_le_capacity hk hC
  -- no consumer holds a slot, so the slot of `head_` is free
  have hfree : w.queue.sequences (slot C w.queue.head) = w.queue.head := by
    refine ((reachable_inv hC hk h.reachable).seq_head hC hk).2.2 ⟨by rw [h.empty]; omega, ?_⟩
    rintro t' ⟨-, hc⟩
    by_cases e : t' = workerThread
    · rw [e, h.dequeuing] at hc; exact hc
    · rw [h.producers t' e] at hc; exact hc
  have r₁ : Relation.ReflTransGen (Step env C) w _ :=
    produce_alone (t := 1) (by decide) (h.producers 1 (by decide)) x hfree
  obtain ⟨s, k, hwrite, hoff, hmode⟩ := writeMessage_in_bounds env w.kernel h.mode h.offset_le x
  have hx : (w.queue.enqueued C x).buffer (slot C (w.queue.enqueued C x).tail) = x := by
    simp [System.enqueued, h.empty]
  have r₂ := drain_alone (w := { w with queue := w.queue.enqueued C x, logged := w.logged ++ [x] })
    h.worker h.dequeuing (by simp [System.enqueued, h.empty]) (hx ▸ hwrite)
  refine ⟨_, r₁.trans r₂, ⟨?_, h.worker, h.dequeuing, h.producers, ?_, h.joining, hmode ▸ h.mode, hoff⟩,
    by rw [hx], rfl, rfl⟩
  · exact (h.roles.reachable_run h.reachable (r₁.trans r₂)).1
  · show w.queue.head + 1 = w.queue.tail + 1
    rw [h.empty]

/-- Round after round: the drain loop writes every record of `xs`, each logged after `stop()`
stored `running_ = false`, and `stop()` is still joining. -/
theorem DrainIdle.run (h : DrainIdle C w) (xs : List ParsedMessage) :
    ∃ w', Relation.ReflTransGen (Step env C) w w' ∧ DrainIdle C w' ∧ w'.written = w.written ++ xs ∧
      w'.logged = w.logged ++ xs ∧ w'.loggedAtStop = w.loggedAtStop := by
  induction xs generalizing w with
  | nil => exact ⟨w, .refl, h, by simp, by simp, rfl⟩
  | cons x xs ih =>
    obtain ⟨w₁, r₁, h₁, hw₁, hl₁, hs₁⟩ := h.round hC hk x
    obtain ⟨w₂, r₂, h₂, hw₂, hl₂, hs₂⟩ := ih h₁
    exact ⟨w₂, r₁.trans r₂, h₂, by simp [hw₂, hw₁], by simp [hl₂, hl₁], hs₂.trans hs₁⟩

end Rounds

/-- `stop()` on a started `BUFFERED` or `DIRECT` logger, with nothing logged yet, can be kept
joining for as long as producers log: for every list of records there is a run, whatever the
kernel answers, in which the worker has written all of them in its drain loop, each logged
after `running_ = false`, and is still in the loop. -/
theorem stop_waits_for_producers {env : Env} {C k : Nat} (hC : C = 2 ^ k) (hk : 1 ≤ k)
    (buffer : Nat → ParsedMessage) {s : Logger} (kernel : Kernel) (hmode : s.writeMode ≠ .mmap)
    (hoff : s.bufferOffset ≤ bufferSize) (xs : List ParsedMessage) :
    ∃ w, Relation.ReflTransGen (Step env C) (World.init buffer s kernel) w ∧ w.stopper = .joining ∧
      w.workerPc = .drain ∧ w.loggedAtStop = [] ∧ w.logged = xs ∧ w.written = xs := by
  -- `stop()` stores `running_ = false`; the worker reads it and enters the drain loop
  let w₀ : World :=
    ⟨(System.init buffer).setPc workerThread .deqLoadTail, { s with running := false }, kernel, .drain,
      .joining, [], [], []⟩
  have r₀ : Relation.ReflTransGen (Step env C) (World.init buffer s kernel) w₀ :=
    (Relation.ReflTransGen.single (Step.stopStore rfl)).tail (Step.check rfl rfl)
  have h₀ : DrainIdle C w₀ :=
    ⟨.step (.init buffer) (.invokeDequeue rfl), rfl, rfl,
      fun t ht => by simp [setPc_threads_ne ht, System.init], rfl, rfl, hmode, hoff⟩
  obtain ⟨w, r, h, hw, hl, hs⟩ : ∃ w, Relation.ReflTransGen (Step env C) w₀ w ∧ DrainIdle C w ∧
      w.written = [] ++ xs ∧ w.logged = [] ++ xs ∧ w.loggedAtStop = [] := h₀.run hC hk xs
  exact ⟨w, r₀.trans r, h.joining, h.worker, hs, by simpa using hl, by simpa using hw⟩

theorem stop_waits_for_producers_two :
    queueSize = 2 ^ 20 ∧ 1 ≤ 20 ∧ (Logger.new "log.bin" .buffered fun _ => 0).writeMode ≠ .mmap ∧
      (Logger.new "log.bin" .buffered fun _ => 0).bufferOffset ≤ bufferSize ∧
      ∃ w, Relation.ReflTransGen (Step Env.exact queueSize)
          (World.init (fun _ => sampleAddOrder) (Logger.new "log.bin" .buffered fun _ => 0)
            ⟨[], 0, none, 0, true, false⟩) w ∧
        w.stopper = .joining ∧ w.workerPc = .drain ∧ w.loggedAtStop = [] ∧
        w.logged = [sampleAddOrder, sampleAddOrder] ∧ w.written = [sampleAddOrder, sampleAddOrder] :=
  ⟨rfl, by decide, by decide, BitVec.le_def.2 (Nat.zero_le _),
    stop_waits_for_producers (show queueSize = 2 ^ 20 from rfl) (by decide) _ _ (by decide)
      (BitVec.le_def.2 (Nat.zero_le _)) _⟩

end FastMarket.Concurrent
