import FastMarket.Queue.Interleaving
import FastMarket.Logger.Session

/-!
# `stop()` against producers still inside `log()`

`AsyncLogger::log` is `queue_.try_enqueue(msg)`. The worker thread runs `worker_loop`: while it
reads `running_ = true` it dequeues and writes each record, or flushes when the queue is empty;
once it reads `running_ = false` it drains with `while (queue_.try_dequeue(msg))
write_message(msg);`. `stop()` stores `running_ = false`, joins the worker, then runs `flush()`
and `close_file()`.

The queue is the interleaving model of `FastMarket.Interleaving`: thread `workerThread` runs
the worker's `try_dequeue` calls, every other thread only `log`. The writer is the sequential
model, run by the worker and, after the join, by `stop()`.

Along every run the worker writes the records claimed in the queue in the order of their head
positions, each once, and once `stop()` has returned it has written exactly those at the tail
positions it took. The drain loop stops at the first tail position a producer has claimed and
not yet published, so a record logged before `stop()` can be left in the queue
(`FastMarket.Logger.Shutdown` shows that this is the only way).
-/

namespace FastMarket.Concurrent

open Interleaving

set_option autoImplicit false

/-- `QUEUE_SIZE`, the capacity of `queue_`. -/
def queueSize : Nat := 1024 * 1024

/-- The queue thread that runs the worker's `try_dequeue` calls. -/
def workerThread : Nat := 0

/-- Where `worker_loop` is. -/
inductive WorkerPc
  | check
  | dequeue
  | write (msg : ParsedMessage)
  | flush
  | drain
  | drainWrite (msg : ParsedMessage)
  | exited
  deriving DecidableEq

/-- Where `stop()` is: not called, joining the worker after storing `running_ = false`, or
returned after `flush()` and `close_file()`. -/
inductive StopPc
  | idle
  | joining
  | returned
  deriving DecidableEq

structure World where
  queue : System ParsedMessage
  logger : Logger
  kernel : Kernel
  workerPc : WorkerPc
  stopper : StopPc
  /-- The records `write_message` was called on, in order. -/
  written : List ParsedMessage
  /-- The records whose `log` returned `true`, in order. -/
  logged : List ParsedMessage
  /-- `logged` when `stop()` stored `running_ = false`. -/
  loggedAtStop : List ParsedMessage

/-- After `start()`: an empty queue, the worker about to read `running_`. -/
def World.init (buffer : Nat → ParsedMessage) (s : Logger) (k : Kernel) : World :=
  ⟨System.init buffer, s, k, .check, .idle, [], [], []⟩

/-- The program points of `try_enqueue`, and `idle`: where a thread that only calls `log` is. -/
def InLog : Pc ParsedMessage → Prop
  | .idle | .enqLoadHead _ | .enqLoadSeq _ _ | .enqCas _ _ | .enqWrite _ _ | .enqPublish _ => True
  | _ => False

/-- The record a producer's step returned `true` for: its publish, after which `log` returns. -/
def logReturn (C : Nat) (q : System ParsedMessage) : Pc ParsedMessage → Pc ParsedMessage →
    List ParsedMessage
  | .enqPublish pos, .idle => [q.buffer (slot C pos)]
  | _, _ => []

/-- Where the worker goes when its `try_dequeue` returns: `true` after the release store, with
the record it read, or `false` when the slot's sequence number is behind. -/
def afterDequeue (ctl : WorkerPc) : Pc ParsedMessage → Pc ParsedMessage → WorkerPc
  | .deqRelease _ msg, .idle => if ctl = .dequeue then .write msg else .drainWrite msg
  | .deqLoadSeq _, .idle => if ctl = .dequeue then .flush else .exited
  | _, _ => ctl

/-- One step of a producer, of the worker or of `stop()`, for a queue of capacity `C`. -/
inductive Step (env : Env) (C : Nat) : World → World → Prop
  | produce {w : World} {q : System ParsedMessage} (t : Nat) (ht : t ≠ workerThread)
      (hq : Interleaving.Step C w.queue q) (hothers : ∀ t', t' ≠ t → q.threads t' = w.queue.threads t')
      (hlog : InLog (q.threads t)) :
      Step env C w { w with
        queue := q
        logged := w.logged ++ logReturn C w.queue (w.queue.threads t) (q.threads t) }
  | check {w : World} (hw : w.workerPc = .check) (hidle : w.queue.threads workerThread = .idle) :
      Step env C w { w with
        queue := w.queue.setPc workerThread .deqLoadTail
        workerPc := if w.logger.running then .dequeue else .drain }
  | dequeue {w : World} {q : System ParsedMessage} (hw : w.workerPc = .dequeue ∨ w.workerPc = .drain)
      (hq : Interleaving.Step C w.queue q)
      (hothers : ∀ t', t' ≠ workerThread → q.threads t' = w.queue.threads t') :
      Step env C w { w with
        queue := q
        workerPc := afterDequeue w.workerPc (w.queue.threads workerThread) (q.threads workerThread) }
  | write {w : World} {msg : ParsedMessage} {s : Logger} {k : Kernel} (hw : w.workerPc = .write msg)
      (h : writeMessage env msg w.logger w.kernel = .ok (s, k)) :
      Step env C w { w with
        logger := s
        kernel := k
        workerPc := .check
        written := w.written ++ [msg] }
  | drainWrite {w : World} {msg : ParsedMessage} {s : Logger} {k : Kernel}
      (hw : w.workerPc = .drainWrite msg) (h : writeMessage env msg w.logger w.kernel = .ok (s, k)) :
      Step env C w { w with
        queue := w.queue.setPc workerThread .deqLoadTail
        logger := s
        kernel := k
        workerPc := .drain
        written := w.written ++ [msg] }
  | flush {w : World} {s : Logger} {k : Kernel} (hw : w.workerPc = .flush)
      (h : FastMarket.flush env w.logger w.kernel = .ok (s, k)) :
      Step env C w { w with logger := s, kernel := k, workerPc := .check }
  | stopStore {w : World} (hs : w.stopper = .idle) :
      Step env C w { w with
        logger := { w.logger with running := false }
        stopper := .joining
        loggedAtStop := w.logged }
  | stopReturn {w : World} {s : Logger} {k : Kernel} (hs : w.stopper = .joining)
      (hw : w.workerPc = .exited)
      (h : (FastMarket.flush env w.logger w.kernel).map (fun r => closeFile env r.1 r.2) = .ok (s, k)) :
      Step env C w { w with logger := s, kernel := k, stopper := .returned }

/-- The program points of `try_dequeue`. -/
def InDequeue : Pc ParsedMessage → Prop
  | .deqLoadTail | .deqLoadSeq _ | .deqCas _ | .deqRead _ | .deqRelease _ _ => True
  | _ => False

theorem enqBranch_cases (item : ParsedMessage) (pos seq : Nat) :
    enqBranch item pos seq = .enqCas item pos ∨ enqBranch item pos seq = .idle ∨
      enqBranch item pos seq = .enqLoadHead item := by
  unfold enqBranch; dsimp only; split_ifs <;> simp

theorem deqBranch_cases (pos seq : Nat) :
    deqBranch (T := ParsedMessage) pos seq = .deqCas pos ∨
      deqBranch (T := ParsedMessage) pos seq = .idle ∨
      deqBranch (T := ParsedMessage) pos seq = .deqLoadTail := by
  unfold deqBranch; dsimp only; split_ifs <;> simp

/-- `try_dequeue` returns `false` when the slot's sequence number is behind `pos + 1`. -/
theorem lt_of_deqBranch_eq_idle {pos seq : Nat} (h : deqBranch (T := ParsedMessage) pos seq = .idle) :
    seq < pos + 1 := by
  unfold deqBranch at h; dsimp only at h
  split_ifs at h with h1 h2
  omega

section Moves

variable {C : Nat} {s q : System ParsedMessage} {u : Nat}

/-- A step of the queue in which only thread `u` moved, `u` inside `try_dequeue`: one of the
steps of `try_dequeue`, taken by `u`. -/
theorem worker_step (hq : Interleaving.Step C s q)
    (hothers : ∀ t', t' ≠ u → q.threads t' = s.threads t') (hin : InDequeue (s.threads u)) :
    (s.threads u = .deqLoadTail ∧ q = s.setPc u (.deqLoadSeq s.tail)) ∨
    (∃ pos, s.threads u = .deqLoadSeq pos ∧
      q = s.setPc u (deqBranch pos (s.sequences (slot C pos)))) ∨
    (∃ pos, s.threads u = .deqCas pos ∧ s.tail = pos ∧
      q = { s.setPc u (.deqRead pos) with tail := pos + 1 }) ∨
    (∃ pos, s.threads u = .deqCas pos ∧ q = s.setPc u (.deqLoadSeq s.tail)) ∨
    (∃ pos, s.threads u = .deqRead pos ∧
      q = { s.setPc u (.deqRelease pos (s.buffer (slot C pos))) with
        copied := s.copied ++ [(pos, s.buffer (slot C pos))] }) ∨
    (∃ pos m, s.threads u = .deqRelease pos m ∧
      q = { s.setPc u .idle with sequences := Function.update s.sequences (slot C pos) (pos + C) }) := by
  have self : ∀ {t0 : Nat} {pc : Pc ParsedMessage}, q.threads t0 = pc → pc ≠ s.threads t0 → t0 = u :=
    fun hnew hne => by_contra fun e => hne (hnew ▸ hothers _ e)
  cases hq with
  | invokeEnqueue item h0 | invokeDequeue h0 | enqLoadHead h0 | enqCasSucceed h0 | enqCasFail h0
  | enqWrite h0 | enqPublish h0 =>
    obtain rfl := self setPc_threads_self (by rw [h0]; simp)
    rw [h0] at hin; exact hin.elim
  | @enqLoadSeq t0 item pos h0 =>
    obtain rfl := self setPc_threads_self (by
      rw [h0]; rcases enqBranch_cases item pos (s.sequences (slot C pos)) with h | h | h <;> rw [h] <;> simp)
    rw [h0] at hin; exact hin.elim
  | deqLoadTail h0 =>
    obtain rfl := self setPc_threads_self (by rw [h0]; simp)
    exact .inl ⟨h0, rfl⟩
  | @deqLoadSeq t0 pos h0 =>
    obtain rfl := self setPc_threads_self (by
      rw [h0]; rcases deqBranch_cases pos (s.sequences (slot C pos)) with h | h | h <;> rw [h] <;> simp)
    exact .inr (.inl ⟨pos, h0, rfl⟩)
  | @deqCasSucceed t0 pos h0 ht =>
    obtain rfl := self setPc_threads_self (by rw [h0]; simp)
    exact .inr (.inr (.inl ⟨pos, h0, ht, rfl⟩))
  | @deqCasFail t0 pos h0 =>
    obtain rfl := self setPc_threads_self (by rw [h0]; simp)
    exact .inr (.inr (.inr (.inl ⟨pos, h0, rfl⟩)))
  | @deqRead t0 pos h0 =>
    obtain rfl := self setPc_threads_self (by rw [h0]; simp)
    exact .inr (.inr (.inr (.inr (.inl ⟨pos, h0, rfl⟩))))
  | @deqRelease t0 pos m h0 =>
    obtain rfl := self setPc_threads_self (by rw [h0]; simp)
    exact .inr (.inr (.inr (.inr (.inr ⟨pos, m, h0, rfl⟩))))

end Moves

/-- Where the worker's queue thread is, by where `worker_loop` is: inside `try_dequeue` during
a call of it, idle otherwise. -/
def WorkerOk : WorkerPc → Pc ParsedMessage → Prop
  | .dequeue, pc | .drain, pc => InDequeue pc
  | _, pc => pc = .idle

theorem afterDequeue_of_ne_idle (ctl : WorkerPc) {old new : Pc ParsedMessage} (h : new ≠ .idle) :
    afterDequeue ctl old new = ctl := by
  unfold afterDequeue
  split
  · exact absurd rfl h
  · exact absurd rfl h
  · rfl

/-- Where the worker's `try_dequeue` can leave its queue thread: still inside, or returned from
the release store or from a load of a sequence number that is behind. -/
theorem worker_step_pc {C : Nat} {s q : System ParsedMessage} {u : Nat} (hq : Interleaving.Step C s q)
    (hothers : ∀ t', t' ≠ u → q.threads t' = s.threads t') (hin : InDequeue (s.threads u)) :
    InDequeue (q.threads u) ∨ q.threads u = .idle ∧
      ((∃ p m, s.threads u = .deqRelease p m) ∨ ∃ p, s.threads u = .deqLoadSeq p) := by
  rcases worker_step hq hothers hin with ⟨-, rfl⟩ | ⟨pos, h0, rfl⟩ | ⟨pos, -, -, rfl⟩ | ⟨pos, -, rfl⟩ |
    ⟨pos, -, rfl⟩ | ⟨pos, m, h0, rfl⟩
  · exact .inl (by rw [setPc_threads_self]; trivial)
  · rw [setPc_threads_self]
    rcases deqBranch_cases pos (s.sequences (slot C pos)) with h | h | h <;> rw [h]
    · exact .inl trivial
    · exact .inr ⟨rfl, .inr ⟨pos, h0⟩⟩
    · exact .inl trivial
  · exact .inl (by show InDequeue ((s.setPc u _).threads u); rw [setPc_threads_self]; trivial)
  · exact .inl (by rw [setPc_threads_self]; trivial)
  · exact .inl (by show InDequeue ((s.setPc u _).threads u); rw [setPc_threads_self]; trivial)
  · exact .inr ⟨by show (s.setPc u _).threads u = _; rw [setPc_threads_self], .inl ⟨pos, m, h0⟩⟩

theorem workerOk_afterDequeue {ctl : WorkerPc} (hctl : ctl = .dequeue ∨ ctl = .drain)
    {old new : Pc ParsedMessage}
    (h : InDequeue new ∨ new = .idle ∧ ((∃ p m, old = .deqRelease p m) ∨ ∃ p, old = .deqLoadSeq p)) :
    WorkerOk (afterDequeue ctl old new) new := by
  rcases h with h | ⟨rfl, ⟨p, m, rfl⟩ | ⟨p, rfl⟩⟩
  · have hne : new ≠ .idle := by rintro rfl; exact h
    rw [afterDequeue_of_ne_idle ctl hne]
    rcases hctl with rfl | rfl <;> exact h
  all_goals show WorkerOk (if ctl = .dequeue then _ else _) .idle; split <;> rfl

/-- Every thread but the worker's only calls `log`, and the worker's queue thread follows
`worker_loop`. -/
structure Roles (w : World) : Prop where
  producers : ∀ t, t ≠ workerThread → InLog (w.queue.threads t)
  worker : WorkerOk w.workerPc (w.queue.threads workerThread)

section Roles

variable {env : Env} {C : Nat} {w w' : World}

theorem roles_init (buffer : Nat → ParsedMessage) (s : Logger) (k : Kernel) :
    Roles (World.init buffer s k) :=
  ⟨fun _ _ => trivial, rfl⟩

theorem Roles.inDequeue (h : Roles w) (hw : w.workerPc = .dequeue ∨ w.workerPc = .drain) :
    InDequeue (w.queue.threads workerThread) := by
  have := h.worker; rcases hw with e | e <;> rw [e] at this <;> exact this

theorem Roles.step (h : Roles w) (hs : Step env C w w') : Roles w' := by
  cases hs with
  | produce t ht hq hothers hlog =>
    refine ⟨fun t' ht' => ?_, ?_⟩
    · by_cases e : t' = t
      · subst e; exact hlog
      · rw [hothers t' e]; exact h.producers t' ht'
    · show WorkerOk w.workerPc _
      rw [hothers _ (Ne.symm ht)]; exact h.worker
  | check hw hidle =>
    refine ⟨fun t' ht' => by rw [setPc_threads_ne ht']; exact h.producers t' ht', ?_⟩
    show WorkerOk (if _ then _ else _) ((w.queue.setPc workerThread .deqLoadTail).threads workerThread)
    rw [setPc_threads_self]; split <;> trivial
  | dequeue hw hq hothers =>
    exact ⟨fun t' ht' => by rw [hothers t' ht']; exact h.producers t' ht',
      workerOk_afterDequeue hw (worker_step_pc hq hothers (h.inDequeue hw))⟩
  | write hw _ | flush hw _ => exact ⟨h.producers, by have := h.worker; rw [hw] at this; exact this⟩
  | drainWrite hw _ =>
    refine ⟨fun t' ht' => by rw [setPc_threads_ne ht']; exact h.producers t' ht', ?_⟩
    show InDequeue ((w.queue.setPc workerThread .deqLoadTail).threads workerThread)
    rw [setPc_threads_self]; trivial
  | stopStore _ | stopReturn _ _ _ => exact ⟨h.producers, h.worker⟩

/-- A step of the logger moves its queue by a step of the queue, or not at all. -/
theorem Roles.queue_step (h : Roles w) (hs : Step env C w w') :
    w'.queue = w.queue ∨ Interleaving.Step C w.queue w'.queue := by
  cases hs with
  | produce _ _ hq _ _ | dequeue _ hq _ => exact .inr hq
  | check _ hidle => exact .inr (.invokeDequeue hidle)
  | drainWrite hw _ =>
    have := h.worker; rw [hw] at this
    exact .inr (.invokeDequeue this)
  | write _ _ | flush _ _ | stopStore _ | stopReturn _ _ _ => exact .inl rfl

/-- The queue of every run of the logger is a reachable state of the queue model, so everything
proved of those holds of it. -/
theorem queue_reachable {buffer : Nat → ParsedMessage} {s : Logger} {k : Kernel}
    (hr : Relation.ReflTransGen (Step env C) (World.init buffer s k) w) :
    Interleaving.Reachable C w.queue ∧ Roles w := by
  induction hr with
  | refl => exact ⟨.init buffer, roles_init buffer s k⟩
  | tail _ hs ih =>
    refine ⟨?_, ih.2.step hs⟩
    rcases ih.2.queue_step hs with e | hq
    · rw [e]; exact ih.1
    · exact ih.1.step hq

end Roles

/-- The record `worker_loop` holds between `try_dequeue` and `write_message`. -/
def WorkerPc.pending : WorkerPc → List ParsedMessage
  | .write msg | .drainWrite msg => [msg]
  | _ => []

/-- The tail positions the worker is done with: `tail_`, less the one it holds between its
compare-exchange and its release store. -/
def released : Pc ParsedMessage → Nat → Nat
  | .deqRead p, _ | .deqRelease p _, _ => p
  | _, tail => tail

/-- What the worker's locals say of `tail_`, the worker being the only consumer: its loads and
its compare-exchange are at `tail_`, and while it holds a position `tail_` is one past it. -/
def AtTail (tail : Nat) : Pc ParsedMessage → Prop
  | .deqLoadSeq p | .deqCas p => p = tail
  | .deqRead p | .deqRelease p _ => tail = p + 1
  | _ => True

theorem released_le {tail : Nat} {pc : Pc ParsedMessage} (h : AtTail tail pc) :
    released pc tail ≤ tail := by
  cases pc with
  | deqRead p | deqRelease p _ => have : tail = p + 1 := h; show p ≤ tail; omega
  | _ => exact le_rfl

/-- The records the worker wrote, then the one it holds, are the first records claimed, in the
order of their head positions. -/
structure InOrder (w : World) : Prop where
  roles : Roles w
  atTail : AtTail w.queue.tail (w.queue.threads workerThread)
  written_eq : w.written ++ w.workerPc.pending =
    w.queue.claimed.take (released (w.queue.threads workerThread) w.queue.tail)
  stopped : w.stopper = .returned → w.workerPc = .exited

/-- Every step of the queue appends to the claimed records, if it changes them at all. -/
theorem claimed_step {C : Nat} {s q : System ParsedMessage} (hq : Interleaving.Step C s q) :
    ∃ xs, q.claimed = s.claimed ++ xs := by
  cases hq with
  | @enqCasSucceed t0 item pos _ _ => exact ⟨[item], rfl⟩
  | _ => exact ⟨[], (List.append_nil _).symm⟩

/-- A step of a thread inside `log` leaves `tail_`. -/
theorem producer_step {C : Nat} {s q : System ParsedMessage} {u : Nat} (hq : Interleaving.Step C s q)
    (hothers : ∀ t', t' ≠ u → q.threads t' = s.threads t') (hin : InLog (s.threads u)) :
    q.tail = s.tail := by
  cases hq with
  | @deqCasSucceed t0 pos h0 _ =>
    obtain rfl : t0 = u := by_contra fun e => by simpa [h0] using hothers t0 e
    rw [h0] at hin; exact hin.elim
  | _ => rfl

section InOrder

variable {env : Env} {C : Nat} {w w' : World}

theorem inOrder_init (buffer : Nat → ParsedMessage) (s : Logger) (k : Kernel) :
    InOrder (World.init buffer s k) :=
  ⟨roles_init buffer s k, trivial, rfl, fun e => by cases e⟩

theorem InOrder.stopper_ne (h : InOrder w) (hw : w.workerPc ≠ .exited) : w.stopper ≠ .returned :=
  fun e => hw (h.stopped e)

/-- One step of the worker's `try_dequeue`. -/
theorem InOrder.dequeue (hinv : Inv C w.queue) (h : InOrder w)
    (hw : w.workerPc = .dequeue ∨ w.workerPc = .drain) {q : System ParsedMessage}
    (hq : Interleaving.Step C w.queue q)
    (hothers : ∀ t', t' ≠ workerThread → q.threads t' = w.queue.threads t')
    (hroles : Roles { w with
      queue := q
      workerPc := afterDequeue w.workerPc (w.queue.threads workerThread) (q.threads workerThread) }) :
    InOrder { w with
      queue := q
      workerPc := afterDequeue w.workerPc (w.queue.threads workerThread) (q.threads workerThread) } := by
  have hstop := h.stopper_ne (by rcases hw with hw | hw <;> simp [hw])
  have hpend : w.workerPc.pending = [] := by rcases hw with hw | hw <;> rw [hw] <;> rfl
  have hat := h.atTail
  have hwr := h.written_eq
  rw [hpend, List.append_nil] at hwr
  refine ⟨hroles, ?_, ?_, fun e => absurd e hstop⟩ <;>
  rcases worker_step hq hothers (h.roles.inDequeue hw) with ⟨h0, rfl⟩ | ⟨pos, h0, rfl⟩ |
    ⟨pos, h0, ht, rfl⟩ | ⟨pos, h0, rfl⟩ | ⟨pos, h0, rfl⟩ | ⟨pos, m, h0, rfl⟩ <;>
  simp only [setPc_threads_self, setPc_tail, setPc_claimed, h0, afterDequeue, released] at hat hwr ⊢
  -- where the worker's locals stand against `tail_`, after each step of `try_dequeue`
  · exact rfl
  · rcases deqBranch_cases pos (w.queue.sequences (slot C pos)) with hb | hb | hb <;> rw [hb]
    · exact hat
    all_goals trivial
  · exact rfl
  · exact rfl
  · exact hat
  · trivial
  -- the records written and held: only the release store hands the worker a record
  · simpa only [hpend, List.append_nil] using hwr
  · rcases deqBranch_cases pos (w.queue.sequences (slot C pos)) with hb | hb | hb <;>
      simp only [hb, hpend, List.append_nil]
    · exact hwr
    · split <;> simpa only [WorkerPc.pending, List.append_nil] using hwr
    · exact hwr
  · rwa [hpend, List.append_nil, ← ht]
  · simpa only [hpend, List.append_nil] using hwr
  · simpa only [hpend, List.append_nil] using hwr
  · have hm : w.queue.claimed[pos]? = some m := by
      have := hinv.pcOk workerThread; rw [h0] at this; exact this.2.2.2
    rw [show w.queue.tail = pos + 1 from hat, List.take_succ, hm, ← hwr]
    split <;> rfl

/-- One step of the logger keeps the worker in order. -/
theorem InOrder.step (hinv : Inv C w.queue) (h : InOrder w) (hs : Step env C w w') : InOrder w' := by
  have hroles := h.roles.step hs
  cases hs with
  | @produce q t ht hq hothers _ =>
    have htail := producer_step hq hothers (h.roles.producers t ht)
    obtain ⟨xs, hcl⟩ := claimed_step hq
    have hpc : q.threads workerThread = w.queue.threads workerThread := hothers _ (Ne.symm ht)
    refine ⟨hroles, ?_, ?_, h.stopped⟩
    · show AtTail q.tail (q.threads workerThread); rw [htail, hpc]; exact h.atTail
    · show w.written ++ w.workerPc.pending = q.claimed.take (released (q.threads workerThread) q.tail)
      rw [htail, hpc, hcl, List.take_append_of_le_length, h.written_eq]
      rw [hinv.claimed_length]; exact (released_le h.atTail).trans hinv.tail_le_head
  | check hw hidle =>
    refine ⟨hroles, by simp [AtTail], ?_, fun e => absurd (h.stopped e) (by simp [hw])⟩
    show w.written ++ (if w.logger.running then WorkerPc.dequeue else .drain).pending = _
    split <;> simpa [hw, hidle, released, WorkerPc.pending] using h.written_eq
  | dequeue hw hq hothers => exact h.dequeue hinv hw hq hothers hroles
  | write hw _ =>
    refine ⟨hroles, h.atTail, ?_, fun e => absurd (h.stopped e) (by simp [hw])⟩
    simpa [hw, WorkerPc.pending] using h.written_eq
  | drainWrite hw _ =>
    have hidle : w.queue.threads workerThread = .idle := by
      have := h.roles.worker; rwa [hw] at this
    refine ⟨hroles, by simp [AtTail], ?_, fun e => absurd (h.stopped e) (by simp [hw])⟩
    simpa [hw, hidle, released, WorkerPc.pending] using h.written_eq
  | flush hw _ =>
    refine ⟨hroles, h.atTail, ?_, fun e => absurd (h.stopped e) (by simp [hw])⟩
    simpa [hw, WorkerPc.pending] using h.written_eq
  | stopStore _ => exact ⟨hroles, h.atTail, h.written_eq, fun e => by cases e⟩
  | stopReturn _ hw _ => exact ⟨hroles, h.atTail, h.written_eq, fun _ => hw⟩

/-- Every run of the logger on a power-of-two ring keeps the worker in order. -/
theorem inOrder_run {k : Nat} (hC : C = 2 ^ k) (hk : 1 ≤ k) {buffer : Nat → ParsedMessage}
    {s : Logger} {kernel : Kernel}
    (hr : Relation.ReflTransGen (Step env C) (World.init buffer s kernel) w) : InOrder w := by
  induction hr with
  | refl => exact inOrder_init buffer s kernel
  | tail hr' hs ih => exact ih.step (reachable_inv hC hk (queue_reachable hr').1) hs

/-- The step that ends the drain loop is the worker's load of the sequence number at `tail_`,
found behind `tail_ + 1`; it writes nothing. -/
theorem InOrder.exit_step (h : InOrder w) (hs : Step env C w w') (hw : w.workerPc = .drain)
    (hw' : w'.workerPc = .exited) :
    w.queue.threads workerThread = .deqLoadSeq w.queue.tail ∧
      w.queue.sequences (slot C w.queue.tail) < w.queue.tail + 1 ∧ w'.written = w.written := by
  cases hs with
  | produce _ _ _ _ _ | stopStore _ | stopReturn _ _ _ => exact absurd (hw.symm.trans hw') (by decide)
  | check hw0 _ | write hw0 _ | drainWrite hw0 _ | flush hw0 _ =>
    exact absurd (hw.symm.trans hw0) (by simp)
  | dequeue _ hq hothers =>
    rcases worker_step hq hothers (h.roles.inDequeue (.inr hw)) with ⟨h0, rfl⟩ | ⟨pos, h0, rfl⟩ |
      ⟨pos, h0, -, rfl⟩ | ⟨pos, h0, rfl⟩ | ⟨pos, h0, rfl⟩ | ⟨pos, m, h0, rfl⟩ <;>
    simp [hw, h0, afterDequeue] at hw'
    -- only a load of a sequence number behind `pos + 1` ends the loop, at `pos = tail_`
    rcases deqBranch_cases pos (w.queue.sequences (slot C pos)) with hb | hb | hb <;>
      simp [hb] at hw'
    obtain rfl : pos = w.queue.tail := by have := h.atTail; rwa [h0] at this
    exact ⟨h0, lt_of_deqBranch_eq_idle hb, rfl⟩

section Runs

variable {k : Nat} (hC : C = 2 ^ k) (hk : 1 ≤ k) {buffer : Nat → ParsedMessage} {s : Logger}
  {kernel : Kernel} (hr : Relation.ReflTransGen (Step env C) (World.init buffer s kernel) w)
include hC hk hr

/-- When `stop()` has returned, the worker wrote exactly the records at the tail positions it
took, in order. -/
theorem stop_writes_in_order (hs : w.stopper = .returned) :
    w.written = w.queue.claimed.take w.queue.tail := by
  have h := inOrder_run hC hk hr
  have hx := h.stopped hs
  have hidle : w.queue.threads workerThread = .idle := by have := h.roles.worker; rwa [hx] at this
  simpa [hx, hidle, released, WorkerPc.pending] using h.written_eq

/-- The drain loop ends only at an empty queue, or at a tail position a producer has claimed and
not yet published: the records claimed after it stay in the queue. -/
theorem drain_exit (hs : Step env C w w') (hw : w.workerPc = .drain) (hw' : w'.workerPc = .exited) :
    w.queue.tail = w.queue.head ∨ ∃ t, (w.queue.threads t).Producing w.queue.tail := by
  have hinv := reachable_inv hC hk (queue_reachable hr).1
  obtain ⟨-, hseq, -⟩ := (inOrder_run hC hk hr).exit_step hs hw hw'
  rcases Nat.lt_or_ge w.queue.tail w.queue.head with hlt | hge
  · exact .inr ((hinv.full _ le_rfl hlt).resolve_right fun ⟨hs, _⟩ => by omega)
  · exact .inl (le_antisymm hinv.tail_le_head hge)

end Runs

/-- In every run the records the worker wrote are a prefix of the records claimed: none is
written twice, and none before one claimed ahead of it. -/
theorem written_prefix {k : Nat} (hC : C = 2 ^ k) (hk : 1 ≤ k) {buffer : Nat → ParsedMessage}
    {s : Logger} {kernel : Kernel}
    (hr : Relation.ReflTransGen (Step env C) (World.init buffer s kernel) w) :
    w.written <+: w.queue.claimed :=
  (List.prefix_append _ _).trans ((inOrder_run hC hk hr).written_eq ▸ List.take_prefix _ _)

end InOrder

/-- The `AddOrder` record `ITCHParser::parse` returns for `'A'` followed by 37 bytes of `'B'`. -/
def otherAddOrder : ParsedMessage :=
  ⟨.addOrder, .addOrder (parseAddOrder fun i => if i = 0 then 0x41 else 0x42), 0⟩

theorem parsed_otherAddOrder : Parsed otherAddOrder := ⟨fun i => if i = 0 then 0x41 else 0x42, 38, 0, rfl⟩

/-- A run of a `BUFFERED` logger on `"log.bin"` with two producers. Producer 1 takes head position
0 for `sampleAddOrder`; producer 2 loses that compare-exchange, takes position 1 for
`otherAddOrder` and publishes first, so `log` returns for the second record first. The worker
writes both in position order, `stop()` stores `running_ = false`, the drain loop finds the queue
empty and `stop()` returns. -/
theorem two_record_session_run :
    ∃ s k w w₁ w₂, start Env.exact (Logger.new "log.bin" .buffered fun _ => 0) ⟨[], 0, none, 0, true, false⟩ =
        .ok (s, k) ∧
      Relation.ReflTransGen (Step Env.exact queueSize) (World.init (fun _ => sampleAddOrder) s k) w ∧
      w.workerPc = .drain ∧ w.queue.tail = w.queue.head ∧ Step Env.exact queueSize w w₁ ∧
      w₁.workerPc = .exited ∧ Step Env.exact queueSize w₁ w₂ ∧ w₂.stopper = .returned ∧
      w₂.loggedAtStop = [otherAddOrder, sampleAddOrder] ∧
      w₂.written = [sampleAddOrder, otherAddOrder] := by
  have r1 : Relation.ReflTransGen (Step Env.exact queueSize)
      (World.init (fun _ => sampleAddOrder)
        { Logger.new "log.bin" .buffered (fun _ => 0) with fd := 0, running := true }
        ⟨[], 0, none, 1, true, true⟩) _ :=
    .single (Step.produce 1 (by decide) (Interleaving.Step.invokeEnqueue (t := 1) sampleAddOrder rfl)
      (fun _ h => setPc_threads_ne h) trivial)
  have r2 := r1.tail (Step.produce 2 (by decide)
    (Interleaving.Step.invokeEnqueue (t := 2) otherAddOrder rfl) (fun _ h => setPc_threads_ne h) trivial)
  -- both producers load head position 0 and find its slot free
  have r3 := r2.tail (Step.produce 1 (by decide) (Interleaving.Step.enqLoadHead (t := 1) rfl)
    (fun _ h => setPc_threads_ne h) trivial)
  have r4 := r3.tail (Step.produce 2 (by decide) (Interleaving.Step.enqLoadHead (t := 2) rfl)
    (fun _ h => setPc_threads_ne h) trivial)
  have r5 := r4.tail (Step.produce 1 (by decide) (Interleaving.Step.enqLoadSeq (t := 1) rfl)
    (fun _ h => setPc_threads_ne h) trivial)
  have r6 := r5.tail (Step.produce 2 (by decide) (Interleaving.Step.enqLoadSeq (t := 2) rfl)
    (fun _ h => setPc_threads_ne h) trivial)
  -- producer 1 wins position 0; producer 2 retries and takes position 1
  have r7 := r6.tail (Step.produce 1 (by decide) (Interleaving.Step.enqCasSucceed (t := 1) rfl rfl)
    (fun _ h => setPc_threads_ne h) trivial)
  have r8 := r7.tail (Step.produce 2 (by decide) (Interleaving.Step.enqCasFail (t := 2) rfl)
    (fun _ h => setPc_threads_ne h) trivial)
  have r9 := r8.tail (Step.produce 2 (by decide) (Interleaving.Step.enqLoadSeq (t := 2) rfl)
    (fun _ h => setPc_threads_ne h) trivial)
  have r10 := r9.tail (Step.produce 2 (by decide) (Interleaving.Step.enqCasSucceed (t := 2) rfl rfl)
    (fun _ h => setPc_threads_ne h) trivial)
  -- producer 2 copies and publishes before producer 1
  have r11 := r10.tail (Step.produce 2 (by decide) (Interleaving.Step.enqWrite (t := 2) rfl)
    (fun _ h => setPc_threads_ne h) trivial)
  have r12 := r11.tail (Step.produce 2 (by decide) (Interleaving.Step.enqPublish (t := 2) rfl)
    (fun _ h => setPc_threads_ne h) trivial)
  have r13 := r12.tail (Step.produce 1 (by decide) (Interleaving.Step.enqWrite (t := 1) rfl)
    (fun _ h => setPc_threads_ne h) trivial)
  have r14 := r13.tail (Step.produce 1 (by decide) (Interleaving.Step.enqPublish (t := 1) rfl)
    (fun _ h => setPc_threads_ne h) trivial)
  dsimp only [World.init, System.init, System.setPc] at r14
  -- the worker takes position 0, then position 1
  have r15 := r14.tail (Step.check rfl rfl)
  have r16 := r15.tail (Step.dequeue (.inl rfl) (Interleaving.Step.deqLoadTail (t := 0) rfl)
    (fun _ h => setPc_threads_ne h))
  have r17 := r16.tail (Step.dequeue (.inl rfl) (Interleaving.Step.deqLoadSeq (t := 0) rfl)
    (fun _ h => setPc_threads_ne h))
  have r18 := r17.tail (Step.dequeue (.inl rfl) (@Interleaving.Step.deqCasSucceed _ _ _ 0 0 rfl rfl)
    (fun _ h => setPc_threads_ne h))
  have r19 := r18.tail (Step.dequeue (.inl rfl) (Interleaving.Step.deqRead (t := 0) rfl)
    (fun _ h => setPc_threads_ne h))
  have r20 := r19.tail (Step.dequeue (.inl rfl) (Interleaving.Step.deqRelease (t := 0) rfl)
    (fun _ h => setPc_threads_ne h))
  have r21 := r20.tail (Step.write rfl (writeMessage_of_fits (by decide) (by decide) (by decide)))
  dsimp only at r21
  have r22 := r21.tail (Step.check rfl rfl)
  have r23 := r22.tail (Step.dequeue (.inl rfl) (Interleaving.Step.deqLoadTail (t := 0) rfl)
    (fun _ h => setPc_threads_ne h))
  have r24 := r23.tail (Step.dequeue (.inl rfl) (Interleaving.Step.deqLoadSeq (t := 0) rfl)
    (fun _ h => setPc_threads_ne h))
  have r25 := r24.tail (Step.dequeue (.inl rfl) (@Interleaving.Step.deqCasSucceed _ _ _ 0 1 rfl rfl)
    (fun _ h => setPc_threads_ne h))
  have r26 := r25.tail (Step.dequeue (.inl rfl) (Interleaving.Step.deqRead (t := 0) rfl)
    (fun _ h => setPc_threads_ne h))
  have r27 := r26.tail (Step.dequeue (.inl rfl) (Interleaving.Step.deqRelease (t := 0) rfl)
    (fun _ h => setPc_threads_ne h))
  have r28 := r27.tail (Step.write rfl (writeMessage_of_fits (by decide) (by decide) (by decide)))
  -- `stop()`; the drain loop finds the queue empty
  have r29 := r28.tail (Step.stopStore rfl)
  have r30 := r29.tail (Step.check rfl rfl)
  have r31 := r30.tail (Step.dequeue (.inr rfl) (Interleaving.Step.deqLoadTail (t := 0) rfl)
    (fun _ h => setPc_threads_ne h))
  exact ⟨_, _, _, _, _, rfl, r31, rfl, rfl,
    Step.dequeue (.inr rfl) (Interleaving.Step.deqLoadSeq (t := 0) rfl) (fun _ h => setPc_threads_ne h),
    rfl, Step.stopReturn rfl rfl rfl, rfl, rfl, rfl⟩

theorem written_prefix_two_records :
    ∃ s k w, start Env.exact (Logger.new "log.bin" .buffered fun _ => 0) ⟨[], 0, none, 0, true, false⟩ =
        .ok (s, k) ∧ queueSize = 2 ^ 20 ∧ 1 ≤ 20 ∧
      Relation.ReflTransGen (Step Env.exact queueSize) (World.init (fun _ => sampleAddOrder) s k) w ∧
      w.written = [sampleAddOrder, otherAddOrder] ∧ w.written <+: w.queue.claimed := by
  obtain ⟨s, k, w, w₁, w₂, hstart, hr, -, -, hs, -, hs₂, -, -, hwr⟩ := two_record_session_run
  have hC : queueSize = 2 ^ 20 := rfl
  have hr₂ := (hr.tail hs).tail hs₂
  exact ⟨s, k, w₂, hstart, hC, by decide, hr₂, hwr, written_prefix hC (by decide) hr₂⟩

/-- `stop()` can return with a record whose `log` returned `true` before `running_ = false`
never written, and still in the queue. Producer 1 takes head position 0 with its
compare-exchange and has not published it yet; producer 2 logs a record at position 1;
`stop()` stores `running_ = false`; the worker, at the loop's test, goes to the drain loop, whose
first `try_dequeue` finds position 0 unpublished and returns `false`. -/
theorem stop_drops_logged_record :
    ∃ s k w, start Env.exact (Logger.new "log.bin" .buffered fun _ => 0) ⟨[], 0, none, 0, true, false⟩ =
        .ok (s, k) ∧
      Relation.ReflTransGen (Step Env.exact queueSize) (World.init (fun _ => sampleAddOrder) s k) w ∧
      w.stopper = .returned ∧ w.loggedAtStop = [sampleAddOrder] ∧ w.written = [] ∧
      w.kernel.file = [] ∧ w.queue.tail = 0 ∧ w.queue.head = 2 ∧
      w.queue.sequences (slot queueSize 1) = 2 ∧ w.queue.claimed[1]? = some sampleAddOrder := by
  have r1 : Relation.ReflTransGen (Step Env.exact queueSize)
      (World.init (fun _ => sampleAddOrder)
        { Logger.new "log.bin" .buffered (fun _ => 0) with fd := 0, running := true }
        ⟨[], 0, none, 1, true, true⟩) _ :=
    .single (Step.produce 1 (by decide) (Interleaving.Step.invokeEnqueue (t := 1) sampleAddOrder rfl)
      (fun _ h => setPc_threads_ne h) trivial)
  -- producer 1 takes head position 0 and stops before its copy
  have r2 := r1.tail (Step.produce 1 (by decide) (Interleaving.Step.enqLoadHead (t := 1) rfl)
    (fun _ h => setPc_threads_ne h) trivial)
  have r3 := r2.tail (Step.produce 1 (by decide) (Interleaving.Step.enqLoadSeq (t := 1) rfl)
    (fun _ h => setPc_threads_ne h) trivial)
  have r4 := r3.tail (Step.produce 1 (by decide) (Interleaving.Step.enqCasSucceed (t := 1) rfl rfl)
    (fun _ h => setPc_threads_ne h) trivial)
  -- producer 2 logs a record at position 1
  have r5 := r4.tail (Step.produce 2 (by decide)
    (Interleaving.Step.invokeEnqueue (t := 2) sampleAddOrder rfl) (fun _ h => setPc_threads_ne h) trivial)
  have r6 := r5.tail (Step.produce 2 (by decide) (Interleaving.Step.enqLoadHead (t := 2) rfl)
    (fun _ h => setPc_threads_ne h) trivial)
  have r7 := r6.tail (Step.produce 2 (by decide) (Interleaving.Step.enqLoadSeq (t := 2) rfl)
    (fun _ h => setPc_threads_ne h) trivial)
  have r8 := r7.tail (Step.produce 2 (by decide) (Interleaving.Step.enqCasSucceed (t := 2) rfl rfl)
    (fun _ h => setPc_threads_ne h) trivial)
  have r9 := r8.tail (Step.produce 2 (by decide) (Interleaving.Step.enqWrite (t := 2) rfl)
    (fun _ h => setPc_threads_ne h) trivial)
  have r10 := r9.tail (Step.produce 2 (by decide) (Interleaving.Step.enqPublish (t := 2) rfl)
    (fun _ h => setPc_threads_ne h) trivial)
  -- `stop()`; the worker reads `running_ = false` and drains
  have r11 := r10.tail (Step.stopStore rfl)
  have r12 := r11.tail (Step.check rfl rfl)
  have r13 := r12.tail (Step.dequeue (.inr rfl) (Interleaving.Step.deqLoadTail (t := 0) rfl)
    (fun _ h => setPc_threads_ne h))
  have r14 := r13.tail (Step.dequeue (.inr rfl) (Interleaving.Step.deqLoadSeq (t := 0) rfl)
    (fun _ h => setPc_threads_ne h))
  have r15 := r14.tail (Step.stopReturn rfl rfl rfl)
  exact ⟨_, _, _, rfl, r15, rfl, rfl, rfl, rfl, rfl, rfl, rfl, rfl⟩

end FastMarket.Concurrent
