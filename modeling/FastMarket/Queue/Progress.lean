import FastMarket.Queue.Interleaving

/-!
# A call that runs alone

`try_enqueue` and `try_dequeue` (`mpmc_queue.hpp`) take no lock, and neither waits for another
thread: from every reachable state of the ring, a call that runs while no other thread takes a
step returns, and what it does is fixed by the state it began in. `try_enqueue` succeeds exactly
when the slot of `head_` holds sequence number `head_`: the ring holds fewer than `Capacity`
positions and the consumer of the slot's previous lap has released it. `try_dequeue` succeeds
exactly when the slot of `tail_` holds `tail_ + 1`: the ring is not empty and the producer of
`tail_` has published. Otherwise the call returns `false` and the queue is as it was, so a
`false` from `try_enqueue` does not mean that `head_ - tail_` is `Capacity`.

`compare_exchange_weak` may fail spuriously (`enqCasFail`, `deqCasFail`), so a call alone can
go round its loop any number of times; every such run that returns ends in the same state.
-/

namespace FastMarket.Interleaving

set_option autoImplicit false

variable {T : Type}

/-- A step of thread `t`: no other thread moves. -/
def StepOf (C t : Nat) (s s' : System T) : Prop :=
  Step C s s' ∧ ∀ t', t' ≠ t → s'.threads t' = s.threads t'

/-- A step of thread `t` inside a call, before the call has returned. -/
def CallStep (C t : Nat) (s s' : System T) : Prop := s.threads t ≠ .idle ∧ StepOf C t s s'

/-- What a step of thread `t` at `pc` does to the state `s`. -/
def Next (C t : Nat) (s : System T) : Pc T → System T → Prop
  | .idle, s' => (∃ x, s' = s.setPc t (.enqLoadHead x)) ∨ s' = s.setPc t .deqLoadTail
  | .enqLoadHead x, s' => s' = s.setPc t (.enqLoadSeq x s.head)
  | .enqLoadSeq x pos, s' => s' = s.setPc t (enqBranch x pos (s.sequences (slot C pos)))
  | .enqCas x pos, s' =>
      (s.head = pos ∧
        s' = { s.setPc t (.enqWrite x pos) with head := pos + 1, claimed := s.claimed ++ [x] }) ∨
      s' = s.setPc t (.enqLoadSeq x s.head)
  | .enqWrite x pos, s' =>
      s' = { s.setPc t (.enqPublish pos) with buffer := Function.update s.buffer (slot C pos) x }
  | .enqPublish pos, s' =>
      s' = { s.setPc t .idle with sequences := Function.update s.sequences (slot C pos) (pos + 1) }
  | .deqLoadTail, s' => s' = s.setPc t (.deqLoadSeq s.tail)
  | .deqLoadSeq pos, s' => s' = s.setPc t (deqBranch pos (s.sequences (slot C pos)))
  | .deqCas pos, s' =>
      (s.tail = pos ∧ s' = { s.setPc t (.deqRead pos) with tail := pos + 1 }) ∨
      s' = s.setPc t (.deqLoadSeq s.tail)
  | .deqRead pos, s' =>
      s' = { s.setPc t (.deqRelease pos (s.buffer (slot C pos))) with
        copied := s.copied ++ [(pos, s.buffer (slot C pos))] }
  | .deqRelease pos _, s' =>
      s' = { s.setPc t .idle with sequences := Function.update s.sequences (slot C pos) (pos + C) }

/-- The queue after a `try_enqueue(x)` that claimed `head_`, copied `x` into its slot and
published it. -/
def System.enqueued (C : Nat) (s : System T) (x : T) : System T :=
  { s with
    head := s.head + 1
    claimed := s.claimed ++ [x]
    buffer := Function.update s.buffer (slot C s.head) x
    sequences := Function.update s.sequences (slot C s.head) (s.head + 1) }

/-- The queue after a `try_dequeue` that claimed `tail_`, copied its item out and released the
slot for the next lap. -/
def System.dequeued (C : Nat) (s : System T) : System T :=
  { s with
    tail := s.tail + 1
    sequences := Function.update s.sequences (slot C s.tail) (s.tail + C)
    copied := s.copied ++ [(s.tail, s.buffer (slot C s.tail))] }

/-- What a `try_enqueue(x)` that runs alone from `s` leaves: the item enqueued if the slot of
`head_` is free, else `s` itself. -/
def enqOutcome (C : Nat) (s : System T) (x : T) : System T :=
  if s.sequences (slot C s.head) = s.head then s.enqueued C x else s

/-- What a `try_dequeue` that runs alone from `s` leaves: the item at `tail_` dequeued if its
producer has published it, else `s` itself. -/
def deqOutcome (C : Nat) (s : System T) : System T :=
  if s.sequences (slot C s.tail) = s.tail + 1 then s.dequeued C else s

@[simp] theorem threads_enqOutcome (C : Nat) (s : System T) (x : T) :
    (enqOutcome C s x).threads = s.threads := by
  unfold enqOutcome; split <;> rfl

@[simp] theorem threads_deqOutcome (C : Nat) (s : System T) : (deqOutcome C s).threads = s.threads := by
  unfold deqOutcome; split <;> rfl

@[simp] theorem setPc_setPc (s : System T) (t : Nat) (pc pc' : Pc T) :
    (s.setPc t pc).setPc t pc' = s.setPc t pc' := by
  simp [System.setPc]

theorem setPc_eq_self {s : System T} {t : Nat} {pc : Pc T} (h : s.threads t = pc) : s.setPc t pc = s := by
  simp only [System.setPc, ← h, Function.update_eq_self]

theorem enqBranch_eq (x : T) (pos seq : Nat) :
    enqBranch x pos seq = if seq = pos then .enqCas x pos else if seq < pos then .idle else .enqLoadHead x := by
  simp only [enqBranch]; split_ifs <;> first | rfl | omega

theorem deqBranch_eq (pos seq : Nat) :
    (deqBranch pos seq : Pc T) =
      if seq = pos + 1 then .deqCas pos else if seq < pos + 1 then .idle else .deqLoadTail := by
  simp only [deqBranch]; split_ifs <;> first | rfl | omega

theorem enqBranch_ne_enqLoadSeq (x : T) (pos seq : Nat) (x' : T) (pos' : Nat) :
    enqBranch x pos seq ≠ .enqLoadSeq x' pos' := by
  simp only [enqBranch]; split_ifs <;> nofun

theorem deqBranch_ne_deqLoadSeq (pos seq pos' : Nat) : (deqBranch pos seq : Pc T) ≠ .deqLoadSeq pos' := by
  simp only [deqBranch]; split_ifs <;> nofun

section Solo

variable {C t : Nat} {s s' : System T}

/-- Every step moves the thread that takes it to another point of its code, so a step in which
no thread but `t` moves is one of `t`'s, and it does what `Next` says. -/
theorem StepOf.next (h : StepOf C t s s') : Next C t s (s.threads t) s' := by
  obtain ⟨hs, hother⟩ := h
  have mover : ∀ {s' : System T} {u : Nat} {pc : Pc T},
      (∀ t', t' ≠ t → s'.threads t' = s.threads t') → s'.threads u = pc → pc ≠ s.threads u → u = t :=
    fun hother hu hne => by_contra fun h => hne (hu ▸ hother _ h)
  cases hs with
  | invokeEnqueue x hu =>
    obtain rfl := mover hother setPc_threads_self (by rw [hu]; nofun)
    rw [hu]; exact .inl ⟨x, rfl⟩
  | invokeDequeue hu =>
    obtain rfl := mover hother setPc_threads_self (by rw [hu]; nofun)
    rw [hu]; exact .inr rfl
  | enqLoadHead hu =>
    obtain rfl := mover hother setPc_threads_self (by rw [hu]; nofun)
    rw [hu]; rfl
  | enqLoadSeq hu =>
    obtain rfl := mover hother setPc_threads_self (by rw [hu]; exact enqBranch_ne_enqLoadSeq _ _ _ _ _)
    rw [hu]; rfl
  | enqCasSucceed hu hh =>
    obtain rfl := mover hother setPc_threads_self (by rw [hu]; nofun)
    rw [hu]; exact .inl ⟨hh, rfl⟩
  | enqCasFail hu =>
    obtain rfl := mover hother setPc_threads_self (by rw [hu]; nofun)
    rw [hu]; exact .inr rfl
  | enqWrite hu =>
    obtain rfl := mover hother setPc_threads_self (by rw [hu]; nofun)
    rw [hu]; rfl
  | enqPublish hu =>
    obtain rfl := mover hother setPc_threads_self (by rw [hu]; nofun)
    rw [hu]; rfl
  | deqLoadTail hu =>
    obtain rfl := mover hother setPc_threads_self (by rw [hu]; nofun)
    rw [hu]; rfl
  | deqLoadSeq hu =>
    obtain rfl := mover hother setPc_threads_self (by rw [hu]; exact deqBranch_ne_deqLoadSeq _ _ _)
    rw [hu]; rfl
  | deqCasSucceed hu hh =>
    obtain rfl := mover hother setPc_threads_self (by rw [hu]; nofun)
    rw [hu]; exact .inl ⟨hh, rfl⟩
  | deqCasFail hu =>
    obtain rfl := mover hother setPc_threads_self (by rw [hu]; nofun)
    rw [hu]; exact .inr rfl
  | deqRead hu =>
    obtain rfl := mover hother setPc_threads_self (by rw [hu]; nofun)
    rw [hu]; rfl
  | deqRelease hu =>
    obtain rfl := mover hother setPc_threads_self (by rw [hu]; nofun)
    rw [hu]; rfl

/-- Where a `try_enqueue(x)` that thread `t` began in `s₀` can be while no other thread moves:
before its compare-exchange the queue is `s₀`; after it, `s₀` with the claim, then the copy,
then the publish; a call that finds the slot of `head_` taken returns to `s₀` itself. -/
def EnqPhase (C t : Nat) (s₀ : System T) (x : T) (s : System T) : Prop :=
  s = s₀.setPc t (.enqLoadHead x) ∨ s = s₀.setPc t (.enqLoadSeq x s₀.head) ∨
  (s₀.sequences (slot C s₀.head) = s₀.head ∧
    (s = s₀.setPc t (.enqCas x s₀.head) ∨
      s = { (s₀.enqueued C x).setPc t (.enqWrite x s₀.head) with
        buffer := s₀.buffer, sequences := s₀.sequences } ∨
      s = { (s₀.enqueued C x).setPc t (.enqPublish s₀.head) with sequences := s₀.sequences })) ∨
  s = enqOutcome C s₀ x

/-- Where a `try_dequeue` that thread `t` began in `s₀` can be while no other thread moves. -/
def DeqPhase (C t : Nat) (s₀ : System T) (s : System T) : Prop :=
  s = s₀.setPc t .deqLoadTail ∨ s = s₀.setPc t (.deqLoadSeq s₀.tail) ∨
  (s₀.sequences (slot C s₀.tail) = s₀.tail + 1 ∧
    (s = s₀.setPc t (.deqCas s₀.tail) ∨
      s = { (s₀.dequeued C).setPc t (.deqRead s₀.tail) with
        sequences := s₀.sequences, copied := s₀.copied } ∨
      s = { (s₀.dequeued C).setPc t (.deqRelease s₀.tail (s₀.buffer (slot C s₀.tail))) with
        sequences := s₀.sequences })) ∨
  s = deqOutcome C s₀

variable {s₀ : System T} {x : T}

/-- A step of the caller keeps it in its call's phases. -/
theorem EnqPhase.step (ht : s₀.threads t = .idle) (h : EnqPhase C t s₀ x s) (hs : CallStep C t s s') :
    EnqPhase C t s₀ x s' := by
  have hn := hs.2.next
  rcases h with rfl | rfl | ⟨hready, rfl | rfl | rfl⟩ | rfl
  · simp only [setPc_threads_self, Next, setPc_setPc, setPc_head] at hn
    exact .inr (.inl hn)
  · simp only [setPc_threads_self, Next, setPc_setPc, setPc_sequences, enqBranch_eq] at hn
    split_ifs at hn with h₁ h₂
    · exact .inr (.inr (.inl ⟨h₁, .inl hn⟩))
    · rw [hn, setPc_eq_self ht]
      exact .inr (.inr (.inr (if_neg h₁).symm))
    · exact .inl hn
  · simp only [setPc_threads_self, Next, setPc_setPc, setPc_head, setPc_claimed] at hn
    rcases hn with ⟨-, rfl⟩ | rfl
    · refine .inr (.inr (.inl ⟨hready, .inr (.inl ?_)⟩))
      simp [System.setPc, System.enqueued]
    · exact .inr (.inl rfl)
  · simp only [setPc_threads_self, Next] at hn
    refine .inr (.inr (.inl ⟨hready, .inr (.inr (hn.trans ?_))⟩))
    simp [System.setPc, System.enqueued]
  · simp only [setPc_threads_self, Next] at hn
    refine .inr (.inr (.inr (hn.trans ?_)))
    rw [enqOutcome, if_pos hready]
    simp [System.setPc, System.enqueued, ← ht]
  · exact absurd (by simp [ht]) hs.1

theorem DeqPhase.step (ht : s₀.threads t = .idle) (h : DeqPhase C t s₀ s) (hs : CallStep C t s s') :
    DeqPhase C t s₀ s' := by
  have hn := hs.2.next
  rcases h with rfl | rfl | ⟨hready, rfl | rfl | rfl⟩ | rfl
  · simp only [setPc_threads_self, Next, setPc_setPc, setPc_tail] at hn
    exact .inr (.inl hn)
  · simp only [setPc_threads_self, Next, setPc_setPc, setPc_sequences, deqBranch_eq] at hn
    split_ifs at hn with h₁ h₂
    · exact .inr (.inr (.inl ⟨h₁, .inl hn⟩))
    · rw [hn, setPc_eq_self ht]
      exact .inr (.inr (.inr (if_neg h₁).symm))
    · exact .inl hn
  · simp only [setPc_threads_self, Next, setPc_setPc, setPc_tail] at hn
    rcases hn with ⟨-, rfl⟩ | rfl
    · refine .inr (.inr (.inl ⟨hready, .inr (.inl ?_)⟩))
      simp [System.setPc, System.dequeued]
    · exact .inr (.inl rfl)
  · simp only [setPc_threads_self, Next] at hn
    refine .inr (.inr (.inl ⟨hready, .inr (.inr (hn.trans ?_))⟩))
    simp [System.setPc, System.dequeued]
  · simp only [setPc_threads_self, Next] at hn
    refine .inr (.inr (.inr (hn.trans ?_)))
    rw [deqOutcome, if_pos hready]
    simp [System.setPc, System.dequeued, ← ht]
  · exact absurd (by simp [ht]) hs.1

theorem EnqPhase.run (ht : s₀.threads t = .idle) (h : EnqPhase C t s₀ x s)
    (hr : Relation.ReflTransGen (CallStep C t) s s') : EnqPhase C t s₀ x s' := by
  induction hr with
  | refl => exact h
  | tail _ hs ih => exact ih.step ht hs

theorem DeqPhase.run (ht : s₀.threads t = .idle) (h : DeqPhase C t s₀ s)
    (hr : Relation.ReflTransGen (CallStep C t) s s') : DeqPhase C t s₀ s' := by
  induction hr with
  | refl => exact h
  | tail _ hs ih => exact ih.step ht hs

/-- In every phase but the last the caller is still inside its call. -/
theorem EnqPhase.eq_outcome (h : EnqPhase C t s₀ x s) (hidle : s.threads t = .idle) :
    s = enqOutcome C s₀ x := by
  rcases h with rfl | rfl | ⟨-, rfl | rfl | rfl⟩ | rfl <;> first | rfl | simp at hidle

theorem DeqPhase.eq_outcome (h : DeqPhase C t s₀ s) (hidle : s.threads t = .idle) :
    s = deqOutcome C s₀ := by
  rcases h with rfl | rfl | ⟨-, rfl | rfl | rfl⟩ | rfl <;> first | rfl | simp at hidle

/-- A `try_enqueue(x)` alone from a state whose slot of `head_` holds at most `head_` returns:
after six steps when the slot is free, after three when it is not. -/
theorem enq_returns (ht : s₀.threads t = .idle) (hle : s₀.sequences (slot C s₀.head) ≤ s₀.head) :
    Relation.ReflTransGen (CallStep C t) (s₀.setPc t (.enqLoadHead x)) (enqOutcome C s₀ x) := by
  have e : Function.update s₀.threads t .idle = s₀.threads := Function.update_eq_self_iff.2 ht.symm
  refine .head ⟨by simp, @Step.enqLoadHead T C _ t x (by simp), fun t' h => by simp [h]⟩ ?_
  refine .head ⟨by simp, @Step.enqLoadSeq T C _ t x s₀.head (by simp), fun t' h => by simp [h]⟩ ?_
  by_cases hready : s₀.sequences (slot C s₀.head) = s₀.head
  · rw [enqOutcome, if_pos hready]
    refine .head ⟨by simp [enqBranch_eq, hready],
      @Step.enqCasSucceed T C _ t x s₀.head (by simp [enqBranch_eq, hready]) rfl, fun t' h => by simp [h]⟩ ?_
    refine .head ⟨by simp, @Step.enqWrite T C _ t x s₀.head (by simp), fun t' h => by simp [h]⟩ ?_
    refine .head ⟨by simp, @Step.enqPublish T C _ t s₀.head (by simp), fun t' h => by simp [h]⟩ ?_
    simp only [System.setPc, System.enqueued, Function.update_idem, e]
    exact .refl
  · rw [enqOutcome, if_neg hready]
    simp only [enqBranch_eq, setPc_setPc, setPc_sequences, if_neg hready,
      if_pos (lt_of_le_of_ne hle hready), setPc_eq_self ht]
    exact .refl

/-- A `try_dequeue` alone from a state whose slot of `tail_` holds at most `tail_ + 1` returns:
after six steps when the item is published, after three when it is not. -/
theorem deq_returns (ht : s₀.threads t = .idle) (hle : s₀.sequences (slot C s₀.tail) ≤ s₀.tail + 1) :
    Relation.ReflTransGen (CallStep C t) (s₀.setPc t .deqLoadTail) (deqOutcome C s₀) := by
  have e : Function.update s₀.threads t .idle = s₀.threads := Function.update_eq_self_iff.2 ht.symm
  refine .head ⟨by simp, @Step.deqLoadTail T C _ t (by simp), fun t' h => by simp [h]⟩ ?_
  refine .head ⟨by simp, @Step.deqLoadSeq T C _ t s₀.tail (by simp), fun t' h => by simp [h]⟩ ?_
  by_cases hready : s₀.sequences (slot C s₀.tail) = s₀.tail + 1
  · rw [deqOutcome, if_pos hready]
    refine .head ⟨by simp [deqBranch_eq, hready],
      @Step.deqCasSucceed T C _ t s₀.tail (by simp [deqBranch_eq, hready]) rfl, fun t' h => by simp [h]⟩ ?_
    refine .head ⟨by simp, @Step.deqRead T C _ t s₀.tail (by simp), fun t' h => by simp [h]⟩ ?_
    refine .head ⟨by simp, @Step.deqRelease T C _ t s₀.tail (s₀.buffer (slot C s₀.tail)) (by simp),
      fun t' h => by simp [h]⟩ ?_
    simp only [System.setPc, System.dequeued, Function.update_idem, e]
    exact .refl
  · rw [deqOutcome, if_neg hready]
    simp only [deqBranch_eq, setPc_setPc, setPc_sequences, if_neg hready,
      if_pos (lt_of_le_of_ne hle hready), setPc_eq_self ht]
    exact .refl

end Solo

section Ready

variable {C k : Nat} {s : System T} {p t : Nat}

/-- The slot of a taken position holds `p + 1` once its producer has published, `p` before. -/
theorem Inv.seq_claimed (h : Inv C s) (hp : s.tail ≤ p) (hp' : p < s.head) :
    s.sequences (slot C p) ≤ p + 1 ∧
      (s.sequences (slot C p) = p + 1 ↔ ∀ t', ¬ (s.threads t').Producing p) := by
  rcases h.full p hp hp' with ⟨t', ht'⟩ | ⟨hq, -⟩
  · have := (h.producing ht').2.2
    exact ⟨by omega, iff_of_false (by omega) fun hn => hn t' ht'⟩
  · exact ⟨hq.le, iff_of_true hq fun t' ht' => by have := (h.producing ht').2.2; omega⟩

/-- A published position's slot holds the item its producer claimed it with. -/
theorem Inv.claimed_of_published (h : Inv C s) (hp : s.tail ≤ p) (hp' : p < s.head)
    (hq : s.sequences (slot C p) = p + 1) : s.claimed[p]? = some (s.buffer (slot C p)) :=
  ((h.full p hp hp').resolve_left fun ⟨_, ht'⟩ => by
    have := (h.producing ht').2.2; omega).2

/-- The slot of a free position holds `p` once the consumer of the lap before has released it,
and `p - C + 1` while that consumer still holds it. -/
theorem Inv.seq_free (hC : C = 2 ^ k) (hk : 1 ≤ k) (h : Inv C s) (hp : s.head ≤ p)
    (hp' : p < s.tail + C) :
    s.sequences (slot C p) ≤ p ∧
      (s.sequences (slot C p) = p ↔ ∀ t', ¬ (C ≤ p ∧ (s.threads t').Consuming (p - C))) := by
  have hC2 := two_le_capacity hk hC
  rcases h.free p hp hp' with he | ⟨hcp, t', hc⟩
  · refine ⟨he.le, iff_of_true he fun t' ⟨hcp, hc⟩ => ?_⟩
    have := (h.consuming hc).2.2
    rw [slot_sub_capacity hC hcp] at this
    omega
  · have := (h.consuming hc).2.2
    rw [slot_sub_capacity hC hcp] at this
    exact ⟨by omega, iff_of_false (by omega) fun hn => hn t' ⟨hcp, hc⟩⟩

/-- The slot of `head_` holds at most `head_`, and `head_` itself exactly when fewer than
`Capacity` positions are taken and no consumer of the lap before still holds the slot. -/
theorem Inv.seq_head (hC : C = 2 ^ k) (hk : 1 ≤ k) (h : Inv C s) :
    s.sequences (slot C s.head) ≤ s.head ∧
      (s.sequences (slot C s.head) = s.head ↔ s.head < s.tail + C ∧
        ∀ t', ¬ (C ≤ s.head ∧ (s.threads t').Consuming (s.head - C))) := by
  by_cases hlap : s.head < s.tail + C
  · simpa only [hlap, true_and] using h.seq_free hC hk le_rfl hlap
  · -- a full ring: the slot of `head_` is the slot of `tail_`, which is taken
    have hC2 := two_le_capacity hk hC
    have e : s.head = s.tail + C := by have := h.head_le; omega
    have := (h.seq_claimed le_rfl (by omega)).1
    rw [e, slot_add_capacity hC]
    exact ⟨by omega, iff_of_false (by omega) fun hn => absurd hn.1 (by omega)⟩

/-- The slot of `tail_` holds at most `tail_ + 1`, and `tail_ + 1` itself exactly when the ring
is not empty and the producer of `tail_` has published. -/
theorem Inv.seq_tail (hC : C = 2 ^ k) (hk : 1 ≤ k) (h : Inv C s) :
    s.sequences (slot C s.tail) ≤ s.tail + 1 ∧
      (s.sequences (slot C s.tail) = s.tail + 1 ↔ s.tail < s.head ∧
        ∀ t', ¬ (s.threads t').Producing s.tail) := by
  by_cases hne : s.tail < s.head
  · simpa only [hne, true_and] using h.seq_claimed le_rfl hne
  · -- an empty ring: the slot of `tail_` is free
    have hC2 := two_le_capacity hk hC
    have e : s.head = s.tail := by have := h.tail_le_head; omega
    have := (h.seq_free hC hk e.le (by omega)).1
    exact ⟨by omega, iff_of_false (by omega) fun hn => hne hn.1⟩

/-- A `try_enqueue` that runs alone from a reachable state ends in a reachable state. -/
theorem Reachable.enq_alone (hC : C = 2 ^ k) (hk : 1 ≤ k) (hs : Reachable C s)
    (ht : s.threads t = .idle) (x : T) : Reachable C (enqOutcome C s x) :=
  (hs.step (.invokeEnqueue x ht)).run
    ((enq_returns ht ((reachable_inv hC hk hs).seq_head hC hk).1).mono fun _ _ h => h.2.1)

/-- A ring of capacity 2 after thread 0 enqueued `5` on its own: one published item. -/
def oneEnqueued : System Nat := enqOutcome 2 (System.init fun _ => 0) 5

theorem reachable_oneEnqueued : Reachable 2 oneEnqueued :=
  Reachable.enq_alone (t := 0) rfl le_rfl (.init _) rfl 5

/-- A `try_enqueue(x)` that thread `t` makes from a reachable state while no other thread
moves returns, and every way it can return ends in one state: `x` stored at `head_` when the
slot of `head_` holds `head_`, the queue unchanged otherwise. The slot holds `head_` exactly
when fewer than `Capacity` positions are taken and no consumer of the lap before still holds
it. -/
theorem tryEnqueue_alone (hC : C = 2 ^ k) (hk : 1 ≤ k) (hs : Reachable C s)
    (ht : s.threads t = .idle) (x : T) :
    (s.sequences (slot C s.head) = s.head ↔ s.head < s.tail + C ∧
        ∀ t', ¬ (C ≤ s.head ∧ (s.threads t').Consuming (s.head - C))) ∧
      Relation.ReflTransGen (CallStep C t) (s.setPc t (.enqLoadHead x)) (enqOutcome C s x) ∧
      ∀ s', Relation.ReflTransGen (CallStep C t) (s.setPc t (.enqLoadHead x)) s' →
        s'.threads t = .idle → s' = enqOutcome C s x := by
  have hready := (reachable_inv hC hk hs).seq_head hC hk
  exact ⟨hready.2, enq_returns ht hready.1, fun _ hr hidle =>
    (EnqPhase.run ht (Or.inl rfl) hr).eq_outcome hidle⟩

theorem tryEnqueue_alone_published :
    2 = 2 ^ 1 ∧ 1 ≤ 1 ∧ Reachable 2 oneEnqueued ∧ oneEnqueued.threads 1 = .idle ∧
      (oneEnqueued.sequences (slot 2 oneEnqueued.head) = oneEnqueued.head ↔
          oneEnqueued.head < oneEnqueued.tail + 2 ∧
          ∀ t', ¬ (2 ≤ oneEnqueued.head ∧ (oneEnqueued.threads t').Consuming (oneEnqueued.head - 2))) ∧
        Relation.ReflTransGen (CallStep 2 1) (oneEnqueued.setPc 1 (.enqLoadHead 7))
          (enqOutcome 2 oneEnqueued 7) ∧
        ∀ s', Relation.ReflTransGen (CallStep 2 1) (oneEnqueued.setPc 1 (.enqLoadHead 7)) s' →
          s'.threads 1 = .idle → s' = enqOutcome 2 oneEnqueued 7 :=
  ⟨rfl, le_rfl, reachable_oneEnqueued, rfl, tryEnqueue_alone rfl le_rfl reachable_oneEnqueued rfl 7⟩

/-- A `try_dequeue` that thread `t` makes from a reachable state while no other thread moves
returns, and every way it can return ends in one state: the item at `tail_` copied out, which is
the item its producer claimed `tail_` with, when the slot of `tail_` holds `tail_ + 1`; the
queue unchanged otherwise. The slot holds `tail_ + 1` exactly when the ring is not empty and the
producer of `tail_` has published. -/
theorem tryDequeue_alone (hC : C = 2 ^ k) (hk : 1 ≤ k) (hs : Reachable C s)
    (ht : s.threads t = .idle) :
    (s.sequences (slot C s.tail) = s.tail + 1 ↔ s.tail < s.head ∧
        ∀ t', ¬ (s.threads t').Producing s.tail) ∧
      (s.sequences (slot C s.tail) = s.tail + 1 →
        s.claimed[s.tail]? = some (s.buffer (slot C s.tail))) ∧
      Relation.ReflTransGen (CallStep C t) (s.setPc t .deqLoadTail) (deqOutcome C s) ∧
      ∀ s', Relation.ReflTransGen (CallStep C t) (s.setPc t .deqLoadTail) s' →
        s'.threads t = .idle → s' = deqOutcome C s := by
  have h := reachable_inv hC hk hs
  have hready := h.seq_tail hC hk
  exact ⟨hready.2, fun hq => h.claimed_of_published le_rfl (hready.2.1 hq).1 hq,
    deq_returns ht hready.1, fun _ hr hidle =>
    (DeqPhase.run ht (Or.inl rfl) hr).eq_outcome hidle⟩

theorem tryDequeue_alone_published :
    2 = 2 ^ 1 ∧ 1 ≤ 1 ∧ Reachable 2 oneEnqueued ∧ oneEnqueued.threads 1 = .idle ∧
      (oneEnqueued.sequences (slot 2 oneEnqueued.tail) = oneEnqueued.tail + 1 ↔
          oneEnqueued.tail < oneEnqueued.head ∧ ∀ t', ¬ (oneEnqueued.threads t').Producing oneEnqueued.tail) ∧
        (oneEnqueued.sequences (slot 2 oneEnqueued.tail) = oneEnqueued.tail + 1 →
          oneEnqueued.claimed[oneEnqueued.tail]? = some (oneEnqueued.buffer (slot 2 oneEnqueued.tail))) ∧
        Relation.ReflTransGen (CallStep 2 1) (oneEnqueued.setPc 1 .deqLoadTail) (deqOutcome 2 oneEnqueued) ∧
        ∀ s', Relation.ReflTransGen (CallStep 2 1) (oneEnqueued.setPc 1 .deqLoadTail) s' →
          s'.threads 1 = .idle → s' = deqOutcome 2 oneEnqueued :=
  ⟨rfl, le_rfl, reachable_oneEnqueued, rfl, tryDequeue_alone rfl le_rfl reachable_oneEnqueued rfl⟩

end Ready

end FastMarket.Interleaving
