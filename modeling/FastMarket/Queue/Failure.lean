import FastMarket.Queue.Progress
import FastMarket.Queue.Snapshot

/-!
# When a call returns `false`

`try_enqueue` (`mpmc_queue.hpp`) returns `false` from one branch only: the sequence number it
loads from the slot of its position `pos` is less than `pos`; `try_dequeue` when it is less than
`pos + 1`. Whatever the other threads do, the position a thread holds is never ahead of the
counter it loaded it from, and with the ring's invariant this fixes, at the instant of the load,
when the branch is taken. `try_enqueue` fails only on the position `head_`, when the ring holds
`Capacity` positions or when the consumer of the position a lap back has claimed it and not yet
released its slot. `try_dequeue` fails only on the position `tail_`, when the ring is empty or
when the producer of `tail_` has claimed it and not yet published. In the second case of each,
`head_ - tail_` says there is room, or an item.
-/

namespace FastMarket.Interleaving

set_option autoImplicit false

variable {T : Type}

/-- A position a thread holds between its load of `head_` (`tail_`) and its compare-exchange is
not ahead of that counter. -/
def PosOk (s : System T) : Pc T → Prop
  | .enqLoadSeq _ p => p ≤ s.head
  | .enqCas _ p => p ≤ s.head
  | .deqLoadSeq p => p ≤ s.tail
  | .deqCas p => p ≤ s.tail
  | _ => True

/-- No thread holds a position ahead of its counter. -/
def Loaded (s : System T) : Prop := ∀ t, PosOk s (s.threads t)

section Loaded

variable {C : Nat} {s s' : System T}

theorem PosOk.mono {pc : Pc T} (h : PosOk s pc) (hh : s.head ≤ s'.head) (ht : s.tail ≤ s'.tail) :
    PosOk s' pc := by
  cases pc <;> first | trivial | exact Nat.le_trans h ‹_›

theorem posOk_enqBranch {x : T} {pos : Nat} (seq : Nat) (hp : pos ≤ s.head) :
    PosOk s (enqBranch x pos seq) := by
  rw [enqBranch_eq]; split_ifs <;> trivial

theorem posOk_deqBranch {pos : Nat} (seq : Nat) (hp : pos ≤ s.tail) :
    PosOk s (deqBranch pos seq : Pc T) := by
  rw [deqBranch_eq]; split_ifs <;> trivial

/-- A step that moves the counters forward and sets one thread's point of its code keeps
`Loaded` when the new point is fine. -/
theorem Loaded.update {t : Nat} {pc : Pc T} (h : Loaded s) (hh : s.head ≤ s'.head)
    (ht : s.tail ≤ s'.tail) (hthreads : s'.threads = Function.update s.threads t pc)
    (hpc : PosOk s' pc) : Loaded s' := by
  intro t'
  rw [hthreads]
  by_cases e : t' = t
  · rwa [e, Function.update_same]
  · rw [Function.update_noteq e]; exact (h t').mono hh ht

theorem Loaded.step (h : Loaded s) (hs : Step C s s') : Loaded s' := by
  have held : ∀ {t : Nat} {pc : Pc T}, s.threads t = pc → PosOk s pc := fun ht => ht ▸ h _
  cases hs with
  | invokeEnqueue => exact h.update le_rfl le_rfl rfl trivial
  | invokeDequeue => exact h.update le_rfl le_rfl rfl trivial
  | enqLoadHead => exact h.update le_rfl le_rfl rfl (le_refl _)
  | enqLoadSeq ht => exact h.update le_rfl le_rfl rfl (posOk_enqBranch _ (held ht))
  | enqCasSucceed _ hh => exact h.update (by simp only [setPc_head, hh]; omega) le_rfl rfl trivial
  | enqCasFail => exact h.update le_rfl le_rfl rfl (le_refl _)
  | enqWrite => exact h.update le_rfl le_rfl rfl trivial
  | enqPublish => exact h.update le_rfl le_rfl rfl trivial
  | deqLoadTail => exact h.update le_rfl le_rfl rfl (le_refl _)
  | deqLoadSeq ht => exact h.update le_rfl le_rfl rfl (posOk_deqBranch _ (held ht))
  | deqCasSucceed _ ht => exact h.update le_rfl (by simp only [setPc_tail, ht]; omega) rfl trivial
  | deqCasFail => exact h.update le_rfl le_rfl rfl (le_refl _)
  | deqRead => exact h.update le_rfl le_rfl rfl trivial
  | deqRelease => exact h.update le_rfl le_rfl rfl trivial

theorem reachable_loaded (hs : Reachable C s) : Loaded s := by
  induction hs with
  | init => exact fun _ => trivial
  | step _ hstep ih => exact ih.step hstep

end Loaded

section Branch

variable {C k : Nat} (hC : C = 2 ^ k) (hk : 1 ≤ k) {s : System T}
include hC hk

/-- A position behind `tail_` has had its slot released, or its slot has moved on to a later
lap: the slot's sequence number is past it. -/
theorem Inv.lt_seq_of_lt_tail (h : Inv C s) {p : Nat} (hp : p < s.tail) :
    p + 1 ≤ s.sequences (slot C p) := by
  have hC2 := two_le_capacity hk hC
  rw [← slot_add_capacity hC]
  by_cases hlap : p + C < s.tail
  · have := h.lt_seq_of_lt_tail hlap
    omega
  by_cases hclaimed : p + C < s.head
  · rcases h.full (p + C) (by omega) hclaimed with ⟨t', ht'⟩ | ⟨hq, -⟩
    · have := (h.producing ht').2.2
      omega
    · omega
  · rcases h.free (p + C) (by omega) (by omega) with he | ⟨-, t', hc⟩
    · omega
    · have := (h.consuming hc).2.2
      rw [Nat.add_sub_cancel] at hc this
      rw [slot_add_capacity hC]
      omega
termination_by s.tail - p

/-- From a position not ahead of `head_`, the load of `try_enqueue` sends it to `return false`
exactly on `head_` itself, when the ring is full or the consumer of the position a lap back
still holds the slot. -/
theorem Inv.enqBranch_eq_idle_iff (h : Inv C s) {x : T} {p : Nat} (hp : p ≤ s.head) :
    enqBranch x p (s.sequences (slot C p)) = .idle ↔
      p = s.head ∧ (s.tail + C ≤ s.head ∨ C ≤ s.head ∧ ∃ t', (s.threads t').Consuming (s.head - C)) := by
  have hidle : enqBranch x p (s.sequences (slot C p)) = .idle ↔ s.sequences (slot C p) < p := by
    rw [enqBranch_eq]; split_ifs <;> simp only [reduceCtorEq, true_iff, false_iff] <;> omega
  rw [hidle]
  have := h.tail_le_head
  rcases Nat.lt_or_ge p s.tail with hlt | hge
  · have := h.lt_seq_of_lt_tail hC hk hlt
    exact iff_of_false (by omega) fun hn => by omega
  rcases Nat.lt_or_ge p s.head with hlt | hge'
  · -- a claimed position: its slot holds it, or it published
    have : p ≤ s.sequences (slot C p) := by
      rcases h.full p hge hlt with ⟨t', ht'⟩ | ⟨hq, -⟩
      · exact (h.producing ht').2.2.ge
      · omega
    exact iff_of_false (by omega) fun hn => by omega
  obtain rfl : p = s.head := le_antisymm hp hge'
  have hready := h.seq_head hC hk
  have heq : s.head ≤ s.sequences (slot C s.head) ↔ s.sequences (slot C s.head) = s.head :=
    ⟨fun h' => le_antisymm hready.1 h', Eq.ge⟩
  rw [← not_iff_not, not_lt, heq, hready.2]
  simp only [true_and, not_or, not_le, not_and, not_exists]
  exact and_congr_right fun _ => forall_swap

/-- From a position not ahead of `tail_`, the load of `try_dequeue` sends it to `return false`
exactly on `tail_` itself, when the ring is empty or the producer of `tail_` has not yet
published. -/
theorem Inv.deqBranch_eq_idle_iff (h : Inv C s) {p : Nat} (hp : p ≤ s.tail) :
    deqBranch p (s.sequences (slot C p)) = (.idle : Pc T) ↔
      p = s.tail ∧ (s.head ≤ s.tail ∨ ∃ t', (s.threads t').Producing s.tail) := by
  have hidle : deqBranch p (s.sequences (slot C p)) = (.idle : Pc T) ↔
      s.sequences (slot C p) < p + 1 := by
    rw [deqBranch_eq]; split_ifs <;> simp only [reduceCtorEq, true_iff, false_iff] <;> omega
  rw [hidle]
  rcases Nat.lt_or_ge p s.tail with hlt | hge
  · have := h.lt_seq_of_lt_tail hC hk hlt
    exact iff_of_false (by omega) fun hn => by omega
  obtain rfl : p = s.tail := le_antisymm hp hge
  have hready := h.seq_tail hC hk
  have heq : s.tail + 1 ≤ s.sequences (slot C s.tail) ↔ s.sequences (slot C s.tail) = s.tail + 1 :=
    ⟨fun h' => le_antisymm hready.1 h', Eq.ge⟩
  rw [← not_iff_not, not_lt, heq, hready.2]
  simp only [true_and, not_or, not_le, not_exists]

end Branch

section Runs

variable {C k : Nat} {s s' : System T} {t : Nat}

/-- In every reachable state, the step in which thread `t` loads the sequence number of its
position `p` inside `try_enqueue(x)` returns `false` exactly when `p` is `head_` and either the
ring holds `Capacity` positions or a consumer has claimed the position a lap back and not yet
released its slot. -/
theorem tryEnqueue_false_iff (hC : C = 2 ^ k) (hk : 1 ≤ k) (hs : Reachable C s) {x : T} {p : Nat}
    (ht : s.threads t = .enqLoadSeq x p) (hstep : StepOf C t s s') :
    s'.threads t = .idle ↔
      p = s.head ∧ (s.tail + C ≤ s.head ∨ C ≤ s.head ∧ ∃ t', (s.threads t').Consuming (s.head - C)) := by
  have e : s' = s.setPc t (enqBranch x p (s.sequences (slot C p))) := by
    have := hstep.next; rwa [ht] at this
  have hp : p ≤ s.head := by have := reachable_loaded hs t; rwa [ht] at this
  rw [e, setPc_threads_self]
  exact (reachable_inv hC hk hs).enqBranch_eq_idle_iff hC hk hp

/-- A producer's `try_enqueue` returns `false` on a ring of capacity 2 that holds one item: the
consumer that claimed the item before it has not yet released its slot. -/
theorem tryEnqueue_false_with_room :
    ∃ s s' : System Nat, 2 = 2 ^ 1 ∧ 1 ≤ 1 ∧ Reachable 2 s ∧ s.threads 1 = .enqLoadSeq 5 2 ∧
      StepOf 2 1 s s' ∧ s.head - s.tail = 1 ∧ s'.threads 1 = .idle ∧
      (s'.threads 1 = .idle ↔
        2 = s.head ∧ (s.tail + 2 ≤ s.head ∨ 2 ≤ s.head ∧ ∃ t', (s.threads t').Consuming (s.head - 2))) := by
  -- two items enqueued; a consumer claims the first and stops before releasing its slot; a
  -- second producer loads `head_`
  obtain ⟨s, hr, h1, hhead, htail, h0⟩ : ∃ s, Relation.ReflTransGen (Step 2) (System.init fun _ => (0 : Nat)) s ∧
      s.threads 1 = .enqLoadSeq 5 2 ∧ s.head = 2 ∧ s.tail = 1 ∧ s.threads 0 = .deqRead 0 :=
    ⟨_, ((((((((enqueue_alone (t := 0) 0 rfl (Nat.zero_and _)).trans
      (enqueue_alone (t := 0) 1 (by rfl) (by rfl))).tail (@Step.invokeDequeue Nat 2 _ 0 (by rfl))).tail
      (@Step.deqLoadTail Nat 2 _ 0 (by rfl))).tail (@Step.deqLoadSeq Nat 2 _ 0 0 (by rfl))).tail
      (@Step.deqCasSucceed Nat 2 _ 0 0 (by rfl) (by rfl))).tail
      (@Step.invokeEnqueue Nat 2 _ 1 5 (by rfl))).tail (@Step.enqLoadHead Nat 2 _ 1 5 (by rfl))),
      by rfl, by rfl, by rfl, by rfl⟩
  have hs := (Reachable.init _).run hr
  have hstep : StepOf 2 1 s (s.setPc 1 (enqBranch 5 2 (s.sequences (slot 2 2)))) :=
    ⟨Step.enqLoadSeq h1, fun _ h => setPc_threads_ne h⟩
  have hfalse := tryEnqueue_false_iff (show 2 = 2 ^ 1 from rfl) le_rfl hs h1 hstep
  refine ⟨s, _, rfl, le_rfl, hs, h1, hstep, by omega, hfalse.2 ⟨hhead.symm, .inr ⟨by omega, 0, ?_⟩⟩, hfalse⟩
  rw [h0, hhead]; rfl

/-- In every reachable state, the step in which thread `t` loads the sequence number of its
position `p` inside `try_dequeue` returns `false` exactly when `p` is `tail_` and either the ring
is empty or the producer of `tail_` has claimed it and not yet published. -/
theorem tryDequeue_false_iff (hC : C = 2 ^ k) (hk : 1 ≤ k) (hs : Reachable C s) {p : Nat}
    (ht : s.threads t = .deqLoadSeq p) (hstep : StepOf C t s s') :
    s'.threads t = .idle ↔ p = s.tail ∧ (s.head ≤ s.tail ∨ ∃ t', (s.threads t').Producing s.tail) := by
  have e : s' = s.setPc t (deqBranch p (s.sequences (slot C p))) := by
    have := hstep.next; rwa [ht] at this
  have hp : p ≤ s.tail := by have := reachable_loaded hs t; rwa [ht] at this
  rw [e, setPc_threads_self]
  exact (reachable_inv hC hk hs).deqBranch_eq_idle_iff hC hk hp

/-- A consumer's `try_dequeue` returns `false` on a ring that holds one position: its producer
has claimed it and not yet copied its item in. -/
theorem tryDequeue_false_with_item :
    ∃ s s' : System Nat, 2 = 2 ^ 1 ∧ 1 ≤ 1 ∧ Reachable 2 s ∧ s.threads 1 = .deqLoadSeq 0 ∧
      StepOf 2 1 s s' ∧ s.head - s.tail = 1 ∧ s'.threads 1 = .idle ∧
      (s'.threads 1 = .idle ↔ 0 = s.tail ∧ (s.head ≤ s.tail ∨ ∃ t', (s.threads t').Producing s.tail)) := by
  -- a producer claims position 0 and stops before copying its item; a consumer loads `tail_`
  obtain ⟨s, hr, h1, hhead, htail, h0⟩ : ∃ s, Relation.ReflTransGen (Step 2) (System.init fun _ => (0 : Nat)) s ∧
      s.threads 1 = .deqLoadSeq 0 ∧ s.head = 1 ∧ s.tail = 0 ∧ s.threads 0 = .enqWrite 7 0 :=
    ⟨_, ((((((Relation.ReflTransGen.single (@Step.invokeEnqueue Nat 2 _ 0 7 rfl)).tail
      (@Step.enqLoadHead Nat 2 _ 0 7 (by rfl))).tail (@Step.enqLoadSeq Nat 2 _ 0 7 0 (by rfl))).tail
      (@Step.enqCasSucceed Nat 2 _ 0 7 0 (by rfl) (by rfl))).tail
      (@Step.invokeDequeue Nat 2 _ 1 (by rfl))).tail (@Step.deqLoadTail Nat 2 _ 1 (by rfl))),
      by rfl, by rfl, by rfl, by rfl⟩
  have hs := (Reachable.init _).run hr
  have hstep : StepOf 2 1 s (s.setPc 1 (deqBranch 0 (s.sequences (slot 2 0)))) :=
    ⟨Step.deqLoadSeq h1, fun _ h => setPc_threads_ne h⟩
  have hfalse := tryDequeue_false_iff (show 2 = 2 ^ 1 from rfl) le_rfl hs h1 hstep
  refine ⟨s, _, rfl, le_rfl, hs, h1, hstep, by omega, hfalse.2 ⟨htail.symm, .inr ⟨0, ?_⟩⟩, hfalse⟩
  rw [h0, htail]; rfl

end Runs

end FastMarket.Interleaving
