import FastMarket.Queue.Interleaving

/-!
# `size()` against the other threads

`MPMCQueue::size()` (`mpmc_queue.hpp`, behind `empty()` and `AsyncLogger::get_queue_size`)
loads `head_`, then `tail_`, and returns `head - tail` as a `size_t`. It writes nothing, so a
call interleaved with the other threads' steps is a run of `Interleaving.Step` with two marked
states: the one in which it loads `head_` and a later one in which it loads `tail_`; the
states of the run between them are the instants of the call.

`tail_` only grows, so the value is never more than the queue held when `head_` was loaded.
But a producer and a consumer that both finish between the two loads take `tail_` past the
loaded `head_`, and the `size_t` difference wraps to `2 ^ 64 - 1`, a count no state of any run
has.
-/

namespace FastMarket.Interleaving

set_option autoImplicit false

variable {T : Type}

/-- `size()`: `head_` as loaded in `a`, minus `tail_` as loaded in `b`, as `size_t` words. -/
def size (a b : System T) : BitVec 64 := BitVec.ofNat 64 a.head - BitVec.ofNat 64 b.tail

/-- `empty()`: `size() == 0`. -/
def empty (a b : System T) : Bool := size a b == 0

/-- `head_ - tail_` in one state, as a `size_t`. -/
def System.count (s : System T) : BitVec 64 := BitVec.ofNat 64 s.head - BitVec.ofNat 64 s.tail

section Alone

variable {C : Nat} {s : System T} {t : Nat}

/-- A `try_enqueue` from an idle thread that no other thread interrupts, on a queue whose
slot of `head_` is free: one pass claims `head_`, copies the item in and publishes it. -/
theorem enqueue_alone (x : T) (ht : s.threads t = .idle)
    (hfree : s.sequences (slot C s.head) = s.head) :
    Relation.ReflTransGen (Step C) s
      { s with
        head := s.head + 1
        claimed := s.claimed ++ [x]
        buffer := Function.update s.buffer (slot C s.head) x
        sequences := Function.update s.sequences (slot C s.head) (s.head + 1) } := by
  refine .head (Step.invokeEnqueue x ht) (.head (@Step.enqLoadHead T C _ t x (by simp)) ?_)
  refine .head (@Step.enqLoadSeq T C _ t x s.head (by simp)) ?_
  refine .head (@Step.enqCasSucceed T C _ t x s.head (by simp [enqBranch, hfree]) rfl) ?_
  refine .head (@Step.enqWrite T C _ t x s.head (by simp)) ?_
  refine .head (@Step.enqPublish T C _ t s.head (by simp)) ?_
  have e : Function.update s.threads t .idle = s.threads := Function.update_eq_self_iff.2 ht.symm
  simp only [System.setPc, Function.update_idem, e]
  exact .refl

/-- A `try_dequeue` from an idle thread that no other thread interrupts, on a queue whose slot
of `tail_` is published: one pass claims `tail_`, copies the item out and frees the slot for
the next lap. -/
theorem dequeue_alone (ht : s.threads t = .idle)
    (hpub : s.sequences (slot C s.tail) = s.tail + 1) :
    Relation.ReflTransGen (Step C) s
      { s with
        tail := s.tail + 1
        sequences := Function.update s.sequences (slot C s.tail) (s.tail + C)
        copied := s.copied ++ [(s.tail, s.buffer (slot C s.tail))] } := by
  refine .head (Step.invokeDequeue ht) (.head (@Step.deqLoadTail T C _ t (by simp)) ?_)
  refine .head (@Step.deqLoadSeq T C _ t s.tail (by simp)) ?_
  refine .head (@Step.deqCasSucceed T C _ t s.tail (by simp [deqBranch, hpub]) rfl) ?_
  refine .head (@Step.deqRead T C _ t s.tail (by simp)) ?_
  refine .head (@Step.deqRelease T C _ t s.tail (s.buffer (slot C s.tail)) (by simp)) ?_
  have e : Function.update s.threads t .idle = s.threads := Function.update_eq_self_iff.2 ht.symm
  simp only [System.setPc, Function.update_idem, e]
  exact .refl

end Alone

section Monotone

variable {C : Nat} {s s' : System T}

theorem tail_le_of_step (h : Step C s s') : s.tail ≤ s'.tail := by
  cases h <;> simp only [System.setPc] <;> omega

theorem tail_le_of_run (h : Relation.ReflTransGen (Step C) s s') : s.tail ≤ s'.tail := by
  induction h with
  | refl => exact le_rfl
  | tail _ hs ih => exact ih.trans (tail_le_of_step hs)

/-- Read as integers, the two loads of a call from a reachable state give at most what the
queue held at the first: the value is at most `C`. -/
theorem head_sub_tail_le {k : Nat} (hC : C = 2 ^ k) (hk : 1 ≤ k) (ha : Reachable C s)
    (hr : Relation.ReflTransGen (Step C) s s') :
    (s.head : Int) - s'.tail ≤ (s.head : Int) - s.tail ∧ (s.head : Int) - s.tail ≤ C := by
  have := (reachable_inv hC hk ha).head_le
  have := tail_le_of_run hr
  omega

theorem head_sub_tail_le_two :
    2 = 2 ^ 1 ∧ 1 ≤ 1 ∧ Reachable 2 (System.init fun _ => (0 : Nat)) ∧
    ∃ b, Relation.ReflTransGen (Step 2) (System.init fun _ => (0 : Nat)) b ∧ b.tail = 1 ∧
      ((System.init fun _ => (0 : Nat)).head : Int) - b.tail ≤
        ((System.init fun _ => (0 : Nat)).head : Int) - (System.init fun _ => (0 : Nat)).tail ∧
      ((System.init fun _ => (0 : Nat)).head : Int) - (System.init fun _ => (0 : Nat)).tail ≤ 2 := by
  -- a producer and a consumer both complete between the two loads
  obtain ⟨b, hb, htail⟩ : ∃ b, Relation.ReflTransGen (Step 2) (System.init fun _ => (0 : Nat)) b ∧
      b.tail = 1 :=
    ⟨_, (enqueue_alone (t := 0) 0 rfl (Nat.zero_and _)).trans
      (dequeue_alone (t := 0) rfl (by simp [System.init])), rfl⟩
  exact ⟨rfl, le_rfl, .init _, b, hb, htail,
    head_sub_tail_le (show 2 = 2 ^ 1 from rfl) le_rfl (.init _) hb⟩

/-- In every reachable state `head_ - tail_` lies in `[0, C]`. -/
theorem toNat_count {k : Nat} (hC : C = 2 ^ k) (hk : 1 ≤ k) (hk64 : k < 64) (hs : Reachable C s) :
    s.count.toNat = s.head - s.tail ∧ s.head - s.tail ≤ C := by
  have hinv := reachable_inv hC hk hs
  have := hinv.tail_le_head
  have := hinv.head_le
  have hC64 : C < 2 ^ 64 := hC ▸ Nat.pow_lt_pow_right (by decide) hk64
  refine ⟨?_, by omega⟩
  simp only [System.count, BitVec.toNat_sub, BitVec.toNat_ofNat]
  omega

end Monotone

/-- `size()` can return `2 ^ 64 - 1`. It loads `head_ = 0` from a fresh queue; a producer's
`try_enqueue` and a consumer's `try_dequeue` then both complete before it loads `tail_ = 1`.
The value is more than the capacity, and no reachable state of any run has it as
`head_ - tail_`, let alone one between the two loads. -/
theorem size_wraps {C k : Nat} (hk : 1 ≤ k) (hk64 : k < 64) (hC : C = 2 ^ k) (buffer : Nat → T)
    (x : T) :
    ∃ b, Relation.ReflTransGen (Step C) (System.init buffer) b ∧
      size (System.init buffer) b = BitVec.ofNat 64 (2 ^ 64 - 1) ∧
      C < (size (System.init buffer) b).toNat ∧
      ∀ s : System T, Reachable C s → s.count ≠ size (System.init buffer) b := by
  obtain ⟨b, hb, htail⟩ : ∃ b, Relation.ReflTransGen (Step C) (System.init buffer) b ∧ b.tail = 1 :=
    ⟨_, (enqueue_alone (t := 0) x rfl (Nat.zero_and _)).trans
      (dequeue_alone (t := 0) rfl (by simp [System.init])), rfl⟩
  have hsize : size (System.init buffer) b = BitVec.ofNat 64 (2 ^ 64 - 1) := by
    rw [size, htail]
    show BitVec.ofNat 64 0 - BitVec.ofNat 64 1 = _
    decide
  have hC63 : C ≤ 2 ^ 63 := hC ▸ Nat.pow_le_pow_right (by decide) (by omega)
  refine ⟨b, hb, hsize, ?_, fun s hs he => ?_⟩
  · rw [hsize]; simp; omega
  · have := toNat_count hC hk hk64 hs
    rw [he, hsize] at this
    simp at this
    omega

theorem size_wraps_two :
    1 ≤ 1 ∧ 1 < 64 ∧ 2 = 2 ^ 1 ∧
    ∃ b, Relation.ReflTransGen (Step 2) (System.init fun _ => (0 : Nat)) b ∧
      size (System.init fun _ => (0 : Nat)) b = BitVec.ofNat 64 (2 ^ 64 - 1) ∧
      2 < (size (System.init fun _ => (0 : Nat)) b).toNat ∧
      ∀ s : System Nat, Reachable 2 s → s.count ≠ size (System.init fun _ => (0 : Nat)) b :=
  ⟨le_rfl, by decide, rfl, size_wraps le_rfl (by decide) rfl _ 0⟩

end FastMarket.Interleaving
