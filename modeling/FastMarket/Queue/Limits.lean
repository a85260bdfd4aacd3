import FastMarket.Queue.Sequential

/-!
# The queue at the edges of its parameters

`MPMCQueue` checks its capacity with `static_assert((Capacity & (Capacity - 1)) == 0)`, which
admits `0` and `1` besides the powers of two from `2`; and `try_enqueue` and `try_dequeue` subtract a
slot's sequence number from a position after casting both `size_t` words to `intptr_t`.

With capacity `1` the sequence number a producer publishes, `pos + 1`, is also the one that
marks the slot free for the next position: a second `try_enqueue` overwrites the first item
and `try_dequeue` then spins forever. Once the counters pass `2 ^ 63` the two words of a
subtraction can lie on either side of it, and the exact difference leaves `intptr_t`, where
the loops of `Sequential` read the wrapped difference.
-/

namespace FastMarket.Sequential

set_option autoImplicit false

variable {T : Type}

/-- `(Capacity & (Capacity - 1)) == 0`. -/
def capacityAdmitted (capacity : BitVec 64) : Bool := capacity &&& (capacity - 1) == 0

/-- `n & (n - 1)` clears the lowest set bit of `n`, so it is zero exactly when `n` has at most
one bit set. -/
theorem and_pred_eq_zero_iff (n : Nat) : n &&& (n - 1) = 0 ↔ n = 0 ∨ n.isPowerOfTwo := by
  refine ⟨fun h => ?_, ?_⟩
  · induction n using Nat.binaryRec with
    | z => exact .inl rfl
    | f b m ih =>
      cases b with
      | true =>
        -- `2m + 1` and `2m` share the bits of `m`
        have e : Nat.bit true m - 1 = Nat.bit false m := by simp only [Nat.bit_val]; simp
        rw [e, Nat.land_bit, Nat.and_self, Bool.and_false, Nat.bit_eq_zero_iff] at h
        exact .inr ⟨0, by rw [h.1]; rfl⟩
      | false =>
        rcases Nat.eq_zero_or_pos m with rfl | hm
        · exact .inl rfl
        -- `2m` and `2m - 1` meet where `m` and `m - 1` do
        have e : Nat.bit false m - 1 = Nat.bit true (m - 1) := by simp only [Nat.bit_val]; simp; omega
        rw [e, Nat.land_bit, Bool.and_true, Nat.bit_eq_zero_iff] at h
        obtain hm0 | ⟨j, rfl⟩ := ih h.1
        · omega
        · exact .inr ⟨j + 1, by simp only [Nat.bit_val]; simp [Nat.pow_succ]; ring⟩
  · rintro (rfl | ⟨k, rfl⟩)
    · rfl
    · rw [Nat.and_pow_two_sub_one_eq_mod, Nat.mod_self]

/-- The `static_assert` admits `0` and the powers of two, `1` among them. -/
theorem capacityAdmitted_iff (capacity : BitVec 64) :
    capacityAdmitted capacity = true ↔ capacity = 0 ∨ capacity.toNat.isPowerOfTwo := by
  by_cases h0 : capacity = 0
  · subst h0; simp only [true_or, iff_true]; decide
  · have hpos : capacity.toNat ≠ 0 := fun h => h0 (BitVec.eq_of_toNat_eq h)
    have hsub : (capacity - 1).toNat = capacity.toNat - 1 := by
      rw [BitVec.toNat_sub]; simp; omega
    rw [capacityAdmitted, beq_iff_eq, BitVec.toNat_eq, BitVec.toNat_and, hsub]
    show capacity.toNat &&& (capacity.toNat - 1) = 0 ↔ _
    rw [and_pred_eq_zero_iff, or_iff_right hpos, or_iff_right h0]

example : capacityAdmitted 48 = false := by decide

theorem index_one (pos : BitVec 64) : index 1 pos = 0 := by simp [index]

theorem Queue.call_enqueue {capacity : BitVec 64} {fuel : Nat} {q q' : Queue T} {x : T} {b : Bool}
    (h : tryEnqueue capacity fuel q x = some (b, q')) :
    q.call capacity fuel (.enqueue x) = some (.enqueue b, q') := by
  rw [Queue.call, h]; rfl

theorem Queue.call_dequeue {capacity : BitVec 64} {fuel : Nat} {q q' : Queue T} {x : Option T}
    (h : tryDequeue capacity fuel q = some (x, q')) :
    q.call capacity fuel .dequeue = some (.dequeue x, q') := by
  rw [Queue.call, h]; rfl

theorem Queue.run_cons {capacity : BitVec 64} {fuel : Nat} {q q' : Queue T} {op : Op T}
    {r : Reply T} (ops : List (Op T)) (h : q.call capacity fuel op = some (r, q')) :
    Queue.run capacity fuel (op :: ops) q =
      (Queue.run capacity fuel ops q').map fun rs => (r :: rs.1, rs.2) := by
  rw [Queue.run, h]; rfl

/-- `try_dequeue` spins while the slot of `tail_` is ahead of `tail_ + 1` and no other call
moves the queue: every pass reloads the same `tail_`. -/
theorem tryDequeue_of_ahead {capacity : BitVec 64} {q : Queue T}
    (hahead : 0 < (q.sequences (index capacity q.tail) - (q.tail + 1)).toInt) (fuel : Nat) :
    tryDequeue capacity fuel q = none := by
  unfold tryDequeue
  induction fuel with
  | zero => rfl
  | succ fuel ih =>
    simp only [dequeueLoop]
    rw [if_neg (by omega), if_neg (by omega)]
    exact ih

/-- Capacity `1` passes the `static_assert`, and a bounded FIFO of one item refuses a second.
From a fresh queue, though, two `try_enqueue` calls both succeed: the second finds the slot's
sequence number `1`, which marks the first item published and is also its own position, and
copies its item over the first one, which was never dequeued; `head_ - tail_` is then `2`.
After that every `try_dequeue` call spins: the slot's sequence number `2` is ahead of
`tail_ + 1`, and `tail_` never moves. -/
theorem capacity_one_overwrites (buffer : Nat → T) (x y : T) (fuel : Nat) :
    capacityAdmitted 1 = true ∧
    (Fifo.run 1 [.enqueue x, .enqueue y] []).1 = [.enqueue true, .enqueue false] ∧
    ∃ q, Queue.run 1 (fuel + 1) [.enqueue x, .enqueue y] (Queue.init buffer) =
        some ([.enqueue true, .enqueue true], q) ∧
      q.tail = 0 ∧ q.buffer (index 1 q.tail) = y ∧ (q.head - q.tail).toNat = 2 ∧
      ∀ fuel', tryDequeue 1 fuel' q = none := by
  let q₁ := (Queue.init buffer).enqueueAt 1 (Queue.init buffer).head x
  have h₀ := @tryEnqueue_of_free T 1 (Queue.init buffer) (by rw [index_one]; rfl) x fuel
  have h₁ := @tryEnqueue_of_free T 1 q₁
    (by simp only [q₁, Queue.enqueueAt, index_one, Function.update_same]) y fuel
  refine ⟨by decide, rfl, q₁.enqueueAt 1 q₁.head y, ?_, rfl, ?_, ?_, tryDequeue_of_ahead ?_⟩
  · rw [Queue.run_cons _ (Queue.call_enqueue h₀), Queue.run_cons _ (Queue.call_enqueue h₁)]; rfl
  · simp only [q₁, Queue.enqueueAt, index_one, Function.update_same]
  · simp only [q₁, Queue.enqueueAt, Queue.init]; decide
  · simp only [q₁, Queue.enqueueAt, index_one, Function.update_same, Queue.init]; decide

/-- `static_cast<intptr_t>(a) - static_cast<intptr_t>(b)`: the exact difference of the two
words read in two's complement, or `none` where it leaves `intptr_t` and the subtraction
overflows. -/
def intptrSub (a b : BitVec 64) : Option Int :=
  if -2 ^ 63 ≤ a.toInt - b.toInt ∧ a.toInt - b.toInt < 2 ^ 63 then some (a.toInt - b.toInt)
  else none

/-- Where the subtraction does not overflow, it is the wrapped difference that the loops of
`try_enqueue` and `try_dequeue` branch on. -/
theorem toInt_sub_of_intptrSub {a b : BitVec 64} {d : Int} (h : intptrSub a b = some d) :
    (a - b).toInt = d := by
  unfold intptrSub at h
  split_ifs at h with hr
  cases h
  have ha := a.isLt
  have hb := b.isLt
  simp only [BitVec.toInt_eq_toNat_cond, BitVec.toNat_sub] at hr ⊢
  split_ifs at hr ⊢ <;> omega

/-- A word below `2 ^ 63` minus one from `2 ^ 63` on: the exact difference is the unsigned one
plus `2 ^ 64`, out of `intptr_t` once it reaches `2 ^ 63`. -/
theorem intptrSub_eq_none {a b : BitVec 64} (ha : a.toNat < 2 ^ 63) (hb : 2 ^ 63 ≤ b.toNat)
    (h : 2 ^ 63 ≤ a.toNat + 2 ^ 64 - b.toNat) : intptrSub a b = none := by
  have := b.isLt
  unfold intptrSub
  rw [if_neg]
  rw [BitVec.toInt_eq_toNat_cond, BitVec.toInt_eq_toNat_cond, if_pos (by omega), if_neg (by omega)]
  omega

/-- The subtraction of the first pass of `try_enqueue`, at `pos = head_`. -/
def Queue.enqueueDiff (capacity : BitVec 64) (q : Queue T) : Option Int :=
  intptrSub (q.sequences (index capacity q.head)) q.head

/-- The subtraction of the first pass of `try_dequeue`, at `pos = tail_`. -/
def Queue.dequeueDiff (capacity : BitVec 64) (q : Queue T) : Option Int :=
  intptrSub (q.sequences (index capacity q.tail)) (q.tail + 1)

theorem Queue.run_append (capacity : BitVec 64) (fuel : Nat) (ops ops' : List (Op T)) (q : Queue T) :
    Queue.run capacity fuel (ops ++ ops') q = (Queue.run capacity fuel ops q).bind fun r =>
      (Queue.run capacity fuel ops' r.2).map fun r' => (r.1 ++ r'.1, r'.2) := by
  induction ops generalizing q with
  | nil => simp [Queue.run]
  | cons op ops ih =>
    rw [List.cons_append]
    simp only [Queue.run, ih]
    rcases q.call capacity fuel op with _ | ⟨r, q₁⟩
    · rfl
    · simp only [Option.some_bind]
      rcases Queue.run capacity fuel ops q₁ with _ | ⟨rs, q₂⟩
      · rfl
      · simp only [Option.some_bind, Option.map_some']
        rcases Queue.run capacity fuel ops' q₂ with _ | ⟨rs', q₃⟩ <;> rfl

/-- `n` rounds of `try_enqueue(x)` and `try_dequeue`. -/
def rounds (x : T) (n : Nat) : List (Op T) := (List.replicate n [.enqueue x, .dequeue]).flatten

theorem rounds_succ (x : T) (n : Nat) : rounds x (n + 1) = .enqueue x :: .dequeue :: rounds x n :=
  rfl

section Runs

variable {capacity : BitVec 64} {k : Nat} (hC : capacity.toNat = 2 ^ k)
include hC

/-- Each round on an empty queue takes the item in and out again and moves `tail_` by one. -/
theorem run_rounds (x : T) (n : Nat) {q : Queue T} (h : Refines capacity q []) :
    ∃ rs q', Queue.run capacity 1 (rounds x n) q = some (rs, q') ∧ Refines capacity q' [] ∧
      q'.tail = q.tail + BitVec.ofNat 64 n := by
  induction n generalizing q with
  | zero => exact ⟨[], q, rfl, h, (BitVec.add_zero _).symm⟩
  | succ n ih =>
    have hpos : 0 < capacity.toNat := hC ▸ Nat.two_pow_pos k
    have h₁ : Refines capacity (q.enqueueAt capacity q.head x) [x] := h.enqueueAt hC hpos x
    obtain ⟨rs, q', hrun, h', ht⟩ := ih (h₁.dequeueAt hC)
    refine ⟨.enqueue true :: .dequeue (some x) :: rs, q', ?_, h', ?_⟩
    · rw [rounds_succ, Queue.run_cons _ (Queue.call_enqueue (tryEnqueue_of_lt h hpos x 0)),
        Queue.run_cons _ (Queue.call_dequeue (tryDequeue_of_cons h₁ 0)), hrun]
      rfl
    · rw [ht]
      exact add_one_add_ofNat q.tail n

/-- `m` calls of `try_enqueue(x)` that fit fill the queue and leave `tail_` where it was. -/
theorem run_enqueues (x : T) (m : Nat) {q : Queue T} {xs : List T} (h : Refines capacity q xs)
    (hm : xs.length + m ≤ capacity.toNat) :
    ∃ rs q', Queue.run capacity 1 (List.replicate m (.enqueue x)) q = some (rs, q') ∧
      Refines capacity q' (xs ++ List.replicate m x) ∧ q'.tail = q.tail := by
  induction m generalizing q xs with
  | zero => exact ⟨[], q, rfl, by simpa using h, rfl⟩
  | succ m ih =>
    have hlt : xs.length < capacity.toNat := by omega
    obtain ⟨rs, q', hrun, h', ht⟩ := ih (h.enqueueAt hC hlt x) (by simp; omega)
    refine ⟨.enqueue true :: rs, q', ?_, by simpa [List.replicate_succ] using h', ht⟩
    rw [List.replicate_succ, Queue.run_cons _ (Queue.call_enqueue (tryEnqueue_of_lt h hlt x 0)), hrun]
    rfl

end Runs

section Overflow

variable {capacity : BitVec 64} {k : Nat} (hC : capacity.toNat = 2 ^ k) (buffer : Nat → T) (x : T)
include hC x

/-- After `2^63 - 1` rounds the queue is empty at `tail_ = 2^63 - 1`, and the first
subtraction of `try_dequeue` is `(2^63 - 1) - (-2^63) = 2^64 - 1`. -/
theorem dequeueDiff_overflows :
    ∃ ops rs q, Queue.run capacity 1 ops (Queue.init buffer) = some (rs, q) ∧
      q.tail = BitVec.ofNat 64 (2 ^ 63 - 1) ∧ q.empty = true ∧ q.dequeueDiff capacity = none := by
  obtain ⟨rs, q, hrun, h, ht⟩ := run_rounds hC x (2 ^ 63 - 1) (refines_init hC buffer)
  have hseq := h.free 0 le_rfl (hC ▸ Nat.two_pow_pos k)
  rw [BitVec.add_zero] at hseq
  have htail : q.tail = BitVec.ofNat 64 (2 ^ 63 - 1) := by rw [ht]; exact BitVec.zero_add _
  refine ⟨_, rs, q, hrun, htail, by rw [h.empty_eq]; rfl, ?_⟩
  rw [Queue.dequeueDiff, hseq]
  have hone : (1 : BitVec 64).toNat = 1 := rfl
  refine intptrSub_eq_none ?_ ?_ ?_ <;>
    simp only [htail, BitVec.toNat_add, BitVec.toNat_ofNat, hone] <;> omega

/-- After `2^63 - C` rounds and `C` more items the queue is full at `head_ = 2^63`, and the
first subtraction of `try_enqueue` is `(2^63 - C + 1) - (-2^63) = 2^64 - C + 1`. -/
theorem enqueueDiff_overflows (hk : 1 ≤ k) :
    ∃ ops rs q, Queue.run capacity 1 ops (Queue.init buffer) = some (rs, q) ∧
      q.head = BitVec.ofNat 64 (2 ^ 63) ∧ q.size = capacity ∧ q.enqueueDiff capacity = none := by
  have hC2 := two_le_capacity hk hC
  have hle := capacity_le hC
  obtain ⟨rs, q, hrun, h, ht⟩ := run_rounds hC x (2 ^ 63 - capacity.toNat) (refines_init hC buffer)
  obtain ⟨rs', q', hrun', h', ht'⟩ := run_enqueues hC x capacity.toNat h (by simp)
  have hlen : ([] ++ List.replicate capacity.toNat x).length = capacity.toNat := by simp
  have htail : q'.tail.toNat = 2 ^ 63 - capacity.toNat := by
    rw [ht', ht, BitVec.toNat_add, BitVec.toNat_ofNat]
    show (0 + _) % _ = _
    omega
  have hhead : q'.head = q'.tail + BitVec.ofNat 64 capacity.toNat := by rw [h'.head_eq, hlen]
  have hseq : q'.sequences (index capacity q'.head) = q'.tail + 1 := by
    rw [hhead, index_add_capacity hC]
    have := (h'.full 0 (by rw [hlen]; omega)).2
    rwa [BitVec.add_zero] at this ⊢
  refine ⟨rounds x (2 ^ 63 - capacity.toNat) ++ List.replicate capacity.toNat (.enqueue x),
    rs ++ rs', q', by rw [Queue.run_append, hrun, Option.some_bind, hrun']; rfl, ?_, ?_, ?_⟩
  · rw [hhead]
    apply BitVec.eq_of_toNat_eq
    simp only [BitVec.toNat_add, BitVec.toNat_ofNat, htail]
    omega
  · rw [Queue.size, hhead]
    apply BitVec.eq_of_toNat_eq
    simp only [BitVec.toNat_sub, BitVec.toNat_add, BitVec.toNat_ofNat]
    have := q'.tail.isLt
    omega
  · rw [Queue.enqueueDiff, hseq, hhead]
    have hone : (1 : BitVec 64).toNat = 1 := rfl
    refine intptrSub_eq_none ?_ ?_ ?_ <;>
      simp only [BitVec.toNat_add, BitVec.toNat_ofNat, hone, htail] <;> omega

end Overflow

/-- For every power-of-two capacity from `2`, calls made one at a time on a fresh queue reach
a state in which the first subtraction of `try_dequeue` overflows `intptr_t`: after `2^63 - 1`
rounds the queue is empty at `tail_ = 2^63 - 1`, and `(2^63 - 1) - (-2^63)` is `2^64 - 1`.
They also reach one in which the first subtraction of `try_enqueue` overflows: after
`2^63 - C` rounds and `C` more items the queue is full at `head_ = 2^63`, and
`(2^63 - C + 1) - (-2^63)` is `2^64 - C + 1`. -/
theorem queue_diff_overflows {capacity : BitVec 64} {k : Nat} (hk : 1 ≤ k)
    (hC : capacity.toNat = 2 ^ k) (buffer : Nat → T) (x : T) :
    (∃ ops rs q, Queue.run capacity 1 ops (Queue.init buffer) = some (rs, q) ∧
      q.tail = BitVec.ofNat 64 (2 ^ 63 - 1) ∧ q.empty = true ∧ q.dequeueDiff capacity = none) ∧
    (∃ ops rs q, Queue.run capacity 1 ops (Queue.init buffer) = some (rs, q) ∧
      q.head = BitVec.ofNat 64 (2 ^ 63) ∧ q.size = capacity ∧ q.enqueueDiff capacity = none) :=
  ⟨dequeueDiff_overflows hC buffer x, enqueueDiff_overflows hC buffer x hk⟩

theorem queue_diff_overflows_two :
    1 ≤ 1 ∧ (BitVec.ofNat 64 2).toNat = 2 ^ 1 ∧
    ((∃ ops rs q, Queue.run (BitVec.ofNat 64 2) 1 ops (Queue.init fun _ => (0 : Nat)) =
        some (rs, q) ∧ q.tail = BitVec.ofNat 64 (2 ^ 63 - 1) ∧ q.empty = true ∧
        q.dequeueDiff (BitVec.ofNat 64 2) = none) ∧
      (∃ ops rs q, Queue.run (BitVec.ofNat 64 2) 1 ops (Queue.init fun _ => (0 : Nat)) =
        some (rs, q) ∧ q.head = BitVec.ofNat 64 (2 ^ 63) ∧ q.size = BitVec.ofNat 64 2 ∧
        q.enqueueDiff (BitVec.ofNat 64 2) = none)) :=
  ⟨le_rfl, rfl, @queue_diff_overflows Nat (BitVec.ofNat 64 2) 1 le_rfl rfl (fun _ => 0) 0⟩

end FastMarket.Sequential
