import FastMarket.Queue.Ring

/-!
# The MPMC queue run one call at a time

`MPMCQueue<T, Capacity>` (`mpmc_queue.hpp`) with its `size_t` fields as they are: `head_`,
`tail_` and the sequence numbers are 64-bit words, the differences of `try_enqueue` and
`try_dequeue` are two's-complement, and each retry loop runs on `fuel` passes. With one call
at a time every compare-exchange finds the value it loaded, and the queue implements a FIFO
list bounded by `Capacity`; `Refines` is the representation that links the two.
-/

namespace FastMarket.Sequential

set_option autoImplicit false

/-- `head_`, `tail_`, `sequences_` and `buffer_`, the arrays indexed by slot. -/
structure Queue (T : Type) where
  head : BitVec 64
  tail : BitVec 64
  sequences : Nat → BitVec 64
  buffer : Nat → T

variable {T : Type}

/-- The constructor: `head_ = tail_ = 0` and `sequences_[i] = i`. -/
def Queue.init (buffer : Nat → T) : Queue T := ⟨0, 0, fun i => BitVec.ofNat 64 i, buffer⟩

/-- `pos & (Capacity - 1)`. -/
def index (capacity pos : BitVec 64) : Nat := (pos &&& (capacity - 1)).toNat

/-- The writes of a successful pass of `try_enqueue` at `pos`: `head_` moves to `pos + 1`,
the item goes into the slot and the slot's sequence number becomes `pos + 1`. -/
def Queue.enqueueAt (capacity : BitVec 64) (q : Queue T) (pos : BitVec 64) (item : T) :
    Queue T :=
  { q with head := pos + 1, buffer := Function.update q.buffer (index capacity pos) item,
           sequences := Function.update q.sequences (index capacity pos) (pos + 1) }

/-- The writes of a successful pass of `try_dequeue` at `pos`: `tail_` moves to `pos + 1` and
the slot's sequence number becomes `pos + Capacity`. -/
def Queue.dequeueAt (capacity : BitVec 64) (q : Queue T) (pos : BitVec 64) : Queue T :=
  { q with tail := pos + 1,
           sequences := Function.update q.sequences (index capacity pos) (pos + capacity) }

/-- The retry loop of `try_enqueue` from position `pos`; `none` when the fuel runs out. -/
def enqueueLoop (capacity : BitVec 64) (item : T) :
    Nat → BitVec 64 → Queue T → Option (Bool × Queue T)
  | 0, _, _ => none
  | fuel + 1, pos, q =>
    let seq := q.sequences (index capacity pos)
    let diff : Int := (seq - pos).toInt
    if diff = 0 then
      -- `compare_exchange_weak` on `head_`: on failure `pos` takes the current `head_`
      if q.head = pos then some (true, q.enqueueAt capacity pos item)
      else enqueueLoop capacity item fuel q.head q
    else if diff < 0 then some (false, q)
    else enqueueLoop capacity item fuel q.head q

def tryEnqueue (capacity : BitVec 64) (fuel : Nat) (q : Queue T) (item : T) :
    Option (Bool × Queue T) :=
  enqueueLoop capacity item fuel q.head q

/-- The retry loop of `try_dequeue` from position `pos`: the item copied out, or `none` for
a `false` return. -/
def dequeueLoop (capacity : BitVec 64) :
    Nat → BitVec 64 → Queue T → Option (Option T × Queue T)
  | 0, _, _ => none
  | fuel + 1, pos, q =>
    let seq := q.sequences (index capacity pos)
    let diff : Int := (seq - (pos + 1)).toInt
    if diff = 0 then
      if q.tail = pos then some (some (q.buffer (index capacity pos)), q.dequeueAt capacity pos)
      else dequeueLoop capacity fuel q.tail q
    else if diff < 0 then some (none, q)
    else dequeueLoop capacity fuel q.tail q

def tryDequeue (capacity : BitVec 64) (fuel : Nat) (q : Queue T) : Option (Option T × Queue T) :=
  dequeueLoop capacity fuel q.tail q

def Queue.size (q : Queue T) : BitVec 64 := q.head - q.tail

def Queue.empty (q : Queue T) : Bool := q.size = 0

inductive Op (T : Type)
  | enqueue (item : T)
  | dequeue
  | size
  | empty

inductive Reply (T : Type)
  | enqueue (ok : Bool)
  | dequeue (item : Option T)
  | size (n : Nat)
  | empty (b : Bool)
  deriving DecidableEq

/-- One call on the queue, its retry loop given `fuel` passes. -/
def Queue.call (capacity : BitVec 64) (fuel : Nat) (q : Queue T) : Op T → Option (Reply T × Queue T)
  | .enqueue x => (tryEnqueue capacity fuel q x).map fun r => (.enqueue r.1, r.2)
  | .dequeue => (tryDequeue capacity fuel q).map fun r => (.dequeue r.1, r.2)
  | .size => some (.size q.size.toNat, q)
  | .empty => some (.empty q.empty, q)

def Queue.run (capacity : BitVec 64) (fuel : Nat) : List (Op T) → Queue T →
    Option (List (Reply T) × Queue T)
  | [], q => some ([], q)
  | op :: ops, q => (q.call capacity fuel op).bind fun r =>
      (Queue.run capacity fuel ops r.2).map fun rs => (r.1 :: rs.1, rs.2)

def Fifo.call (capacity : Nat) (xs : List T) : Op T → Reply T × List T
  | .enqueue x => if xs.length < capacity then (.enqueue true, xs ++ [x]) else (.enqueue false, xs)
  | .dequeue => (.dequeue xs.head?, xs.tail)
  | .size => (.size xs.length, xs)
  | .empty => (.empty xs.isEmpty, xs)

def Fifo.run (capacity : Nat) : List (Op T) → List T → List (Reply T) × List T
  | [], xs => ([], xs)
  | op :: ops, xs =>
    let r := Fifo.call capacity xs op
    let rs := Fifo.run capacity ops r.2
    (r.1 :: rs.1, rs.2)

/-- `diff == 0` of `try_enqueue` and `try_dequeue`: the two words are equal. -/
theorem toInt_sub_eq_zero_iff {x y : BitVec 64} : (x - y).toInt = 0 ↔ x = y := by
  rw [BitVec.toInt_eq_toNat_cond, BitVec.toNat_eq]
  have := x.isLt
  have := y.isLt
  split <;> simp only [BitVec.toNat_sub] at * <;> omega

/-- `diff < 0`: the difference is at least `2 ^ 63` as an unsigned word. -/
theorem toInt_neg_of_le {x : BitVec 64} (h : 2 ^ 63 ≤ x.toNat) : x.toInt < 0 := by
  rw [BitVec.toInt_eq_toNat_cond, if_neg (by omega)]
  have := x.isLt
  omega

section Index

variable {capacity : BitVec 64} {k : Nat} (hC : capacity.toNat = 2 ^ k)
include hC

theorem index_eq_slot (pos : BitVec 64) : index capacity pos = slot capacity.toNat pos.toNat := by
  have : 1 ≤ capacity.toNat := hC ▸ Nat.one_le_two_pow
  rw [index, BitVec.toNat_and, BitVec.toNat_sub, slot]
  congr 1
  have := capacity.isLt
  have h1 : (1 : BitVec 64).toNat = 1 := rfl
  omega

/-- The slot of `t + i` is that of the unbounded position `t + i`: `Capacity` divides `2 ^ 64`. -/
theorem index_add_ofNat (t : BitVec 64) {i : Nat} (hi : i < 2 ^ 64) :
    index capacity (t + BitVec.ofNat 64 i) = slot capacity.toNat (t.toNat + i) := by
  have hk : k ≤ 64 := by
    have := capacity.isLt
    rw [hC] at this
    exact ((Nat.pow_lt_pow_iff_right (by decide)).1 this).le
  have hdvd : capacity.toNat ∣ 2 ^ 64 := hC ▸ Nat.pow_dvd_pow 2 hk
  rw [index_eq_slot hC, slot_eq_mod hC, slot_eq_mod hC, BitVec.toNat_add, BitVec.toNat_ofNat,
    Nat.mod_eq_of_lt hi, Nat.mod_mod_of_dvd _ hdvd]

/-- Positions less than one lap from `t` have different slots. -/
theorem index_ne {t : BitVec 64} {i j : Nat} (hi : i < capacity.toNat) (hj : j < capacity.toNat)
    (hne : i ≠ j) : index capacity (t + BitVec.ofNat 64 i) ≠ index capacity (t + BitVec.ofNat 64 j) := by
  have := capacity.isLt
  rw [index_add_ofNat hC t (by omega), index_add_ofNat hC t (by omega)]
  exact slot_ne_of_window hC (Nat.le_add_right _ _) (by omega) (Nat.le_add_right _ _) (by omega)
    (by omega)

theorem index_add_capacity (t : BitVec 64) :
    index capacity (t + BitVec.ofNat 64 capacity.toNat) = index capacity (t + BitVec.ofNat 64 0) := by
  rw [index_add_ofNat hC t capacity.isLt, index_add_ofNat hC t (by decide), slot_add_capacity hC,
    Nat.add_zero]

/-- `Capacity` is a `size_t` power of two, so at most `2 ^ 63`. -/
theorem capacity_le : capacity.toNat ≤ 2 ^ 63 := by
  have := capacity.isLt
  rw [hC] at this ⊢
  exact Nat.pow_le_pow_right (by decide) (Nat.lt_succ_iff.1 ((Nat.pow_lt_pow_iff_right (by decide)).1 this))

end Index

theorem add_one_add_ofNat (t : BitVec 64) (i : Nat) :
    t + 1 + BitVec.ofNat 64 i = t + BitVec.ofNat 64 (i + 1) := by
  rw [BitVec.add_assoc, BitVec.ofNat_add, BitVec.add_comm (BitVec.ofNat 64 i)]; rfl

/-- The queue represents the FIFO `xs`: the `|xs|` positions from `tail_` hold `xs` with
sequence numbers one past them, and the rest of the lap up to `tail_ + Capacity` is free, each
slot's sequence number equal to its position. -/
structure Refines (capacity : BitVec 64) (q : Queue T) (xs : List T) : Prop where
  length_le : xs.length ≤ capacity.toNat
  head_eq : q.head = q.tail + BitVec.ofNat 64 xs.length
  full : ∀ i (hi : i < xs.length),
    q.buffer (index capacity (q.tail + BitVec.ofNat 64 i)) = xs[i] ∧
    q.sequences (index capacity (q.tail + BitVec.ofNat 64 i)) = q.tail + BitVec.ofNat 64 i + 1
  free : ∀ i, xs.length ≤ i → i < capacity.toNat →
    q.sequences (index capacity (q.tail + BitVec.ofNat 64 i)) = q.tail + BitVec.ofNat 64 i

section Refinement

variable {capacity : BitVec 64} {k : Nat} (hC : capacity.toNat = 2 ^ k) {q : Queue T}
  {xs : List T}

include hC in
theorem refines_init (buffer : Nat → T) : Refines capacity (Queue.init buffer) [] where
  length_le := Nat.zero_le _
  head_eq := rfl
  full _ hi := absurd hi (Nat.not_lt_zero _)
  free i _ hi := by
    have := capacity.isLt
    show BitVec.ofNat 64 (index capacity (0 + BitVec.ofNat 64 i)) = 0 + BitVec.ofNat 64 i
    have h0 : (0 : BitVec 64).toNat = 0 := rfl
    rw [index_add_ofNat hC 0 (by omega), slot_eq_mod hC, h0, Nat.zero_add, Nat.mod_eq_of_lt hi]
    exact (BitVec.zero_add _).symm

/-- A pass that finds the slot of `head_` holding `head_` claims it. -/
theorem tryEnqueue_of_free (hfree : q.sequences (index capacity q.head) = q.head) (item : T)
    (fuel : Nat) :
    tryEnqueue capacity (fuel + 1) q item = some (true, q.enqueueAt capacity q.head item) := by
  simp only [tryEnqueue, enqueueLoop, hfree, toInt_sub_eq_zero_iff, if_true]

/-- Not full: the first pass finds the slot of `head_` free and claims it. -/
theorem tryEnqueue_of_lt (h : Refines capacity q xs) (hlt : xs.length < capacity.toNat)
    (item : T) (fuel : Nat) :
    tryEnqueue capacity (fuel + 1) q item = some (true, q.enqueueAt capacity q.head item) := by
  have hfree := h.free xs.length le_rfl hlt
  rw [← h.head_eq] at hfree
  exact tryEnqueue_of_free hfree item fuel

include hC in
/-- A successful `try_enqueue` puts the item at the back of the FIFO. -/
theorem Refines.enqueueAt (h : Refines capacity q xs) (hlt : xs.length < capacity.toNat)
    (item : T) : Refines capacity (q.enqueueAt capacity q.head item) (xs ++ [item]) := by
  have hhead := h.head_eq
  have hne : ∀ i, i < capacity.toNat → i ≠ xs.length →
      index capacity (q.tail + BitVec.ofNat 64 i) ≠ index capacity q.head := fun i hi hi' => by
    rw [hhead]; exact index_ne hC hi hlt hi'
  have hlen : (xs ++ [item]).length = xs.length + 1 := by simp
  exact {
    length_le := by rw [hlen]; omega
    head_eq := show q.head + 1 = q.tail + BitVec.ofNat 64 (xs ++ [item]).length by
      rw [hhead, hlen, BitVec.ofNat_add, BitVec.add_assoc]; rfl
    full := fun i hi => by
      rw [hlen] at hi
      simp only [Queue.enqueueAt]
      rcases Nat.lt_or_ge i xs.length with hi' | hi'
      · rw [Function.update_noteq (hne i (by omega) (by omega)),
          Function.update_noteq (hne i (by omega) (by omega)), List.getElem_append_left hi']
        exact h.full i hi'
      · obtain rfl : i = xs.length := by omega
        rw [← hhead, Function.update_same, Function.update_same, List.getElem_concat_length _ _ _ rfl]
        exact ⟨rfl, by rw [hhead]⟩
    free := fun i h1 h2 => by
      rw [hlen] at h1
      simp only [Queue.enqueueAt]
      rw [Function.update_noteq (hne i h2 (by omega))]
      exact h.free i (by omega) h2 }

include hC in
/-- Full: the slot of `head_` still holds the front item, one lap behind, and `diff < 0`. -/
theorem tryEnqueue_of_full (hk : 1 ≤ k) (h : Refines capacity q xs)
    (hfull : xs.length = capacity.toNat) (item : T) (fuel : Nat) :
    tryEnqueue capacity (fuel + 1) q item = some (false, q) := by
  have hC2 := two_le_capacity hk hC
  have hle := capacity_le hC
  have hlt := capacity.isLt
  have hseq : q.sequences (index capacity q.head) = q.tail + BitVec.ofNat 64 0 + 1 := by
    rw [h.head_eq, hfull, index_add_capacity hC]
    exact (h.full 0 (by omega)).2
  have hdiff : q.tail + BitVec.ofNat 64 0 + 1 - q.head = 1 - BitVec.ofNat 64 capacity.toNat := by
    rw [h.head_eq, hfull]; bv_omega
  simp only [tryEnqueue, enqueueLoop, hseq, hdiff]
  rw [if_neg (by rw [toInt_sub_eq_zero_iff]; bv_omega), if_pos (toInt_neg_of_le (by bv_omega))]

/-- Nonempty: the first pass finds the front item published and takes it. -/
theorem tryDequeue_of_cons {x : T} (h : Refines capacity q (x :: xs)) (fuel : Nat) :
    tryDequeue capacity (fuel + 1) q = some (some x, q.dequeueAt capacity q.tail) := by
  obtain ⟨hbuf, hseq⟩ := h.full 0 (Nat.succ_pos _)
  rw [BitVec.add_zero] at hbuf hseq
  simp only [tryDequeue, dequeueLoop, hseq, toInt_sub_eq_zero_iff, if_true, hbuf]
  rfl

include hC in
/-- Empty: the slot of `tail_` is free, with sequence number `tail_`, and `diff < 0`. -/
theorem tryDequeue_of_nil (h : Refines capacity q []) (fuel : Nat) :
    tryDequeue capacity (fuel + 1) q = some (none, q) := by
  have hseq := h.free 0 le_rfl (hC ▸ Nat.two_pow_pos k)
  rw [BitVec.add_zero] at hseq
  simp only [tryDequeue, dequeueLoop, hseq]
  rw [if_neg (by rw [toInt_sub_eq_zero_iff]; bv_omega), if_pos (toInt_neg_of_le (by bv_omega))]

include hC in
/-- A successful `try_dequeue` removes the front of the FIFO. -/
theorem Refines.dequeueAt {x : T} (h : Refines capacity q (x :: xs)) :
    Refines capacity (q.dequeueAt capacity q.tail) xs := by
  have hlen := h.length_le
  simp only [List.length_cons] at hlen
  have hne : ∀ i, i + 1 < capacity.toNat →
      index capacity (q.tail + BitVec.ofNat 64 (i + 1)) ≠ index capacity q.tail := fun i hi => by
    conv_rhs => rw [← BitVec.add_zero q.tail]
    exact index_ne hC hi (by omega) (Nat.succ_ne_zero i)
  exact {
    length_le := by omega
    head_eq := show q.head = q.tail + 1 + BitVec.ofNat 64 xs.length by
      rw [h.head_eq, add_one_add_ofNat]; rfl
    full := fun i hi => by
      simp only [Queue.dequeueAt, add_one_add_ofNat]
      rw [Function.update_noteq (hne i (by omega))]
      exact h.full (i + 1) (by simp; omega)
    free := fun i h1 h2 => by
      simp only [Queue.dequeueAt, add_one_add_ofNat]
      by_cases hi : i + 1 = capacity.toNat
      · rw [hi, index_add_capacity hC, BitVec.add_zero, Function.update_same]
        have := capacity.isLt
        bv_omega
      · rw [Function.update_noteq (hne i (by omega))]
        exact h.free (i + 1) (by simp; omega) (by omega) }

theorem Refines.size_toNat (h : Refines capacity q xs) : q.size.toNat = xs.length := by
  have := h.length_le
  have := capacity.isLt
  rw [Queue.size, h.head_eq]
  bv_omega

theorem Refines.empty_eq (h : Refines capacity q xs) : q.empty = xs.isEmpty := by
  have hs := h.size_toNat
  cases xs <;> simp_all [Queue.empty, BitVec.toNat_eq]

include hC in
/-- One call, its retry loop given a single pass, answers as the FIFO does. -/
theorem Refines.call (hk : 1 ≤ k) (h : Refines capacity q xs) (op : Op T) (fuel : Nat) :
    ∃ q', q.call capacity (fuel + 1) op = some ((Fifo.call capacity.toNat xs op).1, q') ∧
      Refines capacity q' (Fifo.call capacity.toNat xs op).2 := by
  cases op with
  | enqueue x =>
    by_cases hlt : xs.length < capacity.toNat
    · exact ⟨q.enqueueAt capacity q.head x, by simp [Queue.call, Fifo.call, tryEnqueue_of_lt h hlt, hlt],
        by simpa [Fifo.call, hlt] using h.enqueueAt hC hlt x⟩
    · have hfull : xs.length = capacity.toNat := by have := h.length_le; omega
      exact ⟨q, by simp [Queue.call, Fifo.call, tryEnqueue_of_full hC hk h hfull, hlt],
        by simpa [Fifo.call, hlt] using h⟩
  | dequeue =>
    cases xs with
    | nil => exact ⟨q, by simp [Queue.call, Fifo.call, tryDequeue_of_nil hC h], h⟩
    | cons x xs =>
      exact ⟨q.dequeueAt capacity q.tail, by simp [Queue.call, Fifo.call, tryDequeue_of_cons h],
        h.dequeueAt hC⟩
  | size => exact ⟨q, by simp [Queue.call, Fifo.call, h.size_toNat], h⟩
  | empty => exact ⟨q, by simp [Queue.call, Fifo.call, h.empty_eq], h⟩

include hC in
theorem Refines.run (hk : 1 ≤ k) (h : Refines capacity q xs) (ops : List (Op T)) (fuel : Nat) :
    ∃ q', Queue.run capacity (fuel + 1) ops q = some ((Fifo.run capacity.toNat ops xs).1, q') ∧
      Refines capacity q' (Fifo.run capacity.toNat ops xs).2 := by
  induction ops generalizing q xs with
  | nil => exact ⟨q, rfl, h⟩
  | cons op ops ih =>
    obtain ⟨q₁, hcall, h₁⟩ := h.call hC hk op fuel
    obtain ⟨q₂, hrun, h₂⟩ := ih h₁
    exact ⟨q₂, by simp [Queue.run, Fifo.run, hcall, hrun], h₂⟩

end Refinement

/-- On a fresh queue of power-of-two capacity, every sequence of calls made one at a time gets
the replies of the bounded FIFO, each retry loop ending in its first pass, and the queue
represents the FIFO's contents after each prefix. -/
theorem queue_refines_fifo {capacity : BitVec 64} {k : Nat} (hk : 1 ≤ k)
    (hC : capacity.toNat = 2 ^ k) (buffer : Nat → T) (ops : List (Op T)) :
    ∃ q, Queue.run capacity 1 ops (Queue.init buffer) =
        some ((Fifo.run capacity.toNat ops []).1, q) ∧
      Refines capacity q (Fifo.run capacity.toNat ops []).2 :=
  (refines_init hC buffer).run hC hk ops 0

theorem queue_refines_fifo_four :
    1 ≤ 2 ∧ (BitVec.ofNat 64 4).toNat = 2 ^ 2 ∧
    ∃ q, Queue.run (BitVec.ofNat 64 4) 1 [.enqueue 7, .enqueue 8, .dequeue, .size]
        (Queue.init fun _ => (0 : Nat)) =
        some ((Fifo.run (BitVec.ofNat 64 4).toNat [.enqueue 7, .enqueue 8, .dequeue, .size] []).1, q) ∧
      Refines (BitVec.ofNat 64 4) q
        (Fifo.run (BitVec.ofNat 64 4).toNat [.enqueue 7, .enqueue 8, .dequeue, .size] []).2 :=
  ⟨by decide, rfl, queue_refines_fifo (show 1 ≤ 2 by decide)
    (show (BitVec.ofNat 64 4).toNat = 2 ^ 2 from rfl) _ _⟩

example : (Queue.run (BitVec.ofNat 64 4) 1 [.enqueue 7, .enqueue 8, .dequeue, .size, .empty]
    (Queue.init fun _ => (0 : Nat))).map Prod.fst =
    some [.enqueue true, .enqueue true, .dequeue (some 7), .size 1, .empty false] := by
  decide

end FastMarket.Sequential
