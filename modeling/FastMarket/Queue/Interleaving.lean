import FastMarket.Queue.Ring

/-!
# The MPMC queue under every interleaving

`MPMCQueue<T, Capacity>::try_enqueue` and `try_dequeue` (`mpmc_queue.hpp`) cut into their
atomic steps: the load of `head_`/`tail_`, the acquire load of a slot's sequence number, the
compare-exchange, the copy into or out of the slot, and the release store of the sequence
number. Any number of threads run them, the scheduler picks one step at a time (sequential
consistency), and `head`, `tail` and the sequence numbers are unbounded counters.

Two ghost logs record what the claims are about: `claimed` holds, at index `p`, the item of
the producer whose compare-exchange took head position `p`; `copied` holds each copy out of
a slot with the tail position it was claimed at.
-/

namespace FastMarket.Interleaving

set_option autoImplicit false

/-- Where a thread is inside `try_enqueue` or `try_dequeue`, with its locals. -/
inductive Pc (T : Type)
  | idle
  | enqLoadHead (item : T)
  | enqLoadSeq (item : T) (pos : Nat)
  | enqCas (item : T) (pos : Nat)
  | enqWrite (item : T) (pos : Nat)
  | enqPublish (pos : Nat)
  | deqLoadTail
  | deqLoadSeq (pos : Nat)
  | deqCas (pos : Nat)
  | deqRead (pos : Nat)
  | deqRelease (pos : Nat) (item : T)
  deriving DecidableEq, Repr

structure System (T : Type) where
  head : Nat
  tail : Nat
  sequences : Nat → Nat
  buffer : Nat → T
  threads : Nat → Pc T
  claimed : List T
  copied : List (Nat × T)

variable {T : Type}

/-- A freshly constructed queue: `sequences_[i] = i`, `buffer_` as default-constructed. -/
def System.init (buffer : Nat → T) : System T where
  head := 0
  tail := 0
  sequences := fun i => i
  buffer := buffer
  threads := fun _ => .idle
  claimed := []
  copied := []

def System.setPc (s : System T) (t : Nat) (pc : Pc T) : System T :=
  { s with threads := Function.update s.threads t pc }

/-- Where `try_enqueue` goes after loading the sequence number `seq` of the slot of `pos`. -/
def enqBranch (item : T) (pos seq : Nat) : Pc T :=
  let diff : Int := seq - pos
  if diff = 0 then .enqCas item pos
  else if diff < 0 then .idle
  else .enqLoadHead item

/-- Where `try_dequeue` goes after loading the sequence number `seq` of the slot of `pos`. -/
def deqBranch (pos seq : Nat) : Pc T :=
  let diff : Int := seq - (pos + 1)
  if diff = 0 then .deqCas pos
  else if diff < 0 then .idle
  else .deqLoadTail

/-- One atomic step of thread `t`; a thread at `idle` may start either call. -/
inductive Step (capacity : Nat) : System T → System T → Prop
  | invokeEnqueue {s : System T} {t : Nat} (item : T) :
      s.threads t = .idle → Step capacity s (s.setPc t (.enqLoadHead item))
  | invokeDequeue {s : System T} {t : Nat} :
      s.threads t = .idle → Step capacity s (s.setPc t .deqLoadTail)
  | enqLoadHead {s : System T} {t : Nat} {item : T} :
      s.threads t = .enqLoadHead item → Step capacity s (s.setPc t (.enqLoadSeq item s.head))
  | enqLoadSeq {s : System T} {t : Nat} {item : T} {pos : Nat} :
      s.threads t = .enqLoadSeq item pos →
      Step capacity s (s.setPc t (enqBranch item pos (s.sequences (slot capacity pos))))
  | enqCasSucceed {s : System T} {t : Nat} {item : T} {pos : Nat} :
      s.threads t = .enqCas item pos → s.head = pos →
      Step capacity s { s.setPc t (.enqWrite item pos) with
        head := pos + 1, claimed := s.claimed ++ [item] }
  | enqCasFail {s : System T} {t : Nat} {item : T} {pos : Nat} :
      s.threads t = .enqCas item pos → Step capacity s (s.setPc t (.enqLoadSeq item s.head))
  | enqWrite {s : System T} {t : Nat} {item : T} {pos : Nat} :
      s.threads t = .enqWrite item pos →
      Step capacity s { s.setPc t (.enqPublish pos) with
        buffer := Function.update s.buffer (slot capacity pos) item }
  | enqPublish {s : System T} {t : Nat} {pos : Nat} :
      s.threads t = .enqPublish pos →
      Step capacity s { s.setPc t .idle with
        sequences := Function.update s.sequences (slot capacity pos) (pos + 1) }
  | deqLoadTail {s : System T} {t : Nat} :
      s.threads t = .deqLoadTail → Step capacity s (s.setPc t (.deqLoadSeq s.tail))
  | deqLoadSeq {s : System T} {t : Nat} {pos : Nat} :
      s.threads t = .deqLoadSeq pos →
      Step capacity s (s.setPc t (deqBranch pos (s.sequences (slot capacity pos))))
  | deqCasSucceed {s : System T} {t : Nat} {pos : Nat} :
      s.threads t = .deqCas pos → s.tail = pos →
      Step capacity s { s.setPc t (.deqRead pos) with tail := pos + 1 }
  | deqCasFail {s : System T} {t : Nat} {pos : Nat} :
      s.threads t = .deqCas pos → Step capacity s (s.setPc t (.deqLoadSeq s.tail))
  | deqRead {s : System T} {t : Nat} {pos : Nat} :
      s.threads t = .deqRead pos →
      Step capacity s { s.setPc t (.deqRelease pos (s.buffer (slot capacity pos))) with
        copied := s.copied ++ [(pos, s.buffer (slot capacity pos))] }
  | deqRelease {s : System T} {t : Nat} {pos : Nat} {item : T} :
      s.threads t = .deqRelease pos item →
      Step capacity s { s.setPc t .idle with
        sequences := Function.update s.sequences (slot capacity pos) (pos + capacity) }

inductive Reachable (capacity : Nat) : System T → Prop
  | init (buffer : Nat → T) : Reachable capacity (System.init buffer)
  | step {s s' : System T} : Reachable capacity s → Step capacity s s' → Reachable capacity s'

theorem Reachable.run {C : Nat} {s s' : System T} (hs : Reachable C s)
    (hr : Relation.ReflTransGen (Step C) s s') : Reachable C s' := by
  induction hr with
  | refl => exact hs
  | tail _ hstep ih => exact ih.step hstep

/-- Inside `try_enqueue` after claiming head position `p`, before publishing it. -/
def Pc.Producing : Pc T → Nat → Prop
  | .enqWrite _ q, p => q = p
  | .enqPublish q, p => q = p
  | _, _ => False

/-- Inside `try_dequeue` after claiming tail position `p`, before releasing its slot. -/
def Pc.Consuming : Pc T → Nat → Prop
  | .deqRead q, p => q = p
  | .deqRelease q _, p => q = p
  | _, _ => False

/-- What a thread's locals tell about the shared state. -/
def PcOk (C : Nat) (s : System T) : Pc T → Prop
  | .enqCas _ p => p ≤ s.sequences (slot C p)
  | .enqWrite x p => s.tail ≤ p ∧ p < s.head ∧ s.claimed[p]? = some x ∧
      s.sequences (slot C p) = p
  | .enqPublish p => s.tail ≤ p ∧ p < s.head ∧ s.claimed[p]? = some (s.buffer (slot C p)) ∧
      s.sequences (slot C p) = p
  | .deqCas p => p + 1 ≤ s.sequences (slot C p)
  | .deqRead p => p < s.tail ∧ s.head ≤ p + C ∧ s.sequences (slot C p) = p + 1 ∧
      s.claimed[p]? = some (s.buffer (slot C p)) ∧ ∀ v, (p, v) ∉ s.copied
  | .deqRelease p v => p < s.tail ∧ s.head ≤ p + C ∧ s.sequences (slot C p) = p + 1 ∧
      s.claimed[p]? = some v
  | _ => True

/-- Every reachable state of a ring of capacity `C`: the positions `[tail, head)` are claimed
by producers and the positions `[head, tail + C)` are free or held by a consumer a lap back. -/
structure Inv (C : Nat) (s : System T) : Prop where
  tail_le_head : s.tail ≤ s.head
  head_le : s.head ≤ s.tail + C
  claimed_length : s.claimed.length = s.head
  pcOk : ∀ t, PcOk C s (s.threads t)
  producer_unique : ∀ t t' p, (s.threads t).Producing p → (s.threads t').Producing p → t = t'
  consumer_unique : ∀ t t' p, (s.threads t).Consuming p → (s.threads t').Consuming p → t = t'
  full : ∀ p, s.tail ≤ p → p < s.head → (∃ t, (s.threads t).Producing p) ∨
    (s.sequences (slot C p) = p + 1 ∧ s.claimed[p]? = some (s.buffer (slot C p)))
  free : ∀ p, s.head ≤ p → p < s.tail + C → s.sequences (slot C p) = p ∨
    (C ≤ p ∧ ∃ t, (s.threads t).Consuming (p - C))
  copied_ok : ∀ q v, (q, v) ∈ s.copied → q < s.tail ∧ s.claimed[q]? = some v
  consumed : ∀ q < s.tail, (∃ t, s.threads t = .deqRead q) ∨ ∃ v, (q, v) ∈ s.copied
  copied_nodup : (s.copied.map Prod.fst).Nodup

theorem inv_init {C k : Nat} (buffer : Nat → T) (hC : C = 2 ^ k) : Inv C (System.init buffer) where
  tail_le_head := le_refl _
  head_le := Nat.zero_le _
  claimed_length := rfl
  pcOk _ := trivial
  producer_unique _ _ _ h := h.elim
  consumer_unique _ _ _ h := h.elim
  full _ h h' := absurd h' (by simp [System.init])
  free p _ hp := .inl (by
    simp only [System.init, Nat.zero_add] at hp ⊢
    rw [slot_eq_mod hC, Nat.mod_eq_of_lt hp])
  copied_ok _ _ h := absurd h (List.not_mem_nil _)
  consumed _ h := absurd h (Nat.not_lt_zero _)
  copied_nodup := List.nodup_nil

section Frame

variable {C : Nat} {s : System T} {t : Nat} {pc : Pc T}

@[simp] theorem setPc_threads_self : (s.setPc t pc).threads t = pc := Function.update_same _ _ _

@[simp] theorem setPc_threads_ne {t' : Nat} (h : t' ≠ t) : (s.setPc t pc).threads t' = s.threads t' :=
  Function.update_noteq h _ _

@[simp] theorem setPc_head : (s.setPc t pc).head = s.head := rfl
@[simp] theorem setPc_tail : (s.setPc t pc).tail = s.tail := rfl
@[simp] theorem setPc_sequences : (s.setPc t pc).sequences = s.sequences := rfl
@[simp] theorem setPc_buffer : (s.setPc t pc).buffer = s.buffer := rfl
@[simp] theorem setPc_claimed : (s.setPc t pc).claimed = s.claimed := rfl
@[simp] theorem setPc_copied : (s.setPc t pc).copied = s.copied := rfl

/-- Neither holding a head position nor a tail position. -/
def Pc.Quiet (pc : Pc T) : Prop := ∀ p, ¬ pc.Producing p ∧ ¬ pc.Consuming p

theorem pcOk_setPc (pc' : Pc T) : PcOk C (s.setPc t pc) pc' ↔ PcOk C s pc' := by
  cases pc' <;> rfl

/-- A property held by at most one thread stays so when a thread takes it only where no other
thread holds it. -/
theorem unique_setPc {P : Pc T → Nat → Prop}
    (h : ∀ t1 t2 p, P (s.threads t1) p → P (s.threads t2) p → t1 = t2)
    (hnew : ∀ p, P pc p → ∀ t', t' ≠ t → ¬ P (s.threads t') p) :
    ∀ t1 t2 p, P ((s.setPc t pc).threads t1) p → P ((s.setPc t pc).threads t2) p → t1 = t2 := by
  intro t1 t2 p h1 h2
  by_cases e1 : t1 = t <;> by_cases e2 : t2 = t
  · rw [e1, e2]
  · subst e1; rw [setPc_threads_self] at h1; rw [setPc_threads_ne e2] at h2
    exact absurd h2 (hnew p h1 t2 e2)
  · subst e2; rw [setPc_threads_self] at h2; rw [setPc_threads_ne e1] at h1
    exact absurd h1 (hnew p h2 t1 e1)
  · rw [setPc_threads_ne e1] at h1
    rw [setPc_threads_ne e2] at h2
    exact h t1 t2 p h1 h2

/-- Some thread still has a property after `t` moves, if `t` keeps it when it had it. -/
theorem exists_setPc_of_imp (P : Pc T → Prop) (hkeep : P (s.threads t) → P pc)
    (h : ∃ t', P (s.threads t')) : ∃ t', P ((s.setPc t pc).threads t') := by
  obtain ⟨t', ht'⟩ := h
  by_cases e : t' = t
  · subst e; exact ⟨t', by rw [setPc_threads_self]; exact hkeep ht'⟩
  · exact ⟨t', by rwa [setPc_threads_ne e]⟩

/-- A holder other than `t` is still a holder after `t` moves. -/
theorem exists_setPc (P : Pc T → Prop) (hold : ¬ P (s.threads t)) (h : ∃ t', P (s.threads t')) :
    ∃ t', P ((s.setPc t pc).threads t') :=
  exists_setPc_of_imp P (fun hx => absurd hx hold) h

theorem quiet_enqBranch (item : T) (pos seq : Nat) : (enqBranch item pos seq).Quiet := by
  simp only [enqBranch]; split_ifs <;> exact fun _ => ⟨id, id⟩

theorem quiet_deqBranch (pos seq : Nat) : (deqBranch pos seq : Pc T).Quiet := by
  simp only [deqBranch]; split_ifs <;> exact fun _ => ⟨id, id⟩

/-- The compare-exchange is only tried on a slot whose sequence number was `pos`. -/
theorem pcOk_enqBranch (item : T) (pos : Nat) :
    PcOk C s (enqBranch item pos (s.sequences (slot C pos))) := by
  simp only [enqBranch]
  split_ifs with h0
  · show pos ≤ _; omega
  all_goals trivial

theorem pcOk_deqBranch (pos : Nat) : PcOk C s (deqBranch pos (s.sequences (slot C pos))) := by
  simp only [deqBranch]
  split_ifs with h0
  · show pos + 1 ≤ _; omega
  all_goals trivial

theorem Inv.setPc (h : Inv C s) (hold : (s.threads t).Quiet) (hnew : pc.Quiet)
    (hok : PcOk C s pc) : Inv C (s.setPc t pc) where
  tail_le_head := h.tail_le_head
  head_le := h.head_le
  claimed_length := h.claimed_length
  pcOk t' := by
    rw [pcOk_setPc]
    by_cases e : t' = t
    · subst e; simpa using hok
    · rw [setPc_threads_ne e]; exact h.pcOk t'
  producer_unique := unique_setPc h.producer_unique fun p hp => absurd hp (hnew p).1
  consumer_unique := unique_setPc h.consumer_unique fun p hp => absurd hp (hnew p).2
  full p h1 h2 := (h.full p h1 h2).imp_left (exists_setPc (Pc.Producing · p) (hold p).1)
  free p h1 h2 := (h.free p h1 h2).imp_right fun ⟨hc, hx⟩ =>
    ⟨hc, exists_setPc (Pc.Consuming · (p - C)) (hold _).2 hx⟩
  copied_ok := h.copied_ok
  consumed q hq := (h.consumed q hq).imp_left
    (exists_setPc (· = .deqRead q) fun he => (hold q).2 (by rw [he]; rfl))
  copied_nodup := h.copied_nodup

end Frame

section Steps

variable {C k : Nat} (hC : C = 2 ^ k) (hk : 1 ≤ k) {s : System T} {t : Nat}

theorem Inv.producing (h : Inv C s) {t' p : Nat} (hp : (s.threads t').Producing p) :
    s.tail ≤ p ∧ p < s.head ∧ s.sequences (slot C p) = p := by
  have hok := h.pcOk t'
  generalize s.threads t' = pc at hp hok
  cases pc <;> simp only [Pc.Producing] at hp <;> subst hp <;> exact ⟨hok.1, hok.2.1, hok.2.2.2⟩

theorem Inv.consuming (h : Inv C s) {t' q : Nat} (hq : (s.threads t').Consuming q) :
    q < s.tail ∧ s.head ≤ q + C ∧ s.sequences (slot C q) = q + 1 := by
  have hok := h.pcOk t'
  generalize s.threads t' = pc at hq hok
  cases pc <;> simp only [Pc.Consuming] at hq <;> subst hq <;> exact ⟨hok.1, hok.2.1, hok.2.2.1⟩

include hC hk in
/-- A producer's successful compare-exchange on `head`. -/
theorem Inv.enqCasSucceed (h : Inv C s) {item : T} {pos : Nat}
    (ht : s.threads t = .enqCas item pos) (hh : s.head = pos) :
    Inv C { s.setPc t (.enqWrite item pos) with
      head := pos + 1, claimed := s.claimed ++ [item] } := by
  have hC2 := two_le_capacity hk hC
  have hseq : pos ≤ s.sequences (slot C pos) := by simpa [ht, PcOk] using h.pcOk t
  have hnocons : ∀ t' q, (s.threads t').Consuming q → q + C ≠ pos := by
    intro t' q hq e
    have := (h.consuming hq).2.2
    rw [← e, slot_add_capacity hC] at hseq
    omega
  have hwin : pos < s.tail + C := by
    by_contra hge
    have e : pos = s.tail + C := by have := h.head_le; omega
    have hs : slot C pos = slot C s.tail := by rw [e, slot_add_capacity hC]
    rw [hs] at hseq
    rcases h.full s.tail le_rfl (by omega) with ⟨t', ht'⟩ | ⟨hq, -⟩
    · have := (h.producing ht').2.2; omega
    · omega
  have hfree : s.sequences (slot C pos) = pos := by
    rcases h.free pos (by omega) hwin with he | ⟨hcp, t', hc⟩
    · exact he
    · exact absurd (Nat.sub_add_cancel hcp) (hnocons t' _ hc)
  have hlen := h.claimed_length
  have htl := h.tail_le_head
  have hclaimed : ∀ p < pos, (s.claimed ++ [item])[p]? = s.claimed[p]? := fun p hp =>
    List.getElem?_append_left (by omega)
  have hquiet : (s.threads t).Quiet := by rw [ht]; exact fun _ => ⟨id, id⟩
  exact {
    tail_le_head := show s.tail ≤ pos + 1 by have := h.tail_le_head; omega
    head_le := hwin
    claimed_length := by simp [hlen, hh]
    pcOk := fun t' => by
      by_cases e : t' = t
      · subst e
        simp only [setPc_threads_self, PcOk]
        exact ⟨hh ▸ h.tail_le_head, Nat.lt_succ_self _,
          by rw [← hh, ← hlen, List.getElem?_concat_length], hfree⟩
      · have hok := h.pcOk t'
        have hnc := hnocons t'
        simp only [setPc_threads_ne e]
        generalize s.threads t' = pc at hok hnc ⊢
        cases pc with
        | enqWrite x p | enqPublish p =>
          simp only [PcOk, setPc_tail, setPc_sequences, setPc_buffer] at hok ⊢
          exact ⟨hok.1, by omega, by rw [hclaimed p (by omega)]; exact hok.2.2.1, hok.2.2.2⟩
        | deqRead p | deqRelease p x =>
          have := hnc p rfl
          simp only [PcOk, setPc_tail, setPc_sequences, setPc_buffer, setPc_copied] at hok ⊢
          exact ⟨hok.1, by omega, hok.2.2.1, by rw [hclaimed p (by omega)]; exact hok.2.2.2⟩
        | _ => exact hok
    producer_unique := unique_setPc h.producer_unique fun p hp t' _ ht' => by
      have := (h.producing ht').2.1
      simp only [Pc.Producing] at hp
      omega
    consumer_unique := unique_setPc h.consumer_unique fun _ hp => hp.elim
    full := fun p (h1 : s.tail ≤ p) (h2 : p < pos + 1) => by
      rcases Nat.lt_or_ge p pos with hp | hp
      · rcases h.full p h1 (by omega) with hx | ⟨hs, hc⟩
        · exact .inl (exists_setPc (Pc.Producing · p) (hquiet p).1 hx)
        · exact .inr ⟨hs, by rw [hclaimed p hp]; exact hc⟩
      · exact .inl ⟨t, by simp only [setPc_threads_self, Pc.Producing]; omega⟩
    free := fun p (h1 : pos + 1 ≤ p) h2 => (h.free p (by omega) h2).imp_right fun ⟨hc, hx⟩ =>
      ⟨hc, exists_setPc (Pc.Consuming · (p - C)) (hquiet _).2 hx⟩
    copied_ok := fun q v hq => by
      obtain ⟨h1, h2⟩ := h.copied_ok q v hq
      exact ⟨h1, by rw [hclaimed q (by have := h.tail_le_head; omega)]; exact h2⟩
    consumed := fun q hq => (h.consumed q hq).imp_left
      (exists_setPc (· = .deqRead q) fun he => (hquiet q).2 (by rw [he]; rfl))
    copied_nodup := h.copied_nodup }

include hC hk in
/-- A producer's copy of its item into the slot it claimed. -/
theorem Inv.enqWrite (h : Inv C s) {item : T} {pos : Nat}
    (ht : s.threads t = .enqWrite item pos) :
    Inv C { s.setPc t (.enqPublish pos) with
      buffer := Function.update s.buffer (slot C pos) item } := by
  have hC2 := two_le_capacity hk hC
  obtain ⟨hpt, hph, hpc, hps⟩ : s.tail ≤ pos ∧ pos < s.head ∧ s.claimed[pos]? = some item ∧
      s.sequences (slot C pos) = pos := by simpa [ht, PcOk] using h.pcOk t
  have hprod : (s.threads t).Producing pos := by rw [ht]; rfl
  have htl := h.tail_le_head
  have hhl := h.head_le
  -- the slots of the other claimed positions keep their items
  have hbuf : ∀ p, s.tail ≤ p → p < s.head → p ≠ pos →
      Function.update s.buffer (slot C pos) item (slot C p) = s.buffer (slot C p) := fun p h1 h2 hne =>
    Function.update_noteq (slot_ne_of_window hC h1 (by omega) hpt (by omega) hne) _ _
  have hnotcons : ∀ q, ¬ (s.threads t).Consuming q := by rw [ht]; exact fun _ => id
  exact {
    tail_le_head := htl
    head_le := hhl
    claimed_length := h.claimed_length
    pcOk := fun t' => by
      by_cases e : t' = t
      · subst e
        simp only [setPc_threads_self, PcOk, setPc_tail, setPc_head, setPc_claimed,
          setPc_sequences, Function.update_same]
        exact ⟨hpt, hph, hpc, hps⟩
      · have hok := h.pcOk t'
        have hpu := fun p hp => h.producer_unique t' t p hp
        have hcons := fun q (hq : (s.threads t').Consuming q) => h.consuming hq
        simp only [setPc_threads_ne e]
        generalize s.threads t' = pc at hok hpu hcons ⊢
        cases pc with
        | enqPublish p =>
          have hne : p ≠ pos := fun hp => e (hpu p rfl (hp ▸ hprod))
          simp only [PcOk, setPc_tail, setPc_head, setPc_claimed, setPc_sequences] at hok ⊢
          rw [hbuf p hok.1 hok.2.1 hne]
          exact hok
        | deqRead p =>
          have := hcons p rfl
          simp only [PcOk, setPc_tail, setPc_head, setPc_claimed, setPc_sequences,
            setPc_copied] at hok ⊢
          rw [Function.update_noteq (slot_ne_of_window hC le_rfl (by omega) (by omega) (by omega)
            (by omega))]
          exact hok
        | _ => exact hok
    producer_unique := unique_setPc h.producer_unique fun p hp t' ne ht' =>
      ne (h.producer_unique t' t p ht' (by rw [ht]; exact hp))
    consumer_unique := unique_setPc h.consumer_unique fun _ hp => hp.elim
    full := fun p (h1 : s.tail ≤ p) (h2 : p < s.head) => by
      by_cases hp : p = pos
      · exact .inl ⟨t, by rw [setPc_threads_self, hp]; rfl⟩
      · refine (h.full p h1 h2).imp
          (exists_setPc (Pc.Producing · p) (by rw [ht]; exact Ne.symm hp)) ?_
        rintro ⟨hs, hc⟩
        exact ⟨hs, show s.claimed[p]? = some (Function.update s.buffer (slot C pos) item (slot C p))
          by rw [hbuf p h1 h2 hp]; exact hc⟩
    free := fun p h1 h2 => (h.free p h1 h2).imp_right fun ⟨hc, hx⟩ =>
      ⟨hc, exists_setPc (Pc.Consuming · (p - C)) (hnotcons _) hx⟩
    copied_ok := h.copied_ok
    consumed := fun q hq => (h.consumed q hq).imp_left
      (exists_setPc (· = .deqRead q) fun he => hnotcons q (by rw [he]; rfl))
    copied_nodup := h.copied_nodup }

include hC hk in
/-- A producer's release store of `pos + 1` into its slot's sequence number. -/
theorem Inv.enqPublish (h : Inv C s) {pos : Nat} (ht : s.threads t = .enqPublish pos) :
    Inv C { s.setPc t .idle with
      sequences := Function.update s.sequences (slot C pos) (pos + 1) } := by
  have hC2 := two_le_capacity hk hC
  obtain ⟨hpt, hph, hpc, hps⟩ : s.tail ≤ pos ∧ pos < s.head ∧
      s.claimed[pos]? = some (s.buffer (slot C pos)) ∧ s.sequences (slot C pos) = pos := by
    simpa [ht, PcOk] using h.pcOk t
  have hprod : (s.threads t).Producing pos := by rw [ht]; rfl
  have htl := h.tail_le_head
  have hhl := h.head_le
  -- sequence numbers only grow
  have hmono : ∀ i, s.sequences i ≤ Function.update s.sequences (slot C pos) (pos + 1) i :=
    le_update_iff.2 ⟨by rw [hps]; omega, fun _ _ => le_rfl⟩
  -- any other position less than a lap from `pos` keeps its sequence number
  have hseq : ∀ p, pos < p + C → p < pos + C → p ≠ pos →
      Function.update s.sequences (slot C pos) (pos + 1) (slot C p) = s.sequences (slot C p) :=
    fun _ h1 h2 hne => Function.update_noteq (slot_ne_of_near hC h1 h2 hne) _ _
  have hnotcons : ∀ q, ¬ (s.threads t).Consuming q := by rw [ht]; exact fun _ => id
  exact {
    tail_le_head := htl
    head_le := hhl
    claimed_length := h.claimed_length
    pcOk := fun t' => by
      by_cases e : t' = t
      · subst e; rw [setPc_threads_self]; trivial
      · have hok := h.pcOk t'
        have hpu := fun p hp => h.producer_unique t' t p hp
        have hcons := fun q (hq : (s.threads t').Consuming q) => h.consuming hq
        simp only [setPc_threads_ne e]
        generalize s.threads t' = pc at hok hpu hcons ⊢
        cases pc with
        | enqCas x p => exact le_trans (show p ≤ s.sequences (slot C p) from hok) (hmono _)
        | deqCas p => exact le_trans (show p + 1 ≤ s.sequences (slot C p) from hok) (hmono _)
        | enqWrite x p | enqPublish p =>
          have hne : p ≠ pos := fun hp => e (hpu p rfl (hp ▸ hprod))
          simp only [PcOk, setPc_tail, setPc_head, setPc_claimed, setPc_buffer] at hok ⊢
          rw [hseq p (by omega) (by omega) hne]
          exact hok
        | deqRead p | deqRelease p x =>
          have := hcons p rfl
          simp only [PcOk, setPc_tail, setPc_head, setPc_claimed, setPc_buffer,
            setPc_copied] at hok ⊢
          rw [hseq p (by omega) (by omega) (by omega)]
          exact hok
        | _ => exact hok
    producer_unique := unique_setPc h.producer_unique fun _ hp => hp.elim
    consumer_unique := unique_setPc h.consumer_unique fun _ hp => hp.elim
    full := fun p (h1 : s.tail ≤ p) (h2 : p < s.head) => by
      by_cases hp : p = pos
      · subst hp
        exact .inr ⟨Function.update_same _ _ _, hpc⟩
      · refine (h.full p h1 h2).imp
          (exists_setPc (Pc.Producing · p) (by rw [ht]; exact Ne.symm hp)) ?_
        rintro ⟨hs, hc⟩
        exact ⟨(hseq p (by omega) (by omega) hp).trans hs, hc⟩
    free := fun p (h1 : s.head ≤ p) (h2 : p < s.tail + C) =>
      (h.free p h1 h2).imp (fun hs => (hseq p (by omega) (by omega) (by omega)).trans hs)
        fun ⟨hc, hx⟩ => ⟨hc, exists_setPc (Pc.Consuming · (p - C)) (hnotcons _) hx⟩
    copied_ok := h.copied_ok
    consumed := fun q hq => (h.consumed q hq).imp_left
      (exists_setPc (· = .deqRead q) fun he => hnotcons q (by rw [he]; rfl))
    copied_nodup := h.copied_nodup }

include hC hk in
/-- A consumer's successful compare-exchange on `tail`. -/
theorem Inv.deqCasSucceed (h : Inv C s) {pos : Nat} (ht : s.threads t = .deqCas pos)
    (htail : s.tail = pos) :
    Inv C { s.setPc t (.deqRead pos) with tail := pos + 1 } := by
  have hC2 := two_le_capacity hk hC
  have hseq : pos + 1 ≤ s.sequences (slot C pos) := by simpa [ht, PcOk] using h.pcOk t
  have htl := h.tail_le_head
  have hhl := h.head_le
  -- the slot of `pos` is not free, so `pos` is claimed
  have hph : pos < s.head := by
    by_contra hge
    rcases h.free pos (by omega) (by omega) with hs | ⟨hcp, t', hc⟩
    · omega
    · have := (h.consuming hc).2.2
      rw [slot_sub_capacity hC hcp] at this
      omega
  -- and its producer has published it
  obtain ⟨hps, hpc⟩ : s.sequences (slot C pos) = pos + 1 ∧
      s.claimed[pos]? = some (s.buffer (slot C pos)) := by
    refine (h.full pos (by omega) hph).resolve_left fun ⟨t', hp⟩ => ?_
    have := (h.producing hp).2.2
    omega
  have hquiet : (s.threads t).Quiet := by rw [ht]; exact fun _ => ⟨id, id⟩
  exact {
    tail_le_head := show pos + 1 ≤ s.head by omega
    head_le := show s.head ≤ pos + 1 + C by omega
    claimed_length := h.claimed_length
    pcOk := fun t' => by
      by_cases e : t' = t
      · subst e
        simp only [setPc_threads_self, PcOk, setPc_head, setPc_claimed, setPc_sequences,
          setPc_buffer, setPc_copied]
        exact ⟨Nat.lt_succ_self _, by omega, hps, hpc, fun v hv => by
          have := (h.copied_ok pos v hv).1; omega⟩
      · have hok := h.pcOk t'
        have hprod := fun p (hp : (s.threads t').Producing p) => h.producing hp
        simp only [setPc_threads_ne e]
        generalize s.threads t' = pc at hok hprod ⊢
        cases pc with
        | enqWrite x p | enqPublish p =>
          obtain ⟨hp1, -, hp3⟩ := hprod p rfl
          have hne : p ≠ pos := by rintro rfl; omega
          simp only [PcOk, setPc_head, setPc_claimed, setPc_sequences, setPc_buffer] at hok ⊢
          exact ⟨by omega, hok.2⟩
        | deqRead p | deqRelease p x =>
          simp only [PcOk, setPc_head, setPc_claimed, setPc_sequences, setPc_buffer,
            setPc_copied] at hok ⊢
          exact ⟨by omega, hok.2⟩
        | _ => exact hok
    producer_unique := unique_setPc h.producer_unique fun _ hp => hp.elim
    consumer_unique := unique_setPc h.consumer_unique fun p hp t' _ ht' => by
      have := (h.consuming ht').1
      simp only [Pc.Consuming] at hp
      omega
    full := fun p (h1 : pos + 1 ≤ p) h2 => (h.full p (by omega) h2).imp_left
      (exists_setPc (Pc.Producing · p) (hquiet p).1)
    free := fun p h1 (h2 : p < pos + 1 + C) => by
      by_cases hp : p = pos + C
      · exact .inr ⟨by omega, t, by rw [setPc_threads_self, hp, Nat.add_sub_cancel]; rfl⟩
      · exact (h.free p h1 (by omega)).imp_right fun ⟨hc, hx⟩ =>
          ⟨hc, exists_setPc (Pc.Consuming · (p - C)) (hquiet _).2 hx⟩
    copied_ok := fun q v hq => by
      obtain ⟨h1, h2⟩ := h.copied_ok q v hq
      exact ⟨show q < pos + 1 by omega, h2⟩
    consumed := fun q (hq : q < pos + 1) => by
      by_cases e : q = pos
      · exact .inl ⟨t, by rw [setPc_threads_self, e]⟩
      · exact (h.consumed q (by omega)).imp_left
          (exists_setPc (· = .deqRead q) fun he => (hquiet q).2 (by rw [he]; rfl))
    copied_nodup := h.copied_nodup }

/-- A consumer's copy of its item out of the slot it claimed. -/
theorem Inv.deqRead (h : Inv C s) {pos : Nat} (ht : s.threads t = .deqRead pos) :
    Inv C { s.setPc t (.deqRelease pos (s.buffer (slot C pos))) with
      copied := s.copied ++ [(pos, s.buffer (slot C pos))] } := by
  obtain ⟨hpt, hph, hps, hpc, hnew⟩ : pos < s.tail ∧ s.head ≤ pos + C ∧
      s.sequences (slot C pos) = pos + 1 ∧ s.claimed[pos]? = some (s.buffer (slot C pos)) ∧
      ∀ v, (pos, v) ∉ s.copied := by simpa [ht, PcOk] using h.pcOk t
  have hcons : (s.threads t).Consuming pos := by rw [ht]; rfl
  have hnotprod : ∀ p, ¬ (s.threads t).Producing p := by rw [ht]; exact fun _ => id
  have hmem : ∀ q v, (q, v) ∈ s.copied ++ [(pos, s.buffer (slot C pos))] →
      (q, v) ∈ s.copied ∨ q = pos ∧ v = s.buffer (slot C pos) := by simp
  exact {
    tail_le_head := h.tail_le_head
    head_le := h.head_le
    claimed_length := h.claimed_length
    pcOk := fun t' => by
      by_cases e : t' = t
      · subst e
        simp only [setPc_threads_self, PcOk, setPc_head, setPc_tail, setPc_claimed,
          setPc_sequences]
        exact ⟨hpt, hph, hps, hpc⟩
      · have hok := h.pcOk t'
        have hcu := fun q hq => h.consumer_unique t' t q hq
        simp only [setPc_threads_ne e]
        generalize s.threads t' = pc at hok hcu ⊢
        cases pc with
        | deqRead p =>
          have hne : p ≠ pos := fun hp => e (hcu p rfl (hp ▸ hcons))
          simp only [PcOk, setPc_head, setPc_tail, setPc_claimed, setPc_sequences,
            setPc_buffer] at hok ⊢
          refine ⟨hok.1, hok.2.1, hok.2.2.1, hok.2.2.2.1, fun v hv => ?_⟩
          rcases hmem p v hv with hv | ⟨hp, -⟩
          · exact hok.2.2.2.2 v hv
          · exact hne hp
        | _ => exact hok
    producer_unique := unique_setPc h.producer_unique fun _ hp => hp.elim
    consumer_unique := unique_setPc h.consumer_unique fun p hp t' ne ht' =>
      ne (h.consumer_unique t' t p ht' (by rw [ht]; exact hp))
    full := fun p h1 h2 => (h.full p h1 h2).imp_left
      (exists_setPc (Pc.Producing · p) (hnotprod p))
    free := fun p h1 h2 => (h.free p h1 h2).imp_right fun ⟨hc, hx⟩ =>
      ⟨hc, exists_setPc_of_imp (Pc.Consuming · (p - C))
        (fun hq => by rw [ht] at hq; exact hq) hx⟩
    copied_ok := fun q v hq => by
      rcases hmem q v hq with hq | ⟨rfl, rfl⟩
      · exact h.copied_ok q v hq
      · exact ⟨hpt, hpc⟩
    consumed := fun q hq => by
      by_cases e : q = pos
      · exact .inr ⟨s.buffer (slot C pos), by simp [e]⟩
      · refine (h.consumed q hq).imp
          (exists_setPc (· = .deqRead q) (by rw [ht]; simpa using Ne.symm e)) ?_
        exact fun ⟨v, hv⟩ => ⟨v, List.mem_append_left _ hv⟩
    copied_nodup := by
      show ((s.copied ++ [(pos, _)]).map Prod.fst).Nodup
      rw [List.map_append, List.nodup_append]
      refine ⟨h.copied_nodup, List.nodup_singleton _, ?_⟩
      simpa [List.disjoint_singleton] using hnew }

include hC hk in
/-- A consumer's release store of `pos + Capacity` into its slot's sequence number. -/
theorem Inv.deqRelease (h : Inv C s) {pos : Nat} {item : T}
    (ht : s.threads t = .deqRelease pos item) :
    Inv C { s.setPc t .idle with
      sequences := Function.update s.sequences (slot C pos) (pos + C) } := by
  have hC2 := two_le_capacity hk hC
  obtain ⟨hpt, hph, hps, -⟩ : pos < s.tail ∧ s.head ≤ pos + C ∧
      s.sequences (slot C pos) = pos + 1 ∧ s.claimed[pos]? = some item := by
    simpa [ht, PcOk] using h.pcOk t
  have hcons : (s.threads t).Consuming pos := by rw [ht]; rfl
  have hnotprod : ∀ p, ¬ (s.threads t).Producing p := by rw [ht]; exact fun _ => id
  have htl := h.tail_le_head
  have hhl := h.head_le
  -- sequence numbers only grow
  have hmono : ∀ i, s.sequences i ≤ Function.update s.sequences (slot C pos) (pos + C) i :=
    le_update_iff.2 ⟨by rw [hps]; omega, fun _ _ => le_rfl⟩
  -- any other position less than a lap from `pos` keeps its sequence number
  have hseq : ∀ p, pos < p + C → p < pos + C → p ≠ pos →
      Function.update s.sequences (slot C pos) (pos + C) (slot C p) = s.sequences (slot C p) :=
    fun _ h1 h2 hne => Function.update_noteq (slot_ne_of_near hC h1 h2 hne) _ _
  exact {
    tail_le_head := htl
    head_le := hhl
    claimed_length := h.claimed_length
    pcOk := fun t' => by
      by_cases e : t' = t
      · subst e; rw [setPc_threads_self]; trivial
      · have hok := h.pcOk t'
        have hcu := fun q hq => h.consumer_unique t' t q hq
        have hcons' := fun q (hq : (s.threads t').Consuming q) => h.consuming hq
        simp only [setPc_threads_ne e]
        generalize s.threads t' = pc at hok hcu hcons' ⊢
        cases pc with
        | enqCas x p => exact le_trans (show p ≤ s.sequences (slot C p) from hok) (hmono _)
        | deqCas p => exact le_trans (show p + 1 ≤ s.sequences (slot C p) from hok) (hmono _)
        | enqWrite x p | enqPublish p =>
          simp only [PcOk, setPc_tail, setPc_head, setPc_claimed, setPc_buffer] at hok ⊢
          rw [hseq p (by omega) (by omega) (by omega)]
          exact hok
        | deqRead p | deqRelease p x =>
          have hne : p ≠ pos := fun hp => e (hcu p rfl (hp ▸ hcons))
          have := hcons' p rfl
          simp only [PcOk, setPc_tail, setPc_head, setPc_claimed, setPc_buffer,
            setPc_copied] at hok ⊢
          rw [hseq p (by omega) (by omega) hne]
          exact hok
        | _ => exact hok
    producer_unique := unique_setPc h.producer_unique fun _ hp => hp.elim
    consumer_unique := unique_setPc h.consumer_unique fun _ hp => hp.elim
    full := fun p (h1 : s.tail ≤ p) (h2 : p < s.head) =>
      (h.full p h1 h2).imp (exists_setPc (Pc.Producing · p) (hnotprod p))
        fun ⟨hs, hc⟩ => ⟨(hseq p (by omega) (by omega) (by omega)).trans hs, hc⟩
    free := fun p (h1 : s.head ≤ p) (h2 : p < s.tail + C) => by
      by_cases hp : p = pos + C
      · subst hp
        exact .inl (by rw [slot_add_capacity hC]; exact Function.update_same _ _ _)
      · have hwin : slot C p ≠ slot C pos := by
          rw [← slot_add_capacity hC pos]
          exact slot_ne_of_window hC h1 (by omega) hph (by omega) hp
        refine (h.free p h1 h2).imp (fun hs => (Function.update_noteq hwin _ _).trans hs) ?_
        refine fun ⟨hc, hx⟩ => ⟨hc, exists_setPc (Pc.Consuming · (p - C)) ?_ hx⟩
        rw [ht]
        exact fun e => hp (by simp only [Pc.Consuming] at e; omega)
    copied_ok := h.copied_ok
    consumed := fun q hq => (h.consumed q hq).imp_left
      (exists_setPc (· = .deqRead q) (by rw [ht]; simp))
    copied_nodup := h.copied_nodup }

end Steps

section Reachable

variable {C k : Nat} {s s' : System T}

theorem Inv.step (hC : C = 2 ^ k) (hk : 1 ≤ k) (h : Inv C s) (hs : Step C s s') : Inv C s' := by
  cases hs with
  | invokeEnqueue _ ht => exact h.setPc (ht ▸ fun _ => ⟨id, id⟩) (fun _ => ⟨id, id⟩) trivial
  | invokeDequeue ht => exact h.setPc (ht ▸ fun _ => ⟨id, id⟩) (fun _ => ⟨id, id⟩) trivial
  | enqLoadHead ht => exact h.setPc (ht ▸ fun _ => ⟨id, id⟩) (fun _ => ⟨id, id⟩) trivial
  | enqLoadSeq ht =>
    exact h.setPc (ht ▸ fun _ => ⟨id, id⟩) (quiet_enqBranch _ _ _) (pcOk_enqBranch _ _)
  | enqCasSucceed ht hh => exact h.enqCasSucceed hC hk ht hh
  | enqCasFail ht => exact h.setPc (ht ▸ fun _ => ⟨id, id⟩) (fun _ => ⟨id, id⟩) trivial
  | enqWrite ht => exact h.enqWrite hC hk ht
  | enqPublish ht => exact h.enqPublish hC hk ht
  | deqLoadTail ht => exact h.setPc (ht ▸ fun _ => ⟨id, id⟩) (fun _ => ⟨id, id⟩) trivial
  | deqLoadSeq ht =>
    exact h.setPc (ht ▸ fun _ => ⟨id, id⟩) (quiet_deqBranch _ _) (pcOk_deqBranch _)
  | deqCasSucceed ht htail => exact h.deqCasSucceed hC hk ht htail
  | deqCasFail ht => exact h.setPc (ht ▸ fun _ => ⟨id, id⟩) (fun _ => ⟨id, id⟩) trivial
  | deqRead ht => exact h.deqRead ht
  | deqRelease ht => exact h.deqRelease hC hk ht

theorem reachable_inv (hC : C = 2 ^ k) (hk : 1 ≤ k) (hs : Reachable C s) : Inv C s := by
  induction hs with
  | init buffer => exact inv_init buffer hC
  | step _ hstep ih => exact ih.step hC hk hstep

end Reachable

/-- The guarantees of the queue in one state: the bounds on the counters, the slot a producer
copies into and the slot a consumer copies out of, and what the consumers have copied out. -/
structure Safe (C : Nat) (s : System T) : Prop where
  bounds : s.tail ≤ s.head ∧ s.head ≤ s.tail + C
  /-- No slot is copied into while a consumer that claimed it is copying it out. -/
  write_apart : ∀ t t' x p q, s.threads t = .enqWrite x p → s.threads t' = .deqRead q →
    slot C p ≠ slot C q
  /-- A slot is copied out of only after its producer stored `p + 1`. -/
  read_published : ∀ t q, s.threads t = .deqRead q →
    s.sequences (slot C q) = q + 1 ∧ ∀ t', ¬ (s.threads t').Producing q
  /-- The consumer of tail position `q` finds the item of the producer of head position `q`. -/
  read_item : ∀ t q, s.threads t = .deqRead q → s.claimed[q]? = some (s.buffer (slot C q))
  copied_item : ∀ q v, (q, v) ∈ s.copied → s.claimed[q]? = some v
  /-- No tail position is copied out twice. -/
  copied_once : (s.copied.map Prod.fst).Nodup
  /-- Every claimed tail position is being copied out or has been. -/
  claimed_copied : ∀ q < s.tail, (∃ t, s.threads t = .deqRead q) ∨ ∃ v, (q, v) ∈ s.copied
  /-- A slot is copied into only after the item of the previous lap was copied out. -/
  overwrite_after_copy : ∀ t x p, s.threads t = .enqWrite x p → C ≤ p →
    ∃ v, (p - C, v) ∈ s.copied

section Safety

variable {C k : Nat} {s : System T}

theorem Inv.safe (hC : C = 2 ^ k) (hk : 1 ≤ k) (h : Inv C s) : Safe C s where
  bounds := ⟨h.tail_le_head, h.head_le⟩
  write_apart t t' x p q hw hr := by
    obtain ⟨hp1, hp2, -⟩ := h.producing (by rw [hw]; rfl : (s.threads t).Producing p)
    obtain ⟨hq1, hq2, -⟩ := h.consuming (by rw [hr]; rfl : (s.threads t').Consuming q)
    exact slot_ne_of_window hC (by omega) (by omega) le_rfl (by omega) (by omega)
  read_published t q hr := by
    obtain ⟨hq1, -, hq3⟩ := h.consuming (by rw [hr]; rfl : (s.threads t).Consuming q)
    refine ⟨hq3, fun t' hp => ?_⟩
    have := (h.producing hp).1
    omega
  read_item t q hr := by
    have hok := h.pcOk t
    rw [hr] at hok
    exact hok.2.2.2.1
  copied_item q v hq := (h.copied_ok q v hq).2
  copied_once := h.copied_nodup
  claimed_copied := h.consumed
  overwrite_after_copy t x p hw hp := by
    have hC2 := two_le_capacity hk hC
    obtain ⟨-, hp2, hps⟩ := h.producing (by rw [hw]; rfl : (s.threads t).Producing p)
    refine (h.consumed (p - C) (by have := h.head_le; omega)).resolve_left fun ⟨t', hr⟩ => ?_
    have := (h.consuming (by rw [hr]; rfl : (s.threads t').Consuming (p - C))).2.2
    rw [slot_sub_capacity hC hp] at this
    omega

/-- Under every interleaving of any number of `try_enqueue` and `try_dequeue` calls on a
power-of-two ring, every reachable state is safe. -/
theorem mpmc_interleavings_safe (hk : 1 ≤ k) (hC : C = 2 ^ k) (hs : Reachable C s) : Safe C s :=
  (reachable_inv hC hk hs).safe hC hk

/-- A reached state of a ring of capacity 2 in which thread 2 has claimed tail position 0 and not
copied its item out, and thread 1 has claimed head position 1 and not copied its item in. -/
theorem mpmc_interleavings_safe_mid_copy :
    1 ≤ 1 ∧ 2 = 2 ^ 1 ∧ ∃ s : System Nat, Reachable 2 s ∧ s.threads 1 = .enqWrite 7 1 ∧
      s.threads 2 = .deqRead 0 ∧ Safe 2 s := by
  have h₀ : Reachable 2 (System.init fun _ => (0 : Nat)) := .init _
  -- thread 0 enqueues `5` at position 0
  have h₁ := h₀.step (Step.invokeEnqueue (t := 0) 5 rfl)
  have h₂ := h₁.step (Step.enqLoadHead (t := 0) rfl)
  have h₃ := h₂.step (Step.enqLoadSeq (t := 0) rfl)
  have h₄ := h₃.step (Step.enqCasSucceed (t := 0) rfl rfl)
  have h₅ := h₄.step (Step.enqWrite (t := 0) rfl)
  have h₆ := h₅.step (Step.enqPublish (t := 0) rfl)
  -- thread 2 claims tail position 0
  have h₇ := h₆.step (Step.invokeDequeue (t := 2) rfl)
  have h₈ := h₇.step (Step.deqLoadTail (t := 2) rfl)
  have h₉ := h₈.step (Step.deqLoadSeq (t := 2) rfl)
  have h₁₀ := h₉.step (Step.deqCasSucceed (t := 2) rfl rfl)
  -- thread 1 claims head position 1
  have h₁₁ := h₁₀.step (Step.invokeEnqueue (t := 1) 7 rfl)
  have h₁₂ := h₁₁.step (Step.enqLoadHead (t := 1) rfl)
  have h₁₃ := h₁₂.step (Step.enqLoadSeq (t := 1) rfl)
  have h₁₄ := h₁₃.step (Step.enqCasSucceed (t := 1) rfl rfl)
  exact ⟨le_rfl, rfl, _, h₁₄, rfl, rfl, mpmc_interleavings_safe le_rfl rfl h₁₄⟩

end Safety

end FastMarket.Interleaving
