import Mathlib

/-!
# Slots of a power-of-two ring

`MPMCQueue<T, Capacity>` maps a position `pos` (of `head_` or `tail_`) to the slot
`pos & (Capacity - 1)`. With `Capacity = 2 ^ k` this is `pos % Capacity`, so positions less
than one lap apart never share a slot; both queue models rest on that.
-/

namespace FastMarket

set_option autoImplicit false

/-- `pos & (Capacity - 1)`: the slot of a position. -/
def slot (capacity pos : Nat) : Nat := pos &&& (capacity - 1)

section Slots

variable {C k : Nat} (hC : C = 2 ^ k)
include hC

theorem slot_eq_mod (p : Nat) : slot C p = p % C := by
  rw [slot, hC, Nat.and_pow_two_sub_one_eq_mod]

/-- Positions less than one lap apart have different slots. -/
theorem eq_of_slot_eq {p q : Nat} (h : slot C p = slot C q) (hpq : p ≤ q) (hq : q < p + C) :
    p = q := by
  rw [slot_eq_mod hC, slot_eq_mod hC] at h
  obtain ⟨d, rfl⟩ := Nat.exists_eq_add_of_le hpq
  have hd : d % C = 0 := by
    have := Nat.sub_mod_eq_zero_of_mod_eq h.symm
    rwa [Nat.add_sub_cancel_left] at this
  have : d = 0 := Nat.eq_zero_of_dvd_of_lt (Nat.dvd_of_mod_eq_zero hd) (by omega)
  omega

theorem slot_add_capacity (p : Nat) : slot C (p + C) = slot C p := by
  rw [slot_eq_mod hC, slot_eq_mod hC, Nat.add_mod_right]

theorem slot_sub_capacity {p : Nat} (hp : C ≤ p) : slot C (p - C) = slot C p := by
  conv_rhs => rw [← Nat.sub_add_cancel hp]
  rw [slot_add_capacity hC]

/-- Different positions inside one window of `C` consecutive positions have different slots. -/
theorem slot_ne_of_window {a p q : Nat} (hp : a ≤ p) (hp' : p < a + C) (hq : a ≤ q)
    (hq' : q < a + C) (hne : p ≠ q) : slot C p ≠ slot C q := fun e => hne <| by
  rcases le_total p q with hpq | hqp
  · exact eq_of_slot_eq hC e hpq (by omega)
  · exact (eq_of_slot_eq hC e.symm hqp (by omega)).symm

/-- Positions less than one lap apart either way have different slots. -/
theorem slot_ne_of_near {p q : Nat} (h1 : q < p + C) (h2 : p < q + C) (hne : p ≠ q) :
    slot C p ≠ slot C q := fun e => hne <| by
  rcases le_total p q with hpq | hqp
  · exact eq_of_slot_eq hC e hpq h1
  · exact (eq_of_slot_eq hC e.symm hqp h2).symm

omit hC in
theorem two_le_capacity (hk : 1 ≤ k) (hC : C = 2 ^ k) : 2 ≤ C := by
  rw [hC]
  calc 2 = 2 ^ 1 := rfl
    _ ≤ 2 ^ k := Nat.pow_le_pow_right (by decide) hk

end Slots

end FastMarket
