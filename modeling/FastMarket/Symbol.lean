import FastMarket.Protocol

/-!
# Stock symbols

`get_stock_symbol` (`itch_protocol.hpp`) drops the spaces that pad an 8-byte stock field on
the right, and `DemoMessageGenerator` (`demo.cpp`) fills a stock field with a symbol padded
with spaces to 8 bytes. The symbol read back is the field up to its last byte that is not a
space, and it is the symbol the generator padded whenever that symbol has at most 8 bytes and
does not end in a space.
-/

namespace FastMarket

set_option autoImplicit false

/-- `' '`. -/
def space : BitVec 8 := BitVec.ofNat 8 ' '.toNat

/-- The loop of `get_stock_symbol` from `len`: `while (len > 0 && stock[len - 1] == ' ') --len`.
It starts at `len = 8`, so the default of `getD` is never read. -/
def trimmedLength (stock : List (BitVec 8)) : Nat → Nat
  | 0 => 0
  | len + 1 => if stock.getD len 0 = space then trimmedLength stock len else len + 1

/-- `get_stock_symbol`: the view of the first `len` bytes of the field. -/
def getStockSymbol (stock : Mathlib.Vector (BitVec 8) 8) : List (BitVec 8) :=
  stock.toList.take (trimmedLength stock.toList 8)

/-- `padded_symbol.resize(8, ' ')` and the `memcpy` of its 8 bytes into the stock field. -/
def padSymbol (symbol : List (BitVec 8)) : Mathlib.Vector (BitVec 8) 8 :=
  ⟨(symbol ++ List.replicate (8 - symbol.length) space).take 8, by simp; omega⟩

section Trim

variable {stock : List (BitVec 8)}

theorem trimmedLength_le (len : Nat) : trimmedLength stock len ≤ len := by
  induction len with
  | zero => exact le_rfl
  | succ len ih => unfold trimmedLength; split <;> omega

/-- The bytes from where the loop stops up to where it started are spaces. -/
theorem getD_eq_space_of_trimmedLength_le {len i : Nat} (h₁ : trimmedLength stock len ≤ i)
    (h₂ : i < len) : stock.getD i 0 = space := by
  induction len with
  | zero => omega
  | succ len ih =>
    unfold trimmedLength at h₁
    split at h₁
    · rcases Nat.lt_succ_iff_lt_or_eq.1 h₂ with h | rfl
      · exact ih h₁ h
      · assumption
    · omega

/-- The loop stops at the start or right after a byte that is not a space. -/
theorem trimmedLength_stops (len : Nat) :
    trimmedLength stock len = 0 ∨ stock.getD (trimmedLength stock len - 1) 0 ≠ space := by
  induction len with
  | zero => exact .inl rfl
  | succ len ih =>
    unfold trimmedLength
    split
    · exact ih
    · exact .inr ‹_›

/-- Where the loop stops is fixed by the two facts above: spaces from there up to `len`, and
the start or a byte other than a space right before it. -/
theorem trimmedLength_eq {len n : Nat} (hn : n ≤ len)
    (hsp : ∀ i, n ≤ i → i < len → stock.getD i 0 = space)
    (hstop : n = 0 ∨ stock.getD (n - 1) 0 ≠ space) : trimmedLength stock len = n := by
  induction len with
  | zero => exact (Nat.le_zero.1 hn).symm
  | succ len ih =>
    unfold trimmedLength
    rcases Nat.lt_or_ge n (len + 1) with h | h
    · rw [if_pos (hsp len (by omega) (Nat.lt_succ_self len))]
      exact ih (by omega) fun i h₁ h₂ => hsp i h₁ (by omega)
    · obtain rfl : n = len + 1 := by omega
      rw [if_neg (by simpa using hstop.resolve_left (Nat.succ_ne_zero len))]

end Trim

theorem get_eq_getD (s : Mathlib.Vector (BitVec 8) 8) (i : Nat) (h : i < 8) :
    s.get ⟨i, h⟩ = s.toList.getD i 0 := by
  rw [Mathlib.Vector.get_eq_get, List.getD_eq_getElem _ _ (by simpa using h)]
  rfl

section Field

variable (s : Mathlib.Vector (BitVec 8) 8)

theorem length_getStockSymbol : (getStockSymbol s).length = trimmedLength s.toList 8 := by
  simp [getStockSymbol, trimmedLength_le]

theorem get_eq_space_of_trimmedLength_le (i : Nat) (h : i < 8) (hi : trimmedLength s.toList 8 ≤ i) :
    s.get ⟨i, h⟩ = space := by
  rw [get_eq_getD]; exact getD_eq_space_of_trimmedLength_le hi h

/-- No index before the symbol's end starts a run of spaces to the end of the field. -/
theorem trimmedLength_le_of_spaces {m : Nat} (hm : ∀ i (h : i < 8), m ≤ i → s.get ⟨i, h⟩ = space) :
    trimmedLength s.toList 8 ≤ m := by
  by_contra hlt
  refine (@trimmedLength_stops s.toList 8).elim (fun h0 => by omega) fun hne => hne ?_
  have := @trimmedLength_le s.toList 8
  rw [← get_eq_getD s _ (by omega)]
  exact hm _ _ (by omega)

theorem getLast?_getStockSymbol_ne : (getStockSymbol s).getLast? ≠ some space := by
  have hle := @trimmedLength_le s.toList 8
  rw [List.getLast?_eq_getElem?, length_getStockSymbol]
  rcases Nat.eq_zero_or_pos (trimmedLength s.toList 8) with h0 | hpos
  · simp [getStockSymbol, h0]
  · rw [getStockSymbol, List.getElem?_take_of_lt (by omega)]
    intro h
    exact (@trimmedLength_stops s.toList 8).resolve_left (by omega)
      (by rw [List.getD_eq_getElem?_getD, h]; rfl)

theorem getStockSymbol_append_spaces :
    getStockSymbol s ++ List.replicate (8 - (getStockSymbol s).length) space = s.toList := by
  have hle := @trimmedLength_le s.toList 8
  rw [length_getStockSymbol]
  apply List.ext_getElem (by simp only [List.length_append, List.length_replicate,
    length_getStockSymbol, Mathlib.Vector.toList_length]; omega)
  intro i h₁ h₂
  rw [List.getElem_append]
  split
  · simp [getStockSymbol]
  · rw [List.getElem_replicate, ← get_eq_space_of_trimmedLength_le s i (by simpa using h₂)
      (by rw [length_getStockSymbol] at *; omega), get_eq_getD, List.getD_eq_getElem]

end Field

/-- A symbol of at most 8 bytes that does not end in a space, padded as the demo generator
pads it, reads back as itself. -/
theorem getStockSymbol_padSymbol {x : List (BitVec 8)} (hx : x.length ≤ 8)
    (hlast : x.getLast? ≠ some space) : getStockSymbol (padSymbol x) = x := by
  have hpad : (padSymbol x).toList = x ++ List.replicate (8 - x.length) space :=
    List.take_of_length_le (by simp; omega)
  have htrim : trimmedLength (padSymbol x).toList 8 = x.length := by
    rw [hpad]
    refine trimmedLength_eq hx (fun i h₁ h₂ => ?_) ?_
    · rw [List.getD_append_right _ _ _ _ h₁, List.getD_eq_getElem _ _ (by simp; omega),
        List.getElem_replicate]
    · rcases Nat.eq_zero_or_pos x.length with h | h
      · exact .inl h
      · refine .inr fun he => hlast ?_
        rw [List.getD_append _ _ _ _ (by omega), List.getD_eq_getElem _ _ (by omega)] at he
        rw [List.getLast?_eq_getElem?, List.getElem?_eq_getElem (by omega), he]
  rw [getStockSymbol, htrim, hpad, List.take_left' rfl]

/-- The symbol is the field up to its last byte that is not a space; that length is the least
index from which the field holds only spaces; the symbol does not end in a space, and padding
it back with spaces gives the field. A symbol of at most 8 bytes that does not end in a space,
padded as the demo generator pads it, reads back as itself. -/
theorem getStockSymbol_strips_padding :
    (∀ s : Mathlib.Vector (BitVec 8) 8, ∃ n ≤ 8, getStockSymbol s = s.toList.take n ∧
      (∀ i (h : i < 8), n ≤ i → s.get ⟨i, h⟩ = space) ∧
      (∀ m, (∀ i (h : i < 8), m ≤ i → s.get ⟨i, h⟩ = space) → n ≤ m) ∧
      (getStockSymbol s).getLast? ≠ some space ∧
      getStockSymbol s ++ List.replicate (8 - (getStockSymbol s).length) space = s.toList) ∧
    ∀ x : List (BitVec 8), x.length ≤ 8 → x.getLast? ≠ some space →
      getStockSymbol (padSymbol x) = x :=
  ⟨fun s => ⟨_, trimmedLength_le 8, rfl, get_eq_space_of_trimmedLength_le s,
      fun _ => trimmedLength_le_of_spaces s, getLast?_getStockSymbol_ne s,
      getStockSymbol_append_spaces s⟩,
    fun _ => getStockSymbol_padSymbol⟩

/-- The padded `"AAPL"` of the demo generator reads back as `"AAPL"`. -/
theorem getStockSymbol_pads_aapl :
    [0x41, 0x41, 0x50, 0x4C].length ≤ 8 ∧ [0x41, 0x41, 0x50, 0x4C].getLast? ≠ some space ∧
      getStockSymbol (padSymbol [0x41, 0x41, 0x50, 0x4C]) = [0x41, 0x41, 0x50, 0x4C] :=
  ⟨by decide, by decide,
    getStockSymbol_strips_padding.2 [0x41, 0x41, 0x50, 0x4C] (by decide) (by decide)⟩

example : getStockSymbol ⟨[0x41, 0x41, 0x50, 0x4C, space, space, space, space], rfl⟩ =
    [0x41, 0x41, 0x50, 0x4C] := by decide

end FastMarket
