import Mathlib

/-!
# Host byte images of fixed-width integers

The decoder reinterprets wire bytes as packed structs on a little-endian host and swaps the
bytes of every multi-byte field; the writer copies decoded structs out again with `memcpy`.
Both are stated over the little-endian image `toBytesLE w n` of a number, its inverse
`ofBytesLE`, and `window data off n`, the `n` bytes that the pointer `data + off` covers.
-/

namespace FastMarket

set_option autoImplicit false

/-- The `w` host-order (little-endian) bytes of `n`; bits above `8 * w` are dropped. -/
def toBytesLE : Nat → Nat → List (BitVec 8)
  | 0, _ => []
  | w + 1, n => BitVec.ofNat 8 n :: toBytesLE w (n / 256)

/-- The number whose little-endian bytes are `bs`. -/
def ofBytesLE : List (BitVec 8) → Nat
  | [] => 0
  | b :: bs => b.toNat + 256 * ofBytesLE bs

@[simp] theorem toBytesLE_zero (n : Nat) : toBytesLE 0 n = [] := rfl

@[simp] theorem toBytesLE_succ (w n : Nat) :
    toBytesLE (w + 1) n = BitVec.ofNat 8 n :: toBytesLE w (n / 256) := rfl

@[simp] theorem ofBytesLE_nil : ofBytesLE [] = 0 := rfl

@[simp] theorem ofBytesLE_cons (b : BitVec 8) (bs : List (BitVec 8)) :
    ofBytesLE (b :: bs) = b.toNat + 256 * ofBytesLE bs := rfl

@[simp] theorem length_toBytesLE (w n : Nat) : (toBytesLE w n).length = w := by
  induction w generalizing n with
  | zero => rfl
  | succ w ih => simp [ih]

theorem ofBytesLE_lt (bs : List (BitVec 8)) : ofBytesLE bs < 256 ^ bs.length := by
  induction bs with
  | nil => simp
  | cons b bs ih =>
    have hb := b.isLt
    simp only [ofBytesLE_cons, List.length_cons, Nat.pow_succ]
    omega

theorem ofBytesLE_toBytesLE (w n : Nat) : ofBytesLE (toBytesLE w n) = n % 256 ^ w := by
  induction w generalizing n with
  | zero => simp [Nat.mod_one]
  | succ w ih =>
    have h : n % 256 ^ (w + 1) = n % 256 + 256 * (n / 256 % 256 ^ w) := by
      rw [Nat.pow_succ', Nat.mod_mul]
    rw [toBytesLE_succ, ofBytesLE_cons, ih, BitVec.toNat_ofNat, h]

theorem toBytesLE_ofBytesLE (bs : List (BitVec 8)) : toBytesLE bs.length (ofBytesLE bs) = bs := by
  induction bs with
  | nil => rfl
  | cons b bs ih =>
    have hb := b.isLt
    simp only [List.length_cons, toBytesLE_succ, ofBytesLE_cons, List.cons.injEq]
    constructor
    · apply BitVec.eq_of_toNat_eq
      simp only [BitVec.toNat_ofNat]
      omega
    · rwa [show (b.toNat + 256 * ofBytesLE bs) / 256 = ofBytesLE bs by omega]

theorem toBytesLE_mod (w n : Nat) : toBytesLE w (n % 256 ^ w) = toBytesLE w n := by
  have h := toBytesLE_ofBytesLE (toBytesLE w n)
  rwa [length_toBytesLE, ofBytesLE_toBytesLE] at h

theorem two_pow_eight_mul (w : Nat) : 2 ^ (8 * w) = 256 ^ w := by
  rw [Nat.pow_mul]

/-- The `n` bytes at `data + off`. -/
def window (data : Nat → BitVec 8) (off : Nat) : Nat → List (BitVec 8)
  | 0 => []
  | n + 1 => data off :: window data (off + 1) n

@[simp] theorem window_zero (data : Nat → BitVec 8) (off : Nat) : window data off 0 = [] := rfl

theorem window_succ (data : Nat → BitVec 8) (off n : Nat) :
    window data off (n + 1) = data off :: window data (off + 1) n := rfl

@[simp] theorem length_window (data : Nat → BitVec 8) (off n : Nat) :
    (window data off n).length = n := by
  induction n generalizing off with
  | zero => rfl
  | succ n ih => simp [window_succ, ih]

theorem window_add (data : Nat → BitVec 8) (off a b : Nat) :
    window data off (a + b) = window data off a ++ window data (off + a) b := by
  induction a generalizing off with
  | zero => simp
  | succ a ih =>
    rw [Nat.add_right_comm, window_succ, window_succ, ih, Nat.add_right_comm off 1 a]
    rfl

theorem head?_window (data : Nat → BitVec 8) (off n : Nat) :
    (window data off (n + 1)).head? = some (data off) := rfl

theorem tail_window (data : Nat → BitVec 8) (off n : Nat) :
    (window data off (n + 1)).tail = window data (off + 1) n := rfl

theorem take_window (data : Nat → BitVec 8) (off : Nat) {k n : Nat} (h : k ≤ n) :
    (window data off n).take k = window data off k := by
  obtain ⟨m, rfl⟩ := Nat.exists_eq_add_of_le h
  simp [window_add]

theorem drop_window (data : Nat → BitVec 8) (off : Nat) {k n : Nat} (h : k ≤ n) :
    (window data off n).drop k = window data (off + k) (n - k) := by
  obtain ⟨m, rfl⟩ := Nat.exists_eq_add_of_le h
  simp [window_add]

/-- A window reads nothing outside `[off, off + n)`. -/
theorem window_congr {data data' : Nat → BitVec 8} {off n : Nat}
    (h : ∀ i, off ≤ i → i < off + n → data i = data' i) : window data off n = window data' off n := by
  induction n generalizing off with
  | zero => rfl
  | succ n ih =>
    rw [window_succ, window_succ, h off (le_refl _) (by omega),
      ih fun i h1 h2 => h i (by omega) (by omega)]

/-- The bytes of a list, read through a pointer to its first byte. -/
def memOf (bs : List (BitVec 8)) : Nat → BitVec 8 := fun i => bs.getD i 0

theorem window_memOf_cons (b : BitVec 8) (bs : List (BitVec 8)) (off n : Nat) :
    window (memOf (b :: bs)) (off + 1) n = window (memOf bs) off n := by
  induction n generalizing off with
  | zero => rfl
  | succ n ih => rw [window_succ, window_succ, ih]; rfl

theorem window_memOf (bs : List (BitVec 8)) : window (memOf bs) 0 bs.length = bs := by
  induction bs with
  | nil => rfl
  | cons b bs ih => rw [List.length_cons, window_succ, window_memOf_cons, ih]; rfl

/-- How one field of a packed ITCH struct is stored. -/
inductive FieldKind
  | byte
  | word (w : Nat)
  | chars (n : Nat)
  deriving DecidableEq, Repr

def FieldKind.width : FieldKind → Nat
  | .byte => 1
  | .word w => w
  | .chars n => n

/-- `sizeof` of a packed struct whose fields have these kinds. -/
def layoutSize (ks : List FieldKind) : Nat := (ks.map FieldKind.width).sum

@[simp] theorem layoutSize_nil : layoutSize [] = 0 := rfl

@[simp] theorem layoutSize_cons (k : FieldKind) (ks : List FieldKind) :
    layoutSize (k :: ks) = k.width + layoutSize ks := rfl

theorem layoutSize_append (ks ks' : List FieldKind) :
    layoutSize (ks ++ ks') = layoutSize ks + layoutSize ks' := by
  induction ks <;> simp_all [Nat.add_assoc]

/-- A field of a decoded struct: a byte, a `w`-byte number, or a character array. -/
inductive Field
  | byte (b : BitVec 8)
  | word (w v : Nat)
  | chars (bs : List (BitVec 8))
  deriving DecidableEq, Repr

namespace Field

def kind : Field → FieldKind
  | .byte _ => .byte
  | .word w _ => .word w
  | .chars bs => .chars bs.length

/-- The field's bytes on the wire: numbers big-endian. -/
def wire : Field → List (BitVec 8)
  | .byte b => [b]
  | .word w v => (toBytesLE w v).reverse
  | .chars bs => bs

/-- The field's bytes in host memory, as `memcpy` copies them: numbers little-endian. -/
def image : Field → List (BitVec 8)
  | .byte b => [b]
  | .word w v => toBytesLE w v
  | .chars bs => bs

/-- A `w`-byte number is below `256 ^ w`. -/
def Fits : Field → Prop
  | .word w v => v < 256 ^ w
  | _ => True

@[simp] theorem length_wire (f : Field) : f.wire.length = f.kind.width := by
  cases f <;> simp [wire, kind, FieldKind.width]

@[simp] theorem length_image (f : Field) : f.image.length = f.kind.width := by
  cases f <;> simp [image, kind, FieldKind.width]

end Field

/-- Cut `bs` into consecutive fields of the kinds `ks`, reading numbers big-endian. -/
def decodeFields : List FieldKind → List (BitVec 8) → List Field
  | [], _ => []
  | .byte :: ks, bs => .byte (bs.headD 0) :: decodeFields ks (bs.drop 1)
  | .word w :: ks, bs => .word w (ofBytesLE (bs.take w).reverse) :: decodeFields ks (bs.drop w)
  | .chars n :: ks, bs => .chars (bs.take n) :: decodeFields ks (bs.drop n)

/-- `bs` with the bytes of every number of the layout `ks` reversed in place. -/
def swapFields : List FieldKind → List (BitVec 8) → List (BitVec 8)
  | [], _ => []
  | .word w :: ks, bs => (bs.take w).reverse ++ swapFields ks (bs.drop w)
  | k :: ks, bs => bs.take k.width ++ swapFields ks (bs.drop k.width)

theorem length_flatMap_wire (fs : List Field) :
    (fs.flatMap Field.wire).length = layoutSize (fs.map Field.kind) := by
  induction fs with
  | nil => rfl
  | cons f fs ih => simp only [List.flatMap_cons, List.length_append, ih]; simp

theorem length_flatMap_image (fs : List Field) :
    (fs.flatMap Field.image).length = layoutSize (fs.map Field.kind) := by
  induction fs with
  | nil => rfl
  | cons f fs ih => simp only [List.flatMap_cons, List.length_append, ih]; simp

theorem length_swapFields (ks : List FieldKind) (bs : List (BitVec 8))
    (h : bs.length = layoutSize ks) : (swapFields ks bs).length = bs.length := by
  induction ks generalizing bs with
  | nil => simp_all [swapFields]
  | cons k ks ih =>
    simp only [layoutSize_cons] at h
    have hk := ih (bs.drop k.width) (by simp; omega)
    cases k <;> simp [swapFields, FieldKind.width] at hk h ⊢ <;> omega

theorem flatMap_wire_decodeFields (ks : List FieldKind) (bs : List (BitVec 8))
    (h : bs.length = layoutSize ks) : (decodeFields ks bs).flatMap Field.wire = bs := by
  induction ks generalizing bs with
  | nil => simp_all [decodeFields, List.length_eq_zero]
  | cons k ks ih =>
    cases k with
    | byte =>
      obtain ⟨b, bs, rfl⟩ : ∃ b bs', bs = b :: bs' :=
        List.exists_cons_of_length_pos (by simp [FieldKind.width] at h; omega)
      simp only [decodeFields, List.flatMap_cons, List.headD_cons, List.drop_one, List.tail_cons]
      simp only [List.length_cons, layoutSize_cons, FieldKind.width] at h
      rw [ih bs (by omega)]
      rfl
    | word w =>
      simp only [layoutSize_cons, FieldKind.width] at h
      have hw := toBytesLE_ofBytesLE (bs.take w).reverse
      rw [List.length_reverse, List.length_take, Nat.min_eq_left (by omega)] at hw
      simp only [decodeFields, List.flatMap_cons, Field.wire, hw, List.reverse_reverse,
        ih (bs.drop w) (by simp; omega), List.take_append_drop]
    | chars n =>
      simp only [layoutSize_cons, FieldKind.width] at h
      simp only [decodeFields, List.flatMap_cons, Field.wire, ih (bs.drop n) (by simp; omega),
        List.take_append_drop]

theorem decodeFields_flatMap_wire (fs : List Field) (h : ∀ f ∈ fs, f.Fits) :
    decodeFields (fs.map Field.kind) (fs.flatMap Field.wire) = fs := by
  induction fs with
  | nil => rfl
  | cons f fs ih =>
    have hfs := ih fun g hg => h g (List.mem_cons_of_mem f hg)
    cases f with
    | byte b => simp [decodeFields, Field.kind, Field.wire, hfs]
    | word w v =>
      have hv : v < 256 ^ w := h _ (List.mem_cons_self _ _)
      simp [decodeFields, Field.kind, Field.wire, hfs, List.take_append_of_le_length,
        ofBytesLE_toBytesLE, Nat.mod_eq_of_lt hv]
    | chars bs => simp [decodeFields, Field.kind, Field.wire, hfs]

theorem flatMap_image_decodeFields (ks : List FieldKind) (bs : List (BitVec 8))
    (h : bs.length = layoutSize ks) : (decodeFields ks bs).flatMap Field.image = swapFields ks bs := by
  induction ks generalizing bs with
  | nil => rfl
  | cons k ks ih =>
    simp only [layoutSize_cons] at h
    have hk := ih (bs.drop k.width) (by simp; omega)
    cases k with
    | byte =>
      obtain ⟨b, bs, rfl⟩ : ∃ b bs', bs = b :: bs' :=
        List.exists_cons_of_length_pos (by simp [FieldKind.width] at h; omega)
      simp_all [decodeFields, swapFields, Field.image, FieldKind.width]
    | word w =>
      have hw := toBytesLE_ofBytesLE (bs.take w).reverse
      rw [List.length_reverse, List.length_take, Nat.min_eq_left (by simp [FieldKind.width] at h; omega)] at hw
      simp_all [decodeFields, swapFields, Field.image, FieldKind.width]
    | chars n => simp_all [decodeFields, swapFields, Field.image, FieldKind.width]

end FastMarket
