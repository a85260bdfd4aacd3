import FastMarket.Parser

/-!
# The on-disk image of a record

`AsyncLogger::get_message_size` and `AsyncLogger::serialize_message`: the writer takes the
width from the record's type and copies the union member of that type verbatim. A packed
struct holds its numbers in host order, so a decoded frame is written back as the frame with
the bytes of each number reversed.
-/

namespace FastMarket

set_option autoImplicit false

/-- The bytes of a packed struct in host memory: each field's host image, in order. -/
def packedImage (fs : List Field) : List (BitVec 8) := fs.flatMap Field.image

/-- The ITCH frame of a record: every number big-endian at its packed offset. -/
def Body.wire (b : Body) : List (BitVec 8) := b.toFields.flatMap Field.wire

def getMessageSize (msg : ParsedMessage) : Nat :=
  if msg.type = .addOrder then layoutSize AddOrderMessage.layout
  else if msg.type = .executeOrder then layoutSize ExecuteOrderMessage.layout
  else if msg.type = .executeOrderWithPrice then layoutSize ExecuteOrderWithPriceMessage.layout
  else if msg.type = .orderCancel then layoutSize OrderCancelMessage.layout
  else if msg.type = .orderDelete then layoutSize OrderDeleteMessage.layout
  else if msg.type = .orderReplace then layoutSize OrderReplaceMessage.layout
  else if msg.type = .trade then layoutSize TradeMessage.layout
  else if msg.type = .systemEvent then layoutSize SystemEventMessage.layout
  else if msg.type = .stockDirectory then layoutSize StockDirectoryMessage.layout
  else 0

/-- `serialize_message`: the switch on `msg.type` copies the member of that type. Reading a
member other than the filled one is undefined; the model copies nothing then. -/
def serializeMessage (msg : ParsedMessage) : List (BitVec 8) :=
  match msg.body with
  | .addOrder m => if msg.type = .addOrder then packedImage m.toFields else []
  | .executeOrder m => if msg.type = .executeOrder then packedImage m.toFields else []
  | .executeWithPrice m =>
    if msg.type = .executeOrderWithPrice then packedImage m.toFields else []
  | .orderCancel m => if msg.type = .orderCancel then packedImage m.toFields else []
  | .orderDelete m => if msg.type = .orderDelete then packedImage m.toFields else []
  | .orderReplace m => if msg.type = .orderReplace then packedImage m.toFields else []
  | .trade m => if msg.type = .trade then packedImage m.toFields else []
  | .systemEvent m => if msg.type = .systemEvent then packedImage m.toFields else []
  | .stockDirectory m => if msg.type = .stockDirectory then packedImage m.toFields else []

theorem getMessageSize_eq (msg : ParsedMessage) :
    getMessageSize msg = ((Tag.ofType msg.type).map Tag.size).getD 0 := by
  unfold getMessageSize Tag.ofType
  simp only [apply_ite (Option.map Tag.size), apply_ite (Option.getD · 0), Option.map_some',
    Option.map_none', Option.getD_some, Option.getD_none]
  rfl

@[simp] theorem getMessageSize_type (t : Tag) (b : Body) (ts : BitVec 64) :
    getMessageSize ⟨t.type, b, ts⟩ = t.size := by
  simp [getMessageSize_eq]

theorem getMessageSize_le (msg : ParsedMessage) : getMessageSize msg ≤ 46 := by
  rw [getMessageSize_eq]
  rcases Tag.ofType msg.type with _ | t
  · simp
  · cases t <;> simp [Tag.size, Tag.layout]

/-- The copy happens exactly when the record's type is its filled member's. -/
theorem serializeMessage_eq (msg : ParsedMessage) :
    serializeMessage msg =
      if msg.type = msg.body.tag.type then packedImage msg.body.toFields else [] := by
  obtain ⟨type, b, ts⟩ := msg
  cases b <;> rfl

theorem length_packedImage_toFields (b : Body) : (packedImage b.toFields).length = b.tag.size := by
  rw [packedImage, length_flatMap_image, Body.map_kind_toFields, Tag.size]

theorem length_serializeMessage_le (msg : ParsedMessage) :
    (serializeMessage msg).length ≤ getMessageSize msg := by
  rw [serializeMessage_eq]
  split_ifs with h
  · obtain ⟨type, b, ts⟩ := msg
    simp only at h
    subst h
    rw [length_packedImage_toFields, getMessageSize_type]
  · exact Nat.zero_le _

theorem Body.length_wire (b : Body) : b.wire.length = b.tag.size := by
  rw [wire, length_flatMap_wire, map_kind_toFields, Tag.size]

theorem Body.head?_wire (b : Body) : b.wire.head? = some b.header.messageType := by
  cases b <;> rfl

theorem memOf_zero {frame : List (BitVec 8)} {x : BitVec 8} (h : frame.head? = some x) :
    memOf frame 0 = x := by
  cases frame <;> simp_all [memOf]

theorem toFields_parseBody_memOf (t : Tag) {frame : List (BitVec 8)} (hlen : frame.length = t.size) :
    (t.parseBody (memOf frame)).toFields = decodeFields t.layout frame := by
  rw [Tag.toFields_parseBody, ← hlen, window_memOf]

/-- A frame of its tag's packed size is decoded by that tag's decoder. -/
theorem parse_frame (t : Tag) {frame : List (BitVec 8)} (now : BitVec 64)
    (hlen : frame.length = t.size) (hhead : frame.head? = some t.type.val) :
    parse (memOf frame) frame.length now = some ⟨t.type, t.parseBody (memOf frame), now⟩ := by
  have h0 : (⟨memOf frame 0⟩ : MessageType) = t.type := by rw [memOf_zero hhead]
  rw [parse_eq, h0, Tag.ofType_type]
  simp [hlen]

/-- Encoding a record and decoding the frame gives the record back. -/
theorem parse_wire (b : Body) (now : BitVec 64) (hm : b.header.messageType = b.tag.type.val) :
    parse (memOf b.wire) b.wire.length now = some ⟨b.tag.type, b, now⟩ := by
  rw [parse_frame b.tag now b.length_wire (by rw [Body.head?_wire, hm])]
  congr
  apply Body.toFields_inj (by simp)
  rw [toFields_parseBody_memOf _ b.length_wire, ← Body.map_kind_toFields, Body.wire,
    decodeFields_flatMap_wire _ b.fits_toFields]

theorem parse_frame_bijection :
    (∀ (data data' : Nat → BitVec 8) (length : Nat) (now : BitVec 64),
      (∀ i < length, data i = data' i) → parse data length now = parse data' length now) ∧
    ∀ t : Tag,
      (∀ (frame : List (BitVec 8)) (now : BitVec 64),
        frame.length = t.size → frame.head? = some t.type.val →
        ∃ b : Body, parse (memOf frame) frame.length now = some ⟨t.type, b, now⟩ ∧
          b.tag = t ∧ b.header.messageType = t.type.val ∧ b.wire = frame ∧
          getMessageSize ⟨t.type, b, now⟩ = frame.length ∧
          serializeMessage ⟨t.type, b, now⟩ = swapFields t.layout frame ∧
          (serializeMessage ⟨t.type, b, now⟩).length = frame.length) ∧
      (∀ (b : Body) (now : BitVec 64), b.tag = t → b.header.messageType = t.type.val →
        parse (memOf b.wire) b.wire.length now = some ⟨t.type, b, now⟩) := by
  refine ⟨fun data data' length now h => parse_congr now h, fun t => ⟨?_, ?_⟩⟩
  · intro frame now hlen hhead
    have hfields := toFields_parseBody_memOf t hlen
    have hsize : frame.length = layoutSize t.layout := hlen
    have hser : serializeMessage ⟨t.type, t.parseBody (memOf frame), now⟩ =
        swapFields t.layout frame := by
      rw [serializeMessage_eq, if_pos (by simp), packedImage, hfields,
        flatMap_image_decodeFields _ _ hsize]
    refine ⟨t.parseBody (memOf frame), parse_frame t now hlen hhead, by simp,
      by simp [memOf_zero hhead], ?_, by simp [hlen], hser, ?_⟩
    · rw [Body.wire, hfields, flatMap_wire_decodeFields _ _ hsize]
    · rw [hser, length_swapFields _ _ hsize]
  · rintro b now rfl hm
    exact parse_wire b now hm

/-- An `OrderDelete` frame: the tag byte `'D'`, then `7` in every other byte. -/
theorem parse_frame_bijection_orderDelete :
    ∃ b : Body, parse (memOf (0x44 :: List.replicate (Tag.orderDelete.size - 1) 7))
          (0x44 :: List.replicate (Tag.orderDelete.size - 1) 7 : List (BitVec 8)).length 0 =
        some ⟨Tag.orderDelete.type, b, 0⟩ ∧
      b.tag = .orderDelete ∧ b.header.messageType = Tag.orderDelete.type.val ∧
      b.wire = 0x44 :: List.replicate (Tag.orderDelete.size - 1) 7 ∧
      getMessageSize ⟨Tag.orderDelete.type, b, 0⟩ =
        (0x44 :: List.replicate (Tag.orderDelete.size - 1) 7 : List (BitVec 8)).length ∧
      serializeMessage ⟨Tag.orderDelete.type, b, 0⟩ =
        swapFields Tag.orderDelete.layout (0x44 :: List.replicate (Tag.orderDelete.size - 1) 7) ∧
      (serializeMessage ⟨Tag.orderDelete.type, b, 0⟩).length =
        (0x44 :: List.replicate (Tag.orderDelete.size - 1) 7 : List (BitVec 8)).length :=
  (parse_frame_bijection.2 .orderDelete).1 _ 0 rfl rfl

end FastMarket
