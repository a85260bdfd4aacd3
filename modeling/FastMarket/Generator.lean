import FastMarket.Serialize
import FastMarket.Symbol

/-!
# The frames of the demo and the benchmark

`DemoMessageGenerator` (`demo.cpp`) and `MessageGenerator` (`benchmark.cpp`) build a frame by
casting a zeroed buffer of `sizeof` the packed struct to the struct and storing every field:
the message type as is, every number through `hton16`, `hton32` or `hton64`
(`__builtin_bswap`). A `uint32_t` counter numbers the frames: `tracking_number` takes it, cut to
16 bits, before its increment, and the reference and match numbers are computed from it after
the increment, in 32 bits. The clock readings (`get_itch_timestamp`, `SystemUtils::rdtsc`) are
arguments.

A number stored through a swap lies in memory big-endian, so every frame is the wire form of the
record with the values before their swaps, and `ITCHParser::parse` decodes it to them.
-/

namespace FastMarket

set_option autoImplicit false

def hton16 (x : BitVec 16) : BitVec 16 := bswap 2 x
def hton32 (x : BitVec 32) : BitVec 32 := bswap 4 x
def hton64 (x : BitVec 64) : BitVec 64 := bswap 8 x

/-- The header lines every generator starts with: the type, `hton16(1)`, `hton16(seq_++)` (the
counter cut to a `uint16_t`) and the clock's reading through `hton64`. -/
def frameHeader (type : MessageType) (seq : BitVec 32) (timestamp : BitVec 64) :
    ITCHMessageHeader where
  messageType := type.val
  stockLocate := hton16 1
  trackingNumber := hton16 (seq.setWidth 16)
  timestamp := hton64 timestamp

structure DemoMessageGenerator where
  seq : BitVec 32

/-- `create_add_order(symbol, side, shares, price_cents)`; `timestamp` is what
`get_itch_timestamp` read. -/
def DemoMessageGenerator.createAddOrder (gen : DemoMessageGenerator) (symbol : List (BitVec 8))
    (side : BitVec 8) (shares priceCents : BitVec 32) (timestamp : BitVec 64) :
    List (BitVec 8) × DemoMessageGenerator :=
  let order : AddOrderMessage :=
    { header := frameHeader .addOrder gen.seq timestamp
      orderReferenceNumber := hton64 ((100000 + (gen.seq + 1)).setWidth 64)
      buySellIndicator := side
      shares := hton32 shares
      stock := padSymbol symbol
      price := hton32 priceCents }
  (packedImage order.toFields, ⟨gen.seq + 1⟩)

/-- `create_trade(symbol, side, shares, price_cents)`. -/
def DemoMessageGenerator.createTrade (gen : DemoMessageGenerator) (symbol : List (BitVec 8))
    (side : BitVec 8) (shares priceCents : BitVec 32) (timestamp : BitVec 64) :
    List (BitVec 8) × DemoMessageGenerator :=
  let trade : TradeMessage :=
    { header := frameHeader .trade gen.seq timestamp
      orderReferenceNumber := hton64 ((100000 + (gen.seq + 1)).setWidth 64)
      buySellIndicator := side
      shares := hton32 shares
      stock := padSymbol symbol
      price := hton32 priceCents
      matchNumber := hton64 ((500000 + (gen.seq + 1)).setWidth 64) }
  (packedImage trade.toFields, ⟨gen.seq + 1⟩)

structure MessageGenerator where
  counter : BitVec 32

/-- The 8 bytes of `"AAPL    "`. -/
def aaplStock : Mathlib.Vector (BitVec 8) 8 :=
  ⟨"AAPL    ".toList.map fun c => BitVec.ofNat 8 c.toNat, by decide⟩

/-- `generate_add_order()`; `tsc` is what `SystemUtils::rdtsc` read. -/
def MessageGenerator.generateAddOrder (gen : MessageGenerator) (tsc : BitVec 64) :
    List (BitVec 8) × MessageGenerator :=
  let addOrder : AddOrderMessage :=
    { header := frameHeader .addOrder gen.counter tsc
      orderReferenceNumber := hton64 ((1000000 + (gen.counter + 1)).setWidth 64)
      buySellIndicator := BitVec.ofNat 8 'B'.toNat
      shares := hton32 100
      stock := aaplStock
      price := hton32 1500000 }
  (packedImage addOrder.toFields, ⟨gen.counter + 1⟩)

/-- `generate_execute_order()`. -/
def MessageGenerator.generateExecuteOrder (gen : MessageGenerator) (tsc : BitVec 64) :
    List (BitVec 8) × MessageGenerator :=
  let exec : ExecuteOrderMessage :=
    { header := frameHeader .executeOrder gen.counter tsc
      orderReferenceNumber := hton64 ((1000000 + (gen.counter + 1)).setWidth 64)
      executedShares := hton32 50
      matchNumber := hton64 ((5000000 + (gen.counter + 1)).setWidth 64) }
  (packedImage exec.toFields, ⟨gen.counter + 1⟩)

/-- A number stored through a swap lies in memory as its big-endian bytes. -/
theorem image_wordField_bswap (w : Nat) (x : BitVec (8 * w)) :
    (wordField w (bswap w x)).image = (wordField w x).wire := by
  have h := toBytesLE_ofBytesLE (toBytesLE w x.toNat).reverse
  simp only [List.length_reverse, length_toBytesLE] at h
  rw [wordField, Field.image, toNat_bswap, h]
  rfl

@[simp] theorem image_wordField_hton16 (x : BitVec 16) :
    (wordField 2 (hton16 x)).image = (wordField 2 x).wire := image_wordField_bswap 2 x

@[simp] theorem image_wordField_hton32 (x : BitVec 32) :
    (wordField 4 (hton32 x)).image = (wordField 4 x).wire := image_wordField_bswap 4 x

@[simp] theorem image_wordField_hton64 (x : BitVec 64) :
    (wordField 8 (hton64 x)).image = (wordField 8 x).wire := image_wordField_bswap 8 x

@[simp] theorem image_byte (b : BitVec 8) : (Field.byte b).image = (Field.byte b).wire := rfl

@[simp] theorem image_charsField {n : Nat} (v : Mathlib.Vector (BitVec 8) n) :
    (charsField v).image = (charsField v).wire := rfl

/-- The header as the decoder returns it. -/
def frameHeader.decoded (type : MessageType) (seq : BitVec 32) (timestamp : BitVec 64) :
    ITCHMessageHeader where
  messageType := type.val
  stockLocate := 1
  trackingNumber := seq.setWidth 16
  timestamp := timestamp

@[simp] theorem flatMap_image_frameHeader (type : MessageType) (seq : BitVec 32) (timestamp : BitVec 64) :
    (frameHeader type seq timestamp).toFields.flatMap Field.image =
      (frameHeader.decoded type seq timestamp).toFields.flatMap Field.wire := by
  simp [frameHeader, frameHeader.decoded, ITCHMessageHeader.toFields]

section Frames

variable (symbol : List (BitVec 8)) (side : BitVec 8) (shares priceCents : BitVec 32)
  (timestamp : BitVec 64)

theorem DemoMessageGenerator.createAddOrder_eq (gen : DemoMessageGenerator) :
    gen.createAddOrder symbol side shares priceCents timestamp =
      ((Body.addOrder
        { header := frameHeader.decoded .addOrder gen.seq timestamp
          orderReferenceNumber := (100000 + (gen.seq + 1)).setWidth 64
          buySellIndicator := side
          shares := shares
          stock := padSymbol symbol
          price := priceCents }).wire, ⟨gen.seq + 1⟩) := by
  simp [createAddOrder, packedImage, Body.wire, Body.toFields, AddOrderMessage.toFields]

theorem DemoMessageGenerator.createTrade_eq (gen : DemoMessageGenerator) :
    gen.createTrade symbol side shares priceCents timestamp =
      ((Body.trade
        { header := frameHeader.decoded .trade gen.seq timestamp
          orderReferenceNumber := (100000 + (gen.seq + 1)).setWidth 64
          buySellIndicator := side
          shares := shares
          stock := padSymbol symbol
          price := priceCents
          matchNumber := (500000 + (gen.seq + 1)).setWidth 64 }).wire, ⟨gen.seq + 1⟩) := by
  simp [createTrade, packedImage, Body.wire, Body.toFields, TradeMessage.toFields]

theorem MessageGenerator.generateAddOrder_eq (gen : MessageGenerator) :
    gen.generateAddOrder timestamp =
      ((Body.addOrder
        { header := frameHeader.decoded .addOrder gen.counter timestamp
          orderReferenceNumber := (1000000 + (gen.counter + 1)).setWidth 64
          buySellIndicator := BitVec.ofNat 8 'B'.toNat
          shares := 100
          stock := aaplStock
          price := 1500000 }).wire, ⟨gen.counter + 1⟩) := by
  simp [generateAddOrder, packedImage, Body.wire, Body.toFields, AddOrderMessage.toFields]

theorem MessageGenerator.generateExecuteOrder_eq (gen : MessageGenerator) :
    gen.generateExecuteOrder timestamp =
      ((Body.executeOrder
        { header := frameHeader.decoded .executeOrder gen.counter timestamp
          orderReferenceNumber := (1000000 + (gen.counter + 1)).setWidth 64
          executedShares := 50
          matchNumber := (5000000 + (gen.counter + 1)).setWidth 64 }).wire,
        ⟨gen.counter + 1⟩) := by
  simp [generateExecuteOrder, packedImage, Body.wire, Body.toFields, ExecuteOrderMessage.toFields]

/-- Every frame the generators of the demo and of the benchmark build, whatever their counter,
their arguments and the clock, is one `parse` accepts, and it decodes to the values the generator
stored through its swaps: the type, `stock_locate = 1`, the counter before its increment cut to
16 bits, the clock's reading, the reference and match numbers computed from the counter after
its increment in 32 bits, and the other arguments as given. Each call moves its counter on by
one. -/
theorem generated_frames_decode (gen : DemoMessageGenerator) (bench : MessageGenerator)
    (now : BitVec 64) :
    (parse (memOf (gen.createAddOrder symbol side shares priceCents timestamp).1)
        (gen.createAddOrder symbol side shares priceCents timestamp).1.length now =
      some ⟨.addOrder, .addOrder
        { header := frameHeader.decoded .addOrder gen.seq timestamp
          orderReferenceNumber := (100000 + (gen.seq + 1)).setWidth 64
          buySellIndicator := side
          shares := shares
          stock := padSymbol symbol
          price := priceCents }, now⟩ ∧
      (gen.createAddOrder symbol side shares priceCents timestamp).2.seq = gen.seq + 1) ∧
    (parse (memOf (gen.createTrade symbol side shares priceCents timestamp).1)
        (gen.createTrade symbol side shares priceCents timestamp).1.length now =
      some ⟨.trade, .trade
        { header := frameHeader.decoded .trade gen.seq timestamp
          orderReferenceNumber := (100000 + (gen.seq + 1)).setWidth 64
          buySellIndicator := side
          shares := shares
          stock := padSymbol symbol
          price := priceCents
          matchNumber := (500000 + (gen.seq + 1)).setWidth 64 }, now⟩ ∧
      (gen.createTrade symbol side shares priceCents timestamp).2.seq = gen.seq + 1) ∧
    (parse (memOf (bench.generateAddOrder timestamp).1) (bench.generateAddOrder timestamp).1.length
        now =
      some ⟨.addOrder, .addOrder
        { header := frameHeader.decoded .addOrder bench.counter timestamp
          orderReferenceNumber := (1000000 + (bench.counter + 1)).setWidth 64
          buySellIndicator := BitVec.ofNat 8 'B'.toNat
          shares := 100
          stock := aaplStock
          price := 1500000 }, now⟩ ∧
      (bench.generateAddOrder timestamp).2.counter = bench.counter + 1) ∧
    (parse (memOf (bench.generateExecuteOrder timestamp).1)
        (bench.generateExecuteOrder timestamp).1.length now =
      some ⟨.executeOrder, .executeOrder
        { header := frameHeader.decoded .executeOrder bench.counter timestamp
          orderReferenceNumber := (1000000 + (bench.counter + 1)).setWidth 64
          executedShares := 50
          matchNumber := (5000000 + (bench.counter + 1)).setWidth 64 }, now⟩ ∧
      (bench.generateExecuteOrder timestamp).2.counter = bench.counter + 1) := by
  simp only [DemoMessageGenerator.createAddOrder_eq, DemoMessageGenerator.createTrade_eq,
    MessageGenerator.generateAddOrder_eq, MessageGenerator.generateExecuteOrder_eq, and_true]
  exact ⟨parse_wire _ now rfl, parse_wire _ now rfl, parse_wire _ now rfl, parse_wire _ now rfl⟩

end Frames

end FastMarket
