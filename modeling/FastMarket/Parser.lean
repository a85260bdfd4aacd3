import FastMarket.Protocol

/-!
# The ITCH decoder

`ITCHParser::parse` and its nine decoders (`itch_parser.hpp`). A decoder reinterprets the
frame as its packed struct (`view`: host-order loads at the packed offsets) and copies each
field out, swapping the bytes of every number. The raw frame is the function `data` from
offsets to bytes, so that a theorem can say which offsets `parse` reads.
-/

namespace FastMarket

set_option autoImplicit false

/-- A `w`-byte host-order load at `data + off`, as a field of a packed struct is read. -/
def loadLE (w : Nat) (data : Nat → BitVec 8) (off : Nat) : BitVec (8 * w) :=
  BitVec.ofNat (8 * w) (ofBytesLE (window data off w))

/-- A `std::array<char, n>` field at `data + off`. -/
def loadChars (n : Nat) (data : Nat → BitVec 8) (off : Nat) : Mathlib.Vector (BitVec 8) n :=
  ⟨window data off n, length_window data off n⟩

theorem toNat_loadLE (w : Nat) (data : Nat → BitVec 8) (off : Nat) :
    (loadLE w data off).toNat = ofBytesLE (window data off w) := by
  have h := ofBytesLE_lt (window data off w)
  rw [length_window] at h
  rw [loadLE, BitVec.toNat_ofNat, two_pow_eight_mul, Nat.mod_eq_of_lt h]

/-- Swapping a host-order load reads the same bytes big-endian. -/
theorem wordField_bswap_loadLE (w : Nat) (data : Nat → BitVec 8) (off : Nat) :
    wordField w (bswap w (loadLE w data off)) = .word w (ofBytesLE (window data off w).reverse) := by
  have h := toBytesLE_ofBytesLE (window data off w)
  rw [length_window] at h
  rw [wordField, toNat_bswap, toNat_loadLE, h]

@[simp] theorem wordField_ntoh16 (data : Nat → BitVec 8) (off : Nat) :
    wordField 2 (ntoh16 (loadLE 2 data off)) = .word 2 (ofBytesLE (window data off 2).reverse) :=
  wordField_bswap_loadLE 2 data off

@[simp] theorem wordField_ntoh32 (data : Nat → BitVec 8) (off : Nat) :
    wordField 4 (ntoh32 (loadLE 4 data off)) = .word 4 (ofBytesLE (window data off 4).reverse) :=
  wordField_bswap_loadLE 4 data off

@[simp] theorem wordField_ntoh64 (data : Nat → BitVec 8) (off : Nat) :
    wordField 8 (ntoh64 (loadLE 8 data off)) = .word 8 (ofBytesLE (window data off 8).reverse) :=
  wordField_bswap_loadLE 8 data off

@[simp] theorem charsField_loadChars (n : Nat) (data : Nat → BitVec 8) (off : Nat) :
    charsField (loadChars n data off) = .chars (window data off n) := rfl

def ITCHMessageHeader.view (data : Nat → BitVec 8) : ITCHMessageHeader where
  messageType := data 0
  stockLocate := loadLE 2 data 1
  trackingNumber := loadLE 2 data 3
  timestamp := loadLE 8 data 5

def AddOrderMessage.view (data : Nat → BitVec 8) : AddOrderMessage where
  header := ITCHMessageHeader.view data
  orderReferenceNumber := loadLE 8 data 13
  buySellIndicator := data 21
  shares := loadLE 4 data 22
  stock := loadChars 8 data 26
  price := loadLE 4 data 34

def ExecuteOrderMessage.view (data : Nat → BitVec 8) : ExecuteOrderMessage where
  header := ITCHMessageHeader.view data
  orderReferenceNumber := loadLE 8 data 13
  executedShares := loadLE 4 data 21
  matchNumber := loadLE 8 data 25

def ExecuteOrderWithPriceMessage.view (data : Nat → BitVec 8) : ExecuteOrderWithPriceMessage where
  header := ITCHMessageHeader.view data
  orderReferenceNumber := loadLE 8 data 13
  executedShares := loadLE 4 data 21
  matchNumber := loadLE 8 data 25
  printable := data 33
  executionPrice := loadLE 4 data 34

def OrderCancelMessage.view (data : Nat → BitVec 8) : OrderCancelMessage where
  header := ITCHMessageHeader.view data
  orderReferenceNumber := loadLE 8 data 13
  cancelledShares := loadLE 4 data 21

def OrderDeleteMessage.view (data : Nat → BitVec 8) : OrderDeleteMessage where
  header := ITCHMessageHeader.view data
  orderReferenceNumber := loadLE 8 data 13

def OrderReplaceMessage.view (data : Nat → BitVec 8) : OrderReplaceMessage where
  header := ITCHMessageHeader.view data
  originalOrderReferenceNumber := loadLE 8 data 13
  newOrderReferenceNumber := loadLE 8 data 21
  shares := loadLE 4 data 29
  price := loadLE 4 data 33

def TradeMessage.view (data : Nat → BitVec 8) : TradeMessage where
  header := ITCHMessageHeader.view data
  orderReferenceNumber := loadLE 8 data 13
  buySellIndicator := data 21
  shares := loadLE 4 data 22
  stock := loadChars 8 data 26
  price := loadLE 4 data 34
  matchNumber := loadLE 8 data 38

def SystemEventMessage.view (data : Nat → BitVec 8) : SystemEventMessage where
  header := ITCHMessageHeader.view data
  eventCode := data 13

def StockDirectoryMessage.view (data : Nat → BitVec 8) : StockDirectoryMessage where
  header := ITCHMessageHeader.view data
  stock := loadChars 8 data 13
  marketCategory := data 21
  financialStatusIndicator := data 22
  roundLotSize := loadLE 4 data 23
  roundLotsOnly := data 27
  issueClassification := data 28
  issueSubType := loadChars 2 data 29
  authenticity := data 31
  shortSaleThresholdIndicator := data 32
  ipoFlag := data 33
  luldReferencePriceTier := data 34
  etpFlag := data 35
  etpLeverageFactor := loadLE 4 data 36
  inverseIndicator := data 40

/-- The four header lines every decoder starts with. -/
def decodeHeader (wire : ITCHMessageHeader) : ITCHMessageHeader where
  messageType := wire.messageType
  stockLocate := ntoh16 wire.stockLocate
  trackingNumber := ntoh16 wire.trackingNumber
  timestamp := ntoh64 wire.timestamp

def parseAddOrder (data : Nat → BitVec 8) : AddOrderMessage :=
  let wireMsg := AddOrderMessage.view data
  { header := decodeHeader wireMsg.header
    orderReferenceNumber := ntoh64 wireMsg.orderReferenceNumber
    buySellIndicator := wireMsg.buySellIndicator
    shares := ntoh32 wireMsg.shares
    stock := wireMsg.stock
    price := ntoh32 wireMsg.price }

def parseExecuteOrder (data : Nat → BitVec 8) : ExecuteOrderMessage :=
  let wireMsg := ExecuteOrderMessage.view data
  { header := decodeHeader wireMsg.header
    orderReferenceNumber := ntoh64 wireMsg.orderReferenceNumber
    executedShares := ntoh32 wireMsg.executedShares
    matchNumber := ntoh64 wireMsg.matchNumber }

def parseExecuteWithPrice (data : Nat → BitVec 8) : ExecuteOrderWithPriceMessage :=
  let wireMsg := ExecuteOrderWithPriceMessage.view data
  { header := decodeHeader wireMsg.header
    orderReferenceNumber := ntoh64 wireMsg.orderReferenceNumber
    executedShares := ntoh32 wireMsg.executedShares
    matchNumber := ntoh64 wireMsg.matchNumber
    printable := wireMsg.printable
    executionPrice := ntoh32 wireMsg.executionPrice }

def parseOrderCancel (data : Nat → BitVec 8) : OrderCancelMessage :=
  let wireMsg := OrderCancelMessage.view data
  { header := decodeHeader wireMsg.header
    orderReferenceNumber := ntoh64 wireMsg.orderReferenceNumber
    cancelledShares := ntoh32 wireMsg.cancelledShares }

def parseOrderDelete (data : Nat → BitVec 8) : OrderDeleteMessage :=
  let wireMsg := OrderDeleteMessage.view data
  { header := decodeHeader wireMsg.header
    orderReferenceNumber := ntoh64 wireMsg.orderReferenceNumber }

def parseOrderReplace (data : Nat → BitVec 8) : OrderReplaceMessage :=
  let wireMsg := OrderReplaceMessage.view data
  { header := decodeHeader wireMsg.header
    originalOrderReferenceNumber := ntoh64 wireMsg.originalOrderReferenceNumber
    newOrderReferenceNumber := ntoh64 wireMsg.newOrderReferenceNumber
    shares := ntoh32 wireMsg.shares
    price := ntoh32 wireMsg.price }

def parseTrade (data : Nat → BitVec 8) : TradeMessage :=
  let wireMsg := TradeMessage.view data
  { header := decodeHeader wireMsg.header
    orderReferenceNumber := ntoh64 wireMsg.orderReferenceNumber
    buySellIndicator := wireMsg.buySellIndicator
    shares := ntoh32 wireMsg.shares
    stock := wireMsg.stock
    price := ntoh32 wireMsg.price
    matchNumber := ntoh64 wireMsg.matchNumber }

def parseSystemEvent (data : Nat → BitVec 8) : SystemEventMessage :=
  let wireMsg := SystemEventMessage.view data
  { header := decodeHeader wireMsg.header
    eventCode := wireMsg.eventCode }

def parseStockDirectory (data : Nat → BitVec 8) : StockDirectoryMessage :=
  let wireMsg := StockDirectoryMessage.view data
  { header := decodeHeader wireMsg.header
    stock := wireMsg.stock
    marketCategory := wireMsg.marketCategory
    financialStatusIndicator := wireMsg.financialStatusIndicator
    roundLotSize := ntoh32 wireMsg.roundLotSize
    roundLotsOnly := wireMsg.roundLotsOnly
    issueClassification := wireMsg.issueClassification
    issueSubType := wireMsg.issueSubType
    authenticity := wireMsg.authenticity
    shortSaleThresholdIndicator := wireMsg.shortSaleThresholdIndicator
    ipoFlag := wireMsg.ipoFlag
    luldReferencePriceTier := wireMsg.luldReferencePriceTier
    etpFlag := wireMsg.etpFlag
    etpLeverageFactor := ntoh32 wireMsg.etpLeverageFactor
    inverseIndicator := wireMsg.inverseIndicator }

/-- `ITCHParser::parse(data, length)`. `now` is the `rdtsc` reading that the chosen decoder
stamps into `parse_timestamp_ns` after its copy. -/
def parse (data : Nat → BitVec 8) (length : Nat) (now : BitVec 64) : Option ParsedMessage :=
  if length < layoutSize ITCHMessageHeader.layout then none
  else
    let type : MessageType := ⟨data 0⟩
    if type = .addOrder then
      if length ≠ layoutSize AddOrderMessage.layout then none
      else some ⟨type, .addOrder (parseAddOrder data), now⟩
    else if type = .executeOrder then
      if length ≠ layoutSize ExecuteOrderMessage.layout then none
      else some ⟨type, .executeOrder (parseExecuteOrder data), now⟩
    else if type = .executeOrderWithPrice then
      if length = layoutSize ExecuteOrderWithPriceMessage.layout then
        some ⟨type, .executeWithPrice (parseExecuteWithPrice data), now⟩
      else none
    else if type = .orderCancel then
      if length = layoutSize OrderCancelMessage.layout then
        some ⟨type, .orderCancel (parseOrderCancel data), now⟩
      else none
    else if type = .orderDelete then
      if length = layoutSize OrderDeleteMessage.layout then
        some ⟨type, .orderDelete (parseOrderDelete data), now⟩
      else none
    else if type = .orderReplace then
      if length = layoutSize OrderReplaceMessage.layout then
        some ⟨type, .orderReplace (parseOrderReplace data), now⟩
      else none
    else if type = .trade then
      if length = layoutSize TradeMessage.layout then
        some ⟨type, .trade (parseTrade data), now⟩
      else none
    else if type = .systemEvent then
      if length = layoutSize SystemEventMessage.layout then
        some ⟨type, .systemEvent (parseSystemEvent data), now⟩
      else none
    else if type = .stockDirectory then
      if length = layoutSize StockDirectoryMessage.layout then
        some ⟨type, .stockDirectory (parseStockDirectory data), now⟩
      else none
    else none

namespace Tag

/-- The tag `parse` decodes a frame under, tested in `parse`'s order. -/
def ofType (type : MessageType) : Option Tag :=
  if type = .addOrder then some addOrder
  else if type = .executeOrder then some executeOrder
  else if type = .executeOrderWithPrice then some executeOrderWithPrice
  else if type = .orderCancel then some orderCancel
  else if type = .orderDelete then some orderDelete
  else if type = .orderReplace then some orderReplace
  else if type = .trade then some trade
  else if type = .systemEvent then some systemEvent
  else if type = .stockDirectory then some stockDirectory
  else none

/-- The decoder `parse` runs for the tag. -/
def parseBody (t : Tag) (data : Nat → BitVec 8) : Body :=
  match t with
  | addOrder => .addOrder (parseAddOrder data)
  | executeOrder => .executeOrder (parseExecuteOrder data)
  | executeOrderWithPrice => .executeWithPrice (parseExecuteWithPrice data)
  | orderCancel => .orderCancel (parseOrderCancel data)
  | orderDelete => .orderDelete (parseOrderDelete data)
  | orderReplace => .orderReplace (parseOrderReplace data)
  | trade => .trade (parseTrade data)
  | systemEvent => .systemEvent (parseSystemEvent data)
  | stockDirectory => .stockDirectory (parseStockDirectory data)

theorem type_injective : Function.Injective Tag.type := by
  intro a b h
  cases a <;> cases b <;> first | rfl | exact absurd h (by decide)

theorem ofType_eq_some {type : MessageType} {t : Tag} : ofType type = some t ↔ t.type = type := by
  constructor
  · intro h
    unfold ofType at h
    iterate 9
      rcases ite_eq_iff.1 h with ⟨hc, ⟨⟩⟩ | ⟨-, h⟩
      · exact hc.symm
    cases h
  · rintro rfl
    cases t <;> decide

@[simp] theorem ofType_type (t : Tag) : ofType t.type = some t := ofType_eq_some.mpr rfl

theorem header_size_lt (t : Tag) : layoutSize ITCHMessageHeader.layout < t.size := by
  cases t <;> decide

@[simp] theorem tag_parseBody (t : Tag) (data : Nat → BitVec 8) : (t.parseBody data).tag = t := by
  cases t <;> rfl

end Tag

theorem parse_eq (data : Nat → BitVec 8) (length : Nat) (now : BitVec 64) :
    parse data length now = (Tag.ofType ⟨data 0⟩).bind fun t =>
      if length = t.size then some ⟨t.type, t.parseBody data, now⟩ else none := by
  unfold parse
  by_cases hl : length < layoutSize ITCHMessageHeader.layout
  · -- too short for any tag
    rw [if_pos hl]
    cases Tag.ofType ⟨data 0⟩ with
    | none => rfl
    | some t => exact (if_neg (by have := t.header_size_lt; omega)).symm
  rw [if_neg hl]
  dsimp only
  rcases h : Tag.ofType ⟨data 0⟩ with _ | t <;> unfold Tag.ofType at h
  · -- no tag: every test fails
    iterate 9
      rcases ite_eq_iff.1 h with ⟨-, ⟨⟩⟩ | ⟨hc, h⟩
      rw [if_neg hc]
    rfl
  · -- the first test that holds picks the tag
    iterate 9
      rcases ite_eq_iff.1 h with ⟨hc, ⟨⟩⟩ | ⟨hc, h⟩
      · rw [if_pos hc]; simp only [hc, ite_not]; rfl
      rw [if_neg hc]
    cases h

/-- Every decoder reads its struct's fields big-endian, at their packed offsets. -/
theorem Tag.toFields_parseBody (t : Tag) (data : Nat → BitVec 8) :
    (t.parseBody data).toFields = decodeFields t.layout (window data 0 t.size) := by
  cases t <;> simp only [Tag.parseBody, Tag.size, Tag.layout, Body.toFields, layoutSize_addOrder,
    layoutSize_executeOrder, layoutSize_executeOrderWithPrice, layoutSize_orderCancel,
    layoutSize_orderDelete, layoutSize_orderReplace, layoutSize_trade, layoutSize_systemEvent,
    layoutSize_stockDirectory] <;>
  simp [decodeFields, take_window, drop_window, head?_window, tail_window, decodeHeader,
    parseAddOrder, AddOrderMessage.view, AddOrderMessage.toFields, AddOrderMessage.layout,
    parseExecuteOrder, ExecuteOrderMessage.view, ExecuteOrderMessage.toFields,
    ExecuteOrderMessage.layout, parseExecuteWithPrice, ExecuteOrderWithPriceMessage.view,
    ExecuteOrderWithPriceMessage.toFields, ExecuteOrderWithPriceMessage.layout,
    parseOrderCancel, OrderCancelMessage.view, OrderCancelMessage.toFields,
    OrderCancelMessage.layout, parseOrderDelete, OrderDeleteMessage.view,
    OrderDeleteMessage.toFields, OrderDeleteMessage.layout, parseOrderReplace,
    OrderReplaceMessage.view, OrderReplaceMessage.toFields, OrderReplaceMessage.layout,
    parseTrade, TradeMessage.view, TradeMessage.toFields, TradeMessage.layout,
    parseSystemEvent, SystemEventMessage.view, SystemEventMessage.toFields,
    SystemEventMessage.layout, parseStockDirectory, StockDirectoryMessage.view,
    StockDirectoryMessage.toFields, StockDirectoryMessage.layout,
    ITCHMessageHeader.view, ITCHMessageHeader.toFields, ITCHMessageHeader.layout]

@[simp] theorem Tag.messageType_parseBody (t : Tag) (data : Nat → BitVec 8) :
    (t.parseBody data).header.messageType = data 0 := by
  cases t <;> rfl

theorem Tag.parseBody_congr (t : Tag) {data data' : Nat → BitVec 8}
    (h : ∀ i < t.size, data i = data' i) : t.parseBody data = t.parseBody data' :=
  Body.toFields_inj (by simp) (by
    rw [toFields_parseBody, toFields_parseBody, window_congr fun i _ hi => h i (by omega)])

/-- `parse` reads no byte at or past `length`. -/
theorem parse_congr {data data' : Nat → BitVec 8} {length : Nat} (now : BitVec 64)
    (h : ∀ i < length, data i = data' i) : parse data length now = parse data' length now := by
  rcases Nat.eq_zero_or_pos length with rfl | hpos
  · simp [parse]
  · rw [parse_eq, parse_eq, h 0 hpos]
    cases Tag.ofType ⟨data' 0⟩ with
    | none => rfl
    | some t =>
      simp only [Option.some_bind]
      split_ifs with hl
      · rw [t.parseBody_congr fun i hi => h i (hl ▸ hi)]
      · rfl

theorem parse_isSome_iff (data : Nat → BitVec 8) (length : Nat) (now : BitVec 64) :
    (parse data length now).isSome ↔ ∃ t : Tag, t.type = ⟨data 0⟩ ∧ length = t.size := by
  rw [parse_eq]
  cases h : Tag.ofType ⟨data 0⟩ with
  | none =>
    simp only [Option.none_bind, Option.isSome_none, Bool.false_eq_true, false_iff, not_exists,
      not_and]
    intro t ht
    simp [← ht] at h
  | some t =>
    have ht := Tag.ofType_eq_some.mp h
    simp only [Option.some_bind]
    constructor
    · intro hs
      split_ifs at hs with hl
      · exact ⟨t, ht, hl⟩
      · simp at hs
    · rintro ⟨t', ht', hl⟩
      obtain rfl := Tag.type_injective (ht'.trans ht.symm)
      simp [hl]

/-- The frame widths of the ITCH 5.0 table, with its 6-byte timestamp. -/
def Tag.itchWidth : Tag → Nat
  | addOrder => 36
  | executeOrder => 31
  | executeOrderWithPrice => 36
  | orderCancel => 23
  | orderDelete => 19
  | orderReplace => 35
  | trade => 44
  | systemEvent => 12
  | stockDirectory => 39

/-- With the header's 8-byte timestamp, every packed struct is two bytes over its ITCH width. -/
theorem Tag.size_eq_itchWidth_add_two (t : Tag) : t.size = t.itchWidth + 2 := by
  cases t <;> rfl

/-- No ITCH 5.0 frame width is accepted, whatever the first byte. -/
theorem parse_rejects_itch_widths (t : Tag) (data : Nat → BitVec 8) (now : BitVec 64) :
    parse data t.itchWidth now = none := by
  rw [parse_eq]
  cases Tag.ofType ⟨data 0⟩ with
  | none => rfl
  | some t' =>
    have : t.itchWidth ≠ t'.size := by cases t <;> cases t' <;> decide
    simp [this]

end FastMarket
