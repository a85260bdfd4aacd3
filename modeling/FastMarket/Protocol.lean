import FastMarket.Wire

/-!
# ITCH 5.0 records

`itch_protocol.hpp`: the message-type tags, the packed wire structs, the tagged record
`ParsedMessage` and the byte-swap primitives. Each struct's `layout` lists its fields in
declaration order, and `size` is `sizeof` of the packed struct. The header's timestamp is a
`uint64_t`, so the header takes 13 bytes and every struct is two bytes longer than its
ITCH 5.0 frame.
-/

namespace FastMarket

set_option autoImplicit false

/-- `enum class MessageType : uint8_t`: every byte is a value; the named ones are the tags. -/
structure MessageType where
  val : BitVec 8
  deriving DecidableEq, Repr

namespace MessageType

def systemEvent : MessageType := ⟨BitVec.ofNat 8 'S'.toNat⟩
def stockDirectory : MessageType := ⟨BitVec.ofNat 8 'R'.toNat⟩
def stockTradingAction : MessageType := ⟨BitVec.ofNat 8 'H'.toNat⟩
def regShoRestriction : MessageType := ⟨BitVec.ofNat 8 'Y'.toNat⟩
def marketParticipantPosition : MessageType := ⟨BitVec.ofNat 8 'L'.toNat⟩
def mwcbDeclineLevel : MessageType := ⟨BitVec.ofNat 8 'V'.toNat⟩
def mwcbStatus : MessageType := ⟨BitVec.ofNat 8 'W'.toNat⟩
def ipoQuotingPeriod : MessageType := ⟨BitVec.ofNat 8 'K'.toNat⟩
def luldAuctionCollar : MessageType := ⟨BitVec.ofNat 8 'J'.toNat⟩
def operationalHalt : MessageType := ⟨BitVec.ofNat 8 'h'.toNat⟩
def addOrder : MessageType := ⟨BitVec.ofNat 8 'A'.toNat⟩
def addOrderMpid : MessageType := ⟨BitVec.ofNat 8 'F'.toNat⟩
def executeOrder : MessageType := ⟨BitVec.ofNat 8 'E'.toNat⟩
def executeOrderWithPrice : MessageType := ⟨BitVec.ofNat 8 'C'.toNat⟩
def orderCancel : MessageType := ⟨BitVec.ofNat 8 'X'.toNat⟩
def orderDelete : MessageType := ⟨BitVec.ofNat 8 'D'.toNat⟩
def orderReplace : MessageType := ⟨BitVec.ofNat 8 'U'.toNat⟩
def trade : MessageType := ⟨BitVec.ofNat 8 'P'.toNat⟩
def crossTrade : MessageType := ⟨BitVec.ofNat 8 'Q'.toNat⟩
def brokenTrade : MessageType := ⟨BitVec.ofNat 8 'B'.toNat⟩
def noii : MessageType := ⟨BitVec.ofNat 8 'I'.toNat⟩
def rpii : MessageType := ⟨BitVec.ofNat 8 'N'.toNat⟩

end MessageType

/-- `__builtin_bswap` on a `w`-byte word: its bytes in the opposite order. -/
def bswap {n : Nat} (w : Nat) (x : BitVec n) : BitVec n :=
  BitVec.ofNat n (ofBytesLE (toBytesLE w x.toNat).reverse)

def ntoh16 (x : BitVec 16) : BitVec 16 := bswap 2 x
def ntoh32 (x : BitVec 32) : BitVec 32 := bswap 4 x
def ntoh64 (x : BitVec 64) : BitVec 64 := bswap 8 x

theorem toNat_bswap (w : Nat) (x : BitVec (8 * w)) :
    (bswap w x).toNat = ofBytesLE (toBytesLE w x.toNat).reverse := by
  have h := ofBytesLE_lt (toBytesLE w x.toNat).reverse
  simp only [List.length_reverse, length_toBytesLE] at h
  rw [bswap, BitVec.toNat_ofNat, two_pow_eight_mul, Nat.mod_eq_of_lt h]

/-- Swapping twice gives the word back, for every bit pattern of every width. -/
theorem bswap_bswap (w : Nat) (x : BitVec (8 * w)) : bswap w (bswap w x) = x := by
  have hx : x.toNat < 256 ^ w := two_pow_eight_mul w ▸ x.isLt
  have hrev := toBytesLE_ofBytesLE (toBytesLE w x.toNat).reverse
  simp only [List.length_reverse, length_toBytesLE] at hrev
  apply BitVec.eq_of_toNat_eq
  rw [toNat_bswap, toNat_bswap, hrev, List.reverse_reverse, ofBytesLE_toBytesLE,
    Nat.mod_eq_of_lt hx]

/-- A number field of `w` bytes, as its decoded value. -/
def wordField (w : Nat) (x : BitVec (8 * w)) : Field := .word w x.toNat

/-- A `std::array<char, n>` field. -/
def charsField {n : Nat} (v : Mathlib.Vector (BitVec 8) n) : Field := .chars v.toList

@[simp] theorem kind_byte (b : BitVec 8) : (Field.byte b).kind = .byte := rfl

@[simp] theorem kind_wordField (w : Nat) (x : BitVec (8 * w)) : (wordField w x).kind = .word w := rfl

@[simp] theorem kind_charsField {n : Nat} (v : Mathlib.Vector (BitVec 8) n) :
    (charsField v).kind = .chars n := by
  simp [charsField, Field.kind]

@[simp] theorem fits_wordField (w : Nat) (x : BitVec (8 * w)) : (wordField w x).Fits := by
  simpa [wordField, Field.Fits, two_pow_eight_mul] using x.isLt

@[simp] theorem fits_charsField {n : Nat} (v : Mathlib.Vector (BitVec 8) n) : (charsField v).Fits :=
  trivial

@[simp] theorem fits_byte (b : BitVec 8) : (Field.byte b).Fits := trivial

@[simp] theorem wordField_inj (w : Nat) (x y : BitVec (8 * w)) : wordField w x = wordField w y ↔ x = y := by
  simp [wordField, BitVec.toNat_eq]

@[simp] theorem charsField_inj {n : Nat} (v v' : Mathlib.Vector (BitVec 8) n) :
    charsField v = charsField v' ↔ v = v' :=
  ⟨fun h => Mathlib.Vector.eq _ _ (Field.chars.inj h), fun h => h ▸ rfl⟩

@[ext]
structure ITCHMessageHeader where
  messageType : BitVec 8
  stockLocate : BitVec 16
  trackingNumber : BitVec 16
  timestamp : BitVec 64
  deriving DecidableEq

def ITCHMessageHeader.layout : List FieldKind := [.byte, .word 2, .word 2, .word 8]

def ITCHMessageHeader.size : Nat := layoutSize ITCHMessageHeader.layout

def ITCHMessageHeader.toFields (h : ITCHMessageHeader) : List Field :=
  [.byte h.messageType, wordField 2 h.stockLocate, wordField 2 h.trackingNumber,
    wordField 8 h.timestamp]

@[ext]
structure AddOrderMessage where
  header : ITCHMessageHeader
  orderReferenceNumber : BitVec 64
  buySellIndicator : BitVec 8
  shares : BitVec 32
  stock : Mathlib.Vector (BitVec 8) 8
  price : BitVec 32
  deriving DecidableEq

def AddOrderMessage.layout : List FieldKind :=
  ITCHMessageHeader.layout ++ [.word 8, .byte, .word 4, .chars 8, .word 4]

def AddOrderMessage.toFields (m : AddOrderMessage) : List Field :=
  m.header.toFields ++ [wordField 8 m.orderReferenceNumber, .byte m.buySellIndicator,
    wordField 4 m.shares, charsField m.stock, wordField 4 m.price]

@[ext]
structure ExecuteOrderMessage where
  header : ITCHMessageHeader
  orderReferenceNumber : BitVec 64
  executedShares : BitVec 32
  matchNumber : BitVec 64
  deriving DecidableEq

def ExecuteOrderMessage.layout : List FieldKind :=
  ITCHMessageHeader.layout ++ [.word 8, .word 4, .word 8]

def ExecuteOrderMessage.toFields (m : ExecuteOrderMessage) : List Field :=
  m.header.toFields ++ [wordField 8 m.orderReferenceNumber, wordField 4 m.executedShares,
    wordField 8 m.matchNumber]

@[ext]
structure ExecuteOrderWithPriceMessage where
  header : ITCHMessageHeader
  orderReferenceNumber : BitVec 64
  executedShares : BitVec 32
  matchNumber : BitVec 64
  printable : BitVec 8
  executionPrice : BitVec 32
  deriving DecidableEq

def ExecuteOrderWithPriceMessage.layout : List FieldKind :=
  ITCHMessageHeader.layout ++ [.word 8, .word 4, .word 8, .byte, .word 4]

def ExecuteOrderWithPriceMessage.toFields (m : ExecuteOrderWithPriceMessage) : List Field :=
  m.header.toFields ++ [wordField 8 m.orderReferenceNumber, wordField 4 m.executedShares,
    wordField 8 m.matchNumber, .byte m.printable, wordField 4 m.executionPrice]

@[ext]
structure OrderCancelMessage where
  header : ITCHMessageHeader
  orderReferenceNumber : BitVec 64
  cancelledShares : BitVec 32
  deriving DecidableEq

def OrderCancelMessage.layout : List FieldKind := ITCHMessageHeader.layout ++ [.word 8, .word 4]

def OrderCancelMessage.toFields (m : OrderCancelMessage) : List Field :=
  m.header.toFields ++ [wordField 8 m.orderReferenceNumber, wordField 4 m.cancelledShares]

@[ext]
structure OrderDeleteMessage where
  header : ITCHMessageHeader
  orderReferenceNumber : BitVec 64
  deriving DecidableEq

def OrderDeleteMessage.layout : List FieldKind := ITCHMessageHeader.layout ++ [.word 8]

def OrderDeleteMessage.toFields (m : OrderDeleteMessage) : List Field :=
  m.header.toFields ++ [wordField 8 m.orderReferenceNumber]

@[ext]
structure OrderReplaceMessage where
  header : ITCHMessageHeader
  originalOrderReferenceNumber : BitVec 64
  newOrderReferenceNumber : BitVec 64
  shares : BitVec 32
  price : BitVec 32
  deriving DecidableEq

def OrderReplaceMessage.layout : List FieldKind :=
  ITCHMessageHeader.layout ++ [.word 8, .word 8, .word 4, .word 4]

def OrderReplaceMessage.toFields (m : OrderReplaceMessage) : List Field :=
  m.header.toFields ++ [wordField 8 m.originalOrderReferenceNumber,
    wordField 8 m.newOrderReferenceNumber, wordField 4 m.shares, wordField 4 m.price]

@[ext]
structure TradeMessage where
  header : ITCHMessageHeader
  orderReferenceNumber : BitVec 64
  buySellIndicator : BitVec 8
  shares : BitVec 32
  stock : Mathlib.Vector (BitVec 8) 8
  price : BitVec 32
  matchNumber : BitVec 64
  deriving DecidableEq

def TradeMessage.layout : List FieldKind :=
  ITCHMessageHeader.layout ++ [.word 8, .byte, .word 4, .chars 8, .word 4, .word 8]

def TradeMessage.toFields (m : TradeMessage) : List Field :=
  m.header.toFields ++ [wordField 8 m.orderReferenceNumber, .byte m.buySellIndicator,
    wordField 4 m.shares, charsField m.stock, wordField 4 m.price, wordField 8 m.matchNumber]

@[ext]
structure SystemEventMessage where
  header : ITCHMessageHeader
  eventCode : BitVec 8
  deriving DecidableEq

def SystemEventMessage.layout : List FieldKind := ITCHMessageHeader.layout ++ [.byte]

def SystemEventMessage.toFields (m : SystemEventMessage) : List Field :=
  m.header.toFields ++ [.byte m.eventCode]

@[ext]
structure StockDirectoryMessage where
  header : ITCHMessageHeader
  stock : Mathlib.Vector (BitVec 8) 8
  marketCategory : BitVec 8
  financialStatusIndicator : BitVec 8
  roundLotSize : BitVec 32
  roundLotsOnly : BitVec 8
  issueClassification : BitVec 8
  issueSubType : Mathlib.Vector (BitVec 8) 2
  authenticity : BitVec 8
  shortSaleThresholdIndicator : BitVec 8
  ipoFlag : BitVec 8
  luldReferencePriceTier : BitVec 8
  etpFlag : BitVec 8
  etpLeverageFactor : BitVec 32
  inverseIndicator : BitVec 8
  deriving DecidableEq

def StockDirectoryMessage.layout : List FieldKind :=
  ITCHMessageHeader.layout ++ [.chars 8, .byte, .byte, .word 4, .byte, .byte, .chars 2, .byte,
    .byte, .byte, .byte, .byte, .word 4, .byte]

def StockDirectoryMessage.toFields (m : StockDirectoryMessage) : List Field :=
  m.header.toFields ++ [charsField m.stock, .byte m.marketCategory,
    .byte m.financialStatusIndicator, wordField 4 m.roundLotSize, .byte m.roundLotsOnly,
    .byte m.issueClassification, charsField m.issueSubType, .byte m.authenticity,
    .byte m.shortSaleThresholdIndicator, .byte m.ipoFlag, .byte m.luldReferencePriceTier,
    .byte m.etpFlag, wordField 4 m.etpLeverageFactor, .byte m.inverseIndicator]

@[simp] theorem layoutSize_header : layoutSize ITCHMessageHeader.layout = 13 := rfl
@[simp] theorem layoutSize_addOrder : layoutSize AddOrderMessage.layout = 38 := rfl
@[simp] theorem layoutSize_executeOrder : layoutSize ExecuteOrderMessage.layout = 33 := rfl
@[simp] theorem layoutSize_executeOrderWithPrice :
    layoutSize ExecuteOrderWithPriceMessage.layout = 38 := rfl
@[simp] theorem layoutSize_orderCancel : layoutSize OrderCancelMessage.layout = 25 := rfl
@[simp] theorem layoutSize_orderDelete : layoutSize OrderDeleteMessage.layout = 21 := rfl
@[simp] theorem layoutSize_orderReplace : layoutSize OrderReplaceMessage.layout = 37 := rfl
@[simp] theorem layoutSize_trade : layoutSize TradeMessage.layout = 46 := rfl
@[simp] theorem layoutSize_systemEvent : layoutSize SystemEventMessage.layout = 14 := rfl
@[simp] theorem layoutSize_stockDirectory : layoutSize StockDirectoryMessage.layout = 41 := rfl

/-- The anonymous union of `ParsedMessage`, by the member that is filled. -/
inductive Body
  | addOrder (m : AddOrderMessage)
  | executeOrder (m : ExecuteOrderMessage)
  | executeWithPrice (m : ExecuteOrderWithPriceMessage)
  | orderCancel (m : OrderCancelMessage)
  | orderDelete (m : OrderDeleteMessage)
  | orderReplace (m : OrderReplaceMessage)
  | trade (m : TradeMessage)
  | systemEvent (m : SystemEventMessage)
  | stockDirectory (m : StockDirectoryMessage)
  deriving DecidableEq

@[ext]
structure ParsedMessage where
  type : MessageType
  body : Body
  parseTimestampNs : BitVec 64
  deriving DecidableEq

/-- The nine message types that `parse` decodes. -/
inductive Tag
  | addOrder | executeOrder | executeOrderWithPrice | orderCancel | orderDelete
  | orderReplace | trade | systemEvent | stockDirectory
  deriving DecidableEq, Repr

namespace Tag

def type : Tag → MessageType
  | addOrder => .addOrder
  | executeOrder => .executeOrder
  | executeOrderWithPrice => .executeOrderWithPrice
  | orderCancel => .orderCancel
  | orderDelete => .orderDelete
  | orderReplace => .orderReplace
  | trade => .trade
  | systemEvent => .systemEvent
  | stockDirectory => .stockDirectory

def layout : Tag → List FieldKind
  | addOrder => AddOrderMessage.layout
  | executeOrder => ExecuteOrderMessage.layout
  | executeOrderWithPrice => ExecuteOrderWithPriceMessage.layout
  | orderCancel => OrderCancelMessage.layout
  | orderDelete => OrderDeleteMessage.layout
  | orderReplace => OrderReplaceMessage.layout
  | trade => TradeMessage.layout
  | systemEvent => SystemEventMessage.layout
  | stockDirectory => StockDirectoryMessage.layout

/-- `sizeof` of the tag's packed struct. -/
def size (t : Tag) : Nat := layoutSize t.layout

end Tag

namespace Body

def tag : Body → Tag
  | addOrder _ => .addOrder
  | executeOrder _ => .executeOrder
  | executeWithPrice _ => .executeOrderWithPrice
  | orderCancel _ => .orderCancel
  | orderDelete _ => .orderDelete
  | orderReplace _ => .orderReplace
  | trade _ => .trade
  | systemEvent _ => .systemEvent
  | stockDirectory _ => .stockDirectory

def header : Body → ITCHMessageHeader
  | addOrder m => m.header
  | executeOrder m => m.header
  | executeWithPrice m => m.header
  | orderCancel m => m.header
  | orderDelete m => m.header
  | orderReplace m => m.header
  | trade m => m.header
  | systemEvent m => m.header
  | stockDirectory m => m.header

/-- The filled member's fields in declaration order. -/
def toFields : Body → List Field
  | addOrder m => m.toFields
  | executeOrder m => m.toFields
  | executeWithPrice m => m.toFields
  | orderCancel m => m.toFields
  | orderDelete m => m.toFields
  | orderReplace m => m.toFields
  | trade m => m.toFields
  | systemEvent m => m.toFields
  | stockDirectory m => m.toFields

theorem map_kind_toFields (b : Body) : b.toFields.map Field.kind = b.tag.layout := by
  cases b <;> simp [toFields, tag, Tag.layout, AddOrderMessage.toFields,
    AddOrderMessage.layout, ExecuteOrderMessage.toFields, ExecuteOrderMessage.layout,
    ExecuteOrderWithPriceMessage.toFields, ExecuteOrderWithPriceMessage.layout,
    OrderCancelMessage.toFields, OrderCancelMessage.layout, OrderDeleteMessage.toFields,
    OrderDeleteMessage.layout, OrderReplaceMessage.toFields, OrderReplaceMessage.layout,
    TradeMessage.toFields, TradeMessage.layout, SystemEventMessage.toFields,
    SystemEventMessage.layout, StockDirectoryMessage.toFields, StockDirectoryMessage.layout,
    ITCHMessageHeader.toFields, ITCHMessageHeader.layout]

theorem fits_toFields (b : Body) : ∀ f ∈ b.toFields, f.Fits := by
  cases b <;> simp [toFields, AddOrderMessage.toFields, ExecuteOrderMessage.toFields,
    ExecuteOrderWithPriceMessage.toFields, OrderCancelMessage.toFields,
    OrderDeleteMessage.toFields, OrderReplaceMessage.toFields, TradeMessage.toFields,
    SystemEventMessage.toFields, StockDirectoryMessage.toFields, ITCHMessageHeader.toFields]

/-- Two records of one tag with the same fields are the same record. -/
theorem toFields_inj {b b' : Body} (ht : b.tag = b'.tag) (h : b.toFields = b'.toFields) :
    b = b' := by
  cases b <;> cases b' <;> simp only [tag, reduceCtorEq] at ht <;>
    simp_all [toFields, AddOrderMessage.toFields, ExecuteOrderMessage.toFields,
      ExecuteOrderWithPriceMessage.toFields, OrderCancelMessage.toFields,
      OrderDeleteMessage.toFields, OrderReplaceMessage.toFields, TradeMessage.toFields,
      SystemEventMessage.toFields, StockDirectoryMessage.toFields, ITCHMessageHeader.toFields,
      AddOrderMessage.ext_iff, ExecuteOrderMessage.ext_iff, ExecuteOrderWithPriceMessage.ext_iff,
      OrderCancelMessage.ext_iff, OrderDeleteMessage.ext_iff, OrderReplaceMessage.ext_iff,
      TradeMessage.ext_iff, SystemEventMessage.ext_iff, StockDirectoryMessage.ext_iff,
      ITCHMessageHeader.ext_iff]

end Body

end FastMarket
