/-
# AMQP encoders and their sizes

`AmqpEncoder` of `message/amqp/codec/mod.rs` and all its instances.  Each type has two
functions, written apart from each other: `encode` gives the bytes, `encodedSize` says how many
they are.  The second is what ends up in the size prefixes, so whether the two agree is a
question about the program (`Amqp/Size.lean`), not a matter of definition.

**Writers.**  The crate encodes into buffers in memory, which do not fail, so `encode` is the
bytes it appends.  `AmqpEncodeError` has no other source than the writer.

**Arithmetic.**  Sizes are `u32`.  `+` wraps, as it does in the release profile; where the
true size is below `2 ^ 32` no addition of the source overflows and the profiles agree.  The
casts `as u32` and `as u8` truncate; `toBE` does the same.
-/
import RabbitMqStream.Amqp.Types

namespace RabbitMqStream.Amqp

open Wire

/-- `trait AmqpEncoder`. -/
class AmqpEncoder (α : Type) where
  encodedSize : α → UInt32
  encode : α → Bytes

export AmqpEncoder (encodedSize encode)

/-! ## 1. Primitive values

A leaf is a type code and a content, in the shortest of up to three forms.  The size function
makes the same choice by a test of its own, which for `Long` is another test. -/

instance : AmqpEncoder TypeCode where
  encodedSize _ := 1
  encode code := [code.toU8]

/-- `Boolean`. -/
instance : AmqpEncoder Bool where
  encodedSize _ := 1
  encode b := encode (if b then TypeCode.booleanTrue else TypeCode.booleanFalse)

/-- `UByte`. -/
instance : AmqpEncoder UInt8 where
  encodedSize _ := 2
  encode n := encode TypeCode.ubyte ++ toBE 1 n.toNat

/-- `UShort`. -/
instance : AmqpEncoder UInt16 where
  encodedSize _ := 3
  encode n := encode TypeCode.ushort ++ toBE 2 n.toNat

/-- `UInt`. -/
instance : AmqpEncoder UInt32 where
  encodedSize n := if n = 0 then 1 else if n > 255 then 5 else 2
  encode n :=
    if n = 0 then encode TypeCode.uint0
    else if n > 255 then encode TypeCode.uint ++ toBE 4 n.toNat
    else encode TypeCode.uintSmall ++ toBE 1 n.toNat

/-- `ULong`. -/
instance : AmqpEncoder UInt64 where
  encodedSize n := if n = 0 then 1 else if n > 255 then 9 else 2
  encode n :=
    if n = 0 then encode TypeCode.ulong0
    else if n > 255 then encode TypeCode.ulong ++ toBE 8 n.toNat
    else encode TypeCode.ulongSmall ++ toBE 1 n.toNat

/-- `Byte`. -/
instance : AmqpEncoder Int8 where
  encodedSize _ := 2
  encode n := encode TypeCode.byte ++ toBE 1 n.toUInt8.toNat

/-- `Short`. -/
instance : AmqpEncoder Int16 where
  encodedSize _ := 3
  encode n := encode TypeCode.short ++ toBE 2 n.toUInt16.toNat

/-- `Int`. -/
instance : AmqpEncoder Int32 where
  encodedSize n := if n > 127 ∨ n < -128 then 5 else 2
  encode n :=
    if n > 127 ∨ n < -128 then encode TypeCode.int ++ toBE 4 n.toUInt32.toNat
    else encode TypeCode.intSmall ++ toBE 1 n.toInt8.toUInt8.toNat

/-- `*self > i8::MAX || *self < i8::MIN`: the `i64` needs the wide form. -/
def Long.isWide (n : Int64) : Prop := n > 127 ∨ n < -128

instance (n : Int64) : Decidable (Long.isWide n) := inferInstanceAs (Decidable (_ ∨ _))

/-- `Long`. -/
instance : AmqpEncoder Int64 where
  encodedSize n := if Long.isWide n then 9 else 3
  encode n :=
    if Long.isWide n then encode TypeCode.long ++ toBE 8 n.toUInt64.toNat
    else encode TypeCode.longSmall ++ toBE 1 n.toInt8.toUInt8.toNat

instance : AmqpEncoder AmqpFloat where
  encodedSize _ := 5
  encode x := encode TypeCode.float ++ toBE 4 x.bits.toNat

instance : AmqpEncoder AmqpDouble where
  encodedSize _ := 9
  encode x := encode TypeCode.double ++ toBE 8 x.bits.toNat

instance : AmqpEncoder Char where
  encodedSize _ := 5
  encode c := encode TypeCode.char ++ toBE 4 c.val.toNat

instance : AmqpEncoder Uuid where
  encodedSize _ := encodedSize TypeCode.uuid + 16
  encode u := encode TypeCode.uuid ++ u.bytes

/-- `size + len` of `Binary`, `Str` and `Symbol`: the content behind a one-byte or a four-byte
length. -/
def variableSize (len : ℕ) : UInt32 :=
  let length := UInt32.ofNat len
  let size : UInt32 := if length > 255 then 5 else 2
  size + length

/-- `Binary`.  The encoder casts the length to `u32` before it compares it. -/
instance : AmqpEncoder Bytes where
  encodedSize bs := variableSize bs.length
  encode bs :=
    let len := UInt32.ofNat bs.length
    (if len > 255 then encode TypeCode.binary32 ++ toBE 4 len.toNat
      else encode TypeCode.binary8 ++ toBE 1 len.toNat) ++ bs

/-- The encoder that `Str` and `Symbol` share: these compare the length as a `usize`. -/
def encodeText (code8 code32 : TypeCode) (s : String) : Bytes :=
  let length := (asBytes s).length
  (if length > 255 then encode code32 ++ toBE 4 length else encode code8 ++ toBE 1 length) ++
    asBytes s

/-- `Str`. -/
instance : AmqpEncoder String where
  encodedSize s := variableSize (asBytes s).length
  encode s := encodeText .string8 .string32 s

instance : AmqpEncoder Symbol where
  encodedSize s := variableSize (asBytes s.str).length
  encode s := encodeText .symbol8 .symbol32 s.str

instance : AmqpEncoder Timestamp where
  encodedSize _ := encodedSize TypeCode.timestamp + 8
  encode t := encode TypeCode.timestamp ++ toBE 8 t.timestampMillis.toUInt64.toNat

instance {α : Type} [AmqpEncoder α] : AmqpEncoder (Option α) where
  encodedSize
    | some x => encodedSize x
    | none => 1
  encode
    | some x => encode x
    | none => encode TypeCode.null

instance : AmqpEncoder SimpleValue where
  encodedSize
    | .null => 1
    | .boolean value => encodedSize value
    | .ubyte value => encodedSize value
    | .ushort value => encodedSize value
    | .uint value => encodedSize value
    | .ulong value => encodedSize value
    | .byte value => encodedSize value
    | .short value => encodedSize value
    | .int value => encodedSize value
    | .long value => encodedSize value
    | .float value => encodedSize value
    | .double value => encodedSize value
    | .char value => encodedSize value
    | .timestamp value => encodedSize value
    | .uuid value => encodedSize value
    | .binary value => encodedSize value
    | .string value => encodedSize value
    | .symbol value => encodedSize value
  encode
    | .null => encode TypeCode.null
    | .boolean value => encode value
    | .ubyte value => encode value
    | .ushort value => encode value
    | .uint value => encode value
    | .ulong value => encode value
    | .byte value => encode value
    | .short value => encode value
    | .int value => encode value
    | .long value => encode value
    | .float value => encode value
    | .double value => encode value
    | .char value => encode value
    | .timestamp value => encode value
    | .uuid value => encode value
    | .binary value => encode value
    | .string value => encode value
    | .symbol value => encode value

/-- `Descriptor` writes the `0x00` of a described value itself. -/
instance : AmqpEncoder Descriptor where
  encodedSize
    | .ulong v => 1 + encodedSize v
    | .symbol v => 1 + encodedSize v
  encode
    | .ulong v => encode TypeCode.described ++ encode v
    | .symbol v => encode TypeCode.described ++ encode v

/-! ## 2. Compound values

Both functions compute the size of the content first and choose the form by it.  What differs
between a list and a map is the frame that is written in front. -/

/-- `content_size + 1 > u8::MAX`: the size and the count of the compound take four bytes
each. -/
def Compound.isWide (contentSize : UInt32) : Prop := contentSize + 1 > 255

instance (contentSize : UInt32) : Decidable (Compound.isWide contentSize) :=
  inferInstanceAs (Decidable (_ > _))

/-- `List::encoded_size` and `Map::encoded_size`: the constructor, the size and the count, and
the content. -/
def Compound.encodedSize (contentSize : UInt32) : UInt32 :=
  (if isWide contentSize then 9 else 3) + contentSize

/-- What a list or a map writes in front of its content. -/
def Compound.frame (code8 code32 : TypeCode) (contentSize : UInt32) (count : ℕ) : Bytes :=
  if isWide contentSize then
    encode code32 ++ toBE 4 (contentSize + 4).toNat ++ toBE 4 count
  else
    encode code8 ++ toBE 1 (contentSize + 1).toNat ++ toBE 1 count

/-- `List::encode` writes `List8` in front of both forms. -/
def AmqpList.frame (contentSize : UInt32) (len : ℕ) : Bytes :=
  Compound.frame .list8 .list8 contentSize len

/-- `Map::encode`: the count is the number of keys and values together. -/
def Map.frame (contentSize : UInt32) (len : ℕ) : Bytes :=
  Compound.frame .map8 .map32 contentSize (len * 2)

namespace Value

mutual

/-- `AmqpEncoder::encoded_size for Value`. -/
def encodedSize : Value → UInt32
  | .simple v => Amqp.encodedSize v
  | .list items => Compound.encodedSize (itemsSize 0 items)
  | .map entries => Compound.encodedSize (entriesSize 0 entries)
  | .described descriptor v => 1 + Amqp.encodedSize descriptor + encodedSize v

/-- `List::content_size`, the fold over the items from `acc`. -/
def itemsSize : UInt32 → List Value → UInt32
  | acc, [] => acc
  | acc, v :: vs => itemsSize (acc + encodedSize v) vs

/-- `Map::content_size`, the fold over the entries from `acc`. -/
def entriesSize : UInt32 → List (Value × Value) → UInt32
  | acc, [] => acc
  | acc, e :: es => entriesSize (entrySize acc e) es

def entrySize : UInt32 → Value × Value → UInt32
  | acc, (k, v) => acc + encodedSize k + encodedSize v

end

mutual

/-- `AmqpEncoder::encode for Value`. -/
def encode : Value → Bytes
  | .simple v => Amqp.encode v
  | .list items => AmqpList.frame (itemsSize 0 items) items.length ++ encodeItems items
  | .map entries => Map.frame (entriesSize 0 entries) entries.length ++ encodeEntries entries
  | .described descriptor v =>
    Amqp.encode TypeCode.described ++ Amqp.encode descriptor ++ encode v

def encodeItems : List Value → Bytes
  | [] => []
  | v :: vs => encode v ++ encodeItems vs

def encodeEntries : List (Value × Value) → Bytes
  | [] => []
  | e :: es => encodeEntry e ++ encodeEntries es

def encodeEntry : Value × Value → Bytes
  | (k, v) => encode k ++ encode v

end

end Value

instance : AmqpEncoder Value where
  encodedSize := Value.encodedSize
  encode := Value.encode

/-- `List`. -/
instance : AmqpEncoder AmqpList where
  encodedSize l := Compound.encodedSize (Value.itemsSize 0 l.items)
  encode l :=
    AmqpList.frame (Value.itemsSize 0 l.items) l.items.length ++ Value.encodeItems l.items

section Map

variable {K V : Type} [HashKey K] [AmqpEncoder K] [AmqpEncoder V]

/-- `Map::content_size`. -/
def Map.contentSize (m : HashMap K V) : UInt32 :=
  m.entries.foldl (fun acc e => acc + encodedSize e.1 + encodedSize e.2) 0

/-- `Map<K, V>`. -/
instance : AmqpEncoder (HashMap K V) where
  encodedSize m := Compound.encodedSize (Map.contentSize m)
  encode m :=
    Map.frame (Map.contentSize m) m.len ++ m.entries.flatMap (fun e => encode e.1 ++ encode e.2)

end Map

instance : AmqpEncoder AnnonationKey where
  encodedSize
    | .symbol value => encodedSize value
    | .ulong value => encodedSize value
    | .long value => encodedSize value
  encode
    | .symbol value => encode value
    | .ulong value => encode value
    | .long value => encode value

instance : AmqpEncoder MessageId where
  encodedSize
    | .ulong id => encodedSize id
    | .uuid id => encodedSize id
    | .binary id => encodedSize id
    | .string id => encodedSize id
    | .long id => encodedSize id
  encode
    | .ulong id => encode id
    | .uuid id => encode id
    | .binary id => encode id
    | .string id => encode id
    | .long id => encode id

/-! ## 3. Messages

The sections in the order of the source.  A header and properties write their descriptors
themselves; in front of any other section `Message::encode` writes it. -/

/-- `MESSAGE_HEADER` and the other section descriptors of `codec/constants.rs`. -/
def messageHeader : Descriptor := .ulong 112
def messageDeliveryAnnotations : Descriptor := .ulong 113
def messageAnnotations : Descriptor := .ulong 114
def messageProperties : Descriptor := .ulong 115
def messageApplicationProperties : Descriptor := .ulong 116
def messageBodyData : Descriptor := .ulong 117
def messageBodySequence : Descriptor := .ulong 118
def messageBodyValue : Descriptor := .ulong 119
def messageFooter : Descriptor := .ulong 120

/-- `Header::content_size`. -/
def Header.contentSize (h : Header) : UInt32 :=
  encodedSize h.durable + encodedSize h.priority + encodedSize h.ttl +
    encodedSize h.firstAcquirer + encodedSize h.deliveryCount

/-- The fields of `Header::encode`, in its order. -/
def Header.encodeFields (h : Header) : Bytes :=
  encode h.durable ++ encode h.priority ++ encode h.ttl ++ encode h.firstAcquirer ++
    encode h.deliveryCount

instance : AmqpEncoder Header where
  encodedSize h :=
    let size := h.contentSize + encodedSize messageHeader
    let fixed : UInt32 := if size > 255 then 9 else 3
    fixed + size
  encode h :=
    let contentSize := h.contentSize
    encode messageHeader ++
      (if contentSize + encodedSize messageHeader > 255 then
        encode TypeCode.list8 ++ toBE 4 (contentSize + 4).toNat ++ toBE 4 5
      else
        encode TypeCode.list8 ++ toBE 1 (contentSize + 4).toNat ++ toBE 1 5) ++
      h.encodeFields

/-- `Properties::content_size`. -/
def Properties.contentSize (p : Properties) : UInt32 :=
  encodedSize p.messageId + encodedSize p.userId + encodedSize p.to + encodedSize p.subject +
    encodedSize p.replyTo + encodedSize p.correlationId + encodedSize p.contentType +
    encodedSize p.contentEncoding + encodedSize p.absoluteExpiryTime +
    encodedSize p.creationTime + encodedSize p.groupId + encodedSize p.groupSequence +
    encodedSize p.replyToGroupId

/-- The fields of `Properties::encode`, in its order. -/
def Properties.encodeFields (p : Properties) : Bytes :=
  encode p.messageId ++ encode p.userId ++ encode p.to ++ encode p.subject ++
    encode p.replyTo ++ encode p.correlationId ++ encode p.contentType ++
    encode p.contentEncoding ++ encode p.absoluteExpiryTime ++ encode p.creationTime ++
    encode p.groupId ++ encode p.groupSequence ++ encode p.replyToGroupId

/-- `encoded_size` compares the content with the descriptor in it, `encode` the content and
the byte of the count. -/
instance : AmqpEncoder Properties where
  encodedSize p :=
    let size := encodedSize messageProperties + p.contentSize
    let header : UInt32 := if size > 255 then 9 else 3
    header + size
  encode p :=
    let contentSize := p.contentSize
    encode messageProperties ++
      (if contentSize + 1 > 255 then
        encode TypeCode.list8 ++ toBE 4 (contentSize + 4).toNat ++ toBE 4 13
      else
        encode TypeCode.list8 ++ toBE 1 (contentSize + 1).toNat ++ toBE 1 13) ++
      p.encodeFields

instance : AmqpEncoder MessageBody where
  encodedSize b :=
    let size := b.data.foldl (fun a d => a + encodedSize d + encodedSize messageBodyData) 0
    let size := size + b.sequence.foldl
      (fun a seq => a + encodedSize seq + encodedSize messageBodySequence) 0
    match b.value with
    | some val => size + encodedSize val + encodedSize messageBodyValue
    | none => size
  encode b :=
    b.data.flatMap (fun data => encode messageBodyData ++ encode data) ++
      b.sequence.flatMap (fun sequence => encode messageBodySequence ++ encode sequence) ++
      match b.value with
      | some val => encode messageBodyValue ++ encode val
      | none => []

/-- `size += x.encoded_size() + DESCRIPTOR.encoded_size()` for a section that is there. -/
def sectionSize {α : Type} [AmqpEncoder α] (descriptor : Descriptor) : Option α → UInt32
  | some x => encodedSize x + encodedSize descriptor
  | none => 0

/-- A section that is there, behind its descriptor. -/
def encodeSection {α : Type} [AmqpEncoder α] (descriptor : Descriptor) : Option α → Bytes
  | some x => encode descriptor ++ encode x
  | none => []

/-- The header and the properties write their own descriptor. -/
def ownSectionSize {α : Type} [AmqpEncoder α] : Option α → UInt32
  | some x => encodedSize x
  | none => 0

def encodeOwnSection {α : Type} [AmqpEncoder α] : Option α → Bytes
  | some x => encode x
  | none => []

instance : AmqpEncoder Message where
  encodedSize m :=
    encodedSize m.body + ownSectionSize m.header +
      sectionSize messageDeliveryAnnotations m.deliveryAnnotations +
      sectionSize messageAnnotations m.messageAnnotations + ownSectionSize m.properties +
      sectionSize messageApplicationProperties m.applicationProperties +
      sectionSize messageFooter m.footer
  encode m :=
    encodeOwnSection m.header ++
      encodeSection messageDeliveryAnnotations m.deliveryAnnotations ++
      encodeSection messageAnnotations m.messageAnnotations ++ encodeOwnSection m.properties ++
      encodeSection messageApplicationProperties m.applicationProperties ++ encode m.body ++
      encodeSection messageFooter m.footer

end RabbitMqStream.Amqp
