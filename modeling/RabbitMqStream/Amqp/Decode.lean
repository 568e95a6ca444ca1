/-
# AMQP decoders

`AmqpDecoder` of `message/amqp/codec/mod.rs` and all its instances, one function each, in the
order and with the error paths of the source.

**Recursion.**  `Value::decode` calls itself through lists, maps and described values, and
`Message::decode` loops until its input is empty.  Both are defined by fuel (`Reader.fix`,
`Reader.untilEmpty`); `Amqp/Progress.lean` has the equations without fuel.

**Panics.**  There are two: `count -= 2` on an odd count (with overflow checks, as in the test
profile), and hashing a key that has a map in it.

**Errors.**  The texts of `MessageParse` are kept apart as constructors with the values that
are printed into them, and `type_name::<Self>()` is a `Target`.
-/
import RabbitMqStream.Amqp.Encode

namespace RabbitMqStream.Amqp

open Wire

/-! ## 1. Errors -/

/-- `type_name::<Self>()` of the decoders that report an invalid type code. -/
inductive Target : Type where
  | simpleValue | u8 | u16 | u32 | u64 | i8 | i16 | i32 | i64 | float | double | char | uuid
  | bool | vecU8 | string | symbol | timestamp | descriptor | describedValue | collectionValue
  | list | map | annonationKey | messageId
  deriving DecidableEq, Repr

/-- The texts of `MessageParse`. -/
inductive ParseMessage : Type where
  /-- `Invalid timestmap millis {}` -/
  | invalidTimestampMillis (millis : Int64)
  /-- `Invalid type code {:?} for list` -/
  | invalidTypeCodeForList (code : TypeCode)
  /-- `Invalid section {:?}` -/
  | invalidSection (descriptor : Descriptor)
  /-- `Invalid descriptor for header {:?}` -/
  | invalidDescriptorForHeader (descriptor : Descriptor)
  /-- `Invalid descriptor for properties {:?}` -/
  | invalidDescriptorForProperties (descriptor : Descriptor)
  deriving DecidableEq

inductive AmqpDecodeError : Type where
  | invalidTypeCode (code : UInt8)
  | invalidTypeCodeFor (target : Target) (code : TypeCode)
  | messageParse (msg : ParseMessage)
  | incomplete (needed : ℕ)
  | utf8Error (bytes : Bytes)
  | uuidError
  deriving DecidableEq

instance : OfIncomplete AmqpDecodeError := ⟨.incomplete⟩

instance : OfUtf8Error AmqpDecodeError := ⟨.utf8Error⟩

abbrev AmqpReader (α : Type) : Type := Reader UInt8 (Fault AmqpDecodeError) α

/-- `trait AmqpDecoder`. -/
class AmqpDecoder (α : Type) where
  decode : AmqpReader α

export AmqpDecoder (decode)

/-- `Err(Self::invalid_type_code(code))`. -/
def invalidTypeCode {α : Type} (target : Target) (code : TypeCode) : AmqpReader α :=
  throw (.error (.invalidTypeCodeFor target code))

/-- `Err(AmqpDecodeError::MessageParse(..))`. -/
def messageParse {α : Type} (msg : ParseMessage) : AmqpReader α :=
  throw (.error (.messageParse msg))

/-! ## 2. Values

Every decoder reads a type code and branches on it.  Where the source looks at the code and then
lets another decoder read the item from its start, that is a look ahead. -/

def TypeCode.decode : AmqpReader TypeCode := do
  let code ← readU8
  match TypeCode.ofU8 code with
  | some c => pure c
  | none => throw (.error (.invalidTypeCode code))

instance : AmqpDecoder UInt8 where
  decode := do
    let code ← TypeCode.decode
    match code with
    | .ubyte => readU8
    | code => invalidTypeCode .u8 code

instance : AmqpDecoder UInt16 where
  decode := do
    let code ← TypeCode.decode
    match code with
    | .ushort => readU16
    | code => invalidTypeCode .u16 code

instance : AmqpDecoder UInt32 where
  decode := do
    let code ← TypeCode.decode
    match code with
    | .uint0 => pure 0
    | .uintSmall => do
      let n ← readU8
      pure n.toUInt32
    | .uint => readU32
    | code => invalidTypeCode .u32 code

instance : AmqpDecoder UInt64 where
  decode := do
    let code ← TypeCode.decode
    match code with
    | .ulong => readU64
    | .ulongSmall => do
      let n ← readU8
      pure n.toUInt64
    | .ulong0 => pure 0
    | code => invalidTypeCode .u64 code

instance : AmqpDecoder Int8 where
  decode := do
    let code ← TypeCode.decode
    match code with
    | .byte => readI8
    | code => invalidTypeCode .i8 code

instance : AmqpDecoder Int16 where
  decode := do
    let code ← TypeCode.decode
    match code with
    | .short => readI16
    | code => invalidTypeCode .i16 code

/-- `Int`.  The small form is read as a `u8`. -/
instance : AmqpDecoder Int32 where
  decode := do
    let code ← TypeCode.decode
    match code with
    | .int => readI32
    | .intSmall => do
      let n ← readU8
      pure (Int32.ofInt n.toNat)
    | code => invalidTypeCode .i32 code

/-- `Long`.  The small form is read as an `i8`. -/
instance : AmqpDecoder Int64 where
  decode := do
    let code ← TypeCode.decode
    match code with
    | .long => readI64
    | .longSmall => do
      let n ← readI8
      pure n.toInt64
    | code => invalidTypeCode .i64 code

instance : AmqpDecoder AmqpFloat where
  decode := do
    let code ← TypeCode.decode
    match code with
    | .float => do
      let bits ← readU32
      pure ⟨bits⟩
    | code => invalidTypeCode .float code

instance : AmqpDecoder AmqpDouble where
  decode := do
    let code ← TypeCode.decode
    match code with
    | .double => do
      let bits ← readU64
      pure ⟨bits⟩
    | code => invalidTypeCode .double code

instance : AmqpDecoder Char where
  decode := do
    let code ← TypeCode.decode
    match code with
    | .char => do
      let n ← readU32
      match charFromU32 n with
      | some c => pure c
      | none => invalidTypeCode .char code
    | code => invalidTypeCode .char code

instance : AmqpDecoder Uuid where
  decode := do
    let code ← TypeCode.decode
    match code with
    | .uuid => do
      let bytes ← readExact 16
      match Uuid.fromSlice bytes with
      | some u => pure u
      | none => throw (.error .uuidError)
    | code => invalidTypeCode .uuid code

/-- `Boolean`. -/
instance : AmqpDecoder Bool where
  decode := do
    let code ← TypeCode.decode
    match code with
    | .boolean => do
      let boolean ← readU8
      pure (boolean != 0)
    | .booleanTrue => pure true
    | .booleanFalse => pure false
    | code => invalidTypeCode .bool code

instance : AmqpDecoder Bytes where
  decode := do
    let code ← TypeCode.decode
    match code with
    | .binary8 => do
      let len ← readU8
      readExact len.toNat
    | .binary32 => do
      let len ← readU32
      readExact len.toNat
    | code => invalidTypeCode .vecU8 code

/-- `read_exact(input, len)` and `String::from_utf8`. -/
def readText (len : ℕ) : AmqpReader String := do
  let bytes ← readExact len
  match fromUtf8 bytes with
  | some s => pure s
  | none => throw (.error (OfUtf8Error.utf8Error bytes))

instance : AmqpDecoder String where
  decode := do
    let code ← TypeCode.decode
    match code with
    | .string8 => do
      let len ← readU8
      readText len.toNat
    | .string32 => do
      let len ← readU32
      readText len.toNat
    | code => invalidTypeCode .string code

instance : AmqpDecoder Symbol where
  decode := do
    let code ← TypeCode.decode
    match code with
    | .symbol8 => do
      let len ← readU8
      let str ← readText len.toNat
      pure ⟨str⟩
    | .symbol32 => do
      let len ← readU32
      let str ← readText len.toNat
      pure ⟨str⟩
    | code => invalidTypeCode .symbol code

/-- Read an item with the decoder of its type and wrap it, `decode(input).map_second(f)`. -/
def decodeAs {α β : Type} [AmqpDecoder α] (f : α → β) : AmqpReader β := do
  let x ← decode
  pure (f x)

instance {α : Type} [AmqpDecoder α] : AmqpDecoder (Option α) where
  decode := do
    let code ← Reader.lookahead TypeCode.decode
    match code with
    | .null => do
      let _ ← TypeCode.decode
      pure none
    | _ => decodeAs some

def Descriptor.decode : AmqpReader Descriptor := do
  let code ← TypeCode.decode
  match code with
  | .described => do
    let code ← Reader.lookahead TypeCode.decode
    match code with
    | .ulong | .ulongSmall => decodeAs Descriptor.ulong
    | .ulong0 => do
      let _ ← TypeCode.decode
      pure (.ulong 0)
    | .symbol8 | .symbol32 => decodeAs Descriptor.symbol
    | code => invalidTypeCode .descriptor code
  | code => invalidTypeCode .descriptor code

instance : AmqpDecoder Descriptor := ⟨Descriptor.decode⟩

instance : AmqpDecoder MessageId where
  decode := do
    let code ← Reader.lookahead TypeCode.decode
    match code with
    | .ulong0 | .ulong | .ulongSmall => decodeAs MessageId.ulong
    | .long | .longSmall => decodeAs MessageId.long
    | .uuid => decodeAs MessageId.uuid
    | .binary8 | .binary32 => decodeAs MessageId.binary
    | .string8 | .string32 => decodeAs MessageId.string
    | code => invalidTypeCode .messageId code

instance : AmqpDecoder AnnonationKey where
  decode := do
    let code ← Reader.lookahead TypeCode.decode
    match code with
    | .symbol8 | .symbol32 => decodeAs AnnonationKey.symbol
    | .ulong | .ulong0 | .ulongSmall => decodeAs AnnonationKey.ulong
    | .long | .longSmall => decodeAs AnnonationKey.long
    | code => invalidTypeCode .annonationKey code

/-- The count of a list or a map: the size in front of it is read and dropped. -/
def Compound.count8 : AmqpReader ℕ := do
  let _ ← readU8
  let count ← readU8
  pure count.toNat

def Compound.count32 : AmqpReader ℕ := do
  let _ ← readU32
  let count ← readU32
  pure count.toNat

/-- `list.0.push(elem)` for each element. -/
def AmqpList.elems (value : AmqpReader Value) (count : ℕ) : AmqpReader (List Value) :=
  Reader.loop (fun items => do
    let elem ← value
    pure (items ++ [elem])) count []

/-- `List::decode`, with `value` for `Value::decode`. -/
def AmqpList.decodeWith (value : AmqpReader Value) : AmqpReader (List Value) := do
  let code ← TypeCode.decode
  match code with
  | .list0 => pure []
  | .list8 => do
    let count ← Compound.count8
    elems value count
  | .list32 => do
    let count ← Compound.count32
    elems value count
  | code => invalidTypeCode .list code

section Map

variable {K V : Type} [HashKey K]

/-- `map.0.insert(key, value)`: the key is hashed first. -/
def Map.insert (map : HashMap K V) (k : K) (v : V) : AmqpReader (HashMap K V) :=
  if hk : HashKey.hashes k then pure (map.insert k v hk) else throw (.panic .unimplementedHash)

/-- `while count > 0`, taking two off the count in each round. -/
def Map.entries (key : AmqpReader K) (value : AmqpReader V) :
    ℕ → HashMap K V → AmqpReader (HashMap K V)
  | 0, map => pure map
  | 1, _ => throw (.panic .subtractOverflow)
  | count + 2, map => do
    let k ← key
    let v ← value
    let map ← Map.insert map k v
    Map.entries key value count map

/-- `Map::decode`. -/
def Map.decodeWith (key : AmqpReader K) (value : AmqpReader V) : AmqpReader (HashMap K V) := do
  let code ← TypeCode.decode
  match code with
  | .map8 => do
    let count ← Compound.count8
    Map.entries key value count HashMap.empty
  | .map32 => do
    let count ← Compound.count32
    Map.entries key value count HashMap.empty
  | code => invalidTypeCode .map code

instance [AmqpDecoder K] [AmqpDecoder V] : AmqpDecoder (HashMap K V) :=
  ⟨Map.decodeWith decode decode⟩

end Map

section Chrono

variable [Chrono]

instance : AmqpDecoder Timestamp where
  decode := do
    let code ← TypeCode.decode
    match code with
    | .timestamp => do
      let millis ← readI64
      match timestampMillisOpt millis with
      | some t => pure t
      | none => messageParse (.invalidTimestampMillis millis)
    | code => invalidTypeCode .timestamp code

instance : AmqpDecoder SimpleValue where
  decode := do
    let code ← Reader.lookahead TypeCode.decode
    match code with
    | .null => do
      let _ ← TypeCode.decode
      pure .null
    | .boolean | .booleanFalse | .booleanTrue => decodeAs SimpleValue.boolean
    | .uint0 | .uintSmall | .uint => decodeAs SimpleValue.uint
    | .ulong0 | .ulongSmall | .ulong => decodeAs SimpleValue.ulong
    | .ubyte => decodeAs SimpleValue.ubyte
    | .ushort => decodeAs SimpleValue.ushort
    | .byte => decodeAs SimpleValue.byte
    | .short => decodeAs SimpleValue.short
    | .intSmall | .int => decodeAs SimpleValue.int
    | .longSmall | .long => decodeAs SimpleValue.long
    | .float => decodeAs SimpleValue.float
    | .double => decodeAs SimpleValue.double
    | .char => decodeAs SimpleValue.char
    | .timestamp => decodeAs SimpleValue.timestamp
    | .uuid => decodeAs SimpleValue.uuid
    | .binary8 | .binary32 => decodeAs SimpleValue.binary
    | .string8 | .string32 => decodeAs SimpleValue.string
    | .symbol8 | .symbol32 => decodeAs SimpleValue.symbol
    | code => invalidTypeCode .simpleValue code

/-- `DescribedValue::decode`. -/
def Value.decodeDescribed (value : AmqpReader Value) : AmqpReader Value := do
  let code ← TypeCode.decode
  match code with
  | .described => do
    let descriptor ← Descriptor.decode
    let v ← value
    pure (.described descriptor v)
  | code => invalidTypeCode .describedValue code

/-- `CollectionValue::decode`. -/
def Value.decodeCollection (value : AmqpReader Value) : AmqpReader Value := do
  let code ← Reader.lookahead TypeCode.decode
  match code with
  | .list0 | .list8 | .list32 => do
    let items ← AmqpList.decodeWith value
    pure (.list items)
  | .map8 | .map32 => do
    let map ← Map.decodeWith value value
    pure (.map map.entries)
  | code => invalidTypeCode .collectionValue code

/-- The body of `Value::decode`, with `value` for its calls of itself. -/
def Value.decodeWith (value : AmqpReader Value) : AmqpReader Value := do
  let code ← Reader.lookahead TypeCode.decode
  match code with
  | .described => decodeDescribed value
  | .list0 | .list8 | .list32 | .map8 | .map32 | .array8 | .array32 => decodeCollection value
  | _ => decodeAs Value.simple

/-- `Value::decode`. -/
def Value.decode : AmqpReader Value := Reader.fix Value.decodeWith (.error (.incomplete 0))

instance : AmqpDecoder Value := ⟨Value.decode⟩

/-- `List::decode`. -/
instance : AmqpDecoder AmqpList where
  decode := do
    let items ← AmqpList.decodeWith decode
    pure ⟨items⟩

/-! ## 3. Messages

A header and properties are read field by field, with a default for a field that is `Null`.  The
loop of `Message::decode` has no counter: it goes on until its input is empty. -/

/-- `for idx in 0..count`, from `idx` on. -/
def AmqpList.fields {T : Type} (f : ℕ → T → AmqpReader T) : ℕ → ℕ → T → AmqpReader T
  | 0, _, dest => pure dest
  | count + 1, idx, dest => do
    let dest ← f idx dest
    fields f count (idx + 1) dest

/-- `List::decode_with_fields`. -/
def AmqpList.decodeWithFields {T : Type} (f : ℕ → T → AmqpReader T) (dest : T) :
    AmqpReader T := do
  let code ← TypeCode.decode
  match code with
  | .list0 => pure dest
  | .list8 => do
    let count ← Compound.count8
    fields f count 0 dest
  | .list32 => do
    let count ← Compound.count32
    fields f count 0 dest
  | code => messageParse (.invalidTypeCodeForList code)

/-- One arm of `list_decoder!`: read an optional field and put it in its place. -/
def listField {α T : Type} [AmqpDecoder α] (set : Option α → T) : AmqpReader T := decodeAs set

/-- `list_decoder_header`. -/
def listDecoderHeader (idx : ℕ) (dest : Header) : AmqpReader Header :=
  match idx with
  | 0 => listField fun x => { dest with durable := x.getD false }
  | 1 => listField fun x => { dest with priority := x.getD 4 }
  | 2 => listField fun x => { dest with ttl := x }
  | 3 => listField fun x => { dest with firstAcquirer := x.getD false }
  | 4 => listField fun x => { dest with deliveryCount := x.getD 4 }
  | _ => pure dest

def Header.decode : AmqpReader Header := do
  let descriptor ← Descriptor.decode
  if descriptor = messageHeader then AmqpList.decodeWithFields listDecoderHeader {}
  else messageParse (.invalidDescriptorForHeader descriptor)

/-- `list_decoder_properties`. -/
def listDecoderProperties (idx : ℕ) (dest : Properties) : AmqpReader Properties :=
  match idx with
  | 0 => listField fun x => { dest with messageId := x }
  | 1 => listField fun x => { dest with userId := x }
  | 2 => listField fun x => { dest with «to» := x }
  | 3 => listField fun x => { dest with subject := x }
  | 4 => listField fun x => { dest with replyTo := x }
  | 5 => listField fun x => { dest with correlationId := x }
  | 6 => listField fun x => { dest with contentType := x }
  | 7 => listField fun x => { dest with contentEncoding := x }
  | 8 => listField fun x => { dest with absoluteExpiryTime := x }
  | 9 => listField fun x => { dest with creationTime := x }
  | 10 => listField fun x => { dest with groupId := x }
  | 11 => listField fun x => { dest with groupSequence := x }
  | 12 => listField fun x => { dest with replyToGroupId := x }
  | _ => pure dest

def Properties.decode : AmqpReader Properties := do
  let descriptor ← Descriptor.decode
  if descriptor = messageProperties then AmqpList.decodeWithFields listDecoderProperties {}
  else messageParse (.invalidDescriptorForProperties descriptor)

instance : AmqpDecoder Header := ⟨Header.decode⟩

instance : AmqpDecoder Properties := ⟨Properties.decode⟩

inductive MessageSection : Type where
  | header (val : Header)
  | deliveryAnnotations (val : Annotations)
  | messageAnnotations (val : Annotations)
  | applicationProperties (val : ApplicationProperties)
  | data (val : Bytes)
  | amqpSequence (val : AmqpList)
  | amqpValue (val : Value)
  | footer (val : Annotations)
  | properties (val : Properties)
  deriving DecidableEq

/-- A section that starts behind its descriptor, `decode(remaining).map_second(f)`. -/
def decodeRemaining {α : Type} [AmqpDecoder α] (f : α → MessageSection) :
    AmqpReader MessageSection := do
  let _ ← Descriptor.decode
  decodeAs f

/-- `MessageSection::decode`.  The header and the properties read the descriptor again. -/
def MessageSection.decode : AmqpReader MessageSection := do
  let descriptor ← Reader.lookahead Descriptor.decode
  if descriptor = messageHeader then decodeAs MessageSection.header
  else if descriptor = messageBodyData then decodeRemaining MessageSection.data
  else if descriptor = messageProperties then decodeAs MessageSection.properties
  else if descriptor = messageBodyValue then decodeRemaining MessageSection.amqpValue
  else if descriptor = messageApplicationProperties then
    decodeRemaining MessageSection.applicationProperties
  else if descriptor = Amqp.messageAnnotations then decodeRemaining MessageSection.messageAnnotations
  else if descriptor = messageBodySequence then decodeRemaining MessageSection.amqpSequence
  else if descriptor = messageDeliveryAnnotations then
    decodeRemaining MessageSection.deliveryAnnotations
  else if descriptor = messageFooter then decodeRemaining MessageSection.footer
  else messageParse (.invalidSection descriptor)

/-- The `match sec` of `Message::decode`: put a section in its place. -/
def Message.add (message : Message) : MessageSection → Message
  | .header val => { message with header := some val }
  | .deliveryAnnotations val => { message with deliveryAnnotations := some val }
  | .messageAnnotations val => { message with messageAnnotations := some val }
  | .applicationProperties val => { message with applicationProperties := some val }
  | .footer val => { message with footer := some val }
  | .properties val => { message with properties := some val }
  | .amqpSequence val =>
    { message with body := { message.body with sequence := message.body.sequence ++ [val] } }
  | .amqpValue val => { message with body := { message.body with value := some val } }
  | .data val => { message with body := { message.body with data := message.body.data ++ [val] } }

/-- One round of the loop of `Message::decode`. -/
def Message.round (message : Message) : AmqpReader Message := do
  let sec ← MessageSection.decode
  pure (message.add sec)

/-- `Message::decode`. -/
def Message.decode : AmqpReader Message :=
  Reader.untilEmpty Message.round (.error (.incomplete 0)) {}

instance : AmqpDecoder Message := ⟨Message.decode⟩

end Chrono

end RabbitMqStream.Amqp
