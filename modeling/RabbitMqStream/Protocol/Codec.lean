/-
# The command layer's primitive encoders and decoders

`codec/encoder.rs` and `codec/decoder.rs`: numbers, strings, string maps, vectors, headers and
published messages, as the commands use them.

**Strings.**  A string is an `i16` length and its bytes.  The encoder casts the length without
a check.  The decoder cuts the bytes out of the input with `split_at`, without a check either,
and takes the length 0 for an absent string.

**Vectors.**  A vector of numbers or records starts with an `i32` count that the decoder casts
to `usize` and allocates for (`read_vec`); a negative count asks for more than the address
space.  A vector of bytes starts with an `i32` too, and is cut out of the input like a string.
The vectors of strings, of messages and of publishing errors start with a `u32` and grow.

**Memory.**  A string map starts with a `u32` count and is allocated for it too, before the first
entry is read.  Whether a capacity that is no overflow is granted is up to the `Allocator`
(`withCapacity`).  No element is so large that a count of 32 bits overflows `isize::MAX` bytes.
-/
import RabbitMqStream.Amqp.Decode

namespace RabbitMqStream.Protocol

open Wire

/-! ## 1. Errors and codes

Only what a decoder or an encoder of the command layer can return.  The codes are a table of
numbers, and a number that is not in it is refused. -/

/-- `DecodeError`.  The text of `MessageParse` is kept as the AMQP error it is made from. -/
inductive DecodeError : Type where
  | incomplete (needed : ℕ)
  | utf8Error (bytes : Bytes)
  | unknownResponseCode (code : UInt16)
  | unsupportedResponseType (key : UInt16)
  | mismatchSize (size : ℕ)
  | messageParse (err : Amqp.AmqpDecodeError)
  | invalidFormatCode (code : UInt8)
  | empty
  deriving DecidableEq

instance : OfIncomplete DecodeError := ⟨.incomplete⟩

instance : OfUtf8Error DecodeError := ⟨.utf8Error⟩

/-- `From<AmqpDecodeError> for DecodeError`. -/
def DecodeError.ofAmqp : Amqp.AmqpDecodeError → DecodeError
  | .invalidTypeCode code => .invalidFormatCode code
  | .messageParse msg => .messageParse (.messageParse msg)
  | .incomplete needed => .incomplete needed
  | .utf8Error bytes => .utf8Error bytes
  | .uuidError => .messageParse .uuidError
  | .invalidTypeCodeFor target code => .messageParse (.invalidTypeCodeFor target code)

/-- `EncodeError`.  Its `Io` comes from the writer only, which is a buffer in memory. -/
inductive EncodeError : Type where
  | maxSizeError (size : ℕ)
  deriving DecidableEq

inductive ResponseCode : Type where
  | ok
  | streamDoesNotExist
  | subscriptionIdAlreadyExists
  | subscriptionIdDoesNotExist
  | streamAlreadyExists
  | streamNotAvailable
  | saslMechanismNotSupported
  | authenticationFailure
  | saslError
  | saslChallange
  | authenticationFailureLoopback
  | virtualHostAccessFailure
  | unknownFrame
  | frameTooLarge
  | internalError
  | accessRefused
  | precoditionFailed
  | publisherDoesNotExist
  | offsetNotFound
  deriving DecidableEq, Repr

namespace ResponseCode

/-- `TryFrom<u16> for ResponseCode`, with the numbers of `protocol.rs`. -/
def ofU16 (n : UInt16) : Option ResponseCode :=
  match n.toNat with
  | 1 => some ok
  | 2 => some streamDoesNotExist
  | 3 => some subscriptionIdAlreadyExists
  | 4 => some subscriptionIdDoesNotExist
  | 5 => some streamAlreadyExists
  | 6 => some streamNotAvailable
  | 7 => some saslMechanismNotSupported
  | 8 => some authenticationFailure
  | 9 => some saslError
  | 10 => some saslChallange
  | 11 => some authenticationFailureLoopback
  | 12 => some virtualHostAccessFailure
  | 13 => some unknownFrame
  | 14 => some frameTooLarge
  | 15 => some internalError
  | 16 => some accessRefused
  | 17 => some precoditionFailed
  | 18 => some publisherDoesNotExist
  | 19 => some offsetNotFound
  | _ => none

/-- `From<&ResponseCode> for u16`. -/
def toU16 : ResponseCode → UInt16
  | ok => 1
  | streamDoesNotExist => 2
  | subscriptionIdAlreadyExists => 3
  | subscriptionIdDoesNotExist => 4
  | streamAlreadyExists => 5
  | streamNotAvailable => 6
  | saslMechanismNotSupported => 7
  | authenticationFailure => 8
  | saslError => 9
  | saslChallange => 10
  | authenticationFailureLoopback => 11
  | virtualHostAccessFailure => 12
  | unknownFrame => 13
  | frameTooLarge => 14
  | internalError => 15
  | accessRefused => 16
  | precoditionFailed => 17
  | publisherDoesNotExist => 18
  | offsetNotFound => 19

end ResponseCode

/-- `Header`, the key and the version of a frame. -/
structure Header : Type where
  key : UInt16
  version : UInt16
  deriving DecidableEq

/-- `Message`: the AMQP message, and the publishing id the application gave it. -/
structure Message : Type where
  publishingId : Option UInt64 := none
  message : Amqp.Message
  deriving DecidableEq

structure PublishedMessage : Type where
  publishingId : UInt64
  message : Message
  filterValue : Option String := none
  deriving DecidableEq

structure PublishingError : Type where
  publishingId : UInt64
  errorCode : ResponseCode
  deriving DecidableEq

/-! ## 2. Encoders

Each type has an `encode` and an `encoded_size`.  The casts of the source are kept where they
are: the length of a string to an `i16`, the count of a vector to a `u32`. -/

abbrev Writer : Type := WriteM UInt8 EncodeError Unit

/-- `trait Encoder`. -/
class Encoder (α : Type) where
  encodedSize : α → UInt32
  encode : α → Writer

export Encoder (encodedSize encode)

instance : Encoder UInt8 := ⟨fun _ => 1, fun n => WriteM.write (toBE 1 n.toNat)⟩

instance : Encoder UInt16 := ⟨fun _ => 2, fun n => WriteM.write (toBE 2 n.toNat)⟩

instance : Encoder UInt32 := ⟨fun _ => 4, fun n => WriteM.write (toBE 4 n.toNat)⟩

instance : Encoder UInt64 := ⟨fun _ => 8, fun n => WriteM.write (toBE 8 n.toNat)⟩

instance : Encoder Int64 := ⟨fun _ => 8, fun n => WriteM.write (toBE 8 n.toUInt64.toNat)⟩

instance : Encoder ResponseCode := ⟨fun _ => 2, fun c => WriteM.write (toBE 2 c.toU16.toNat)⟩

instance : Encoder Header where
  encodedSize _ := 2 + 2
  encode h := do
    encode h.key
    encode h.version

/-- `&str`.  The length is cast to `i16`. -/
instance : Encoder String where
  encodedSize s := 2 + UInt32.ofNat (asBytes s).length
  encode s := do
    WriteM.write (toBE 2 (asBytes s).length)
    WriteM.write (asBytes s)

instance : Encoder (Option String) where
  encodedSize
    | some s => 2 + UInt32.ofNat (asBytes s).length
    | none => 2 + 0
  encode
    | some s => encode s
    | none => WriteM.write (toBE 2 0)

/-- A count and the elements, as every encoder of a vector writes them. -/
def encodeVec {α : Type} [Encoder α] (xs : List α) : Writer := do
  WriteM.write (toBE 4 xs.length)
  WriteM.each encode xs

def vecSize {α : Type} [Encoder α] (xs : List α) : UInt32 :=
  4 + xs.foldl (fun acc x => acc + encodedSize x) 0

instance : Encoder (List String) := ⟨vecSize, encodeVec⟩

/-- `Vec<u8>`. -/
instance : Encoder Bytes where
  encodedSize bs := 4 + UInt32.ofNat bs.length
  encode bs := do
    WriteM.write (toBE 4 bs.length)
    WriteM.write bs

instance : Encoder (HashMap String String) where
  encodedSize m := 4 + m.entries.foldl (fun acc e => acc + encodedSize e.1 + encodedSize e.2) 0
  encode m := do
    WriteM.write (toBE 4 m.len)
    WriteM.each (fun e => do
      encode e.1
      encode e.2) m.entries

/-- `Message::encode` appends the bytes of the AMQP message. -/
instance : Encoder Message where
  encodedSize m := Amqp.encodedSize m.message
  encode m := WriteM.write (Amqp.encode m.message)

instance : Encoder PublishedMessage where
  encodedSize m := encodedSize m.publishingId + 4 + encodedSize m.message
  encode m := do
    encode m.publishingId
    encode (encodedSize m.message)
    encode m.message

/-- `PublishedMessage::encoded_size_version_2`. -/
def PublishedMessage.encodedSizeVersion2 (m : PublishedMessage) : UInt32 :=
  encodedSize m.publishingId + encodedSize m.filterValue + 4 + encodedSize m.message

/-- `PublishedMessage::encode_version_2`: the filter value comes before the message. -/
def PublishedMessage.encodeVersion2 (m : PublishedMessage) : Writer := do
  encode m.publishingId
  encode m.filterValue
  encode (encodedSize m.message)
  encode m.message

instance : Encoder (List PublishedMessage) := ⟨vecSize, encodeVec⟩

/-- `Vec<PublishedMessage>::encoded_size_version_2`. -/
def encodedSizeVersion2 (ms : List PublishedMessage) : UInt32 :=
  4 + ms.foldl (fun acc m => acc + m.encodedSizeVersion2) 0

/-- `Vec<PublishedMessage>::encode_version_2`. -/
def encodeVersion2 (ms : List PublishedMessage) : Writer := do
  WriteM.write (toBE 4 ms.length)
  WriteM.each PublishedMessage.encodeVersion2 ms

/-! ## 3. Decoders

What comes out of the input as a number is used as one: as a length to cut off, as a count of
rounds, or as a capacity.  Each of these has its own way to go wrong. -/

abbrev DecodeM (α : Type) : Type := Reader UInt8 (Fault DecodeError) α

/-- `trait Decoder`. -/
class Decoder (α : Type) where
  decode : DecodeM α

export Decoder (decode)

instance : Decoder UInt8 := ⟨readU8⟩

instance : Decoder Int8 := ⟨readI8⟩

instance : Decoder UInt16 := ⟨readU16⟩

instance : Decoder UInt32 := ⟨readU32⟩

instance : Decoder UInt64 := ⟨readU64⟩

instance : Decoder Int32 := ⟨readI32⟩

instance : Decoder Int64 := ⟨readI64⟩

instance : Decoder ResponseCode where
  decode := do
    let code ← readU16
    match ResponseCode.ofU16 code with
    | some c => pure c
    | none => throw (.error (.unknownResponseCode code))

/-- `extract_response_code`. -/
def extractResponseCode (code : UInt16) : UInt16 := code &&& 0x7fff

instance : Decoder Header where
  decode := do
    let key ← readU16
    let version ← readU16
    pure ⟨extractResponseCode key, version⟩

/-- `input.split_at(len)`. -/
def splitAt (len : ℕ) : DecodeM Bytes := Reader.takeN len (.panic .splitAtOutOfRange)

/-- `Option<String>`. -/
instance : Decoder (Option String) where
  decode := do
    let len ← readI16
    if len = 0 then pure none
    else do
      let bytes ← splitAt (asUsize16 len)
      match fromUtf8 bytes with
      | some s => pure (some s)
      | none => throw (.error (OfUtf8Error.utf8Error bytes))

/-- `Option::unwrap` of a decoded string. -/
def unwrap {α : Type} : Option α → DecodeM α
  | some x => pure x
  | none => throw (.panic .unwrapNone)

/-- `result.push(value)` for each element. -/
def pushLoop {α : Type} (elem : DecodeM α) (count : ℕ) : DecodeM (List α) :=
  Reader.loop (fun result => do
    let value ← elem
    pure (result ++ [value])) count []

/-- `C::with_capacity(n)`, for an `n` of 32 bits. -/
def withCapacity [Allocator] (C : Type) (n : ℕ) : DecodeM Unit :=
  if Allocator.grants C n then pure () else throw (.panic .allocationRefused)

/-- `read_vec`. -/
def readVec {α : Type} [Allocator] [Decoder α] : DecodeM (List α) := do
  let len ← readI32
  if len < 0 then throw (.panic .capacityOverflow)
  else do
    withCapacity (List α) (asUsize32 len)
    pushLoop decode (asUsize32 len)

/-- `Vec<u8>`: the bytes are cut out of the input, without a check. -/
instance : Decoder (List UInt8) where
  decode := do
    let len ← readI32
    Reader.takeN (asUsize32 len) (.panic .sliceOutOfRange)

instance [Allocator] : Decoder (List UInt16) := ⟨readVec⟩

instance [Allocator] : Decoder (List UInt64) := ⟨readVec⟩

instance : Decoder PublishingError where
  decode := do
    let publishingId ← readU64
    let code ← decode
    pure ⟨publishingId, code⟩

instance : Decoder (List PublishingError) where
  decode := do
    let count ← readU32
    pushLoop decode count.toNat

instance : Decoder (List String) where
  decode := do
    let count ← readU32
    Reader.loop (fun vec => do
      let value ← (decode : DecodeM (Option String))
      match value with
      | some v => pure (vec ++ [v])
      | none => pure vec) count.toNat []

instance [Allocator] : Decoder (HashMap String String) where
  decode := do
    let count ← readU32
    withCapacity (HashMap String String) count.toNat
    Reader.loop (fun map => do
      let key ← (decode : DecodeM (Option String))
      let value ← (decode : DecodeM (Option String))
      match key, value with
      | some k, some v => pure (map.insert k v rfl)
      | _, _ => pure map) count.toNat HashMap.empty

/-- `Message::decode`, on the bytes of one message: what the AMQP decoder leaves over is
dropped, and its errors become errors of this layer. -/
def Message.decode [Amqp.Chrono] (body : Bytes) : Except (Fault DecodeError) Message :=
  match Amqp.Message.decode body with
  | .ok (message, _) => .ok { message := message }
  | .error (.error e) => .error (.error (.ofAmqp e))
  | .error (.panic p) => .error (.panic p)

/-- Decode the bytes of one message inside a decoder, `Message::decode(&body)?`. -/
def decodeBody [Amqp.Chrono] (body : Bytes) : DecodeM Message :=
  match Message.decode body with
  | .ok message => pure message
  | .error e => throw e

/-- `PublishedMessage::decode`. -/
instance [Amqp.Chrono] [Allocator] : Decoder PublishedMessage where
  decode := do
    let publishingId ← decode
    let body ← (readVec : DecodeM (List UInt8))
    let message ← decodeBody body
    pure ⟨publishingId, message, none⟩

/-- `PublishedMessage::decode_version_2`: the filter value comes behind the message. -/
def PublishedMessage.decodeVersion2 [Amqp.Chrono] [Allocator] : DecodeM PublishedMessage := do
  let publishingId ← decode
  let body ← (readVec : DecodeM (List UInt8))
  let filterValue ← (decode : DecodeM (Option String))
  let message ← decodeBody body
  pure ⟨publishingId, message, filterValue⟩

instance [Amqp.Chrono] [Allocator] : Decoder (List PublishedMessage) where
  decode := do
    let len ← (decode : DecodeM UInt32)
    pushLoop decode len.toNat

/-- `Vec<PublishedMessage>::decode_version_2` is the default of the trait, `Decoder::decode`. -/
def decodeVersion2 [Amqp.Chrono] [Allocator] : DecodeM (List PublishedMessage) := decode

end RabbitMqStream.Protocol
