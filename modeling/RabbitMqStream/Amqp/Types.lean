/-
# The data model of an AMQP 1.0 message

The types of `message/amqp/types` and the records of `header.rs`, `properties.rs`, `body.rs`
and `message.rs`, with the source's own constructors and fields.  Three differences from the
Rust text:

* `Value` holds the list, the map and the described value directly; the source goes through
  `CollectionValue` and `DescribedValue` on the way.
* A float is the bit pattern the encoder writes.  Its `==` is the one of `OrderedFloat`: a NaN
  equals every NaN, and the two zeros are equal.
* A map inside a `Value` is the list of its entries; nothing in the recursion depends on the
  keys being different, so the inductive type does not say it.  `Map<K, V>` everywhere else is
  `HashMap`, which does.
-/
import RabbitMqStream.Basic

namespace RabbitMqStream.Amqp

open Wire

/-! ## 1. Type codes

One constructor for each code, and its byte in one table.  The byte is read back by the other
function, as no two codes share one. -/

/-- `TypeCode`, the constructor byte in front of every AMQP value. -/
inductive TypeCode : Type where
  | described | null | boolean | booleanTrue | booleanFalse | uint0 | ulong0 | ubyte | ushort
  | uint | ulong | byte | short | int | long | uintSmall | ulongSmall | intSmall | longSmall
  | float | double | char | timestamp | uuid | binary8 | binary32 | string8 | string32
  | symbol8 | symbol32 | list0 | list8 | list32 | map8 | map32 | array8 | array32
  deriving DecidableEq, Repr

namespace TypeCode

/-- `IntoPrimitive`: the byte of a type code. -/
def toU8 : TypeCode → UInt8
  | described => 0x00
  | null => 0x40
  | boolean => 0x56
  | booleanTrue => 0x41
  | booleanFalse => 0x42
  | uint0 => 0x43
  | ulong0 => 0x44
  | ubyte => 0x50
  | ushort => 0x60
  | uint => 0x70
  | ulong => 0x80
  | byte => 0x51
  | short => 0x61
  | int => 0x71
  | long => 0x81
  | uintSmall => 0x52
  | ulongSmall => 0x53
  | intSmall => 0x54
  | longSmall => 0x55
  | float => 0x72
  | double => 0x82
  | char => 0x73
  | timestamp => 0x83
  | uuid => 0x98
  | binary8 => 0xa0
  | binary32 => 0xb0
  | string8 => 0xa1
  | string32 => 0xb1
  | symbol8 => 0xa3
  | symbol32 => 0xb3
  | list0 => 0x45
  | list8 => 0xc0
  | list32 => 0xd0
  | map8 => 0xc1
  | map32 => 0xd1
  | array8 => 0xe0
  | array32 => 0xf0

/-- Every type code. -/
def all : List TypeCode :=
  [described, null, boolean, booleanTrue, booleanFalse, uint0, ulong0, ubyte, ushort, uint,
    ulong, byte, short, int, long, uintSmall, ulongSmall, intSmall, longSmall, float, double,
    char, timestamp, uuid, binary8, binary32, string8, string32, symbol8, symbol32, list0, list8,
    list32, map8, map32, array8, array32]

/-- `TryFromPrimitive`: the type code of a byte. -/
def ofU8 (b : UInt8) : Option TypeCode := all.find? (fun c => c.toU8 == b)

/-- No two type codes share a byte. -/
theorem ofU8_toU8 (c : TypeCode) : ofU8 c.toU8 = some c := by cases c <;> rfl

end TypeCode

/-! ## 2. Primitive values

Leaves of an AMQP value.  A time is what the calendar of another crate can represent, and that
is a parameter with the range of the real one as an instance. -/

/-- `Float`: the bits of an `OrderedFloat<f32>`. -/
structure AmqpFloat : Type where
  bits : UInt32
  deriving DecidableEq, Repr

def AmqpFloat.isNan (x : AmqpFloat) : Bool := x.bits.toNat % 2 ^ 31 > 0x7f800000

/-- `OrderedFloat::eq`. -/
def AmqpFloat.eq (x y : AmqpFloat) : Bool :=
  if x.isNan then y.isNan
  else x == y || (x.bits.toNat % 2 ^ 31 == 0 && y.bits.toNat % 2 ^ 31 == 0)

/-- `Double`: the bits of an `OrderedFloat<f64>`. -/
structure AmqpDouble : Type where
  bits : UInt64
  deriving DecidableEq, Repr

def AmqpDouble.isNan (x : AmqpDouble) : Bool := x.bits.toNat % 2 ^ 63 > 0x7ff0000000000000

def AmqpDouble.eq (x y : AmqpDouble) : Bool :=
  if x.isNan then y.isNan
  else x == y || (x.bits.toNat % 2 ^ 63 == 0 && y.bits.toNat % 2 ^ 63 == 0)

/-- `Timestamp`, a `DateTime<Utc>`: seconds since the epoch and the nanoseconds behind them (a
leap second has more than `10 ^ 9` of these). -/
structure Timestamp : Type where
  secs : Int
  nanos : ℕ
  deriving DecidableEq, Repr

/-- `DateTime::timestamp_millis`. -/
def Timestamp.timestampMillis (t : Timestamp) : Int64 :=
  Int64.ofInt (t.secs * 1000 + t.nanos / 1000000)

/-- The calendar of the `chrono` crate: which seconds it can represent. -/
class Chrono where
  representable : Int → Bool

/-- The range of `chrono` 0.4: the years from -262143 to 262142. -/
abbrev Chrono.range : Chrono := ⟨fun secs => -8334601228800 ≤ secs ∧ secs ≤ 8210266876799⟩

/-- `Utc.timestamp_millis_opt(millis).single()`. -/
def timestampMillisOpt [Chrono] (millis : Int64) : Option Timestamp :=
  let secs := millis.toInt / 1000
  if Chrono.representable secs then some ⟨secs, (millis.toInt % 1000).toNat * 1000000⟩ else none

/-- `uuid::Uuid`. -/
structure Uuid : Type where
  bytes : Bytes
  length_eq : bytes.length = 16
  deriving DecidableEq

/-- `Uuid::from_slice`. -/
def Uuid.fromSlice (bytes : Bytes) : Option Uuid :=
  if h : bytes.length = 16 then some ⟨bytes, h⟩ else none

/-- `char::from_u32`. -/
def charFromU32 (n : UInt32) : Option Char :=
  if h : n.isValidChar then some ⟨n, h⟩ else none

structure Symbol : Type where
  str : String
  deriving DecidableEq

/-- `SimpleValue`, a primitive AMQP value. -/
inductive SimpleValue : Type where
  | null
  | boolean (value : Bool)
  | ubyte (value : UInt8)
  | ushort (value : UInt16)
  | uint (value : UInt32)
  | ulong (value : UInt64)
  | byte (value : Int8)
  | short (value : Int16)
  | int (value : Int32)
  | long (value : Int64)
  | float (value : AmqpFloat)
  | double (value : AmqpDouble)
  | char (value : Char)
  | timestamp (value : Timestamp)
  | uuid (value : Uuid)
  | binary (value : Bytes)
  | string (value : String)
  | symbol (value : Symbol)
  deriving DecidableEq

/-- `PartialEq for SimpleValue`. -/
def SimpleValue.eq : SimpleValue → SimpleValue → Bool
  | .float x, .float y => x.eq y
  | .double x, .double y => x.eq y
  | x, y => decide (x = y)

inductive Descriptor : Type where
  | ulong (value : UInt64)
  | symbol (value : Symbol)
  deriving DecidableEq

/-! ## 3. Compound values

Lists, maps and described values nest, and the functions on them recurse through items and
entries.  The induction for that is stated once (`Value.induct`), so that proofs about a value
have one case for a list and one for a map and not the recursion of the helpers. -/

/-- `Value`, any AMQP value. -/
inductive Value : Type where
  | simple (value : SimpleValue)
  | list (items : List Value)
  | map (entries : List (Value × Value))
  | described (descriptor : Descriptor) (value : Value)

namespace Value

mutual

/-- `PartialEq for Value`.  Two maps are equal when they have as many entries and every entry
of the one is an entry of the other. -/
def eq : Value → Value → Bool
  | .simple x, .simple y => x.eq y
  | .list xs, .list ys => itemsEq xs ys
  | .map es, .map fs => es.length == fs.length && entriesIn es fs
  | .described d x, .described e y => decide (d = e) && eq x y
  | _, _ => false
termination_by structural v => v

def itemsEq : List Value → List Value → Bool
  | [], [] => true
  | x :: xs, y :: ys => eq x y && itemsEq xs ys
  | _, _ => false
termination_by structural xs => xs

def entriesIn : List (Value × Value) → List (Value × Value) → Bool
  | [], _ => true
  | e :: es, fs => entryIn e fs && entriesIn es fs
termination_by structural es => es

def entryIn : Value × Value → List (Value × Value) → Bool
  | (k, v), fs => fs.any (fun f => eq k f.1 && eq v f.2)
termination_by structural e => e

end

mutual

/-- `Hash for Value` returns: there is no map in the value, whose `hash` is `unimplemented!()`. -/
def hashes : Value → Bool
  | .simple _ => true
  | .list items => itemsHash items
  | .map _ => false
  | .described _ v => hashes v

def itemsHash : List Value → Bool
  | [] => true
  | v :: vs => hashes v && itemsHash vs

end

mutual

def decEq : (v w : Value) → Decidable (v = w)
  | .simple x, .simple y => decidable_of_iff (x = y) (by simp)
  | .list xs, .list ys => have := itemsDecEq xs ys; decidable_of_iff (xs = ys) (by simp)
  | .map es, .map fs => have := entriesDecEq es fs; decidable_of_iff (es = fs) (by simp)
  | .described d x, .described e y =>
    have := decEq x y; decidable_of_iff (d = e ∧ x = y) (by simp)
  | .simple _, .list _ | .simple _, .map _ | .simple _, .described .. => isFalse (by simp)
  | .list _, .simple _ | .list _, .map _ | .list _, .described .. => isFalse (by simp)
  | .map _, .simple _ | .map _, .list _ | .map _, .described .. => isFalse (by simp)
  | .described .., .simple _ | .described .., .list _ | .described .., .map _ =>
    isFalse (by simp)
termination_by structural v => v

def itemsDecEq : (xs ys : List Value) → Decidable (xs = ys)
  | [], [] => isTrue rfl
  | x :: xs, y :: ys =>
    have := decEq x y; have := itemsDecEq xs ys; decidable_of_iff (x = y ∧ xs = ys) (by simp)
  | [], _ :: _ | _ :: _, [] => isFalse (by simp)
termination_by structural xs => xs

def entriesDecEq : (es fs : List (Value × Value)) → Decidable (es = fs)
  | [], [] => isTrue rfl
  | e :: es, f :: fs =>
    have := entryDecEq e f; have := entriesDecEq es fs
    decidable_of_iff (e = f ∧ es = fs) (by simp)
  | [], _ :: _ | _ :: _, [] => isFalse (by simp)
termination_by structural es => es

def entryDecEq : (e f : Value × Value) → Decidable (e = f)
  | (k, v), (l, w) =>
    have := decEq k l; have := decEq v w; decidable_of_iff (k = l ∧ v = w) (by simp)
termination_by structural e => e

end

end Value

/-- `P` passes from the parts of a value to the value. -/
structure Value.Inductive (P : Value → Prop) : Prop where
  simple : ∀ s, P (.simple s)
  list : ∀ items, (∀ v ∈ items, P v) → P (.list items)
  map : ∀ entries, (∀ e ∈ entries, P e.1 ∧ P e.2) → P (.map entries)
  described : ∀ d v, P v → P (.described d v)

section Inductive

variable {P : Value → Prop}

mutual

theorem Value.Inductive.all (h : Value.Inductive P) : ∀ v, P v
  | .simple s => h.simple s
  | .list items => h.list items (h.all_items items)
  | .map entries => h.map entries (h.all_entries entries)
  | .described d v => h.described d v (h.all v)

theorem Value.Inductive.all_items (h : Value.Inductive P) : ∀ items : List Value, ∀ v ∈ items, P v
  | [] => by simp
  | v :: vs => List.forall_mem_cons.mpr ⟨h.all v, h.all_items vs⟩

theorem Value.Inductive.all_entries (h : Value.Inductive P) :
    ∀ entries : List (Value × Value), ∀ e ∈ entries, P e.1 ∧ P e.2
  | [] => by simp
  | e :: es => List.forall_mem_cons.mpr ⟨h.all_entry e, h.all_entries es⟩

theorem Value.Inductive.all_entry (h : Value.Inductive P) : ∀ e : Value × Value, P e.1 ∧ P e.2
  | (k, v) => ⟨h.all k, h.all v⟩

end

/-- **Induction over a value**: the recursion over its items and entries, packaged once. -/
@[elab_as_elim]
theorem Value.induct (simple : ∀ s, P (.simple s))
    (list : ∀ items, (∀ v ∈ items, P v) → P (.list items))
    (map : ∀ entries, (∀ e ∈ entries, P e.1 ∧ P e.2) → P (.map entries))
    (described : ∀ d v, P v → P (.described d v)) (v : Value) : P v :=
  Value.Inductive.all ⟨simple, list, map, described⟩ v

end Inductive

instance : DecidableEq Value := Value.decEq

instance : HashKey Value := ⟨Value.eq, Value.hashes⟩

/-- `List`, the AMQP list. -/
structure AmqpList : Type where
  items : List Value
  deriving DecidableEq

/-- `AnnonationKey`. -/
inductive AnnonationKey : Type where
  | symbol (value : Symbol)
  | ulong (value : UInt64)
  | long (value : Int64)
  deriving DecidableEq

instance : HashKey AnnonationKey := HashKey.derived AnnonationKey

/-- `Annotations`. -/
abbrev Annotations : Type := HashMap AnnonationKey Value

/-- `ApplicationProperties`. -/
abbrev ApplicationProperties : Type := HashMap String SimpleValue

/-! ## 4. Messages -/

inductive MessageId : Type where
  | ulong (id : UInt64)
  | long (id : Int64)
  | uuid (id : Uuid)
  | binary (id : Bytes)
  | string (id : String)
  deriving DecidableEq

/-- `Header`, with the defaults of `Header::default`. -/
structure Header : Type where
  durable : Bool := false
  priority : UInt8 := 4
  ttl : Option UInt32 := none
  firstAcquirer : Bool := false
  deliveryCount : UInt32 := 0
  deriving DecidableEq

structure Properties : Type where
  messageId : Option MessageId := none
  userId : Option Bytes := none
  «to» : Option String := none
  subject : Option String := none
  replyTo : Option String := none
  correlationId : Option MessageId := none
  contentType : Option Symbol := none
  contentEncoding : Option Symbol := none
  absoluteExpiryTime : Option Timestamp := none
  creationTime : Option Timestamp := none
  groupId : Option String := none
  groupSequence : Option UInt32 := none
  replyToGroupId : Option String := none
  deriving DecidableEq

structure MessageBody : Type where
  data : List Bytes := []
  sequence : List AmqpList := []
  value : Option Value := none
  deriving DecidableEq

structure Message : Type where
  header : Option Header := none
  deliveryAnnotations : Option Annotations := none
  messageAnnotations : Option Annotations := none
  properties : Option Properties := none
  applicationProperties : Option ApplicationProperties := none
  footer : Option Annotations := none
  body : MessageBody := {}
  deriving DecidableEq

end RabbitMqStream.Amqp
