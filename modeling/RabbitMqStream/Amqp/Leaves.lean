/-
# Leaves: integers, binaries, strings and symbols

The values everything else is made of, written and read back.  An AMQP integer has up to three
forms (nothing behind the code for a zero, one byte for a small number, the full width), a
binary, a string and a symbol have two (a length of one byte or of four), and each encoder picks
the shortest.  Decoding has to give the value back from every form, in front of anything.

* **Integers.**  `Int::decode` reads the one-byte form as a `u8` where the encoder has written an
  `i8`: the numbers from -128 to -1 come back as 128 to 255 (`int_decode`).  `Long::decode` reads
  an `i8` there, and every other integer comes back as it was (`compactInt_readsBack_iff`).
* **Variable width.**  Binaries, strings and symbols of every length come back, have the size
  that was announced, and are refused when any of their bytes are missing
  (`variableWidth_faithful`).

The leaf decoders do not panic and look at nothing behind what they use (`Plain`); that is all
the compound decoders need to know of them.

**The argument.**  Each encoder has written one of a few forms, and which one it was is a case
distinction on the value with a bound in each case (`uint_form`).  The decoder looks at the code,
and what it makes of the bytes behind it is arithmetic: a number below a power of 256 is read back
from that many bytes.  For a text, the bytes of a string are valid UTF-8 and give the string
again.  A part of a value that lacks its last bytes is refused because a decoder that succeeds on
it would have to succeed on the whole in the same way (`Plain`), and leave something else.
-/
import RabbitMqStream.Amqp.Size
import RabbitMqStream.Amqp.Sections

namespace RabbitMqStream.Amqp

open Wire

/-! ## 1. Leaf decoders return, and look at nothing behind their value

Two properties that the compound decoders need of the leaves and that hold of every leaf for the
same reason: they are put together from reading a code and reading a fixed number of bytes. -/

open Reader (IsLocal Avoids)

instance : NoPanic TypeCode.decode :=
  Avoids.bind inferInstance fun code => by split <;> infer_instance

instance : IsLocal TypeCode.decode :=
  IsLocal.bind inferInstance fun code => by split <;> infer_instance

instance {α : Type} (t : Target) (c : TypeCode) : NoPanic (invalidTypeCode t c : AmqpReader α) :=
  inferInstanceAs (NoPanic (throw _))

instance {α : Type} (t : Target) (c : TypeCode) : IsLocal (invalidTypeCode t c : AmqpReader α) :=
  inferInstanceAs (IsLocal (throw _))

instance {α : Type} (msg : ParseMessage) : NoPanic (messageParse msg : AmqpReader α) :=
  inferInstanceAs (NoPanic (throw _))

instance {α : Type} (msg : ParseMessage) : IsLocal (messageParse msg : AmqpReader α) :=
  inferInstanceAs (IsLocal (throw _))

instance (n : ℕ) : NoPanic (readText n) :=
  Avoids.bind inferInstance fun bs => by split <;> infer_instance

instance (n : ℕ) : IsLocal (readText n) :=
  IsLocal.bind inferInstance fun bs => by split <;> infer_instance

/-- A type whose decoder returns on every input, and whose result depends on the bytes it uses
only. -/
class Plain (α : Type) [AmqpDecoder α] : Prop where
  noPanic : NoPanic (decode : AmqpReader α)
  isLocal : IsLocal (decode : AmqpReader α)

theorem afterCode_plain {α : Type} {f : TypeCode → AmqpReader α}
    (h : ∀ c, NoPanic (f c) ∧ IsLocal (f c)) :
    NoPanic (TypeCode.decode >>= f) ∧ IsLocal (TypeCode.decode >>= f) :=
  ⟨Avoids.bind inferInstance fun c => (h c).1, IsLocal.bind inferInstance fun c => (h c).2⟩

theorem Plain.of_and {α : Type} [AmqpDecoder α]
    (h : NoPanic (decode : AmqpReader α) ∧ IsLocal (decode : AmqpReader α)) : Plain α :=
  ⟨h.1, h.2⟩

theorem typeCode_eq_ok {b rest : Bytes} {c : TypeCode} (h : TypeCode.decode b = .ok (c, rest)) :
    b = c.toU8 :: rest := by
  obtain ⟨code, mid, hread, hcode⟩ := Reader.bind_eq_ok.mp h
  rw [readU8_eq_ok hread]
  cases hc : TypeCode.ofU8 code with
  | none => simp [hc] at hcode
  | some c' =>
    simp only [hc, Reader.pure_apply, Except.ok.injEq, Prod.mk.injEq] at hcode
    obtain ⟨rfl, rfl⟩ := hcode
    have hbyte : c'.toU8 = code := by simpa using List.find?_some hc
    rw [hbyte]

theorem afterCode_eq_ok {α : Type} {f : TypeCode → AmqpReader α} {b rest : Bytes} {x : α}
    (h : (TypeCode.decode >>= f) b = .ok (x, rest)) :
    ∃ c tail, b = c.toU8 :: tail ∧ f c tail = .ok (x, rest) := by
  obtain ⟨c, tail, hcode, hf⟩ := Reader.bind_eq_ok.mp h
  exact ⟨c, tail, typeCode_eq_ok hcode, hf⟩

theorem afterLookahead_eq_ok {α : Type} {f : TypeCode → AmqpReader α} {b rest : Bytes} {x : α}
    (h : (Reader.lookahead TypeCode.decode >>= f) b = .ok (x, rest)) :
    ∃ c tail, b = c.toU8 :: tail ∧ f c b = .ok (x, rest) := by
  obtain ⟨c, mid, hlook, hf⟩ := Reader.bind_eq_ok.mp h
  obtain ⟨rfl, tail, hcode⟩ := Reader.lookahead_eq_ok hlook
  exact ⟨c, tail, typeCode_eq_ok hcode, hf⟩

theorem afterCode_length {b rest : Bytes} {c : TypeCode} (h : TypeCode.decode b = .ok (c, rest)) :
    b.length ≤ rest.length + 1 := by
  rw [typeCode_eq_ok h, List.length_cons]

/-- Looking at the code first does no harm in front of a decoder that reads it again. -/
theorem afterLookahead_plain {α : Type} {f : TypeCode → AmqpReader α}
    (h : ∀ c, NoPanic (f c) ∧ IsLocal (f c) ∧ (f c).Consumes 1) :
    NoPanic (Reader.lookahead TypeCode.decode >>= f) ∧
      IsLocal (Reader.lookahead TypeCode.decode >>= f) :=
  ⟨Avoids.bind inferInstance fun c => (h c).1,
    ⟨Reader.Local.afterLookahead IsLocal.isLocal (fun _ _ _ => afterCode_length)
      (fun c => (h c).2.1.isLocal) fun c => (h c).2.2⟩⟩

instance : Plain UInt8 := .of_and (afterCode_plain fun c => by
  split <;> exact ⟨inferInstance, inferInstance⟩)
instance : Plain UInt16 := .of_and (afterCode_plain fun c => by
  split <;> exact ⟨inferInstance, inferInstance⟩)
instance : Plain UInt32 := .of_and (afterCode_plain fun c => by
  split <;> exact ⟨inferInstance, inferInstance⟩)
instance : Plain UInt64 := .of_and (afterCode_plain fun c => by
  split <;> exact ⟨inferInstance, inferInstance⟩)
instance : Plain Int8 := .of_and (afterCode_plain fun c => by
  split <;> exact ⟨inferInstance, inferInstance⟩)
instance : Plain Int16 := .of_and (afterCode_plain fun c => by
  split <;> exact ⟨inferInstance, inferInstance⟩)
instance : Plain Int32 := .of_and (afterCode_plain fun c => by
  split <;> exact ⟨inferInstance, inferInstance⟩)
instance : Plain Int64 := .of_and (afterCode_plain fun c => by
  split <;> exact ⟨inferInstance, inferInstance⟩)
instance : Plain AmqpFloat := .of_and (afterCode_plain fun c => by
  split <;> exact ⟨inferInstance, inferInstance⟩)
instance : Plain AmqpDouble := .of_and (afterCode_plain fun c => by
  split <;> exact ⟨inferInstance, inferInstance⟩)
instance : Plain Bool := .of_and (afterCode_plain fun c => by
  split <;> exact ⟨inferInstance, inferInstance⟩)
instance : Plain Bytes := .of_and (afterCode_plain fun c => by
  split <;> exact ⟨inferInstance, inferInstance⟩)
instance : Plain String := .of_and (afterCode_plain fun c => by
  split <;> exact ⟨inferInstance, inferInstance⟩)
instance : Plain Symbol := .of_and (afterCode_plain fun c => by
  split <;> exact ⟨inferInstance, inferInstance⟩)

instance : Plain Char := .of_and (afterCode_plain fun c => by
  split
  · exact ⟨Avoids.bind inferInstance fun n => by split <;> infer_instance,
      IsLocal.bind inferInstance fun n => by split <;> infer_instance⟩
  · exact ⟨inferInstance, inferInstance⟩)

instance : Plain Uuid := .of_and (afterCode_plain fun c => by
  split
  · exact ⟨Avoids.bind inferInstance fun bs => by split <;> infer_instance,
      IsLocal.bind inferInstance fun bs => by split <;> infer_instance⟩
  · exact ⟨inferInstance, inferInstance⟩)

instance [Chrono] : Plain Timestamp := .of_and (afterCode_plain fun c => by
  split
  · exact ⟨Avoids.bind inferInstance fun n => by split <;> infer_instance,
      IsLocal.bind inferInstance fun n => by split <;> infer_instance⟩
  · exact ⟨inferInstance, inferInstance⟩)

section DecodeAs

variable {α β : Type} [AmqpDecoder α] [hp : Plain α]

instance (f : α → β) : NoPanic (decodeAs f) := hp.noPanic.bind fun _ => inferInstance

instance (f : α → β) : IsLocal (decodeAs f) := hp.isLocal.bind fun _ => inferInstance

theorem decodeAs_plain [Progress α] (f : α → β) :
    NoPanic (decodeAs f) ∧ IsLocal (decodeAs f) ∧ (decodeAs f).Consumes 1 :=
  ⟨inferInstance, inferInstance, decodeAs_consumes f⟩

end DecodeAs

theorem dropCode_plain {α : Type} (x : α) :
    NoPanic (do let _ ← TypeCode.decode; pure x : AmqpReader α) ∧
      IsLocal (do let _ ← TypeCode.decode; pure x : AmqpReader α) ∧
      (do let _ ← TypeCode.decode; pure x : AmqpReader α).Consumes 1 :=
  ⟨inferInstance, inferInstance, dropCode_consumes x⟩

theorem invalidTypeCode_plain {α : Type} (t : Target) (c : TypeCode) :
    NoPanic (invalidTypeCode t c : AmqpReader α) ∧ IsLocal (invalidTypeCode t c : AmqpReader α) ∧
      (invalidTypeCode t c : AmqpReader α).Consumes 1 :=
  ⟨inferInstance, inferInstance, Reader.consumes_throw 1 _⟩

instance {α : Type} [AmqpDecoder α] [Progress α] [Plain α] : Plain (Option α) :=
  .of_and (afterLookahead_plain fun c => by
    split
    · exact dropCode_plain _
    · exact decodeAs_plain _)

instance : Plain MessageId := .of_and (afterLookahead_plain fun c => by
  cases c <;> first | exact decodeAs_plain _ | exact invalidTypeCode_plain _ _)

instance : Plain AnnonationKey := .of_and (afterLookahead_plain fun c => by
  cases c <;> first | exact decodeAs_plain _ | exact invalidTypeCode_plain _ _)

theorem descriptor_plain : NoPanic Descriptor.decode ∧ IsLocal Descriptor.decode := by
  refine afterCode_plain fun c => ?_
  split
  · refine afterLookahead_plain fun c => ?_
    cases c <;> first
      | exact decodeAs_plain _
      | exact dropCode_plain _
      | exact invalidTypeCode_plain _ _
  · exact ⟨inferInstance, inferInstance⟩

instance : NoPanic Descriptor.decode := descriptor_plain.1

instance : IsLocal Descriptor.decode := descriptor_plain.2

instance [Chrono] : Plain SimpleValue := .of_and (afterLookahead_plain fun c => by
  cases c <;> first
    | exact decodeAs_plain _
    | exact dropCode_plain _
    | exact invalidTypeCode_plain _ _)

theorem decodeAs_eq_ok {α β : Type} [AmqpDecoder α] {f : α → β} {b rest : Bytes} {y : β}
    (h : decodeAs f b = .ok (y, rest)) : ∃ x, y = f x ∧ decode b = .ok (x, rest) := by
  obtain ⟨x, mid, hx, hpure⟩ := Reader.bind_eq_ok.mp h
  simp only [Reader.pure_apply, Except.ok.injEq, Prod.mk.injEq] at hpure
  obtain ⟨rfl, rfl⟩ := hpure
  exact ⟨x, rfl, hx⟩

/-- An optional value is the byte of `Null`, or the value. -/
theorem option_eq_ok {α : Type} [AmqpDecoder α] {o : Option α} {b rest : Bytes}
    (h : decode b = .ok (o, rest)) :
    (o = none ∧ b = 0x40 :: rest) ∨ ∃ x, o = some x ∧ decode b = .ok (x, rest) := by
  obtain ⟨c, tail, hb, hc⟩ := afterLookahead_eq_ok h
  split at hc
  · obtain ⟨c', tail', hb', hpure⟩ := afterCode_eq_ok hc
    simp only [Reader.pure_apply, Except.ok.injEq, Prod.mk.injEq] at hpure
    obtain ⟨rfl, rfl⟩ := hpure
    have hcode : c'.toU8 = TypeCode.null.toU8 := by
      rw [hb] at hb'
      exact (List.cons.inj hb').1.symm
    exact Or.inl ⟨rfl, by rw [hb', hcode]; rfl⟩
  · obtain ⟨x, rfl, hx⟩ := decodeAs_eq_ok hc
    exact Or.inr ⟨x, rfl, hx⟩

/-! ## 2. Integers

The forms of an integer are told apart by their codes.  For each form the decoder is run on what
the encoder has written, and what comes out is compared with what went in. -/

/-- A decoder that starts with a type code, on an encoding that does. -/
theorem afterCode_encode {α : Type} (f : TypeCode → AmqpReader α) (c : TypeCode) (b : Bytes) :
    (TypeCode.decode >>= f) (encode c ++ b) = f c b :=
  Reader.bind_of_ok (typeCode_decode c b)

/-- A decoder that looks at the type code first, on an encoding that starts with one. -/
theorem afterLookahead_encode {α : Type} {f : TypeCode → AmqpReader α} {c : TypeCode}
    {enc tail : Bytes} (he : enc = encode c ++ tail) (rest : Bytes) :
    (Reader.lookahead TypeCode.decode >>= f) (enc ++ rest) = f c (enc ++ rest) := by
  rw [he, List.append_assoc]
  exact Reader.bind_of_ok (Reader.lookahead_of_ok (typeCode_decode c (tail ++ rest)))

/-- The forms of an unsigned integer. -/
theorem uint_form (n : UInt32) :
    (n = 0 ∧ encode n = encode TypeCode.uint0 ++ []) ∨
      (n.toNat < 256 ∧ encode n = encode TypeCode.uintSmall ++ toBE 1 n.toNat) ∨
      encode n = encode TypeCode.uint ++ toBE 4 n.toNat := by
  simp only [AmqpEncoder.encode]
  by_cases h0 : n = 0
  · exact Or.inl ⟨h0, if_pos h0⟩
  · rw [if_neg h0]
    by_cases hw : n > 255
    · rw [if_pos hw]
      exact Or.inr (Or.inr rfl)
    · rw [if_neg hw]
      simp only [gt_iff_lt, UInt32.lt_iff_toNat_lt, UInt32.reduceToNat, not_lt] at hw
      exact Or.inr (Or.inl ⟨by omega, rfl⟩)

theorem uint_roundTrips (n : UInt32) : RoundTrips n := by
  intro rest
  change (TypeCode.decode >>= _) (_ ++ rest) = _
  rcases uint_form n with ⟨rfl, h⟩ | ⟨hlt, h⟩ | h
  · rw [h, List.append_assoc, afterCode_encode]
    rfl
  · rw [h, List.append_assoc, afterCode_encode]
    have hread : (readU8 : AmqpReader UInt8) _ = _ := readU8_append (UInt8.ofNat n.toNat) rest
    rw [UInt8.toNat_ofNat', Nat.mod_eq_of_lt hlt] at hread
    refine (Reader.bind_of_ok hread).trans ?_
    have hback : (UInt8.ofNat n.toNat).toUInt32 = n := by
      apply UInt32.toNat_inj.mp
      rw [UInt8.toNat_toUInt32, UInt8.toNat_ofNat', Nat.mod_eq_of_lt hlt]
    rw [hback, Reader.pure_apply]
  · rw [h, List.append_assoc, afterCode_encode]
    exact readU32_append n rest

/-- What `Int::decode` gives for an `i32`: the one-byte form of a negative number is read as if
it were the byte of a number from 128 to 255. -/
def intReadBack (n : Int32) : Int32 := if -128 ≤ n ∧ n < 0 then n + 256 else n

/-- The byte of an `i8`, read as a `u8`. -/
theorem toUInt8_toNat (x : Int8) :
    (x.toUInt8.toNat : ℤ) = if x.toInt < 0 then x.toInt + 256 else x.toInt := by
  have hlt := x.toUInt8.toNat_lt
  have h : x.toInt = (x.toUInt8.toNat : ℤ).bmod 256 := BitVec.toInt_eq_toNat_bmod x.toBitVec
  simp only [Int.bmod] at h
  split <;> omega

theorem int_small_iff (n : Int32) :
    ¬ (n > 127 ∨ n < -128) ↔ -128 ≤ n.toInt ∧ n.toInt ≤ 127 := by
  have h127 : (127 : Int32).toInt = 127 := by decide
  have h128 : (-128 : Int32).toInt = -128 := by decide
  rw [gt_iff_lt, Int32.lt_iff_toInt_lt, Int32.lt_iff_toInt_lt, h127, h128]
  omega

theorem int_negative_iff (n : Int32) : (-128 ≤ n ∧ n < 0) ↔ -128 ≤ n.toInt ∧ n.toInt < 0 := by
  have h128 : (-128 : Int32).toInt = -128 := by decide
  have h0 : (0 : Int32).toInt = 0 := by decide
  rw [Int32.le_iff_toInt_le, Int32.lt_iff_toInt_lt, h128, h0]

/-- The one-byte form, written as an `i8` and read as a `u8`. -/
theorem int_small_readBack {n : Int32} (h : ¬ (n > 127 ∨ n < -128)) :
    Int32.ofInt n.toInt8.toUInt8.toNat = intReadBack n := by
  obtain ⟨hlo, hhi⟩ := (int_small_iff n).mp h
  have hbyte := toUInt8_toNat n.toInt8
  have hmod : n.toInt.bmod (2 ^ 8) = n.toInt := by rw [Int.bmod]; split <;> omega
  rw [Int32.toInt_toInt8, hmod] at hbyte
  apply Int32.toInt_inj.mp
  rw [Int32.toInt_ofInt_of_le (by omega) (by split at hbyte <;> omega), hbyte, intReadBack]
  by_cases hneg : n.toInt < 0
  · have h256 : (256 : Int32).toInt = 256 := by decide
    rw [if_pos hneg, if_pos ((int_negative_iff n).mpr ⟨hlo, hneg⟩), Int32.toInt_add, h256,
      Int.bmod]
    split <;> omega
  · rw [if_neg hneg, if_neg (fun hn => hneg ((int_negative_iff n).mp hn).2)]

theorem int_decode (n : Int32) (rest : Bytes) :
    decode (encode n ++ rest) = .ok (intReadBack n, rest) := by
  change (TypeCode.decode >>= _) (_ ++ rest) = _
  by_cases hw : n > 127 ∨ n < -128
  · have he : encode n = encode TypeCode.int ++ toBE 4 n.toUInt32.toNat := if_pos hw
    have hback : intReadBack n = n := by
      refine if_neg fun hneg => ?_
      have hlo := (int_negative_iff n).mp hneg
      exact (int_small_iff n).mpr (by omega) hw
    rw [he, List.append_assoc, afterCode_encode, hback]
    exact readI32_append n rest
  · have he : encode n = encode TypeCode.intSmall ++ toBE 1 n.toInt8.toUInt8.toNat := if_neg hw
    rw [he, List.append_assoc, afterCode_encode]
    refine (Reader.bind_of_ok (readU8_append n.toInt8.toUInt8 rest)).trans ?_
    rw [int_small_readBack hw, Reader.pure_apply]

theorem readBack_eq_iff (n : Int32) : intReadBack n = n ↔ ¬ (-128 ≤ n ∧ n < 0) := by
  unfold intReadBack
  split
  · rename_i hneg
    have hrange := (int_negative_iff n).mp hneg
    have h256 : (256 : Int32).toInt = 256 := by decide
    refine ⟨fun h => ?_, fun h => absurd hneg h⟩
    have hsum := congrArg Int32.toInt h
    rw [Int32.toInt_add, h256, Int.bmod] at hsum
    split at hsum <;> omega
  · rename_i hneg
    exact ⟨fun _ => hneg, fun _ => rfl⟩

theorem long_roundTrips (n : Int64) : RoundTrips n := by
  intro rest
  change (TypeCode.decode >>= _) (_ ++ rest) = _
  by_cases hw : Long.isWide n
  · have he : encode n = encode TypeCode.long ++ toBE 8 n.toUInt64.toNat := if_pos hw
    rw [he, List.append_assoc, afterCode_encode]
    exact readI64_append n rest
  · have he : encode n = encode TypeCode.longSmall ++ toBE 1 n.toInt8.toUInt8.toNat := if_neg hw
    rw [he, List.append_assoc, afterCode_encode]
    refine (Reader.bind_of_ok (readI8_append n.toInt8 rest)).trans ?_
    have hback : n.toInt8.toInt64 = n := by
      have h127 : (127 : Int64).toInt = 127 := by decide
      have h128 : (-128 : Int64).toInt = -128 := by decide
      rw [Long.isWide, gt_iff_lt, Int64.lt_iff_toInt_lt, Int64.lt_iff_toInt_lt, h127, h128] at hw
      apply Int64.toInt_inj.mp
      rw [Int8.toInt_toInt64, Int64.toInt_toInt8, Int.bmod]
      split <;> omega
    rw [hback, Reader.pure_apply]

theorem decodeAs_of_ok {α β : Type} [AmqpDecoder α] {b rest : Bytes} {x : α}
    (h : decode b = .ok (x, rest)) (f : α → β) : decodeAs f b = .ok (f x, rest) := by
  rw [decodeAs, Reader.bind_of_ok h, Reader.pure_apply]

/-- An integer of one of the four types that have a compact form. -/
inductive CompactInt : Type where
  | uint (n : UInt32)
  | ulong (n : UInt64)
  | int (n : Int32)
  | long (n : Int64)
  deriving DecidableEq

section Chrono

variable [Chrono]

/-! `SimpleValue::decode` looks at the code and hands the integer to the decoder of its type. -/

theorem simple_uint_roundTrips (n : UInt32) : RoundTrips (SimpleValue.uint n) := by
  intro rest
  have h := decodeAs_of_ok (uint_roundTrips n rest) SimpleValue.uint
  rcases uint_form n with ⟨-, he⟩ | ⟨-, he⟩ | he
  · exact (afterLookahead_encode he rest).trans h
  · exact (afterLookahead_encode he rest).trans h
  · exact (afterLookahead_encode he rest).trans h

theorem simple_ulong_roundTrips (n : UInt64) : RoundTrips (SimpleValue.ulong n) := by
  intro rest
  have h := decodeAs_of_ok (ulong_roundTrips n rest) SimpleValue.ulong
  obtain ⟨code, tail, he, hcode⟩ := ulong_code n
  refine (afterLookahead_encode he rest).trans ?_
  rcases hcode with rfl | rfl | ⟨rfl, -, -⟩ <;> exact h

theorem simple_int_decode (n : Int32) (rest : Bytes) :
    decode (encode (SimpleValue.int n) ++ rest) = .ok (SimpleValue.int (intReadBack n), rest) := by
  have h := decodeAs_of_ok (int_decode n rest) SimpleValue.int
  by_cases hw : n > 127 ∨ n < -128
  · have he : encode n = encode TypeCode.int ++ toBE 4 n.toUInt32.toNat := if_pos hw
    exact (afterLookahead_encode he rest).trans h
  · have he : encode n = encode TypeCode.intSmall ++ toBE 1 n.toInt8.toUInt8.toNat := if_neg hw
    exact (afterLookahead_encode he rest).trans h

theorem simple_long_roundTrips (n : Int64) : RoundTrips (SimpleValue.long n) := by
  intro rest
  have h := decodeAs_of_ok (long_roundTrips n rest) SimpleValue.long
  by_cases hw : Long.isWide n
  · have he : encode n = encode TypeCode.long ++ toBE 8 n.toUInt64.toNat := if_pos hw
    exact (afterLookahead_encode he rest).trans h
  · have he : encode n = encode TypeCode.longSmall ++ toBE 1 n.toInt8.toUInt8.toNat := if_neg hw
    exact (afterLookahead_encode he rest).trans h

/-- The integer comes back from its own decoder, and from `SimpleValue::decode` under its own
constructor. -/
def CompactInt.ReadsBack : CompactInt → Prop
  | .uint n => RoundTrips n ∧ RoundTrips (SimpleValue.uint n)
  | .ulong n => RoundTrips n ∧ RoundTrips (SimpleValue.ulong n)
  | .int n => RoundTrips n ∧ RoundTrips (SimpleValue.int n)
  | .long n => RoundTrips n ∧ RoundTrips (SimpleValue.long n)

/-- **Every compact integer comes back, but for the `i32` from -128 to -1.**

By cases on the type.  Three of them come back by the same argument, and for the `Int` it is
computed what comes back (`int_decode`). -/
theorem compactInt_readsBack_iff (x : CompactInt) :
    x.ReadsBack ↔ ∀ n, x = .int n → ¬ (-128 ≤ n ∧ n < 0) := by
  cases x with
  | uint n => simp [CompactInt.ReadsBack, uint_roundTrips, simple_uint_roundTrips]
  | ulong n => simp [CompactInt.ReadsBack, ulong_roundTrips, simple_ulong_roundTrips]
  | long n => simp [CompactInt.ReadsBack, long_roundTrips, simple_long_roundTrips]
  | int n =>
    simp only [CompactInt.int.injEq, forall_eq']
    rw [← readBack_eq_iff]
    constructor
    · rintro ⟨h, -⟩
      have h0 := h []
      rw [int_decode] at h0
      simpa using h0
    · intro h
      refine ⟨fun rest => ?_, fun rest => ?_⟩
      · rw [int_decode, h]
      · rw [simple_int_decode, h]

end Chrono

/-- The `i32` -1 comes back as 255. -/
theorem int_minus_one_readsBack :
    decode (encode (-1 : Int32)) = .ok ((255 : Int32), []) ∧
      ¬ @CompactInt.ReadsBack Chrono.range (.int (-1)) := by
  refine ⟨rfl, fun h => ?_⟩
  have h1 : decode (encode (-1 : Int32) ++ []) = .ok ((-1 : Int32), []) := h.1 []
  exact absurd h1 (by decide)

/-! ## 3. Binaries, strings and symbols

A content behind a length of one byte or four.  Which of the two it was is read off the code,
and the length says how many bytes to take. -/

/-- A length of one byte, read back. -/
theorem readU8_length {n : ℕ} (h : n < 256) (rest : Bytes) : ∃ len : UInt8, len.toNat = n ∧
    (readU8 : AmqpReader UInt8) (toBE 1 n ++ rest) = .ok (len, rest) := by
  have hlen : (UInt8.ofNat n).toNat = n := by rw [UInt8.toNat_ofNat', Nat.mod_eq_of_lt h]
  refine ⟨UInt8.ofNat n, hlen, ?_⟩
  have hread := readU8_append (ε := AmqpDecodeError) (UInt8.ofNat n) rest
  rwa [hlen] at hread

/-- A length of four bytes, read back. -/
theorem readU32_length {n : ℕ} (h : n < 2 ^ 32) (rest : Bytes) : ∃ len : UInt32, len.toNat = n ∧
    (readU32 : AmqpReader UInt32) (toBE 4 n ++ rest) = .ok (len, rest) := by
  have hlen : (UInt32.ofNat n).toNat = n := by rw [UInt32.toNat_ofNat', Nat.mod_eq_of_lt h]
  refine ⟨UInt32.ofNat n, hlen, ?_⟩
  have hread := readU32_append (ε := AmqpDecodeError) (UInt32.ofNat n) rest
  rwa [hlen] at hread

/-- A content behind its length, in the form its length asks for. -/
def withLength (code8 code32 : TypeCode) (content : Bytes) : Bytes :=
  (if content.length > 255 then encode code32 ++ toBE 4 content.length
    else encode code8 ++ toBE 1 content.length) ++ content

/-- The decoders of the three types: a length, then as many bytes. -/
def afterLength {α : Type} (code8 code32 : TypeCode) (g : ℕ → AmqpReader α)
    (f : TypeCode → AmqpReader α) : Prop :=
  f code8 = (do let len ← readU8; g len.toNat) ∧ f code32 = (do let len ← readU32; g len.toNat)

/-- A content behind its length reads back, when the bytes of the content do. -/
theorem decode_withLength {α : Type} {code8 code32 : TypeCode} {g : ℕ → AmqpReader α}
    {f : TypeCode → AmqpReader α} (hf : afterLength code8 code32 g f) {bs : Bytes} {x : α}
    (hlt : bs.length < 2 ^ 32) (hread : ∀ rest, g bs.length (bs ++ rest) = .ok (x, rest))
    (rest : Bytes) :
    (TypeCode.decode >>= f) (withLength code8 code32 bs ++ rest) = .ok (x, rest) := by
  unfold withLength
  split
  · obtain ⟨len, hlen, hlength⟩ := readU32_length hlt (bs ++ rest)
    rw [List.append_assoc, List.append_assoc, afterCode_encode, hf.2, Reader.bind_of_ok hlength,
      hlen]
    exact hread rest
  · obtain ⟨len, hlen, hlength⟩ := readU8_length (n := bs.length) (by omega) (bs ++ rest)
    rw [List.append_assoc, List.append_assoc, afterCode_encode, hf.1, Reader.bind_of_ok hlength,
      hlen]
    exact hread rest

theorem withLength_length_lt {code8 code32 : TypeCode} {bs : Bytes} {n : ℕ}
    (h : (withLength code8 code32 bs).length < n) : bs.length < n := by
  rw [withLength, List.length_append] at h
  omega

/-- Below `2 ^ 32` the cast in `Binary::encode` changes nothing. -/
theorem encode_binary {bs : Bytes} (h : bs.length < 2 ^ 32) :
    encode bs = withLength .binary8 .binary32 bs := by
  have hlen : (UInt32.ofNat bs.length).toNat = bs.length := by
    rw [UInt32.toNat_ofNat']; omega
  have hcmp : UInt32.ofNat bs.length > 255 ↔ bs.length > 255 := by
    rw [gt_iff_lt, UInt32.lt_iff_toNat_lt, hlen]
    rfl
  simp only [AmqpEncoder.encode, withLength, hlen, hcmp]

theorem binary_roundTrips {bs : Bytes} (h : (encode bs).length < 2 ^ 32) : RoundTrips bs := by
  simp only [AmqpEncoder.encode, List.length_append] at h
  intro rest
  rw [encode_binary (by omega)]
  exact decode_withLength ⟨rfl, rfl⟩ (by omega) (readExact_append rfl) rest

theorem readText_append (s : String) (rest : Bytes) :
    readText (asBytes s).length (asBytes s ++ rest) = .ok (s, rest) := by
  rw [readText, Reader.bind_of_ok (readExact_append rfl rest)]
  simp only [fromUtf8_asBytes, Reader.pure_apply]

theorem string_roundTrips {s : String} (h : (encode s).length < 2 ^ 32) : RoundTrips s :=
  decode_withLength ⟨rfl, rfl⟩ (withLength_length_lt h) (readText_append s)

theorem symbol_roundTrips {s : Symbol} (h : (encode s).length < 2 ^ 32) : RoundTrips s := by
  refine decode_withLength (g := fun n => do let str ← readText n; pure ⟨str⟩) ⟨rfl, rfl⟩
    (withLength_length_lt h) fun rest => ?_
  rw [Reader.bind_of_ok (readText_append s.str rest), Reader.pure_apply]

/-- One of two forms in front of a content starts with the code of one of them. -/
theorem form_code (c : Prop) [Decidable c] (code32 code8 : TypeCode) (x y content : Bytes) :
    (if c then encode code32 ++ x else encode code8 ++ y) ++ content =
      encode (if c then code32 else code8) ++ ((if c then x else y) ++ content) := by
  split <;> simp

/-- A type whose encodings start with a type code that is not `Null`. -/
class Coded (α : Type) [AmqpEncoder α] : Prop where
  code : ∀ x : α, ∃ (c : TypeCode) (tail : Bytes), encode x = encode c ++ tail ∧ c ≠ .null

instance : Coded Bool := ⟨fun b => by cases b <;> exact ⟨_, [], rfl, by decide⟩⟩

instance : Coded UInt8 := ⟨fun _ => ⟨.ubyte, _, rfl, by decide⟩⟩

instance : Coded UInt32 := ⟨fun n => by
  rcases uint_form n with ⟨-, h⟩ | ⟨-, h⟩ | h <;> exact ⟨_, _, h, by decide⟩⟩

instance : Coded UInt64 := ⟨fun n => by
  obtain ⟨c, tail, h, hc⟩ := ulong_code n
  exact ⟨c, tail, h, by rcases hc with rfl | rfl | ⟨rfl, -, -⟩ <;> decide⟩⟩

instance : Coded Int64 := ⟨fun n => by
  by_cases hw : Long.isWide n
  · exact ⟨.long, _, if_pos hw, by decide⟩
  · exact ⟨.longSmall, _, if_neg hw, by decide⟩⟩

instance : Coded Uuid := ⟨fun _ => ⟨.uuid, _, rfl, by decide⟩⟩

instance : Coded Timestamp := ⟨fun _ => ⟨.timestamp, _, rfl, by decide⟩⟩

instance : Coded Bytes :=
  ⟨fun _ => ⟨_, _, form_code _ .binary32 .binary8 _ _ _, by split <;> decide⟩⟩

instance : Coded String :=
  ⟨fun _ => ⟨_, _, form_code _ .string32 .string8 _ _ _, by split <;> decide⟩⟩

instance : Coded Symbol :=
  ⟨fun _ => ⟨_, _, form_code _ .symbol32 .symbol8 _ _ _, by split <;> decide⟩⟩

instance : Coded MessageId := ⟨fun id => by
  cases id with
  | ulong id => exact Coded.code id
  | long id => exact Coded.code id
  | uuid id => exact Coded.code id
  | binary id => exact Coded.code id
  | string id => exact Coded.code id⟩

/-- An optional field that is there comes back when its content does: the code in front of it is
not the one of a missing field. -/
theorem RoundTrips.some {α : Type} [AmqpEncoder α] [AmqpDecoder α] [Coded α] {x : α}
    (h : RoundTrips x) : RoundTrips (Option.some x) := by
  intro rest
  obtain ⟨c, tail, he, hc⟩ := Coded.code x
  refine (afterLookahead_encode he rest).trans ?_
  split
  · exact absurd rfl hc
  · exact decodeAs_of_ok (h rest) Option.some

theorem roundTrips_none {α : Type} [AmqpEncoder α] [AmqpDecoder α] :
    RoundTrips (none : Option α) := by
  intro rest
  have he : encode (none : Option α) = encode TypeCode.null ++ [] := rfl
  exact (afterLookahead_encode he rest).trans
    (Reader.bind_of_ok (typeCode_decode .null rest))

theorem option_roundTrips {α : Type} [AmqpEncoder α] [AmqpDecoder α] [Coded α] {o : Option α}
    (h : ∀ x ∈ o, RoundTrips x) : RoundTrips o := by
  cases o with
  | none => exact roundTrips_none
  | some x => exact (h x rfl).some

theorem option_length_pos {α : Type} [AmqpEncoder α] [Coded α] (o : Option α) :
    1 ≤ (encode o).length := by
  cases o with
  | none => exact Nat.le_refl 1
  | some x =>
    obtain ⟨c, tail, he, -⟩ := Coded.code x
    change 1 ≤ (encode x).length
    rw [he]
    simp

/-- A simple value starts with its type code, which is not the one of a compound value. -/
theorem simple_code (s : SimpleValue) : ∃ (c : TypeCode) (tail : Bytes),
    encode s = encode c ++ tail ∧ c ∉ [TypeCode.described, .list0, .list8, .list32, .map8, .map32,
      .array8, .array32] := by
  cases s with
  | null => exact ⟨.null, [], rfl, by decide⟩
  | boolean b => cases b <;> exact ⟨_, [], rfl, by decide⟩
  | uint n => rcases uint_form n with ⟨-, h⟩ | ⟨-, h⟩ | h <;> exact ⟨_, _, h, by decide⟩
  | ulong n =>
    obtain ⟨c, tail, h, hc⟩ := ulong_code n
    exact ⟨c, tail, h, by rcases hc with rfl | rfl | ⟨rfl, -, -⟩ <;> decide⟩
  | int n =>
    by_cases hw : n > 127 ∨ n < -128
    · exact ⟨.int, _, if_pos hw, by decide⟩
    · exact ⟨.intSmall, _, if_neg hw, by decide⟩
  | long n =>
    by_cases hw : Long.isWide n
    · exact ⟨.long, _, if_pos hw, by decide⟩
    · exact ⟨.longSmall, _, if_neg hw, by decide⟩
  | binary bs => exact ⟨_, _, form_code _ .binary32 .binary8 _ _ _, by split <;> decide⟩
  | string s => exact ⟨_, _, form_code _ .string32 .string8 _ _ _, by split <;> decide⟩
  | symbol s => exact ⟨_, _, form_code _ .symbol32 .symbol8 _ _ _, by split <;> decide⟩
  | _ => exact ⟨_, _, rfl, by decide⟩

theorem simple_binary_roundTrips [Chrono] {bs : Bytes} (h : (encode bs).length < 2 ^ 32) :
    RoundTrips (SimpleValue.binary bs) := by
  intro rest
  have hread := decodeAs_of_ok (binary_roundTrips h rest) SimpleValue.binary
  have he : encode bs = _ := form_code (UInt32.ofNat bs.length > 255) .binary32 .binary8
    (toBE 4 (UInt32.ofNat bs.length).toNat) (toBE 1 (UInt32.ofNat bs.length).toNat) bs
  refine (afterLookahead_encode he rest).trans ?_
  by_cases hw : UInt32.ofNat bs.length > 255
  · simp only [hw, if_true]
    exact hread
  · simp only [hw, if_false]
    exact hread

/-- A value that comes back whole, has the size that was announced, and is refused when any of
its bytes are missing. -/
structure Faithful {α : Type} [AmqpEncoder α] [AmqpDecoder α] (x : α) : Prop where
  roundTrips : RoundTrips x
  exact : Exact x
  truncated : ∀ k < (encode x).length, ∃ e, decode ((encode x).take k) =
    (.error (.error e) : Except (Fault AmqpDecodeError) (α × Bytes))

theorem RoundTrips.truncated {α : Type} [AmqpEncoder α] [AmqpDecoder α] [hp : Plain α] {x : α}
    (h : RoundTrips x) {k : ℕ} (hk : k < (encode x).length) :
    ∃ e, decode ((encode x).take k) =
      (.error (.error e) : Except (Fault AmqpDecodeError) (α × Bytes)) := by
  have hwhole := h []
  rw [List.append_nil] at hwhole
  obtain ⟨e, he⟩ := hp.isLocal.isLocal.truncated hwhole hk
  cases e with
  | error e => exact ⟨e, he⟩
  | panic p => exact absurd he (NoPanic.ne_panic hp.noPanic _ p)

theorem RoundTrips.faithful {α : Type} [AmqpEncoder α] [AmqpDecoder α] [Plain α] {x : α}
    (h : RoundTrips x) (hlt : (encode x).length < 2 ^ 32)
    (hsize : Announces (encodedSize x) (encode x) 0) : Faithful x where
  roundTrips := h
  exact := (hsize.toNat_eq_iff hlt (by decide)).mpr rfl
  truncated _ hk := h.truncated hk

/-- **Binaries, strings and symbols of every length come back**, with the size that was
announced, and a truncated one is an error.

All three are a content behind a length (`withLength`), and differ in how the bytes of the content
are read. -/
theorem variableWidth_faithful :
    (∀ bs : Bytes, (encode bs).length < 2 ^ 32 → Faithful bs) ∧
      (∀ s : String, (encode s).length < 2 ^ 32 → Faithful s) ∧
      (∀ s : Symbol, (encode s).length < 2 ^ 32 → Faithful s) := by
  refine ⟨fun bs h => ?_, fun s h => ?_, fun s h => ?_⟩
  · exact (binary_roundTrips h).faithful h (announces_binary h)
  · exact (string_roundTrips h).faithful h (announces_text .string8 .string32 h)
  · exact (symbol_roundTrips h).faithful h (announces_text .symbol8 .symbol32 h)

/-- The rule at a binary of three bytes, a string and a symbol. -/
theorem variableWidth_faithful_short :
    Faithful ([1, 2, 3] : Bytes) ∧ Faithful "amqp" ∧ Faithful (Symbol.mk "key") :=
  ⟨variableWidth_faithful.1 _ (by decide), variableWidth_faithful.2.1 _ (by decide),
    variableWidth_faithful.2.2 _ (by decide)⟩

end RabbitMqStream.Amqp
