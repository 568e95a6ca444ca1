/-
# Messages that come back

A message is written by one set of functions and read by another, and the two do not fit together
everywhere: a small negative `Int` comes back as another number, a list or a properties section of
more than 254 bytes is not read back, and a timestamp is written in milliseconds.  This module says
which messages are safe, looking at nothing but what is in them.

* **Simple values** (`simpleValue_roundTrips_iff`): all of them but the small negative `Int`s and
  the times that are not a number of milliseconds in the range of the calendar.
* **Values** (`value_roundTrips_of_writable`): lists must be short.  Maps may be of any size, also
  when the size in front of them is wrong: the decoder does not look at it.
* **Messages** (`message_decode_of_writable`): nothing else is asked but that the message takes less
  than `2 ^ 31` bytes.

The size of such a message is right when there is no small `Long` in it and its properties do not
take 253 or 254 bytes (`message_encodedSize_eq_iff`).

**The argument.**  The conditions are those of the modules before it, brought into one shape: a
condition on what is in the message.  For a map the size in front of it may be wrong, and is
dropped; what matters is only that the form which the size asks for leaves room for the count
(`mapFrame_decode`).  A size is off by no more than there are bytes (`Measured`), so a message of
less than `2 ^ 31` bytes has no size that wraps.  With that the parts come back, and a message
comes back when its parts do.
-/
import RabbitMqStream.Amqp.Lists
import RabbitMqStream.Amqp.Records

namespace RabbitMqStream.Amqp

open Wire

/-! ## 1. Leaves

All simple types, each with the condition under which it comes back.  Only `Int` and the times
have one. -/

section Leaves

/-- A decoder of one form: a type code, and then what is behind it. -/
theorem fixed_decode {α : Type} {f : TypeCode → AmqpReader α} {c : TypeCode} {bytes : Bytes}
    {x : α} (h : ∀ rest, f c (bytes ++ rest) = .ok (x, rest)) (rest : Bytes) :
    (TypeCode.decode >>= f) (encode c ++ bytes ++ rest) = .ok (x, rest) := by
  rw [List.append_assoc, afterCode_encode]
  exact h rest

theorem bool_roundTrips (b : Bool) : RoundTrips b := by
  cases b <;> exact fun _ => rfl

theorem ubyte_roundTrips (n : UInt8) : RoundTrips n := fixed_decode (readU8_append n)

theorem ushort_roundTrips (n : UInt16) : RoundTrips n := fixed_decode (readU16_append n)

theorem byte_roundTrips (n : Int8) : RoundTrips n := fixed_decode (readI8_append n)

theorem short_roundTrips (n : Int16) : RoundTrips n := by
  refine fixed_decode fun rest => (readI16_toBE _ rest).trans ?_
  rw [UInt16.ofNat_toNat]
  rfl

theorem float_roundTrips (x : AmqpFloat) : RoundTrips x :=
  fixed_decode fun rest => Reader.bind_of_ok (readU32_append x.bits rest)

theorem double_roundTrips (x : AmqpDouble) : RoundTrips x :=
  fixed_decode fun rest => Reader.bind_of_ok (readU64_append x.bits rest)

theorem char_roundTrips (c : Char) : RoundTrips c := by
  refine fixed_decode fun rest => (Reader.bind_of_ok (readU32_append c.val rest)).trans ?_
  have hback : charFromU32 c.val = some c := dif_pos c.valid
  simp only [hback, Reader.pure_apply]

theorem uuid_roundTrips (u : Uuid) : RoundTrips u := by
  refine fixed_decode fun rest => (Reader.bind_of_ok (readExact_append u.length_eq rest)).trans ?_
  have hback : Uuid.fromSlice u.bytes = some u := dif_pos u.length_eq
  simp only [hback, Reader.pure_apply]

end Leaves

section Wrapped

variable {α β : Type} [AmqpEncoder α] [AmqpDecoder α] [AmqpEncoder β] [AmqpDecoder β] {f : α → β}
  {x : α}

/-- A variant that is written as its content comes back when the content does, if its decoder goes
by the code in front. -/
theorem wrapped_roundTrips (hencode : encode (f x) = encode x) {c : TypeCode} {tail : Bytes}
    (hcode : encode x = encode c ++ tail) (h : RoundTrips x)
    (hc : ∀ b, (decode : AmqpReader β) (encode c ++ b) = decodeAs f (encode c ++ b)) :
    RoundTrips (f x) := by
  intro rest
  rw [hencode, hcode, List.append_assoc, hc, ← List.append_assoc, ← hcode]
  exact decodeAs_of_ok (h rest) f

theorem wrapped_text_roundTrips {code8 code32 : TypeCode} {s : String}
    (hencode : encode (f x) = encode x) (hcode : encode x = encodeText code8 code32 s)
    (h : RoundTrips x)
    (h8 : ∀ b, (decode : AmqpReader β) (encode code8 ++ b) = decodeAs f (encode code8 ++ b))
    (h32 : ∀ b, (decode : AmqpReader β) (encode code32 ++ b) = decodeAs f (encode code32 ++ b)) :
    RoundTrips (f x) := by
  have hform := hcode.trans (form_code ((asBytes s).length > 255) code32 code8
    (toBE 4 (asBytes s).length) (toBE 1 (asBytes s).length) (asBytes s))
  refine wrapped_roundTrips hencode hform h fun b => ?_
  split
  · exact h32 b
  · exact h8 b

theorem wrapped_ulong_roundTrips {f : UInt64 → β} {n : UInt64} (hencode : encode (f n) = encode n)
    (hc : ∀ c, c = TypeCode.ulong0 ∨ c = .ulong ∨ c = .ulongSmall →
      ∀ b, (decode : AmqpReader β) (encode c ++ b) = decodeAs f (encode c ++ b)) :
    RoundTrips (f n) := by
  obtain ⟨c, tail, he, hcode⟩ := ulong_code n
  refine wrapped_roundTrips hencode he (ulong_roundTrips n) (hc c ?_)
  tauto

theorem wrapped_long_roundTrips {f : Int64 → β} {n : Int64} (hencode : encode (f n) = encode n)
    (hc : ∀ c, c = TypeCode.long ∨ c = .longSmall →
      ∀ b, (decode : AmqpReader β) (encode c ++ b) = decodeAs f (encode c ++ b)) :
    RoundTrips (f n) := by
  by_cases hw : Long.isWide n
  · exact wrapped_roundTrips hencode (if_pos hw) (long_roundTrips n) (hc .long (Or.inl rfl))
  · exact wrapped_roundTrips hencode (if_neg hw) (long_roundTrips n) (hc .longSmall (Or.inr rfl))

end Wrapped

section Chrono

variable [Chrono]

/-- A time that is a number of milliseconds, which fits an `i64`, and which the calendar has. -/
structure Timestamp.Millis (t : Timestamp) : Prop where
  whole : t.nanos % 1000000 = 0
  nanos : t.nanos < 1000000000
  low : -2 ^ 63 ≤ t.secs * 1000 + t.nanos / 1000000
  high : t.secs * 1000 + t.nanos / 1000000 < 2 ^ 63
  representable : Chrono.representable t.secs = true

theorem timestampMillis_iff (t : Timestamp) :
    timestampMillisOpt t.timestampMillis = some t ↔ t.Millis := by
  obtain ⟨secs, nanos⟩ := t
  have hmillis : (Timestamp.timestampMillis ⟨secs, nanos⟩).toInt =
      (secs * 1000 + nanos / 1000000).bmod (2 ^ 64) := Int64.toInt_ofInt
  have hrange := Int64.toInt_lt (Timestamp.timestampMillis ⟨secs, nanos⟩)
  have hrange' := Int64.le_toInt (Timestamp.timestampMillis ⟨secs, nanos⟩)
  constructor
  · intro h
    simp only [timestampMillisOpt] at h
    split at h
    · rename_i hrep
      simp only [Option.some.injEq, Timestamp.mk.injEq] at h
      obtain ⟨hsecs, hnanos⟩ := h
      rw [hsecs] at hrep
      refine ⟨?_, ?_, ?_, ?_, hrep⟩ <;> simp only <;> omega
    · cases h
  · rintro ⟨hwhole, hnanos, hlow, hhigh, hrep⟩
    simp only at hwhole hnanos hlow hhigh hrep
    rw [Int.bmod_eq_of_le (by omega) (by omega)] at hmillis
    have hsecs : (Timestamp.timestampMillis ⟨secs, nanos⟩).toInt / 1000 = secs := by omega
    have hback : ((Timestamp.timestampMillis ⟨secs, nanos⟩).toInt % 1000).toNat * 1000000 =
        nanos := by omega
    simp only [timestampMillisOpt, hsecs, hback, hrep, if_true]

theorem timestamp_decode (t : Timestamp) (rest : Bytes) :
    decode (encode t ++ rest) = (timestampMillisOpt t.timestampMillis).elim
      (messageParse (.invalidTimestampMillis t.timestampMillis) rest) fun t => .ok (t, rest) := by
  change (TypeCode.decode >>= _) (encode TypeCode.timestamp ++ _ ++ rest) = _
  rw [List.append_assoc, afterCode_encode]
  refine (Reader.bind_of_ok (readI64_append t.timestampMillis rest)).trans ?_
  cases timestampMillisOpt t.timestampMillis <;> rfl

/-- The simple value is one that comes back. -/
def SimpleValue.ReadsBack : SimpleValue → Prop
  | .int n => ¬ (-128 ≤ n ∧ n < 0)
  | .timestamp t => t.Millis
  | _ => True

theorem simple_timestamp_roundTrips_iff (t : Timestamp) :
    RoundTrips (SimpleValue.timestamp t) ↔ t.Millis := by
  have hcode : ∀ b, decode (encode TypeCode.timestamp ++ b) =
      decodeAs SimpleValue.timestamp (encode TypeCode.timestamp ++ b) := fun b =>
    afterLookahead_encode (List.append_nil (encode TypeCode.timestamp)).symm b
  rw [← timestampMillis_iff]
  constructor
  · intro h
    have hback := h []
    have hread := timestamp_decode t []
    rw [show encode (SimpleValue.timestamp t) = encode TypeCode.timestamp ++ _ from rfl,
      List.append_assoc, hcode] at hback
    obtain ⟨t', ht', heq⟩ := decodeAs_eq_ok hback
    rw [show encode t = encode TypeCode.timestamp ++ _ from rfl, List.append_assoc, heq] at hread
    cases hmillis : timestampMillisOpt t.timestampMillis with
    | none =>
      rw [hmillis] at hread
      cases hread
    | some u =>
      rw [hmillis] at hread
      simp only [Option.elim_some, Except.ok.injEq, Prod.mk.injEq, and_true] at hread
      rw [← hread]
      simpa using ht'.symm
  · intro h
    refine wrapped_roundTrips (f := SimpleValue.timestamp) rfl rfl (fun rest => ?_) hcode
    rw [timestamp_decode, h]
    rfl

/-- **The simple values that come back** are all but the small negative `Int`s, which come back as
other numbers, and the times that are not a number of milliseconds.  By cases on the type.  For each
of the others there is a lemma about its decoder, which `SimpleValue::decode` calls by the code. -/
theorem simpleValue_roundTrips_iff (s : SimpleValue) (hlt : (encode s).length < 2 ^ 32) :
    RoundTrips s ↔ s.ReadsBack := by
  cases s with
  | null => exact iff_of_true (fun _ => rfl) trivial
  | boolean b => exact iff_of_true (by cases b <;> exact fun _ => rfl) trivial
  | uint n => exact iff_of_true (simple_uint_roundTrips n) trivial
  | ulong n => exact iff_of_true (simple_ulong_roundTrips n) trivial
  | long n => exact iff_of_true (simple_long_roundTrips n) trivial
  | timestamp t => exact simple_timestamp_roundTrips_iff t
  | binary bs => exact iff_of_true (simple_binary_roundTrips hlt) trivial
  | int n =>
    rw [SimpleValue.ReadsBack, ← readBack_eq_iff]
    constructor
    · intro h
      have hback := (simple_int_decode n []).symm.trans (h [])
      simpa using hback
    · intro h rest
      rw [simple_int_decode, h]
  | ubyte n =>
    refine iff_of_true (wrapped_roundTrips rfl rfl (ubyte_roundTrips n) ?_) trivial
    exact afterLookahead_encode rfl
  | ushort n =>
    refine iff_of_true (wrapped_roundTrips rfl rfl (ushort_roundTrips n) ?_) trivial
    exact afterLookahead_encode rfl
  | byte n =>
    refine iff_of_true (wrapped_roundTrips rfl rfl (byte_roundTrips n) ?_) trivial
    exact afterLookahead_encode rfl
  | short n =>
    refine iff_of_true (wrapped_roundTrips rfl rfl (short_roundTrips n) ?_) trivial
    exact afterLookahead_encode rfl
  | float x =>
    refine iff_of_true (wrapped_roundTrips rfl rfl (float_roundTrips x) ?_) trivial
    exact afterLookahead_encode rfl
  | double x =>
    refine iff_of_true (wrapped_roundTrips rfl rfl (double_roundTrips x) ?_) trivial
    exact afterLookahead_encode rfl
  | char c =>
    refine iff_of_true (wrapped_roundTrips rfl rfl (char_roundTrips c) ?_) trivial
    exact afterLookahead_encode rfl
  | uuid u =>
    refine iff_of_true (wrapped_roundTrips rfl rfl (uuid_roundTrips u) ?_) trivial
    exact afterLookahead_encode rfl
  | string s =>
    refine iff_of_true (wrapped_text_roundTrips rfl rfl (string_roundTrips hlt) ?_ ?_) trivial
    · exact afterLookahead_encode rfl
    · exact afterLookahead_encode rfl
  | symbol s =>
    refine iff_of_true (wrapped_text_roundTrips rfl rfl (symbol_roundTrips hlt) ?_ ?_) trivial
    · exact afterLookahead_encode rfl
    · exact afterLookahead_encode rfl

end Chrono

theorem messageId_roundTrips {id : MessageId} (hlt : (encode id).length < 2 ^ 32) :
    RoundTrips id := by
  cases id with
  | ulong n =>
    refine wrapped_ulong_roundTrips rfl fun c hc => ?_
    rcases hc with rfl | rfl | rfl <;> exact afterLookahead_encode rfl
  | long n =>
    refine wrapped_long_roundTrips rfl fun c hc => ?_
    rcases hc with rfl | rfl <;> exact afterLookahead_encode rfl
  | uuid u => exact wrapped_roundTrips rfl rfl (uuid_roundTrips u) (afterLookahead_encode rfl)
  | binary bs =>
    have hform := form_code (UInt32.ofNat bs.length > 255) .binary32 .binary8
      (toBE 4 (UInt32.ofNat bs.length).toNat) (toBE 1 (UInt32.ofNat bs.length).toNat) bs
    refine wrapped_roundTrips rfl hform (binary_roundTrips hlt) fun b => ?_
    split <;> exact afterLookahead_encode rfl b
  | string s =>
    exact wrapped_text_roundTrips rfl rfl (string_roundTrips hlt) (afterLookahead_encode rfl)
      (afterLookahead_encode rfl)

theorem annonationKey_roundTrips {k : AnnonationKey} (hlt : (encode k).length < 2 ^ 32) :
    RoundTrips k := by
  cases k with
  | symbol s =>
    exact wrapped_text_roundTrips rfl rfl (symbol_roundTrips hlt) (afterLookahead_encode rfl)
      (afterLookahead_encode rfl)
  | ulong n =>
    refine wrapped_ulong_roundTrips rfl fun c hc => ?_
    rcases hc with rfl | rfl | rfl <;> exact afterLookahead_encode rfl
  | long n =>
    refine wrapped_long_roundTrips rfl fun c hc => ?_
    rcases hc with rfl | rfl <;> exact afterLookahead_encode rfl

/-! ## 2. Maps of any size

A map may be framed wrongly and come back.  What has to fit is the count, and it does as there
are at least as many bytes as keys and values. -/

/-- The size of `x` is off by `k`, which is no more than there are bytes. -/
structure Measured {α : Type} [AmqpEncoder α] (x : α) (k : ℕ) : Prop where
  announces : Announces (encodedSize x) (encode x) k
  le : k ≤ (encode x).length
  pos : 1 ≤ (encode x).length

theorem measured_value {v : Value} (hlt : (encode v).length < 2 ^ 32) : Measured v v.excess :=
  ⟨announces_value v hlt, v.excess_le_length, value_length_pos v⟩

theorem measured_simple {s : SimpleValue} (hlt : (encode s).length < 2 ^ 32) :
    Measured s s.excess :=
  ⟨announces_simple s hlt, s.excess_le_length, value_length_pos (.simple s)⟩

theorem measured_string {s : String} (hlt : (encode s).length < 2 ^ 32) : Measured s 0 :=
  ⟨announces_text .string8 .string32 hlt, Nat.zero_le _, option_length_pos (some s)⟩

/-- How much the size of an annotation's key is off by. -/
def AnnonationKey.excess : AnnonationKey → ℕ
  | .long n => if Long.isWide n then 0 else 1
  | _ => 0

theorem measured_annonationKey {k : AnnonationKey} (hlt : (encode k).length < 2 ^ 32) :
    Measured k k.excess := by
  cases k with
  | symbol s =>
    exact ⟨announces_text .symbol8 .symbol32 hlt, Nat.zero_le _, option_length_pos (some s)⟩
  | ulong n => exact ⟨announces_u64 n, Nat.zero_le _, option_length_pos (some n)⟩
  | long n =>
    refine ⟨announces_i64 n, Nat.le_trans ?_ (option_length_pos (some n)),
      option_length_pos (some n)⟩
    change (if Long.isWide n then 0 else 1) ≤ 1
    split <;> decide

section Map

variable {K V : Type} [HashKey K] [AmqpEncoder K] [AmqpEncoder V]

/-- **A map of any size is read back**: the size in front of it is dropped, and the count takes the
form that the size asks for, which is wide enough for it even if the size is off.  The form is wide
when the computed size of the content is above 254.  The true content is no longer than that size,
so the number of keys and values, which is no larger than the content, fits the count of the
form. -/
theorem mapFrame_decode {key : AmqpReader K} {value : AmqpReader V} {entries : List (K × V)}
    {j : K → ℕ} {k : V → ℕ}
    (hread : ∀ e ∈ entries, (∀ r, key (encode e.1 ++ r) = .ok (e.1, r)) ∧
      ∀ r, value (encode e.2 ++ r) = .ok (e.2, r))
    (hdistinct : entries.Pairwise fun a b => HashKey.eq a.1 b.1 = false)
    (hhash : ∀ e ∈ entries, HashKey.hashes e.1 = true)
    (hsize : ∀ e ∈ entries, Measured e.1 (j e.1) ∧ Measured e.2 (k e.2))
    (hlt : (entries.flatMap fun e => encode e.1 ++ encode e.2).length < 2 ^ 31 - 1)
    (rest : Bytes) :
    ∃ m : HashMap K V, m.entries = entries ∧
      Map.decodeWith key value
        (Map.frame (entries.foldl (fun a e => a + encodedSize e.1 + encodedSize e.2) 0)
          entries.length ++ entries.flatMap (fun e => encode e.1 ++ encode e.2) ++ rest) =
            .ok (m, rest) := by
  obtain ⟨m, hm, hentries⟩ := entries_decode rest entries HashMap.empty hread hdistinct hhash
  have hcontent := announces_entries entries (j := j) (k := k)
    fun e he => ⟨(hsize e he).1.announces, (hsize e he).2.announces⟩
  have hcount := entries_le_length entries fun e he => ⟨(hsize e he).1.pos, (hsize e he).2.pos⟩
  have hexcess : (entries.map fun e => j e.1 + k e.2).sum ≤
      (entries.flatMap fun e => encode e.1 ++ encode e.2).length := by
    rw [List.length_flatMap]
    refine List.sum_le_sum fun e he => ?_
    rw [List.length_append]
    exact Nat.add_le_add (hsize e he).1.le (hsize e he).2.le
  refine ⟨m, hentries, ?_⟩
  rw [List.append_assoc, Map.frame, ← hm]
  unfold Map.decodeWith
  refine decode_frame (g := fun count => Map.entries key value count HashMap.empty) rfl rfl
    (fun hw => ?_) (by omega) _
  rw [isWide_iff hcontent (by omega)] at hw
  omega

variable [AmqpDecoder K] [AmqpDecoder V]

theorem map_roundTrips {m : HashMap K V} {j : K → ℕ} {k : V → ℕ}
    (hread : ∀ e ∈ m.entries, RoundTrips e.1 ∧ RoundTrips e.2)
    (hsize : ∀ e ∈ m.entries, Measured e.1 (j e.1) ∧ Measured e.2 (k e.2))
    (hlt : (encode m).length < 2 ^ 31 - 1) : RoundTrips m := by
  have henc : encode m = Map.frame (Map.contentSize m) m.len ++
      m.entries.flatMap (fun e => encode e.1 ++ encode e.2) := rfl
  rw [henc, List.length_append] at hlt
  intro rest
  have hframe : ∃ m' : HashMap K V, m'.entries = m.entries ∧
      decode (encode m ++ rest) = .ok (m', rest) :=
    mapFrame_decode hread m.distinct m.hashed hsize (by omega) rest
  obtain ⟨m', hentries, hm'⟩ := hframe
  obtain rfl : m' = m := HashMap.ext_entries hentries
  exact hm'

end Map

/-! ## 3. Values

The induction over a value with the condition on its lists alone, in which the maps go by the
rule of the last section. -/

namespace Value

mutual

/-- The lists in the value are short: the items of a list take at most 254 bytes. -/
def ShortLists : Value → Prop
  | .simple _ => True
  | .list items => itemsBulk items ≤ 254
  | .map entries => entriesShortLists entries
  | .described _ v => ShortLists v

def entriesShortLists : List (Value × Value) → Prop
  | [] => True
  | e :: es => entryShortLists e ∧ entriesShortLists es

def entryShortLists : Value × Value → Prop
  | (k, v) => ShortLists k ∧ ShortLists v

end

theorem entriesShortLists_iff (entries : List (Value × Value)) :
    entriesShortLists entries ↔ ∀ e ∈ entries, ShortLists e.1 ∧ ShortLists e.2 := by
  induction entries with
  | nil => simp [entriesShortLists]
  | cons e es ih =>
    obtain ⟨k, v⟩ := e
    rw [entriesShortLists, entryShortLists, ih, List.forall_mem_cons]

/-- A leaf takes no more bytes than the value. -/
theorem leaf_length_le (v : Value) :
    ∀ s ∈ v.leaves, (Amqp.encode s).length ≤ (Amqp.encode v).length := by
  induction v using Value.induct with
  | simple s =>
    intro t ht
    obtain rfl : t = s := by simpa [leaves] using ht
    exact Nat.le_refl _
  | list items ih =>
    intro s hs
    rw [leaves, itemsLeaves_eq, List.mem_flatMap] at hs
    obtain ⟨v, hv, hs⟩ := hs
    have hle := length_lt_of_mem_flatMap (g := Amqp.encode) hv (Nat.lt_succ_self _)
    rw [encode_list, List.length_append]
    exact Nat.le_trans (ih v hv s hs) (by omega)
  | map entries ih =>
    intro s hs
    rw [leaves, entriesLeaves_eq, List.mem_flatMap] at hs
    obtain ⟨e, he, hs⟩ := hs
    have hle := length_lt_of_mem_flatMap
      (g := fun e => Amqp.encode e.1 ++ Amqp.encode e.2) he (Nat.lt_succ_self _)
    rw [encode_map, List.length_append]
    rw [List.length_append] at hle
    rcases List.mem_append.mp hs with hs | hs
    · exact Nat.le_trans ((ih e he).1 s hs) (by omega)
    · exact Nat.le_trans ((ih e he).2 s hs) (by omega)
  | described d v ih =>
    intro s hs
    rw [leaves] at hs
    rw [encode_described, List.length_append]
    exact Nat.le_trans (ih s hs) (Nat.le_add_left _ _)

end Value

section Chrono

variable [Chrono]

/-- A value that comes back: its maps are maps, its lists are short and its leaves come back. -/
structure Value.Writable (v : Value) : Prop where
  wellFormed : v.WellFormed
  shortLists : v.ShortLists
  leaves : ∀ s ∈ v.leaves, s.ReadsBack

/-- The items of a short list come back. -/
theorem items_roundTrip {items : List Value} (h : (Value.list items).Writable) :
    itemsBulk items ≤ 254 ∧ ∀ v ∈ items, RoundTrips v := by
  have hsmall : itemsBulk items ≤ 254 := by
    have := h.shortLists
    rwa [Value.ShortLists] at this
  refine ⟨hsmall, fun v hv => ?_⟩
  have hbulk := Nat.le_trans (bulk_le_itemsBulk hv) hsmall
  have hlt : (encode v).length < 2 ^ 32 := by
    unfold Value.bulk at hbulk
    omega
  refine value_roundTrips v (Value.wellFormed_list h.wellFormed v hv) (fun s hs => ?_) hbulk
  exact (simpleValue_roundTrips_iff s (Nat.lt_of_le_of_lt (v.leaf_length_le s hs) hlt)).mpr
    (Value.leaves_list h.leaves v hv s hs)

/-- A map comes back as a value when its decoder gives it back. -/
theorem mapValue_of_decode {entries : List (Value × Value)}
    (h : ∀ rest, ∃ m : HashMap Value Value, m.entries = entries ∧
      Map.decodeWith Value.decode Value.decode (encode (Value.map entries) ++ rest) =
        .ok (m, rest)) : RoundTrips (Value.map entries) := by
  intro rest
  obtain ⟨m, rfl, hm⟩ := h rest
  obtain ⟨c, tail, he, hc⟩ : ∃ (c : TypeCode) (tail : Bytes),
      encode (Value.map m.entries) = encode c ++ tail ∧ (c = .map8 ∨ c = .map32) := by
    rw [encode_map, Map.frame, Compound.frame]
    split
    · exact ⟨.map32, _, by simp only [List.append_assoc]; rfl, Or.inr rfl⟩
    · exact ⟨.map8, _, by simp only [List.append_assoc]; rfl, Or.inl rfl⟩
  refine (value_decode_code he rest).trans ?_
  rcases hc with rfl | rfl <;>
    exact (afterLookahead_encode he rest).trans ((Reader.bind_of_ok hm).trans rfl)

/-- **A value with short lists comes back.** By induction on the value.  For a list the bound on its
items makes all of them short; for a map there is no bound but that of the whole, and
`mapFrame_decode` takes the place of a right size. -/
theorem value_roundTrips_of_writable (v : Value) :
    v.Writable → (encode v).length < 2 ^ 31 - 1 → RoundTrips v := by
  induction v using Value.induct with
  | simple s =>
    intro h hlt
    refine simpleValue_roundTrips ((simpleValue_roundTrips_iff s ?_).mpr ?_)
    · exact Nat.lt_of_lt_of_le hlt (by decide)
    · exact h.leaves s (by simp [Value.leaves])
  | list items ih =>
    intro h _
    obtain ⟨hsmall, hitems⟩ := items_roundTrip h
    exact listValue_roundTrips hitems hsmall
  | map entries ih =>
    intro h hlt
    obtain ⟨hdistinct, hhash, hparts⟩ := Value.wellFormed_map h.wellFormed
    have hshort := h.shortLists
    rw [Value.ShortLists, Value.entriesShortLists_iff] at hshort
    have hleaves := Value.leaves_map h.leaves
    rw [encode_map, List.length_append] at hlt
    have hentry : ∀ e ∈ entries, (encode e.1).length < 2 ^ 31 - 1 ∧
        (encode e.2).length < 2 ^ 31 - 1 := by
      intro e he
      have hle := length_lt_of_mem_flatMap
        (g := fun e => encode e.1 ++ encode e.2) he (Nat.lt_succ_self _)
      rw [List.length_append] at hle
      omega
    have hread : ∀ e ∈ entries, RoundTrips e.1 ∧ RoundTrips e.2 := fun e he =>
      ⟨(ih e he).1 ⟨(hparts e he).1, (hshort e he).1, (hleaves e he).1⟩ (hentry e he).1,
        (ih e he).2 ⟨(hparts e he).2, (hshort e he).2, (hleaves e he).2⟩ (hentry e he).2⟩
    refine mapValue_of_decode fun rest => ?_
    rw [encode_map]
    exact mapFrame_decode hread hdistinct hhash
      (fun e he => ⟨measured_value (Nat.lt_trans (hentry e he).1 (by decide)),
        measured_value (Nat.lt_trans (hentry e he).2 (by decide))⟩) (by omega) rest
  | described d v ih =>
    intro h hlt
    have hwf := h.wellFormed
    have hshort := h.shortLists
    have hleaves := h.leaves
    rw [Value.WellFormed] at hwf
    rw [Value.ShortLists] at hshort
    rw [Value.leaves] at hleaves
    rw [encode_described, List.length_append, List.length_append] at hlt
    exact described_roundTrips (by omega) (ih ⟨hwf, hshort, hleaves⟩ (by omega))

/-! ## 4. Messages

The conditions of the sections put together, and discharged from the content of the message. -/

/-- Properties that come back: they take at most 254 bytes, as their encoder counts them, and
their times are numbers of milliseconds. -/
structure Properties.Writable (p : Properties) : Prop where
  short : p.bulk ≤ 254
  absoluteExpiryTime : ∀ t ∈ p.absoluteExpiryTime, t.Millis
  creationTime : ∀ t ∈ p.creationTime, t.Millis

/-- A message that comes back. -/
structure Message.Writable (m : Message) : Prop where
  deliveryAnnotations : ∀ x ∈ m.deliveryAnnotations, ∀ e ∈ x.entries, e.2.Writable
  messageAnnotations : ∀ x ∈ m.messageAnnotations, ∀ e ∈ x.entries, e.2.Writable
  properties : ∀ p ∈ m.properties, p.Writable
  applicationProperties : ∀ x ∈ m.applicationProperties, ∀ e ∈ x.entries, e.2.ReadsBack
  sequence : ∀ l ∈ m.body.sequence, (Value.list l.items).Writable
  value : ∀ v ∈ m.body.value, v.Writable
  footer : ∀ x ∈ m.footer, ∀ e ∈ x.entries, e.2.Writable

omit [Chrono] in
theorem header_roundTrips_all (h : Header) : RoundTrips h :=
  header_roundTrips ⟨bool_roundTrips _, ubyte_roundTrips _, fun n _ => uint_roundTrips n,
    bool_roundTrips _, uint_roundTrips _⟩

theorem timestamp_roundTrips {t : Timestamp} (h : t.Millis) : RoundTrips t := fun rest => by
  rw [timestamp_decode, (timestampMillis_iff t).mpr h]
  rfl

theorem properties_roundTrips_of_writable {p : Properties} (h : p.Writable) : RoundTrips p := by
  have hbulk := h.short
  have hfields : p.encodeFields.length < 2 ^ 32 := by
    unfold Properties.bulk at hbulk
    omega
  simp only [Properties.encodeFields, List.length_append] at hfields
  have hsome : ∀ {α : Type} [AmqpEncoder α] {o : Option α} {x : α}, x ∈ o →
      (encode o).length < 2 ^ 32 → (encode x).length < 2 ^ 32 := by
    rintro α _ o x hx hlt
    obtain rfl := hx
    exact hlt
  exact properties_roundTrips
    { messageId := fun x hx => messageId_roundTrips (hsome hx (by omega))
      userId := fun x hx => binary_roundTrips (hsome hx (by omega))
      «to» := fun x hx => string_roundTrips (hsome hx (by omega))
      subject := fun x hx => string_roundTrips (hsome hx (by omega))
      replyTo := fun x hx => string_roundTrips (hsome hx (by omega))
      correlationId := fun x hx => messageId_roundTrips (hsome hx (by omega))
      contentType := fun x hx => symbol_roundTrips (hsome hx (by omega))
      contentEncoding := fun x hx => symbol_roundTrips (hsome hx (by omega))
      absoluteExpiryTime := fun t ht => timestamp_roundTrips (h.absoluteExpiryTime t ht)
      creationTime := fun t ht => timestamp_roundTrips (h.creationTime t ht)
      groupId := fun x hx => string_roundTrips (hsome hx (by omega))
      groupSequence := fun n _ => uint_roundTrips n
      replyToGroupId := fun x hx => string_roundTrips (hsome hx (by omega)) } hbulk

omit [Chrono] in
/-- A key and a value take no more bytes than the map. -/
theorem entry_length_lt {K V : Type} [HashKey K] [AmqpEncoder K] [AmqpEncoder V] {m : HashMap K V}
    {n : ℕ} (hlt : (encode m).length < n) {e : K × V} (he : e ∈ m.entries) :
    (encode e.1).length < n ∧ (encode e.2).length < n := by
  have henc : encode m = Map.frame (Map.contentSize m) m.len ++
      m.entries.flatMap (fun e => encode e.1 ++ encode e.2) := rfl
  have hle := length_lt_of_mem_flatMap
    (g := fun e => encode e.1 ++ encode e.2) he (Nat.lt_succ_self _)
  rw [henc, List.length_append] at hlt
  rw [List.length_append] at hle
  omega

theorem annotations_roundTrips {x : Annotations} (h : ∀ e ∈ x.entries, e.2.Writable)
    (hlt : (encode x).length < 2 ^ 31 - 1) : RoundTrips x := by
  refine map_roundTrips (j := AnnonationKey.excess) (k := Value.excess) (fun e he => ?_)
    (fun e he => ?_) hlt
  · obtain ⟨hk, hv⟩ := entry_length_lt hlt he
    exact ⟨annonationKey_roundTrips (Nat.lt_trans hk (by decide)),
      value_roundTrips_of_writable e.2 (h e he) hv⟩
  · obtain ⟨hk, hv⟩ := entry_length_lt hlt he
    exact ⟨measured_annonationKey (Nat.lt_trans hk (by decide)),
      measured_value (Nat.lt_trans hv (by decide))⟩

theorem applicationProperties_roundTrips {x : ApplicationProperties}
    (h : ∀ e ∈ x.entries, e.2.ReadsBack) (hlt : (encode x).length < 2 ^ 31 - 1) :
    RoundTrips x := by
  refine map_roundTrips (j := fun _ => 0) (k := SimpleValue.excess) (fun e he => ?_)
    (fun e he => ?_) hlt
  · obtain ⟨hk, hv⟩ := entry_length_lt hlt he
    exact ⟨string_roundTrips (Nat.lt_trans hk (by decide)),
      (simpleValue_roundTrips_iff e.2 (Nat.lt_trans hv (by decide))).mpr (h e he)⟩
  · obtain ⟨hk, hv⟩ := entry_length_lt hlt he
    exact ⟨measured_string (Nat.lt_trans hk (by decide)),
      measured_simple (Nat.lt_trans hv (by decide))⟩

theorem list_roundTrips_of_writable {l : AmqpList} (h : (Value.list l.items).Writable) :
    RoundTrips l := by
  obtain ⟨hsmall, hitems⟩ := items_roundTrip h
  intro rest
  exact (Reader.bind_of_ok (list_decode hitems hsmall rest)).trans rfl

omit [Chrono] in
/-- What is behind the descriptor of a section takes fewer bytes than the message. -/
theorem part_length_lt {m : Message} {s : MessageSection} {d part : Bytes}
    (hlt : (encode m).length < 2 ^ 31) (hs : s ∈ m.sections) (he : s.encode = d ++ part)
    (hd : 1 ≤ d.length) : part.length < 2 ^ 31 - 1 := by
  rw [encode_eq_sections] at hlt
  have hsection := length_lt_of_mem_flatMap hs hlt
  rw [he, List.length_append] at hsection
  omega

/-- Section by section: the condition on the content of a section is part of that on the message,
and a section is shorter than the message it is in. -/
theorem parts_roundTrip {m : Message} (h : m.Writable) (hlt : (encode m).length < 2 ^ 31) :
    m.PartsRoundTrip where
  header x _ := header_roundTrips_all x
  deliveryAnnotations x hx := by
    have hs : .deliveryAnnotations x ∈ m.sections := by
      simp [Message.sections, Option.mem_def.mp hx]
    exact annotations_roundTrips (h.deliveryAnnotations x hx)
      (part_length_lt hlt hs rfl (by decide))
  messageAnnotations x hx := by
    have hs : .messageAnnotations x ∈ m.sections := by
      simp [Message.sections, Option.mem_def.mp hx]
    exact annotations_roundTrips (h.messageAnnotations x hx)
      (part_length_lt hlt hs rfl (by decide))
  properties p hp := properties_roundTrips_of_writable (h.properties p hp)
  applicationProperties x hx := by
    have hs : .applicationProperties x ∈ m.sections := by
      simp [Message.sections, Option.mem_def.mp hx]
    exact applicationProperties_roundTrips (h.applicationProperties x hx)
      (part_length_lt hlt hs rfl (by decide))
  data bs hbs := by
    have hs : .data bs ∈ m.sections := by simp [Message.sections, hbs]
    exact binary_roundTrips (Nat.lt_trans (part_length_lt hlt hs rfl (by decide)) (by decide))
  sequence l hl := list_roundTrips_of_writable (h.sequence l hl)
  value v hv := by
    have hs : .amqpValue v ∈ m.sections := by simp [Message.sections, Option.mem_def.mp hv]
    exact value_roundTrips_of_writable v (h.value v hv) (part_length_lt hlt hs rfl (by decide))
  footer x hx := by
    have hs : .footer x ∈ m.sections := by simp [Message.sections, Option.mem_def.mp hx]
    exact annotations_roundTrips (h.footer x hx) (part_length_lt hlt hs rfl (by decide))

theorem decode_of_parts {m : Message} (h : m.PartsRoundTrip) :
    Message.decode (encode m) = .ok (m, []) := by
  rw [Message.decode_eq, encode_eq_sections, decodeFrom_sections _ _ (sections_roundTrip h),
    foldl_add_sections]

/-- **A message comes back**, with whatever is in it that is writable.

`parts_roundTrip` goes through the sections, and `decode_of_parts` is the theorem on messages
whose parts come back. -/
theorem message_decode_of_writable (m : Message) (h : m.Writable)
    (hlt : (encode m).length < 2 ^ 31) : Message.decode (encode m) = .ok (m, []) :=
  decode_of_parts (parts_roundTrip h hlt)

end Chrono

/-- A message with an annotation, properties, an application property, two data sections and a list
as its value. -/
def orderMessage : Message where
  messageAnnotations := some (HashMap.empty.insert (.long 7) (.simple (.string "eu")) rfl)
  properties := some { messageId := some (.ulong 300), creationTime := some ⟨1700000000, 5000000⟩ }
  applicationProperties := some (HashMap.empty.insert "origin" (.int 3) rfl)
  body :=
    { data := [[1, 2], [3]]
      value := some (.list [.simple (.boolean true), .simple (.uint 5)]) }

theorem message_decode_of_writable_order :
    @Message.decode Chrono.range (encode orderMessage) = .ok (orderMessage, []) := by
  let _ := Chrono.range
  refine message_decode_of_writable orderMessage ⟨?_, ?_, ?_, ?_, ?_, ?_, ?_⟩ (by decide +kernel)
  all_goals simp only [orderMessage, Option.mem_def, Option.some.injEq, reduceCtorEq,
    false_imp_iff, implies_true, forall_eq', List.not_mem_nil]
  · intro e he
    obtain rfl := List.mem_singleton.mp he
    exact ⟨by simp [Value.WellFormed], by simp [Value.ShortLists],
      by simp [Value.leaves, SimpleValue.ReadsBack]⟩
  · refine ⟨by decide, by simp, fun t ht => ?_⟩
    obtain rfl := Option.some.inj ht
    exact ⟨by decide, by decide, by decide, by decide, by decide⟩
  · intro e he
    obtain rfl := List.mem_singleton.mp he
    exact fun h => absurd h.2 (by decide)
  · exact ⟨by simp [Value.WellFormed, Value.itemsWellFormed],
      by rw [Value.ShortLists]; decide,
      by simp [Value.leaves, Value.itemsLeaves, SimpleValue.ReadsBack]⟩

end RabbitMqStream.Amqp
