/-
# What other clients send

The round trips of the other modules are about bytes this crate has written.  A broker also
delivers messages that other AMQP 1.0 clients have written, and two of their forms never come
out of an encoder of this crate.

* **Lists with more elements than fields.**  A header or a properties section is read twice over
  in the crate, as a plain list (`List::decode`) and field by field (`List::decode_with_fields`).
  Every field is read as `Value::decode` would read it (`ReadAsValue`), so the two agree as long
  as there is a field for every element.  For an element past the last field the table of
  `list_decoder!` returns `Ok(input)`: the element is not skipped but left in front of the next
  section (`FieldTable.unread`).  `listReaders_agree_iff` is the exact rule.
* **Described values.**  `Descriptor::encode` writes the constructor `0x00` itself, and
  `DescribedValue::encode` writes one more in front of it; the two decoders expect the same two
  bytes.  So the crate reads its own described values back and nobody else's
  (`described_wireForm_never`).

**The argument.**  A field reader and the plain one are both loops over a count that they read in
the same way.  Round by round they end at the same byte while there is a field for the index
(`FieldTable.elems`).  From the first index without one on, the field reader stands still and the
plain one goes on by at least a byte (`FieldTable.unread`).  So they meet at the end exactly when
that index does not come.  For a described value it is enough to look at two bytes: the decoder
asks for the constructor twice, and behind one constructor the wire form has a code that is not
the constructor again.
-/
import RabbitMqStream.Amqp.LongProperties
import RabbitMqStream.Amqp.Lists

namespace RabbitMqStream.Amqp

open Wire

/-! ## 1. A field is read as a value

For the types that a field may have: what the typed decoder takes in, the general one takes in,
and both stop at the same byte. -/

section Chrono

variable [Chrono]

/-- Every item the decoder of `α` takes in is one for `Value::decode` as well, and ends at the
same byte. -/
class ReadAsValue (α : Type) [AmqpDecoder α] : Prop where
  value : ∀ {b rest : Bytes} {x : α}, decode b = .ok (x, rest) →
    ∃ v, Value.decode b = .ok (v, rest)

omit [Chrono] in
/-- A decoder that looks at the type code first, on bytes that start with one. -/
theorem afterLookahead_byte {α : Type} (f : TypeCode → AmqpReader α) (c : TypeCode) (tail : Bytes) :
    (Reader.lookahead TypeCode.decode >>= f) (c.toU8 :: tail) = f c (c.toU8 :: tail) :=
  Reader.bind_of_ok (Reader.lookahead_of_ok (typeCode_decode c tail))

theorem value_of_simple {s : SimpleValue} {b rest : Bytes} (h : decode b = .ok (s, rest)) :
    Value.decode b = .ok (.simple s, rest) := by
  obtain ⟨c, tail, rfl, hc⟩ := afterLookahead_eq_ok h
  have hread := decodeAs_of_ok h Value.simple
  rw [Value.decode_eq]
  refine (afterLookahead_byte _ c tail).trans ?_
  cases c with
  | described | list0 | list8 | list32 | map8 | map32 | array8 | array32 =>
    -- a code of a compound value is none of a simple one
    exact absurd hc (by simp [invalidTypeCode])
  | _ => exact hread

/-- It is enough that `SimpleValue::decode` hands an item to the decoder of `α` at every code
which that decoder accepts. -/
theorem readAsValue_of_branches {α : Type} [AmqpDecoder α] {f : α → SimpleValue}
    {g : TypeCode → AmqpReader α} (hg : (decode : AmqpReader α) = TypeCode.decode >>= g)
    (h : ∀ {c : TypeCode} {tail rest : Bytes} {x : α}, g c tail = .ok (x, rest) →
      ∀ b, decode (c.toU8 :: b) = decodeAs f (c.toU8 :: b)) : ReadAsValue α where
  value {b rest x} hx := by
    have hcode := hx
    rw [hg] at hcode
    obtain ⟨c, tail, rfl, hc⟩ := afterCode_eq_ok hcode
    exact ⟨_, value_of_simple ((h hc tail).trans (decodeAs_of_ok hx f))⟩

instance : ReadAsValue Bool := readAsValue_of_branches (f := .boolean) rfl fun hc => by
  split at hc <;> first | exact afterLookahead_byte _ _ | simp [invalidTypeCode] at hc

instance : ReadAsValue UInt8 := readAsValue_of_branches (f := .ubyte) rfl fun hc => by
  split at hc <;> first | exact afterLookahead_byte _ _ | simp [invalidTypeCode] at hc

instance : ReadAsValue UInt32 := readAsValue_of_branches (f := .uint) rfl fun hc => by
  split at hc <;> first | exact afterLookahead_byte _ _ | simp [invalidTypeCode] at hc

instance : ReadAsValue UInt64 := readAsValue_of_branches (f := .ulong) rfl fun hc => by
  split at hc <;> first | exact afterLookahead_byte _ _ | simp [invalidTypeCode] at hc

instance : ReadAsValue Int64 := readAsValue_of_branches (f := .long) rfl fun hc => by
  split at hc <;> first | exact afterLookahead_byte _ _ | simp [invalidTypeCode] at hc

instance : ReadAsValue Uuid := readAsValue_of_branches (f := .uuid) rfl fun hc => by
  split at hc <;> first | exact afterLookahead_byte _ _ | simp [invalidTypeCode] at hc

instance : ReadAsValue Bytes := readAsValue_of_branches (f := .binary) rfl fun hc => by
  split at hc <;> first | exact afterLookahead_byte _ _ | simp [invalidTypeCode] at hc

instance : ReadAsValue String := readAsValue_of_branches (f := .string) rfl fun hc => by
  split at hc <;> first | exact afterLookahead_byte _ _ | simp [invalidTypeCode] at hc

instance : ReadAsValue Symbol := readAsValue_of_branches (f := .symbol) rfl fun hc => by
  split at hc <;> first | exact afterLookahead_byte _ _ | simp [invalidTypeCode] at hc

instance : ReadAsValue Timestamp := readAsValue_of_branches (f := .timestamp) rfl fun hc => by
  split at hc <;> first | exact afterLookahead_byte _ _ | simp [invalidTypeCode] at hc

/-- An item that is read and wrapped. -/
theorem decodeAs_value {α β : Type} [AmqpDecoder α] [ReadAsValue α] {f : α → β} {b rest : Bytes}
    {y : β} (h : decodeAs f b = .ok (y, rest)) : ∃ v, Value.decode b = .ok (v, rest) := by
  obtain ⟨x, -, hx⟩ := decodeAs_eq_ok h
  exact ReadAsValue.value hx

instance : ReadAsValue MessageId where
  value h := by
    obtain ⟨c, tail, -, hc⟩ := afterLookahead_eq_ok h
    split at hc
    all_goals first | exact decodeAs_value hc | simp [invalidTypeCode] at hc

instance {α : Type} [AmqpDecoder α] [ReadAsValue α] : ReadAsValue (Option α) where
  value {b rest o} h := by
    rcases option_eq_ok h with ⟨-, rfl⟩ | ⟨x, -, hx⟩
    · refine ⟨.simple .null, value_of_simple ?_⟩
      exact (afterLookahead_byte _ .null rest).trans
        (Reader.bind_of_ok (typeCode_decode .null rest))
    · exact ReadAsValue.value hx

/-! ## 2. Lists read field by field

The two loops side by side, over a table of fields of any length.  The header and the properties
are instances with five and with thirteen fields. -/

/-- A table of `k` fields: each of them is read as a value, and any other index is ignored. -/
structure FieldTable {T : Type} (f : ℕ → T → AmqpReader T) (k : ℕ) : Prop where
  known : ∀ {i : ℕ} {dest x : T} {b rest : Bytes}, i < k → f i dest b = .ok (x, rest) →
    ∃ v, Value.decode b = .ok (v, rest)
  unknown : ∀ {i : ℕ} (dest : T), k ≤ i → f i dest = pure dest

theorem listField_value {α T : Type} [AmqpDecoder α] [ReadAsValue α] {set : Option α → T}
    {b rest : Bytes} {x : T} (h : listField set b = .ok (x, rest)) :
    ∃ v, Value.decode b = .ok (v, rest) := decodeAs_value h

theorem header_fieldTable : FieldTable listDecoderHeader 5 where
  known {i dest x b rest} hi h := by
    interval_cases i <;> exact listField_value h
  unknown {i} dest hi := by
    obtain ⟨j, rfl⟩ : ∃ j, i = j + 5 := ⟨i - 5, by omega⟩
    rfl

theorem properties_fieldTable : FieldTable listDecoderProperties 13 where
  known {i dest x b rest} hi h := by
    interval_cases i <;> exact listField_value h
  unknown {i} dest hi := by
    obtain ⟨j, rfl⟩ : ∃ j, i = j + 13 := ⟨i - 13, by omega⟩
    rfl

/-- The number of elements a list announces behind its type code. -/
def AmqpList.announced : AmqpReader ℕ := do
  let code ← TypeCode.decode
  match code with
  | .list0 => pure 0
  | .list8 => Compound.count8
  | .list32 => Compound.count32
  | code => invalidTypeCode .list code

/-- The list in front announces no more than `k` elements. -/
def AmqpList.AtMost (k : ℕ) (b : Bytes) : Prop :=
  ∃ n mid, AmqpList.announced b = .ok (n, mid) ∧ n ≤ k

omit [Chrono] in
/-- `List::decode` reads the count and then as many values. -/
theorem list_eq_ok {value : AmqpReader Value} {b rest : Bytes} {items : List Value}
    (h : AmqpList.decodeWith value b = .ok (items, rest)) :
    ∃ n mid, AmqpList.announced b = .ok (n, mid) ∧
      AmqpList.elems value n mid = .ok (items, rest) := by
  obtain ⟨c, tail, rfl, hc⟩ := afterCode_eq_ok h
  have hcount : AmqpList.announced (c.toU8 :: tail) = _ := afterCode_encode _ c tail
  rw [hcount]
  split at hc
  · exact ⟨0, tail, rfl, hc⟩
  · exact Reader.bind_eq_ok.mp hc
  · exact Reader.bind_eq_ok.mp hc
  · simp [invalidTypeCode] at hc

omit [Chrono] in
/-- `List::decode_with_fields` reads the count and then as many fields. -/
theorem decodeWithFields_eq_ok {T : Type} {f : ℕ → T → AmqpReader T} {dest x : T} {b rest : Bytes}
    (h : AmqpList.decodeWithFields f dest b = .ok (x, rest)) :
    ∃ n mid, AmqpList.announced b = .ok (n, mid) ∧
      AmqpList.fields f n 0 dest mid = .ok (x, rest) := by
  obtain ⟨c, tail, rfl, hc⟩ := afterCode_eq_ok h
  have hcount : AmqpList.announced (c.toU8 :: tail) = _ := afterCode_encode _ c tail
  rw [hcount]
  split at hc
  · exact ⟨0, tail, rfl, hc⟩
  · exact Reader.bind_eq_ok.mp hc
  · exact Reader.bind_eq_ok.mp hc
  · simp [messageParse] at hc

section Table

variable {T : Type} {f : ℕ → T → AmqpReader T} {k : ℕ}

/-- As long as there is a field for it, an element is read as `List::decode` reads it. -/
theorem FieldTable.elems (ht : FieldTable f k) {rest : Bytes} {x : T} : ∀ {n i : ℕ} {dest : T}
    {b : Bytes}, i + n ≤ k → AmqpList.fields f n i dest b = .ok (x, rest) → ∀ acc : List Value,
      ∃ items, Reader.loop (fun items => do let elem ← Value.decode; pure (items ++ [elem])) n acc b
        = .ok (items, rest) := by
  intro n
  induction n with
  | zero =>
    intro i dest b _ h acc
    simp only [AmqpList.fields, Reader.pure_apply, Except.ok.injEq, Prod.mk.injEq] at h
    obtain ⟨-, rfl⟩ := h
    exact ⟨acc, rfl⟩
  | succ n ih =>
    intro i dest b hi h acc
    obtain ⟨dest', mid, hfield, hfields⟩ := Reader.bind_eq_ok.mp h
    obtain ⟨v, hv⟩ := ht.known (by omega) hfield
    obtain ⟨items, hitems⟩ := ih (by omega) hfields (acc ++ [v])
    refine ⟨items, ?_⟩
    rw [Reader.loop, bind_assoc, Reader.bind_of_ok hv, pure_bind]
    exact hitems

/-- The elements past the last field stay where they are. -/
theorem FieldTable.unread (ht : FieldTable f k) : ∀ {n i : ℕ} (dest : T), k ≤ i →
    AmqpList.fields f n i dest = pure dest := by
  intro n
  induction n with
  | zero =>
    intro i dest _
    rfl
  | succ n ih =>
    intro i dest hi
    rw [AmqpList.fields, ht.unknown dest hi, pure_bind]
    exact ih dest (by omega)

/-- **Two ways to read a list.**  They end at the same byte exactly when there is a field for
every element. -/
theorem FieldTable.agree_iff (ht : FieldTable f k) {b rest rest' : Bytes} {items : List Value}
    {dest x : T} (hlist : AmqpList.decodeWith Value.decode b = .ok (items, rest))
    (hfields : AmqpList.decodeWithFields f dest b = .ok (x, rest')) :
    rest' = rest ↔ AmqpList.AtMost k b := by
  obtain ⟨n, mid, hcount, helems⟩ := list_eq_ok hlist
  obtain ⟨n', mid', hcount', hread⟩ := decodeWithFields_eq_ok hfields
  obtain ⟨rfl, rfl⟩ := (Reader.returns_iff hcount).mp hcount'
  constructor
  · intro heq
    refine ⟨n', mid', hcount, ?_⟩
    by_contra hlong
    obtain ⟨m, rfl⟩ : ∃ m, n' = k + (m + 1) := ⟨n' - k - 1, by omega⟩
    rw [fields_add] at hread
    obtain ⟨y, tail, hknown, hunknown⟩ := Reader.bind_eq_ok.mp hread
    rw [Nat.zero_add, ht.unread y (Nat.le_refl k)] at hunknown
    obtain ⟨rfl, rfl⟩ : y = x ∧ tail = rest' := by simpa using hunknown
    obtain ⟨known, hloop⟩ := ht.elems (by omega) hknown []
    rw [AmqpList.elems, Reader.loop_add, Reader.bind_of_ok hloop] at helems
    have hcons := (Reader.Consumes.loop_length (fun acc => Progress.consumes.bind fun v =>
      Reader.consumes_pure (acc ++ [v])) (m + 1) known tail items rest helems).2
    rw [heq] at hcons
    omega
  · rintro ⟨n, mid, hn, hle⟩
    obtain ⟨rfl, rfl⟩ := (Reader.returns_iff hcount).mp hn
    obtain ⟨items', hloop⟩ := ht.elems (by omega) hread []
    exact ((Reader.returns_iff hloop).mp helems).2.symm

end Table

/-- **The two list readers.**  On a list both can read, `List::decode` and the field readers of
a header and of properties end at the same byte exactly when the list has no more elements than
the record has fields.

Both records are tables of fields, and it is proved for any table (`FieldTable.agree_iff`). -/
theorem listReaders_agree_iff {b rest : Bytes} {l : AmqpList} (hlist : decode b = .ok (l, rest)) :
    (∀ (dest h : Header) (rest' : Bytes),
      AmqpList.decodeWithFields listDecoderHeader dest b = .ok (h, rest') →
        (rest' = rest ↔ AmqpList.AtMost 5 b)) ∧
    (∀ (dest p : Properties) (rest' : Bytes),
      AmqpList.decodeWithFields listDecoderProperties dest b = .ok (p, rest') →
        (rest' = rest ↔ AmqpList.AtMost 13 b)) := by
  obtain ⟨items, mid, hitems, hpure⟩ := Reader.bind_eq_ok.mp hlist
  simp only [Reader.pure_apply, Except.ok.injEq, Prod.mk.injEq] at hpure
  obtain ⟨rfl, rfl⟩ := hpure
  constructor
  · intro dest h rest' hfields
    exact header_fieldTable.agree_iff hitems hfields
  · intro dest p rest' hfields
    exact properties_fieldTable.agree_iff hitems hfields

/-! ## 3. Described values

The wire form has the constructor once.  What the decoder looks for behind it is the constructor
again. -/

omit [Chrono] in
/-- A descriptor writes the constructor, and then a code that is not the constructor again. -/
theorem descriptor_code (d : Descriptor) : ∃ (c : TypeCode) (tail : Bytes),
    encode d = encode TypeCode.described ++ (encode c ++ tail) ∧ c ≠ .described := by
  cases d with
  | ulong n =>
    obtain ⟨c, tail, he, hc⟩ := simple_code (.ulong n)
    exact ⟨c, tail, congrArg (encode TypeCode.described ++ ·) he, fun h => hc (by simp [h])⟩
  | symbol s =>
    obtain ⟨c, tail, he, hc⟩ := simple_code (.symbol s)
    exact ⟨c, tail, congrArg (encode TypeCode.described ++ ·) he, fun h => hc (by simp [h])⟩

omit [Chrono] in
/-- `Descriptor::decode` looks for the constructor. -/
theorem descriptor_decode_code {c : TypeCode} (hc : c ≠ .described) (b : Bytes) :
    Descriptor.decode (encode c ++ b) =
      .error (.error (.invalidTypeCodeFor .descriptor c)) := by
  refine (afterCode_encode _ c b).trans ?_
  cases c <;> first | rfl | exact absurd rfl hc

omit [Chrono] in
/-- `DescribedValue::decode` takes one byte and calls `Descriptor::decode` behind it. -/
theorem described_eq_ok {value : AmqpReader Value} {v : Value} {b rest : Bytes}
    (h : Value.decodeDescribed value b = .ok (v, rest)) :
    ∃ c tail, b = TypeCode.toU8 c :: tail ∧ ∃ d mid, Descriptor.decode tail = .ok (d, mid) := by
  obtain ⟨c, tail, hb, hc⟩ := afterCode_eq_ok h
  split at hc
  · obtain ⟨d, mid, hread, -⟩ := Reader.bind_eq_ok.mp hc
    exact ⟨_, tail, hb, d, mid, hread⟩
  · simp [invalidTypeCode] at hc

/-- **A described value on the wire.**  One constructor, a descriptor and a value are refused
whatever follows, and a described value is written with one constructor more.

No hypothesis on the descriptor or the value is needed, as no descriptor starts with the code of
the constructor. -/
theorem described_wireForm_never (d : Descriptor) (v : Value) (rest : Bytes) :
    (∀ w rest', Value.decode (encode d ++ encode v ++ rest) ≠ .ok (w, rest')) ∧
      encode (Value.described d v) ≠ encode d ++ encode v := by
  constructor
  · intro w rest' h
    obtain ⟨c, tail, he, hc⟩ := descriptor_code d
    have hdesc : Value.decode (encode d ++ (encode v ++ rest)) =
        Value.decodeDescribed Value.decode (encode d ++ (encode v ++ rest)) :=
      value_decode_code he _
    rw [List.append_assoc, hdesc, he, List.append_assoc, List.append_assoc] at h
    obtain ⟨c', tail', hb, d', mid, hread⟩ := described_eq_ok h
    obtain ⟨-, rfl⟩ := List.cons.inj hb
    exact absurd (hread.symm.trans (descriptor_decode_code hc _)) (by simp)
  · intro h
    have hlen := congrArg List.length h
    rw [encode_described, List.length_append, List.length_append, List.length_append] at hlen
    have hone : (encode TypeCode.described).length = 1 := rfl
    omega

/-! ## 4. How a message starts

Which bytes a message can begin with, whoever has written it.  It serves to show that what is
read from the wrong place is not a message. -/

omit [Chrono] in
/-- The three forms of an unsigned long. -/
theorem ulong_eq_ok {n : UInt64} {b rest : Bytes} (h : decode b = .ok (n, rest)) :
    b = 0x80 :: (toBE 8 n.toNat ++ rest) ∨
      (∃ x : UInt8, n = x.toUInt64 ∧ b = 0x53 :: x :: rest) ∨ (n = 0 ∧ b = 0x44 :: rest) := by
  obtain ⟨c, tail, rfl, hc⟩ := afterCode_eq_ok h
  split at hc
  · exact Or.inl (congrArg _ (readU64_eq_ok hc))
  · obtain ⟨x, mid, hx, hpure⟩ := Reader.bind_eq_ok.mp hc
    simp only [Reader.pure_apply, Except.ok.injEq, Prod.mk.injEq] at hpure
    obtain ⟨rfl, rfl⟩ := hpure
    exact Or.inr (Or.inl ⟨x, rfl, congrArg _ (readU8_eq_ok hx)⟩)
  · simp only [Reader.pure_apply, Except.ok.injEq, Prod.mk.injEq] at hc
    obtain ⟨rfl, rfl⟩ := hc
    exact Or.inr (Or.inr ⟨rfl, rfl⟩)
  · simp [invalidTypeCode] at hc

omit [Chrono] in
/-- A descriptor that is a number other than 0.  The code behind the constructor decides.  Of the
codes that a descriptor may start with, two give a number that need not be 0. -/
theorem descriptor_ulong_eq_ok {n : UInt64} {b rest : Bytes} (hn : n ≠ 0)
    (h : Descriptor.decode b = .ok (.ulong n, rest)) :
    b = 0x00 :: 0x80 :: (toBE 8 n.toNat ++ rest) ∨
      ∃ x : UInt8, n = x.toUInt64 ∧ b = 0x00 :: 0x53 :: x :: rest := by
  obtain ⟨c, tail, rfl, hc⟩ := afterCode_eq_ok h
  split at hc
  · obtain ⟨c', tail', -, hc'⟩ := afterLookahead_eq_ok hc
    have hwrapped : (decodeAs Descriptor.ulong) tail = .ok (.ulong n, rest) →
        tail = 0x80 :: (toBE 8 n.toNat ++ rest) ∨
          ∃ x : UInt8, n = x.toUInt64 ∧ tail = 0x53 :: x :: rest := by
      intro hwrap
      obtain ⟨m, hm, hread⟩ := decodeAs_eq_ok hwrap
      obtain rfl : n = m := Descriptor.ulong.inj hm
      rcases ulong_eq_ok hread with h | h | ⟨hzero, -⟩
      · exact Or.inl h
      · exact Or.inr h
      · exact absurd hzero hn
    have hdone : tail = 0x80 :: (toBE 8 n.toNat ++ rest) ∨
        ∃ x : UInt8, n = x.toUInt64 ∧ tail = 0x53 :: x :: rest := by
      split at hc'
      · exact hwrapped hc'
      · exact hwrapped hc'
      · obtain ⟨d, mid, -, hpure⟩ := Reader.bind_eq_ok.mp hc'
        simp only [Reader.pure_apply, Except.ok.injEq, Prod.mk.injEq, Descriptor.ulong.injEq]
          at hpure
        exact absurd hpure.1.symm hn
      · obtain ⟨s, hs, -⟩ := decodeAs_eq_ok hc'
        exact absurd hs (by simp)
      · obtain ⟨s, hs, -⟩ := decodeAs_eq_ok hc'
        exact absurd hs (by simp)
      · simp [invalidTypeCode] at hc'
    rcases hdone with rfl | ⟨x, hx, rfl⟩
    · exact Or.inl rfl
    · exact Or.inr ⟨x, hx, rfl⟩
  · simp [invalidTypeCode] at hc

/-- A section that was read starts with a descriptor between 112 and 120. -/
theorem section_descriptor {s : MessageSection} {b rest : Bytes}
    (h : MessageSection.decode b = .ok (s, rest)) :
    ∃ (n : UInt64) (mid : Bytes), Descriptor.decode b = .ok (.ulong n, mid) ∧
      112 ≤ n.toNat ∧ n.toNat ≤ 120 := by
  obtain ⟨d, b', hlook, hsec⟩ := Reader.bind_eq_ok.mp h
  obtain ⟨rfl, mid, hd⟩ := Reader.lookahead_eq_ok hlook
  have hknown : d ∈ [messageHeader, messageBodyData, messageProperties, messageBodyValue,
      messageApplicationProperties, messageAnnotations, messageBodySequence,
      messageDeliveryAnnotations, messageFooter] := by
    by_contra hnot
    simp only [List.mem_cons, List.not_mem_nil, or_false, not_or] at hnot
    obtain ⟨h1, h2, h3, h4, h5, h6, h7, h8, h9⟩ := hnot
    simp [h1, h2, h3, h4, h5, h6, h7, h8, h9, messageParse] at hsec
  cases d with
  | symbol s => exact absurd hknown (by simp [messageHeader, messageBodyData, messageProperties,
      messageBodyValue, messageApplicationProperties, messageAnnotations, messageBodySequence,
      messageDeliveryAnnotations, messageFooter])
  | ulong n =>
    refine ⟨n, mid, hd, ?_⟩
    simp only [messageHeader, messageBodyData, messageProperties, messageBodyValue,
      messageApplicationProperties, messageAnnotations, messageBodySequence,
      messageDeliveryAnnotations, messageFooter, List.mem_cons, Descriptor.ulong.injEq,
      List.not_mem_nil, or_false] at hknown
    rcases hknown with rfl | rfl | rfl | rfl | rfl | rfl | rfl | rfl | rfl <;> decide

/-- **A message that is not empty** starts with the descriptor of a section, in one byte or in
eight. -/
theorem message_starts {m : Message} {b rest : Bytes} (hb : b ≠ [])
    (h : Message.decode b = .ok (m, rest)) :
    (∃ t, b = 0x00 :: 0x80 :: 0x00 :: 0x00 :: t) ∨
      ∃ x t, b = 0x00 :: 0x53 :: x :: t ∧ x ≠ (0 : UInt8) := by
  rw [Message.decode_eq, Message.decodeFrom_eq, if_neg (by simpa using hb)] at h
  obtain ⟨m', mid, hround, -⟩ := Reader.bind_eq_ok.mp h
  obtain ⟨s, mid', hsec, -⟩ := Reader.bind_eq_ok.mp hround
  obtain ⟨n, tail, hd, hlow, hhigh⟩ := section_descriptor hsec
  have hn : n ≠ 0 := by
    rintro rfl
    exact absurd hlow (by decide)
  rcases descriptor_ulong_eq_ok hn hd with rfl | ⟨x, rfl, rfl⟩
  · left
    have hbytes : ∀ k, 120 < 256 ^ k → UInt8.ofNat (n.toNat / 256 ^ k) = 0 := by
      intro k hk
      rw [Nat.div_eq_of_lt (by omega)]
      rfl
    refine ⟨toBE 6 n.toNat ++ tail, ?_⟩
    rw [toBE, toBE, hbytes 7 (by decide), hbytes 6 (by decide)]
    rfl
  · right
    refine ⟨x, tail, rfl, ?_⟩
    rintro rfl
    exact hn rfl

end Chrono

/-- A list of six elements, every one of them `Null`. -/
def sixNulls : Bytes := [0xc0, 0x07, 0x06, 0x40, 0x40, 0x40, 0x40, 0x40, 0x40]

/-- Five fields that are `Null`, which every reader takes, and a byte behind them. -/
def fiveNulls : Bytes := [0xc0, 0x06, 0x05, 0x40, 0x40, 0x40, 0x40, 0x40, 7]

/-- The five fields of a header, and a byte behind them. -/
def fiveFields : Bytes := [0xc0, 0x08, 0x05, 0x41, 0x50, 0x09, 0x43, 0x42, 0x52, 0x02, 7]

/-- A message id, a user id and an address, and a byte behind them. -/
def threeProperties : Bytes := [0xc0, 0x09, 0x03, 0x53, 0x09, 0xa0, 0x01, 0x01, 0xa1, 0x01, 0x61, 7]

/-- The rule at a list that both field readers take, and at a header and properties with values. -/
theorem listReaders_agree_iff_fields : letI := Chrono.range
    ∃ r₁ r₂ r₃ r₄,
      AmqpList.decodeWithFields listDecoderHeader {} fiveNulls =
        .ok ({ deliveryCount := 4 }, r₁) ∧ r₁ = [7] ∧
      AmqpList.decodeWithFields listDecoderProperties {} fiveNulls = .ok ({}, r₂) ∧ r₂ = [7] ∧
      AmqpList.decodeWithFields listDecoderHeader {} fiveFields =
        .ok (⟨true, 9, some 0, false, 2⟩, r₃) ∧ r₃ = [7] ∧
      AmqpList.decodeWithFields listDecoderProperties {} threeProperties =
        .ok ({ messageId := some (.ulong 9), userId := some [1], «to» := some "a" }, r₄) ∧
        r₄ = [7] := by
  let _ := Chrono.range
  have hnulls : decode fiveNulls = .ok ((⟨List.replicate 5 (.simple .null)⟩ : AmqpList), [7]) := by
    decide +kernel
  have hfields : decode fiveFields = .ok ((⟨[.simple (.boolean true), .simple (.ubyte 9),
      .simple (.uint 0), .simple (.boolean false), .simple (.uint 2)]⟩ : AmqpList), [7]) := by
    decide +kernel
  have hproperties : decode threeProperties = .ok ((⟨[.simple (.ulong 9), .simple (.binary [1]),
      .simple (.string "a")]⟩ : AmqpList), [7]) := by
    decide +kernel
  have h₁ : AmqpList.decodeWithFields listDecoderHeader {} fiveNulls =
      .ok ({ deliveryCount := 4 }, [7]) := by decide +kernel
  have h₂ : AmqpList.decodeWithFields listDecoderProperties {} fiveNulls = .ok ({}, [7]) := by
    decide +kernel
  have h₃ : AmqpList.decodeWithFields listDecoderHeader {} fiveFields =
      .ok (⟨true, 9, some 0, false, 2⟩, [7]) := by decide +kernel
  have h₄ : AmqpList.decodeWithFields listDecoderProperties {} threeProperties =
      .ok ({ messageId := some (.ulong 9), userId := some [1], «to» := some "a" }, [7]) := by
    decide +kernel
  exact ⟨_, _, _, _,
    h₁, ((listReaders_agree_iff hnulls).1 _ _ _ h₁).mpr ⟨5, _, rfl, by omega⟩,
    h₂, ((listReaders_agree_iff hnulls).2 _ _ _ h₂).mpr ⟨5, _, rfl, by omega⟩,
    h₃, ((listReaders_agree_iff hfields).1 _ _ _ h₃).mpr ⟨5, _, rfl, by omega⟩,
    h₄, ((listReaders_agree_iff hproperties).2 _ _ _ h₄).mpr ⟨3, _, rfl, by omega⟩⟩

/-- The field reader of a header leaves the sixth element of a list. -/
theorem sixNulls_shift : letI := Chrono.range
    ¬ ∀ (l : AmqpList) (h : Header) (rest rest' : Bytes), decode sixNulls = .ok (l, rest) →
      AmqpList.decodeWithFields listDecoderHeader {} sixNulls = .ok (h, rest') → rest' = rest := by
  let _ := Chrono.range
  intro hagree
  have hlist : decode sixNulls = .ok ((⟨List.replicate 6 (.simple .null)⟩ : AmqpList), []) := by
    decide +kernel
  have hfields : AmqpList.decodeWithFields listDecoderHeader {} sixNulls =
      .ok ({ deliveryCount := 4 }, [0x40]) := by decide +kernel
  exact absurd (hagree _ _ _ _ hlist hfields) (by decide)

/-- `Null` under the descriptor 0. -/
theorem described_null_wireForm : letI := Chrono.range
    RoundTrips (Value.simple .null) ∧
    ¬ (Value.decode (encode (Descriptor.ulong 0) ++ encode (Value.simple .null) ++ []) =
        .ok (Value.described (.ulong 0) (.simple .null), []) ∧
      encode (Value.described (.ulong 0) (.simple .null)) =
        encode (Descriptor.ulong 0) ++ encode (Value.simple .null)) := by
  let _ := Chrono.range
  refine ⟨simpleValue_roundTrips fun rest => ?_, fun h => ?_⟩
  · exact (afterLookahead_byte _ .null rest).trans (Reader.bind_of_ok (typeCode_decode .null rest))
  · exact absurd h.2 (by decide)

end RabbitMqStream.Amqp
