/-
# AMQP decoders make progress

Every AMQP decoder starts with a type code, which is one byte, and leaves a suffix of its
input.  So every decoder that succeeds has used at least one byte (`Progress`), which is what
bounds the two unbounded recursions of the decoder:

* `Value.decode_eq`: `Value::decode` is the body of the source, calling itself.
* `Message.decodeFrom_eq`: `Message::decode` reads one section after another until its input is
  empty.

Neither equation mentions the fuel of the definitions.

**The argument.**  A decoder that starts with a type code has used it when it succeeds, and the
rest of it never gives bytes back; both are derived along the structure of the decoders.  The body
of `Value::decode` therefore calls itself on shorter inputs only (`valueWith_guarded`), and
`Reader.fix_eq` turns that into the equation.  For the loop over the sections it is one section
that uses a byte.
-/
import RabbitMqStream.Amqp.Decode

namespace RabbitMqStream.Amqp

open Wire

/-! ## 1. Simple values

All leaves start with a type code, and nothing that comes behind it gives bytes back. -/

open Reader (Shrinks AgreeBelow)

theorem typeCode_consumes : TypeCode.decode.Consumes 1 := by
  refine readU8_consumes.bind (k := 0) fun code => ?_
  split
  · exact Reader.consumes_pure _
  · exact Reader.consumes_throw _ _

instance : Shrinks TypeCode.decode := typeCode_consumes.shrinks

instance {α : Type} (t : Target) (c : TypeCode) : Shrinks (invalidTypeCode t c : AmqpReader α) :=
  ⟨Reader.consumes_throw 0 _⟩

instance {α : Type} (msg : ParseMessage) : Shrinks (messageParse msg : AmqpReader α) :=
  ⟨Reader.consumes_throw 0 _⟩

/-- A decoder that starts with a type code uses at least that byte. -/
theorem afterCode_consumes {α : Type} {f : TypeCode → AmqpReader α} (h : ∀ c, Shrinks (f c)) :
    (TypeCode.decode >>= f).Consumes 1 := typeCode_consumes.bind fun c => (h c).consumes

/-- A type whose decoder uses at least one byte. -/
class Progress (α : Type) [AmqpDecoder α] : Prop where
  consumes : (decode : AmqpReader α).Consumes 1

theorem decodeAs_consumes {α β : Type} [AmqpDecoder α] [Progress α] (f : α → β) :
    (decodeAs f).Consumes 1 := Progress.consumes.bind fun x => Reader.consumes_pure (f x)

instance {α β : Type} [AmqpDecoder α] [Progress α] (f : α → β) : Shrinks (decodeAs f) :=
  (decodeAs_consumes f).shrinks

instance : Progress UInt8 := ⟨afterCode_consumes fun c => by split <;> infer_instance⟩
instance : Progress UInt16 := ⟨afterCode_consumes fun c => by split <;> infer_instance⟩
instance : Progress UInt32 := ⟨afterCode_consumes fun c => by split <;> infer_instance⟩
instance : Progress UInt64 := ⟨afterCode_consumes fun c => by split <;> infer_instance⟩
instance : Progress Int8 := ⟨afterCode_consumes fun c => by split <;> infer_instance⟩
instance : Progress Int16 := ⟨afterCode_consumes fun c => by split <;> infer_instance⟩
instance : Progress Int32 := ⟨afterCode_consumes fun c => by split <;> infer_instance⟩
instance : Progress Int64 := ⟨afterCode_consumes fun c => by split <;> infer_instance⟩
instance : Progress AmqpFloat := ⟨afterCode_consumes fun c => by split <;> infer_instance⟩
instance : Progress AmqpDouble := ⟨afterCode_consumes fun c => by split <;> infer_instance⟩
instance : Progress Bool := ⟨afterCode_consumes fun c => by split <;> infer_instance⟩
instance : Progress Bytes := ⟨afterCode_consumes fun c => by split <;> infer_instance⟩

instance (n : ℕ) : Shrinks (readText n) :=
  Shrinks.bind inferInstance fun bs => by split <;> infer_instance

instance : Progress String := ⟨afterCode_consumes fun c => by split <;> infer_instance⟩
instance : Progress Symbol := ⟨afterCode_consumes fun c => by split <;> infer_instance⟩

instance : Progress Char := ⟨afterCode_consumes fun c => by
  split
  · exact Shrinks.bind inferInstance fun n => by split <;> infer_instance
  · infer_instance⟩

instance : Progress Uuid := ⟨afterCode_consumes fun c => by
  split
  · exact Shrinks.bind inferInstance fun bs => by split <;> infer_instance
  · infer_instance⟩

/-- Looking at the type code first and then reading the whole item. -/
theorem afterLookahead_consumes {α : Type} {f : TypeCode → AmqpReader α}
    (h : ∀ c, (f c).Consumes 1) : (Reader.lookahead TypeCode.decode >>= f).Consumes 1 :=
  Reader.Consumes.afterLookahead h

theorem dropCode_consumes {α : Type} (x : α) :
    (do let _ ← TypeCode.decode; pure x : AmqpReader α).Consumes 1 :=
  afterCode_consumes fun _ => inferInstance

instance {α : Type} [AmqpDecoder α] [Progress α] : Progress (Option α) :=
  ⟨afterLookahead_consumes fun c => by
    split
    · exact dropCode_consumes _
    · exact decodeAs_consumes _⟩

theorem descriptor_consumes : Descriptor.decode.Consumes 1 := by
  refine afterCode_consumes fun c => ?_
  split
  · exact Shrinks.bind inferInstance fun c => by split <;> infer_instance
  · infer_instance

instance : Shrinks Descriptor.decode := descriptor_consumes.shrinks

instance : Progress Descriptor := ⟨descriptor_consumes⟩

instance : Progress MessageId := ⟨afterLookahead_consumes fun c => by
  cases c <;> first | exact decodeAs_consumes _ | exact Reader.consumes_throw _ _⟩

instance : Progress AnnonationKey := ⟨afterLookahead_consumes fun c => by
  cases c <;> first | exact decodeAs_consumes _ | exact Reader.consumes_throw _ _⟩

/-! ## 2. Compound values

With `value` in the place of the recursive call.  It is enough to know of it that it gives no
bytes back, as the type code of the compound has been used. -/

instance : Shrinks Compound.count8 := inferInstanceAs (Shrinks (_ >>= _))

instance : Shrinks Compound.count32 := inferInstanceAs (Shrinks (_ >>= _))

instance (value : AmqpReader Value) [Shrinks value] (n : ℕ) : Shrinks (AmqpList.elems value n) :=
  inferInstanceAs (Shrinks (Reader.loop _ n []))

theorem list_consumes (value : AmqpReader Value) [Shrinks value] :
    (AmqpList.decodeWith value).Consumes 1 :=
  afterCode_consumes fun c => by split <;> infer_instance

section Map

variable {K V : Type} [HashKey K] (key : AmqpReader K) (value : AmqpReader V)

instance (m : HashMap K V) (k : K) (v : V) : Shrinks (Map.insert m k v) := by
  unfold Map.insert
  split <;> infer_instance

instance entries_shrinks [Shrinks key] [Shrinks value] : ∀ (count : ℕ) (m : HashMap K V),
    Shrinks (Map.entries key value count m)
  | 0, _ => inferInstanceAs (Shrinks (pure _))
  | 1, _ => inferInstanceAs (Shrinks (throw _))
  | count + 2, _ => by
    have := entries_shrinks count
    exact inferInstanceAs (Shrinks (_ >>= _))

theorem map_consumes [Shrinks key] [Shrinks value] : (Map.decodeWith key value).Consumes 1 :=
  afterCode_consumes fun c => by split <;> infer_instance

end Map

instance {K V : Type} [HashKey K] [AmqpDecoder K] [AmqpDecoder V] [hk : Progress K]
    [hv : Progress V] : Progress (HashMap K V) := by
  have := hk.consumes.shrinks
  have := hv.consumes.shrinks
  exact ⟨map_consumes _ _⟩

theorem described_consumes (value : AmqpReader Value) [Shrinks value] :
    (Value.decodeDescribed value).Consumes 1 :=
  afterCode_consumes fun c => by split <;> infer_instance

theorem collection_consumes (value : AmqpReader Value) [Shrinks value] :
    (Value.decodeCollection value).Consumes 1 := by
  have hlist : (do let items ← AmqpList.decodeWith value; pure (Value.list items)).Consumes 1 :=
    (list_consumes value).bind fun _ => Reader.consumes_pure _
  have hmap : (do let map ← Map.decodeWith value value; pure (Value.map map.entries)).Consumes 1 :=
    (map_consumes value value).bind fun _ => Reader.consumes_pure _
  refine afterLookahead_consumes fun c => ?_
  cases c with
  | list0 | list8 | list32 => exact hlist
  | map8 | map32 => exact hmap
  | _ => exact Reader.consumes_throw _ _

/-! Each compound decoder calls `Value::decode` behind its type code only. -/

section Agree

variable {m : ℕ} {value value' : AmqpReader Value} (h : AgreeBelow m value value')
  (hc : value.Consumes 0)

include h hc

theorem described_agree :
    AgreeBelow (m + 1) (Value.decodeDescribed value) (Value.decodeDescribed value') := by
  refine AgreeBelow.guard typeCode_consumes fun c => ?_
  split
  · exact (Reader.agreeBelow_refl m _).bind Shrinks.consumes fun d =>
      h.bind hc fun v => Reader.agreeBelow_refl m _
  · exact Reader.agreeBelow_refl m _

theorem elems_agree (count : ℕ) :
    AgreeBelow m (AmqpList.elems value count) (AmqpList.elems value' count) :=
  AgreeBelow.loop (fun _ => h.bind hc fun _ => Reader.agreeBelow_refl m _)
    (fun _ => hc.bind fun _ => Reader.consumes_pure _) count []

theorem list_agree :
    AgreeBelow (m + 1) (AmqpList.decodeWith value) (AmqpList.decodeWith value') := by
  refine AgreeBelow.guard typeCode_consumes fun c => ?_
  split
  · exact Reader.agreeBelow_refl m _
  · exact (Reader.agreeBelow_refl m _).bind Shrinks.consumes (elems_agree h hc)
  · exact (Reader.agreeBelow_refl m _).bind Shrinks.consumes (elems_agree h hc)
  · exact Reader.agreeBelow_refl m _

theorem entries_agree : ∀ (count : ℕ) (map : HashMap Value Value),
    AgreeBelow m (Map.entries value value count map) (Map.entries value' value' count map)
  | 0, _ => Reader.agreeBelow_refl m _
  | 1, _ => Reader.agreeBelow_refl m _
  | count + 2, map => h.bind hc fun k => h.bind hc fun v =>
      (Reader.agreeBelow_refl m (Map.insert map k v)).bind Shrinks.consumes fun map =>
        entries_agree count map

theorem map_agree :
    AgreeBelow (m + 1) (Map.decodeWith value value) (Map.decodeWith value' value') := by
  refine AgreeBelow.guard typeCode_consumes fun c => ?_
  split
  · exact (Reader.agreeBelow_refl m _).bind Shrinks.consumes fun n => entries_agree h hc n _
  · exact (Reader.agreeBelow_refl m _).bind Shrinks.consumes fun n => entries_agree h hc n _
  · exact Reader.agreeBelow_refl m _

theorem collection_agree :
    AgreeBelow (m + 1) (Value.decodeCollection value) (Value.decodeCollection value') := by
  have : Shrinks value := ⟨hc⟩
  have hlist := (list_agree h hc).bind ((list_consumes value).mono (Nat.zero_le 1))
    fun items => Reader.agreeBelow_refl (m + 1) (pure (Value.list items))
  have hmap := (map_agree h hc).bind ((map_consumes value value).mono (Nat.zero_le 1))
    fun map => Reader.agreeBelow_refl (m + 1) (pure (Value.map map.entries))
  refine (Reader.agreeBelow_refl (m + 1) _).bind (Reader.consumes_lookahead _) fun c => ?_
  cases c with
  | list0 | list8 | list32 => exact hlist
  | map8 | map32 => exact hmap
  | _ => exact Reader.agreeBelow_refl _ _

end Agree

/-! ## 3. Values and messages

The recursive call stands behind a type code, so it is made on a shorter input.  With that the
recursion equation holds, and the values make progress as their parts do. -/

section Chrono

variable [Chrono]

instance : Progress Timestamp := ⟨afterCode_consumes fun c => by
  split
  · exact Shrinks.bind inferInstance fun n => by split <;> infer_instance
  · infer_instance⟩

instance : Progress SimpleValue := ⟨afterLookahead_consumes fun c => by
  cases c <;> first
    | exact decodeAs_consumes _
    | exact Reader.consumes_throw _ _
    | exact dropCode_consumes _⟩

theorem valueWith_consumes (value : AmqpReader Value) [Shrinks value] :
    (Value.decodeWith value).Consumes 1 := by
  refine afterLookahead_consumes fun c => ?_
  cases c with
  | described => exact described_consumes value
  | list0 | list8 | list32 | map8 | map32 | array8 | array32 => exact collection_consumes value
  | _ => exact decodeAs_consumes _

theorem valueWith_agree {m : ℕ} {value value' : AmqpReader Value}
    (h : AgreeBelow m value value') (hc : value.Consumes 0) :
    AgreeBelow (m + 1) (Value.decodeWith value) (Value.decodeWith value') := by
  refine (Reader.agreeBelow_refl (m + 1) _).bind (Reader.consumes_lookahead _) fun c => ?_
  cases c with
  | described => exact described_agree h hc
  | list0 | list8 | list32 | map8 | map32 | array8 | array32 => exact collection_agree h hc
  | _ => exact Reader.agreeBelow_refl _ _

theorem valueWith_guarded : Reader.Guarded Value.decodeWith where
  consumes r hr := by
    have : Shrinks r := ⟨hr⟩
    exact (valueWith_consumes r).mono (Nat.zero_le 1)
  agree _ _ _ hr h := valueWith_agree h hr

/-- **`Value::decode` calls itself.** -/
theorem Value.decode_eq : Value.decode = Value.decodeWith Value.decode :=
  Reader.fix_eq valueWith_guarded

instance : Shrinks Value.decode := ⟨Reader.fix_consumes valueWith_guarded⟩

instance : Progress Value where
  consumes := by
    change Value.decode.Consumes 1
    rw [Value.decode_eq]
    exact valueWith_consumes Value.decode

instance : Progress AmqpList :=
  ⟨(list_consumes Value.decode).bind fun _ => Reader.consumes_pure _⟩

instance fields_shrinks {T : Type} (f : ℕ → T → AmqpReader T) [hf : ∀ i x, Shrinks (f i x)] :
    ∀ (count idx : ℕ) (dest : T), Shrinks (AmqpList.fields f count idx dest) := by
  intro count
  induction count with
  | zero => exact fun _ dest => inferInstanceAs (Shrinks (pure dest))
  | succ count ih => exact fun idx dest => (hf idx dest).bind fun x => ih (idx + 1) x

instance {T : Type} (f : ℕ → T → AmqpReader T) [∀ i x, Shrinks (f i x)] (dest : T) :
    Shrinks (AmqpList.decodeWithFields f dest) :=
  Shrinks.bind inferInstance fun c => by split <;> infer_instance

instance {α T : Type} [AmqpDecoder α] [Progress α] (set : Option α → T) :
    Shrinks (listField set) := inferInstanceAs (Shrinks (decodeAs set))

instance (idx : ℕ) (dest : Header) : Shrinks (listDecoderHeader idx dest) := by
  unfold listDecoderHeader
  split <;> infer_instance

instance (idx : ℕ) (dest : Properties) : Shrinks (listDecoderProperties idx dest) := by
  unfold listDecoderProperties
  split <;> infer_instance

omit [Chrono] in
theorem header_consumes : Header.decode.Consumes 1 := by
  refine descriptor_consumes.bind (k := 0) fun d => ?_
  split <;> exact Shrinks.consumes

theorem properties_consumes : Properties.decode.Consumes 1 := by
  refine descriptor_consumes.bind (k := 0) fun d => ?_
  split <;> exact Shrinks.consumes

instance : Progress Header := ⟨header_consumes⟩

instance : Progress Properties := ⟨properties_consumes⟩

omit [Chrono] in
theorem decodeRemaining_consumes {α : Type} [AmqpDecoder α] [Progress α]
    (f : α → MessageSection) : (decodeRemaining f).Consumes 1 :=
  descriptor_consumes.bind (k := 0) fun _ => Shrinks.consumes

theorem messageSection_consumes : MessageSection.decode.Consumes 1 := by
  refine Reader.Consumes.afterLookahead fun d => ?_
  refine .ite (decodeAs_consumes _) (.ite (decodeRemaining_consumes _) ?_)
  refine .ite (decodeAs_consumes _) (.ite (decodeRemaining_consumes _) ?_)
  refine .ite (decodeRemaining_consumes _) (.ite (decodeRemaining_consumes _) ?_)
  refine .ite (decodeRemaining_consumes _) (.ite (decodeRemaining_consumes _) ?_)
  exact .ite (decodeRemaining_consumes _) (Reader.consumes_throw _ _)

theorem round_consumes (message : Message) : (Message.round message).Consumes 1 :=
  messageSection_consumes.bind fun _ => Reader.consumes_pure _

/-- `Message::decode` from a message that already has some of its sections. -/
def Message.decodeFrom (message : Message) : AmqpReader Message :=
  Reader.untilEmpty Message.round (.error (.incomplete 0)) message

/-- **The loop of `Message::decode`**: stop at the end of the input, else read a section. -/
theorem Message.decodeFrom_eq (message : Message) (input : Bytes) :
    message.decodeFrom input =
      if input.isEmpty then .ok (message, input)
      else (message.round >>= Message.decodeFrom) input :=
  Reader.untilEmpty_eq round_consumes message input

theorem Message.decode_eq : Message.decode = Message.decodeFrom {} := rfl

end Chrono

end RabbitMqStream.Amqp
