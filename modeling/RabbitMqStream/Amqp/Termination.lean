/-
# AMQP decoders terminate

`Message::decode` is a loop without a counter, over decoders that call each other: a value may be a
list, a map or a described value, with counts that come out of the input and are not compared with
what is left of it.  What bounds all of it is that no decoder succeeds without using its type code.

* `decoders_terminate`: every decoder of the layer leaves a strict suffix of its input; the calls of
  `Value::decode` are no deeper inside each other than the input is long, whatever a deeper call
  would do; the loop of `Message::decode` ends on every input, after at most as many rounds as the
  input has bytes; and when it succeeds there is nothing left.
* `fields_steps_free`: the one step of the layer that uses nothing, a field behind the known ones in
  `List::decode_with_fields`.  The count bounds these, and the section has used its descriptor.
* `map_wrapping_terminates`: `Map::decode` in a build without overflow checks, where the count of an
  odd map wraps and does not end the loop.
-/
import RabbitMqStream.Amqp.Progress
import RabbitMqStream.Wire.Termination

namespace RabbitMqStream.Amqp

open Wire

/-! ## 1. The steps that use nothing

The loop over the fields of a section goes on behind the last field, without reading anything.
It has a counter, so it ends. -/

/-- Behind the five fields of a header a step of `decode_with_fields` leaves everything as it is,
and so does one behind the thirteen of the properties. -/
theorem fields_steps_free [Chrono] (idx : ℕ) (input : Bytes) :
    (5 ≤ idx → ∀ dest, listDecoderHeader idx dest input = .ok (dest, input)) ∧
      (13 ≤ idx → ∀ dest, listDecoderProperties idx dest input = .ok (dest, input)) := by
  constructor
  · intro h dest
    unfold listDecoderHeader
    split <;> first | omega | rfl
  · intro h dest
    unfold listDecoderProperties
    split <;> first | omega | rfl

/-! ## 2. Maps in a build without overflow checks

With overflow checks the loop panics at an odd count.  Without them the count goes from 1 to `2
^ 32 - 1`, and what ends the loop is the input. -/

section Map

variable {K V : Type} [HashKey K]

/-- One round of `while count > 0`, where `count -= 2` wraps. -/
def Map.roundWrapping (key : AmqpReader K) (value : AmqpReader V) (state : UInt32 × HashMap K V) :
    AmqpReader (UInt32 × HashMap K V) := do
  let k ← key
  let v ← value
  let map ← Map.insert state.2 k v
  pure (state.1 - 2, map)

/-- `while count > 0`. -/
def Map.counting (state : UInt32 × HashMap K V) (_ : Bytes) : Prop := 0 < state.1

theorem roundWrapping_consumes [AmqpDecoder K] [AmqpDecoder V] [hk : Progress K]
    [hv : Progress V] (state : UInt32 × HashMap K V) :
    (Map.roundWrapping decode decode state).Consumes 1 := by
  have := hv.consumes.shrinks
  exact hk.consumes.bind (k := 0) fun k => Reader.Shrinks.consumes

/-- **The loop of `Map::decode` ends** without overflow checks too, after at most one round more
than there are bytes. -/
theorem map_wrapping_terminates [AmqpDecoder K] [AmqpDecoder V] [Progress K] [Progress V]
    (count : UInt32) (map : HashMap K V) (input : Bytes) :
    ∃ n result, Reader.Loops Map.counting (Map.roundWrapping decode decode) n (count, map) input
        result ∧ n ≤ input.length + 1 := by
  obtain ⟨n, result, hloops⟩ : ∃ n result, Reader.Loops Map.counting
      (Map.roundWrapping decode decode) n (count, map) input result :=
    Reader.loops_exists roundWrapping_consumes (count, map) input
  exact ⟨n, result, hloops, (hloops.le roundWrapping_consumes).1⟩

end Map

/-! ## 3. All decoders

The suffixes of all decoders, the depth of the recursion and the rounds of the loop, for any
types of keys and values that make progress. -/

theorem leavesLess {α : Type} [AmqpDecoder α] [h : Progress α] :
    (decode : AmqpReader α).LeavesLess := h.consumes.leavesLess

section Chrono

variable [Chrono]

/-- `while !input.is_empty()`, the loop of `Message::decode`. -/
abbrev Message.Loops : ℕ → Message → Bytes →
    Except (Fault AmqpDecodeError) (Message × Bytes) → Prop :=
  Reader.Loops (fun _ input => input ≠ []) Message.round

/-- The loop of `Message::decode` ends in what the model of it returns, and in nothing else. -/
theorem message_loops (input : Bytes) :
    (∃ n ≤ input.length, Message.Loops n {} input (Message.decode input)) ∧
      ∀ n result, Message.Loops n {} input result →
        n ≤ input.length ∧ result = Message.decode input := by
  obtain ⟨n, hloops⟩ := Reader.untilEmpty_loops (e := .error (.incomplete 0)) round_consumes {} input
  have hle : ∀ {n result}, Message.Loops n {} input result → n ≤ input.length := fun h =>
    (h.le round_consumes).2 (by simp)
  exact ⟨⟨n, hle hloops, hloops⟩, fun m result h => ⟨hle h, (h.unique hloops).2⟩⟩

/-- **The decoders make progress and terminate**, on every input: a success leaves a strict suffix;
`Value::decode` is over before its calls are nested deeper than the input is long; the loop of
`Message::decode` ends, in one way, after no more rounds than there are bytes, and a message that
is decoded leaves nothing.

The suffixes are those of `Progress`, without the bytes that are used but with the one byte that
has to be.  The rest are the statements of `Wire/Termination.lean` about the recursion and the
loop, for a body that is guarded and rounds that use a byte. -/
theorem decoders_terminate {K V : Type} [HashKey K] [AmqpDecoder K] [AmqpDecoder V] [Progress K]
    [Progress V] :
    ((decode : AmqpReader Value).LeavesLess ∧
      (decode : AmqpReader SimpleValue).LeavesLess ∧
      (decode : AmqpReader AmqpList).LeavesLess ∧
      (decode : AmqpReader (HashMap K V)).LeavesLess ∧
      (decode : AmqpReader (HashMap Value Value)).LeavesLess ∧
      (decode : AmqpReader Annotations).LeavesLess ∧
      (decode : AmqpReader ApplicationProperties).LeavesLess ∧
      (Value.decodeDescribed decode).LeavesLess ∧
      (decode : AmqpReader Descriptor).LeavesLess ∧
      (decode : AmqpReader AnnonationKey).LeavesLess ∧
      (decode : AmqpReader MessageId).LeavesLess ∧
      MessageSection.decode.LeavesLess) ∧
    (∀ (deeper : AmqpReader Value) (input : Bytes),
      Reader.nested Value.decodeWith deeper (input.length + 1) input = Value.decode input) ∧
    (∀ input : Bytes,
      (∃ n ≤ input.length, Message.Loops n {} input (Message.decode input)) ∧
      (∀ n result, Message.Loops n {} input result →
        n ≤ input.length ∧ result = Message.decode input) ∧
      ∀ message rest, Message.decode input = .ok (message, rest) → rest = []) := by
  refine ⟨⟨leavesLess, leavesLess, leavesLess, leavesLess, leavesLess, leavesLess, leavesLess, ?_,
    leavesLess, leavesLess, leavesLess, messageSection_consumes.leavesLess⟩, ?_, ?_⟩
  · have : Reader.Shrinks (decode : AmqpReader Value) := Progress.consumes.shrinks
    exact (described_consumes decode).leavesLess
  · intro deeper input
    exact Reader.nested_eq_fix valueWith_guarded deeper input
  · intro input
    obtain ⟨⟨n, hle, hloops⟩, hall⟩ := message_loops input
    refine ⟨⟨n, hle, hloops⟩, hall, fun message rest h => ?_⟩
    rw [h] at hloops
    exact hloops.rest_eq_nil

end Chrono

/-- The same, for a map from annotation keys to booleans, and a message of one section, a value
that is the list of two nulls. -/
theorem decoders_terminate_sample : letI := Chrono.range
    (decode : AmqpReader (HashMap AnnonationKey Bool)).LeavesLess ∧
      ∃ n ≤ 8, Message.Loops n {} [0, 83, 119, 192, 3, 2, 64, 64]
        (.ok ({ body := { value := some (.list [.simple .null, .simple .null]) } }, [])) := by
  let _ := Chrono.range
  have hall := decoders_terminate (K := AnnonationKey) (V := Bool)
  have hdecode : Message.decode [0, 83, 119, 192, 3, 2, 64, 64] =
      .ok ({ body := { value := some (.list [.simple .null, .simple .null]) } }, []) := by
    decide +kernel
  have hloops := (hall.2.2 [0, 83, 119, 192, 3, 2, 64, 64]).1
  rw [hdecode] at hloops
  exact ⟨hall.1.2.2.2.1, hloops⟩

end RabbitMqStream.Amqp
