/-
# The sizes of AMQP values and messages

Every AMQP encoder comes with a size function of its own, and the sizes are what the crate
writes in front of lists, maps and published messages.  This module says exactly when the two
agree, for values and for whole messages.

They do not always:

* **Small longs.**  `Long::encoded_size` gives 3 for a number that fits a byte, `Long::encode`
  writes 2 bytes for it.  Every other simple value has the right size, and lists, maps and
  described values pass on what their parts are off by, so the size of a value exceeds its
  encoding by the number of small longs in it (`announces_value`).
* **Properties of 253 or 254 bytes.**  `Properties::encoded_size` picks the wide form when the
  fields and the descriptor together pass 255 bytes, `Properties::encode` when the fields and
  the count do.  Between the two bounds the size is 6 too large (`announces_properties`).

Main results:

* `value_encodedSize_eq_iff`: the size of a value is right exactly when it has no small long in
  it.
* `message_encodedSize_eq_iff`: the size of a message with right sizes at its leaves is right
  exactly when its properties do not take 253 or 254 bytes.

**The argument.**  What a size is off by is a number, and numbers add up: with `Announces` it is
carried from the leaves to the value by the structure of the encoder, modulo `2 ^ 32` and without
a bound.  At the top it is a question of numbers.  What is off is no more than there are bytes, so
it is less than `2 ^ 32`, and the size is right exactly when it is zero.
-/
import Mathlib.Algebra.Order.BigOperators.Group.List
import Mathlib.Algebra.Order.Group.Nat
import RabbitMqStream.Amqp.Encode

namespace RabbitMqStream.Amqp

open Wire

/-! ## 1. Simple values

One lemma a type, each of which compares the two tests that choose the form.  For `Long` they
disagree by one byte on small numbers; for texts they agree as long as nothing is cut off by a
cast. -/

@[simp] theorem encode_code (c : TypeCode) : encode c = [c.toU8] := rfl

theorem announces_u32 (n : UInt32) : Announces (encodedSize n) (encode n) 0 := by
  simp only [AmqpEncoder.encodedSize, AmqpEncoder.encode]
  split
  · rfl
  · split <;> rfl

theorem announces_u64 (n : UInt64) : Announces (encodedSize n) (encode n) 0 := by
  simp only [AmqpEncoder.encodedSize, AmqpEncoder.encode]
  split
  · rfl
  · split <;> rfl

theorem announces_i32 (n : Int32) : Announces (encodedSize n) (encode n) 0 := by
  simp only [AmqpEncoder.encodedSize, AmqpEncoder.encode]
  split <;> rfl

/-- `Long::encoded_size` is one too large for a number that fits a byte. -/
theorem announces_i64 (n : Int64) :
    Announces (encodedSize n) (encode n) (if Long.isWide n then 0 else 1) := by
  simp only [AmqpEncoder.encodedSize, AmqpEncoder.encode]
  split <;> rfl

theorem announces_uuid (u : Uuid) : Announces (encodedSize u) (encode u) 0 := by
  simp only [AmqpEncoder.encodedSize, AmqpEncoder.encode, Announces, List.length_append,
    u.length_eq]
  rfl

/-- Below `2 ^ 32` the casts in the size and in the encoder of a string change nothing. -/
theorem variableSize_eq {len : ℕ} (h : len < 2 ^ 32) :
    variableSize len = UInt32.ofNat ((if len > 255 then 5 else 2) + len) := by
  have hcmp : UInt32.ofNat len > 255 ↔ len > 255 := by
    rw [gt_iff_lt, UInt32.lt_iff_toNat_lt, UInt32.toNat_ofNat', Nat.mod_eq_of_lt h]
    rfl
  simp only [variableSize, hcmp, UInt32.ofNat_add]
  split <;> rfl

theorem announces_text (code8 code32 : TypeCode) {s : String}
    (h : (encodeText code8 code32 s).length < 2 ^ 32) :
    Announces (variableSize (asBytes s).length) (encodeText code8 code32 s) 0 := by
  simp only [encodeText, List.length_append] at h
  rw [Announces, variableSize_eq (by omega), encodeText, List.length_append]
  split <;> simp

theorem announces_binary {bs : Bytes} (h : (encode bs).length < 2 ^ 32) :
    Announces (encodedSize bs) (encode bs) 0 := by
  simp only [AmqpEncoder.encode, List.length_append] at h
  have hlen : (UInt32.ofNat bs.length).toNat = bs.length := by
    rw [UInt32.toNat_ofNat']; omega
  have hcmp : UInt32.ofNat bs.length > 255 ↔ bs.length > 255 := by
    rw [gt_iff_lt, UInt32.lt_iff_toNat_lt, hlen]
    rfl
  simp only [AmqpEncoder.encodedSize, AmqpEncoder.encode, Announces, hcmp,
    variableSize_eq (show bs.length < 2 ^ 32 by omega), List.length_append]
  split <;> simp

/-- How much the size of a simple value is off by. -/
def SimpleValue.excess : SimpleValue → ℕ
  | .long n => if Long.isWide n then 0 else 1
  | _ => 0

theorem announces_simple (s : SimpleValue) (h : (encode s).length < 2 ^ 32) :
    Announces (encodedSize s) (encode s) s.excess := by
  cases s with
  | uint n => exact announces_u32 n
  | ulong n => exact announces_u64 n
  | int n => exact announces_i32 n
  | long n => exact announces_i64 n
  | uuid u => exact announces_uuid u
  | binary bs => exact announces_binary h
  | string s => exact announces_text .string8 .string32 h
  | symbol s => exact announces_text .symbol8 .symbol32 h
  | _ => rfl

theorem announces_described : Announces 1 (encode TypeCode.described) 0 := rfl

theorem announces_descriptor (d : Descriptor) (h : (encode d).length < 2 ^ 32) :
    Announces (encodedSize d) (encode d) 0 := by
  cases d with
  | ulong v => exact Announces.append announces_described (announces_u64 v)
  | symbol v =>
    have hv : (encode v).length < 2 ^ 32 := by
      simp only [AmqpEncoder.encode, List.length_append] at h ⊢
      omega
    exact Announces.append announces_described (announces_text .symbol8 .symbol32 hv)

/-! ## 2. Values

An induction over the value.  The folds of the size functions and the loops of the encoder go
over the same parts, so what the parts are off by adds up. -/

namespace Value

/-! The folds and loops inside the recursion are the ones of the standard library. -/

theorem itemsSize_eq (acc : UInt32) (items : List Value) :
    itemsSize acc items = items.foldl (fun a v => a + encodedSize v) acc := by
  induction items generalizing acc with
  | nil => rfl
  | cons v vs ih => rw [itemsSize, List.foldl_cons, ih]

theorem entriesSize_eq (acc : UInt32) (entries : List (Value × Value)) :
    entriesSize acc entries =
      entries.foldl (fun a e => a + encodedSize e.1 + encodedSize e.2) acc := by
  induction entries generalizing acc with
  | nil => rfl
  | cons e es ih => rw [entriesSize, entrySize, List.foldl_cons, ih]

theorem encodeItems_eq (items : List Value) : encodeItems items = items.flatMap encode := by
  induction items with
  | nil => rfl
  | cons v vs ih => rw [encodeItems, List.flatMap_cons, ih]

theorem encodeEntries_eq (entries : List (Value × Value)) :
    encodeEntries entries = entries.flatMap (fun e => encode e.1 ++ encode e.2) := by
  induction entries with
  | nil => rfl
  | cons e es ih => rw [encodeEntries, encodeEntry, List.flatMap_cons, ih]

end Value

theorem encodedSize_list (items : List Value) : encodedSize (Value.list items) =
    Compound.encodedSize (items.foldl (fun a v => a + encodedSize v) 0) :=
  congrArg Compound.encodedSize (Value.itemsSize_eq 0 items)

theorem encode_list (items : List Value) : encode (Value.list items) =
    AmqpList.frame (items.foldl (fun a v => a + encodedSize v) 0) items.length ++
      items.flatMap encode := by
  change AmqpList.frame (Value.itemsSize 0 items) items.length ++ Value.encodeItems items = _
  rw [Value.itemsSize_eq, Value.encodeItems_eq]
  rfl

theorem encodedSize_map (entries : List (Value × Value)) : encodedSize (Value.map entries) =
    Compound.encodedSize
      (entries.foldl (fun a e => a + encodedSize e.1 + encodedSize e.2) 0) :=
  congrArg Compound.encodedSize (Value.entriesSize_eq 0 entries)

theorem encode_map (entries : List (Value × Value)) : encode (Value.map entries) =
    Map.frame (entries.foldl (fun a e => a + encodedSize e.1 + encodedSize e.2) 0)
      entries.length ++ entries.flatMap (fun e => encode e.1 ++ encode e.2) := by
  change Map.frame (Value.entriesSize 0 entries) entries.length ++ Value.encodeEntries entries = _
  rw [Value.entriesSize_eq, Value.encodeEntries_eq]
  rfl

theorem encode_described (d : Descriptor) (v : Value) :
    encode (Value.described d v) = encode TypeCode.described ++ encode d ++ encode v := rfl

theorem encodedSize_described (d : Descriptor) (v : Value) :
    encodedSize (Value.described d v) = 1 + encodedSize d + encodedSize v := rfl

namespace Value

mutual

/-- The simple values in a value, map keys included. -/
def leaves : Value → List SimpleValue
  | .simple s => [s]
  | .list items => itemsLeaves items
  | .map entries => entriesLeaves entries
  | .described _ v => leaves v

def itemsLeaves : List Value → List SimpleValue
  | [] => []
  | v :: vs => leaves v ++ itemsLeaves vs

def entriesLeaves : List (Value × Value) → List SimpleValue
  | [] => []
  | e :: es => entryLeaves e ++ entriesLeaves es

def entryLeaves : Value × Value → List SimpleValue
  | (k, v) => leaves k ++ leaves v

end

theorem itemsLeaves_eq (items : List Value) : itemsLeaves items = items.flatMap leaves := by
  induction items with
  | nil => rfl
  | cons v vs ih => rw [itemsLeaves, List.flatMap_cons, ih]

theorem entriesLeaves_eq (entries : List (Value × Value)) :
    entriesLeaves entries = entries.flatMap (fun e => leaves e.1 ++ leaves e.2) := by
  induction entries with
  | nil => rfl
  | cons e es ih => rw [entriesLeaves, entryLeaves, List.flatMap_cons, ih]

/-- How much the size of a value is off by. -/
def excess (v : Value) : ℕ := ((leaves v).map SimpleValue.excess).sum

theorem excess_simple (s : SimpleValue) : (Value.simple s).excess = s.excess := by
  simp [excess, leaves]

theorem excess_described (d : Descriptor) (v : Value) :
    (Value.described d v).excess = v.excess := by
  rw [excess, excess, leaves]

theorem excess_list (items : List Value) : (Value.list items).excess = (items.map excess).sum := by
  rw [excess, leaves, itemsLeaves_eq]
  induction items with
  | nil => rfl
  | cons v vs ih => rw [List.flatMap_cons, List.map_append, List.sum_append, ih]; rfl

theorem excess_map (entries : List (Value × Value)) :
    (Value.map entries).excess = (entries.map (fun e => e.1.excess + e.2.excess)).sum := by
  rw [excess, leaves, entriesLeaves_eq]
  induction entries with
  | nil => rfl
  | cons e es ih =>
    rw [List.flatMap_cons, List.map_append, List.sum_append, ih, List.map_append, List.sum_append]
    rfl

end Value

/-- A compound has the size of its content and of the frame its encoder puts in front: both
sides compare the same content size. -/
theorem announces_compound (code8 code32 : TypeCode) {contentSize : UInt32} (count : ℕ)
    {content : Bytes} {k : ℕ} (h : Announces contentSize content k) :
    Announces (Compound.encodedSize contentSize)
      (Compound.frame code8 code32 contentSize count ++ content) k := by
  have hframe : Announces (if Compound.isWide contentSize then 9 else 3)
      (Compound.frame code8 code32 contentSize count) 0 := by
    unfold Compound.frame
    split <;> simp [Announces]
  simpa only [Compound.encodedSize, Nat.zero_add] using hframe.append h

theorem length_lt_of_mem_flatMap {α : Type} {g : α → Bytes} {xs : List α} {x : α} {N : ℕ}
    (hx : x ∈ xs) (h : (xs.flatMap g).length < N) : (g x).length < N :=
  Nat.lt_of_le_of_lt (List.Sublist.length_le (List.sublist_flatten_of_mem
    (List.mem_map_of_mem hx))) h

/-- A list, off by what its items are off by. -/
theorem announces_items (items : List Value) {k : Value → ℕ}
    (h : ∀ v ∈ items, Announces (encodedSize v) (encode v) (k v)) :
    Announces (encodedSize (Value.list items)) (encode (Value.list items)) (items.map k).sum := by
  obtain ⟨n, hn, hfold⟩ := Announces.foldl (f := fun a v => a + encodedSize v) items 0
    (fun v hv => ⟨_, h v hv, fun _ => rfl⟩)
  rw [encodedSize_list, encode_list, hfold, UInt32.zero_add]
  exact announces_compound .list8 .list8 items.length hn

/-- The content of a map, off by what its keys and values are off by. -/
theorem announces_entries {K V : Type} [AmqpEncoder K] [AmqpEncoder V] (entries : List (K × V))
    {j : K → ℕ} {k : V → ℕ}
    (h : ∀ e ∈ entries, Announces (encodedSize e.1) (encode e.1) (j e.1) ∧
      Announces (encodedSize e.2) (encode e.2) (k e.2)) :
    Announces (entries.foldl (fun a e => a + encodedSize e.1 + encodedSize e.2) 0)
      (entries.flatMap (fun e => encode e.1 ++ encode e.2))
      (entries.map (fun e => j e.1 + k e.2)).sum := by
  obtain ⟨n, hn, hfold⟩ := Announces.foldl (k := fun e => j e.1 + k e.2)
    (f := fun a e => a + encodedSize e.1 + encodedSize e.2) entries 0
    (fun e he => ⟨_, (h e he).1.append (h e he).2, fun a => UInt32.add_assoc a _ _⟩)
  rw [hfold, UInt32.zero_add]
  exact hn

/-- **The size of a value exceeds its encoding by the number of small longs in it.** By induction on
the value: a compound passes on what its parts are off by, since its encoder and its size function
put the same frame in front of the same size. -/
theorem announces_value (v : Value) : (encode v).length < 2 ^ 32 →
    Announces (encodedSize v) (encode v) v.excess := by
  induction v using Value.induct with
  | simple s => intro h; rw [Value.excess_simple]; exact announces_simple s h
  | list items ih =>
    intro h
    rw [encode_list, List.length_append] at h
    rw [Value.excess_list]
    exact announces_items items
      (fun v hv => ih v hv (length_lt_of_mem_flatMap hv (by omega)))
  | map entries ih =>
    intro h
    rw [encode_map, List.length_append] at h
    rw [Value.excess_map, encodedSize_map, encode_map]
    have hcontent := announces_entries entries (j := Value.excess) (k := Value.excess) (by
      intro e he
      have hlt := length_lt_of_mem_flatMap (N := 2 ^ 32) he (Nat.lt_of_le_of_lt
        (Nat.le_add_left _ _) h)
      rw [List.length_append] at hlt
      exact ⟨(ih e he).1 (by omega), (ih e he).2 (by omega)⟩)
    exact announces_compound .map8 .map32 (entries.length * 2) hcontent
  | described d v ih =>
    intro h
    rw [encode_described, List.length_append, List.length_append] at h
    have hall := (announces_described.append (announces_descriptor d (by omega))).append
      (ih (by omega))
    rw [encodedSize_described, encode_described, Value.excess_described]
    simpa only [Nat.zero_add] using hall

theorem SimpleValue.excess_le_length (s : SimpleValue) : s.excess ≤ (encode s).length := by
  cases s with
  | long n =>
    change (if Long.isWide n then 0 else 1) ≤ (if Long.isWide n then _ else _ : Bytes).length
    split <;> simp
  | _ => exact Nat.zero_le _

/-- There are no more small longs in a value than bytes in its encoding. -/
theorem Value.excess_le_length (v : Value) : v.excess ≤ (Amqp.encode v).length := by
  induction v using Value.induct with
  | simple s => rw [excess_simple]; exact s.excess_le_length
  | list items ih =>
    rw [excess_list, encode_list, List.length_append, List.length_flatMap]
    exact Nat.le_trans (List.sum_le_sum ih) (Nat.le_add_left _ _)
  | map entries ih =>
    rw [excess_map, encode_map, List.length_append, List.length_flatMap]
    have hsum : (entries.map fun e => e.1.excess + e.2.excess).sum ≤
        (entries.map fun e => (Amqp.encode e.1 ++ Amqp.encode e.2).length).sum := by
      apply List.sum_le_sum
      intro e he
      rw [List.length_append]
      exact Nat.add_le_add (ih e he).1 (ih e he).2
    exact Nat.le_trans hsum (Nat.le_add_left _ _)
  | described d v ih =>
    rw [excess_described, encode_described, List.length_append]
    omega

theorem Value.excess_eq_zero_iff (v : Value) :
    v.excess = 0 ↔ ∀ n, SimpleValue.long n ∈ v.leaves → Long.isWide n := by
  rw [excess, List.sum_eq_zero_iff_forall_eq_nat]
  simp only [List.mem_map, forall_exists_index, and_imp, forall_apply_eq_imp_iff₂]
  constructor
  · intro h n hn
    by_contra hw
    exact absurd (h _ hn) (by simp [SimpleValue.excess, hw])
  · intro h s hs
    cases s with
    | long n => simp [SimpleValue.excess, h n hs]
    | _ => rfl

/-- **The size of a value is right exactly when there is no small long in it.**

The size announces one byte more for every small long (`announces_value`); there are no more of
these than bytes. -/
theorem value_encodedSize_eq_iff (v : Value) (h : (encode v).length < 2 ^ 32) :
    (encodedSize v).toNat = (encode v).length ↔
      ∀ n, SimpleValue.long n ∈ v.leaves → Long.isWide n := by
  have hle := v.excess_le_length
  rw [(announces_value v h).toNat_eq_iff h (by omega), v.excess_eq_zero_iff]

/-- The rule at a list of a text and a wide number, with 1 long that is not small. -/
theorem value_encodedSize_eq_iff_wide :
    (encodedSize (Value.list [.simple (.string "a"), .simple (.long 1000)])).toNat =
      (encode (Value.list [.simple (.string "a"), .simple (.long 1000)])).length :=
  (value_encodedSize_eq_iff _ (by decide)).mpr (by
    intro n hn
    simp only [Value.leaves, Value.itemsLeaves, List.cons_append, List.nil_append, List.mem_cons,
      reduceCtorEq, SimpleValue.long.injEq, List.not_mem_nil, or_false, false_or] at hn
    subst hn
    decide)

/-- The long 1: a size of 3, and 2 bytes. -/
theorem value_encodedSize_long_one :
    (encode (Value.simple (.long 1))).length < 2 ^ 32 ∧
      (encodedSize (Value.simple (.long 1))).toNat ≠ (encode (Value.simple (.long 1))).length := by
  decide

/-! ## 3. Messages

Section by section.  What a section is off by is what its leaves are off by, and for properties
whether the two choices of the form fall apart. -/

/-- The size function of `x` gives the number of bytes its encoder writes. -/
def Exact {α : Type} [AmqpEncoder α] (x : α) : Prop := (encodedSize x).toNat = (encode x).length

instance {α : Type} [AmqpEncoder α] (x : α) : Decidable (Exact x) :=
  inferInstanceAs (Decidable (_ = _))

theorem Exact.announces {α : Type} [AmqpEncoder α] {x : α} (h : Exact x) :
    Announces (encodedSize x) (encode x) 0 := announces_of_toNat_eq h

/-- An optional field is right when its content is; a missing one is the single byte of
`Null`. -/
theorem announces_option {α : Type} [AmqpEncoder α] {o : Option α} (h : ∀ x ∈ o, Exact x) :
    Announces (encodedSize o) (encode o) 0 := by
  cases o with
  | none => rfl
  | some x => exact (h x rfl).announces

/-- A map whose keys and values have the right size. -/
theorem announces_hashMap {K V : Type} [HashKey K] [AmqpEncoder K] [AmqpEncoder V]
    (m : HashMap K V) (h : ∀ e ∈ m.entries, Exact e.1 ∧ Exact e.2) :
    Announces (encodedSize m) (encode m) 0 := by
  have hcontent := announces_entries m.entries (j := fun _ => 0) (k := fun _ => 0)
    (fun e he => ⟨(h e he).1.announces, (h e he).2.announces⟩)
  rw [List.sum_eq_zero_iff_forall_eq_nat.mpr (by simp)] at hcontent
  exact announces_compound .map8 .map32 (m.len * 2) hcontent

theorem announces_list (l : AmqpList) (h : ∀ v ∈ l.items, Exact v) :
    Announces (encodedSize l) (encode l) 0 := by
  have hitems := announces_items l.items (k := fun _ => 0) (fun v hv => (h v hv).announces)
  rw [List.sum_eq_zero_iff_forall_eq_nat.mpr (by simp)] at hitems
  exact hitems

/-- The leaves of a header section have the right sizes. -/
structure Header.LeavesExact (h : Header) : Prop where
  durable : Exact h.durable
  priority : Exact h.priority
  ttl : ∀ x ∈ h.ttl, Exact x
  firstAcquirer : Exact h.firstAcquirer
  deliveryCount : Exact h.deliveryCount

/-- The leaves of a properties section have the right sizes. -/
structure Properties.LeavesExact (p : Properties) : Prop where
  messageId : ∀ x ∈ p.messageId, Exact x
  userId : ∀ x ∈ p.userId, Exact x
  «to» : ∀ x ∈ p.to, Exact x
  subject : ∀ x ∈ p.subject, Exact x
  replyTo : ∀ x ∈ p.replyTo, Exact x
  correlationId : ∀ x ∈ p.correlationId, Exact x
  contentType : ∀ x ∈ p.contentType, Exact x
  contentEncoding : ∀ x ∈ p.contentEncoding, Exact x
  absoluteExpiryTime : ∀ x ∈ p.absoluteExpiryTime, Exact x
  creationTime : ∀ x ∈ p.creationTime, Exact x
  groupId : ∀ x ∈ p.groupId, Exact x
  groupSequence : ∀ x ∈ p.groupSequence, Exact x
  replyToGroupId : ∀ x ∈ p.replyToGroupId, Exact x

/-- The leaves of a message have the right sizes: the fields of its header and properties, the
keys and values of its maps, its data, the items of its sequences and its value. -/
structure Message.LeavesExact (m : Message) : Prop where
  header : ∀ h ∈ m.header, h.LeavesExact
  deliveryAnnotations : ∀ a ∈ m.deliveryAnnotations, ∀ e ∈ a.entries, Exact e.1 ∧ Exact e.2
  messageAnnotations : ∀ a ∈ m.messageAnnotations, ∀ e ∈ a.entries, Exact e.1 ∧ Exact e.2
  properties : ∀ p ∈ m.properties, p.LeavesExact
  applicationProperties : ∀ a ∈ m.applicationProperties, ∀ e ∈ a.entries, Exact e.1 ∧ Exact e.2
  footer : ∀ a ∈ m.footer, ∀ e ∈ a.entries, Exact e.1 ∧ Exact e.2
  data : ∀ d ∈ m.body.data, Exact d
  sequence : ∀ l ∈ m.body.sequence, ∀ v ∈ l.items, Exact v
  value : ∀ v ∈ m.body.value, Exact v

/-- The list frame of a header or properties section, picked by a condition `c`. -/
theorem announces_frame (c : Prop) [Decidable c] (m n count : ℕ) :
    Announces (if c then 9 else 3)
      (if c then encode TypeCode.list8 ++ toBE 4 m ++ toBE 4 count
        else encode TypeCode.list8 ++ toBE 1 n ++ toBE 1 count) 0 := by
  split <;> rfl

theorem announces_header {h : Header} (hl : h.LeavesExact) :
    Announces (encodedSize h) (encode h) 0 := by
  have hfields : Announces h.contentSize h.encodeFields 0 :=
    (((hl.durable.announces.append hl.priority.announces).append (announces_option hl.ttl)).append
      hl.firstAcquirer.announces).append hl.deliveryCount.announces
  have hdesc : Announces (encodedSize messageHeader) (encode messageHeader) 0 := rfl
  have hall := (hdesc.append (announces_frame (h.contentSize + encodedSize messageHeader > 255)
    (h.contentSize + 4).toNat (h.contentSize + 4).toNat 5)).append hfields
  have hsum : ∀ a b c : UInt32, a + b + c = b + (c + a) := by intro a b c; ac_rfl
  rw [hsum] at hall
  exact hall

theorem announces_propertiesContent {p : Properties} (hl : p.LeavesExact) :
    Announces p.contentSize p.encodeFields 0 := by
  have h1 := ((announces_option hl.messageId).append (announces_option hl.userId)).append
    (announces_option hl.to)
  have h2 := ((h1.append (announces_option hl.subject)).append
    (announces_option hl.replyTo)).append (announces_option hl.correlationId)
  have h3 := ((h2.append (announces_option hl.contentType)).append
    (announces_option hl.contentEncoding)).append (announces_option hl.absoluteExpiryTime)
  have h4 := (((h3.append (announces_option hl.creationTime)).append
    (announces_option hl.groupId)).append (announces_option hl.groupSequence)).append
    (announces_option hl.replyToGroupId)
  simp only [Nat.add_zero] at h4
  exact h4

/-- The fields of the section lie between the two bounds at which the size and the encoder
switch to the wide form. -/
def Properties.betweenBounds (p : Properties) : Prop :=
  p.encodeFields.length = 253 ∨ p.encodeFields.length = 254

instance (p : Properties) : Decidable p.betweenBounds := inferInstanceAs (Decidable (_ ∨ _))

/-- What `Properties::encode` writes, in terms of the length of its fields. -/
theorem properties_encode_length {p : Properties} (hl : p.LeavesExact)
    (h : (encode p).length < 2 ^ 32) : (encode p).length =
      3 + (if p.encodeFields.length > 254 then 9 else 3) + p.encodeFields.length ∧
        p.contentSize = UInt32.ofNat p.encodeFields.length := by
  have hcontent : p.contentSize = UInt32.ofNat p.encodeFields.length :=
    (announces_propertiesContent hl).eq_ofNat
  have hlen : (encode p).length = 3 + (if p.contentSize + 1 > 255 then 9 else 3) +
      p.encodeFields.length := by
    change (encode messageProperties ++ (if p.contentSize + 1 > 255 then _ else _ : Bytes) ++
      p.encodeFields).length = _
    rw [List.length_append, List.length_append]
    split <;> rfl
  have hwide : p.contentSize + 1 > 255 ↔ p.encodeFields.length > 254 := by
    have hbound : p.encodeFields.length + 1 < 2 ^ 32 := by split at hlen <;> omega
    rw [gt_iff_lt, UInt32.lt_iff_toNat_lt, hcontent, UInt32.toNat_add, UInt32.toNat_ofNat']
    simp only [UInt32.reduceToNat]
    omega
  simp only [hwide] at hlen
  exact ⟨hlen, hcontent⟩

/-- **The size of a properties section is right, or 6 too large** between the two bounds.  The size
counts 3 or 9 bytes in front of the fields, by the test of the size function, and the encoder writes
as many, by its own test.  The two disagree only when the fields take 253 or 254 bytes. -/
theorem announces_properties {p : Properties} (hl : p.LeavesExact)
    (h : (encode p).length < 2 ^ 32) :
    Announces (encodedSize p) (encode p) (if p.betweenBounds then 6 else 0) := by
  obtain ⟨hlen, hcontent⟩ := properties_encode_length hl h
  have hbound : p.encodeFields.length + 6 < 2 ^ 32 := by split at hlen <;> omega
  have hwide : encodedSize messageProperties + p.contentSize > 255 ↔
      p.encodeFields.length > 252 := by
    rw [gt_iff_lt, UInt32.lt_iff_toNat_lt, hcontent, UInt32.toNat_add, UInt32.toNat_ofNat',
      show (encodedSize messageProperties).toNat = 3 from rfl]
    simp only [UInt32.reduceToNat]
    omega
  have hsize : encodedSize p = UInt32.ofNat
      ((if p.encodeFields.length > 252 then 9 else 3) + (3 + p.encodeFields.length)) := by
    change (if encodedSize messageProperties + p.contentSize > 255 then 9 else 3) +
      (encodedSize messageProperties + p.contentSize) = _
    simp only [hwide, UInt32.ofNat_add, ← hcontent]
    split <;> rfl
  have hsum : (if p.encodeFields.length > 252 then 9 else 3) + (3 + p.encodeFields.length) =
      (encode p).length + if p.betweenBounds then 6 else 0 := by
    rw [hlen]
    by_cases hb : p.betweenBounds
    · rw [if_pos hb]
      unfold Properties.betweenBounds at hb
      split <;> split <;> omega
    · rw [if_neg hb]
      unfold Properties.betweenBounds at hb
      split <;> split <;> omega
  exact hsize.trans (congrArg UInt32.ofNat hsum)

section Sections

variable {α : Type} [AmqpEncoder α] {d : Descriptor}
  (hd : Announces (encodedSize d) (encode d) 0)

include hd

/-- The sections of one kind, each behind its descriptor. -/
theorem announces_sections {xs : List α}
    (h : ∀ x ∈ xs, Announces (encodedSize x) (encode x) 0) :
    Announces (xs.foldl (fun a x => a + encodedSize x + encodedSize d) 0)
      (xs.flatMap fun x => encode d ++ encode x) 0 := by
  obtain ⟨n, hn, hfold⟩ := Announces.foldl (k := fun _ => 0)
    (g := fun x => encode d ++ encode x)
    (f := fun a x => a + encodedSize x + encodedSize d) xs 0
    (fun x hx => ⟨encodedSize d + encodedSize x, hd.append (h x hx), fun a => by ac_rfl⟩)
  rw [List.sum_eq_zero_iff_forall_eq_nat.mpr (by simp)] at hn
  rw [hfold, UInt32.zero_add]
  exact hn

theorem announces_section {o : Option α} (h : ∀ x ∈ o, Announces (encodedSize x) (encode x) 0) :
    Announces (sectionSize d o) (encodeSection d o) 0 := by
  cases o with
  | none => exact announces_nil
  | some x =>
    rw [sectionSize, encodeSection, UInt32.add_comm]
    exact hd.append (h x rfl)

end Sections

theorem announces_ownSection {α : Type} [AmqpEncoder α] {o : Option α}
    (h : ∀ x ∈ o, Announces (encodedSize x) (encode x) 0) :
    Announces (ownSectionSize o) (encodeOwnSection o) 0 := by
  cases o with
  | none => exact announces_nil
  | some x => exact h x rfl

theorem announces_body {b : MessageBody} (hdata : ∀ d ∈ b.data, Exact d)
    (hsequence : ∀ l ∈ b.sequence, ∀ v ∈ l.items, Exact v) (hvalue : ∀ v ∈ b.value, Exact v) :
    Announces (encodedSize b) (encode b) 0 := by
  have h1 := announces_sections (d := messageBodyData) rfl (fun d hd => (hdata d hd).announces)
  have h2 := announces_sections (d := messageBodySequence) rfl
    (fun l hl => announces_list l (hsequence l hl))
  obtain ⟨data, sequence, value⟩ := b
  cases value with
  | none =>
    have h := h1.append h2
    change Announces (_ + _) (_ ++ _ ++ []) 0
    rw [List.append_nil]
    exact h
  | some v =>
    have hv : Announces (encodedSize messageBodyValue + encodedSize v)
        (encode messageBodyValue ++ encode v) 0 := by
      have hd : Announces (encodedSize messageBodyValue) (encode messageBodyValue) 0 := rfl
      exact hd.append (hvalue v rfl).announces
    have h := (h1.append h2).append hv
    rw [UInt32.add_comm (encodedSize messageBodyValue), ← UInt32.add_assoc] at h
    exact h

/-- How much the size of a message is off by, when its leaves have the right sizes. -/
def Message.excess (m : Message) : ℕ :=
  match m.properties with
  | some p => if p.betweenBounds then 6 else 0
  | none => 0

/-- The sizes of the sections add up, and all of them are right but that of the properties. -/
theorem announces_message {m : Message} (hl : m.LeavesExact) (h : (encode m).length < 2 ^ 32) :
    Announces (encodedSize m) (encode m) m.excess := by
  have hp : Announces (ownSectionSize m.properties) (encodeOwnSection m.properties) m.excess := by
    cases hm : m.properties with
    | none => simp only [Message.excess, hm]; exact announces_nil
    | some p =>
      have hlt : (encode p).length < 2 ^ 32 := by
        simp only [AmqpEncoder.encode, hm, encodeOwnSection, List.length_append] at h
        simp only [AmqpEncoder.encode, List.length_append]
        omega
      simp only [Message.excess, hm]
      exact announces_properties (hl.properties p hm) hlt
  have h1 := announces_ownSection (fun x hx => announces_header (hl.header x hx))
  have h2 := announces_section (d := messageDeliveryAnnotations) rfl
    (fun a ha => announces_hashMap a (hl.deliveryAnnotations a ha))
  have h3 := announces_section (d := messageAnnotations) rfl
    (fun a ha => announces_hashMap a (hl.messageAnnotations a ha))
  have h5 := announces_section (d := messageApplicationProperties) rfl
    (fun a ha => announces_hashMap a (hl.applicationProperties a ha))
  have h6 := announces_body hl.data hl.sequence hl.value
  have h7 := announces_section (d := messageFooter) rfl
    (fun a ha => announces_hashMap a (hl.footer a ha))
  have hall := (((((h1.append h2).append h3).append hp).append h5).append h6).append h7
  simp only [Nat.zero_add, Nat.add_zero] at hall
  have hsum : ∀ a b c d e f g : UInt32, a + b + c + d + e + f + g = f + a + b + c + d + e + g := by
    intros; ac_rfl
  rw [hsum] at hall
  exact hall

/-- **The size of a message is right exactly when its properties are not between the bounds**,
given right sizes at its leaves.

Every part but the properties has the right size, and the properties are off by nothing or by six
(`announces_properties`). -/
theorem message_encodedSize_eq_iff (m : Message) (hl : m.LeavesExact)
    (h : (encode m).length < 2 ^ 32) :
    (encodedSize m).toNat = (encode m).length ↔
      ∀ p ∈ m.properties, p.encodeFields.length ≠ 253 ∧ p.encodeFields.length ≠ 254 := by
  have hsix : m.excess < 2 ^ 32 := by
    unfold Message.excess
    split
    · split <;> omega
    · omega
  rw [(announces_message hl h).toNat_eq_iff h hsix, Message.excess]
  cases hm : m.properties with
  | none => simp
  | some p =>
    simp only [Option.mem_def, Option.some.injEq, forall_eq']
    by_cases hb : p.betweenBounds
    · rw [if_pos hb]
      unfold Properties.betweenBounds at hb
      omega
    · rw [if_neg hb]
      unfold Properties.betweenBounds at hb
      omega

/-- A message with data, and with properties whose only field is a user id of `n` bytes. -/
def userIdMessage (n : ℕ) : Message :=
  { properties := some { userId := some (List.replicate n 7) }
    body := { data := [[1, 2, 3]] } }

theorem userIdMessage_leavesExact (n : ℕ) (h : Exact (List.replicate n 7 : Bytes)) :
    (userIdMessage n).LeavesExact where
  header := by simp [userIdMessage]
  deliveryAnnotations := by simp [userIdMessage]
  messageAnnotations := by simp [userIdMessage]
  properties := by
    intro p hp
    simp only [userIdMessage, Option.mem_def, Option.some.injEq] at hp
    subst hp
    constructor <;> simp [h]
  applicationProperties := by simp [userIdMessage]
  footer := by simp [userIdMessage]
  data := by
    intro d hd
    simp only [userIdMessage, List.mem_singleton] at hd
    subst hd
    decide
  sequence := by simp [userIdMessage]
  value := by simp [userIdMessage]

/-- The rule at a user id of 20 bytes. -/
theorem message_encodedSize_eq_iff_userId :
    (encodedSize (userIdMessage 20)).toNat = (encode (userIdMessage 20)).length :=
  (message_encodedSize_eq_iff _ (userIdMessage_leavesExact 20 (by decide)) (by decide)).mpr (by
    intro p hp
    simp only [userIdMessage, Option.mem_def, Option.some.injEq] at hp
    subst hp
    decide)

/-- A user id of 239 bytes makes properties of 253 bytes: the size is 6 too large. -/
theorem message_encodedSize_userId_239 :
    (userIdMessage 239).LeavesExact ∧ (encode (userIdMessage 239)).length < 2 ^ 32 ∧
      (encodedSize (userIdMessage 239)).toNat ≠ (encode (userIdMessage 239)).length :=
  ⟨userIdMessage_leavesExact 239 (by decide +kernel), by decide +kernel, by decide +kernel⟩

end RabbitMqStream.Amqp
