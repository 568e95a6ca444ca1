/-
# Lists and values, written and read back

A value reads back when its leaves do, unless a list in it is long.  `List::encode` writes the
constructor of the one-byte form in front of both forms, so a list whose content passes 254
bytes is read with a one-byte size and a one-byte count: the decoder takes the first byte of the
size for the size and the second for the count, and starts on the elements six bytes early.

A long list inside another value makes every list around it long, so it is enough to look at the
outermost one.

* `value_roundTrips`: a short value reads back, by induction on the value.
* `list_roundTrips_short`: a list of at most 254 bytes reads back; a longer one does not, except
  possibly where the second byte of its size happens to be the number of its elements.

**The argument.**  For short values it is an induction on the value: the loop of the decoder on
the items of a list takes one item from the front each time, and the hypothesis of the induction
is that it is the right one.  A bound on the size of the whole bounds the sizes of the parts, so
that every list inside is short, too.  For a long list the beginning is enough.  What the decoder
takes for the size and the count are the first two of the four bytes of the size, so it makes as
many items as the second byte says; a list with another number of items is not what comes out
(`long_list_not_read`).
-/
import RabbitMqStream.Amqp.Compound

namespace RabbitMqStream.Amqp

open Wire

/-! ## 1. What a value can be

The Lean type of values has maps with equal keys and keys that cannot be hashed, which no Rust
value has; `WellFormed` leaves them out.  `bulk` is the size as the encoder computes it, as a
number. -/

namespace Value

mutual

/-- The maps in the value are maps: their keys differ, and each has been hashed. -/
def WellFormed : Value → Prop
  | .simple _ => True
  | .list items => itemsWellFormed items
  | .map entries => entries.Pairwise (fun a b => HashKey.eq a.1 b.1 = false) ∧
      (∀ e ∈ entries, HashKey.hashes e.1 = true) ∧ entriesWellFormed entries
  | .described _ v => WellFormed v

def itemsWellFormed : List Value → Prop
  | [] => True
  | v :: vs => WellFormed v ∧ itemsWellFormed vs

def entriesWellFormed : List (Value × Value) → Prop
  | [] => True
  | e :: es => entryWellFormed e ∧ entriesWellFormed es

def entryWellFormed : Value × Value → Prop
  | (k, v) => WellFormed k ∧ WellFormed v

end

theorem itemsWellFormed_iff (items : List Value) :
    itemsWellFormed items ↔ ∀ v ∈ items, WellFormed v := by
  induction items with
  | nil => simp [itemsWellFormed]
  | cons v vs ih => simp [itemsWellFormed, ih]

theorem entriesWellFormed_iff (entries : List (Value × Value)) :
    entriesWellFormed entries ↔ ∀ e ∈ entries, WellFormed e.1 ∧ WellFormed e.2 := by
  induction entries with
  | nil => simp [entriesWellFormed]
  | cons e es ih =>
    obtain ⟨k, v⟩ := e
    rw [entriesWellFormed, entryWellFormed, ih, List.forall_mem_cons]

theorem wellFormed_list {items : List Value} (h : WellFormed (.list items)) :
    ∀ v ∈ items, WellFormed v := by
  rw [WellFormed] at h
  exact (itemsWellFormed_iff items).mp h

theorem wellFormed_map {entries : List (Value × Value)} (h : WellFormed (.map entries)) :
    entries.Pairwise (fun a b => HashKey.eq a.1 b.1 = false) ∧
      (∀ e ∈ entries, HashKey.hashes e.1 = true) ∧
      ∀ e ∈ entries, WellFormed e.1 ∧ WellFormed e.2 := by
  rw [WellFormed] at h
  exact ⟨h.1, h.2.1, (entriesWellFormed_iff entries).mp h.2.2⟩

theorem leaves_list {items : List Value} {P : SimpleValue → Prop}
    (h : ∀ s ∈ (Value.list items).leaves, P s) : ∀ v ∈ items, ∀ s ∈ v.leaves, P s := by
  rw [leaves, itemsLeaves_eq] at h
  exact fun v hv s hs => h s (List.mem_flatMap.mpr ⟨v, hv, hs⟩)

theorem leaves_map {entries : List (Value × Value)} {P : SimpleValue → Prop}
    (h : ∀ s ∈ (Value.map entries).leaves, P s) :
    ∀ e ∈ entries, (∀ s ∈ e.1.leaves, P s) ∧ ∀ s ∈ e.2.leaves, P s := by
  rw [leaves, entriesLeaves_eq] at h
  refine fun e he => ⟨fun s hs => ?_, fun s hs => ?_⟩
  · exact h s (List.mem_flatMap.mpr ⟨e, he, List.mem_append_left _ hs⟩)
  · exact h s (List.mem_flatMap.mpr ⟨e, he, List.mem_append_right _ hs⟩)

/-- The size of a value as its encoder computes it, if it does not overflow: the bytes of the
value, and one more for every small long in it. -/
def bulk (v : Value) : ℕ := (Amqp.encode v).length + v.excess

end Value

/-- The size of the content of a list. -/
def itemsBulk (items : List Value) : ℕ := (items.map Value.bulk).sum

theorem itemsBulk_eq (items : List Value) :
    itemsBulk items = (items.flatMap encode).length + (items.map Value.excess).sum := by
  induction items with
  | nil => rfl
  | cons v vs ih =>
    have hcons : itemsBulk (v :: vs) = v.bulk + itemsBulk vs := by simp [itemsBulk]
    rw [hcons, ih, Value.bulk, List.flatMap_cons, List.length_append, List.map_cons,
      List.sum_cons]
    omega

theorem bulk_le_itemsBulk {items : List Value} {v : Value} (hv : v ∈ items) :
    v.bulk ≤ itemsBulk items :=
  List.single_le_sum (by simp) _ (List.mem_map_of_mem hv)

/-- The size of the content of a list, computed from the sizes of its items. -/
theorem itemsSize_bulk {items : List Value} (h : ∀ v ∈ items, (encode v).length < 2 ^ 32) :
    items.foldl (fun a v => a + encodedSize v) 0 = UInt32.ofNat (itemsBulk items) := by
  obtain ⟨n, hn, hfold⟩ := Announces.foldl (f := fun a v => a + encodedSize v) items 0
    (fun v hv => ⟨_, announces_value v (h v hv), fun _ => rfl⟩)
  rw [hfold, UInt32.zero_add, itemsBulk_eq]
  exact hn

theorem entry_bulk_le {entries : List (Value × Value)} {e : Value × Value} (he : e ∈ entries) :
    e.1.bulk + e.2.bulk ≤ (entries.flatMap (fun e => encode e.1 ++ encode e.2)).length +
      (entries.map (fun e => e.1.excess + e.2.excess)).sum := by
  have hlen := length_lt_of_mem_flatMap (g := fun e => encode e.1 ++ encode e.2) he
    (Nat.lt_succ_self _)
  have hexcess : e.1.excess + e.2.excess ≤ (entries.map (fun e => e.1.excess + e.2.excess)).sum :=
    List.single_le_sum (by simp) _ (List.mem_map_of_mem he)
  rw [List.length_append] at hlen
  unfold Value.bulk
  omega

/-! ## 2. Reading values back

For a list and for a map the loop of the decoder is followed along the items, and the induction
over the value gives each item back. -/

/-- **The loop of `List::decode`** on the items of a list, from a list that already has some. -/
theorem elems_decode {value : AmqpReader Value} {rest : Bytes} (items acc : List Value)
    (h : ∀ v ∈ items, ∀ r, value (encode v ++ r) = .ok (v, r)) :
    Reader.loop (fun items => do let elem ← value; pure (items ++ [elem])) items.length acc
      (items.flatMap encode ++ rest) = .ok (acc ++ items, rest) := by
  have hstep : ∀ v ∈ items, ∀ (acc : List Value) (rest : Bytes),
      (do let elem ← value; pure (acc ++ [elem]) : AmqpReader (List Value)) (encode v ++ rest) =
        .ok (acc ++ [v], rest) := by
    intro v hv acc rest
    rw [Reader.bind_of_ok (h v hv rest), Reader.pure_apply]
  have hpush : items.foldl (fun acc v => acc ++ [v]) acc = acc ++ items := by
    rw [List.foldl_append_eq_append, ← List.flatMap_def, List.flatMap_singleton']
  have hloop := Reader.loop_flatMap hstep (Nat.le_refl _) acc rest
  rw [List.take_length, List.drop_length, hpush] at hloop
  exact hloop

theorem descriptor_symbol_decode {s : Symbol} (h : (encode s).length < 2 ^ 32) (rest : Bytes) :
    Descriptor.decode (encode (Descriptor.symbol s) ++ rest) = .ok (.symbol s, rest) := by
  have he : encode (Descriptor.symbol s) = encode TypeCode.described ++ encode s := rfl
  rw [he, List.append_assoc, Descriptor.decode, afterCode_encode]
  have hread := decodeAs_of_ok (symbol_roundTrips h rest) Descriptor.symbol
  have hcode : encode s = _ := form_code ((asBytes s.str).length > 255) .symbol32 .symbol8
    (toBE 4 (asBytes s.str).length) (toBE 1 (asBytes s.str).length) (asBytes s.str)
  refine (afterLookahead_encode hcode rest).trans ?_
  by_cases hw : (asBytes s.str).length > 255
  · simp only [hw, if_true]
    exact hread
  · simp only [hw, if_false]
    exact hread

theorem descriptor_roundTrips {d : Descriptor} (h : (encode d).length < 2 ^ 32) (rest : Bytes) :
    Descriptor.decode (encode d ++ rest) = .ok (d, rest) := by
  cases d with
  | ulong n => exact descriptor_decode n rest
  | symbol s =>
    refine descriptor_symbol_decode ?_ rest
    have he : encode (Descriptor.symbol s) = encode TypeCode.described ++ encode s := rfl
    rw [he, List.length_append] at h
    omega

section Chrono

variable [Chrono]

/-- A list of short items, in the one-byte form. -/
theorem list_decode {items : List Value} (hread : ∀ v ∈ items, RoundTrips v)
    (hsmall : itemsBulk items ≤ 254) (rest : Bytes) :
    AmqpList.decodeWith Value.decode (encode (Value.list items) ++ rest) = .ok (items, rest) := by
  have hlen : items.length ≤ itemsBulk items := by
    have := items_le_length items
    rw [itemsBulk_eq]
    omega
  have hlen : ∀ v ∈ items, (encode v).length < 2 ^ 32 := by
    intro v hv
    have := bulk_le_itemsBulk hv
    unfold Value.bulk at this
    omega
  have hsize := itemsSize_bulk hlen
  have hnarrow : ¬ Compound.isWide (items.foldl (fun a v => a + encodedSize v) 0) := by
    rw [isWide_iff hsize (by omega)]
    omega
  rw [encode_list, List.append_assoc, AmqpList.frame, list8_frame hnarrow]
  refine (decode_frame (g := AmqpList.elems Value.decode) (f := _) ?_ ?_ (fun _ => ?_) ?_ _).trans
    (elems_decode items [] hread)
  · rfl
  · rfl
  · omega
  · omega

/-- A map of short keys and values, in the one-byte form. -/
theorem map_decode {entries : List (Value × Value)}
    (hdistinct : entries.Pairwise (fun a b => HashKey.eq a.1 b.1 = false))
    (hhash : ∀ e ∈ entries, HashKey.hashes e.1 = true)
    (hread : ∀ e ∈ entries, RoundTrips e.1 ∧ RoundTrips e.2)
    (hsmall : (entries.flatMap (fun e => encode e.1 ++ encode e.2)).length ≤ 254)
    (rest : Bytes) :
    ∃ m : HashMap Value Value, m.entries = entries ∧
      Map.decodeWith Value.decode Value.decode (encode (Value.map entries) ++ rest) =
        .ok (m, rest) := by
  have hlen := entries_le_length entries
    (fun e _ => ⟨value_length_pos e.1, value_length_pos e.2⟩)
  obtain ⟨m, hm, hentries⟩ := entries_decode rest entries HashMap.empty hread hdistinct
    hhash
  refine ⟨m, hentries, ?_⟩
  rw [encode_map, List.append_assoc, Map.frame, ← hm]
  unfold Map.decodeWith
  refine decode_frame (g := fun count => Map.entries Value.decode Value.decode count
    HashMap.empty) ?_ ?_ (fun _ => ?_) ?_ _
  · rfl
  · rfl
  · omega
  · omega

/-- `Value::decode` on an encoding that starts with a code. -/
theorem value_decode_code {c : TypeCode} {enc tail : Bytes} (he : enc = encode c ++ tail)
    (rest : Bytes) : Value.decode (enc ++ rest) = (match c with
      | .described => Value.decodeDescribed Value.decode
      | .list0 | .list8 | .list32 | .map8 | .map32 | .array8 | .array32 =>
        Value.decodeCollection Value.decode
      | _ => decodeAs Value.simple) (enc ++ rest) := by
  conv_lhs => rw [Value.decode_eq]
  exact afterLookahead_encode he rest

theorem simpleValue_roundTrips {s : SimpleValue} (h : RoundTrips s) :
    RoundTrips (Value.simple s) := by
  intro rest
  obtain ⟨c, tail, he, hc⟩ := simple_code s
  change Value.decode (encode s ++ rest) = _
  rw [value_decode_code he]
  have hread := decodeAs_of_ok (h rest) Value.simple
  cases c <;> first | exact hread | exact absurd hc (by decide)

theorem listValue_roundTrips {items : List Value} (hread : ∀ v ∈ items, RoundTrips v)
    (hsmall : itemsBulk items ≤ 254) : RoundTrips (Value.list items) := by
  intro rest
  obtain ⟨tail, he⟩ : ∃ tail, encode (Value.list items) = encode TypeCode.list8 ++ tail := by
    rw [encode_list, AmqpList.frame, Compound.frame]
    split <;> exact ⟨_, by simp only [List.append_assoc]; rfl⟩
  refine (value_decode_code he rest).trans ((afterLookahead_encode he rest).trans ?_)
  exact (Reader.bind_of_ok (list_decode hread hsmall rest)).trans rfl

theorem mapValue_roundTrips {entries : List (Value × Value)}
    (hdistinct : entries.Pairwise (fun a b => HashKey.eq a.1 b.1 = false))
    (hhash : ∀ e ∈ entries, HashKey.hashes e.1 = true)
    (hread : ∀ e ∈ entries, RoundTrips e.1 ∧ RoundTrips e.2)
    (hsmall : (entries.flatMap (fun e => encode e.1 ++ encode e.2)).length ≤ 254) :
    RoundTrips (Value.map entries) := by
  intro rest
  obtain ⟨m, rfl, hm⟩ := map_decode hdistinct hhash hread hsmall rest
  obtain ⟨c, tail, he, hc⟩ : ∃ (c : TypeCode) (tail : Bytes),
      encode (Value.map m.entries) = encode c ++ tail ∧ (c = .map8 ∨ c = .map32) := by
    rw [encode_map, Map.frame, Compound.frame]
    split
    · exact ⟨.map32, _, by simp only [List.append_assoc]; rfl, Or.inr rfl⟩
    · exact ⟨.map8, _, by simp only [List.append_assoc]; rfl, Or.inl rfl⟩
  refine (value_decode_code he rest).trans ?_
  rcases hc with rfl | rfl
  · refine (afterLookahead_encode he rest).trans ?_
    exact (Reader.bind_of_ok hm).trans rfl
  · refine (afterLookahead_encode he rest).trans ?_
    exact (Reader.bind_of_ok hm).trans rfl

theorem described_roundTrips {d : Descriptor} {v : Value} (hd : (encode d).length < 2 ^ 32)
    (hv : RoundTrips v) : RoundTrips (Value.described d v) := by
  intro rest
  have he : encode (Value.described d v) =
      encode TypeCode.described ++ (encode d ++ encode v) := List.append_assoc _ _ _
  refine (value_decode_code he rest).trans ?_
  rw [he, List.append_assoc, List.append_assoc]
  refine (afterCode_encode _ .described _).trans ?_
  exact (Reader.bind_of_ok (descriptor_roundTrips hd _)).trans (Reader.bind_of_ok (hv rest))

/-- **A short value reads back when its leaves do.** By induction on the value.  The bound is on
what its encoder computes as the size, which bounds the same of every part, so that the hypothesis
of the induction applies to each of them. -/
theorem value_roundTrips (v : Value) : v.WellFormed → (∀ s ∈ v.leaves, RoundTrips s) →
    v.bulk ≤ 254 → RoundTrips v := by
  induction v using Value.induct with
  | simple s =>
    intro _ hleaves _
    exact simpleValue_roundTrips (hleaves s (by simp [Value.leaves]))
  | list items ih =>
    intro hwf hleaves hsmall
    have hitems : itemsBulk items ≤ 254 := by
      rw [Value.bulk, encode_list, Value.excess_list, List.length_append] at hsmall
      rw [itemsBulk_eq]
      omega
    refine listValue_roundTrips (fun v hv => ?_) hitems
    exact ih v hv (Value.wellFormed_list hwf v hv) (Value.leaves_list hleaves v hv)
      (Nat.le_trans (bulk_le_itemsBulk hv) hitems)
  | map entries ih =>
    intro hwf hleaves hsmall
    obtain ⟨hdistinct, hhash, hparts⟩ := Value.wellFormed_map hwf
    rw [Value.bulk, encode_map, Value.excess_map, List.length_append] at hsmall
    refine mapValue_roundTrips hdistinct hhash (fun e he => ?_) (by omega)
    have hentry := entry_bulk_le he
    exact ⟨(ih e he).1 (hparts e he).1 (Value.leaves_map hleaves e he).1 (by omega),
      (ih e he).2 (hparts e he).2 (Value.leaves_map hleaves e he).2 (by omega)⟩
  | described d v ih =>
    intro hwf hleaves hsmall
    rw [Value.WellFormed] at hwf
    rw [Value.leaves] at hleaves
    rw [Value.bulk, encode_described, Value.excess_described, List.length_append,
      List.length_append] at hsmall
    exact described_roundTrips (by omega) (ih hwf hleaves (by unfold Value.bulk; omega))

/-! ## 3. Long lists

The decoder is at the wrong place by six bytes and has the wrong count.  Only the count is used:
it is the second byte of the size, and a list with as many items has to come out. -/

omit [Chrono] in
/-- A list that was read with a count has as many items. -/
theorem elems_length {value : AmqpReader Value} {b rest : Bytes} : ∀ {n : ℕ} {acc items},
    Reader.loop (fun items => do let elem ← value; pure (items ++ [elem])) n acc b =
      .ok (items, rest) → items.length = acc.length + n := by
  intro n
  induction n generalizing b with
  | zero =>
    intro acc items h
    simp only [Reader.loop, Reader.pure_apply, Except.ok.injEq, Prod.mk.injEq] at h
    rw [← h.1, Nat.add_zero]
  | succ n ih =>
    intro acc items h
    obtain ⟨acc', mid, hstep, hloop⟩ := Reader.bind_eq_ok.mp h
    obtain ⟨v, mid', -, hpure⟩ := Reader.bind_eq_ok.mp hstep
    simp only [Reader.pure_apply, Except.ok.injEq, Prod.mk.injEq] at hpure
    rw [ih hloop, ← hpure.1, List.length_append, List.length_singleton]
    omega

/-- A long list is read with the second byte of its size as the count, and its first element is
looked for in the last two bytes of the size. -/
theorem long_list_decode {items : List Value} (hlong : 254 < itemsBulk items)
    (hlt : itemsBulk items + 4 < 2 ^ 32) (rest : Bytes) :
    AmqpList.decodeWith Value.decode (encode (Value.list items) ++ rest) =
      AmqpList.elems Value.decode ((itemsBulk items + 4) / 65536 % 256)
        (toBE 2 (itemsBulk items + 4) ++
          (toBE 4 items.length ++ (items.flatMap encode ++ rest))) := by
  have hlen : ∀ v ∈ items, (encode v).length < 2 ^ 32 := by
    intro v hv
    have := bulk_le_itemsBulk hv
    unfold Value.bulk at this
    omega
  have hsize := itemsSize_bulk hlen
  have hwide := (isWide_iff hsize (by omega)).mpr hlong
  have hfield : (UInt32.ofNat (itemsBulk items) + 4).toNat = itemsBulk items + 4 := by
    simp only [UInt32.toNat_add, UInt32.toNat_ofNat', UInt32.reduceToNat]
    omega
  rw [encode_list, AmqpList.frame, Compound.frame, if_pos hwide, hsize, hfield]
  simp only [List.append_assoc]
  exact (afterCode_encode _ .list8 _).trans (Reader.bind_of_ok (count8_size _ _))

theorem long_list_not_read {items : List Value} (hlong : 254 < itemsBulk items)
    (hlt : itemsBulk items + 4 < 2 ^ 32)
    (hcount : (itemsBulk items + 4) / 65536 % 256 ≠ items.length) (rest rest' : Bytes) :
    AmqpList.decodeWith Value.decode (encode (Value.list items) ++ rest) ≠ .ok (items, rest') := by
  intro h
  rw [long_list_decode hlong hlt rest] at h
  have hlen := elems_length h
  rw [List.length_nil, Nat.zero_add] at hlen
  exact hcount hlen.symm

/-- **A short list reads back, a long one does not**: the items take at most 254 bytes, counting
one more for every small long in them.  Past that the list is read with the second byte of its
size as the count, which is not the number of its items unless it is by chance.

The first part is the induction, the second the count.  Where the second byte of the size is the
number of the items, the first item would have to be read from the last bytes of the size, and
this is left open. -/
theorem list_roundTrips_short (l : AmqpList) (hwf : ∀ v ∈ l.items, v.WellFormed)
    (hleaves : ∀ v ∈ l.items, ∀ s ∈ v.leaves, RoundTrips s) :
    (itemsBulk l.items ≤ 254 → RoundTrips l) ∧
      (254 < itemsBulk l.items → itemsBulk l.items + 4 < 2 ^ 32 →
        (itemsBulk l.items + 4) / 65536 % 256 ≠ l.items.length → ¬ RoundTrips l) := by
  constructor
  · intro hsmall rest
    have hitems : ∀ v ∈ l.items, RoundTrips v := fun v hv =>
      value_roundTrips v (hwf v hv) (hleaves v hv)
        (Nat.le_trans (bulk_le_itemsBulk hv) hsmall)
    exact (Reader.bind_of_ok (list_decode hitems hsmall rest)).trans rfl
  · intro hlong hlt hcount hread
    obtain ⟨items, mid, hlist, hpure⟩ := Reader.bind_eq_ok.mp (hread [])
    simp only [Reader.pure_apply, Except.ok.injEq, Prod.mk.injEq] at hpure
    obtain ⟨hl, -⟩ := hpure
    have hitems : items = l.items := by rw [← hl]
    rw [hitems] at hlist
    exact long_list_not_read hlong hlt hcount [] mid hlist

end Chrono

/-- A list with a list, a map and a described value in it. -/
def sampleList : AmqpList :=
  ⟨[.simple (.uint 300), .list [.simple (.boolean true)],
    .map [(.simple (.ulong 1), .described (.ulong 5) (.simple .null))]]⟩

/-- The rule at a list with a list, a map and a described value in it. -/
theorem list_roundTrips_short_sample : letI := Chrono.range; RoundTrips sampleList := by
  let _ := Chrono.range
  refine (list_roundTrips_short sampleList ?_ ?_).1 (by decide)
  · simp [sampleList, Value.WellFormed, Value.itemsWellFormed, Value.entriesWellFormed,
      Value.entryWellFormed, HashKey.hashes, Value.hashes]
  · simp only [sampleList, List.mem_cons, List.not_mem_nil, or_false, forall_eq_or_imp, forall_eq,
      Value.leaves, Value.itemsLeaves, Value.entriesLeaves, Value.entryLeaves, List.append_nil,
      List.singleton_append]
    exact ⟨simple_uint_roundTrips 300, fun _ => rfl, simple_ulong_roundTrips 1, fun _ => rfl⟩

/-- A list of one binary of 253 bytes. -/
def longBinaryList : AmqpList := ⟨[.simple (.binary (List.replicate 253 7))]⟩

/-- It is read as the empty list. -/
theorem longBinaryList_not_roundTrips : letI := Chrono.range
    (∀ v ∈ longBinaryList.items, v.WellFormed) ∧
      (∀ v ∈ longBinaryList.items, ∀ s ∈ v.leaves, RoundTrips s) ∧
      (encode longBinaryList).length < 2 ^ 32 ∧
      (decode (encode longBinaryList)).map Prod.fst = .ok (⟨[]⟩ : AmqpList) ∧
      ¬ RoundTrips longBinaryList := by
  let _ := Chrono.range
  have hread : (decode (encode longBinaryList)).map Prod.fst = .ok (⟨[]⟩ : AmqpList) := by
    decide +kernel
  refine ⟨?_, ?_, by decide +kernel, hread, fun h => ?_⟩
  · simp only [longBinaryList, List.mem_singleton, forall_eq, Value.WellFormed]
  · simp only [longBinaryList, List.mem_cons, List.not_mem_nil, or_false, forall_eq, Value.leaves]
    exact simple_binary_roundTrips (by decide +kernel)
  · have hback := h []
    rw [List.append_nil] at hback
    rw [hback] at hread
    exact absurd hread (by decide +kernel)

end RabbitMqStream.Amqp
