/-
# The metadata of streams

`client/metadata.rs`: what `Client::metadata` makes of the response of a broker.  A response lists
brokers by a reference, and streams with the references of their leader and replicas.  What comes
out is a map from the name of a stream to the brokers themselves.

* `get_fromResponse_iff`: what the map has under a name.  It is the last entry of that name whose
  leader is a broker of the response, with the last broker of each reference, and with the replicas
  that are brokers of the response.
* `get_fromResponse_eq_none_iff`: it has nothing under a name exactly when each entry of that name
  has a leader that the response does not know.  The code of an entry is not looked at.

**The argument.**  A map that is filled in the order of a list has, under each key, what the last
member of the list with that key has put there.  Both maps of `from_response` are made in this
way, the one of the brokers and the one of the streams, so a search in either is a search from the
end of the list (`find_reverse_iff`).  Members that put nothing in are left out first, and the
last one that is left need not be the last one that was there (`lastWith_filterMap`).
-/
import RabbitMqStream.Protocol.Response

namespace RabbitMqStream.Client

open Protocol (ResponseCode MetadataResponse)

/-! ## 1. The map

`from_response` makes two maps, one from the other.  An entry whose leader is in no broker entry
is left out without a word, and so is a replica. -/

structure Broker : Type where
  host : String
  port : UInt32
  deriving DecidableEq

structure StreamMetadata : Type where
  stream : String
  responseCode : ResponseCode
  leader : Broker
  replicas : List Broker
  deriving DecidableEq

namespace Metadata

/-- The first half of `from_response`. -/
def brokersOf (response : MetadataResponse) : HashMap UInt16 Broker :=
  HashMap.collect (response.brokers.map fun broker =>
    (broker.reference, ⟨broker.host, broker.port⟩))

/-- What `from_response` makes of one entry. -/
def streamOf (brokers : HashMap UInt16 Broker) (metadata : Protocol.StreamMetadata) :
    Option (String × StreamMetadata) :=
  (brokers.get metadata.leaderReference).map fun leader =>
    (metadata.streamName,
      { stream := metadata.streamName
        responseCode := metadata.code
        leader := leader
        replicas := metadata.replicasReferences.filterMap fun replica => brokers.get replica })

/-- `from_response`. -/
def fromResponse (response : MetadataResponse) : HashMap String StreamMetadata :=
  HashMap.collect (response.streamMetadata.filterMap (streamOf (brokersOf response)))

/-! ## 2. What is found in it

Each search is turned into a statement about the last member of a list with a property, and the
statements about the two maps are put together. -/

/-- The last member of a list with a property. -/
def LastWith {α : Type} (p : α → Prop) (xs : List α) (x : α) : Prop :=
  ∃ before behind, xs = before ++ x :: behind ∧ p x ∧ ∀ y ∈ behind, ¬ p y

theorem find_reverse_iff {α : Type} {p : α → Prop} [DecidablePred p] {xs : List α} {x : α} :
    xs.reverse.find? (fun y => p y) = some x ↔ LastWith p xs x := by
  rw [List.find?_eq_some_iff_append]
  constructor
  · rintro ⟨hx, behind, before, hxs, hbehind⟩
    refine ⟨before.reverse, behind.reverse, ?_, by simpa using hx, ?_⟩
    · rw [← List.reverse_reverse xs, hxs]
      simp
    · intro y hy
      simpa using hbehind y (List.mem_reverse.mp hy)
  · rintro ⟨before, behind, rfl, hx, hbehind⟩
    refine ⟨by simpa using hx, behind.reverse, before.reverse, by simp, ?_⟩
    intro y hy
    simpa using hbehind y (List.mem_reverse.mp hy)

/-- The broker of a reference: the last one that the response gives that reference to. -/
def BrokerOf (response : MetadataResponse) (reference : UInt16) (broker : Broker) : Prop :=
  ∃ entry, LastWith (fun b => b.reference = reference) response.brokers entry ∧
    broker = ⟨entry.host, entry.port⟩

theorem get_brokersOf_iff {response : MetadataResponse} {reference : UInt16} {broker : Broker} :
    (brokersOf response).get reference = some broker ↔ BrokerOf response reference broker := by
  rw [brokersOf, HashMap.get_collect, ← List.map_reverse, List.find?_map]
  simp only [BrokerOf, ← find_reverse_iff]
  constructor
  · intro h
    obtain ⟨e, he, rfl⟩ := Option.map_eq_some_iff.mp h
    obtain ⟨b, hb, rfl⟩ := Option.map_eq_some_iff.mp he
    exact ⟨b, hb, rfl⟩
  · rintro ⟨b, hb, rfl⟩
    exact Option.map_eq_some_iff.mpr ⟨_, Option.map_eq_some_iff.mpr ⟨b, hb, rfl⟩, rfl⟩

/-- The response has a broker for a reference exactly when it lists the reference. -/
theorem brokerOf_isSome_iff {response : MetadataResponse} {reference : UInt16} :
    (∃ broker, BrokerOf response reference broker) ↔
      ∃ b ∈ response.brokers, b.reference = reference := by
  simp only [← get_brokersOf_iff]
  rw [brokersOf, HashMap.get_collect, ← Option.isSome_iff_exists, Option.isSome_map,
    List.find?_isSome]
  simp

/-- The entry is of that stream, and its leader is a broker of the response. -/
def Led (response : MetadataResponse) (stream : String) (entry : Protocol.StreamMetadata) : Prop :=
  entry.streamName = stream ∧ ∃ b ∈ response.brokers, b.reference = entry.leaderReference

/-- The replicas of an entry that the response knows. -/
inductive ReplicasOf (response : MetadataResponse) : List UInt16 → List Broker → Prop where
  | nil : ReplicasOf response [] []
  | known {reference : UInt16} {broker : Broker} {references : List UInt16}
      {brokers : List Broker} :
      BrokerOf response reference broker → ReplicasOf response references brokers →
        ReplicasOf response (reference :: references) (broker :: brokers)
  | unknown {reference : UInt16} {references : List UInt16} {brokers : List Broker} :
      (∀ b ∈ response.brokers, b.reference ≠ reference) →
        ReplicasOf response references brokers →
          ReplicasOf response (reference :: references) brokers

theorem replicasOf_filterMap (response : MetadataResponse) (references : List UInt16) :
    ReplicasOf response references
      (references.filterMap fun replica => (brokersOf response).get replica) := by
  induction references with
  | nil => exact .nil
  | cons reference references ih =>
    cases hget : (brokersOf response).get reference with
    | none =>
      rw [List.filterMap_cons_none hget]
      refine .unknown ?_ ih
      intro b hb hreference
      obtain ⟨broker, hbroker⟩ := brokerOf_isSome_iff.mpr ⟨b, hb, hreference⟩
      rw [get_brokersOf_iff.mpr hbroker] at hget
      exact absurd hget (by simp)
    | some broker =>
      rw [List.filterMap_cons_some hget]
      exact .known (get_brokersOf_iff.mp hget) ih

theorem replicasOf_unique {response : MetadataResponse} {references : List UInt16}
    {brokers : List Broker} (h : ReplicasOf response references brokers) :
    brokers = references.filterMap fun replica => (brokersOf response).get replica := by
  induction h with
  | nil => rfl
  | known hbroker _ ih =>
    rw [List.filterMap_cons_some (get_brokersOf_iff.mpr hbroker), ih]
  | @unknown reference _ _ hunknown _ ih =>
    have hnone : (brokersOf response).get reference = none := by
      rw [Option.eq_none_iff_forall_ne_some]
      intro broker hget
      obtain ⟨b, hb, hreference⟩ := brokerOf_isSome_iff.mp ⟨broker, get_brokersOf_iff.mp hget⟩
      exact hunknown b hb hreference
    rw [List.filterMap_cons_none hnone, ih]

theorem streamOf_isSome_iff {response : MetadataResponse} {stream : String}
    {entry : Protocol.StreamMetadata} :
    (∃ m, streamOf (brokersOf response) entry = some (stream, m)) ↔ Led response stream entry := by
  simp only [streamOf, Led, Option.map_eq_some_iff, Prod.mk.injEq]
  rw [← brokerOf_isSome_iff]
  constructor
  · rintro ⟨m, leader, hleader, hname, -⟩
    exact ⟨hname, leader, get_brokersOf_iff.mp hleader⟩
  · rintro ⟨hname, leader, hleader⟩
    exact ⟨_, leader, get_brokersOf_iff.mpr hleader, hname, rfl⟩

/-- The last image with a property is the image of the last member that has such an image. -/
theorem lastWith_filterMap {α β : Type} {f : α → Option β} {p : β → Prop} {xs : List α} {y : β} :
    LastWith p (xs.filterMap f) y ↔
      ∃ x, LastWith (fun x => ∃ y, f x = some y ∧ p y) xs x ∧ f x = some y := by
  constructor
  · rintro ⟨before, behind, hxs, hy, hbehind⟩
    obtain ⟨front, back, rfl, hfront, hback⟩ := List.filterMap_eq_append_iff.mp hxs
    obtain ⟨skipped, x, rest, rfl, hskipped, hx, hrest⟩ := List.filterMap_eq_cons_iff.mp hback
    refine ⟨x, ⟨front ++ skipped, rest, by simp, ⟨y, hx, hy⟩, ?_⟩, hx⟩
    rintro z hz ⟨y', hy', hp⟩
    exact hbehind y' (hrest ▸ List.mem_filterMap.mpr ⟨z, hz, hy'⟩) hp
  · rintro ⟨x, ⟨before, behind, rfl, ⟨y', hy', hp⟩, hbehind⟩, hx⟩
    obtain rfl : y' = y := Option.some.inj (hy'.symm.trans hx)
    refine ⟨before.filterMap f, behind.filterMap f, ?_, hp, ?_⟩
    · rw [List.filterMap_append, List.filterMap_cons_some hx]
    · intro z hz hpz
      obtain ⟨x', hx', hz'⟩ := List.mem_filterMap.mp hz
      exact hbehind x' hx' ⟨z, hz', hpz⟩

/-- The metadata of a stream, as the response has them. -/
def Describes (response : MetadataResponse) (stream : String) (m : StreamMetadata) : Prop :=
  ∃ entry, LastWith (Led response stream) response.streamMetadata entry ∧
    m.stream = stream ∧ m.responseCode = entry.code ∧
      BrokerOf response entry.leaderReference m.leader ∧
        ReplicasOf response entry.replicasReferences m.replicas

theorem streamOf_eq_some_iff {response : MetadataResponse} {stream : String}
    {entry : Protocol.StreamMetadata} {m : StreamMetadata} (hname : entry.streamName = stream) :
    streamOf (brokersOf response) entry = some (stream, m) ↔
      m.stream = stream ∧ m.responseCode = entry.code ∧
        BrokerOf response entry.leaderReference m.leader ∧
          ReplicasOf response entry.replicasReferences m.replicas := by
  subst hname
  simp only [streamOf, Option.map_eq_some_iff, Prod.mk.injEq]
  constructor
  · rintro ⟨leader, hleader, -, rfl⟩
    exact ⟨rfl, rfl, get_brokersOf_iff.mp hleader, replicasOf_filterMap _ _⟩
  · rintro ⟨hstream, hcode, hleader, hreplicas⟩
    refine ⟨m.leader, get_brokersOf_iff.mpr hleader, trivial, ?_⟩
    rw [← hstream, ← hcode, ← replicasOf_unique hreplicas]

/-- **What the map has under a name.** -/
theorem get_fromResponse_iff {response : MetadataResponse} {stream : String}
    {m : StreamMetadata} :
    (fromResponse response).get stream = some m ↔ Describes response stream m := by
  have hled : ∀ entry : Protocol.StreamMetadata,
      (∃ y, streamOf (brokersOf response) entry = some y ∧ y.1 = stream) ↔
        Led response stream entry := by
    intro entry
    rw [← streamOf_isSome_iff]
    constructor
    · rintro ⟨y, hy, rfl⟩
      exact ⟨y.2, hy⟩
    · rintro ⟨m, hm⟩
      exact ⟨_, hm, rfl⟩
  rw [fromResponse, HashMap.get_collect, Option.map_eq_some_iff]
  simp only [find_reverse_iff, lastWith_filterMap, hled]
  constructor
  · rintro ⟨⟨name, m'⟩, ⟨entry, hlast, hentry⟩, rfl⟩
    have hname : entry.streamName = stream := hlast.choose_spec.choose_spec.2.1.1
    obtain rfl : stream = name := by
      obtain ⟨leader, -, heq⟩ := Option.map_eq_some_iff.mp hentry
      exact hname.symm.trans (congrArg Prod.fst heq)
    exact ⟨entry, hlast, (streamOf_eq_some_iff hname).mp hentry⟩
  · rintro ⟨entry, hlast, hm⟩
    have hname : entry.streamName = stream := hlast.choose_spec.choose_spec.2.1.1
    exact ⟨(stream, m), ⟨entry, hlast, (streamOf_eq_some_iff hname).mpr hm⟩, rfl⟩

/-- **The map has nothing under a name** exactly when no entry of that name is led by a broker of
the response. -/
theorem get_fromResponse_eq_none_iff {response : MetadataResponse} {stream : String} :
    (fromResponse response).get stream = none ↔
      ∀ entry ∈ response.streamMetadata, ¬ Led response stream entry := by
  rw [fromResponse, HashMap.get_collect, Option.map_eq_none_iff, List.find?_eq_none]
  simp only [List.mem_reverse, List.mem_filterMap, decide_eq_true_eq]
  constructor
  · intro h entry hentry hled
    obtain ⟨m, hm⟩ := streamOf_isSome_iff.mpr hled
    exact h _ ⟨entry, hentry, hm⟩ rfl
  · rintro h ⟨name, m⟩ ⟨entry, hentry, hm⟩ rfl
    exact h entry hentry (streamOf_isSome_iff.mp ⟨m, hm⟩)

end Metadata

end RabbitMqStream.Client
