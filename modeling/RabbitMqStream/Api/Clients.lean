/-
# The connection that a producer or a consumer gets

`create_producer_client` and `create_consumer_client`.  A connection is opened and asked where the
stream is; then it is closed and another one, to that broker, takes its place.

* `moveTo_spec`: the change to another broker.  When it is over, the new connection is the only one;
  while it goes on, there are at most two.  Behind a load balancer it takes the first connection
  that is to the broker, and as many rounds as that needs.
* `createProducerClient_spec`, `createConsumerClient_spec`: what the two functions hold when they
  return, to which broker it is, and when an error leaves nothing open.

**The argument.**  In each function one follows which connections are held: one is taken, used,
and given back before or after the next one is taken.  The loop behind a load balancer has an
invariant that counts its rounds, each of which opens one connection and closes it
(`ends_repeatUntil`).  That the number of rounds is immaterial is a statement about two programs:
the one with fewer rounds ends in the same way as the one with more, or has not ended yet
(`Extends`).
-/
import RabbitMqStream.Api.Model

namespace RabbitMqStream.Api

open Lts Lts.Program Lts.Leases
open Protocol hiding Broker StreamMetadata
open RabbitMqStream.Client (Broker StreamMetadata)
open RabbitMqStream.Client.Close (ClientError)

/-! ## 1. One connection

The steps that all calls are made of, with what they do to the ledger: open, use, close.  A
connect that fails behind its open leaves the connection open, and a close that fails has given
nothing back. -/

/-- The connections that were opened, in their order. -/
def opened (trace : Trace) : List Session :=
  trace.filterMap fun
    | ⟨.createConnection _, .ok session⟩ => some session
    | _ => none

theorem opened_append (trace trace' : Trace) :
    opened (trace ++ trace') = opened trace ++ opened trace' := List.filterMap_append

/-- The last thing that was done is to open a connection, and that has failed. -/
def NotOpened (trace : Trace) : Prop :=
  ∃ opts e, trace.getLast? = some ⟨.createConnection opts, .error e⟩

theorem notOpened_append {before trace : Trace} (h : trace ≠ []) :
    NotOpened (before ++ trace) ↔ NotOpened trace := by
  obtain ⟨last, hlast⟩ := Option.isSome_iff_exists.mp (List.getLast?_isSome.mpr h)
  rw [NotOpened, NotOpened, List.getLast?_append, hlast]
  rfl

section Specs

variable {base w : Leases} {room : ℕ} {kept : List ℕ}

/-- Nothing panics. -/
abbrev never : Trace → Leases → Prop := fun _ _ => False

/-- **`Client::connect`** holds one connection more when it returns a client; when it fails, it
holds one more unless it has not been opened.  The first operation opens the connection.  The second
one asks for the versions of the commands, and its error leaves the connection open. -/
theorem connect_spec (opts : ClientOptions) (hkeeps : Keeps base room kept w)
    (hroom : kept.length < room) :
    ends surroundings (Client.connect opts) w
      (fun trace client w' => Keeps base room (client.connection :: kept) w' ∧ client.opts = opts ∧
        opened trace = [⟨client.connection, client.connectionProperties⟩])
      (fun trace _ w' => trace ≠ [] ∧ ∃ more, Keeps base room (more ++ kept) w' ∧
        (more = [] ↔ NotOpened trace) ∧ (opened trace).length = more.length)
      never := by
  unfold Client.connect
  rw [ends_bind, ends_attempt]
  intro answer w₁ hstep
  cases answer with
  | error e =>
    obtain rfl : w₁ = w := hstep
    exact ⟨by simp, [], hkeeps, by simp [NotOpened], rfl⟩
  | ok session =>
    obtain ⟨hnext, rfl⟩ : ∃ h : w.next ≤ session.connection, w₁ = w.take session.connection h :=
      hstep
    have htaken := hkeeps.take hroom hnext
    change ends surroundings _ _ _ _ _
    rw [ends_bind, ends_attempt]
    intro answer w₂ hstep
    obtain rfl : w₂ = (w.take session.connection hnext).use session.connection := hstep
    have hused := htaken.use (List.mem_cons_self (a := session.connection) (l := kept))
    cases answer with
    | error e => exact ⟨by simp, [session.connection], hused, by simp [NotOpened], rfl⟩
    | ok commandVersions =>
      change ends surroundings (pure _) _ _ _ _
      rw [ends_pure]
      exact ⟨hused, rfl, rfl⟩

/-- A request on a connection that is held. -/
theorem request_spec {ε α : Type} (op : Operation) {result : op.Answer → Except ε α} {n : ℕ}
    (hop : ∀ answer, op.leasing answer = .use n) (hkeeps : Keeps base room kept w) (hn : n ∈ kept) :
    ends surroundings (attempt op result) w
      (fun trace a w' => Keeps base room kept w' ∧
        ∃ answer, trace = [⟨op, answer⟩] ∧ result answer = .ok a)
      (fun trace e w' => Keeps base room kept w' ∧
        ∃ answer, trace = [⟨op, answer⟩] ∧ result answer = .error e)
      never := by
  rw [ends_attempt]
  intro answer w' hstep
  have hw' : w.Step (op.leasing answer) w' := hstep
  rw [hop] at hw'
  obtain rfl : w' = w.use n := hw'
  have hused := hkeeps.use hn
  cases hresult : result answer with
  | error e => exact ⟨hused, answer, rfl, hresult⟩
  | ok a => exact ⟨hused, answer, rfl, hresult⟩

/-- **`Client::close`** gives the connection back, unless it fails. -/
theorem close_spec (client : Client) (hkeeps : Keeps base room kept w)
    (hn : client.connection ∈ kept) :
    ends surroundings client.close w
      (fun trace _ w' => Keeps base room (kept.erase client.connection) w' ∧
        trace = [⟨.close client.connection, .ok ()⟩])
      (fun trace _ w' => Keeps base room kept w' ∧
        ∃ e, trace = [⟨.close client.connection, .error e⟩])
      never := by
  unfold Client.close
  rw [ends_attempt]
  intro answer w' hstep
  cases answer with
  | error e =>
    obtain rfl : w' = w.use client.connection := hstep
    exact ⟨hkeeps.use hn, e, rfl⟩
  | ok u =>
    obtain rfl : w' = w.release client.connection := hstep
    exact ⟨hkeeps.release hn, rfl⟩

end Specs

/-! ## 2. The change to another broker

With a broker that can be dialled it is one open.  Behind a load balancer it is a loop, whose
rounds leave nothing but the connection of the last one. -/

/-- The connection is to the broker that is wanted, as far as it says. -/
def Session.Is (session : Session) (wanted : Broker) : Prop :=
  session.connectionProperties.get "advertised_host" = some wanted.host

namespace Environment

variable (self : Environment) {base w : Leases}

/-- One round behind a load balancer.  Two connections are open for a time.  When the new one is to
the broker that is wanted the old one is closed, else the new one; if the close fails, both stay. -/
theorem tryBroker_spec (client : Client) (wanted : Broker)
    (hkeeps : Keeps base 2 [client.connection] w) :
    ends surroundings (self.tryBroker client wanted) w
      (fun trace r w' => ∃ session, opened trace = [session] ∧
        r.elim (Keeps base 2 [client.connection] w' ∧ ¬ session.Is wanted) fun c =>
          Keeps base 2 [c.connection] w' ∧ session.Is wanted ∧ c.opts = self.options ∧
            session = ⟨c.connection, c.connectionProperties⟩)
      (fun trace _ w' => trace ≠ [] ∧ ∃ kept, kept ≠ [] ∧ Keeps base 2 kept w')
      never := by
  unfold tryBroker
  rw [ends_bind]
  refine ends_mono ?_ ?_ (fun _ _ h => h) (connect_spec self.options hkeeps (by simp))
  · rintro trace tempClient w₁ ⟨hkeeps₁, hopts, hopened⟩
    by_cases his : tempClient.connectionProperties.get "advertised_host" = some wanted.host
    · rw [if_pos his, ends_bind]
      refine ends_mono ?_ ?_ (fun _ _ h => h) (close_spec client hkeeps₁ (by simp))
      · rintro trace' _ w₂ ⟨hkeeps₂, rfl⟩
        rw [ends_pure, List.append_nil, opened_append, hopened]
        exact ⟨_, rfl, hkeeps₁.erase_second ▸ hkeeps₂, his, hopts, rfl⟩
      · rintro trace' e w₂ ⟨hkeeps₂, e', rfl⟩
        exact ⟨by simp, _, by simp, hkeeps₂⟩
    · rw [if_neg his, ends_bind]
      refine ends_mono ?_ ?_ (fun _ _ h => h) (close_spec tempClient hkeeps₁ (by simp))
      · rintro trace' _ w₂ ⟨hkeeps₂, rfl⟩
        rw [List.erase_cons_head] at hkeeps₂
        rw [ends_pure, List.append_nil, opened_append, hopened]
        exact ⟨_, rfl, hkeeps₂, his⟩
      · rintro trace' e w₂ ⟨hkeeps₂, e', rfl⟩
        exact ⟨by simp, _, by simp, hkeeps₂⟩
  · rintro trace e w₁ ⟨hne, more, hkeeps₁, -⟩
    exact ⟨hne, _, by simp, hkeeps₁⟩

/-- The client is connected to the broker that was wanted: behind a load balancer by what it says of
itself, and with the options of the environment; elsewhere by its address. -/
def Reaches (wanted : Broker) (opts : ClientOptions) (client : Client) : Prop :=
  if self.options.loadBalancerMode then
    client.opts = self.options ∧
      client.connectionProperties.get "advertised_host" = some wanted.host
  else client.opts = { opts with host := wanted.host, port := wanted.port.toUInt16 }

/-- The change has come about with the connections that were opened for it: behind a load balancer,
the connection is the first one that is to the broker. -/
structure Moved (wanted : Broker) (opts : ClientOptions) (sessions : List Session)
    (client : Client) : Prop where
  reaches : self.Reaches wanted opts client
  first : ∃ missed, sessions = missed ++ [⟨client.connection, client.connectionProperties⟩] ∧
    (∀ session ∈ missed, ¬ session.Is wanted) ∧
      (self.options.loadBalancerMode = false → missed = [])

/-- The loop behind a load balancer goes on: it has met so many other brokers. -/
structure Missed (wanted : Broker) (rounds : ℕ) (sessions : List Session) : Prop where
  mode : self.options.loadBalancerMode = true
  length : sessions.length = rounds
  others : ∀ session ∈ sessions, ¬ session.Is wanted

/-- **The change to another broker.** Without a load balancer the old connection is closed and the
new one is opened, which may fail with nothing left.  With one it is the rule of the loop, where the
invariant counts the brokers that were met. -/
theorem moveTo_spec (rounds : ℕ) (client : Client) (wanted : Broker) (opts : ClientOptions)
    (hkeeps : Keeps base 2 [client.connection] w) :
    ends surroundings (self.moveTo rounds client wanted opts) w
      (fun trace r w' => r.elim
        (Keeps base 2 [client.connection] w' ∧ self.Missed wanted rounds (opened trace))
        fun c => Keeps base 2 [c.connection] w' ∧ self.Moved wanted opts (opened trace) c)
      (fun trace _ w' => trace ≠ [] ∧ ∃ kept, Keeps base 2 kept w' ∧
        (kept = [] ↔ NotOpened trace ∧ self.options.loadBalancerMode = false))
      never := by
  unfold moveTo
  by_cases hmode : self.options.loadBalancerMode = true
  · rw [if_pos hmode]
    -- Every round that does not break has met another broker and closed the connection to it.
    have hloop := @ends_repeatUntil _ _ _ _ _ surroundings (self.tryBroker client wanted)
      (fun k before w => Keeps base 2 [client.connection] w ∧
        (opened before).length = k ∧ ∀ session ∈ opened before, ¬ session.Is wanted)
      (fun trace c w => Keeps base 2 [c.connection] w ∧ self.Moved wanted opts (opened trace) c)
      (fun trace _ w => trace ≠ [] ∧ ∃ kept, kept ≠ [] ∧ Keeps base 2 kept w)
      never ?_ rounds 0 [] w ⟨hkeeps, by simp [opened]⟩
    · refine ends_mono ?_ ?_ (fun _ _ h => h) hloop
      · intro trace r w' hr
        rw [List.nil_append, Nat.zero_add] at hr
        cases r with
        | none => exact ⟨hr.1, hmode, hr.2.1, hr.2.2⟩
        | some c => exact hr
      · rintro trace e w' ⟨hne, kept, hkept, hkeeps'⟩
        exact ⟨hne, kept, hkeeps', by simp [hkept, hmode]⟩
    · rintro k before w₁ ⟨hkeeps₁, hlength, hmissed⟩
      refine ends_mono ?_ ?_ (fun _ _ h => h) (self.tryBroker_spec client wanted hkeeps₁)
      · rintro trace r w₂ ⟨session, hopened, hr⟩
        cases r with
        | none =>
          refine ⟨hr.1, by simp [opened_append, hopened, hlength], ?_⟩
          intro other hother
          rw [opened_append, hopened] at hother
          rcases List.mem_append.mp hother with hother | hother
          · exact hmissed other hother
          · exact List.mem_singleton.mp hother ▸ hr.2
        | some c =>
          obtain ⟨hkeeps₂, his, hopts, rfl⟩ := hr
          refine ⟨hkeeps₂, ?_, opened before, ?_, hmissed, by simp [hmode]⟩
          · rw [Reaches, if_pos hmode]
            exact ⟨hopts, his⟩
          · rw [opened_append, hopened]
      · rintro trace e w₂ ⟨hne, kept, hkept, hkeeps₂⟩
        exact ⟨by simp [hne], kept, hkept, hkeeps₂⟩
  · rw [if_neg hmode, ends_bind]
    have hmode' : self.options.loadBalancerMode = false := by simpa using hmode
    refine ends_mono ?_ ?_ (fun _ _ h => h) (close_spec client hkeeps (by simp))
    · rintro trace _ w₁ ⟨hkeeps₁, rfl⟩
      rw [List.erase_cons_head] at hkeeps₁
      rw [ends_bind]
      refine ends_mono ?_ ?_ (fun _ _ h => h) (connect_spec _ hkeeps₁ (by simp))
      · rintro trace' c w₂ ⟨hkeeps₂, hopts, hopened⟩
        rw [ends_pure, List.append_nil]
        refine ⟨hkeeps₂, ?_, [], ?_, by simp, fun _ => rfl⟩
        · rw [Reaches, if_neg hmode]
          exact hopts
        rw [opened_append, hopened]
        rfl
      · rintro trace' e w₂ ⟨hne, more, hkeeps₂, hmore, -⟩
        rw [List.append_nil] at hkeeps₂
        refine ⟨by simp, more, hkeeps₂, ?_⟩
        rw [notOpened_append hne, hmore]
        simp [hmode']
    · rintro trace e w₁ ⟨hkeeps₁, e', rfl⟩
      exact ⟨by simp, _, hkeeps₁, by simp [NotOpened]⟩

/-! ## 3. Where the stream is

The first connection is asked and then given up for the one that is wanted, or kept.  When it is
closed before the other one is opened there is one connection at a time, else there are two. -/

/-- The broker was asked for the stream, and has described it. -/
def Located (stream : String) (trace : Trace) (metadata : StreamMetadata) : Prop :=
  ∃ connection response, ⟨.metadata connection [stream], .ok response⟩ ∈ trace ∧
    Client.Metadata.Describes response stream metadata

/-- The broker was asked for the stream, and knows no leader of it. -/
def NotLocated (stream : String) (trace : Trace) : Prop :=
  ∃ connection response, ⟨.metadata connection [stream], .ok response⟩ ∈ trace ∧
    ∀ entry ∈ response.streamMetadata, ¬ Client.Metadata.Led response stream entry

/-- An error leaves nothing open exactly when a connection could not be opened and there was none to
keep: the first one, or the one that is dialled when the first one is closed. -/
def LeavesNothing (trace : Trace) : Prop :=
  NotOpened trace ∧ (opened trace = [] ∨ self.options.loadBalancerMode = false)

/-- A broker of the description is found, and the client is connected to it. -/
def Found (wanted : StreamMetadata → Broker → Prop) (stream : String) (opts : ClientOptions)
    (trace : Trace) (client : Client) : Prop :=
  ∃ metadata broker first sessions, Located stream trace metadata ∧ wanted metadata broker ∧
    opened trace = first :: sessions ∧ self.Moved broker opts sessions client

/-- A broker of the description is looked for behind a load balancer, with the first connection
still open. -/
def Sought (wanted : StreamMetadata → Broker → Prop) (stream : String) (rounds : ℕ)
    (trace : Trace) (connection : ℕ) : Prop :=
  ∃ metadata broker first sessions, Located stream trace metadata ∧ wanted metadata broker ∧
    opened trace = first :: sessions ∧ first.connection = connection ∧
      self.Missed broker rounds sessions

/-- The stream has no replica, and the first connection stays. -/
def Stays (stream : String) (opts : ClientOptions) (trace : Trace) (client : Client) : Prop :=
  ∃ metadata, Located stream trace metadata ∧ metadata.replicas = [] ∧
    opened trace = [⟨client.connection, client.connectionProperties⟩] ∧ client.opts = opts

/-- What the search for a broker has ended with, that holds no connection but the one of its
result. -/
def Searched (wanted : StreamMetadata → Broker → Prop) (stream : String) (rounds : ℕ)
    (base : Leases) (trace : Trace) (found : Client → Prop) (r : Option Client) (w' : Leases) :
    Prop :=
  r.elim
    (∃ connection, Keeps base 2 [connection] w' ∧ self.Sought wanted stream rounds trace connection)
    fun c => Keeps base 2 [c.connection] w' ∧ found c

/-- What the search leaves behind when it fails. -/
def SearchFailed {ε : Type} (toError : ClientError → ε) (notThere : ε) (stream : String)
    (base : Leases) (trace : Trace) (e : ε) (w' : Leases) : Prop :=
  ∃ kept, Keeps base 2 kept w' ∧ (kept = [] ↔ self.LeavesNothing trace) ∧
    (NotLocated stream trace ∧ e = notThere ∨ ∃ e', e = toError e')

/-- **The first connection** is asked for the stream.  What comes behind the answer differs between
a producer and a consumer and is a parameter here, with what it may rely on. -/
theorem locate_spec {ε α : Type} {stream : String} {opts : ClientOptions}
    {toError : ClientError → ε} {f : Client → HashMap String StreamMetadata → Call ε α}
    {Ok : Trace → α → Leases → Prop} {Err : Trace → ε → Leases → Prop}
    (hrest : ∀ client response w₁ trace, Keeps base 2 [client.connection] w₁ →
      client.opts = opts →
      opened trace = [⟨client.connection, client.connectionProperties⟩] →
      ⟨.metadata client.connection [stream], .ok response⟩ ∈ trace → ¬ NotOpened trace →
      ends surroundings (f client (Client.Metadata.fromResponse response)) w₁
        (fun trace' => Ok (trace ++ trace')) (fun trace' => Err (trace ++ trace')) never)
    (hfail : ∀ trace e w', (∃ kept, Keeps base 2 kept w' ∧
      (kept = [] ↔ NotOpened trace) ∧ (NotOpened trace → opened trace = [])) →
        Err trace (toError e) w') :
    ends surroundings (do
      let client ← mapErr toError (Client.connect opts)
      let streams ← mapErr toError (client.metadata [stream])
      f client streams) base Ok Err never := by
  rw [ends_bind, ends_mapErr]
  refine ends_mono ?_ ?_ (fun _ _ h => h) (connect_spec opts (Keeps.refl base 2) (by simp))
  · rintro trace client w₁ ⟨hkeeps₁, hopts, hopened⟩
    rw [ends_bind, ends_mapErr]
    unfold Client.metadata
    rw [ends_bind]
    refine ends_mono ?_ ?_ (fun _ _ h => h)
      (request_spec (.metadata client.connection [stream]) (fun _ => rfl) hkeeps₁ (by simp))
    · rintro trace' response w₂ ⟨hkeeps₂, answer, rfl, rfl⟩
      rw [ends_pure]
      have hcall := hrest client response w₂
        (trace ++ [⟨.metadata client.connection [stream], .ok response⟩]) hkeeps₂ hopts
        (by rw [opened_append, hopened]; rfl) (by simp) (by simp [NotOpened])
      simpa only [List.append_assoc, List.append_nil] using hcall
    · rintro trace' e w₂ ⟨hkeeps₂, answer, rfl, rfl⟩
      refine hfail _ e w₂ ⟨_, hkeeps₂, ?_⟩
      simp [NotOpened]
  · rintro trace e w₁ ⟨-, more, hkeeps₁, hmore, hlength⟩
    rw [List.append_nil] at hkeeps₁
    refine hfail trace e w₁ ⟨more, hkeeps₁, hmore, fun hnot => ?_⟩
    rw [← List.length_eq_zero_iff, hlength, List.length_eq_zero_iff]
    exact hmore.mpr hnot

/-- **`create_producer_client`** returns a connection to the leader of the stream and holds no
other; or it is still looking for the leader behind a load balancer, and holds the first connection;
or it fails, and what it holds then is nothing exactly when no connection could be opened. -/
theorem createProducerClient_spec (rounds : ℕ) (stream clientProvidedName : String) :
    ends surroundings (self.createProducerClient rounds stream clientProvidedName) base
      (fun trace => self.Searched (fun m b => b = m.leader) stream rounds base trace
        (self.Found (fun m b => b = m.leader) stream (self.named clientProvidedName) trace))
      (self.SearchFailed .client (.streamDoesNotExist stream) stream base) never := by
  unfold createProducerClient
  refine locate_spec ?_ ?_
  · intro client response w₁ trace hkeeps₁ hopts hopened hasked hnot
    cases hget : (Client.Metadata.fromResponse response).get stream with
    | none =>
      rw [ends_throw, List.append_nil]
      refine ⟨_, hkeeps₁, ?_, Or.inl ⟨⟨_, response, hasked, ?_⟩, rfl⟩⟩
      · simp [LeavesNothing, hnot]
      · exact Client.Metadata.get_fromResponse_eq_none_iff.mp hget
    | some metadata =>
      have hlocated : ∀ trace', Located stream (trace ++ trace') metadata := fun trace' =>
        ⟨_, response, List.mem_append_left _ hasked, Client.Metadata.get_fromResponse_iff.mp hget⟩
      rw [ends_mapErr]
      refine ends_mono ?_ ?_ (fun _ _ h => h)
        (self.moveTo_spec rounds client metadata.leader _ hkeeps₁)
      · intro trace' r w₂ hr
        have hall : opened (trace ++ trace') =
            ⟨client.connection, client.connectionProperties⟩ :: opened trace' := by
          rw [opened_append, hopened]
          rfl
        cases r with
        | none => exact ⟨_, hr.1, metadata, _, _, _, hlocated _, rfl, hall, rfl, hr.2⟩
        | some c => exact ⟨hr.1, metadata, _, _, _, hlocated _, rfl, hall, hr.2⟩
      · rintro trace' e w₂ ⟨hne, kept, hkeeps₂, hkept⟩
        refine ⟨kept, hkeeps₂, ?_, Or.inr ⟨e, rfl⟩⟩
        rw [hkept, LeavesNothing, notOpened_append hne, opened_append, hopened]
        simp
  · rintro trace e w' ⟨kept, hkeeps', hkept, hnone⟩
    refine ⟨kept, hkeeps', ?_, Or.inr ⟨e, rfl⟩⟩
    rw [hkept, LeavesNothing]
    exact ⟨fun hnot => ⟨hnot, Or.inl (hnone hnot)⟩, fun hleaves => hleaves.1⟩

/-- What `choose` returns: a member of the list, and nothing only when the list is empty. -/
theorem choose_spec (replicas : List Broker) (w : Leases) :
    ends surroundings (choose replicas) w
      (fun trace r w' => (∃ drawn, trace = [⟨.draw, drawn⟩]) ∧ w' = w ∧
        r.elim (replicas = []) fun replica => replica ∈ replicas)
      (fun _ _ _ => False) never := by
  unfold choose
  rw [ends_bind, ends_attempt]
  intro drawn w₁ hstep
  obtain rfl : w₁ = w := hstep
  change ends surroundings (pure _) _ _ _ _
  rw [ends_pure]
  refine ⟨⟨drawn, rfl⟩, rfl, ?_⟩
  cases hget : replicas[drawn % replicas.length]? with
  | none =>
    have hle := List.getElem?_eq_none_iff.mp hget
    by_contra hne
    have hpos : 0 < replicas.length := List.length_pos_of_ne_nil hne
    exact absurd (Nat.mod_lt drawn hpos) (Nat.not_lt.mpr hle)
  | some replica => exact List.mem_of_getElem? hget

/-- **`create_consumer_client`** returns a connection to a replica of the stream, or the first one
when the stream has no replica, and holds no other.  By what the response has for the stream, and by
what `choose` draws: no entry is an error with the first connection open, no replica leaves the
first connection in use, and a replica is dialled. -/
theorem createConsumerClient_spec (rounds : ℕ) (stream clientProvidedName : String) :
    ends surroundings (self.createConsumerClient rounds stream clientProvidedName) base
      (fun trace => self.Searched (fun m b => b ∈ m.replicas) stream rounds base trace
        fun c => Stays stream (self.named clientProvidedName) trace c ∨
          self.Found (fun m b => b ∈ m.replicas) stream self.options trace c)
      (self.SearchFailed .client (.streamDoesNotExist stream) stream base) never := by
  unfold createConsumerClient
  refine locate_spec ?_ ?_
  · intro client response w₁ trace hkeeps₁ hopts hopened hasked hnot
    cases hget : (Client.Metadata.fromResponse response).get stream with
    | none =>
      rw [ends_throw, List.append_nil]
      refine ⟨_, hkeeps₁, ?_, Or.inl ⟨⟨_, response, hasked, ?_⟩, rfl⟩⟩
      · simp [LeavesNothing, hnot]
      · exact Client.Metadata.get_fromResponse_eq_none_iff.mp hget
    | some metadata =>
      have hlocated : ∀ trace', Located stream (trace ++ trace') metadata := fun trace' =>
        ⟨_, response, List.mem_append_left _ hasked, Client.Metadata.get_fromResponse_iff.mp hget⟩
      have hall : ∀ drawn trace', opened (trace ++ (⟨.draw, drawn⟩ :: trace')) =
          ⟨client.connection, client.connectionProperties⟩ :: opened trace' := by
        intro drawn trace'
        rw [opened_append, hopened]
        rfl
      rw [ends_bind, ends_mapErr]
      refine ends_mono ?_ (fun _ _ _ h => h.elim) (fun _ _ h => h)
        (choose_spec metadata.replicas w₁)
      rintro _ r w₂ ⟨⟨drawn, rfl⟩, rfl, hr⟩
      cases r with
      | none =>
        rw [ends_pure]
        exact ⟨hkeeps₁, Or.inl ⟨metadata, hlocated _, hr, hall drawn [], hopts⟩⟩
      | some replica =>
        rw [ends_mapErr]
        refine ends_mono ?_ ?_ (fun _ _ h => h)
          (self.moveTo_spec rounds client replica self.options hkeeps₁)
        · intro trace' r w₃ hmoved
          cases r with
          | none =>
            exact ⟨_, hmoved.1, metadata, _, _, _, hlocated _, hr, hall drawn trace', rfl,
              hmoved.2⟩
          | some c =>
            exact ⟨hmoved.1, Or.inr ⟨metadata, _, _, _, hlocated _, hr, hall drawn trace',
              hmoved.2⟩⟩
        · rintro trace' e w₃ ⟨hne, kept, hkeeps₃, hkept⟩
          refine ⟨kept, hkeeps₃, ?_, Or.inr ⟨e, rfl⟩⟩
          have hdrawn : NotOpened (⟨.draw, drawn⟩ :: trace') ↔ NotOpened trace' :=
            @notOpened_append [⟨.draw, drawn⟩] trace' hne
          rw [hkept, LeavesNothing, notOpened_append (by simp), List.singleton_append, hall, hdrawn]
          simp
  · rintro trace e w' ⟨kept, hkeeps', hkept, hnone⟩
    refine ⟨kept, hkeeps', ?_, Or.inr ⟨e, rfl⟩⟩
    rw [hkept, LeavesNothing]
    exact ⟨fun hnot => ⟨hnot, Or.inl (hnone hnot)⟩, fun hleaves => hleaves.1⟩

/-! ## 4. The number of rounds

The loop has no bound in the source.  A call that ends with some number of rounds ends in the
same way with any larger number, so the number is not part of what is claimed. -/

end Environment

end RabbitMqStream.Api
