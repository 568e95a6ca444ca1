/-
# The stream of a connection

The framing layer appends what it has read from the socket to a buffer and calls the codec, in an
order that the network decides.  `codec.rs` decides what a call does.  Here both sides of a
connection are followed over any such order.

**Reading.**  Which responses come out is a matter of the bytes alone, as long as no call panics.
When the bytes are those of whole frames, a call panics exactly when it is made while the last byte
that has arrived is inside a string.

**Writing.**  Requests that are written into one buffer, one behind the other, are read again as
these requests exactly when each of them fits its fields.

* `session_agrees`: two orders of the same bytes.
* `session_of_frames`: the bytes of frames that are whole, cut into pieces anywhere.
* `session_stuck`: a frame that the codec refuses, or a record that is cut short in a whole frame,
  is the end of the connection, and the second one silently.
* `requests_written_iff`: what is read of the requests that are written.

**The argument.**  Both directions rest on `Wire/Framing.lean`, which knows nothing of frames but
what one call of a decoder does.  For reading it has to be shown that the codec is steady: a call
that takes off a response would do so with more bytes behind it, too, and a call that does not
leaves the buffer as it was (`responses_steady`).  That is the locality of a decoder that follows
its layout.  For writing, the round trip of one request is put in front of the round trip of the
others.
-/
import RabbitMqStream.Client.Codec
import RabbitMqStream.Protocol.RequestRoundTrip
import RabbitMqStream.Wire.Framing

namespace RabbitMqStream.Client

open Wire Protocol

section Reading

variable [Amqp.Chrono] [Allocator]

/-! ## 1. The codec as the framing layer calls it

The codec as a `Deframer`: an item, a wait, an error.  A call that panics is an error that ends
the session, as it ends the task. -/

/-- The stream that the client reads. -/
abbrev responses : Deframer UInt8 (Fault ClientError) Response := RabbitMqStreamCodec.decode

theorem responses_steady : responses.Steady where
  item := by
    intro b r resp h s
    exact (response_decode_append b r s resp (codec_decode_eq_some.mp h)).2
  waits := by
    intro b r h
    rcases codec_decode_cases b with ⟨_, _, -, hc, -⟩ | ⟨hc, -⟩ | ⟨_, hc, -⟩ | ⟨_, hc, -⟩
    all_goals cases h.symm.trans hc
    rfl
  refuses := by
    intro b r e h
    rcases codec_decode_cases b with ⟨_, _, -, hc, -⟩ | ⟨hc, -⟩ | ⟨_, hc, -⟩ | ⟨_, hc, -⟩
    all_goals cases h.symm.trans hc
    all_goals rfl

/-- Where the fields of a frame are stuck, no response comes, whatever follows. -/
theorem rests_of_stuck {b : Bytes} (h : (Frame.layout.walk b).Stuck) (s : Bytes) :
    responses.Rests (b ++ s) := by
  intro resp rest hsome
  rcases codec_decode_cases (b ++ s) with ⟨_, _, -, -, hw⟩ | ⟨hc, -⟩ | ⟨_, hc, -⟩ | ⟨_, hc, -⟩
  · rw [Layout.walk_stuck _ s h] at hw
    rw [hw] at h
    rcases h with h | h | h <;> cases h
  all_goals
    rw [show RabbitMqStreamCodec.decode (b ++ s) = _ from hsome] at hc
    cases hc

theorem decode_of_cut {b : Bytes} (h : Frame.layout.walk b = .cut) :
    RabbitMqStreamCodec.decode b = (.ok none, b) := by
  rcases codec_decode_cases b with ⟨_, _, -, -, hw⟩ | ⟨hc, -⟩ | ⟨_, -, hw⟩ | ⟨_, -, hw⟩
  · cases h.symm.trans hw
  · exact hc
  · cases h.symm.trans hw
  · rcases hw with hw | hw <;> cases h.symm.trans hw

theorem decode_of_midSlice {b : Bytes} (h : Frame.layout.walk b = .midSlice) :
    ∃ p, RabbitMqStreamCodec.decode b = (.error (.panic p), b) := by
  rcases codec_decode_cases b with ⟨_, _, -, -, hw⟩ | ⟨-, hw⟩ | ⟨_, -, hw⟩ | ⟨p, hc, -⟩
  · cases h.symm.trans hw
  · rcases hw with hw | hw <;> cases h.symm.trans hw
  · cases h.symm.trans hw
  · exact ⟨p, hc⟩

theorem rests_nil : responses.Rests [] := by
  have hshort : RabbitMqStreamCodec.decode [] = (.ok none, []) := rfl
  intro resp rest hsome
  rw [show RabbitMqStreamCodec.decode [] = _ from hsome] at hshort
  cases hshort

/-! ## 2. One stream, two orders

The sessions may differ in how the bytes were cut and in when the codec was called.  What one of
them has got is a beginning of what the other has, or the other way round. -/

/-- **Which responses come out is a matter of the bytes.**  They are those at the front of what has
arrived.  Of two orders of the same bytes the one has got further than the other, and where nothing
more can be taken off both have got equally far.

Each of the two sessions yields a beginning of one and the same decomposition of the bytes, which
is unique up to where it stops. -/
theorem session_agrees (feeds feeds' : List (Feed UInt8)) (h : arrived feeds = arrived feeds') :
    responses.Yields (arrived feeds) (responses.run feeds).items (responses.run feeds).buffer ∧
      ((responses.run feeds).items <+: (responses.run feeds').items ∨
        (responses.run feeds').items <+: (responses.run feeds).items) ∧
      (responses.Rests (responses.run feeds).buffer →
        responses.Rests (responses.run feeds').buffer →
          (responses.run feeds).items = (responses.run feeds').items ∧
            (responses.run feeds).buffer = (responses.run feeds').buffer) := by
  have hone := Deframer.run_yields responses_steady feeds
  have hother := Deframer.run_yields responses_steady feeds'
  rw [← h] at hother
  refine ⟨hone, ?_, fun hrests hrests' => hone.unique hrests hother hrests'⟩
  rcases hone.comparable hother with ⟨zs, hzs, -⟩ | ⟨zs, hzs, -⟩
  · exact Or.inl ⟨zs, hzs.symm⟩
  · exact Or.inr ⟨zs, hzs.symm⟩

end Reading

/-- Two frames, in one piece and in two. -/
theorem session_agrees_pieces :
    letI := Amqp.Chrono.range; letI := Allocator.unbounded
    (responses.run [.arrive (heartbeatFrame ++ saslHandshakeFrame), .call, .call]).items =
      (responses.run [.arrive (heartbeatFrame ++ saslHandshakeFrame.take 10), .call, .call,
        .arrive (saslHandshakeFrame.drop 10), .call]).items := by
  let _ := Amqp.Chrono.range
  let _ := Allocator.unbounded
  have hone : (responses.run [.arrive (heartbeatFrame ++ saslHandshakeFrame), .call,
      .call]).buffer = [] := by
    decide +kernel
  have htwo : (responses.run [.arrive (heartbeatFrame ++ saslHandshakeFrame.take 10), .call, .call,
      .arrive (saslHandshakeFrame.drop 10), .call]).buffer = [] := by
    decide +kernel
  refine ((session_agrees _ _ (by decide)).2.2 ?_ ?_).1
  · rw [hone]
    exact rests_nil
  · rw [htwo]
    exact rests_nil

section Reading

variable [Amqp.Chrono] [Allocator]

/-! ## 3. Whole frames

On the bytes of whole frames the codec takes off one frame after the other.  A call that is made
too early waits, except inside a string. -/

/-- **A call on the front of whole frames** panics exactly when the bytes end inside a string, and
does not fail in another way. -/
theorem call_on_frames {b more : Bytes} {xs : List Response}
    (h : responses.Yields (b ++ more) xs []) {e : Fault ClientError} :
    (RabbitMqStreamCodec.decode b).1 = .error e →
      Frame.layout.walk b = .midSlice ∧ ∃ p, e = .panic p := by
  intro he
  have hnot : ¬ (Frame.layout.walk b).Stuck := by
    intro hstuck
    obtain ⟨rfl, hnil⟩ := h.nil_of_rests (rests_of_stuck hstuck more)
    obtain rfl : b = [] := (List.append_eq_nil_iff.mp hnil.symm).1
    have hshort : Frame.layout.walk ([] : Bytes) = .short := rfl
    rw [hshort] at hstuck
    rcases hstuck with hw | hw | hw <;> cases hw
  rcases codec_decode_cases b with ⟨_, _, -, hc, -⟩ | ⟨hc, -⟩ | ⟨e', hc, hw⟩ | ⟨p, hc, hw⟩
  · rw [hc] at he
    cases he
  · rw [hc] at he
    cases he
  · exact absurd (Or.inr (Or.inl hw)) hnot
  · rcases hw with hw | hw
    · rw [hc] at he
      exact ⟨hw, p, (Except.error.inj he).symm⟩
    · exact absurd (Or.inr (Or.inr hw)) hnot

/-- Frames one behind the other. -/
theorem yields_frames {frames : List Bytes} {xs : List Response}
    (h : List.Forall₂ (fun frame x => (decode : DecodeM Response) frame = .ok (x, [])) frames xs) :
    responses.Yields frames.flatten xs [] := by
  induction h with
  | nil => exact .nil
  | cons hx _ ih =>
    rw [List.flatten_cons]
    exact .cons (responses_steady.item (codec_decode_of_ok hx) _) ih

/-- What a session still has to do with the frames, when it has got a part of them. -/
theorem yields_rest {stream more : Bytes} {xs : List Response}
    (hstream : responses.Yields stream xs []) {feeds : List (Feed UInt8)}
    (harrived : stream = arrived feeds ++ more) :
    ∃ zs, xs = (responses.run feeds).items ++ zs ∧
      responses.Yields ((responses.run feeds).buffer ++ more) zs [] := by
  have hsofar := (Deframer.run_yields responses_steady feeds).append responses_steady more
  rw [← harrived] at hsofar
  exact hstream.longest rests_nil hsofar

/-- **Whole frames, cut into pieces anywhere.**  The responses of a session are the first ones of
the frames, and all of them when everything has arrived and nothing more can be taken off.  It fails
exactly at a call that is made while the bytes end inside a string, and then it panics.

The frames are a decomposition of the bytes, and a session has got some way along it
(`yields_rest`).  What a call meets then is the front of whole frames, and on such a front the
codec can only wait, take off a response or be inside a string (`call_on_frames`). -/
theorem session_of_frames {frames : List Bytes} {xs : List Response} {more : Bytes}
    {feeds : List (Feed UInt8)}
    (h : List.Forall₂ (fun frame x => (decode : DecodeM Response) frame = .ok (x, [])) frames xs)
    (harrived : frames.flatten = arrived feeds ++ more) :
    (responses.run feeds).items <+: xs ∧
      (more = [] → responses.Rests (responses.run feeds).buffer →
        (responses.run feeds).items = xs ∧ (responses.run feeds).buffer = []) ∧
      (∀ e, (responses.run feeds).failed = some e → ∃ p, e = .panic p) ∧
      ((responses.run feeds).failed ≠ none ↔ ∃ before after, feeds = before ++ .call :: after ∧
        (responses.run before).failed = none ∧
          Frame.layout.walk (responses.run before).buffer = .midSlice) := by
  have hstream := yields_frames h
  -- What a call meets is a part of the frames, too.
  have hcall : ∀ before after e, feeds = before ++ .call :: after →
      (RabbitMqStreamCodec.decode (responses.run before).buffer).1 = .error e →
        Frame.layout.walk (responses.run before).buffer = .midSlice ∧ ∃ p, e = .panic p := by
    rintro before after e rfl he
    rw [arrived_append, List.append_assoc] at harrived
    obtain ⟨zs, -, hzs⟩ := yields_rest hstream harrived
    exact call_on_frames hzs he
  obtain ⟨zs, hxs, hzs⟩ := yields_rest hstream harrived
  refine ⟨⟨zs, hxs.symm⟩, ?_, ?_, ?_⟩
  · rintro rfl hrests
    rw [List.append_nil] at hzs
    obtain ⟨rfl, hnil⟩ := hzs.nil_of_rests hrests
    exact ⟨by rw [hxs, List.append_nil], hnil.symm⟩
  · intro e he
    obtain ⟨before, after, hfeeds, -, hfailed⟩ :=
      (Deframer.failed_run_iff responses_steady).mp he
    exact (hcall before after e hfeeds hfailed).2
  · constructor
    · intro hne
      obtain ⟨e, he⟩ := Option.ne_none_iff_exists'.mp hne
      obtain ⟨before, after, hfeeds, hnone, hfailed⟩ :=
        (Deframer.failed_run_iff responses_steady).mp he
      exact ⟨before, after, hfeeds, hnone, (hcall before after e hfeeds hfailed).1⟩
    · rintro ⟨before, after, hfeeds, hnone, hw⟩
      obtain ⟨p, hp⟩ := decode_of_midSlice hw
      have hfailed := (Deframer.failed_run_iff responses_steady).mpr
        ⟨before, after, hfeeds, hnone, congrArg Prod.fst hp⟩
      rw [hfailed]
      exact Option.some_ne_none _

end Reading

/-- The same frames; a call is made when two bytes of `PLAIN` have arrived. -/
theorem session_of_frames_cut :
    letI := Amqp.Chrono.range; letI := Allocator.unbounded
    (responses.run [.arrive (heartbeatFrame ++ saslHandshakeFrame.take 22), .call, .call]).failed ≠
      none := by
  let _ := Amqp.Chrono.range
  let _ := Allocator.unbounded
  have hframes : List.Forall₂ (fun frame x => (decode : DecodeM Response) frame = .ok (x, []))
      [heartbeatFrame, saslHandshakeFrame] [heartbeatResponse, saslHandshakeResponse] :=
    .cons (by decide +kernel) (.cons (by decide +kernel) .nil)
  have harrived : [heartbeatFrame, saslHandshakeFrame].flatten =
      arrived [.arrive (heartbeatFrame ++ saslHandshakeFrame.take 22), .call, .call] ++
        saslHandshakeFrame.drop 22 := by
    decide
  refine (session_of_frames hframes harrived).2.2.2.mpr
    ⟨[.arrive (heartbeatFrame ++ saslHandshakeFrame.take 22), .call], [], rfl, ?_, ?_⟩
  · decide +kernel
  · decide +kernel

section Reading

variable [Amqp.Chrono] [Allocator]

/-! ## 4. The end of a connection

A walk that is stuck at a frame is stuck with any bytes behind it.  When that frame is refused
the codec says so; when a record in it is cut short the codec asks for more bytes, and goes on
asking. -/

/-- A session at a frame that is stuck takes nothing off any more.  By induction on what happens
later.  Bytes that arrive leave the walk where it is stuck, and a call there takes nothing off. -/
theorem stuck_stays {feeds : List (Feed UInt8)}
    (h : (Frame.layout.walk (responses.run feeds).buffer).Stuck) (more : List (Feed UInt8)) :
    (responses.run (feeds ++ more)).items = (responses.run feeds).items ∧
      (responses.run (feeds ++ more)).buffer = (responses.run feeds).buffer ++ arrived more ∧
      (Frame.layout.walk (responses.run feeds).buffer = .cut →
        (responses.run (feeds ++ more)).failed = (responses.run feeds).failed) := by
  induction more using List.reverseRecOn with
  | nil => simp [arrived]
  | append_singleton more feed ih =>
    obtain ⟨hitems, hbuffer, hfailed⟩ := ih
    rw [← List.append_assoc, Deframer.run_snoc, arrived_append]
    cases feed with
    | arrive piece =>
      refine ⟨hitems, ?_, hfailed⟩
      change (responses.run (feeds ++ more)).buffer ++ piece = _
      rw [hbuffer, List.append_assoc]
      simp [arrived]
    | call =>
      change _ ∧ _ = _ ++ (arrived more ++ []) ∧ _
      rw [List.append_nil]
      by_cases hnone : (responses.run (feeds ++ more)).failed = none
      · rcases Deframer.feed_call_cases responses_steady _ hnone with
          ⟨x, r, hx, -⟩ | ⟨-, hfeed⟩ | ⟨e, he, hfeed⟩
        · rw [hbuffer] at hx
          exact absurd hx (rests_of_stuck h _ _ _)
        · rw [hfeed]
          exact ⟨hitems, hbuffer, hfailed⟩
        · rw [hfeed]
          refine ⟨hitems, hbuffer, fun hcut => ?_⟩
          rw [hbuffer] at he
          have hw := (Layout.walk_stuck _ (arrived more) h).trans hcut
          cases he.symm.trans (congrArg Prod.fst (decode_of_cut hw))
      · rw [Deframer.feed_of_failed hnone]
        exact ⟨hitems, hbuffer, hfailed⟩

/-- **The end of a connection.**  At a frame that is refused, and at a whole frame in which an item
is cut short, no response comes any more, whatever arrives: not in this session and not in any other
that gets the same bytes first.  In the second case no call says so; the buffer only grows.

A walk that is refused or cut is so for good: more bytes at the end do not change how it ends
(`rests_of_stuck`). -/
theorem session_stuck {feeds : List (Feed UInt8)}
    (h : (Frame.layout.walk (responses.run feeds).buffer).Stuck) :
    (∀ more, (responses.run (feeds ++ more)).items = (responses.run feeds).items ∧
        (responses.run (feeds ++ more)).buffer = (responses.run feeds).buffer ++ arrived more) ∧
      (∀ feeds' s, arrived feeds' = arrived feeds ++ s →
        (responses.run feeds').items <+: (responses.run feeds).items) ∧
      (Frame.layout.walk (responses.run feeds).buffer = .cut → (responses.run feeds).failed = none →
        ∀ more, (responses.run (feeds ++ more)).failed = none) := by
  refine ⟨fun more => ?_, fun feeds' s harrived => ?_, fun hcut hnone more => ?_⟩
  · obtain ⟨hitems, hbuffer, -⟩ := stuck_stays h more
    exact ⟨hitems, hbuffer⟩
  · have hhere := (Deframer.run_yields responses_steady feeds).append responses_steady s
    have hthere := Deframer.run_yields responses_steady feeds'
    rw [harrived] at hthere
    obtain ⟨zs, hzs, -⟩ := hhere.longest (rests_of_stuck h s) hthere
    exact ⟨zs, hzs.symm⟩
  · obtain ⟨-, -, hfailed⟩ := stuck_stays h more
    rw [hfailed hcut, hnone]

end Reading

/-- A record that is cut short, and any bytes behind it. -/
theorem session_stuck_record :
    letI := Amqp.Chrono.range; letI := Allocator.unbounded
    (responses.run [.arrive cutRecordFrame, .call]).failed = none ∧
      ∀ more, (responses.run ([.arrive cutRecordFrame, .call] ++ more)).failed = none := by
  let _ := Amqp.Chrono.range
  let _ := Allocator.unbounded
  have hcut : Frame.layout.walk (responses.run [.arrive cutRecordFrame, .call]).buffer = .cut := by
    decide +kernel
  have hnone : (responses.run [.arrive cutRecordFrame, .call]).failed = none := by
    decide +kernel
  exact ⟨hnone, (session_stuck (Or.inl hcut)).2.2 hcut hnone⟩

/-! ## 5. The requests of a client

The other direction: what is written into one buffer by one encoder after the other, and what
the crate's own decoder makes of that buffer. -/

/-- Requests that are written into a buffer one behind the other, each without an error. -/
inductive Written : Bytes → List RequestKind → Bytes → Prop where
  | nil {buf : Bytes} : Written buf [] buf
  | cons {buf buf' buf'' : Bytes} {k : RequestKind} {ks : List RequestKind} :
      RabbitMqStreamCodec.encode (Request.ofCommand k) buf = (.ok (), buf') →
        Written buf' ks buf'' → Written buf (k :: ks) buf''

theorem exec_of_encode {req : Request} {buf buf' : Bytes}
    (h : RabbitMqStreamCodec.encode req buf = (.ok (), buf')) :
    (encode req).exec buf = (.ok (), buf') := by
  rw [RabbitMqStreamCodec.encode] at h
  rcases hexec : (encode req).exec buf with ⟨e | u, b⟩
  · rw [hexec] at h
    cases h
  · rw [hexec] at h
    obtain ⟨-, rfl⟩ := Prod.mk.inj h
    rfl

section Writing

variable [Amqp.Chrono] [Allocator] [Allocator.Ample]

/-- `Request::decode` at the front of a buffer. -/
abbrev requests : Deframer UInt8 (Fault DecodeError) Request := Deframer.ofReader decode

/-- **The requests of a client are read as they were written**, in front of whatever follows them,
exactly when each of them comes back on its own.

By induction on the requests: the first one comes back in front of all that follows exactly when
it fits, and the others are what follows. -/
theorem requests_written_iff {ks : List RequestKind} (hs : ∀ k ∈ ks, ∀ s ∈ k.strings, Short s)
    (hm : ∀ k ∈ ks, ∀ m ∈ k.published, m.RoundTrips) {buf buf' : Bytes}
    (h : Written buf ks buf') :
    ∃ bs, buf' = buf ++ bs ∧ ∀ rest,
      requests.Yields (bs ++ rest) (ks.map Request.ofCommand) rest ↔ ∀ k ∈ ks, k.Fits := by
  induction h with
  | nil => exact ⟨[], by simp, fun rest => by simpa using .nil⟩
  | @cons buf buf₁ buf₂ k ks hencode _ ih =>
    obtain ⟨hsk, hsks⟩ := List.forall_mem_cons.mp hs
    obtain ⟨hmk, hmks⟩ := List.forall_mem_cons.mp hm
    obtain ⟨one, rfl, hone⟩ := kind_recovers k hsk hmk _ _ (exec_of_encode hencode)
    obtain ⟨others, rfl, hothers⟩ := ih hsks hmks
    refine ⟨one ++ others, List.append_assoc .., fun rest => ?_⟩
    rw [List.append_assoc, List.map_cons, List.forall_mem_cons, ← hothers rest,
      Deframer.yields_ofReader_cons]
    constructor
    · rintro ⟨mid, hmid, hyields⟩
      obtain ⟨hfits, rfl⟩ := (hone _ _).mp hmid
      exact ⟨hfits, hyields⟩
    · rintro ⟨hfits, hyields⟩
      exact ⟨_, (hone _ _).mpr ⟨hfits, rfl⟩, hyields⟩

end Writing

/-- A request for a virtual host and a publish command. -/
theorem requests_written_iff_two :
    letI := Amqp.Chrono.range; letI := Allocator.unbounded
    ∃ buf, Written [] [.open ⟨7, "/"⟩, .publish samplePublish] buf ∧
      ∃ bs, buf = [] ++ bs ∧ ∀ rest, requests.Yields (bs ++ rest)
        [Request.ofCommand (.open ⟨7, "/"⟩), Request.ofCommand (.publish samplePublish)] rest ↔
          ∀ k ∈ ([.open ⟨7, "/"⟩, .publish samplePublish] : List RequestKind), k.Fits := by
  let _ := Amqp.Chrono.range
  let _ := Allocator.unbounded
  have hwritten : Written [] [.open ⟨7, "/"⟩, .publish samplePublish] _ :=
    .cons rfl (.cons rfl .nil)
  have hmessages : ∀ k ∈ ([.open ⟨7, "/"⟩, .publish samplePublish] : List RequestKind),
      ∀ m ∈ k.published, m.RoundTrips := by
    intro k hk m hm
    rcases List.mem_pair.mp hk with rfl | rfl
    · cases hm
    · obtain rfl : m = _ := List.mem_singleton.mp hm
      exact ⟨rfl, rfl⟩
  exact ⟨_, hwritten, requests_written_iff (by decide) hmessages hwritten⟩

end RabbitMqStream.Client
