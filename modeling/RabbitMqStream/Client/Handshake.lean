/-
# Connecting: what the client sends, and after what

`Client::connect`: the client sends its properties, asks for the mechanisms, authenticates, waits
until the broker has tuned the connection, opens the virtual host, starts the heartbeat and asks
for the versions of the commands.  Each of these but the wait is a call of `send_and_receive`.

**Tasks.**  `connect` runs in the task of the caller.  The dispatcher reads frames in its own, and
a `Tune` frame is handled there: the values are negotiated, a running heartbeat is restarted, the
reply is handed over and one permit is left for `connect`, which may be waiting for it already or
come for it later.  A second permit on top of the first is lost.  The heartbeat is a task, too.

**The broker** may send any frames in any order, and the connection may end at any time.

The trace records what was handed to the connection (whether or not the write succeeds), which
responses `connect` has got and which `Tune` frames were taken up, in the order in which it
happened.

* `handshake_order`: what is handed over only after what.

**The argument.**  Where `connect` is says which calls it has made and how the last of them stands
(`Placed`), because it makes one call after the other.  With each place goes what must have
happened before it can be reached (`Milestone`); a step of `connect` to the next place adds one
milestone, and all other steps only make the record longer, which takes nothing away.  Whatever is
handed over is then justified by the milestone of the place from which it is (`Reached`).  That a
refusal is the end needs one fact more: `connect` leaves the authentication only with the response
to its own request.
-/
import RabbitMqStream.Client.Requests

namespace RabbitMqStream.Client

open Lts Protocol

/-! ## 1. The state

`connect` has a place, the dispatcher has its own state, the client has a permit and perhaps a
heartbeat, and between them a `Tune` frame may be under way.  The trace is what the claims about
the order are about. -/

structure ClientOptions : Type where
  user : String
  password : String
  vHost : String
  heartbeat : UInt32
  maxFrameSize : UInt32
  clientProperties : HashMap String String

/-- `format!("\\u{0000}{}\\u{0000}{}", user, password)`. -/
def ClientOptions.authData (opts : ClientOptions) : Bytes :=
  [0] ++ asBytes opts.user ++ [0] ++ asBytes opts.password

def negotiateValue (client server : UInt32) : UInt32 :=
  if client = 0 ∨ server = 0 then max client server else min client server

/-- The reply to a `Tune` frame. -/
def ClientOptions.tune (opts : ClientOptions) (tunes : TunesCommand) : TunesCommand :=
  ⟨negotiateValue opts.maxFrameSize tunes.maxFrameSize,
    negotiateValue opts.heartbeat tunes.heartbeat⟩

namespace Handshake

/-- The requests that `connect` makes, in their order. -/
inductive Phase : Type where
  | peerProperties
  | saslHandshake
  | saslAuthenticate
  | «open»
  | exchangeCommandVersions
  deriving DecidableEq

def Phase.method (opts : ClientOptions) : Phase → Method
  | .peerProperties => .peerProperties opts.clientProperties
  | .saslHandshake => .saslMechanism
  | .saslAuthenticate => .handleAuthentication opts.authData
  | .open => .open opts.vHost
  | .exchangeCommandVersions => .exchangeCommandVersions

/-- Where `connect` is. -/
inductive Place : Type where
  /-- About to make the request. -/
  | next (p : Phase)
  /-- In call `n` of `send_and_receive`. -/
  | calling (p : Phase) (n : ℕ)
  /-- In `wait_for_tune_data`. -/
  | waitTune
  /-- At `start_hearbeat_task`. -/
  | startHeartbeat
  | connected
  | failed
  deriving DecidableEq

/-- The response lets `connect` go on.  Only two of the codes are looked at. -/
def Phase.accepts (p : Phase) (r : Response) : Bool :=
  match p, r.kind with
  | .saslAuthenticate, .generic response => response.code = .ok
  | .open, .open response => response.code = .ok
  | _, _ => true

def Phase.after : Phase → Place
  | .peerProperties => .next .saslHandshake
  | .saslHandshake => .next .saslAuthenticate
  | .saslAuthenticate => .waitTune
  | .open => .startHeartbeat
  | .exchangeCommandVersions => .connected

/-- Where `connect` goes with the result of a request. -/
def Phase.finish (p : Phase) : CallResult → Place
  | .response r => if p.accepts r then p.after else .failed
  | .connectionClosed | .sendFailed | .castError _ => .failed

inductive Occurrence : Type where
  | handed (frame : RequestKind)
  /-- `connect` has got the response. -/
  | answered (r : Response)
  /-- A `Tune` frame is taken up. -/
  | tuned (tunes : TunesCommand)
  deriving DecidableEq

/-- How far `handle_tune_command` has come with the frame the dispatcher is at. -/
inductive Tuning : Type where
  | notBegun
  /-- At the hand-over of the reply. -/
  | replying (tunes : TunesCommand)
  /-- At `notify_one`. -/
  | notifying
  | done
  deriving DecidableEq

structure State : Type where
  requests : Requests
  place : Place := .next .peerProperties
  tuning : Tuning := .notBegun
  /-- The permit of `tune_notifier`. -/
  permit : Bool := false
  heartbeat : UInt32
  maxFrameSize : UInt32
  /-- There is a heartbeat task. -/
  heartbeatTask : Bool := false
  -- A record of what has happened:
  trace : List Occurrence := []

/-- The client is the handler of its dispatcher, which has begun to read. -/
def init (opts : ClientOptions) : State where
  requests := { dispatcher := { handler := true } }
  heartbeat := opts.heartbeat
  maxFrameSize := opts.maxFrameSize

/-! ## 2. The steps

The steps of the dispatcher and of the calls are those of `Requests`.  New are the steps of
`connect` from one call to the next, those of a `Tune` frame, and those of the heartbeat. -/

inductive Event : Type where
  /-- `connect` makes its next request. -/
  | call
  /-- The call gets no channel. -/
  | refused
  | handOver (result : SendResult)
  | recv
  /-- A step of the dispatcher, or of the call in `response_channel`. -/
  | dispatcher (e : Dispatcher.Event)
  /-- `handle_tune_command` negotiates. -/
  | tune
  | tuneReply
  | tuneNotify
  /-- `connect` takes the permit. -/
  | notified
  | startHeartbeat
  /-- The heartbeat task hands over a frame. -/
  | beat
  deriving DecidableEq

/-- The frame that the dispatcher is handing to the client, if it is a `Tune`. -/
def State.tunes (s : State) : Option TunesCommand :=
  match s.requests.dispatcher.loop with
  | .notifying ⟨_, .tunes cmd⟩ => some cmd
  | _ => none

/-- The response in the result of a call. -/
def answer : CallResult → List Occurrence
  | .response r | .castError r => [.answered r]
  | .connectionClosed | .sendFailed => []

def step (opts : ClientOptions) (s : State) : Event → Option State
  | .call =>
    match s.place with
    | .next p =>
      match Requests.step s.requests (.request (p.method opts)) with
      | some q => some { s with requests := q, place := .calling p s.requests.calls.length }
      | none => none
    | _ => none
  | .refused =>
    match s.place with
    | .calling _ n =>
      match Requests.step s.requests (.refused n) with
      | some q => some { s with requests := q, place := .failed }
      | none => none
    | _ => none
  | .handOver result =>
    match s.place with
    | .calling p n =>
      match Requests.step s.requests (.handOver n result),
          (s.requests.dispatcher.calls[n]?).bind Dispatcher.Call.returned with
      | some q, some id => some { s with
          requests := q
          place := if result = .ok then .calling p n else .failed
          trace := s.trace ++ [.handed ((p.method opts).request id)] }
      | _, _ => none
    | _ => none
  | .recv =>
    match s.place with
    | .calling p n =>
      match Requests.step s.requests (.recv n) with
      | some q =>
        match q.calls[n]? with
        | some ⟨_, .returned result⟩ => some { s with
            requests := q
            place := p.finish result
            trace := s.trace ++ answer result }
        | _ => none
      | none => none
    | _ => none
  | .dispatcher e =>
    -- the handler has to be done with a `Tune` frame before the dispatcher goes on
    if e = .notify ∧ s.tunes ≠ none ∧ s.tuning ≠ .done then none
    else
      match Requests.step s.requests (.dispatcher e) with
      | some q => some { s with
          requests := q
          tuning := if e = .notify then .notBegun else s.tuning }
      | none => none
  | .tune =>
    match s.tunes, s.tuning with
    | some cmd, .notBegun => some { s with
        maxFrameSize := (opts.tune cmd).maxFrameSize
        heartbeat := (opts.tune cmd).heartbeat
        heartbeatTask := s.heartbeatTask && (opts.tune cmd).heartbeat ≠ 0
        tuning := .replying cmd
        trace := s.trace ++ [.tuned cmd] }
    | _, _ => none
  | .tuneReply =>
    match s.tuning with
    | .replying cmd => some { s with
        tuning := .notifying
        trace := s.trace ++ [.handed (.tunes (opts.tune cmd))] }
    | _ => none
  | .tuneNotify =>
    match s.tuning with
    | .notifying => some { s with permit := true, tuning := .done }
    | _ => none
  | .notified =>
    if s.place = .waitTune ∧ s.permit then some { s with place := .next .open, permit := false }
    else none
  | .startHeartbeat =>
    if s.place = .startHeartbeat then some { s with
      heartbeatTask := s.heartbeatTask || s.heartbeat ≠ 0
      place := .next .exchangeCommandVersions }
    else none
  | .beat =>
    if s.heartbeatTask then some { s with trace := s.trace ++ [.handed (.heartbeat {})] } else none

/-- The steps once more, as a relation to argue by cases on. -/
inductive Step (opts : ClientOptions) (s : State) : Event → State → Prop where
  | call {p : Phase} {q : Requests} (hp : s.place = .next p)
      (hq : Requests.step s.requests (.request (p.method opts)) = some q) :
      Step opts s .call { s with requests := q, place := .calling p s.requests.calls.length }
  | refused {p : Phase} {n : ℕ} {q : Requests} (hp : s.place = .calling p n)
      (hq : Requests.step s.requests (.refused n) = some q) :
      Step opts s .refused { s with requests := q, place := .failed }
  | handOver {p : Phase} {n : ℕ} {q : Requests} {id : UInt32} (result : SendResult)
      (hp : s.place = .calling p n) (hq : Requests.step s.requests (.handOver n result) = some q)
      (hid : (s.requests.dispatcher.calls[n]?).bind Dispatcher.Call.returned = some id) :
      Step opts s (.handOver result) { s with
        requests := q
        place := if result = .ok then .calling p n else .failed
        trace := s.trace ++ [.handed ((p.method opts).request id)] }
  | recv {p : Phase} {n : ℕ} {q : Requests} {m : Method} {result : CallResult}
      (hp : s.place = .calling p n) (hq : Requests.step s.requests (.recv n) = some q)
      (hn : q.calls[n]? = some ⟨m, .returned result⟩) :
      Step opts s .recv { s with
        requests := q
        place := p.finish result
        trace := s.trace ++ answer result }
  | dispatcher {e : Dispatcher.Event} {q : Requests}
      (hq : Requests.step s.requests (.dispatcher e) = some q) :
      Step opts s (.dispatcher e) { s with
        requests := q
        tuning := if e = .notify then .notBegun else s.tuning }
  | tune {cmd : TunesCommand} (hc : s.tunes = some cmd) (ht : s.tuning = .notBegun) :
      Step opts s .tune { s with
        maxFrameSize := (opts.tune cmd).maxFrameSize
        heartbeat := (opts.tune cmd).heartbeat
        heartbeatTask := s.heartbeatTask && (opts.tune cmd).heartbeat ≠ 0
        tuning := .replying cmd
        trace := s.trace ++ [.tuned cmd] }
  | tuneReply {cmd : TunesCommand} (ht : s.tuning = .replying cmd) :
      Step opts s .tuneReply { s with
        tuning := .notifying
        trace := s.trace ++ [.handed (.tunes (opts.tune cmd))] }
  | tuneNotify (ht : s.tuning = .notifying) :
      Step opts s .tuneNotify { s with permit := true, tuning := .done }
  | notified (hp : s.place = .waitTune) (hpermit : s.permit = true) :
      Step opts s .notified { s with place := .next .open, permit := false }
  | startHeartbeat (hp : s.place = .startHeartbeat) :
      Step opts s .startHeartbeat { s with
        heartbeatTask := s.heartbeatTask || s.heartbeat ≠ 0
        place := .next .exchangeCommandVersions }
  | beat (hb : s.heartbeatTask = true) :
      Step opts s .beat { s with trace := s.trace ++ [.handed (.heartbeat {})] }

theorem step_cases {opts : ClientOptions} {s s' : State} {e : Event}
    (h : step opts s e = some s') : Step opts s e s' := by
  cases e with
  | call =>
    simp only [step] at h
    split at h
    · rename_i p hp
      split at h
      · rename_i q hq
        cases h
        exact .call hp hq
      · exact absurd h (by simp)
    · exact absurd h (by simp)
  | refused =>
    simp only [step] at h
    split at h
    · rename_i p n hp
      split at h
      · rename_i q hq
        cases h
        exact .refused hp hq
      · exact absurd h (by simp)
    · exact absurd h (by simp)
  | handOver result =>
    simp only [step] at h
    split at h
    · rename_i p n hp
      split at h
      · rename_i q id hq hid
        cases h
        exact .handOver result hp hq hid
      · exact absurd h (by simp)
    · exact absurd h (by simp)
  | recv =>
    simp only [step] at h
    split at h
    · rename_i p n hp
      split at h
      · rename_i q hq
        split at h
        · rename_i m result hn
          cases h
          exact .recv hp hq hn
        · exact absurd h (by simp)
      · exact absurd h (by simp)
    · exact absurd h (by simp)
  | dispatcher e =>
    simp only [step] at h
    split at h
    · exact absurd h (by simp)
    · split at h
      · rename_i q hq
        cases h
        exact .dispatcher hq
      · exact absurd h (by simp)
  | tune =>
    simp only [step] at h
    split at h
    · rename_i cmd hc ht
      cases h
      exact .tune hc ht
    · exact absurd h (by simp)
  | tuneReply =>
    simp only [step] at h
    split at h
    · rename_i cmd ht
      cases h
      exact .tuneReply ht
    · exact absurd h (by simp)
  | tuneNotify =>
    simp only [step] at h
    split at h
    · rename_i ht
      cases h
      exact .tuneNotify ht
    · exact absurd h (by simp)
  | notified =>
    simp only [step] at h
    split at h
    · rename_i hc
      cases h
      exact .notified hc.1 hc.2
    · exact absurd h (by simp)
  | startHeartbeat =>
    simp only [step] at h
    split at h
    · rename_i hp
      cases h
      exact .startHeartbeat hp
    · exact absurd h (by simp)
  | beat =>
    simp only [step] at h
    split at h
    · rename_i hb
      cases h
      exact .beat hb
    · exact absurd h (by simp)

/-! ## 3. Where `connect` is among its calls

`connect` makes its calls in order and waits for each, so its place says how many calls there
are, with which methods, and what has become of the last one. -/

/-- The number of the call that makes the request. -/
def Phase.index : Phase → ℕ
  | .peerProperties => 0
  | .saslHandshake => 1
  | .saslAuthenticate => 2
  | .open => 3
  | .exchangeCommandVersions => 4

/-- The calls that `connect` has made when it is at a place, and what has become of the last. -/
def State.At (opts : ClientOptions) (s : State) : Place → Prop
  | .next p => s.requests.calls.length = p.index
  | .calling p n => n = p.index ∧ s.requests.calls.length = n + 1 ∧
      ∃ progress, s.requests.calls[n]? = some ⟨p.method opts, progress⟩ ∧
        (progress = .waiting → .handed ((p.method opts).request (UInt32.ofNat n)) ∈ s.trace)
  | .waitTune => s.requests.calls.length = Phase.open.index
  | .startHeartbeat => s.requests.calls.length = Phase.exchangeCommandVersions.index
  | .connected | .failed => True

structure Placed (opts : ClientOptions) (s : State) : Prop where
  matched : s.requests.Matched
  here : s.At opts s.place

theorem updateId_method (opts : ClientOptions) (p : Phase) : (p.method opts).updateId = none := by
  cases p <;> rfl

/-- A place only looks at the calls and at the frames that were handed over. -/
theorem at_mono {opts : ClientOptions} {s s' : State} {l : Place}
    (hcalls : s'.requests.calls = s.requests.calls) (htrace : ∀ o ∈ s.trace, o ∈ s'.trace)
    (h : s.At opts l) : s'.At opts l := by
  cases l with
  | next p | waitTune | startHeartbeat =>
    unfold State.At at h ⊢
    rw [hcalls]
    exact h
  | calling p n =>
    obtain ⟨hn, hlen, progress, hcall, hhanded⟩ := h
    refine ⟨hn, by rw [hcalls]; exact hlen, progress, by rw [hcalls]; exact hcall, fun hw => ?_⟩
    exact htrace _ (hhanded hw)
  | connected | failed => trivial

/-- The id of call `n`, once `response_channel` has returned it. -/
theorem returned_ofNat {q : Requests} (hm : q.Matched) {n : ℕ} {id : UInt32}
    (hid : (q.dispatcher.calls[n]?).bind Dispatcher.Call.returned = some id) :
    id = UInt32.ofNat n := by
  obtain ⟨c, hc, hid⟩ := Option.bind_eq_some_iff.mp hid
  rw [← Requests.returned_eq hid]
  exact hm.inv.ids n c hc

section Steps

variable {opts : ClientOptions} {s s' : State}

/-- What a call that `connect` waits for can end with: the connection is gone, or there is a
response that carries the id of the request.  The channel of the call has had a response put into it
under the id of the call (`answered` of the dispatcher's invariant), or its sender is gone.
`expects` decides between a response and a failed cast. -/
theorem recv_result (hpl : Placed opts s) {p : Phase} {n : ℕ} {q : Requests} {m : Method}
    {result : CallResult} (hp : s.place = .calling p n)
    (hq : Requests.step s.requests (.recv n) = some q)
    (hn : q.calls[n]? = some ⟨m, .returned result⟩) :
    result = .connectionClosed ∨ ∃ r, r.correlationId = some (UInt32.ofNat n) ∧
      .handed ((p.method opts).request (UInt32.ofNat n)) ∈ s.trace ∧
      ((result = .response r ∧ (p.method opts).expects r.kind = true) ∨
        (result = .castError r ∧ (p.method opts).expects r.kind = false)) := by
  have hhere := hpl.here
  rw [hp] at hhere
  obtain ⟨-, -, progress, hcall, hhanded⟩ := hhere
  cases Requests.step_cases hq with
  | @response _ m' r rs hm hs =>
    rw [hcall, Option.some.injEq, SendAndReceive.mk.injEq] at hm
    obtain ⟨rfl, rfl⟩ := hm
    obtain ⟨id, r', hc, hsent, hid⟩ := hpl.matched.inv.answered n (by rw [hs]; simp)
    rw [hs] at hsent
    cases hsent
    have hidn := hpl.matched.inv.ids n _ hc
    simp only at hidn
    subst hidn
    refine Or.inr ⟨r, hid, hhanded rfl, ?_⟩
    simp only [Requests.setProgress] at hn
    rw [getElem?_set_moved hcall, Option.some.injEq, SendAndReceive.mk.injEq,
      Progress.returned.injEq] at hn
    split at hn
    · rename_i hexp
      exact Or.inl ⟨hn.2.symm, hexp⟩
    · rename_i hexp
      exact Or.inr ⟨hn.2.symm, by simpa using hexp⟩
  | @dropped _ m' hm hd =>
    simp only [Requests.setProgress] at hn
    rw [getElem?_set_moved hcall, Option.some.injEq, SendAndReceive.mk.injEq,
      Progress.returned.injEq] at hn
    exact Or.inl hn.2.symm

/-- After the last call has come back with a result, `connect` is where it goes with it. -/
theorem at_finish {p : Phase} {result : CallResult}
    (hlen : s.requests.calls.length = p.index + 1) : s.At opts (p.finish result) := by
  cases result with
  | response r =>
    simp only [Phase.finish]
    split
    · cases p with
      | exchangeCommandVersions => trivial
      | _ => exact hlen
    · trivial
  | _ => trivial

theorem placed_call {p : Phase} {q : Requests} (hpl : Placed opts s) (hp : s.place = .next p)
    (hq : Requests.step s.requests (.request (p.method opts)) = some q) :
    Placed opts { s with requests := q, place := .calling p s.requests.calls.length } := by
  have hhere : s.requests.calls.length = p.index := by
    have h := hpl.here
    rw [hp] at h
    exact h
  have hfaithful : Requests.Faithful s.requests (.request (p.method opts)) :=
    Or.inl (updateId_method opts p)
  refine ⟨Requests.matched_step hfaithful hpl.matched hq, ?_⟩
  cases Requests.step_cases hq with
  | request m =>
    refine ⟨hhere, ?_, .begun, ?_, fun h => absurd h (by simp)⟩
    · exact List.length_append
    · exact List.getElem?_concat_length

theorem placed_handOver {p : Phase} {n : ℕ} {q : Requests} {id : UInt32} (result : SendResult)
    (hpl : Placed opts s) (hp : s.place = .calling p n)
    (hq : Requests.step s.requests (.handOver n result) = some q)
    (hid : (s.requests.dispatcher.calls[n]?).bind Dispatcher.Call.returned = some id) :
    Placed opts { s with
      requests := q
      place := if result = .ok then .calling p n else .failed
      trace := s.trace ++ [.handed ((p.method opts).request id)] } := by
  have hhere := hpl.here
  rw [hp] at hhere
  obtain ⟨hindex, hlen, progress, hcall, -⟩ := hhere
  have hofNat := returned_ofNat hpl.matched hid
  refine ⟨Requests.matched_step (e := .handOver n result) trivial hpl.matched hq, ?_⟩
  cases Requests.step_cases hq with
  | @handOver _ m id' c _ hm hc hid' =>
    rw [hcall, Option.some.injEq, SendAndReceive.mk.injEq] at hm
    obtain ⟨rfl, rfl⟩ := hm
    by_cases hok : result = .ok
    · subst hok
      refine ⟨hindex, ?_, .waiting, ?_, fun _ => ?_⟩
      · exact List.length_set.trans hlen
      · exact getElem?_set_moved hcall
      · rw [← hofNat]
        simp
    · simp only [if_neg hok]
      trivial

theorem placed_recv {p : Phase} {n : ℕ} {q : Requests} {result : CallResult}
    (hpl : Placed opts s) (hp : s.place = .calling p n)
    (hq : Requests.step s.requests (.recv n) = some q) :
    Placed opts { s with
      requests := q
      place := p.finish result
      trace := s.trace ++ answer result } := by
  have hhere := hpl.here
  rw [hp] at hhere
  obtain ⟨hindex, hlen, -⟩ := hhere
  refine ⟨Requests.matched_step (e := .recv n) trivial hpl.matched hq, at_finish ?_⟩
  have hlength : q.calls.length = s.requests.calls.length := by
    cases Requests.step_cases hq with
    | response | dropped => exact List.length_set
  rw [hlength, hlen, hindex]

/-- The place changes with the calls of `connect` only.  Every other step adds to the trace or to
the requests, and what is said of a place survives that. -/
theorem placed_step {e : Event} (hpl : Placed opts s) (h : step opts s e = some s') :
    Placed opts s' := by
  have hmono : ∀ {u : State}, u.requests = s.requests → u.place = s.place →
      (∀ o ∈ s.trace, o ∈ u.trace) → Placed opts u := by
    intro u hreq hplace htrace
    refine ⟨hreq ▸ hpl.matched, ?_⟩
    rw [hplace]
    exact at_mono (by rw [hreq]) htrace hpl.here
  cases step_cases h with
  | call hp hq => exact placed_call hpl hp hq
  | @refused p n q hp hq =>
    exact ⟨Requests.matched_step (e := .refused n) trivial hpl.matched hq, trivial⟩
  | handOver result hp hq hid => exact placed_handOver result hpl hp hq hid
  | recv hp hq hn => exact placed_recv hpl hp hq
  | @dispatcher e q hq =>
    refine ⟨Requests.matched_step (e := .dispatcher e) trivial hpl.matched hq, ?_⟩
    cases Requests.step_cases hq with
    | dispatcher he hd => exact at_mono (s := s) rfl (fun _ ho => ho) hpl.here
  | tune | tuneReply | beat => exact hmono rfl rfl fun o ho => List.mem_append_left _ ho
  | tuneNotify => exact hmono rfl rfl fun o ho => ho
  | notified hp hpermit =>
    have hhere := hpl.here
    rw [hp] at hhere
    exact ⟨hpl.matched, hhere⟩
  | startHeartbeat hp =>
    have hhere := hpl.here
    rw [hp] at hhere
    exact ⟨hpl.matched, hhere⟩

end Steps

/-! ## 4. What has to have happened

One milestone for each place.  A milestone is about the trace and only ever needs something to
be in it, so that a longer trace has all milestones of a shorter one. -/

/-- The broker has answered the handshake of the client. -/
def Shaken (trace : List Occurrence) : Prop :=
  ∃ id r response, [.handed (.saslHandshake ⟨id⟩), .answered r].Sublist trace ∧
    r.kind = .saslHandshake response ∧ response.correlationId = id

/-- The broker has answered the `SaslAuthenticate` request of the client, with this code. -/
def AuthenticateAnswered (trace : List Occurrence) (code : ResponseCode) : Prop :=
  ∃ cmd r response, [.handed (.saslAuthenticate cmd), .answered r].Sublist trace ∧
    r.kind = .generic response ∧ response.correlationId = cmd.correlationId ∧
    response.code = code

/-- A `Tune` frame was taken up and its reply handed over. -/
def Tuned (opts : ClientOptions) (trace : List Occurrence) : Prop :=
  ∃ cmd, [.tuned cmd, .handed (.tunes (opts.tune cmd))].Sublist trace

/-- The broker has answered the `Open` request of the client with `Ok`. -/
def Opened (trace : List Occurrence) : Prop :=
  ∃ cmd r response, [.handed (.open cmd), .answered r].Sublist trace ∧
    r.kind = .open response ∧ response.correlationId = cmd.correlationId ∧ response.code = .ok

/-- What a frame may be handed over after. -/
def Allowed (opts : ClientOptions) (before : List Occurrence) : Occurrence → Prop
  | .handed (.saslAuthenticate _) => Shaken before
  | .handed (.open _) => AuthenticateAnswered before .ok ∧ Tuned opts before
  | .handed (.heartbeat _) => Opened before
  | _ => True

/-- What has happened when `connect` has come as far as its rank says. -/
def Milestone (opts : ClientOptions) (trace : List Occurrence) : ℕ → Prop
  | 2 => Shaken trace
  | 3 => AuthenticateAnswered trace .ok
  | 4 => Tuned opts trace
  | 5 => Opened trace
  | _ => True

section Growing

variable {opts : ClientOptions} {trace : List Occurrence} (o : Occurrence)

theorem Shaken.snoc (h : Shaken trace) : Shaken (trace ++ [o]) := by
  obtain ⟨id, r, response, hsub, h⟩ := h
  exact ⟨id, r, response, hsub.trans (List.sublist_append_left _ _), h⟩

theorem AuthenticateAnswered.snoc {code : ResponseCode} (h : AuthenticateAnswered trace code) :
    AuthenticateAnswered (trace ++ [o]) code := by
  obtain ⟨cmd, r, response, hsub, h⟩ := h
  exact ⟨cmd, r, response, hsub.trans (List.sublist_append_left _ _), h⟩

theorem Tuned.snoc (h : Tuned opts trace) : Tuned opts (trace ++ [o]) := by
  obtain ⟨cmd, hsub⟩ := h
  exact ⟨cmd, hsub.trans (List.sublist_append_left _ _)⟩

theorem Opened.snoc (h : Opened trace) : Opened (trace ++ [o]) := by
  obtain ⟨cmd, r, response, hsub, h⟩ := h
  exact ⟨cmd, r, response, hsub.trans (List.sublist_append_left _ _), h⟩

theorem Milestone.snoc {k : ℕ} (h : Milestone opts trace k) :
    Milestone opts (trace ++ [o]) k := by
  unfold Milestone at h ⊢
  split
  · exact Shaken.snoc o h
  · exact AuthenticateAnswered.snoc o h
  · exact Tuned.snoc o h
  · exact Opened.snoc o h
  · trivial

/-- What has happened, and now this. -/
theorem sublist_snoc {x : Occurrence} (h : x ∈ trace) : [x, o].Sublist (trace ++ [o]) :=
  (List.singleton_sublist.mpr h).append (List.Sublist.refl [o])

end Growing

/-- How far `connect` has come. -/
def Place.rank : Place → ℕ
  | .next .peerProperties | .calling .peerProperties _ => 0
  | .next .saslHandshake | .calling .saslHandshake _ => 1
  | .next .saslAuthenticate | .calling .saslAuthenticate _ => 2
  | .waitTune => 3
  | .next .open | .calling .open _ => 4
  | .startHeartbeat => 5
  | .next .exchangeCommandVersions | .calling .exchangeCommandVersions _ => 6
  | .connected => 7
  | .failed => 0

theorem rank_calling (p : Phase) (n : ℕ) : (Place.calling p n).rank = (Place.next p).rank := by
  cases p <;> rfl

theorem rank_after (p : Phase) (n : ℕ) : p.after.rank = (Place.calling p n).rank + 1 := by
  cases p <;> rfl

structure Reached (opts : ClientOptions) (s : State) : Prop where
  milestones : ∀ k ≤ s.place.rank, Milestone opts s.trace k
  replying : ∀ cmd, s.tuning = .replying cmd → .tuned cmd ∈ s.trace
  notifying : s.tuning = .notifying → Tuned opts s.trace
  permit : s.permit = true → Tuned opts s.trace
  beating : s.heartbeatTask = true → Opened s.trace
  justified : Justified (Allowed opts) s.trace

section Milestones

variable {opts : ClientOptions} {s s' : State}

/-- Something is recorded that was allowed. -/
theorem Reached.record (hr : Reached opts s) {o : Occurrence} (ho : Allowed opts s.trace o) :
    Reached opts { s with trace := s.trace ++ [o] } where
  milestones k hk := (hr.milestones k hk).snoc o
  replying cmd h := List.mem_append_left _ (hr.replying cmd h)
  notifying h := (hr.notifying h).snoc o
  permit h := (hr.permit h).snoc o
  beating h := (hr.beating h).snoc o
  justified := hr.justified.snoc ho

/-- `connect` goes to a place for which nothing more is needed. -/
theorem Reached.move (hr : Reached opts s) {l : Place} (h : l.rank ≤ s.place.rank) :
    Reached opts { s with place := l } :=
  { hr with milestones := fun k hk => hr.milestones k (Nat.le_trans hk h) }

/-- `connect` goes one place further. -/
theorem Reached.advance (hr : Reached opts s) {l : Place} (h : l.rank = s.place.rank + 1)
    (hm : Milestone opts s.trace l.rank) : Reached opts { s with place := l } := by
  refine { hr with milestones := fun k hk => ?_ }
  rcases Nat.lt_or_eq_of_le hk with hlt | rfl
  · exact hr.milestones k (by rw [h] at hlt; omega)
  · exact hm

theorem allowed_handOver (hr : Reached opts s) {p : Phase} {n : ℕ} (hp : s.place = .calling p n)
    (id : UInt32) : Allowed opts s.trace (.handed ((p.method opts).request id)) := by
  have hmile := hr.milestones
  rw [hp] at hmile
  cases p with
  | saslAuthenticate => exact hmile 2 (Nat.le_refl 2)
  | «open» => exact ⟨hmile 3 (Nat.le_succ 3), hmile 4 (Nat.le_refl 4)⟩
  | peerProperties | saslHandshake | exchangeCommandVersions => trivial

/-- A response that lets `connect` go on is what the next place needs. -/
theorem milestone_after {p : Phase} {n : ℕ} {r : Response}
    (hid : r.correlationId = some (UInt32.ofNat n))
    (hhanded : .handed ((p.method opts).request (UInt32.ofNat n)) ∈ s.trace)
    (hexpects : (p.method opts).expects r.kind = true) (haccepts : p.accepts r = true) :
    Milestone opts (s.trace ++ [.answered r]) p.after.rank := by
  have hsub := sublist_snoc (.answered r) hhanded
  obtain ⟨header, kind⟩ := r
  cases p with
  | peerProperties | exchangeCommandVersions => trivial
  | saslHandshake =>
    cases kind with
    | saslHandshake response => exact ⟨_, _, response, hsub, rfl, Option.some.inj hid⟩
    | _ => exact absurd hexpects (by simp [Phase.method, Method.expects])
  | saslAuthenticate =>
    cases kind with
    | generic response =>
      exact ⟨_, _, response, hsub, rfl, Option.some.inj hid,
        by simpa [Phase.accepts] using haccepts⟩
    | _ => exact absurd hexpects (by simp [Phase.method, Method.expects])
  | «open» =>
    cases kind with
    | «open» response =>
      exact ⟨_, _, response, hsub, rfl, Option.some.inj hid,
        by simpa [Phase.accepts] using haccepts⟩
    | _ => exact absurd hexpects (by simp [Phase.method, Method.expects])

/-- What is recorded in the step has to be allowed in the old state, and the rank of the new place
reached in the new one.  A failure goes to the place of rank 0, for which nothing is needed. -/
theorem reached_step {e : Event} (hpl : Placed opts s) (hr : Reached opts s)
    (h : step opts s e = some s') : Reached opts s' := by
  cases step_cases h with
  | @call p q hp hq =>
    have hmove := hr.move (l := .calling p s.requests.calls.length)
      (by rw [rank_calling, hp])
    exact { hmove with }
  | refused hp hq => exact { hr.move (l := .failed) (Nat.zero_le _) with }
  | @handOver p n q id result hp hq hid =>
    have hrec := hr.record (allowed_handOver hr hp id)
    by_cases hok : result = .ok
    · rw [if_pos hok]
      exact { hrec.move (l := .calling p n) (by rw [hp]) with }
    · rw [if_neg hok]
      exact { hrec.move (l := .failed) (Nat.zero_le _) with }
  | @recv p n q m result hp hq hn =>
    rcases recv_result hpl hp hq hn with rfl |
      ⟨r, hid, hhanded, ⟨rfl, hexpects⟩ | ⟨rfl, hexpects⟩⟩
    · simp only [answer, List.append_nil]
      exact { hr.move (l := .failed) (Nat.zero_le _) with }
    · simp only [answer, Phase.finish]
      by_cases haccepts : p.accepts r = true
      · rw [if_pos haccepts]
        have hadvance := (hr.record (o := .answered r) trivial).advance (l := p.after)
          (by rw [rank_after p n, hp]) (milestone_after hid hhanded hexpects haccepts)
        exact { hadvance with }
      · rw [if_neg haccepts]
        exact { (hr.record (o := .answered r) trivial).move (l := .failed) (Nat.zero_le _) with }
    · exact { (hr.record (o := .answered r) trivial).move (l := .failed) (Nat.zero_le _) with }
  | @dispatcher e q hq =>
    refine { hr with replying := fun cmd hc => ?_, notifying := fun hc => ?_ }
    · simp only at hc
      split at hc
      · exact absurd hc (by simp)
      · exact hr.replying cmd hc
    · simp only at hc
      split at hc
      · exact absurd hc (by simp)
      · exact hr.notifying hc
  | @tune cmd hc ht =>
    have hrec := hr.record (o := .tuned cmd) trivial
    exact { hrec with
      replying := fun cmd' heq => by cases heq; simp
      notifying := fun heq => absurd heq (by simp)
      beating := fun hb => hrec.beating (by simp only [Bool.and_eq_true] at hb; exact hb.1) }
  | @tuneReply cmd ht =>
    have hrec := hr.record (o := .handed (.tunes (opts.tune cmd))) trivial
    exact { hrec with
      replying := fun cmd' heq => absurd heq (by simp)
      notifying := fun _ => ⟨cmd, sublist_snoc _ (hr.replying cmd ht)⟩ }
  | tuneNotify ht =>
    exact { hr with
      replying := fun cmd' heq => absurd heq (by simp)
      notifying := fun heq => absurd heq (by simp)
      permit := fun _ => hr.notifying ht }
  | notified hp hpermit =>
    have hadvance := hr.advance (l := .next .open) (by rw [hp]; rfl) (hr.permit hpermit)
    exact { hadvance with permit := fun h => absurd h (by simp) }
  | startHeartbeat hp =>
    have hmile := hr.milestones
    rw [hp] at hmile
    have hadvance := hr.advance (l := .next .exchangeCommandVersions) (by rw [hp]; rfl) trivial
    exact { hadvance with beating := fun _ => hmile 5 (Nat.le_refl 5) }
  | beat hb => exact hr.record (hr.beating hb)

end Milestones

/-! ## 5. When the authentication is refused

What must not be in the trace is a matter of its own.  As long as the authentication has not
been answered no late frame is there, and with a refusal `connect` is at its end. -/

/-- The frames that come behind the authentication. -/
def Late : RequestKind → Prop
  | .open _ | .heartbeat _ => True
  | _ => False

/-- No late frame has been handed over. -/
def Early (trace : List Occurrence) : Prop := ∀ frame, .handed frame ∈ trace → ¬ Late frame

structure Refusal (s : State) : Prop where
  /-- The `SaslAuthenticate` request is the third. -/
  authenticate : ∀ cmd, .handed (.saslAuthenticate cmd) ∈ s.trace → cmd.correlationId = 2
  early : s.place ≠ .failed → s.place.rank ≤ 3 → Early s.trace
  refused : ∀ r response, .answered r ∈ s.trace → r.kind = .generic response →
    response.correlationId = 2 → response.code ≠ .ok → s.place = .failed ∧ Early s.trace

theorem not_opened_of_early {trace : List Occurrence} (h : Early trace) : ¬ Opened trace := by
  rintro ⟨cmd, r, response, hsub, -⟩
  exact h (.open cmd) (hsub.subset List.mem_cons_self) trivial

theorem Early.snoc {trace : List Occurrence} (h : Early trace) {o : Occurrence}
    (ho : ∀ frame, o = .handed frame → ¬ Late frame) : Early (trace ++ [o]) := by
  intro frame hmem
  rcases List.mem_append.mp hmem with hmem | hmem
  · exact h frame hmem
  · exact ho frame (List.mem_singleton.mp hmem).symm

section RefusalSteps

variable {opts : ClientOptions} {s s' : State}

/-- Something is recorded that is neither a late frame nor a refusal. -/
theorem Refusal.record (hf : Refusal s) {o : Occurrence}
    (hlate : ∀ frame, o = .handed frame → ¬ Late frame)
    (hauth : ∀ cmd, o = .handed (.saslAuthenticate cmd) → cmd.correlationId = 2)
    (hanswer : ∀ r, o ≠ .answered r) : Refusal { s with trace := s.trace ++ [o] } where
  authenticate cmd hmem := by
    rcases List.mem_append.mp hmem with hmem | hmem
    · exact hf.authenticate cmd hmem
    · exact hauth cmd (List.mem_singleton.mp hmem).symm
  early hplace hrank := (hf.early hplace hrank).snoc hlate
  refused r response hmem hkind hid hcode := by
    rcases List.mem_append.mp hmem with hmem | hmem
    · obtain ⟨hplace, hearly⟩ := hf.refused r response hmem hkind hid hcode
      exact ⟨hplace, hearly.snoc hlate⟩
    · exact absurd (List.mem_singleton.mp hmem).symm (hanswer r)

/-- As long as `connect` has not failed, it may go on, or fail. -/
theorem Refusal.move (hf : Refusal s) (hplace : s.place ≠ .failed) {l : Place}
    (hl : l = .failed ∨ s.place.rank ≤ l.rank) : Refusal { s with place := l } where
  authenticate := hf.authenticate
  early hne hrank := by
    refine hf.early hplace ?_
    rcases hl with rfl | hl
    · exact absurd rfl hne
    · exact Nat.le_trans hl hrank
  refused r response hmem hkind hid hcode :=
    absurd (hf.refused r response hmem hkind hid hcode).1 hplace

/-- `connect` gets a response: if it is a refusal, it fails, and nothing late has been handed
over so far. -/
theorem refusal_recv (hf : Refusal s) {p : Phase} {n : ℕ} (hp : s.place = .calling p n)
    (hindex : n = p.index) {r : Response} (hid : r.correlationId = some (UInt32.ofNat n))
    {l : Place} (hl : l = .failed ∨ s.place.rank ≤ l.rank)
    (hrefused : p = .saslAuthenticate → ∀ response, r.kind = .generic response →
      response.code ≠ .ok → l = .failed) :
    Refusal { s with place := l, trace := s.trace ++ [.answered r] } where
  authenticate cmd hmem := by
    rcases List.mem_append.mp hmem with hmem | hmem
    · exact hf.authenticate cmd hmem
    · exact absurd (List.mem_singleton.mp hmem) (by simp)
  early hne hrank :=
    ((hf.move (by rw [hp]; simp) hl).early hne hrank).snoc (by simp)
  refused r' response hmem hkind hid' hcode := by
    rcases List.mem_append.mp hmem with hmem | hmem
    · exact absurd (hf.refused r' response hmem hkind hid' hcode).1 (by rw [hp]; simp)
    · rw [List.mem_singleton, Occurrence.answered.injEq] at hmem
      subst hmem
      have hauth : p = .saslAuthenticate := by
        simp only [Response.correlationId, hkind, Option.some.injEq] at hid
        rw [hid', hindex] at hid
        cases p with
        | saslAuthenticate => rfl
        | _ => exact absurd hid (by decide)
      refine ⟨hrefused hauth response hkind hcode, ?_⟩
      refine (hf.early (by rw [hp]; simp) ?_).snoc (by simp)
      rw [hp, hauth]
      exact Nat.le_succ 2

/-- A late frame is handed over where nothing is known of a refusal. -/
theorem Refusal.recordLate (hf : Refusal s) {frame : RequestKind} (hlate : Late frame)
    (hearly : ¬ (s.place ≠ .failed ∧ s.place.rank ≤ 3)) (hrefused : ¬ (s.place = .failed ∧
      Early s.trace)) : Refusal { s with trace := s.trace ++ [.handed frame] } where
  authenticate cmd hmem := by
    rcases List.mem_append.mp hmem with hmem | hmem
    · exact hf.authenticate cmd hmem
    · rw [List.mem_singleton, Occurrence.handed.injEq] at hmem
      subst hmem
      exact absurd hlate (by simp [Late])
  early hplace hrank := absurd ⟨hplace, hrank⟩ hearly
  refused r response hmem hkind hid hcode := by
    rcases List.mem_append.mp hmem with hmem | hmem
    · exact absurd (hf.refused r response hmem hkind hid hcode) hrefused
    · exact absurd (List.mem_singleton.mp hmem) (by simp)

theorem refusal_handOver (hpl : Placed opts s) (hf : Refusal s) {p : Phase} {n : ℕ}
    (hp : s.place = .calling p n) {id : UInt32}
    (hid : (s.requests.dispatcher.calls[n]?).bind Dispatcher.Call.returned = some id) :
    Refusal { s with trace := s.trace ++ [.handed ((p.method opts).request id)] } := by
  have hofNat := returned_ofNat hpl.matched hid
  have hhere := hpl.here
  rw [hp] at hhere
  cases p with
  | «open» =>
    refine hf.recordLate trivial ?_ ?_
    · rw [hp]
      exact fun h => Nat.not_succ_le_self 3 h.2
    · rw [hp]
      exact fun h => absurd h.1 (by simp)
  | saslAuthenticate =>
    refine hf.record (fun frame hframe => ?_) (fun cmd hcmd => ?_) (by simp)
    · cases hframe
      exact fun h => h
    · cases hcmd
      rw [hofNat, hhere.1]
      rfl
  | peerProperties | saslHandshake | exchangeCommandVersions =>
    refine hf.record (fun frame hframe => ?_) (fun cmd hcmd => ?_) (by simp)
    · cases hframe
      exact fun h => h
    · exact absurd hcmd (by simp [Phase.method, Method.request])

/-- The response to the authentication is the only one with its id.  If it is a refusal, `connect`
fails at once, and up to then no late frame was handed over; from then on `connect` hands over
nothing. -/
theorem refusal_step {e : Event} (hpl : Placed opts s) (hr : Reached opts s) (hf : Refusal s)
    (h : step opts s e = some s') : Refusal s' := by
  cases step_cases h with
  | @call p q hp hq =>
    have hmove := hf.move (l := .calling p s.requests.calls.length) (by rw [hp]; simp)
      (Or.inr (by rw [rank_calling, hp]))
    exact { hmove with }
  | refused hp hq =>
    exact { hf.move (l := .failed) (by rw [hp]; simp) (Or.inl rfl) with }
  | @handOver p n q id result hp hq hid =>
    have hrec := refusal_handOver hpl hf hp hid
    by_cases hok : result = .ok
    · rw [if_pos hok]
      exact { hrec.move (l := .calling p n) (by rw [hp]; simp) (Or.inr (by rw [hp])) with }
    · rw [if_neg hok]
      exact { hrec.move (l := .failed) (by rw [hp]; simp) (Or.inl rfl) with }
  | @recv p n q m result hp hq hn =>
    have hhere := hpl.here
    rw [hp] at hhere
    rcases recv_result hpl hp hq hn with rfl |
      ⟨r, hid, hhanded, ⟨rfl, hexpects⟩ | ⟨rfl, hexpects⟩⟩
    · simp only [answer, List.append_nil]
      exact { hf.move (l := .failed) (by rw [hp]; simp) (Or.inl rfl) with }
    · have hl : p.finish (.response r) = .failed ∨
          s.place.rank ≤ (p.finish (.response r)).rank := by
        simp only [Phase.finish]
        split
        · rw [rank_after p n, hp]
          exact Or.inr (Nat.le_succ _)
        · exact Or.inl rfl
      refine { refusal_recv hf hp hhere.1 hid hl fun hauth response hkind hcode => ?_ with }
      subst hauth
      simp [Phase.finish, Phase.accepts, hkind, hcode]
    · exact { refusal_recv hf hp hhere.1 hid (Or.inl rfl) fun _ _ _ _ => rfl with }
  | dispatcher hq | tuneNotify ht => exact { hf with }
  | @tune cmd hc ht =>
    have hrec := hf.record (o := .tuned cmd) (by simp) (by simp) (by simp)
    exact { hrec with }
  | @tuneReply cmd ht =>
    have hrec := hf.record (o := .handed (.tunes (opts.tune cmd)))
      (fun frame hframe => by cases hframe; exact fun h => h) (by simp) (by simp)
    exact { hrec with }
  | notified hp hpermit =>
    have hmove := hf.move (l := .next .open) (by rw [hp]; simp)
      (Or.inr (by rw [hp]; exact Nat.le_succ 3))
    exact { hmove with }
  | startHeartbeat hp =>
    have hmove := hf.move (l := .next .exchangeCommandVersions) (by rw [hp]; simp)
      (Or.inr (by rw [hp]; exact Nat.le_succ 5))
    exact { hmove with }
  | beat hb =>
    have hopened := hr.beating hb
    refine hf.recordLate trivial ?_ ?_
    · exact fun h => not_opened_of_early (hf.early h.1 h.2) hopened
    · exact fun h => not_opened_of_early h.2 hopened

end RefusalSteps

/-! ## 6. Every run -/

/-- **The order of the handshake**, in every run of `connect` against a broker that sends what it
likes.

`SaslAuthenticate` is handed over only after a response to the handshake of the client; `Open`
only after a response with code `Ok` to the `SaslAuthenticate` request and after a `Tune` frame
was taken up and its reply handed over; a `HeartBeat` only after a response with code `Ok` to
the `Open` request.  If the authentication is refused, neither `Open` nor `HeartBeat` is ever
handed over.

Three invariants together, by one induction on the run.  The first three parts are what
`Justified` says of the record, read at each hand-over; the last is `Refusal`. -/
theorem handshake_order (opts : ClientOptions) (es : List Event) (s : State)
    (h : run (step opts) (init opts) es = some s) :
    (∀ pre cmd post, s.trace = pre ++ .handed (.saslAuthenticate cmd) :: post → Shaken pre) ∧
    (∀ pre cmd post, s.trace = pre ++ .handed (.open cmd) :: post →
      AuthenticateAnswered pre .ok ∧ Tuned opts pre) ∧
    (∀ pre cmd post, s.trace = pre ++ .handed (.heartbeat cmd) :: post → Opened pre) ∧
    (∀ code, code ≠ .ok → AuthenticateAnswered s.trace code →
      (∀ cmd, .handed (.open cmd) ∉ s.trace) ∧ ∀ cmd, .handed (.heartbeat cmd) ∉ s.trace) := by
  have hplaced : Placed opts (init opts) :=
    ⟨{ Requests.matched_init with inv := { Dispatcher.inv_init with } }, rfl⟩
  have hreached : Reached opts (init opts) := by
    refine ⟨fun k hk => ?_, by simp [init], by simp [init], by simp [init], by simp [init],
      justified_nil _⟩
    obtain rfl : k = 0 := Nat.le_zero.mp hk
    trivial
  have hrefusal : Refusal (init opts) := by
    refine ⟨by simp [init], fun _ _ => ?_, by simp [init]⟩
    intro frame hmem
    exact absurd hmem (by simp [init])
  obtain ⟨-, hr, hf⟩ := run_invariant
    (P := fun u => Placed opts u ∧ Reached opts u ∧ Refusal u)
    (fun u e u' hu hs => ⟨placed_step hu.1 hs, reached_step hu.1 hu.2.1 hs,
      refusal_step hu.1 hu.2.1 hu.2.2 hs⟩) ⟨hplaced, hreached, hrefusal⟩ h
  refine ⟨fun pre cmd post heq => hr.justified pre _ post heq,
    fun pre cmd post heq => hr.justified pre _ post heq,
    fun pre cmd post heq => hr.justified pre _ post heq, fun code hcode hanswered => ?_⟩
  obtain ⟨cmd, r, response, hsub, hkind, hid, rfl⟩ := hanswered
  have hauth := hf.authenticate cmd (hsub.subset List.mem_cons_self)
  have hmem : .answered r ∈ s.trace := hsub.subset (by simp)
  obtain ⟨-, hearly⟩ := hf.refused r response hmem hkind (hid.trans hauth) hcode
  exact ⟨fun cmd hmem => hearly _ hmem trivial, fun cmd hmem => hearly _ hmem trivial⟩

def guest : ClientOptions := ⟨"guest", "guest", "/", 60, 1048576, HashMap.empty⟩

/-- One request of `connect` and the response to it. -/
def exchange (n : ℕ) (r : Response) : List Event :=
  [.call, .dispatcher (.load n), .dispatcher (.insert n), .handOver .ok, .dispatcher (.frame r),
    .dispatcher .remove, .dispatcher .send, .recv]

/-- A broker that follows the script, up to the first heartbeat. -/
def connecting : List Event :=
  exchange 0 ⟨⟨17, 1⟩, .peerProperties ⟨0, .ok, HashMap.empty⟩⟩ ++
  exchange 1 ⟨⟨18, 1⟩, .saslHandshake ⟨1, .ok, ["PLAIN"]⟩⟩ ++
  exchange 2 ⟨⟨19, 1⟩, .generic ⟨2, .ok⟩⟩ ++
  [.dispatcher (.frame ⟨⟨20, 1⟩, .tunes ⟨1048576, 60⟩⟩), .tune, .tuneReply, .tuneNotify,
    .dispatcher .notify, .notified] ++
  exchange 3 ⟨⟨21, 1⟩, .open ⟨3, .ok, HashMap.empty⟩⟩ ++ [.startHeartbeat, .beat]

theorem handshake_order_connecting : ∃ s pre, run (step guest) (init guest) connecting = some s ∧
    s.trace = pre ++ [.handed (.heartbeat {})] ∧ Opened pre :=
  ⟨_, _, rfl, rfl, (handshake_order guest connecting _ rfl).2.2.1 _ {} [] rfl⟩

end Handshake

end RabbitMqStream.Client
