import Passhrs.Forward.AcceptLoop
import Passhrs.Forward.Relay
import Passhrs.Lib.Monitor

/-!
# The clients of an accept loop

What `-L`, `-D` and `-H` are to the clients that come to them, as a machine over what is seen of a
loop: one client after the other, a handshake, one channel at most, an answer that tells how the
channel was taken, and a relay of the client's own.

* **`loop_follows_protocol`**: every run of a loop is a run of this machine.
* **`tunnel_carries`**: so data goes through only on a channel that was granted to the client that
  is there, after it was told, and it is that client's data alone.
-/

namespace Passhrs

open Effects Text

/-! ## What is seen of a loop -/

inductive Notice where
  | accepted
  | answered (op : ConnOp) (answer : op.Res)
  | relayed (e : RelayEvent)
  | closed (error : String)

def notice (s : ForwardLoop) (e : ForwardEvent) : Option Notice :=
  match s, e with
  | .accepting, .accept => some .accepted
  | .accepting, .acceptFails error => some (.closed error)
  | .serving (.op .pump _) _, .pump e => some (.relayed e.relay)
  | .serving (.op .pump _) _, .answer _ => none
  | .serving (.op op _) _, .answer answer => some (.answered op (answer op))
  | _, _ => none

abbrev noticesOf (site : ForwardSite) (events : List ForwardEvent) : List Notice :=
  Machine.trace (ForwardLoop.step site) notice .accepting events

/-! ## The texts of a site -/

namespace ForwardSite

/-- What a client is told before it has asked for anything. -/
def greeting : ForwardSite → Option Bytes
  | .socksProxyForward _ => some [5, 0]
  | _ => none

/-- What a client is told whose request is none. -/
def complaint : ForwardSite → Option Bytes
  | .httpConnectForward _ => some (utf8 "HTTP/1.1 400 Bad Request\r\n\r\n")
  | _ => none

def success : ForwardSite → Option Bytes
  | .localPortForward _ => none
  | .socksProxyForward _ => some (socks5Response "127.0.0.1" 0 0)
  | .httpConnectForward _ => some (utf8 "HTTP/1.1 200 Connection Established\r\n\r\n")

def failure : ForwardSite → Option Bytes
  | .localPortForward _ => none
  | .socksProxyForward _ => some (socks5Response "0.0.0.0" 0 1)
  | .httpConnectForward _ => some (utf8 "HTTP/1.1 502 Bad Gateway\r\n\r\n")

/-- Whether a client that cannot be told of success is given up. -/
def mustTell : ForwardSite → Bool
  | .socksProxyForward _ => true
  | _ => false

def relaySite (site : ForwardSite) : RelaySite := .forwarded site.pumpSite

end ForwardSite

/-! ## The machine -/

/-- How far a client has come. -/
inductive ClientPhase where
  | nobody
  | asking
  /-- There is a channel, of which the client knows nothing. -/
  | granted
  | refused
  | relaying (relay : Relay)
  | served
  | closed
deriving DecidableEq

namespace ClientPhase

def afterOpen (site : ForwardSite) : Except String Unit → ClientPhase
  | .ok _ => if site.success.isSome then .granted else .relaying (.start site.relaySite)
  | .error _ => if site.failure.isSome then .refused else .served

def afterReply (site : ForwardSite) : Except String Unit → ClientPhase
  | .ok _ => .relaying (.start site.relaySite)
  | .error _ => if site.mustTell then .served else .relaying (.start site.relaySite)

def afterRound (relay : Relay) : ClientPhase := if relay.returned then .served else .relaying relay

def step (site : ForwardSite) : ClientPhase → Notice → Option ClientPhase
  -- a client may be gone before it has asked for anything
  | .nobody, .accepted | .asking, .accepted | .served, .accepted => some .asking
  | .nobody, .closed _ | .asking, .closed _ | .served, .closed _ => some .closed
  | .asking, .answered (.readExact _) _ | .asking, .answered (.read _) _ => some .asking
  | .asking, .answered .shutdown _ => some .served
  | .asking, .answered (.writeAll bytes) _ =>
    if site.greeting = some bytes then some .asking
    else if site.complaint = some bytes then some .served
    else none
  | .asking, .answered (.channelOpenDirectTcpip _ _ _ _) r => some (afterOpen site r)
  | .granted, .answered (.writeAll bytes) r =>
    if site.success = some bytes then some (afterReply site r) else none
  | .refused, .answered (.writeAll bytes) _ =>
    if site.failure = some bytes then some .served else none
  | .relaying relay, .relayed e => (relay.step site.relaySite e).map afterRound
  | _, _ => none

/-- The next client may come. -/
def Over : ClientPhase → Prop
  | .nobody | .asking | .served => True
  | _ => False

/-- The client has no relay, and may get one. -/
def Fresh : ClientPhase → Prop
  | .asking | .granted => True
  | _ => False

/-- The machine as a monitor of what is done for one client, where a relay is one operation. -/
def monitor (site : ForwardSite) : Monitor ConnOp ConnOp.Res ClientPhase
  | .relaying _, ⟨.pump, _⟩ => some .served
  | t, ⟨op, r⟩ => t.step site (.answered op r)

end ClientPhase

open ClientPhase

/-! ## What a step can be -/

/-- The operation asks for a channel. -/
def ConnOp.isOpen : ConnOp → Bool
  | .channelOpenDirectTcpip _ _ _ _ => true
  | _ => false

/-- The steps of the machine by what they are to a client. -/
inductive Moves (site : ForwardSite) : ClientPhase → Notice → ClientPhase → Prop where
  | accept {t : ClientPhase} (h : t.Over) : Moves site t .accepted .asking
  | close {t : ClientPhase} {error : String} (h : t.Over) : Moves site t (.closed error) .closed
  | hear {op : ConnOp} {r : op.Res} (h : op.isOpen = false) :
    Moves site .asking (.answered op r) .asking
  | dismiss {op : ConnOp} {r : op.Res} (h : op.isOpen = false) :
    Moves site .asking (.answered op r) .served
  | ask (host : String) (port : UInt32) (originator : String) (originatorPort : UInt32)
      (r : Except String Unit) :
    Moves site .asking (.answered (.channelOpenDirectTcpip host port originator originatorPort) r)
      (afterOpen site r)
  | tell {bytes : Bytes} {r : Except String Unit} (h : site.success = some bytes) :
    Moves site .granted (.answered (.writeAll bytes) r) (afterReply site r)
  | refuse {bytes : Bytes} {r : Except String Unit} (h : site.failure = some bytes) :
    Moves site .refused (.answered (.writeAll bytes) r) .served
  | round {relay relay' : Relay} {e : RelayEvent} (h : relay.step site.relaySite e = some relay') :
    Moves site (.relaying relay) (.relayed e) (afterRound relay')

theorem moves_of_step {site : ForwardSite} {t u : ClientPhase} {n : Notice}
    (hstep : t.step site n = some u) : Moves site t n u := by
  unfold ClientPhase.step at hstep
  split at hstep
  -- accepted, closed
  iterate 3
    obtain rfl := Option.some.inj hstep
    exact .accept trivial
  iterate 3
    obtain rfl := Option.some.inj hstep
    exact .close trivial
  -- asking
  · exact Option.some.inj hstep ▸ .hear rfl
  · exact Option.some.inj hstep ▸ .hear rfl
  · exact Option.some.inj hstep ▸ .dismiss rfl
  · split at hstep
    · exact Option.some.inj hstep ▸ .hear rfl
    · obtain ⟨-, rfl⟩ := Option.ite_some_none_eq_some.mp hstep
      exact .dismiss rfl
  · exact Option.some.inj hstep ▸ .ask _ _ _ _ _
  -- granted, refused, relaying
  · obtain ⟨hbytes, rfl⟩ := Option.ite_some_none_eq_some.mp hstep
    exact .tell hbytes
  · obtain ⟨hbytes, rfl⟩ := Option.ite_some_none_eq_some.mp hstep
    exact .refuse hbytes
  · obtain ⟨relay', hround, rfl⟩ := Option.map_eq_some_iff.mp hstep
    exact .round hround
  · cases hstep

/-! ## One client -/

section Client

variable {site : ForwardSite} {α β : Type} {t u : ClientPhase} {Q : β → ClientPhase → Prop}

/-- The programs of this section: whatever goes wrong, the next client may come. -/
abbrev Serves (site : ForwardSite) (Q : α → ClientPhase → Prop) (x : ConnM α) (t : ClientPhase) :
    Prop :=
  Obeys (monitor site) Q (fun _ => Over) x t

/-- The texts of the site are what may be written. -/
theorem monitor_writeAll (site : ForwardSite) (bytes : Bytes) (r : Except String Unit) :
    (site.greeting = some bytes → monitor site .asking ⟨.writeAll bytes, r⟩ = some .asking) ∧
    (site.success = some bytes →
      monitor site .granted ⟨.writeAll bytes, r⟩ = some (afterReply site r)) ∧
    (site.failure = some bytes → monitor site .refused ⟨.writeAll bytes, r⟩ = some .served) := by
  refine ⟨fun h => ?_, fun h => ?_, fun h => ?_⟩
  · show (if site.greeting = some bytes then _ else _) = _
    exact if_pos h
  · show (if site.success = some bytes then _ else _) = _
    exact if_pos h
  · show (if site.failure = some bytes then _ else _) = _
    exact if_pos h

/-- An operation that leads to one phase, in which a client may be given up. -/
theorem serves_ask {op : ConnOp} {k : op.Res → Except String α} {g : α → ConnM β}
    (hop : ∀ r, monitor site t ⟨op, r⟩ = some u) (hu : u.Over)
    (hg : ∀ a, Serves site Q (g a) u) : Serves site Q (call op k >>= g) t :=
  obeys_bind (Q := fun _ t => t = u)
    (obeys_call fun r => ⟨u, hop r, fun _ _ => rfl, fun _ _ => hu⟩) fun a _ h => h ▸ hg a

/-- An operation whose answer decides. -/
theorem serves_decide {op : ConnOp} {g : op.Res → ConnM β}
    (hg : ∀ r, ∃ u, monitor site t ⟨op, r⟩ = some u ∧ Serves site Q (g r) u) :
    Serves site Q (call op .ok >>= g) t := by
  refine obeys_bind (Q := fun r t => Serves site Q (g r) t) (obeys_call fun r => ?_) fun _ _ h => h
  obtain ⟨u, hu, hserves⟩ := hg r
  exact ⟨u, hu, fun a ha => Except.ok.inj ha ▸ hserves, fun _ h => by cases h⟩

theorem serves_last {op : ConnOp} {k : op.Res → Except String α} (hu : u.Over)
    (hop : ∀ r, monitor site t ⟨op, r⟩ = some u) :
    Serves site (fun _ => Over) (call op k) t :=
  obeys_call fun r => ⟨u, hop r, fun _ _ => hu, fun _ _ => hu⟩

/-- The relay is the last thing that is done for a client. -/
theorem serves_relay (relay : Relay) :
    Serves site (fun _ => Over) (call .pump .ok : ConnM Unit) (.relaying relay) :=
  serves_last (u := .served) trivial fun _ => rfl

theorem serves_readPort (spec : DynamicForwardSpec) :
    Serves (.socksProxyForward spec) (fun _ t => t = .asking) readPort .asking :=
  serves_ask (fun _ => rfl) trivial fun _ => obeys_pure rfl

/-- Up to the end of its request a client is told the method only. -/
theorem serves_socks5Handshake (spec : DynamicForwardSpec) :
    Serves (.socksProxyForward spec) (fun _ t => t = .asking) socks5Handshake .asking := by
  unfold socks5Handshake
  refine serves_ask (fun _ => rfl) trivial fun greeting =>
    serves_ask (fun _ => rfl) trivial fun _ =>
    serves_ask (u := .asking) (fun r => (monitor_writeAll _ _ r).1 rfl) trivial fun _ =>
    serves_ask (fun _ => rfl) trivial fun request => ?_
  dsimp only
  split_ifs
  · exact serves_ask (fun _ => rfl) trivial fun ip =>
      obeys_bind (serves_readPort spec) fun _ _ ht => obeys_pure ht
  · exact serves_ask (fun _ => rfl) trivial fun length =>
      serves_ask (fun _ => rfl) trivial fun domain =>
      obeys_bind (serves_readPort spec) fun _ _ ht => obeys_pure ht
  · exact serves_ask (fun _ => rfl) trivial fun ip =>
      obeys_bind (serves_readPort spec) fun _ _ ht => obeys_pure ht
  · exact obeys_throw trivial

theorem serves_handleSocksConnection (spec : DynamicForwardSpec) :
    Serves (.socksProxyForward spec) (fun _ => Over) handleSocksConnection .asking := by
  unfold handleSocksConnection
  refine obeys_bind (serves_socks5Handshake spec) ?_
  rintro ⟨host, port⟩ _ rfl
  refine serves_decide fun answer => ⟨_, rfl, ?_⟩
  rcases answer with e | ⟨⟨⟩⟩
  · exact serves_ask (u := .served) (fun r => (monitor_writeAll _ _ r).2.2 rfl) trivial
      fun _ => obeys_throw trivial
  · -- a client that cannot be told does not get its relay
    refine obeys_bind (Q := fun _ t => t = .relaying (.start (.forwarded .handleSocksConnection)))
      (obeys_call fun r => ⟨_, (monitor_writeAll _ _ r).2.1 rfl, fun a ha => ?_, fun e he => ?_⟩)
      fun _ _ ht => ?_
    · obtain rfl : r = .ok a := ha
      rfl
    · obtain rfl : r = .error e := he
      trivial
    · rw [ht]
      exact serves_relay _

theorem serves_localPortConnection (spec : ForwardSpec) :
    Serves (.localPortForward spec) (fun _ => Over)
      (ForwardSite.localPortForward spec).connection .asking := by
  refine serves_decide fun answer => ⟨_, rfl, ?_⟩
  rcases answer with e | ⟨⟨⟩⟩
  · exact obeys_pure trivial
  · exact serves_relay _

/-- Whether a reply arrives makes no difference to `-H`. -/
theorem serves_writeHttpResponse {status : UInt16} {message : String}
    (hop : ∀ r, monitor site t
      ⟨.writeAll (utf8 s!"HTTP/1.1 {status} {message}\r\n\r\n"), r⟩ = some u) :
    Serves site (fun _ t => t = u) (writeHttpResponse status message) t :=
  serves_decide fun r => ⟨u, hop r, obeys_pure rfl⟩

theorem serves_httpConnectHandleOne (spec : DynamicForwardSpec) :
    Serves (.httpConnectForward spec) (fun _ => Over) httpConnectHandleOne .asking := by
  have hover : ∀ {x : ConnM Unit} {t : ClientPhase},
      Serves (.httpConnectForward spec) (fun _ t => t = .served) x t →
        Serves (.httpConnectForward spec) (fun _ => Over) x t :=
    fun h => h.mono (fun _ _ ht => ht ▸ trivial) fun _ _ ht => ht
  unfold httpConnectHandleOne
  refine serves_decide fun answer => ⟨.asking, rfl, ?_⟩
  rcases answer with e | _ | ⟨b, buf⟩
  · exact serves_last (u := .served) trivial fun _ => rfl
  · exact serves_last (u := .served) trivial fun _ => rfl
  dsimp only
  rcases parseConnectRequest (b :: buf) with e | ⟨host, port⟩
  · exact hover (serves_writeHttpResponse fun _ => rfl)
  refine serves_decide fun answer => ⟨_, rfl, ?_⟩
  rcases answer with e | ⟨⟨⟩⟩
  · exact hover (serves_writeHttpResponse fun _ => rfl)
  · refine obeys_bind (serves_writeHttpResponse
      (u := .relaying (.start (.forwarded .tunnelForward))) fun r => ?_) fun _ _ ht => ?_
    · cases r <;> rfl
    · rw [ht]
      exact serves_relay _

theorem serves_connection (site : ForwardSite) :
    Serves site (fun _ => Over) site.connection .asking := by
  cases site with
  | localPortForward spec => exact serves_localPortConnection spec
  | socksProxyForward spec => exact serves_handleSocksConnection spec
  | httpConnectForward spec => exact serves_httpConnectHandleOne spec

end Client

/-! ## The loop follows the machine -/

/-- Where the client is that a loop is at. The pump of a client that has no relay yet is a new
one. -/
def Fits (site : ForwardSite) : ForwardLoop → ClientPhase → Prop
  | .accepting, t => t.Over
  | .serving rest pump, t => Prog.Obeys (monitor site) (fun _ => Over) rest t ∧
      (∀ relay, t = .relaying relay → pump.relay = relay) ∧
      (t.Fresh → pump = .start site.pumpSite)
  | .returned _, t => t = .closed

section Loop

variable {site : ForwardSite} {s s' : ForwardLoop} {t u : ClientPhase}

theorem obeys_connection (site : ForwardSite) :
    Prog.Obeys (monitor site) (fun _ => Over) site.connection.run .asking := by
  refine Prog.Obeys.mono (serves_connection site) fun r t h => ?_
  cases r with
  | ok a => exact h.1 a rfl
  | error e => exact h.2 e rfl

theorem fits_resume {rest : Prog ConnOp ConnOp.Res (Except String Unit)} {pump : Pump}
    (hrest : Prog.Obeys (monitor site) (fun _ => Over) rest t)
    (hrelay : ∀ relay, t = .relaying relay → pump.relay = relay)
    (hnew : t.Fresh → pump = .start site.pumpSite) :
    Fits site (.resume pump rest) t := by
  cases rest with
  | pure a => exact hrest
  | op op next => exact ⟨hrest, hrelay, hnew⟩

/-- Over a client comes the next one, or the end. -/
theorem step_of_over (ht : t.Over) : t.step site .accepted = some .asking ∧
    ∀ error, t.step site (.closed error) = some .closed := by
  cases t <;> first | exact ⟨rfl, fun _ => rfl⟩ | cases ht

theorem start_of_afterOpen {r : Except String Unit} {relay : Relay}
    (h : afterOpen site r = .relaying relay) : relay = .start site.relaySite := by
  unfold afterOpen at h
  split at h
  · split at h
    · cases h
    · exact (ClientPhase.relaying.inj h).symm
  · split at h <;> cases h

theorem start_of_afterReply {r : Except String Unit} {relay : Relay}
    (h : afterReply site r = .relaying relay) : relay = .start site.relaySite := by
  unfold afterReply at h
  split at h
  · exact (ClientPhase.relaying.inj h).symm
  · split at h
    · cases h
    · exact (ClientPhase.relaying.inj h).symm

/-- What is answered to a client takes it from a phase without a relay, and to a new one. -/
theorem step_answered {op : ConnOp} {r : op.Res} (hstep : t.step site (.answered op r) = some u) :
    (∀ relay, u = .relaying relay → t.Fresh ∧ relay = .start site.relaySite) ∧
      (u.Fresh → t.Fresh) := by
  cases moves_of_step hstep with
  | hear _ => exact ⟨nofun, fun _ => trivial⟩
  | dismiss _ => exact ⟨nofun, nofun⟩
  | ask _ _ _ _ r => exact ⟨fun _ h => ⟨trivial, start_of_afterOpen h⟩, fun _ => trivial⟩
  | tell _ => exact ⟨fun _ h => ⟨trivial, start_of_afterReply h⟩, fun _ => trivial⟩
  | refuse _ => exact ⟨nofun, nofun⟩

theorem relay_start (site : ForwardSite) :
    (Pump.start site.pumpSite).relay = .start site.relaySite := by
  cases site <;> rfl

/-- A step of a loop is none of the machine's, or one. -/
theorem fits_step {e : ForwardEvent} (hfits : Fits site s t) (hstep : s.step site e = some s') :
    ∃ u, Machine.run (ClientPhase.step site) t (notice s e).toList = some u ∧ Fits site s' u := by
  have hone : ∀ {n : Notice} {u : ClientPhase}, t.step site n = some u →
      Machine.run (ClientPhase.step site) t [n] = some u :=
    fun h => Machine.run_cons_eq_some.mpr ⟨_, h, rfl⟩
  unfold ForwardLoop.step at hstep
  split at hstep
  · -- a client comes
    obtain rfl := Option.some.inj hstep
    exact ⟨.asking, hone (step_of_over hfits).1,
      fits_resume (obeys_connection site) nofun fun _ => rfl⟩
  · obtain rfl := Option.some.inj hstep
    exact ⟨.closed, hone ((step_of_over hfits).2 _), rfl⟩
  · next next pump e =>
    obtain ⟨hrest, hrelay, -⟩ := hfits
    obtain ⟨u, hu, hnext⟩ := hrest ()
    have hrelaying : ∃ relay, t = .relaying relay ∧ u = .served := by
      cases t with
      | relaying relay => exact ⟨relay, rfl, (Option.some.inj hu).symm⟩
      | _ => cases hu
    obtain ⟨relay, rfl, rfl⟩ := hrelaying
    obtain rfl := hrelay relay rfl
    unfold ForwardLoop.stepPump at hstep
    split at hstep
    · cases hstep
    next pump' hpump =>
    obtain rfl := Option.some.inj hstep
    have hround : (ClientPhase.relaying pump.relay).step site (.relayed e.relay)
        = some (afterRound pump'.relay) := by
      show (pump.relay.step (.forwarded site.pumpSite) e.relay).map afterRound = _
      rw [relay_step hpump]
      rfl
    refine ⟨_, hone hround, ?_⟩
    by_cases hreturned : pump'.returned = true
    · -- the last round: the relay is the last thing that was to be done
      rw [if_pos hreturned, show afterRound pump'.relay = .served from if_pos hreturned]
      exact fits_resume hnext nofun nofun
    · rw [if_neg hreturned,
        show afterRound pump'.relay = .relaying pump'.relay from if_neg hreturned]
      exact ⟨fun _ => ⟨.served, rfl, hnext⟩, fun _ h => ClientPhase.relaying.inj h, nofun⟩
  · cases hstep
  · next op next pump answer hpump =>
    obtain rfl := Option.some.inj hstep
    obtain ⟨hrest, -, hnew⟩ := hfits
    obtain ⟨u, hu, hnext⟩ := hrest (answer op)
    have hanswered : notice (.serving (.op op next) pump) (.answer answer)
          = some (.answered op (answer op)) ∧
        t.step site (.answered op (answer op)) = some u := by
      cases op with
      | pump => exact (hpump next rfl HEq.rfl).elim
      | _ => exact ⟨rfl, by cases t <;> exact hu⟩
    obtain ⟨hrelay, hfresh⟩ := step_answered hanswered.2
    rw [hanswered.1]
    refine ⟨u, hone hanswered.2, fits_resume hnext (fun relay h => ?_) fun h => hnew (hfresh h)⟩
    obtain ⟨ht, rfl⟩ := hrelay relay h
    rw [hnew ht, relay_start]
  · cases hstep

/-- From the first client to the last. -/
theorem fits_of_run {events : List ForwardEvent}
    (hrun : Machine.run (ForwardLoop.step site) .accepting events = some s) :
    ∃ t, Machine.run (ClientPhase.step site) .nobody (noticesOf site events) = some t ∧
      Fits site s t :=
  Machine.run_trace (R := Fits site) (fun _ _ _ _ hfits hstep => fits_step hfits hstep)
    (show Fits site .accepting .nobody from trivial) hrun

/-- A pump is the relay of the client that is there. -/
theorem relaying_of_fits {next : Unit → Prog ConnOp ConnOp.Res (Except String Unit)} {pump : Pump}
    (hfits : Fits site (.serving (.op .pump next) pump) t) : t = .relaying pump.relay := by
  obtain ⟨hrest, hrelay, -⟩ := hfits
  obtain ⟨u, hu, -⟩ := hrest ()
  cases t with
  | relaying relay => rw [hrelay relay rfl]
  | _ => cases hu

end Loop

/-! ## What has been seen of a client -/

/-- Neither a new client nor a channel that is asked for. -/
def Notice.Plain : Notice → Prop
  | .accepted => False
  | .answered op _ => op.isOpen = false
  | _ => True

/-- What a client is told between its channel and its relay. -/
def ForwardSite.Told (site : ForwardSite) (reply : List Notice) : Prop :=
  ∃ r : Except String Unit, (site.mustTell = true → r = .ok ()) ∧
    reply = (site.success.map fun bytes => Notice.answered (.writeAll bytes) r).toList

/-- How a tunnel has come about: a client was accepted, the one channel that was asked for was
granted, the client was told, and these rounds of the relay are all there was since. -/
def TunnelOf (site : ForwardSite) (notices : List Notice) (rounds : List RelayEvent) : Prop :=
  ∃ before front host port originator originatorPort reply,
    notices = before ++ .accepted :: (front ++
      .answered (.channelOpenDirectTcpip host port originator originatorPort) (.ok ()) ::
        (reply ++ rounds.map .relayed)) ∧
    (∀ n ∈ front, n.Plain) ∧ site.Told reply

/-- What has been seen when a client is at a phase. -/
def History (site : ForwardSite) (notices : List Notice) : ClientPhase → Prop
  | .asking => ∃ before front, notices = before ++ .accepted :: front ∧ ∀ n ∈ front, n.Plain
  | .granted => site.success.isSome ∧ ∃ before front host port originator originatorPort,
      notices = before ++ .accepted :: (front ++
        [.answered (.channelOpenDirectTcpip host port originator originatorPort) (.ok ())]) ∧
      ∀ n ∈ front, n.Plain
  | .relaying relay => ∃ rounds, TunnelOf site notices rounds ∧
      Machine.run (Relay.step site.relaySite) (.start site.relaySite) rounds = some relay
  | _ => True

section Histories

variable {site : ForwardSite} {t u : ClientPhase} {notices : List Notice} {n : Notice}

/-- A channel that is granted at a site without replies starts the relay. -/
theorem history_ask {host : String} {port : UInt32} {originator : String} {originatorPort : UInt32}
    (hasking : History site notices .asking) (r : Except String Unit) :
    History site
      (notices ++ [.answered (.channelOpenDirectTcpip host port originator originatorPort) r])
      (afterOpen site r) := by
  obtain ⟨before, front, rfl, hfront⟩ := hasking
  cases r with
  | error e =>
    unfold afterOpen
    dsimp only
    split <;> trivial
  | ok a =>
    by_cases hsome : site.success.isSome = true
    · rw [show afterOpen site (.ok a) = .granted from if_pos hsome]
      exact ⟨hsome, before, front, host, port, originator, originatorPort, by simp, hfront⟩
    · rw [show afterOpen site (.ok a) = .relaying (.start site.relaySite) from if_neg hsome]
      have hnone : site.success = none := by simpa using hsome
      refine ⟨[], ⟨before, front, host, port, originator, originatorPort, [], by simp, hfront,
        .ok (), fun _ => rfl, ?_⟩, rfl⟩
      rw [hnone]
      rfl

/-- A client that has been told, or need not have been, gets its relay. -/
theorem history_tell {bytes : Bytes} (hgranted : History site notices .granted)
    (hbytes : site.success = some bytes) (r : Except String Unit) :
    History site (notices ++ [.answered (.writeAll bytes) r]) (afterReply site r) := by
  obtain ⟨-, before, front, host, port, originator, originatorPort, rfl, hfront⟩ := hgranted
  have hrelaying : (site.mustTell = true → r = .ok ()) →
      History site (before ++ .accepted :: (front ++
        [.answered (.channelOpenDirectTcpip host port originator originatorPort) (.ok ())]) ++
          [.answered (.writeAll bytes) r]) (.relaying (.start site.relaySite)) := by
    intro htold
    refine ⟨[], ⟨before, front, host, port, originator, originatorPort,
      [.answered (.writeAll bytes) r], by simp, hfront, r, htold, ?_⟩, rfl⟩
    rw [hbytes]
    rfl
  cases r with
  | ok a => exact hrelaying fun _ => rfl
  | error e =>
    by_cases hmust : site.mustTell = true
    · rw [show afterReply site (.error e) = .served from if_pos hmust]
      trivial
    · rw [show afterReply site (.error e) = .relaying (.start site.relaySite) from if_neg hmust]
      exact hrelaying fun h => absurd h hmust

theorem history_step (hhistory : History site notices t) (hstep : t.step site n = some u) :
    History site (notices ++ [n]) u := by
  cases moves_of_step hstep with
  | accept _ => exact ⟨notices, [], rfl, fun _ h => absurd h List.not_mem_nil⟩
  | close _ | dismiss _ | refuse _ => trivial
  | @hear op r hop =>
    obtain ⟨before, front, rfl, hfront⟩ := hhistory
    refine ⟨before, front ++ [.answered op r], by simp, fun n hn => ?_⟩
    rcases List.mem_append.mp hn with hn | hn
    · exact hfront n hn
    · exact List.mem_singleton.mp hn ▸ hop
  | ask _ _ _ _ r => exact history_ask hhistory r
  | @tell bytes r hbytes => exact history_tell hhistory hbytes r
  | @round relay relay' e hround =>
    unfold afterRound
    split
    · trivial
    obtain ⟨rounds, ⟨before, front, host, port, originator, originatorPort, reply, rfl, htold⟩,
      hrun⟩ := hhistory
    exact ⟨rounds ++ [e],
      ⟨before, front, host, port, originator, originatorPort, reply, by simp, htold⟩,
      Machine.run_concat_eq_some.mpr ⟨relay, hrun, hround⟩⟩

theorem history_of_run (hrun : Machine.run (ClientPhase.step site) .nobody notices = some t) :
    History site notices t :=
  Machine.run_invariant (I := History site) (show History site [] .nobody from trivial)
    (fun _ _ _ _ hhistory hstep => history_step hhistory hstep) hrun

end Histories

/-! ## Whole runs -/

section Runs

variable {site : ForwardSite} {events : List ForwardEvent} {s : ForwardLoop}

/-- **Every run of a loop follows the protocol**, whatever the clients and the server do: it takes
the machine to where the next client may come when the loop is at its `accept`, to the relay that
its pump is, and to the end when it has returned. -/
theorem loop_follows_protocol
    (hrun : Machine.run (ForwardLoop.step site) .accepting events = some s) :
    ∃ phase, Machine.run (ClientPhase.step site) .nobody (noticesOf site events) = some phase ∧
      (s = .accepting → phase.Over) ∧
      (∀ next pump, s = .serving (.op .pump next) pump → phase = .relaying pump.relay) ∧
      ∀ error, s = .returned error → phase = .closed := by
  obtain ⟨phase, hphase, hfits⟩ := fits_of_run hrun
  refine ⟨phase, hphase, ?_, ?_, ?_⟩
  · rintro rfl
    exact hfits
  · rintro next pump rfl
    exact relaying_of_fits hfits
  · rintro error rfl
    exact hfits

/-- Every read brings these bytes, and everything else succeeds. -/
def brings (bytes : Bytes) : (op : ConnOp) → op.Res
  | .readExact _ | .read _ => .ok bytes
  | .writeAll _ | .channelOpenDirectTcpip _ _ _ _ => .ok ()
  | .shutdown | .pump => ()

def socksSite : ForwardSite := .socksProxyForward ⟨"127.0.0.1", 1080⟩

/-- A client asks for 10.0.0.1:80, and sends a byte. -/
def socksEvents : List ForwardEvent :=
  [.accept, .answer (brings [5, 1]), .answer (brings [0]), .answer (brings []),
    .answer (brings [5, 1, 0, 1]), .answer (brings [10, 0, 0, 1]), .answer (brings [0, 80]),
    .answer (brings []), .answer (brings []), .pump (.fromSocket (.ok [7]) true)]

/-- Both sides come to an end. -/
def socksEnd : List ForwardEvent :=
  [.pump (.fromSocket (.ok []) true), .pump (.fromChannel (some .eof) true), .pump .join]

theorem loop_follows_protocol_socks :
    ∃ phase, Machine.run (ClientPhase.step socksSite) .nobody
        (noticesOf socksSite (socksEvents ++ socksEnd)) = some phase ∧
      (ForwardLoop.accepting = .accepting → phase.Over) ∧
      (∀ next pump, ForwardLoop.accepting = .serving (.op .pump next) pump →
        phase = .relaying pump.relay) ∧
      ∀ error, ForwardLoop.accepting = .returned error → phase = .closed :=
  loop_follows_protocol rfl

/-- **A tunnel is the client's own**: while a loop pumps, the channel is the only one that was asked
for since the client was accepted, it was granted, and the client has been told where it waits for
that; and what is carried either way is what was read since, in order, with nothing of any other
client. -/
theorem tunnel_carries {next : Unit → Prog ConnOp ConnOp.Res (Except String Unit)} {pump : Pump}
    (hrun : Machine.run (ForwardLoop.step site) .accepting events
      = some (.serving (.op .pump next) pump)) :
    ∃ rounds, TunnelOf site (noticesOf site events) rounds ∧
      (pump.toChannel <+: readOff (RelayEvent.remoteRounds rounds) ∧
        (pump.s2cDone = false → pump.toChannel = readOff (RelayEvent.remoteRounds rounds))) ∧
      pump.toSocket <+: received (RelayEvent.localRounds rounds) ∧
        (pump.c2s ≠ some .writeError →
          pump.toSocket = received (RelayEvent.localRounds rounds)) := by
  obtain ⟨phase, hphase, hfits⟩ := fits_of_run hrun
  have hhistory := history_of_run hphase
  rw [relaying_of_fits hfits] at hhistory
  obtain ⟨rounds, htunnel, hrelay⟩ := hhistory
  obtain ⟨hlocal, hremote⟩ := directions_of_run hrelay
  obtain ⟨hsent, hall⟩ := sent_of_run hremote
  exact ⟨rounds, htunnel, ⟨hsent, fun hrunning => hall (.inl hrunning)⟩, written_of_run rfl hlocal⟩

theorem tunnel_carries_socks :
    ∃ rounds, TunnelOf socksSite (noticesOf socksSite socksEvents) rounds ∧
      ([7] <+: readOff (RelayEvent.remoteRounds rounds) ∧
        (false = false → [7] = readOff (RelayEvent.remoteRounds rounds))) ∧
      [] <+: received (RelayEvent.localRounds rounds) ∧
        (none ≠ some ChannelEnd.writeError →
          [] = received (RelayEvent.localRounds rounds)) := by
  have hrun : ∃ next, Machine.run (ForwardLoop.step socksSite) .accepting socksEvents =
      some (.serving (.op .pump next) ⟨none, false, [], [7], false, false⟩) := ⟨_, rfl⟩
  obtain ⟨next, hrun⟩ := hrun
  exact tunnel_carries hrun

end Runs

end Passhrs
