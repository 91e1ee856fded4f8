import Passhrs.Forward.Pump
import Passhrs.Lib.Interleave
import Passhrs.Run.Main

/-!
# What the pumps carry

The loops of the pumps stand in two more places: `-W` has them between the channel and stdin and
stdout, and `pump_agent_socket` between a channel that the server opens and the socket of the local
agent. The two tasks of a relay share nothing, so each direction is a machine of its own, and a
relay is the two side by side.

* **`relay_exact`**: no byte is lost, added or moved in either direction, whatever the order of the
  rounds, up to a write that fails. `-W` goes on after one, and what it lost is missing.
* **`agent_forward_exact`**: the server hears the local agent only where the user has asked for it.
-/

namespace Passhrs

/-- The functions with these loops. -/
inductive RelaySite where
  | forwarded (site : PumpSite)
  | stdioForward
  | pumpAgentSocket
deriving DecidableEq

namespace RelaySite

/-- `-W` waits for both tasks, the relay of the agent drops their handles. -/
def joins : RelaySite → Bool
  | .forwarded site => site.joins
  | .stdioForward => true
  | .pumpAgentSocket => false

/-- A write that fails ends the loop. The stdout of `-W` reports it only at the flush, whose result
is dropped. -/
def reportsWrite : RelaySite → Bool
  | .forwarded _ | .pumpAgentSocket => true
  | .stdioForward => false

end RelaySite

/-! ## The two directions -/

/-- From the channel: how the loop has ended, if it has, and what it has written. -/
structure ToLocal where
  ended : Option ChannelEnd
  written : Bytes
deriving DecidableEq

/-- To the channel. -/
structure ToRemote where
  done : Bool
  sent : Bytes
  /-- `ctx.eof()` was called. -/
  eofSent : Bool
deriving DecidableEq

/-- What `crx.wait()` returns, and whether the write of it succeeds. -/
abbrev LocalRound : Type := Option ChannelMsg × Bool

/-- What a read returns, and whether the channel takes the data. -/
abbrev RemoteRound : Type := Except String Bytes × Bool

namespace ToLocal

def start : ToLocal := ⟨none, []⟩

def deliver (site : RelaySite) (l : ToLocal) (written : Bool) : Option ChannelMsg → ToLocal
  | some (.data bytes) =>
    if written then { l with written := l.written ++ bytes }
    else if site.reportsWrite then { l with ended := some .writeError }
    else l
  | some .eof => { l with ended := some .eof }
  | some .close => { l with ended := some .close }
  | none => { l with ended := some .noSender }
  | some _ => l

def step (site : RelaySite) (l : ToLocal) (round : LocalRound) : Option ToLocal :=
  if l.ended = none then some (l.deliver site round.2 round.1) else none

end ToLocal

namespace ToRemote

def start : ToRemote := ⟨false, [], false⟩

def send (u : ToRemote) (taken : Bool) : Except String Bytes → ToRemote
  | .ok [] => { u with eofSent := true, done := true }
  | .ok bytes => if taken then { u with sent := u.sent ++ bytes } else { u with done := true }
  | .error _ => { u with done := true }

def step (u : ToRemote) (round : RemoteRound) : Option ToRemote :=
  if u.done = false then some (u.send round.2 round.1) else none

end ToRemote

/-- What the channel delivers. -/
def received (rounds : List LocalRound) : Bytes := dataOf (rounds.filterMap Prod.fst)

/-- What a read brings. -/
def readBytes : Except String Bytes → Bytes
  | .ok bytes => bytes
  | .error _ => []

def readOff (rounds : List RemoteRound) : Bytes := rounds.flatMap fun round => readBytes round.1

section Directions

variable {l : ToLocal} {u : ToRemote}

theorem received_concat (rounds : List LocalRound) (round : LocalRound) :
    received (rounds ++ [round]) = received rounds ++ dataOf round.1.toList := by
  obtain ⟨msg, written⟩ := round
  unfold received
  rw [List.filterMap_append, dataOf, List.flatMap_append]
  cases msg <;> rfl

theorem readOff_concat (rounds : List RemoteRound) (round : RemoteRound) :
    readOff (rounds ++ [round]) = readOff rounds ++ readBytes round.1 := by
  unfold readOff
  rw [List.flatMap_append, List.flatMap_singleton]

/-- What a round does to what is written: it is all that the channel delivers, or a write has
failed, which ends the loop where that is reported. -/
theorem deliver_cases (site : RelaySite) (l : ToLocal) (written : Bool) (msg : Option ChannelMsg) :
    (l.deliver site written msg).written = l.written ++ dataOf msg.toList ∨
      written = false ∧ (l.deliver site written msg).written = l.written ∧
        (site.reportsWrite = true → (l.deliver site written msg).ended = some .writeError) := by
  rcases msg with _ | msg
  · exact .inl (List.append_nil _).symm
  cases msg with
  | data bytes =>
    have hbytes : dataOf (some (ChannelMsg.data bytes)).toList = bytes := List.append_nil bytes
    rw [hbytes]
    cases written with
    | true => exact .inl rfl
    | false =>
      right
      unfold ToLocal.deliver
      cases hreports : site.reportsWrite with
      | true => exact ⟨rfl, rfl, fun _ => rfl⟩
      | false => exact ⟨rfl, rfl, fun h => by cases h⟩
  | _ => exact .inl (List.append_nil _).symm

/-- What the channel delivers is written, up to a write that fails, where that is reported. -/
theorem written_of_run {site : RelaySite} (hreports : site.reportsWrite = true)
    {rounds : List LocalRound} (hrun : Machine.run (ToLocal.step site) .start rounds = some l) :
    l.written <+: received rounds ∧ (l.ended ≠ some .writeError → l.written = received rounds) := by
  refine Machine.run_invariant (I := fun rounds l => l.written <+: received rounds ∧
    (l.ended ≠ some .writeError → l.written = received rounds))
    ⟨List.prefix_refl _, fun _ => rfl⟩ ?_ hrun
  rintro rounds l ⟨msg, written⟩ l' ⟨-, hexact⟩ hstep
  obtain ⟨hrunning, rfl⟩ := Option.ite_some_none_eq_some.mp hstep
  have hsame : l.written = received rounds := hexact (by simp [hrunning])
  rw [received_concat]
  rcases deliver_cases site l written msg with hall | ⟨-, hkept, hended⟩
  · rw [hall, hsame]
    exact ⟨List.prefix_refl _, fun _ => rfl⟩
  · rw [hkept, hsame]
    exact ⟨List.prefix_append _ _, fun hrunning' => absurd (hended hreports) hrunning'⟩

/-- What is read is sent, up to data that the channel does not take, and EOF only behind it. -/
theorem sent_of_run {rounds : List RemoteRound}
    (hrun : Machine.run ToRemote.step .start rounds = some u) :
    u.sent <+: readOff rounds ∧ (u.done = false ∨ u.eofSent = true → u.sent = readOff rounds) := by
  have hrule : u.sent <+: readOff rounds ∧
      (u.done = false ∨ u.eofSent = true → u.sent = readOff rounds) ∧
      (u.done = false → u.eofSent = false) := by
    refine Machine.run_invariant (I := fun rounds u => u.sent <+: readOff rounds ∧
      (u.done = false ∨ u.eofSent = true → u.sent = readOff rounds) ∧
      (u.done = false → u.eofSent = false)) ⟨List.prefix_refl _, fun _ => rfl, fun _ => rfl⟩ ?_ hrun
    rintro rounds u ⟨read, taken⟩ u' ⟨-, hexact, heof⟩ hstep
    obtain ⟨hrunning, rfl⟩ := Option.ite_some_none_eq_some.mp hstep
    have hsame : u.sent = readOff rounds := hexact (.inl hrunning)
    rw [readOff_concat]
    -- the loop ends with nothing in the read
    have hends : ∀ u' : ToRemote, u'.sent = u.sent → u'.done = true → readBytes read = [] →
        u'.sent <+: readOff rounds ++ readBytes read ∧
          (u'.done = false ∨ u'.eofSent = true → u'.sent = readOff rounds ++ readBytes read) ∧
          (u'.done = false → u'.eofSent = false) := by
      intro u' hu' hdone hnil
      rw [hnil, List.append_nil, hu', hsame, hdone]
      exact ⟨List.prefix_refl _, fun _ => rfl, fun h => by cases h⟩
    rcases read with e | _ | ⟨b, bytes⟩
    · exact hends _ rfl rfl rfl
    · exact hends _ rfl rfl rfl
    · cases taken with
      | true =>
        show u.sent ++ b :: bytes <+: readOff rounds ++ b :: bytes ∧
          (_ → u.sent ++ b :: bytes = readOff rounds ++ b :: bytes) ∧ _
        rw [hsame]
        exact ⟨List.prefix_refl _, fun _ => rfl, heof⟩
      | false =>
        show u.sent <+: readOff rounds ++ b :: bytes ∧ (true = false ∨ u.eofSent = true → _) ∧ _
        rw [hsame, heof hrunning]
        exact ⟨List.prefix_append _ _, fun h => by simp at h, fun h => by cases h⟩
  exact ⟨hrule.1, hrule.2.1⟩

end Directions

/-! ## A relay -/

structure Relay where
  toLocal : ToLocal
  toRemote : ToRemote
  /-- The function that started the tasks has returned. -/
  returned : Bool
deriving DecidableEq

/-- A round of one of the tasks, or the end of the `join!`. -/
inductive RelayEvent where
  | round (r : LocalRound ⊕ RemoteRound)
  | join

namespace RelayEvent

def round? : RelayEvent → Option (LocalRound ⊕ RemoteRound)
  | round r => some r
  | join => none

def localRounds (events : List RelayEvent) : List LocalRound :=
  (events.filterMap round?).filterMap Sum.getLeft?

def remoteRounds (events : List RelayEvent) : List RemoteRound :=
  (events.filterMap round?).filterMap Sum.getRight?

end RelayEvent

namespace Relay

def start (site : RelaySite) : Relay := ⟨.start, .start, !site.joins⟩

def tasks (r : Relay) : ToLocal × ToRemote := (r.toLocal, r.toRemote)

def step (site : RelaySite) (r : Relay) : RelayEvent → Option Relay
  | .round e =>
    (Machine.beside (ToLocal.step site) ToRemote.step r.tasks e).map fun t =>
      ⟨t.1, t.2, r.returned⟩
  | .join =>
    if site.joins = true ∧ r.toLocal.ended ≠ none ∧ r.toRemote.done = true ∧ r.returned = false then
      some { r with returned := true }
    else none

end Relay

section Relay

variable {site : RelaySite} {r r' : Relay} {events : List RelayEvent}

/-- A run of a relay is a run of the two tasks. -/
theorem tasks_of_run (hrun : Machine.run (Relay.step site) r events = some r') :
    Machine.run (Machine.beside (ToLocal.step site) ToRemote.step) r.tasks
      (events.filterMap RelayEvent.round?) = some r'.tasks := by
  refine Machine.run_invariant (I := fun events r' =>
    Machine.run (Machine.beside (ToLocal.step site) ToRemote.step) r.tasks
      (events.filterMap RelayEvent.round?) = some r'.tasks) rfl ?_ hrun
  intro events m e m' hm hstep
  rw [List.filterMap_append]
  cases e with
  | round e =>
    obtain ⟨t, ht, rfl⟩ := Option.map_eq_some_iff.mp hstep
    exact Machine.run_concat_eq_some.mpr ⟨_, hm, ht⟩
  | join =>
    obtain ⟨-, rfl⟩ := Option.ite_some_none_eq_some.mp hstep
    rw [show [RelayEvent.join].filterMap RelayEvent.round? = [] from rfl, List.append_nil]
    exact hm

/-- Each direction of a relay runs as if it were alone. -/
theorem directions_of_run (hrun : Machine.run (Relay.step site) (.start site) events = some r) :
    Machine.run (ToLocal.step site) .start (RelayEvent.localRounds events) = some r.toLocal ∧
      Machine.run ToRemote.step .start (RelayEvent.remoteRounds events) = some r.toRemote :=
  Machine.run_beside_iff.mp (tasks_of_run hrun)

end Relay

/-! ## The pumps are relays -/

/-- The relay that a pump is. -/
def Pump.relay (p : Pump) : Relay :=
  ⟨⟨p.c2s, p.toSocket⟩, ⟨p.s2cDone, p.toChannel, p.eofSent⟩, p.returned⟩

def PumpEvent.relay : PumpEvent → RelayEvent
  | .fromChannel msg written => .round (.inl (msg, written))
  | .fromSocket read sent => .round (.inr (read, sent))
  | .join => .join

theorem relay_step {site : PumpSite} {p p' : Pump} {e : PumpEvent}
    (hstep : p.step site e = some p') :
    p.relay.step (.forwarded site) e.relay = some p'.relay := by
  cases e with
  | fromChannel msg written =>
    obtain ⟨hrunning, rfl⟩ := Option.ite_some_none_eq_some.mp hstep
    show (((if p.c2s = none then some _ else none : Option ToLocal).map _).map _) = _
    rw [if_pos hrunning]
    rcases msg with _ | msg
    · rfl
    · cases msg with
      | data bytes => cases written <;> rfl
      | _ => rfl
  | fromSocket read sent =>
    obtain ⟨hrunning, rfl⟩ := Option.ite_some_none_eq_some.mp hstep
    show (((if p.s2cDone = false then some _ else none : Option ToRemote).map _).map _) = _
    rw [if_pos hrunning]
    rcases read with e | _ | ⟨b, bytes⟩
    · rfl
    · rfl
    · cases sent <;> rfl
  | join =>
    obtain ⟨hends, rfl⟩ := Option.ite_some_none_eq_some.mp hstep
    exact if_pos hends

/-- Every run of a pump is a run of a relay. -/
theorem relay_of_pump {site : PumpSite} {p : Pump} {events : List PumpEvent}
    (hrun : Machine.run (Pump.step site) (.start site) events = some p) :
    Machine.run (Relay.step (.forwarded site)) (.start (.forwarded site))
      (events.map PumpEvent.relay) = some p.relay := by
  refine Machine.run_invariant (I := fun events p =>
    Machine.run (Relay.step (.forwarded site)) (.start (.forwarded site))
      (events.map PumpEvent.relay) = some p.relay) rfl ?_ hrun
  intro events m e m' hm hstep
  rw [List.map_append]
  exact Machine.run_concat_eq_some.mpr ⟨_, hm, relay_step hstep⟩

/-! ## The agent -/

/-- `server_channel_open_agent_forward` and the task that it starts: a channel that the server has
opened is dropped, or the local agent is dialled, or the two are joined by a relay. -/
inductive AgentForward where
  | dropped
  | connecting (sockPath : String)
  | pumping (relay : Relay)
deriving DecidableEq

/-- The end of `connect_agent_stream`, or something that the relay does. -/
inductive AgentEvent where
  | connected (answer : Except String Unit)
  | pump (e : RelayEvent)

namespace AgentForward

/-- Without a path the channel is accepted and closed. -/
def start : Option String → AgentForward
  | none => .dropped
  | some sockPath => .connecting sockPath

def step : AgentForward → AgentEvent → Option AgentForward
  | .connecting _, .connected (.ok _) => some (.pumping (.start .pumpAgentSocket))
  | .connecting _, .connected (.error _) => some .dropped
  | .pumping relay, .pump e => (relay.step .pumpAgentSocket e).map .pumping
  | _, _ => none

/-- What the server has been sent. -/
def sent : AgentForward → Bytes
  | .pumping relay => relay.toRemote.sent
  | _ => []

/-- What the local agent has been sent. -/
def written : AgentForward → Bytes
  | .pumping relay => relay.toLocal.written
  | _ => []

end AgentForward

def AgentEvent.pump? : AgentEvent → Option RelayEvent
  | .pump e => some e
  | .connected _ => none

/-- A channel that is dropped stays dropped. -/
theorem eq_nil_of_dropped {events : List AgentEvent} {a : AgentForward}
    (hrun : Machine.run AgentForward.step .dropped events = some a) :
    events = [] ∧ a = .dropped := by
  cases events with
  | nil => exact ⟨rfl, (Option.some.inj hrun).symm⟩
  | cons e events =>
    obtain ⟨m, hstep, -⟩ := Machine.run_cons_eq_some.mp hrun
    cases hstep

/-- Until there is a connection nothing is relayed, and then all that happens is the relay's. -/
theorem agent_of_run {sockPath : Option String} {events : List AgentEvent} {a : AgentForward}
    (hrun : Machine.run AgentForward.step (.start sockPath) events = some a) :
    (∀ relay, a = .pumping relay → Machine.run (Relay.step .pumpAgentSocket)
      (.start .pumpAgentSocket) (events.filterMap AgentEvent.pump?) = some relay) ∧
    ((∀ relay, a ≠ .pumping relay) → events.filterMap AgentEvent.pump? = []) := by
  refine Machine.run_invariant (I := fun events a =>
    (∀ relay, a = .pumping relay → Machine.run (Relay.step .pumpAgentSocket)
      (.start .pumpAgentSocket) (events.filterMap AgentEvent.pump?) = some relay) ∧
    ((∀ relay, a ≠ .pumping relay) → events.filterMap AgentEvent.pump? = [])) ?_ ?_ hrun
  · refine ⟨fun relay hpump => ?_, fun _ => rfl⟩
    cases sockPath <;> cases hpump
  · rintro events a e a' ⟨hpump, hidle⟩ hstep
    rw [List.filterMap_append]
    unfold AgentForward.step at hstep
    split at hstep
    · -- the relay starts
      obtain rfl := Option.some.inj hstep
      have hbefore := hidle fun _ h => by cases h
      refine ⟨fun relay hrelay => ?_, fun h => absurd rfl (h _)⟩
      cases hrelay
      rw [hbefore]
      rfl
    · obtain rfl := Option.some.inj hstep
      have hbefore := hidle fun _ h => by cases h
      exact ⟨fun _ h => (by cases h), fun _ => by rw [hbefore]; rfl⟩
    · next relay e =>
      obtain ⟨relay', hrelay', rfl⟩ := Option.map_eq_some_iff.mp hstep
      refine ⟨fun _ h => ?_, fun h => absurd rfl (h _)⟩
      cases h
      exact Machine.run_concat_eq_some.mpr ⟨relay, hpump relay rfl, hrelay'⟩
    · cases hstep

/-- The user has asked for the agent to be forwarded, and has one. -/
structure ForwardsAgent (ctx : Surroundings) (cli : Cli) : Prop where
  asked : cli.forwardAgent = true
  notRefused : cli.noForwardAgent = false
  sock : ∃ path, path ≠ "" ∧ ctx.envVar "SSH_AUTH_SOCK" = some path

theorem forwardsAgent_of_sockPath {ctx : Surroundings} {cli : Cli}
    (h : agentSockPath ctx cli ≠ none) : ForwardsAgent ctx cli := by
  unfold agentSockPath at h
  split at h
  · exact absurd rfl h
  next hallowed =>
  split at h
  · next hasked =>
    obtain ⟨path, hpath⟩ := Option.ne_none_iff_exists'.mp h
    obtain ⟨hvar, hne⟩ := Option.filter_eq_some_iff.mp hpath
    exact ⟨hasked, by simpa using hallowed, path, by simpa using hne, hvar⟩
  · exact absurd rfl h

/-- **The local agent** is dialled only for a user who has asked for it and has one; then what the
server is sent is the front of what the agent says, and what the agent is sent the front of what
comes on the channel. -/
theorem agent_forward_exact {ctx : Surroundings} {cli : Cli} {events : List AgentEvent}
    {a : AgentForward}
    (hrun : Machine.run AgentForward.step (.start (agentSockPath ctx cli)) events = some a) :
    a.sent <+: readOff (RelayEvent.remoteRounds (events.filterMap AgentEvent.pump?)) ∧
    a.written <+: received (RelayEvent.localRounds (events.filterMap AgentEvent.pump?)) ∧
    (events ≠ [] ∨ a ≠ .dropped → ForwardsAgent ctx cli) := by
  obtain ⟨hpump, -⟩ := agent_of_run hrun
  have hasked : events ≠ [] ∨ a ≠ .dropped → ForwardsAgent ctx cli := by
    intro hdone
    refine forwardsAgent_of_sockPath fun hnone => ?_
    rw [hnone] at hrun
    obtain ⟨hevents, ha⟩ := eq_nil_of_dropped hrun
    exact hdone.elim (fun h => h hevents) fun h => h ha
  cases a with
  | dropped => exact ⟨List.nil_prefix, List.nil_prefix, hasked⟩
  | connecting sockPath => exact ⟨List.nil_prefix, List.nil_prefix, hasked⟩
  | pumping relay =>
    obtain ⟨hlocal, hremote⟩ := directions_of_run (hpump relay rfl)
    exact ⟨(sent_of_run hremote).1, (written_of_run rfl hlocal).1, hasked⟩

/-- `-A`, with an agent. -/
def agentCli : Cli := { Cli.ofCommand ["uptime"] with forwardAgent := true }

def agentSurroundings : Surroundings :=
  { bareSurroundings with
    envVar := fun name => if name = "SSH_AUTH_SOCK" then some "/agent" else none }

def agentEvents : List AgentEvent :=
  [.connected (.ok ()), .pump (.round (.inl (some (.data [11]), true))),
    .pump (.round (.inr (.ok [12, 0], true)))]

/-- Where they lead. -/
def agentRelay : Relay := ⟨⟨none, [11]⟩, ⟨false, [12, 0], false⟩, true⟩

theorem agent_forward_exact_request :
    [12, 0] <+: readOff (RelayEvent.remoteRounds (agentEvents.filterMap AgentEvent.pump?)) ∧
    [11] <+: received (RelayEvent.localRounds (agentEvents.filterMap AgentEvent.pump?)) ∧
    (agentEvents ≠ [] ∨ AgentForward.pumping agentRelay ≠ .dropped →
      ForwardsAgent agentSurroundings agentCli) := by
  have hrun : Machine.run AgentForward.step (.start (agentSockPath agentSurroundings agentCli))
      agentEvents = some (.pumping agentRelay) := by
    decide
  exact agent_forward_exact hrun

end Passhrs
