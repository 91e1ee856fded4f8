import Passhrs.Lib.Machine
import Passhrs.Ssh.Channel

/-!
# The pumps

A forwarded connection is two tasks between an SSH channel and a TCP socket. `c2s` owns the write
half of the socket and writes what the channel delivers; `s2c` owns the read half and sends what it
reads. Neither shuts its half down: the socket is shut when both tasks have ended and both halves
are dropped. Each round of one of the loops is one step, and a run is a list of steps.

* **`peerSeesEnd_always_iff`**: whenever the SSH side has ended its direction the socket is shut,
  throughout a run, exactly when the run takes EOF or CLOSE from the channel only after `s2c` has
  ended.
* **`writeShut_of_returned`**: a function that waits for its pump returns with the socket shut.
* **`toChannel_eq`**: the channel gets what is read from the socket.
-/

namespace Passhrs

/-- The functions with a pump. Their loops are the same text. -/
inductive PumpSite where
  | localPortForward
  | handleSocksConnection
  | tunnelForward
  | serverChannelOpenForwardedTcpip
deriving DecidableEq

/-- `tokio::join!(c2s, s2c)`. The callback of `-R` drops the handles instead. -/
def PumpSite.joins : PumpSite → Bool
  | .localPortForward | .handleSocksConnection | .tunnelForward => true
  | .serverChannelOpenForwardedTcpip => false

/-- What made `c2s` leave its loop. -/
inductive ChannelEnd where
  | eof
  | close
  | noSender
  | writeError
deriving DecidableEq

structure Pump where
  /-- How `c2s` has ended, if it has. -/
  c2s : Option ChannelEnd
  s2cDone : Bool
  toSocket : Bytes
  toChannel : Bytes
  /-- `ctx.eof()` was called. -/
  eofSent : Bool
  /-- The function that started the pump has returned. -/
  returned : Bool
deriving DecidableEq

def Pump.start (site : PumpSite) : Pump := ⟨none, false, [], [], false, !site.joins⟩

/-- A round of `c2s`, with the result of `crx.wait()` and whether a write succeeds; one of `s2c`,
with the result of the read and whether the channel takes the data; the end of the `join!`. -/
inductive PumpEvent where
  | fromChannel (msg : Option ChannelMsg) (written : Bool)
  | fromSocket (read : Except String Bytes) (sent : Bool)
  | join

/-- What a round of `c2s` makes of a message. -/
def Pump.deliver (p : Pump) (written : Bool) : Option ChannelMsg → Pump
  | some (.data bytes) =>
    if written then { p with toSocket := p.toSocket ++ bytes }
    else { p with c2s := some .writeError }
  | some .eof => { p with c2s := some .eof }
  | some .close => { p with c2s := some .close }
  | none => { p with c2s := some .noSender }
  | some _ => p

/-- What a round of `s2c` makes of a read. -/
def Pump.send (p : Pump) (sent : Bool) : Except String Bytes → Pump
  | .ok [] => { p with eofSent := true, s2cDone := true }
  | .ok bytes =>
    if sent then { p with toChannel := p.toChannel ++ bytes } else { p with s2cDone := true }
  | .error _ => { p with s2cDone := true }

def Pump.step (site : PumpSite) (p : Pump) : PumpEvent → Option Pump
  | .fromChannel msg written => if p.c2s = none then some (p.deliver written msg) else none
  | .fromSocket read sent => if p.s2cDone = false then some (p.send sent read) else none
  | .join =>
    if site.joins = true ∧ p.c2s ≠ none ∧ p.s2cDone = true ∧ p.returned = false then
      some { p with returned := true }
    else none

/-- Both halves of the socket are dropped, which shuts it. -/
def Pump.WriteShut (p : Pump) : Prop := p.c2s ≠ none ∧ p.s2cDone = true

/-- When the SSH side has ended its direction, the peer on the socket sees the end of the stream. -/
def Pump.PeerSeesEnd (p : Pump) : Prop :=
  p.c2s = some .eof ∨ p.c2s = some .close → p.WriteShut

/-- The end of the channel's direction is taken after the end of the socket's. -/
def EndsLast (p : Pump) : PumpEvent → Prop
  | .fromChannel (some .eof) _ | .fromChannel (some .close) _ => p.s2cDone = true
  | _ => True

section Steps

variable {site : PumpSite} {p p' : Pump}

theorem deliver_returned (p : Pump) (written : Bool) (msg : Option ChannelMsg) :
    (p.deliver written msg).returned = p.returned := by
  rcases msg with _ | msg
  · rfl
  · cases msg with
    | data bytes => cases written <;> rfl
    | _ => rfl

theorem deliver_toChannel (p : Pump) (written : Bool) (msg : Option ChannelMsg) :
    (p.deliver written msg).toChannel = p.toChannel := by
  rcases msg with _ | msg
  · rfl
  · cases msg with
    | data bytes => cases written <;> rfl
    | _ => rfl

/-- `s2c` has no part in what the other task and the function that started both do. -/
theorem send_eq (p : Pump) (sent : Bool) (read : Except String Bytes) :
    (p.send sent read).c2s = p.c2s ∧ (p.send sent read).returned = p.returned := by
  rcases read with e | _ | ⟨b, bytes⟩
  · exact ⟨rfl, rfl⟩
  · exact ⟨rfl, rfl⟩
  · cases sent <;> exact ⟨rfl, rfl⟩

/-- **What it takes for a step** to keep the peer informed. -/
theorem peerSeesEnd_step_iff {e : PumpEvent} (hp : p.PeerSeesEnd)
    (hstep : p.step site e = some p') : p'.PeerSeesEnd ↔ EndsLast p e := by
  cases e with
  | fromChannel msg written =>
    obtain ⟨hrunning, rfl⟩ := Option.ite_some_none_eq_some.mp hstep
    unfold Pump.PeerSeesEnd Pump.WriteShut
    rcases msg with _ | msg
    · simp [Pump.deliver, EndsLast]
    · cases msg with
      | data bytes => cases written <;> simp [Pump.deliver, EndsLast, hrunning]
      | eof => simp [Pump.deliver, EndsLast]
      | close => simp [Pump.deliver, EndsLast]
      | extendedData _ _ | exitStatus _ | success | failure | other =>
        simp [Pump.deliver, EndsLast, hrunning]
  | fromSocket read sent =>
    obtain ⟨hrunning, rfl⟩ := Option.ite_some_none_eq_some.mp hstep
    -- the channel's direction had not been ended by the SSH side
    have hopen : ¬ (p.c2s = some .eof ∨ p.c2s = some .close) := fun hended => by
      rw [(hp hended).2] at hrunning
      cases hrunning
    refine iff_of_true (fun hended => ?_) trivial
    rw [(send_eq p sent read).1] at hended
    exact absurd hended hopen
  | join =>
    obtain ⟨-, rfl⟩ := Option.ite_some_none_eq_some.mp hstep
    exact iff_of_true hp trivial

end Steps

/-- **The peer sees the end whenever the SSH side has ended its direction, throughout a run, exactly
when** the run takes EOF or CLOSE from the channel only once the socket's direction has ended. -/
theorem peerSeesEnd_always_iff {site : PumpSite} {events : List PumpEvent} {p : Pump}
    (hrun : Machine.run (Pump.step site) (.start site) events = some p) :
    Machine.Always (Pump.step site) Pump.PeerSeesEnd (.start site) events ↔
      Machine.EachStep (Pump.step site) EndsLast (.start site) events := by
  refine Machine.always_iff_eachStep (I := fun _ => True) trivial ?_ (fun _ _ _ _ _ => trivial)
    (fun p e p' _ hp hstep => peerSeesEnd_step_iff hp hstep) hrun
  rintro (h | h)
  · cases h
  · cases h

/-- A function that joins its pump is there as long as the socket is not shut. -/
theorem writeShut_of_returned {site : PumpSite} (hjoins : site.joins = true)
    {events : List PumpEvent} {p : Pump}
    (hrun : Machine.run (Pump.step site) (.start site) events = some p)
    (hreturned : p.returned = true) : p.WriteShut := by
  refine Machine.run_invariant (I := fun _ p => p.returned = true → p.WriteShut) ?_ ?_ hrun
    hreturned
  · intro hstart
    simp [Pump.start, hjoins] at hstart
  · intro _ p e p' hp hstep hreturned'
    cases e with
    | fromChannel msg written =>
      obtain ⟨hrunning, rfl⟩ := Option.ite_some_none_eq_some.mp hstep
      rw [deliver_returned] at hreturned'
      exact absurd hrunning (hp hreturned').1
    | fromSocket read sent =>
      obtain ⟨hrunning, rfl⟩ := Option.ite_some_none_eq_some.mp hstep
      rw [(send_eq p sent read).2] at hreturned'
      rw [(hp hreturned').2] at hrunning
      cases hrunning
    | join =>
      obtain ⟨⟨-, hc2s, hs2c, -⟩, rfl⟩ := Option.ite_some_none_eq_some.mp hstep
      exact ⟨hc2s, hs2c⟩

/-- What a round reads from the socket. -/
def PumpEvent.socketRead : PumpEvent → Option Bytes
  | .fromSocket (.ok bytes) _ => some bytes
  | _ => none

/-- While the channel takes everything, it gets what is read from the socket, in order. -/
theorem toChannel_eq {site : PumpSite} {events : List PumpEvent} {p : Pump}
    (hsent : ∀ read, .fromSocket read false ∉ events)
    (hrun : Machine.run (Pump.step site) (.start site) events = some p) :
    p.toChannel = (events.filterMap PumpEvent.socketRead).flatten := by
  refine Machine.run_invariant (I := fun events p => (∀ read, .fromSocket read false ∉ events) →
    p.toChannel = (events.filterMap PumpEvent.socketRead).flatten) (fun _ => rfl) ?_ hrun hsent
  intro events p e p' hp hstep hsent
  have hp := hp fun read hmem => hsent read (List.mem_append_left _ hmem)
  rw [List.filterMap_append, List.flatten_append, ← hp]
  cases e with
  | fromChannel msg written =>
    obtain ⟨-, rfl⟩ := Option.ite_some_none_eq_some.mp hstep
    rw [deliver_toChannel]
    exact (List.append_nil _).symm
  | fromSocket read sent =>
    obtain ⟨-, rfl⟩ := Option.ite_some_none_eq_some.mp hstep
    rcases sent with _ | _
    -- every send goes through
    · exact absurd (List.mem_append_right _ (List.mem_singleton_self _)) (hsent read)
    · rcases read with e | _ | ⟨b, bytes⟩
      · exact (List.append_nil _).symm
      · exact (List.append_nil _).symm
      · exact congrArg (p.toChannel ++ ·) (List.append_nil (b :: bytes)).symm
  | join =>
    obtain ⟨-, rfl⟩ := Option.ite_some_none_eq_some.mp hstep
    exact (List.append_nil _).symm

/-- At none of the sites is the peer told when the SSH side ends first. -/
theorem peer_not_told :
    ¬ ∃ site : PumpSite, ∀ (events : List PumpEvent) (p : Pump),
      Machine.run (Pump.step site) (.start site) events = some p → p.PeerSeesEnd := by
  rintro ⟨site, hall⟩
  have hsees := hall [.fromChannel (some .eof) true]
    ⟨some .eof, false, [], [], false, !site.joins⟩ rfl
  obtain ⟨-, hdone⟩ := hsees (.inl rfl)
  cases hdone

theorem peer_told_after_socket_end :
    Machine.Always (Pump.step .tunnelForward) Pump.PeerSeesEnd (.start .tunnelForward)
        [.fromSocket (.ok [1]) true, .fromSocket (.ok []) true, .fromChannel (some .eof) true,
          .join] ↔
      Machine.EachStep (Pump.step .tunnelForward) EndsLast (.start .tunnelForward)
        [.fromSocket (.ok [1]) true, .fromSocket (.ok []) true, .fromChannel (some .eof) true,
          .join] :=
  peerSeesEnd_always_iff rfl

end Passhrs
