import Passhrs.Forward.Proxy
import Passhrs.Forward.Pump
import Passhrs.Run.Cli

/-!
# The accept loops

The loops of `-L`, `-D` and `-H`, once they listen. Each of them serves the client that it has
accepted to the end before it comes back to `listener.accept()`: the handshake, the channel, and the
whole life of the tunnel. Each operation for the client and each round of its pump is one step.

* **`acceptEnabled_always_iff`**: an accept is enabled throughout a run exactly when the run accepts
  no client at all.
-/

namespace Passhrs

open Effects

/-! ## The loop -/

/-- The functions with an accept loop, and the specs that they are called with. -/
inductive ForwardSite where
  | localPortForward (spec : ForwardSpec)
  | socksProxyForward (spec : DynamicForwardSpec)
  | httpConnectForward (spec : DynamicForwardSpec)

/-- What a loop does for a client. -/
def ForwardSite.connection : ForwardSite → ConnM Unit
  | .localPortForward spec =>
    localPortConnection spec.targetHost spec.targetPort spec.bindAddr spec.bindPort
  | .socksProxyForward _ => handleSocksConnection
  | .httpConnectForward _ => httpConnectHandleOne

def ForwardSite.pumpSite : ForwardSite → PumpSite
  | .localPortForward _ => .localPortForward
  | .socksProxyForward _ => .handleSocksConnection
  | .httpConnectForward _ => .tunnelForward

/-- A function that listens: at its `accept`, at what is left to do for a client, or returned, with
its listener closed. -/
inductive ForwardLoop where
  | accepting
  | serving (rest : Prog ConnOp ConnOp.Res (Except String Unit)) (pump : Pump)
  | returned (error : String)

/-- A client is accepted, or the accept fails; the next operation for the client is answered; a
round of its pump. -/
inductive ForwardEvent where
  | accept
  | acceptFails (error : String)
  | answer (answer : (op : ConnOp) → op.Res)
  | pump (e : PumpEvent)

/-- A client is served to the end, whatever the result, and the loop goes round. -/
def ForwardLoop.resume (pump : Pump) : Prog ConnOp ConnOp.Res (Except String Unit) → ForwardLoop
  | .pure _ => .accepting
  | rest => .serving rest pump

/-- A step of the pump of `rest`, which goes on when the `join!` ends. -/
def ForwardLoop.stepPump (site : PumpSite) (pump : Pump)
    (rest : Prog ConnOp ConnOp.Res (Except String Unit))
    (next : Unit → Prog ConnOp ConnOp.Res (Except String Unit)) (e : PumpEvent) :
    Option ForwardLoop :=
  match pump.step site e with
  | none => none
  | some pump' => some (if pump'.returned then .resume pump' (next ()) else .serving rest pump')

def ForwardLoop.step (site : ForwardSite) : ForwardLoop → ForwardEvent → Option ForwardLoop
  | .accepting, .accept => some (.resume (.start site.pumpSite) site.connection.run)
  | .accepting, .acceptFails e => some (.returned e)
  | .serving (.op .pump next) pump, .pump e =>
    ForwardLoop.stepPump site.pumpSite pump (.op .pump next) next e
  | .serving (.op .pump _) _, .answer _ => none
  | .serving (.op op next) pump, .answer answer => some (.resume pump (next (answer op)))
  | _, _ => none

/-! ## When a client is accepted -/

/-- As long as the function listens, it can accept the next client. -/
def AcceptEnabled (site : ForwardSite) (s : ForwardLoop) : Prop :=
  (∀ error, s ≠ .returned error) → ∃ s', s.step site .accept = some s'

section Steps

variable {site : ForwardSite} {s s' : ForwardLoop}

/-- A loop that serves a client accepts no other. -/
theorem not_acceptEnabled_serving {rest : Prog ConnOp ConnOp.Res (Except String Unit)}
    {pump : Pump} : ¬ AcceptEnabled site (.serving rest pump) := by
  intro henabled
  obtain ⟨s', hstep⟩ := henabled fun error h => by cases h
  cases rest with
  | pure a => cases hstep
  | op op next => cases op <;> cases hstep

/-- There is something to do for every client, so that the loop is busy with it. -/
theorem resume_connection (site : ForwardSite) (pump : Pump) :
    ∃ rest, ForwardLoop.resume pump site.connection.run = .serving rest pump := by
  cases site with
  | localPortForward spec | socksProxyForward spec | httpConnectForward spec => exact ⟨_, rfl⟩

/-- **What it takes for a step** to leave the loop ready for the next client. -/
theorem acceptEnabled_step_iff {e : ForwardEvent} (hs : AcceptEnabled site s)
    (hstep : s.step site e = some s') : AcceptEnabled site s' ↔ e ≠ .accept := by
  cases s with
  | accepting =>
    cases e with
    | accept =>
      obtain ⟨rest, hrest⟩ := resume_connection site (.start site.pumpSite)
      obtain rfl := Option.some.inj hstep
      rw [hrest]
      exact iff_of_false not_acceptEnabled_serving fun h => h rfl
    | acceptFails error =>
      obtain rfl := Option.some.inj hstep
      exact iff_of_true (fun h => absurd rfl (h error)) (by simp)
    | answer _ | pump _ => cases hstep
  | serving rest pump => exact absurd hs not_acceptEnabled_serving
  | returned error => cases e <;> cases hstep

end Steps

/-- **An accept is enabled throughout a run exactly when** the run accepts no client: from the first
one on, the loop is busy until it has served it. -/
theorem acceptEnabled_always_iff {site : ForwardSite} {events : List ForwardEvent}
    {s : ForwardLoop} (hrun : Machine.run (ForwardLoop.step site) .accepting events = some s) :
    Machine.Always (ForwardLoop.step site) (AcceptEnabled site) .accepting events ↔
      Machine.EachStep (ForwardLoop.step site) (fun _ e => e ≠ .accept) .accepting events := by
  refine Machine.always_iff_eachStep (I := fun _ => True) trivial (fun _ => ⟨_, rfl⟩)
    (fun _ _ _ _ _ => trivial) (fun s e s' _ hs hstep => acceptEnabled_step_iff hs hstep) hrun

/-- In every loop, a client that has just connected keeps the next one out. -/
theorem accept_not_enabled :
    ¬ ∃ site : ForwardSite, ∀ (events : List ForwardEvent) (s : ForwardLoop),
      Machine.run (ForwardLoop.step site) .accepting events = some s → AcceptEnabled site s := by
  rintro ⟨site, hall⟩
  obtain ⟨rest, hrest⟩ := resume_connection site (.start site.pumpSite)
  have hrun : Machine.run (ForwardLoop.step site) .accepting [.accept]
      = some (.resume (.start site.pumpSite) site.connection.run) := rfl
  rw [hrest] at hrun
  exact not_acceptEnabled_serving (hall [.accept] _ hrun)

/-- Every read fails, and everything else succeeds. -/
def hungUp : (op : ConnOp) → op.Res
  | .readExact _ | .read _ => .error "early eof"
  | .shutdown | .pump => ()
  | .writeAll _ | .channelOpenDirectTcpip _ _ _ _ => .ok ()

theorem acceptEnabled_always_hungUp :
    Machine.Always (ForwardLoop.step (.socksProxyForward ⟨"127.0.0.1", 1080⟩))
        (AcceptEnabled (.socksProxyForward ⟨"127.0.0.1", 1080⟩)) .accepting
        [.accept, .answer hungUp, .accept] ↔
      Machine.EachStep (ForwardLoop.step (.socksProxyForward ⟨"127.0.0.1", 1080⟩))
        (fun _ e => e ≠ .accept) .accepting [.accept, .answer hungUp, .accept] :=
  acceptEnabled_always_iff rfl

end Passhrs
