import Passhrs.Lib.Monitor
import Passhrs.Run.Main

/-!
# The protocol of a run

What a run of passhrs is to the servers that it deals with, in its own terms: a machine that goes
from one phase to the next with each operation that succeeds. Nothing of the command line is in it.
It says in which order things may happen, and where a run may end. The request for a command, a
shell, a terminal or a subsystem succeeds when it is sent: what the server makes of it comes in the
session.

* **`run_follows_protocol`**: every run is a run of this machine, whatever the servers answer.
* **`run_starts_once`**: so at most one program is asked for, on an authenticated connection to the
  target, and nothing but its session follows.
-/

namespace Passhrs

open Effects

/-! ## The machine -/

/-- How far a run has come. -/
inductive Phase where
  | offline
  /-- A TCP connection to the jump host. -/
  | atJump
  /-- An SSH connection to the jump host. -/
  | onJump
  | loggedInOnJump
  /-- A channel from the jump host to the target. -/
  | tunnelled
  /-- An SSH connection to the target. -/
  | connected
  | loggedIn
  /-- A session channel on which nothing runs. -/
  | channelOpen (terminal : Bool)
  /-- The SFTP subsystem is asked for. -/
  | subsystem
  /-- An SFTP session. -/
  | transferring
  | forwarding
  /-- A channel for `-W`. -/
  | streamOpen
  /-- A command or a shell is asked for on the session channel. -/
  | requested
  /-- The session has ended with this code. -/
  | ended (code : Int32)
  /-- A master has exited, or the streams of `-W` have ended. -/
  | closed
  /-- A call has failed that a run does not go on without. -/
  | failed
deriving DecidableEq

namespace Phase

/-- The phase after an answer that decides. -/
def after (next : Phase) : Except String Unit → Phase
  | .ok _ => next
  | .error _ => .failed

/-- The phase after the answer to `runSession`. -/
def afterSession : Except String Int32 → Phase
  | .ok code => .ended code
  | .error _ => .failed

/-- A run that has nothing open for itself may wait here, return, or find fault with an option. -/
def Idle : Phase → Prop
  | .loggedIn | .transferring | .forwarding => True
  | _ => False

def step : Monitor RunOp RunOp.Res Phase
  | .offline, ⟨.connectWithBind _ _ _ _ _ _, r⟩ => some (after .connected r)
  | .offline, ⟨.connectTcp _, r⟩ => some (after .atJump r)
  | .atJump, ⟨.connectJump _ _, r⟩ => some (after .onJump r)
  | .onJump, ⟨.authenticate .jump _ _ _ _, r⟩ => some (after .loggedInOnJump r)
  | .loggedInOnJump, ⟨.openTunnel _ _, r⟩ => some (after .tunnelled r)
  | .tunnelled, ⟨.connectTunnel _ _, r⟩ => some (after .connected r)
  | .connected, ⟨.authenticate .target _ _ _ _, r⟩ => some (after .loggedIn r)
  | .loggedIn, ⟨.runMaster _, r⟩ => some (after .closed r)
  -- transfers come first, then the forwards, then what a run is for
  | .loggedIn, ⟨.openSession, r⟩ | .transferring, ⟨.openSession, r⟩
  | .forwarding, ⟨.openSession, r⟩ => some (after (.channelOpen false) r)
  | .channelOpen false, ⟨.requestSubsystem _, r⟩ => some (after .subsystem r)
  | .subsystem, ⟨.initSftp, r⟩ => some (after .transferring r)
  | .transferring, ⟨.pushPath _ _, r⟩ | .transferring, ⟨.pullPath _ _, r⟩
  | .transferring, ⟨.rsyncUpload _ _ _, r⟩ => some (after .transferring r)
  | .loggedIn, ⟨.spawnForwards _, _⟩ | .transferring, ⟨.spawnForwards _, _⟩
  | .forwarding, ⟨.spawnForwards _, _⟩ => some .forwarding
  | .loggedIn, ⟨.tcpipForward _ _, _⟩ | .transferring, ⟨.tcpipForward _ _, _⟩
  | .forwarding, ⟨.tcpipForward _ _, _⟩ => some .forwarding
  | .loggedIn, ⟨.openDirectTcpip _ _, r⟩ | .forwarding, ⟨.openDirectTcpip _ _, r⟩ =>
    some (after .streamOpen r)
  | .streamOpen, ⟨.pumpStdio, _⟩ => some .closed
  | .channelOpen terminal, ⟨.agentForward, _⟩ | .channelOpen terminal, ⟨.setEnv _ _, _⟩ =>
    some (.channelOpen terminal)
  | .channelOpen false, ⟨.requestPty, r⟩ => some (after (.channelOpen true) r)
  | .channelOpen _, ⟨.exec _, r⟩ | .channelOpen _, ⟨.requestShell, r⟩ => some (after .requested r)
  | .requested, ⟨.runSession, r⟩ => some (afterSession r)
  | _, _ => none

/-- Where a run may end, by how it ends. -/
def Ends : Except String Ending → Phase → Prop
  | .ok (.exited code), phase => phase = .ended code
  | .ok .returned, phase => phase = .closed ∨ phase.Idle
  | .ok .waits, phase => phase.Idle ∨ ∃ terminal, phase = .channelOpen terminal
  | .error _, phase => phase = .failed ∨ phase = .offline ∨ phase.Idle

end Phase

/-! ## What the machine promises -/

/-- A command or a shell is asked for. -/
def Requested (e : (op : RunOp) × op.Res) : Prop :=
  (∃ command, e = ⟨.exec command, .ok ()⟩) ∨ e = ⟨.requestShell, .ok ()⟩

/-- The target accepts the user. -/
def LoginGranted (e : (op : RunOp) × op.Res) : Prop :=
  ∃ user identityFile password passphrase,
    e = ⟨.authenticate .target user identityFile password passphrase, .ok ()⟩

/-- Before the login, up to the request for a program, and after. -/
def Phase.stage : Phase → Nat
  | .offline | .atJump | .onJump | .loggedInOnJump | .tunnelled | .connected => 0
  | .loggedIn | .channelOpen _ | .subsystem | .transferring | .forwarding | .streamOpen => 1
  | .requested | .ended _ | .closed | .failed => 2

section Machine

variable {t u : Phase} {e : (op : RunOp) × op.Res} {events pre post : List ((op : RunOp) × op.Res)}

/-- A step never goes back to an earlier stage, and it takes a login to get to the second and a
request for a program, an end or a failure to get to the third. -/
theorem step_stage (hstep : t.step e = some u) :
    t.stage ≤ u.stage ∧ (Requested e → t.stage = 1 ∧ u = .requested) ∧
      (t.stage = 0 → u.stage = 1 → LoginGranted e) := by
  unfold Phase.step at hstep
  split at hstep
  all_goals first
    | (cases hstep; done)
    | (obtain rfl := Option.some.inj hstep
       next r => cases r <;>
        simp [Phase.stage, Phase.after, Phase.afterSession, Requested, LoginGranted])

theorem stage_of_run (hrun : Machine.run Phase.step .offline events = some t) :
    (t.stage ≤ 1 → ∀ e ∈ events, ¬ Requested e) ∧ (t.stage = 1 → ∃ e ∈ events, LoginGranted e) := by
  refine Machine.run_invariant (I := fun events t => (t.stage ≤ 1 → ∀ e ∈ events, ¬ Requested e) ∧
    (t.stage = 1 → ∃ e ∈ events, LoginGranted e))
    ⟨fun _ _ hmem => absurd hmem List.not_mem_nil, fun h => by cases h⟩ ?_ hrun
  rintro events t e u ⟨hnone, hlogin⟩ hstep
  obtain ⟨hle, hstarts, hlogs⟩ := step_stage hstep
  constructor
  · intro hu e' hmem
    rcases List.mem_append.mp hmem with hmem | hmem
    · exact hnone (by omega) e' hmem
    · rw [List.mem_singleton.mp hmem]
      intro hstarted
      rw [(hstarts hstarted).2] at hu
      exact absurd hu (by decide)
  · intro hu
    by_cases ht : t.stage = 1
    · obtain ⟨e', hmem, hgranted⟩ := hlogin ht
      exact ⟨e', List.mem_append_left _ hmem, hgranted⟩
    -- the stage has just been reached, by this login
    · exact ⟨e, List.mem_append_right _ (List.mem_singleton_self e), hlogs (by omega) hu⟩

/-- Once a program is asked for there is its session, and nothing after that. -/
theorem eq_runSession_of_run (hrun : Machine.run Phase.step .requested events = some t)
    (ht : t ≠ .requested) : ∃ r, events = [⟨.runSession, r⟩] := by
  cases events with
  | nil => exact absurd (Option.some.inj hrun).symm ht
  | cons e rest =>
    obtain ⟨u, hstep, hrest⟩ := Machine.run_cons_eq_some.mp hrun
    have hsession : ∃ r, e = ⟨.runSession, r⟩ ∧ u = .afterSession r := by
      unfold Phase.step at hstep
      split at hstep
      all_goals first
        | (cases hstep; done)
        | exact ⟨_, rfl, (Option.some.inj hstep).symm⟩
        | next hphase => cases hphase
    obtain ⟨r, rfl, rfl⟩ := hsession
    cases rest with
    | nil => exact ⟨r, rfl⟩
    | cons e' rest =>
      obtain ⟨u', hstep', -⟩ := Machine.run_cons_eq_some.mp hrest
      cases r <;> cases hstep'

/-- In a run that does not stop before the session, a program is asked for once at most, after a
login, and its session is the last thing. -/
theorem starts_once_of_run (hrun : Machine.run Phase.step .offline (pre ++ e :: post) = some t)
    (ht : t ≠ .requested) (he : Requested e) :
    (∃ e' ∈ pre, LoginGranted e') ∧ (∀ e' ∈ pre, ¬ Requested e') ∧
      ∃ r, post = [⟨.runSession, r⟩] := by
  obtain ⟨m, hpre, hrest⟩ := Machine.run_append_eq_some.mp hrun
  obtain ⟨m', hstep, hpost⟩ := Machine.run_cons_eq_some.mp hrest
  obtain ⟨hstage, rfl⟩ := (step_stage hstep).2.1 he
  obtain ⟨hnone, hlogin⟩ := stage_of_run hpre
  exact ⟨hlogin hstage, hnone (by omega), eq_runSession_of_run hpost ht⟩

end Machine

/-! ## Every part of a run follows it -/

section Parts

variable {ctx : Surroundings} {cli : Cli} {st : Settings} {α β : Type} {t u : Phase}

/-- Where a run may end with an error. -/
def Phase.Fails (e : String) (t : Phase) : Prop := t.Ends (.error e)

/-- The phase behind an answer that is read as it is. -/
theorem after_id (u : Phase) (r : Except String Unit) :
    ∃ t, some (Phase.after u r) = some t ∧ (∀ a, id r = .ok a → t = u) ∧
      ∀ e, id r = .error e → t = .failed := by
  cases r with
  | ok => exact ⟨_, rfl, fun _ _ => rfl, fun _ h => by cases h⟩
  | error => exact ⟨_, rfl, fun _ h => (by cases h), fun _ _ => rfl⟩

theorem after_context (u : Phase) (message : String) (r : Except String Unit) :
    ∃ t, some (Phase.after u r) = some t ∧ (∀ a, context message r = .ok a → t = u) ∧
      ∀ e, context message r = .error e → t = .failed := by
  cases r with
  | ok => exact ⟨_, rfl, fun _ _ => rfl, fun _ h => by cases h⟩
  | error => exact ⟨_, rfl, fun _ h => (by cases h), fun _ _ => rfl⟩

/-- An operation that a run does not go on without. -/
theorem obeys_ask {op : RunOp} {k : op.Res → Except String Unit}
    (h : ∀ r, ∃ t', Phase.step t ⟨op, r⟩ = some t' ∧ (∀ a, k r = .ok a → t' = u) ∧
      ∀ e, k r = .error e → t' = .failed) :
    Obeys Phase.step (fun _ t => t = u) Phase.Fails (call op k : RunM Unit) t :=
  (obeys_call h).mono (fun _ _ h => h) fun _ _ h => .inl h

/-- An operation whose answer a run is content with. -/
theorem obeys_tell {op : RunOp} (h : ∀ r, Phase.step t ⟨op, r⟩ = some u) :
    Obeys Phase.step (fun _ t => t = u) Phase.Fails (call op .ok : RunM op.Res) t :=
  obeys_call fun r => ⟨u, h r, fun _ _ => rfl, fun _ he => by cases he⟩

theorem obeys_next {Q : β → Phase → Prop} {x : RunM α} {g : α → RunM β}
    (hx : Obeys Phase.step (fun _ t => t = u) Phase.Fails x t)
    (hg : ∀ a, Obeys Phase.step Q Phase.Fails (g a) u) :
    Obeys Phase.step Q Phase.Fails (x >>= g) t :=
  obeys_bind hx fun a _ ht => ht ▸ hg a

/-- An option is parsed where that may fail. -/
theorem obeys_parse {Q : β → Phase → Prop} {r : Except String α} {g : α → RunM β}
    (ht : t = .offline ∨ t.Idle) (hg : ∀ a, r = .ok a → Obeys Phase.step Q Phase.Fails (g a) t) :
    Obeys Phase.step Q Phase.Fails (ofResult r >>= g) t :=
  obeys_bind (Q := fun a t' => r = .ok a ∧ t' = t)
    (obeys_ofResult (fun _ ha => ⟨ha, rfl⟩) fun _ _ => .inr ht)
    fun a _ ha => ha.2 ▸ hg a ha.1

theorem obeys_login :
    Obeys Phase.step (fun _ t => t = .loggedIn) Phase.Fails (login ctx cli st) .offline := by
  unfold login
  split
  · exact obeys_throw (.inr (.inl rfl))
  refine obeys_next (u := .connected) ?_ fun _ => obeys_ask (after_id .loggedIn)
  unfold connect
  refine obeys_parse (.inl rfl) fun prefs _ => ?_
  split
  · unfold connectThroughJump
    refine obeys_parse (.inl rfl) fun jump _ => ?_
    exact obeys_next (obeys_ask (after_context .atJump _)) fun _ =>
      obeys_next (obeys_ask (after_context .onJump _)) fun _ =>
      obeys_next (obeys_ask (after_context .loggedInOnJump _)) fun _ =>
      obeys_next (obeys_ask (after_context .tunnelled _)) fun _ =>
      obeys_ask (after_context .connected _)
  · exact obeys_ask (after_id .connected)

/-- A transfer of which the spec is wrong fails while the SFTP session stands. -/
theorem obeys_transfer :
    Obeys Phase.step
      (fun _ t => t = if cli.transfers then .transferring else .loggedIn) Phase.Fails
      (transfer ctx cli) .loggedIn := by
  unfold transfer
  split
  swap
  · exact obeys_pure rfl
  refine obeys_next (obeys_ask (after_id (.channelOpen false))) fun _ =>
    obeys_next (obeys_ask (after_context .subsystem _)) fun _ =>
    obeys_next (obeys_ask (after_context .transferring _)) fun _ =>
    obeys_next (obeys_forM (fun spec _ t ht => ?_) rfl) fun _ =>
    obeys_next (obeys_forM (fun spec _ t ht => ?_) rfl) fun _ =>
    obeys_forM (fun spec _ t ht => ?_) rfl
  · rw [ht]
    exact obeys_parse (.inr trivial) fun paths _ => obeys_ask (after_id .transferring)
  · rw [ht]
    exact obeys_parse (.inr trivial) fun paths _ => obeys_ask (after_id .transferring)
  · rw [ht]
    refine obeys_parse (.inr trivial) fun paths _ => ?_
    dsimp only
    split
    -- a path that is not absolute ends it without a request
    · exact obeys_throw (.inr (.inr trivial))
    · exact obeys_ask (after_id .transferring)

/-- The phases between the transfers and what the run is for. -/
def Phase.Between (cli : Cli) (t : Phase) : Prop :=
  t.Idle ∧ (cli.transfers = false → t ≠ .transferring)

theorem obeys_spawnForwardTasks {session : ForwardSession} {specs : ForwardSpecs}
    (ht : t.Between cli) :
    Obeys Phase.step (fun _ => Phase.Between cli) Phase.Fails (spawnForwardTasks session specs)
      t := by
  unfold spawnForwardTasks
  split
  · exact obeys_pure ht
  have hforwarding : ∀ r, Phase.step t ⟨.spawnForwards ⟨specs, session⟩, r⟩ = some .forwarding := by
    obtain ⟨hidle, -⟩ := ht
    cases t <;> first | exact fun _ => rfl | cases hidle
  refine (obeys_tell hforwarding).mono (fun _ t ht => ?_) fun _ _ he => he
  exact ht ▸ ⟨trivial, fun _ h => by cases h⟩

theorem obeys_requestRemoteForward {fw : ForwardSpec} (ht : t.Between cli) :
    Obeys Phase.step (fun _ => Phase.Between cli) Phase.Fails (requestRemoteForward st fw) t := by
  have hforwarding : ∀ r, Phase.step t ⟨.tcpipForward fw.bindAddr fw.bindPort, r⟩
      = some .forwarding := by
    obtain ⟨hidle, -⟩ := ht
    cases t <;> first | exact fun _ => rfl | cases hidle
  have hbetween : Phase.forwarding.Between cli := ⟨trivial, fun _ h => by cases h⟩
  refine obeys_next (obeys_tell hforwarding) fun answer => ?_
  split
  · exact obeys_pure hbetween
  split
  · exact obeys_throw (.inr (.inr trivial))
  · exact obeys_pure hbetween

theorem obeys_startForwards (ht : t.Between cli) :
    Obeys Phase.step (fun _ => Phase.Between cli) Phase.Fails (startForwards cli st) t :=
  obeys_bind (obeys_spawnForwardTasks ht) fun _ _ ht =>
    obeys_bind (obeys_spawnForwardTasks ht) fun _ _ ht =>
    obeys_bind (obeys_forM (fun _ _ _ ht => obeys_requestRemoteForward ht) ht) fun _ _ ht =>
    obeys_spawnForwardTasks ht

/-- The requests before a command or a shell. -/
theorem obeys_openSessionChannel (ht : t.Idle) :
    Obeys Phase.step (fun _ t => ∃ terminal, t = .channelOpen terminal) Phase.Fails
      (openSessionChannel ctx cli) t := by
  have hopen : Obeys Phase.step (fun _ t => t = .channelOpen false) Phase.Fails
      (call .openSession id : RunM Unit) t := by
    cases t <;> first | exact obeys_ask (after_id (.channelOpen false)) | cases ht
  refine obeys_next hopen fun _ => obeys_next (u := .channelOpen false) ?_ fun _ =>
    obeys_next (u := .channelOpen (wantPty cli)) ?_ fun _ => ?_
  · unfold requestAgent
    split
    · exact obeys_next (obeys_tell fun _ => rfl) fun _ => obeys_pure rfl
    · exact obeys_pure rfl
  · unfold requestTerminal
    split
    · next hpty =>
      rw [hpty]
      exact obeys_ask (after_id (.channelOpen true))
    · next hpty =>
      rw [Bool.not_eq_true] at hpty
      rw [hpty]
      exact obeys_pure rfl
  · refine obeys_forM (I := fun t : Phase => ∃ terminal, t = .channelOpen terminal) ?_ ⟨_, rfl⟩
    rintro var - _ ⟨terminal, rfl⟩
    have hstays : ∀ r, Phase.step (.channelOpen terminal) ⟨.setEnv var.1 var.2, r⟩
        = some (.channelOpen terminal) := by
      cases terminal <;> exact fun _ => rfl
    exact obeys_next (obeys_tell hstays) fun _ => obeys_pure ⟨terminal, rfl⟩

theorem obeys_runSession :
    Obeys Phase.step (fun code t => t = .ended code) Phase.Fails
      (call .runSession id : RunM Int32) .requested := by
  refine obeys_call fun r => ⟨_, rfl, fun code hcode => ?_, fun e he => ?_⟩
  · obtain rfl : r = .ok code := hcode
    rfl
  · obtain rfl : r = .error e := he
    exact .inl rfl

/-- How a run ends that meets no error. -/
def Phase.Finishes (ending : Ending) (t : Phase) : Prop := t.Ends (.ok ending)

theorem obeys_runCommand {terminal : Bool} :
    Obeys Phase.step Phase.Finishes Phase.Fails (runCommand ctx cli) (.channelOpen terminal) := by
  have hsession : Obeys Phase.step Phase.Finishes Phase.Fails
      (do let code ← call .runSession id; pure (.exited code) : RunM Ending) .requested :=
    obeys_bind obeys_runSession fun _ _ ht => obeys_pure ht
  unfold runCommand
  split
  · refine obeys_next (u := .requested) ?_ fun _ => hsession
    cases terminal <;> exact obeys_ask (after_id .requested)
  split
  · refine obeys_next (u := .requested) ?_ fun _ => hsession
    cases terminal <;> exact obeys_ask (after_id .requested)
  · exact obeys_pure (.inr ⟨terminal, rfl⟩)

theorem obeys_stdioForward {spec : String} (ht : t.Between cli) (hnone : cli.transfers = false) :
    Obeys Phase.step Phase.Finishes Phase.Fails (stdioForward ctx spec) t := by
  refine obeys_parse (.inr ht.1) fun address _ => obeys_next (u := .streamOpen) ?_ fun _ =>
    obeys_next (obeys_tell fun _ => rfl) fun _ => obeys_pure (.inl rfl)
  obtain ⟨hidle, hne⟩ := ht
  cases t with
  | loggedIn => exact obeys_ask (after_context .streamOpen _)
  | forwarding => exact obeys_ask (after_context .streamOpen _)
  | transferring => exact absurd rfl (hne hnone)
  | _ => cases hidle

theorem obeys_serve (ht : t.Between cli) :
    Obeys Phase.step Phase.Finishes Phase.Fails (serve ctx cli st) t := by
  unfold serve
  split
  · exact obeys_throw (.inr (.inr ht.1))
  next hexclusive =>
  split
  · next spec hspec =>
    rw [hspec, Option.isSome_some, Bool.and_true, Bool.not_eq_true] at hexclusive
    exact obeys_stdioForward ht hexclusive
  split
  · refine obeys_bind (obeys_openSessionChannel ht.1) fun _ t hopen => ?_
    obtain ⟨terminal, rfl⟩ := hopen
    exact obeys_runCommand
  split
  · exact obeys_pure (.inl ht.1)
  · exact obeys_pure (.inr ht.1)

theorem obeys_runAuthenticated :
    Obeys Phase.step Phase.Finishes Phase.Fails (runAuthenticated ctx cli st) .loggedIn := by
  unfold runAuthenticated
  split
  · exact obeys_next (obeys_ask (after_id .closed)) fun _ => obeys_pure (.inl rfl)
  refine obeys_next obeys_transfer fun _ => ?_
  have hbetween : (if cli.transfers then Phase.transferring else .loggedIn).Between cli := by
    split
    · next htransfers => exact ⟨trivial, fun hnone => absurd htransfers (by simp [hnone])⟩
    · exact ⟨trivial, fun _ h => by cases h⟩
  split
  · exact obeys_pure (.inr hbetween.1)
  · exact obeys_bind (obeys_startForwards hbetween) fun _ _ ht => obeys_serve ht

/-- From the first operation to the last. -/
theorem obeys_run (ctx : Surroundings) (cli : Cli) (st : Settings) :
    Obeys Phase.step Phase.Finishes Phase.Fails (run ctx cli st) .offline :=
  obeys_next obeys_login fun _ => obeys_runAuthenticated

end Parts

section Runs

variable {σ : Type} {h : Handler RunOp RunOp.Res σ} {ctx : Surroundings} {cli : Cli}
  {st : Settings} {s : σ}

/-- **At most one program is asked for**, on a connection to the target on which the user has been
accepted, and all that follows is its session. -/
theorem run_starts_once (h : Handler RunOp RunOp.Res σ) (ctx : Surroundings) (cli : Cli)
    (st : Settings) (s : σ) {pre post : List ((op : RunOp) × op.Res)} {e : (op : RunOp) × op.Res}
    (hlog : execLog h (run ctx cli st) s = pre ++ e :: post) (he : Requested e) :
    (∃ e' ∈ pre, LoginGranted e') ∧ (∀ e' ∈ pre, ¬ Requested e') ∧
      ∃ r, post = [⟨.runSession, r⟩] := by
  obtain ⟨phase, hrun, hok, herror⟩ := (obeys_run ctx cli st).run s
  rw [hlog] at hrun
  refine starts_once_of_run hrun ?_ he
  rintro rfl
  cases hend : (exec h (run ctx cli st) s).1 with
  | ok ending =>
    have hfinishes := hok ending hend
    cases ending <;> simp [Phase.Finishes, Phase.Ends, Phase.Idle] at hfinishes
  | error e => simpa [Phase.Fails, Phase.Ends, Phase.Idle] using herror e hend

/-- What comes before the command of a plain run. -/
def beforeUptime : RunLog :=
  [⟨.connectWithBind bareSurroundings.defaults "host" 22
      ⟨false, "host", 22, none, false⟩ none none, .ok ()⟩,
    ⟨.authenticate .target "user" [] (some "secret") none, .ok ()⟩,
    ⟨.openSession, .ok ()⟩, ⟨.requestPty, .ok ()⟩]

theorem run_starts_uptime :
    (∃ e' ∈ beforeUptime, LoginGranted e') ∧ (∀ e' ∈ beforeUptime, ¬ Requested e') ∧
      ∃ r, [(⟨.runSession, .ok 0⟩ : (op : RunOp) × op.Res)] = [⟨.runSession, r⟩] := by
  have hlog : execLog grantAll (run bareSurroundings (Cli.ofCommand ["uptime"]) plainSettings) ()
      = beforeUptime ++ ⟨.exec (Text.utf8 "uptime"), .ok ()⟩ :: [⟨.runSession, .ok 0⟩] := rfl
  exact run_starts_once grantAll _ _ _ () hlog (.inl ⟨_, rfl⟩)

end Runs

end Passhrs
