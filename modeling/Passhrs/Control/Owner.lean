import Passhrs.Control.Master
import Passhrs.Lib.Machine

/-!
# Who can use a master

`bind_listener` narrows the mode of the socket once it is listening, and `accept_loop` asks nobody
who they are. A run interleaves their steps with the connections of any local user. Connecting
takes write permission on the socket file, and a connection that is made waits in the backlog until
it is accepted.

* **`ownerOnly_iff`**: nothing is ever done for another user, whatever the order of the steps,
  exactly when the umask takes write permission from the group and from all others.
-/

namespace Passhrs

open Effects Text

/-! ## Permissions -/

structure LocalUser where
  uid : Nat
  groups : List Nat
deriving DecidableEq

/-- The socket at the control path. -/
structure SocketFile where
  uid : Nat
  gid : Nat
  mode : UInt32
deriving DecidableEq

/-- Whether the system lets the user write to the file: the first class that the user is in
counts. -/
def SocketFile.writable (file : SocketFile) (user : LocalUser) : Bool :=
  if user.uid = 0 then true
  else if user.uid = file.uid then file.mode &&& 0o200 != 0
  else if file.gid ∈ user.groups then file.mode &&& 0o020 != 0
  else file.mode &&& 0o002 != 0

/-! ## The master and its clients -/

/-- A connection: who has made it, and what they send. -/
structure ClientConnection where
  user : LocalUser
  sent : Bytes

/-- Where the master is: before or in `bind_listener`, in the loop, past it, or failed. -/
inductive OwnerPhase where
  | idle
  | unlinked
  | bound
  | accepting
  | left
  | failed
deriving DecidableEq

/-- `served` is what `handle_resume` has done so far, for whom. -/
structure OwnedMaster (σ : Type) where
  phase : OwnerPhase
  socket : Option SocketFile
  backlog : List ClientConnection
  tasks : List ClientConnection
  served : List (LocalUser × MasterLog)
  server : σ

/-- The user that runs the master, and what it has been started with. -/
structure MasterProcess where
  uid : Nat
  gid : Nat
  umask : UInt32
  pid : UInt32

def OwnedMaster.start {σ : Type} (server : σ) : OwnedMaster σ :=
  ⟨.idle, none, [], [], [], server⟩

/-- `unlink`, `bind` (with `listen`) and `chmod` are the calls of `bind_listener`, which may fail.
`connect` is an attempt of any user, `accept` an `accept` of the loop, `serve` the task of an
accepted connection, and `leave` the end of the loop with the drop of the guard. -/
inductive OwnerEvent where
  | unlink (ok : Bool)
  | bind (ok : Bool)
  | chmod (ok : Bool)
  | connect (client : ClientConnection)
  | accept
  | serve (task : Nat)
  | leave

section Steps

variable {σ : Type} (process : MasterProcess) (h : Handler MasterOp MasterOp.Res σ)

/-- The socket that `bind` makes, with the mode that the umask leaves. -/
def MasterProcess.newSocket : SocketFile := ⟨process.uid, process.gid, 0o777 &&& ~~~process.umask⟩

/-- An error of `bind_listener` closes the listener, if there is one. -/
def OwnedMaster.fail (s : OwnedMaster σ) : OwnedMaster σ :=
  { s with phase := .failed, backlog := [] }

def OwnedMaster.step (s : OwnedMaster σ) : OwnerEvent → Option (OwnedMaster σ)
  | .unlink ok =>
    if s.phase = .idle then
      some (if ok then { s with phase := .unlinked, socket := none } else s.fail)
    else none
  | .bind ok =>
    if s.phase = .unlinked then
      some (if ok then { s with phase := .bound, socket := some process.newSocket } else s.fail)
    else none
  | .chmod ok =>
    if s.phase = .bound then
      some (if ok then
        { s with phase := .accepting, socket := s.socket.map fun f => { f with mode := 0o600 } }
      else s.fail)
    else none
  | .connect client =>
    -- without a listener behind it, the socket refuses everyone
    if s.phase = .bound ∨ s.phase = .accepting then
      some (if s.socket.any (·.writable client.user) then
        { s with backlog := s.backlog ++ [client] }
      else s)
    else some s
  | .accept =>
    if s.phase = .accepting then
      match s.backlog with
      | client :: backlog =>
        some { s with backlog := backlog, tasks := s.tasks ++ [client] }
      | [] => none
    else none
  | .serve i =>
    match s.tasks[i]? with
    | some client =>
      let task := handleResume process.pid client.sent
      some { s with
        tasks := s.tasks.eraseIdx i
        served := s.served ++ [(client.user, execLog h task s.server)]
        server := (exec h task s.server).2 }
    | none => none
  | .leave =>
    if s.phase = .accepting then
      some { s with phase := .left, socket := none, backlog := [] }
    else none

/-- A frame of a connection of this user has been acted on. -/
def OwnedMaster.Executed (s : OwnedMaster σ) (user : LocalUser) : Prop :=
  ∃ log, (user, log) ∈ s.served ∧ log ≠ []

/-- The user may use the master. -/
def MasterProcess.Trusts (user : LocalUser) : Prop := user.uid = process.uid ∨ user.uid = 0

/-! ## What the umask leaves -/

theorem and_eq_self_iff_not_and (umask bits : UInt32) :
    umask &&& bits = bits ↔ ~~~umask &&& bits = 0 := by
  constructor
  · intro hmasked
    rw [← hmasked, ← UInt32.and_assoc]
    simp
  · intro hnone
    apply UInt32.toBitVec_inj.1
    calc (umask &&& bits).toBitVec
        = (umask.toBitVec &&& bits.toBitVec) ||| (~~~umask &&& bits).toBitVec := by
          rw [hnone]
          simp
      _ = (umask.toBitVec ||| ~~~umask.toBitVec) &&& bits.toBitVec := by
          rw [BitVec.and_or_distrib_right]
          rfl
      _ = bits.toBitVec := by rw [BitVec.or_not_self, BitVec.allOnes_and]

/-- The bits of a class are off in the mode of the socket when the umask has them. -/
theorem newSocket_mode_and {bits : UInt32} (hbits : 0o777 &&& bits = bits) :
    process.newSocket.mode &&& bits = 0 ↔ process.umask &&& bits = bits := by
  rw [and_eq_self_iff_not_and]
  show 0o777 &&& ~~~process.umask &&& bits = 0 ↔ _
  rw [UInt32.and_comm 0o777, UInt32.and_assoc, hbits]

variable {process} in
/-- A socket that only its owner can write to. -/
theorem trusts_of_writable {file : SocketFile} {user : LocalUser} (huid : file.uid = process.uid)
    (hgroup : file.mode &&& 0o020 = 0) (hothers : file.mode &&& 0o002 = 0)
    (hwritable : file.writable user = true) : process.Trusts user := by
  unfold SocketFile.writable at hwritable
  split at hwritable
  · next hroot => exact .inr hroot
  split at hwritable
  · next howner => exact .inl (howner.trans huid)
  split at hwritable
  · simp [hgroup] at hwritable
  · simp [hothers] at hwritable

/-! ## Runs -/

/-- Whoever has got anywhere is trusted, and nobody else can. -/
structure OwnedMaster.Guarded (s : OwnedMaster σ) : Prop where
  socket : ∀ file, s.socket = some file →
    file.uid = process.uid ∧ file.mode &&& 0o020 = 0 ∧ file.mode &&& 0o002 = 0
  backlog : ∀ client ∈ s.backlog, process.Trusts client.user
  tasks : ∀ client ∈ s.tasks, process.Trusts client.user
  served : ∀ entry ∈ s.served, process.Trusts entry.1

variable {process h} {s s' : OwnedMaster σ} {e : OwnerEvent}

theorem OwnedMaster.Guarded.fail (hs : s.Guarded process) : s.fail.Guarded process where
  socket := hs.socket
  backlog := fun _ hmem => nomatch hmem
  tasks := hs.tasks
  served := hs.served

/-- **A step lets nobody in**, when the umask takes write permission from everyone else. -/
theorem OwnedMaster.Guarded.step (hgroup : process.umask &&& 0o020 = 0o020)
    (hothers : process.umask &&& 0o002 = 0o002) (hs : s.Guarded process)
    (hstep : s.step process h e = some s') : s'.Guarded process := by
  cases e with
  | unlink ok =>
    obtain ⟨-, rfl⟩ := Option.ite_some_none_eq_some.mp hstep
    cases ok with
    | false => exact hs.fail
    | true => exact ⟨fun _ hnone => (nomatch hnone), hs.backlog, hs.tasks, hs.served⟩
  | bind ok =>
    obtain ⟨-, rfl⟩ := Option.ite_some_none_eq_some.mp hstep
    cases ok with
    | false => exact hs.fail
    | true =>
      -- until the chmod it is the umask that keeps the others out
      refine ⟨?_, hs.backlog, hs.tasks, hs.served⟩
      rintro _ ⟨⟩
      exact ⟨rfl, (newSocket_mode_and process (by decide)).mpr hgroup,
        (newSocket_mode_and process (by decide)).mpr hothers⟩
  | chmod ok =>
    obtain ⟨-, rfl⟩ := Option.ite_some_none_eq_some.mp hstep
    cases ok with
    | false => exact hs.fail
    | true =>
      refine ⟨fun file hfile => ?_, hs.backlog, hs.tasks, hs.served⟩
      obtain ⟨file', hfile', rfl⟩ := Option.map_eq_some_iff.mp hfile
      have hmode : (0o600 : UInt32) &&& 0o020 = 0 ∧ (0o600 : UInt32) &&& 0o002 = 0 := by decide
      exact ⟨(hs.socket file' hfile').1, hmode⟩
  | connect client =>
    simp only [OwnedMaster.step] at hstep
    split at hstep
    · obtain rfl := Option.some.inj hstep
      split
      -- a client gets into the backlog only by a socket that it may write to
      · next hwritable =>
        obtain ⟨file, hfile, hwritable⟩ := (Option.any_eq_true _ _).mp hwritable
        obtain ⟨huid, hnogroup, hnoothers⟩ := hs.socket file hfile
        refine ⟨hs.socket, fun c hc => ?_, hs.tasks, hs.served⟩
        rcases List.mem_append.mp hc with hc | hc
        · exact hs.backlog c hc
        · rw [List.mem_singleton.mp hc]
          exact trusts_of_writable huid hnogroup hnoothers hwritable
      · exact hs
    · obtain rfl := Option.some.inj hstep
      exact hs
  | accept =>
    simp only [OwnedMaster.step] at hstep
    split at hstep
    · split at hstep
      · next client backlog hbacklog =>
        obtain rfl := Option.some.inj hstep
        have hall := hs.backlog
        rw [hbacklog, List.forall_mem_cons] at hall
        refine ⟨hs.socket, hall.2, fun c hc => ?_, hs.served⟩
        rcases List.mem_append.mp hc with hc | hc
        · exact hs.tasks c hc
        · exact List.mem_singleton.mp hc ▸ hall.1
      · cases hstep
    · cases hstep
  | serve i =>
    simp only [OwnedMaster.step] at hstep
    split at hstep
    · next client hclient =>
      obtain rfl := Option.some.inj hstep
      refine ⟨hs.socket, hs.backlog, fun c hc => hs.tasks c (List.mem_of_mem_eraseIdx hc),
        fun entry hentry => ?_⟩
      rcases List.mem_append.mp hentry with hentry | hentry
      · exact hs.served entry hentry
      · rw [List.mem_singleton.mp hentry]
        exact hs.tasks client (List.mem_of_getElem? hclient)
    · cases hstep
  | leave =>
    obtain ⟨-, rfl⟩ := Option.ite_some_none_eq_some.mp hstep
    exact ⟨fun _ hnone => (nomatch hnone), fun _ hmem => (nomatch hmem), hs.tasks, hs.served⟩

theorem guarded_start (server : σ) : (OwnedMaster.start server).Guarded process :=
  ⟨fun _ hnone => (nomatch hnone), fun _ hmem => (nomatch hmem), fun _ hmem => (nomatch hmem),
    fun _ hmem => (nomatch hmem)⟩

/-- A client that gets in between `bind` and `chmod`. -/
def gapEvents (client : ClientConnection) : List OwnerEvent :=
  [.unlink true, .bind true, .connect client, .chmod true, .accept, .serve 0]

variable (process h) in
/-- Whoever the new socket lets in is served in the end. -/
theorem run_gapEvents (server : σ) (client : ClientConnection)
    (hwritable : process.newSocket.writable client.user = true) :
    ∃ s, Machine.run (OwnedMaster.step process h) (.start server) (gapEvents client) = some s ∧
      s.served = [(client.user, execLog h (handleResume process.pid client.sent) server)] := by
  refine ⟨{ OwnedMaster.start server with
    phase := .accepting
    socket := some { process.newSocket with mode := 0o600 }
    served := [(client.user, execLog h (handleResume process.pid client.sent) server)]
    server := (exec h (handleResume process.pid client.sent) server).2 }, ?_, rfl⟩
  have hconnect : OwnedMaster.step process h { OwnedMaster.start server with
      phase := .bound, socket := some process.newSocket } (.connect client) =
      some { OwnedMaster.start server with
        phase := .bound, socket := some process.newSocket, backlog := [client] } := by
    simp [OwnedMaster.step, hwritable, OwnedMaster.start]
  rw [gapEvents, Machine.run_cons_eq_some]
  refine ⟨_, rfl, Machine.run_cons_eq_some.mpr ⟨_, rfl, Machine.run_cons_eq_some.mpr
    ⟨_, hconnect, rfl⟩⟩⟩

end Steps

/-- A command of some user. -/
def commandOf (user : LocalUser) (command : String) : ClientConnection :=
  ⟨user, writeCmdFrame (utf8 command)⟩

/-- The quiet server executes it. -/
theorem executed_commandOf_id (user : LocalUser) (pid : UInt32) :
    MasterLog.executed (execLog quietServer (handleResume pid (commandOf user "id").sent) ()) =
      [utf8 "id"] := by
  rw [commandOf, handleResume_writeCmdFrame, List.take_of_length_le (by decide),
    handleCmdFrame_utf8]
  rfl

/-- **Nothing is ever done for another user, in any interleaving, exactly when** the umask takes
write permission from the group of the socket and from all others. -/
theorem ownerOnly_iff (process : MasterProcess) :
    (∀ (σ : Type) (h : Handler MasterOp MasterOp.Res σ) (server : σ) (events : List OwnerEvent)
        (s : OwnedMaster σ),
      Machine.run (OwnedMaster.step process h) (.start server) events = some s →
      ∀ user, s.Executed user → process.Trusts user) ↔
      process.umask &&& 0o020 = 0o020 ∧ process.umask &&& 0o002 = 0o002 := by
  constructor
  · intro hall
    -- nobody but the owner gets through the gap
    have hgap : ∀ user : LocalUser, user.uid = process.uid + 1 →
        process.newSocket.writable user = false := by
      intro user huid
      by_contra hwritable
      rw [Bool.not_eq_false] at hwritable
      obtain ⟨s, hrun, hserved⟩ := run_gapEvents process quietServer ()
        (commandOf user "id") hwritable
      have htrusts := hall Unit quietServer () _ s hrun user ⟨_, by
        rw [hserved]
        exact List.mem_singleton_self _, fun hnil => ?_⟩
      · rcases htrusts with hown | hroot
        · omega
        · omega
      · have hexecuted := executed_commandOf_id user process.pid
        rw [hnil] at hexecuted
        cases hexecuted
    have hmember := hgap ⟨process.uid + 1, [process.gid]⟩ rfl
    have hother := hgap ⟨process.uid + 1, []⟩ rfl
    simp only [SocketFile.writable, MasterProcess.newSocket] at hmember hother
    constructor
    · rw [← newSocket_mode_and process (by decide)]
      simpa [MasterProcess.newSocket] using hmember
    · rw [← newSocket_mode_and process (by decide)]
      simpa [MasterProcess.newSocket] using hother
  · rintro ⟨hgroup, hothers⟩ σ h server events s hrun user ⟨log, hmem, -⟩
    have hguarded := Machine.run_invariant (I := fun _ s => OwnedMaster.Guarded process s)
      (guarded_start server) (fun _ _ _ _ hs hstep => hs.step hgroup hothers hstep) hrun
    exact hguarded.served _ hmem

/-- With a umask of 0, user 1001 runs a command over the connection of user 1000. -/
theorem other_user_executes :
    ∃ s, Machine.run (OwnedMaster.step ⟨1000, 1000, 0, 1⟩ quietServer) (.start ())
        (gapEvents (commandOf ⟨1001, [1001]⟩ "id")) = some s ∧
      ∃ log, ((⟨1001, [1001]⟩ : LocalUser), log) ∈ s.served ∧
        MasterLog.executed log = [utf8 "id"] := by
  obtain ⟨s, hrun, hserved⟩ := run_gapEvents ⟨1000, 1000, 0, 1⟩ quietServer ()
    (commandOf ⟨1001, [1001]⟩ "id") (by decide)
  refine ⟨s, hrun, _, ?_, executed_commandOf_id ⟨1001, [1001]⟩ 1⟩
  rw [hserved]
  exact List.mem_singleton_self _

end Passhrs
