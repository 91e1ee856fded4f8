import Passhrs.Lib.Program
import Passhrs.Run.Cli
import Passhrs.Ssh.HostKey

/-!
# The forwarding tasks

`spawn_forward_tasks` starts one background task for a list of specs, and the task goes through the
list: an SSH connection of its own, authentication, and one of the three functions that listen on
the spec's address. A task is a program over what it does, run to the point where it makes no
further progress on its own.

* **`forwardTask_starts_all_iff`**: when nothing fails, the task listens for all of its specs
  exactly when there is at most one.
-/

namespace Passhrs

open Effects

/-! ## Operations -/

/-- The preference lists of a `client::Config`. -/
structure Preferred where
  cipher : List String
  mac : List String
deriving DecidableEq

/-- What a task does. `connect` is `client::connect`, `authenticateFwd` the function of this name,
`parseAddr` the parse of a `SocketAddr`, and `accept` the accept loop of a listener. -/
inductive ForwardOp where
  | connect (preferred : Preferred) (host : String) (port : UInt16) (handler : SshHandler)
  | authenticateFwd (user : String) (password passphrase : Option String)
      (identityFile : List String)
  | parseAddr (addr : String)
  | bind (addr : String)
  | accept (addr : String)

/-- The accept loop is left with the error of an `accept`, or never. -/
abbrev ForwardOp.Res : ForwardOp → Type
  | .accept _ => Option String
  | _ => Except String Unit

/-- Where a task stops: at an error, or at a point that it waits at for ever. -/
inductive Stop where
  | error (message : String)
  | waits
deriving DecidableEq

abbrev ForwardM (α : Type) : Type := Action ForwardOp ForwardOp.Res Stop α

abbrev ForwardLog : Type := List ((op : ForwardOp) × op.Res)

/-- `?` on an answer. -/
def orStop (answer : Except String Unit) : Except Stop Unit := answer.mapError .error

/-- `let _ = x.await`, which waits for as long as `x` does. -/
def dropResult (x : ForwardM Unit) : ForwardM Unit := do
  match ← attempt x with
  | .error .waits => throw .waits
  | _ => pure ()

/-! ## The functions that listen -/

/-- What the three functions have in common: they listen on an address and stay in the accept
loop. -/
def listenOn (bindAddr : String) (bindPort : UInt16) (exitOnFailure : Bool) : ForwardM Unit := do
  let addr := s!"{bindAddr}:{bindPort}"
  call (.parseAddr addr) orStop
  match ← call (.bind addr) .ok with
  | .error e => if exitOnFailure then throw (.error e) else pure ()
  | .ok () =>
    match ← call (.accept addr) .ok with
    | some e => throw (.error e)
    | none => throw .waits

def localPortForward (spec : ForwardSpec) (exitOnFailure : Bool) : ForwardM Unit :=
  listenOn spec.bindAddr spec.bindPort exitOnFailure

def socksProxyForward (spec : DynamicForwardSpec) (exitOnFailure : Bool) : ForwardM Unit :=
  listenOn spec.bindAddr spec.bindPort exitOnFailure

def httpConnectForward (spec : DynamicForwardSpec) (exitOnFailure : Bool) : ForwardM Unit :=
  listenOn spec.bindAddr spec.bindPort exitOnFailure

/-! ## The driver -/

/-- The arguments of `spawn_forward_tasks` besides the specs and their function. -/
structure ForwardSession where
  host : String
  port : UInt16
  user : String
  password : Option String
  passphrase : Option String
  identityFile : List String
  userKnownHosts : Option String
  strictCheck : Bool
  acceptAllHostKeys : Bool
  exitOnFwdFailure : Bool
deriving DecidableEq

/-- The handler of the task's own connections. -/
def ForwardSession.handler (session : ForwardSession) : SshHandler :=
  ⟨session.strictCheck, session.host, session.port, session.userKnownHosts,
    session.acceptAllHostKeys⟩

/-- One round of the loop, with the call of `forward_fn`. `defaults` is what
`client::Config::default()` prefers. -/
def forwardRound (defaults : Preferred) (session : ForwardSession) (forward : ForwardM Unit) :
    ForwardM Unit := do
  match ← call (.connect defaults session.host session.port session.handler) .ok with
  -- "connect failed" is logged, and the loop goes on
  | .error _ => pure ()
  | .ok () =>
    let _ ← call (.authenticateFwd session.user session.password session.passphrase
      session.identityFile) .ok
    dropResult forward

/-- The task of `spawn_forward_tasks`, which sleeps for ever at the end. -/
def forwardLoop {Spec : Type} (defaults : Preferred) (session : ForwardSession)
    (forwardFn : Spec → Bool → ForwardM Unit) (specs : List Spec) : ForwardM Unit := do
  forM specs fun spec =>
    forwardRound defaults session (forwardFn spec session.exitOnFwdFailure)
  throw .waits

/-- The specs of a task, and so the function that it is spawned with. -/
inductive ForwardSpecs where
  | httpConnect (specs : List DynamicForwardSpec)
  | socks (specs : List DynamicForwardSpec)
  | localPort (specs : List ForwardSpec)
deriving DecidableEq

def ForwardSpecs.isEmpty : ForwardSpecs → Bool
  | .httpConnect specs | .socks specs => specs.isEmpty
  | .localPort specs => specs.isEmpty

/-- A call of `spawn_forward_tasks`. -/
structure ForwardTask where
  specs : ForwardSpecs
  session : ForwardSession
deriving DecidableEq

def forwardTask (defaults : Preferred) (task : ForwardTask) : ForwardM Unit :=
  match task.specs with
  | .httpConnect specs => forwardLoop defaults task.session httpConnectForward specs
  | .socks specs => forwardLoop defaults task.session socksProxyForward specs
  | .localPort specs => forwardLoop defaults task.session localPortForward specs

/-! ## Connections -/

section Connecting

/-- The connections of a task: to the host of its session, with `defaults`. -/
def ConnectsAs (defaults : Preferred) (session : ForwardSession) (op : ForwardOp) : Prop :=
  ∀ preferred host port handler, op = .connect preferred host port handler →
    preferred = defaults ∧ host = session.host ∧ port = session.port

/-! The rule for a task, whatever it is answered and whatever is asked of its operations. -/

section Rule

variable {A : (op : ForwardOp) → op.Res → Prop} {P : ForwardOp → Prop} {defaults : Preferred}
  {session : ForwardSession}

theorem emits_listenOn (hparse : ∀ addr, P (.parseAddr addr)) (hbind : ∀ addr, P (.bind addr))
    (haccept : ∀ addr, P (.accept addr)) (bindAddr : String) (bindPort : UInt16)
    (exitOnFailure : Bool) :
    Emits A P (fun _ => True) (listenOn bindAddr bindPort exitOnFailure) := by
  have hcall : ∀ {α : Type} {op : ForwardOp} {k : op.Res → Except Stop α}, P op →
      Emits A P (fun _ => True) (call op k : ForwardM α) :=
    fun hop => emits_call hop fun _ _ _ _ => trivial
  unfold listenOn
  refine emits_bind (hcall (hparse _)) fun _ _ => ?_
  refine emits_bind (hcall (hbind _)) fun bound _ => ?_
  split
  · split
    · exact emits_throw _
    · exact emits_pure trivial
  · refine emits_bind (hcall (haccept _)) fun accepted _ => ?_
    split
    · exact emits_throw _
    · exact emits_throw _

theorem emits_forwardRound {forward : ForwardM Unit}
    (hconnect : P (.connect defaults session.host session.port session.handler))
    (hlogin : A (.connect defaults session.host session.port session.handler) (.ok ()) →
      P (.authenticateFwd session.user session.password session.passphrase session.identityFile))
    (hforward : Emits A P (fun _ => True) forward) :
    Emits A P (fun _ => True) (forwardRound defaults session forward) := by
  unfold forwardRound
  refine emits_bind (Q := A (.connect defaults session.host session.port session.handler))
    (emits_call hconnect fun r hr a ha => ?_) fun answer hanswer => ?_
  · rw [← Except.ok.inj ha]
    exact hr
  split
  · exact emits_pure trivial
  · refine emits_bind (Q := fun _ => True) (emits_call (hlogin hanswer) fun _ _ _ _ => trivial)
      fun _ _ => ?_
    unfold dropResult
    refine emits_bind (emits_attempt hforward) fun result _ => ?_
    split
    · exact emits_throw _
    · exact emits_pure trivial

theorem emits_task {task : ForwardTask}
    (hconnect : P (.connect defaults task.session.host task.session.port task.session.handler))
    (hlogin : A (.connect defaults task.session.host task.session.port task.session.handler)
        (.ok ()) →
      P (.authenticateFwd task.session.user task.session.password task.session.passphrase
        task.session.identityFile))
    (hparse : ∀ addr, P (.parseAddr addr)) (hbind : ∀ addr, P (.bind addr))
    (haccept : ∀ addr, P (.accept addr)) :
    Emits A P (fun _ => True) (forwardTask defaults task) := by
  unfold forwardTask
  cases task.specs with
  | httpConnect specs | socks specs | localPort specs =>
    exact emits_bind (emits_forM fun spec _ => emits_forwardRound hconnect hlogin
      (emits_listenOn hparse hbind haccept _ _ _)) fun _ _ => emits_throw _

end Rule

/-- A task connects to nothing but the host of its session, and with `defaults` alone. -/
theorem emits_forwardTask (defaults : Preferred) (task : ForwardTask) :
    Emits (fun _ _ => True) (ConnectsAs defaults task.session) (fun _ => True)
      (forwardTask defaults task) := by
  refine emits_task ?_ (by simp [ConnectsAs]) (by simp [ConnectsAs]) (by simp [ConnectsAs])
    (by simp [ConnectsAs])
  rintro preferred host port handler heq
  injection heq with hprefs hhost hport
  exact ⟨hprefs.symm, hhost.symm, hport.symm⟩

variable {τ : Type}

/-- The first thing that a task with a spec does is to connect. -/
theorem connect_mem_execLog_forwardTask (hf : Handler ForwardOp ForwardOp.Res τ)
    (defaults : Preferred) {task : ForwardTask} (hsome : task.specs.isEmpty = false) (t : τ) :
    ⟨.connect defaults task.session.host task.session.port task.session.handler,
        (hf (.connect defaults task.session.host task.session.port task.session.handler) t).1⟩
      ∈ execLog hf (forwardTask defaults task) t := by
  have hloop : ∀ {Spec : Type} (fn : Spec → Bool → ForwardM Unit) (specs : List Spec), specs ≠ [] →
      ⟨.connect defaults task.session.host task.session.port task.session.handler,
        (hf (.connect defaults task.session.host task.session.port task.session.handler) t).1⟩
        ∈ execLog hf (forwardLoop defaults task.session fn specs) t := by
    intro Spec fn specs hne
    obtain ⟨spec, specs, rfl⟩ := List.exists_cons_of_ne_nil hne
    unfold forwardLoop
    rw [List.forM_cons]
    unfold forwardRound
    apply mem_execLog_bind_left
    apply mem_execLog_bind_left
    apply mem_execLog_bind_left
    exact List.mem_singleton_self _
  unfold forwardTask
  cases hspecs : task.specs with
  | httpConnect specs | socks specs | localPort specs =>
    rw [hspecs] at hsome
    exact hloop _ specs (by simpa [ForwardSpecs.isEmpty] using hsome)

end Connecting

/-! ## Listeners -/

/-- The address of a listener, as it is formatted. -/
def listenAddr (bindAddr : String) (bindPort : UInt16) : String := s!"{bindAddr}:{bindPort}"

/-- The addresses that a task is to listen on. -/
def ForwardSpecs.addrs : ForwardSpecs → List String
  | .httpConnect specs | .socks specs =>
    specs.map fun spec => listenAddr spec.bindAddr spec.bindPort
  | .localPort specs => specs.map fun spec => listenAddr spec.bindAddr spec.bindPort

/-- The addresses that a listener was bound to. -/
def ForwardLog.listening (log : ForwardLog) : List String :=
  log.filterMap fun e =>
    match e with
    | ⟨.bind addr, .ok ()⟩ => some addr
    | _ => none

section Succeeding

variable {τ : Type}

/-- Every connection and authentication succeeds, every address is valid and free, and no accept
loop is left. -/
structure AllSucceed (h : Handler ForwardOp ForwardOp.Res τ) : Prop where
  connect : ∀ preferred host port handler t, (h (.connect preferred host port handler) t).1 = .ok ()
  authenticateFwd : ∀ user password passphrase identityFile t,
    (h (.authenticateFwd user password passphrase identityFile) t).1 = .ok ()
  parseAddr : ∀ addr t, (h (.parseAddr addr) t).1 = .ok ()
  bind : ∀ addr t, (h (.bind addr) t).1 = .ok ()
  accept : ∀ addr t, (h (.accept addr) t).1 = none

variable {h : Handler ForwardOp ForwardOp.Res τ} {t : τ}

/-- A listener that is up waits in its accept loop. -/
theorem listenOn_waits (hall : AllSucceed h) (bindAddr : String) (bindPort : UInt16)
    (exitOnFailure : Bool) (t : τ) :
    ∃ t', exec h (listenOn bindAddr bindPort exitOnFailure) t = (.error .waits, t') ∧
      ForwardLog.listening (execLog h (listenOn bindAddr bindPort exitOnFailure) t)
        = [listenAddr bindAddr bindPort] := by
  unfold listenOn
  dsimp only
  set addr := s!"{bindAddr}:{bindPort}" with haddr
  have hparse : exec h (call (.parseAddr addr) orStop) t = (.ok (), (h (.parseAddr addr) t).2) := by
    rw [exec_call, hall.parseAddr]
    rfl
  set t₁ := (h (.parseAddr addr) t).2
  have hbind : exec h (call (.bind addr) .ok : ForwardM (Except String Unit)) t₁
      = (.ok (.ok ()), (h (.bind addr) t₁).2) := by
    rw [exec_call, hall.bind]
  set t₂ := (h (.bind addr) t₁).2
  have haccept : exec h (call (.accept addr) .ok : ForwardM (Option String)) t₂
      = (.ok none, (h (.accept addr) t₂).2) := by
    rw [exec_call, hall.accept]
  refine ⟨(h (.accept addr) t₂).2, ?_, ?_⟩
  · rw [exec_bind_ok hparse, exec_bind_ok hbind, exec_bind_ok haccept]
    rfl
  · rw [execLog_bind_ok hparse, execLog_bind_ok hbind, execLog_bind_ok haccept, execLog_call,
      execLog_call, execLog_call, hall.bind]
    rfl

theorem listening_append (log log' : ForwardLog) :
    ForwardLog.listening (log ++ log') = log.listening ++ log'.listening := List.filterMap_append

/-- A function that waits keeps its round from ending. -/
theorem forwardRound_waits (hall : AllSucceed h) (defaults : Preferred) (session : ForwardSession)
    {forward : ForwardM Unit} {t : τ}
    (hforward : ∀ t, ∃ t', exec h forward t = (.error .waits, t')) :
    ∃ t' t₁, exec h (forwardRound defaults session forward) t = (.error .waits, t') ∧
      ForwardLog.listening (execLog h (forwardRound defaults session forward) t)
        = ForwardLog.listening (execLog h forward t₁) := by
  unfold forwardRound
  set op := ForwardOp.connect defaults session.host session.port session.handler
  have hconnect : exec h (call op .ok : ForwardM (Except String Unit)) t
      = (.ok (.ok ()), (h op t).2) := by
    rw [exec_call, hall.connect]
  set op' := ForwardOp.authenticateFwd session.user session.password session.passphrase
    session.identityFile
  have hauth : exec h (call op' .ok : ForwardM (Except String Unit)) (h op t).2
      = (.ok (.ok ()), (h op' (h op t).2).2) := by
    rw [exec_call, hall.authenticateFwd]
  obtain ⟨t', hwaits⟩ := hforward (h op' (h op t).2).2
  refine ⟨t', (h op' (h op t).2).2, ?_, ?_⟩
  · rw [exec_bind_ok hconnect, exec_bind_ok hauth, dropResult, exec_attempt_bind, hwaits]
    rfl
  · rw [execLog_bind_ok hconnect, execLog_bind_ok hauth, dropResult, execLog_attempt_bind, hwaits,
      listening_append, listening_append, listening_append]
    exact List.append_nil _

/-- The loop waits in the round of its first spec. -/
theorem forwardLoop_listening (hall : AllSucceed h) (defaults : Preferred)
    (session : ForwardSession) {Spec : Type} {forwardFn : Spec → Bool → ForwardM Unit}
    {addr : Spec → String}
    (hfn : ∀ spec t, ∃ t',
      exec h (forwardFn spec session.exitOnFwdFailure) t = (.error .waits, t') ∧
      ForwardLog.listening (execLog h (forwardFn spec session.exitOnFwdFailure) t) = [addr spec])
    (specs : List Spec) (t : τ) :
    ForwardLog.listening (execLog h (forwardLoop defaults session forwardFn specs) t)
      = (specs.map addr).take 1 := by
  unfold forwardLoop
  cases specs with
  | nil => rfl
  | cons spec specs =>
    have hwaits : ∀ t, ∃ t', exec h (forwardFn spec session.exitOnFwdFailure) t
        = (.error .waits, t') := fun t => (hfn spec t).imp fun _ h => h.1
    obtain ⟨t', t₁, hround, hlog⟩ := forwardRound_waits (t := t) hall defaults session hwaits
    have hloop : exec h (forM (spec :: specs) fun spec =>
        forwardRound defaults session (forwardFn spec session.exitOnFwdFailure)) t
          = (.error .waits, t') := by
      rw [List.forM_cons, exec_bind_error hround]
    rw [execLog_bind_error hloop, List.forM_cons, execLog_bind_error hround, hlog]
    exact (hfn spec t₁).choose_spec.2

/-- **Without a failure, a task listens on all of its addresses exactly when** it has at most one
spec. -/
theorem forwardTask_starts_all_iff (hall : AllSucceed h) (defaults : Preferred)
    (task : ForwardTask) (t : τ) :
    ForwardLog.listening (execLog h (forwardTask defaults task) t) = task.specs.addrs ↔
      task.specs.addrs.length ≤ 1 := by
  have hlistening : ForwardLog.listening (execLog h (forwardTask defaults task) t)
      = task.specs.addrs.take 1 := by
    unfold forwardTask
    cases task.specs with
    | httpConnect specs | socks specs | localPort specs =>
      exact forwardLoop_listening hall defaults task.session
        (fun spec t => listenOn_waits hall spec.bindAddr spec.bindPort _ t) specs t
  rw [hlistening, List.take_eq_self_iff]

end Succeeding

/-- Connections and listeners that all come up. -/
def allUp : Handler ForwardOp ForwardOp.Res Unit := fun op t =>
  match op with
  | .accept _ => (none, t)
  | .connect _ _ _ _ | .authenticateFwd _ _ _ _ | .parseAddr _ | .bind _ => (.ok (), t)

theorem allSucceed_allUp : AllSucceed allUp where
  connect _ _ _ _ _ := rfl
  authenticateFwd _ _ _ _ _ := rfl
  parseAddr _ _ := rfl
  bind _ _ := rfl
  accept _ _ := rfl

/-- A task for two local forwards. -/
def twoForwards : ForwardTask where
  specs := .localPort [⟨"127.0.0.1", 8080, "db", 5432⟩, ⟨"127.0.0.1", 8081, "web", 80⟩]
  session := ⟨"h", 22, "root", none, none, [], none, false, false, false⟩

/-- The second of two forwards is never listened for. -/
theorem forwardTask_starts_one_of_two :
    ¬ ∀ (τ : Type) (h : Handler ForwardOp ForwardOp.Res τ), AllSucceed h →
      ∀ (defaults : Preferred) (task : ForwardTask) (t : τ),
        ForwardLog.listening (execLog h (forwardTask defaults task) t) = task.specs.addrs := by
  intro hall
  have htwo := hall Unit allUp allSucceed_allUp ⟨[], []⟩ twoForwards ()
  exact absurd (congrArg List.length htwo) (by decide)

theorem forwardTask_starts_all_of_one :
    ForwardLog.listening (execLog allUp (forwardTask ⟨[], []⟩
        { twoForwards with specs := .socks [⟨"127.0.0.1", 1080⟩] }) ())
        = ForwardSpecs.addrs (.socks [⟨"127.0.0.1", 1080⟩]) ↔
      (ForwardSpecs.addrs (.socks [⟨"127.0.0.1", 1080⟩])).length ≤ 1 :=
  forwardTask_starts_all_iff allSucceed_allUp ⟨[], []⟩
    { twoForwards with specs := .socks [⟨"127.0.0.1", 1080⟩] } ()

end Passhrs
