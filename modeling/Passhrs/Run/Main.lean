import Passhrs.Forward.Driver
import Passhrs.Run.Exec

/-!
# The run

`run`, from where it has parsed its options and has no master to resume on: the connection, direct
or through a jump host, authentication, master mode, transfers, the forwards, and the session. It
is a program over what it does. An error is the outermost message of its chain. A connection that
times out is one that fails.

The forwarding tasks run on their own (`forwardTask`): spawning one is an operation that nothing
comes back from.
-/

namespace Passhrs

open Effects Text

/-! ## What `run` is given -/

/-- What `run` has worked out before it connects. -/
structure Settings where
  host : String
  port : UInt16
  user : String
  password : Option String
  passphrase : Option String
  strictCheck : Bool
  userKnownHosts : Option String
  exitOnFwdFailure : Bool
  bindAddress : Option String
  bindInterface : Option String
  localForwards : List ForwardSpec
  remoteForwards : List ForwardSpec
  dynamicForwards : List DynamicForwardSpec
  httpConnects : List DynamicForwardSpec

/-- What `run` calls and reads: russh's defaults and names, the parsers of the options that it
parses on the way, the characters that `{:?}` shows as they are, and the process's environment. -/
structure Surroundings where
  defaults : Preferred
  isCipher : String → Bool
  isMac : String → Bool
  parseProxyJump : String → Except String ProxyJumpSpec
  parseFileSpec : String → Except String (String × String)
  parseStdioForward : String → Except String (String × UInt16)
  expandPath : String → String
  shellEscape : String → String
  printable : Char → Bool
  envVar : String → Option String
  envVars : List (String × String)

/-! ## Operations -/

/-- The host at the other end of a connection. -/
inductive Hop where
  | jump
  | target
deriving DecidableEq

/-- What `run` does. `connectJump` and `connectTunnel` are the calls of `client::connect_stream`,
over the TCP stream to the jump host and over the tunnel. `tcpipForward` is answered with the port
that the server allocated, where it was asked for port 0. `pumpStdio` is the pump of `-W`. The
requests on a channel (`requestSubsystem`, `requestPty`, `exec`, `requestShell`) are answered once
they are sent: what the server says to them is a message on the channel. -/
inductive RunOp where
  | connectWithBind (preferred : Preferred) (host : String) (port : UInt16) (handler : SshHandler)
      (bindAddress bindInterface : Option String)
  | connectTcp (addr : String)
  | connectJump (preferred : Preferred) (handler : SshHandler)
  | openTunnel (host : String) (port : UInt16)
  | connectTunnel (preferred : Preferred) (handler : SshHandler)
  | authenticate (hop : Hop) (user : String) (identityFile : List String)
      (password passphrase : Option String)
  | runMaster (path : String)
  | openSession
  | requestSubsystem (name : String)
  | initSftp
  | pushPath (localPath remotePath : String)
  | pullPath (remotePath localPath : String)
  | rsyncUpload (localPath remotePath : String) (opts : List String)
  | spawnForwards (task : ForwardTask)
  | tcpipForward (addr : String) (port : UInt16)
  | openDirectTcpip (host : String) (port : UInt16)
  | pumpStdio
  | agentForward
  | requestPty
  | setEnv (name value : String)
  | exec (command : Bytes)
  | requestShell
  | runSession

abbrev RunOp.Res : RunOp → Type
  | .spawnForwards _ | .pumpStdio => Unit
  | .runSession => Except String Int32
  | .tcpipForward _ _ => Except String UInt32
  | _ => Except String Unit

/-- How a run that meets no error ends: it returns, the process exits, or it sleeps for ever. -/
inductive Ending where
  | returned
  | exited (code : Int32)
  | waits
deriving DecidableEq

abbrev RunM (α : Type) : Type := Action RunOp RunOp.Res String α

abbrev RunLog : Type := List ((op : RunOp) × op.Res)

/-- `.context(message)?` on an answer. -/
def context (message : String) (answer : Except String Unit) : Except String Unit :=
  answer.mapError fun _ => message

/-! ## Connecting -/

/-- A list of `-c` or `-m`: the names, if russh knows them all. -/
def checkNames (what : String) (isName : String → Bool) (specs : List String) :
    Except String (List String) :=
  match specs.find? fun s => !isName s with
  | some s => .error s!"unknown {what}: {s} (see `ssh -Q {what}` for valid names)"
  | none => .ok specs

/-- `config.preferred`: russh's lists, or those of `-c` and `-m`. -/
def preferred (ctx : Surroundings) (cli : Cli) : Except String Preferred := do
  let cipher ←
    if cli.cipherSpec = [] then pure ctx.defaults.cipher
    else checkNames "cipher" ctx.isCipher cli.cipherSpec
  let mac ←
    if cli.macSpec = [] then pure ctx.defaults.mac else checkNames "mac" ctx.isMac cli.macSpec
  pure ⟨cipher, mac⟩

/-- The fields of `SshHandler::new` that the host-key check reads. -/
def handlerFor (cli : Cli) (st : Settings) (host : String) (port : UInt16) : SshHandler :=
  ⟨st.strictCheck, host, port, st.userKnownHosts, cli.acceptAllHostKeys⟩

/-- The steps of `-J`. -/
def connectThroughJump (ctx : Surroundings) (cli : Cli) (st : Settings) (prefs : Preferred)
    (jumpSpec : String) : RunM Unit := do
  let jump ← ofResult ((ctx.parseProxyJump jumpSpec).mapError fun _ =>
    s!"Invalid proxy jump spec: {jumpSpec}")
  let jumpUser := jump.user.getD st.user
  let jumpAddr := s!"{jump.host}:{jump.port}"
  call (.connectTcp jumpAddr) (context s!"ProxyJump: failed to connect to jump host {jumpAddr}")
  call (.connectJump prefs (handlerFor cli st jump.host jump.port))
    (context "ProxyJump: failed to establish SSH session to jump host")
  call (.authenticate .jump jumpUser cli.identityFile st.password st.passphrase)
    (context s!"ProxyJump: authentication to {jumpUser}@{jumpAddr} failed")
  call (.openTunnel st.host st.port)
    (context "ProxyJump: failed to open direct-tcpip channel through jump host")
  call (.connectTunnel prefs (handlerFor cli st st.host st.port))
    (context "ProxyJump: failed to establish SSH session to target")

/-- The connection to the target. -/
def connect (ctx : Surroundings) (cli : Cli) (st : Settings) : RunM Unit := do
  let prefs ← ofResult (preferred ctx cli)
  match cli.proxyJump with
  | some jumpSpec => connectThroughJump ctx cli st prefs jumpSpec
  | none =>
    call (.connectWithBind prefs st.host st.port (handlerFor cli st st.host st.port)
      st.bindAddress st.bindInterface) id

/-! ## Transfers -/

/-- `is_absolute_path`. -/
def isAbsolutePath (s : String) : Bool :=
  match s.toList with
  | '/' :: _ => true
  | a :: ':' :: c :: _ => a.isAlpha && (c = '/' || c = '\\')
  | _ => false

/-- A transfer is asked for. -/
def Cli.transfers (cli : Cli) : Bool :=
  !cli.push.isEmpty || !cli.pull.isEmpty || !cli.rsync.isEmpty

def pushSpec (ctx : Surroundings) (s : String) : RunM Unit := do
  let (l, r) ← ofResult (ctx.parseFileSpec s)
  call (.pushPath (ctx.expandPath l) r) id

def pullSpec (ctx : Surroundings) (s : String) : RunM Unit := do
  let (r, l) ← ofResult (ctx.parseFileSpec s)
  call (.pullPath r (ctx.expandPath l)) id

def rsyncSpec (ctx : Surroundings) (cli : Cli) (s : String) : RunM Unit := do
  let (left, right) ← ofResult (ctx.parseFileSpec s)
  let left := ctx.expandPath left
  let right := ctx.expandPath right
  if !isAbsolutePath right || !isAbsolutePath left then
    throw "--rsync: both paths must be absolute. Format: --rsync /local/path:/remote/path"
  else call (.rsyncUpload left right cli.rsyncOpt) id

def transfer (ctx : Surroundings) (cli : Cli) : RunM Unit :=
  if cli.transfers then do
    call .openSession id
    call (.requestSubsystem "sftp") (context "failed to start SFTP subsystem")
    call .initSftp (context "failed to initialize SFTP session")
    forM cli.push (pushSpec ctx)
    forM cli.pull (pullSpec ctx)
    forM cli.rsync (rsyncSpec ctx cli)
  else pure ()

/-! ## Forwards -/

/-- What the forwarding tasks are given. -/
def forwardSession (cli : Cli) (st : Settings) : ForwardSession :=
  ⟨st.host, st.port, st.user, st.password, st.passphrase, cli.identityFile, st.userKnownHosts,
    st.strictCheck, cli.acceptAllHostKeys, st.exitOnFwdFailure⟩

/-- `spawn_forward_tasks`, which spawns nothing for an empty list. -/
def spawnForwardTasks (session : ForwardSession) (specs : ForwardSpecs) : RunM Unit :=
  if specs.isEmpty then pure () else call (.spawnForwards ⟨specs, session⟩) .ok

/-- One `-R`. The port in the answer is dropped. -/
def requestRemoteForward (st : Settings) (fw : ForwardSpec) : RunM Unit := do
  match ← call (.tcpipForward fw.bindAddr fw.bindPort) .ok with
  | .ok _ => pure ()
  | .error e => if st.exitOnFwdFailure then throw e else pure ()

def startForwards (cli : Cli) (st : Settings) : RunM Unit := do
  spawnForwardTasks (forwardSession cli st) (.httpConnect st.httpConnects)
  spawnForwardTasks (forwardSession cli st) (.socks st.dynamicForwards)
  forM st.remoteForwards (requestRemoteForward st)
  spawnForwardTasks (forwardSession cli st) (.localPort st.localForwards)

/-! ## The session -/

/-- `agent_sock_path`. -/
def agentSockPath (ctx : Surroundings) (cli : Cli) : Option String :=
  if cli.noForwardAgent then none
  else if cli.forwardAgent then (ctx.envVar "SSH_AUTH_SOCK").filter (· ≠ "")
  else none

def shouldForwardLocaleEnv (name : String) : Bool :=
  name = "LANG" || name = "LANGUAGE" || "LC_".toList.isPrefixOf name.toList

/-- `-T` wins over `-t`. -/
def wantPty (cli : Cli) : Bool := !cli.disablePty && (cli.forceTty || !cli.noCommand)

/-- `-A`: a failure is logged. -/
def requestAgent (ctx : Surroundings) (cli : Cli) : RunM Unit :=
  if cli.forwardAgent && !cli.noForwardAgent && (agentSockPath ctx cli).isSome then do
    let _ ← call .agentForward .ok
    pure ()
  else pure ()

def requestTerminal (cli : Cli) : RunM Unit :=
  if wantPty cli then call .requestPty id else pure ()

/-- The locale, which the server may ignore. -/
def forwardLocale (ctx : Surroundings) : RunM Unit :=
  forM (ctx.envVars.filter fun (name, _) => shouldForwardLocaleEnv name) fun (name, value) => do
    let _ ← call (.setEnv name value) .ok
    pure ()

/-- The session channel, with the requests before a command or a shell. -/
def openSessionChannel (ctx : Surroundings) (cli : Cli) : RunM Unit := do
  call .openSession id
  requestAgent ctx cli
  requestTerminal cli
  forwardLocale ctx

/-- What runs on the channel. -/
def runCommand (ctx : Surroundings) (cli : Cli) : RunM Ending := do
  if cli.command ≠ [] then do
    call (.exec (utf8 (execPayload ctx.envVar ctx.shellEscape cli))) id
    let code ← call .runSession id
    pure (.exited code)
  else if !cli.noCommand then do
    call .requestShell id
    let code ← call .runSession id
    pure (.exited code)
  else pure .waits

/-- `pure_fwd`. -/
def pureFwd (cli : Cli) (st : Settings) : Bool :=
  cli.noCommand &&
    (!st.remoteForwards.isEmpty || !st.dynamicForwards.isEmpty || !st.httpConnects.isEmpty)

/-- `-W`. -/
def stdioForward (ctx : Surroundings) (spec : String) : RunM Ending := do
  let (host, port) ← ofResult ((ctx.parseStdioForward spec).mapError fun _ =>
    "invalid -W host:port: " ++ debugStr ctx.printable spec)
  call (.openDirectTcpip host port)
    (context s!"stdio forward: sshd refused direct-tcpip channel to {host}:{port}")
  call .pumpStdio .ok
  pure .returned

/-- `run` once the forwards are set up. -/
def serve (ctx : Surroundings) (cli : Cli) (st : Settings) : RunM Ending := do
  if cli.transfers && cli.stdioForward.isSome then
    throw ("-W (stdio forward) is mutually exclusive with --push/--pull/--rsync; " ++
      "use one mode or the other, not both")
  else
    match cli.stdioForward with
    | some spec => stdioForward ctx spec
    | none =>
      if !pureFwd cli st then do
        openSessionChannel ctx cli
        runCommand ctx cli
      else if !st.localForwards.isEmpty || !st.remoteForwards.isEmpty then pure .waits
      else pure .returned

/-! ## The whole -/

/-- `run` once it is authenticated. -/
def runAuthenticated (ctx : Surroundings) (cli : Cli) (st : Settings) : RunM Ending := do
  match cli.controlPath with
  | some path => do
    call (.runMaster path) id
    pure .returned
  | none => do
    transfer ctx cli
    if cli.transfers && cli.command.isEmpty && !cli.noCommand then pure .returned
    else do
      startForwards cli st
      serve ctx cli st

/-- Without a master, and unless the transfers were all, the forwards come next. -/
theorem runAuthenticated_eq {ctx : Surroundings} {cli : Cli} {st : Settings}
    (hmaster : cli.controlPath = none)
    (hgoesOn : (cli.transfers && cli.command.isEmpty && !cli.noCommand) = false) :
    runAuthenticated ctx cli st = transfer ctx cli >>= fun _ =>
      startForwards cli st >>= fun _ => serve ctx cli st := by
  unfold runAuthenticated
  rw [hmaster, hgoesOn]
  rfl

/-- `run` up to where it is authenticated. -/
def login (ctx : Surroundings) (cli : Cli) (st : Settings) : RunM Unit := do
  if st.host = "" then throw "no destination specified"
  else do
    connect ctx cli st
    call (.authenticate .target st.user cli.identityFile st.password st.passphrase) id

/-- `run` from where it has no master to resume on. -/
def run (ctx : Surroundings) (cli : Cli) (st : Settings) : RunM Ending := do
  login ctx cli st
  runAuthenticated ctx cli st

/-! ## A plain run -/

/-- russh and a process that know no names and no variables, with parsers that accept nothing. -/
def bareSurroundings : Surroundings where
  defaults := ⟨["chacha20-poly1305@openssh.com"], ["hmac-sha2-256"]⟩
  isCipher _ := false
  isMac _ := false
  parseProxyJump s := .error s
  parseFileSpec s := .error s
  parseStdioForward s := .error s
  expandPath := id
  shellEscape := id
  printable _ := true
  envVar _ := none
  envVars := []

/-- `user@host`, without forwards. -/
def plainSettings : Settings where
  host := "host"
  port := 22
  user := "user"
  password := some "secret"
  passphrase := none
  strictCheck := false
  userKnownHosts := none
  exitOnFwdFailure := false
  bindAddress := none
  bindInterface := none
  localForwards := []
  remoteForwards := []
  dynamicForwards := []
  httpConnects := []

/-- A server on which every call succeeds, with port 40000 for port 0, and sessions that end
with 0. -/
def grantAll : Handler RunOp RunOp.Res Unit := fun op s =>
  match op with
  | .spawnForwards _ | .pumpStdio => ((), s)
  | .runSession => (.ok 0, s)
  | .tcpipForward _ port => (.ok (if port = 0 then 40000 else 0), s)
  | .connectWithBind _ _ _ _ _ _ | .connectTcp _ | .connectJump _ _ | .openTunnel _ _
  | .connectTunnel _ _ | .authenticate _ _ _ _ _ | .runMaster _ | .openSession
  | .requestSubsystem _ | .initSftp | .pushPath _ _ | .pullPath _ _ | .rsyncUpload _ _ _
  | .openDirectTcpip _ _ | .agentForward | .requestPty | .setEnv _ _ | .exec _ | .requestShell =>
    (.ok (), s)

end Passhrs
