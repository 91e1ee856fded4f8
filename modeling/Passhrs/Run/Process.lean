import Passhrs.Control.ControlCommand
import Passhrs.Forward.DynamicSpecs
import Passhrs.Lib.PathComponents
import Passhrs.Run.Fork
import Passhrs.Run.Main
import Passhrs.Run.ResumeDecision

/-!
# The process

`main`, and `run` up to where it has no master to resume on: what ends a process early, what it
reads of the local machine, and the settings that it goes on with. It is a program over what it does
outside its own memory. `restOfRun` is the rest of `run`: it may connect, once or more often, or end
before it does. An error is the outermost message of its chain, and what is printed of it is left to
`format_user_error`.
-/

namespace Passhrs

open Effects SlashPath Text

/-! ## What it is given -/

/-- The fields of `Cli` that `main` and the beginning of `run` read, besides those of the rest. -/
structure CommandLine extends Cli where
  help : Bool
  query : List String
  controlCommand : Option String
  printConfig : Option String
  fork : Bool
  logFile : Option String
  destination : Option String
  configFile : Option String
  sshOption : List String
  sshPort : UInt16
  user : Option String
  gatewayPorts : Bool
  passphrase : Option String
  passphraseFile : Option String
  bindAddress : Option String
  bindInterface : Option String

def CommandLine.flags (line : CommandLine) : ConnectFlags :=
  ⟨line.sshPort, line.user, line.identityFile, line.proxyJump, line.sshOption, line.configFile⟩

/-- `config::ResolvedConfig`, with the fields that go into the settings only. -/
structure HostConfig extends ResolvedConfig where
  strictHostKeyChecking : Option Bool
  userKnownHostsFile : Option String

/-- `ResolvedConfig::default()`. -/
def HostConfig.none : HostConfig := ⟨⟨.none, .none, .none, [], .none⟩, .none, .none⟩

/-- `str::to_lowercase`, `russh_config::parse` on what `preprocess_includes` leaves and a host, and
the arguments of the process. -/
structure ProcessContext where
  lower : Lower
  parseConfig : String → String → Except String HostConfig
  program : String
  args : List String

/-! ## Operations -/

/-- What `-Q` lists. The names are russh's. -/
inductive Query where
  | cipher
  | mac
  | kex
  | compression
  | key
  | help
deriving DecidableEq

/-- What a process does. `isFile` is `metadata` and `is_file`, `preprocessIncludes` the whole of
`preprocess_includes`, and `restOfRun` the part of `run` from where it has no master to resume
on. -/
inductive ProcessOp where
  | printHelp
  | printQuery (query : Query)
  | printLines (lines : List String)
  | printError (line : String)
  /-- The line that `main` makes of an error of `run`. -/
  | reportError (error : String)
  | createLog (path : String)
  | homeDir
  | exists (path : String)
  | isFile (path : String)
  | readToString (path : String)
  | preprocessIncludes (content base host : String)
  | currentExe
  | spawn (exe : String) (args : List String)
  | sendControlCommand (path cmd : String)
  | tryResume (path : String) (cli : Cli)
  | restOfRun (cli : Cli) (st : Settings)

abbrev ProcessOp.Res : ProcessOp → Type
  | .printHelp | .printQuery _ | .printError _ | .reportError _ | .createLog _ => Unit
  | .printLines _ | .spawn _ _ => Except String Unit
  | .homeDir => Option String
  | .exists _ | .isFile _ => Bool
  | .readToString _ | .preprocessIncludes _ _ _ | .currentExe => Except String String
  | .sendControlCommand _ _ => CtrlReply
  | .tryResume _ _ => Except String (Option Int32)
  | .restOfRun _ _ => Except String Ending

abbrev ProcessM (α : Type) : Type := Action ProcessOp ProcessOp.Res String α

/-- The operations of a run, each with its answer. -/
abbrev ProcessLog : Type := List ((op : ProcessOp) × op.Res)

/-! ## The configuration -/

/-- `path == Path::new("/dev/null")`, which compares components. -/
def isDevNull (path : String) : Bool :=
  (startAndBody path).1 = [""] &&
    (startAndBody path).2.filter (!isTrivial ·) = ["dev", "null"]

example : isDevNull "/dev//null/" = true ∧ isDevNull "dev/null" = false := by decide

/-- `load_and_parse`. -/
def loadAndParse (ctx : ProcessContext) (content base host : String) : ProcessM HostConfig := do
  let merged ← call (.preprocessIncludes content base host) id
  ofResult ((ctx.parseConfig merged host).mapError fun e => s!"ssh config: parse error: {e}")

/-- `resolve_config`. -/
def resolveConfig (ctx : ProcessContext) (configFile : Option String) (destination : String) :
    ProcessM HostConfig := do
  match configFile with
  | some path =>
    if isDevNull path then pure .none
    else do
      let content ← call (.readToString path)
        fun r => r.mapError fun _ => s!"-F: failed to load ssh config: {path}"
      loadAndParse ctx content ((parent path).getD ".") destination
  | none => do
    match ← call .homeDir .ok with
    | none => pure .none
    | some home => do
      let sshConfig := join (join home ".ssh") "config"
      if ← call (.exists sshConfig) .ok then do
        match ← call (.readToString sshConfig) .ok with
        | .error _ => pure .none
        | .ok content => loadAndParse ctx content ((parent sshConfig).getD ".") destination
      else pure .none

/-! ## Secrets -/

/-- `str::trim_end`. -/
def trimEnd (s : String) : String := .ofList (s.toList.rdropWhile isWhitespace)

/-- `read_to_string` with this message for an error, and `trim_end`. -/
def readTrimmed (message path : String) : ProcessM String := do
  let val ← call (.readToString path) fun r => r.mapError fun _ => message
  pure (trimEnd val)

/-- `read_value_from_file`. -/
def readValueFromFile (s : String) : ProcessM String := do
  match Text.stripPrefix "@" s with
  | some path => readTrimmed s!"failed to read value from file: {path}" path
  | none =>
    if s ≠ "" ∧ (utf8 s).length < 256 ∧ s ≠ "-" then do
      if ← call (.isFile s) .ok then readTrimmed s!"failed to read value from file: {s}" s
      else pure s
    else pure s

/-- A password or a passphrase: that of the file if there is one, else the value on the command
line. `option` is the name of the option for the file. -/
def readSecret (option : String) (file value : Option String) : ProcessM (Option String) := do
  match file with
  | some f => do
    let val ← readTrimmed s!"failed to read {option}: {f}" f
    pure (some val)
  | none =>
    match value with
    | some v => do
      let val ← readValueFromFile v
      pure (some val)
    | none => pure none

/-! ## `run`, up to its rest -/

/-- `-g` or `-o GatewayPorts`. -/
def gatewayPorts (line : CommandLine) (opts : String → Option String) : Bool :=
  line.gatewayPorts || (opts "gatewayports").any fun v => v = "yes" || v = "true" || v = "1"

/-- The command line has no destination and none of the forwards that do without one. -/
def asksNothing (line : CommandLine) : Bool :=
  line.destination.getD "" = "" && line.localForward.isEmpty && line.remoteForward.isEmpty &&
    line.dynamicForward.isEmpty

/-- The four lists of forwards. -/
structure Forwards where
  localForwards : List ForwardSpec
  remoteForwards : List ForwardSpec
  dynamicForwards : List DynamicForwardSpec
  httpConnects : List DynamicForwardSpec

def parseForwards (line : CommandLine) (gateway : Bool) : Except String Forwards := do
  let locals ← line.localForward.mapM fun s => parseForwardSpec s gateway
  let remotes ← line.remoteForward.mapM fun s => parseForwardSpec s gateway
  let dynamics ← line.dynamicForward.mapM fun s => parseDynamicSpec s gateway
  let connects ← line.httpProxyConnect.mapM fun s => parseDynamicSpec s gateway
  pure ⟨locals, remotes, dynamics, connects⟩

/-- What `run` has worked out for its rest. -/
def settings (line : CommandLine) (opts : String → Option String) (resolved : HostConfig)
    (target : ConnectTarget) (password passphrase : Option String) (fw : Forwards) : Settings where
  host := target.host
  port := target.port
  user := target.user
  password := password
  passphrase := passphrase
  strictCheck :=
    (((opts "stricthostkeychecking").map fun v => v = "yes" || v = "accept-new").or
      resolved.strictHostKeyChecking).getD false
  userKnownHosts := (opts "userknownhostsfile").or resolved.userKnownHostsFile
  exitOnFwdFailure := (opts "exitonforwardfailure").any (· = "yes")
  bindAddress := line.bindAddress.or ((opts "bindaddress").filter (· ≠ ""))
  bindInterface := line.bindInterface.filter (· ≠ "")
  localForwards := fw.localForwards
  remoteForwards := fw.remoteForwards
  dynamicForwards := fw.dynamicForwards
  httpConnects := fw.httpConnects

/-- The host, the port and the user, once the configuration is resolved. -/
def targetOf (line : CommandLine) (opts : String → Option String) (resolved : HostConfig)
    (dest : String × Option String × UInt16) : ConnectTarget :=
  let host := resolved.hostname.getD dest.1
  let user := ((line.user.or resolved.user).or dest.2.1).getD "root"
  let port := if line.sshPort ≠ 22 then line.sshPort else dest.2.2
  let port := ((opts "port").bind parseU16).getD port
  let port := if port = 22 then resolved.port.getD port else port
  ⟨host, port, user⟩

/-- The early exit: the code of a live master. -/
def resumeFirst (cli : Cli) (host : String) : ProcessM (Option Int32) := do
  match cli.controlPath with
  | some path =>
    if host ≠ "" ∧ hasNoFreshAuth cli then call (.tryResume path cli) id else pure none
  | none => pure none

/-- `run`, once it has a destination or a forward. -/
def prepareRun (ctx : ProcessContext) (line : CommandLine) : ProcessM Ending := do
  let opts := parseSshOptions ctx.lower line.sshOption
  let dest ← ofResult (destinationOf (line.destination.getD ""))
  let resolved ← resolveConfig ctx line.configFile dest.1
  let target := targetOf line opts resolved dest
  let cli := line.toCli.applyResolved resolved.toResolvedConfig
  let password ← readSecret "--password-file" line.passwordFile line.password
  let passphrase ← readSecret "--identity-passphrase-file" line.passphraseFile line.passphrase
  let fw ← ofResult (parseForwards line (gatewayPorts line opts))
  match ← resumeFirst cli target.host with
  | some code => pure (.exited code)
  | none => call (.restOfRun cli (settings line opts resolved target password passphrase fw)) id

/-- `-f`: the process ends, or panics where there is no argument to leave out. -/
def forkProcess (ctx : ProcessContext) : ProcessM Ending := do
  let exe ← call .currentExe id
  match respawnArgs ctx.program ctx.args with
  | some args => do
    call (.spawn exe args) id
    pure (.exited 0)
  | none => pure (.exited 101)

def createLogFile (line : CommandLine) : ProcessM Unit :=
  match line.logFile with
  | some path => call (.createLog path) .ok
  | none => pure ()

/-- `run`. -/
def runProcess (ctx : ProcessContext) (line : CommandLine) : ProcessM Ending := do
  if line.fork then forkProcess ctx
  else do
    createLogFile line
    if asksNothing line then do
      call .printHelp .ok
      pure .returned
    else prepareRun ctx line

/-! ## `main` -/

/-- The query that a `-Q` asks for, or the complaint. -/
def queryOf (raw : String) : Except String Query :=
  let what := toAsciiLowercase raw
  if what = "cipher" then .ok .cipher
  else if what = "mac" then .ok .mac
  else if what = "kex" then .ok .kex
  else if what = "compression" then .ok .compression
  else if what = "key" then .ok .key
  else if what = "help" then .ok .help
  else if what ∈ ["protocol-version", "key-cert", "key-plain", "key-sig", "sig"] then
    .error s!"Unsupported query: {raw} (not applicable to a client). Try `-Q help`"
  else
    .error (s!"Unsupported query: {what}. " ++
      "Valid queries: cipher, mac, kex, compression, key, help")

/-- A round of `query::dispatch`. -/
def dispatchOne (rc : Int32) (raw : String) : ProcessM Int32 :=
  match queryOf raw with
  | .ok query => do
    call (.printQuery query) .ok
    pure rc
  | .error message => do
    call (.printError message) .ok
    pure 1

/-- `query::dispatch`. -/
def dispatch (queries : List String) : ProcessM Int32 := queries.foldlM dispatchOne 0

/-- The line that `main` prints for a reply, and the code. -/
def ctrlReport (path cmd : String) : CtrlReply → String × Int32
  | .running pid => (s!"Master running (pid={pid})", 0)
  | .exiting => ("Master exiting", 0)
  | .noMaster => (s!"No master running at {path}", 1)
  | .unknownReply =>
    (s!"passhrs: -O {cmd}: master at {path} replied with an unexpected payload", 1)

/-- `-O`. -/
def controlProcess (controlPath : Option String) (cmd : String) : ProcessM Ending := do
  match controlPath with
  | some path => do
    let reply ← call (.sendControlCommand path cmd) .ok
    call (.printError (ctrlReport path cmd reply).1) .ok
    pure (.exited (ctrlReport path cmd reply).2)
  | none => do
    call (.printError "passhrs: -O requires -S <control-path>") .ok
    pure (.exited 1)

/-- The lines of `-G`, for the host of `bareHost`. -/
def printConfigLines (ctx : ProcessContext) (line : CommandLine) (hostArg : String) :
    ProcessM Unit := do
  let (bareHost, _, _) ← ofResult (parseDestination hostArg)
  let resolved ← resolveConfig ctx line.configFile bareHost
  let flags := applyResolved line.flags resolved.toResolvedConfig
  let lines ← ofResult (writeResolvedConfig ctx.lower flags hostArg)
  call (.printLines lines) id

/-- `-G`. -/
def printConfigProcess (ctx : ProcessContext) (line : CommandLine) (hostArg : String) :
    ProcessM Ending := do
  match ← attempt (printConfigLines ctx line hostArg) with
  | .ok () => pure (.exited 0)
  | .error e => do
    call (.printError s!"passhrs: invalid -G argument: {e}") .ok
    pure (.exited 1)

/-- `main`. -/
def mainProcess (ctx : ProcessContext) (line : CommandLine) : ProcessM Ending := do
  if line.help then do
    call .printHelp .ok
    pure .returned
  else if line.query ≠ [] then do
    let rc ← dispatch line.query
    pure (.exited rc)
  else
    match line.controlCommand with
    | some cmd => controlProcess line.controlPath cmd
    | none =>
      match line.printConfig with
      | some hostArg => printConfigProcess ctx line hostArg
      | none => do
        match ← attempt (runProcess ctx line) with
        | .ok ending => pure ending
        | .error e => do
          call (.reportError e) .ok
          pure (.exited 1)

end Passhrs
