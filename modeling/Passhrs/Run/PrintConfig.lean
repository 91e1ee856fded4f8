import Passhrs.Lib.Text

/-!
# Where to connect

The host, the port and the user of a connection, worked out from the destination, the flags, the
`-o` options and the configuration: once by `run`, and once by `-G`, which only reports them.

* **`agrees_iff`**: the configurations, flags and destinations for which `-G` reports what `run`
  uses.
-/

namespace Passhrs

open Text

/-! ## What both read -/

/-- The fields of `Cli` that both read. `configFile` is `-F`. -/
structure ConnectFlags where
  sshPort : UInt16
  user : Option String
  identityFile : List String
  proxyJump : Option String
  sshOption : List String
  configFile : Option String

structure ResolvedConfig where
  hostname : Option String
  user : Option String
  port : Option UInt16
  identityFile : List String
  proxyJump : Option String

/-- The host, and the port if there is one, of what stands behind the `@` of a destination. -/
def parseHostPort (dest rest : String) : Except String (String × Option UInt16) :=
  let parsePort (digits : String) : Except String UInt16 :=
    match parseU16 digits with
    | some port => .ok port
    | none => .error s!"invalid port in destination: {dest}"
  match stripPrefix "[" rest with
  | some stripped =>
    match splitn 2 ']' stripped with
    | [host, remaining] =>
      let remaining := remaining.toList.dropWhile (· == ':')
      if remaining = [] then .ok (host, none)
      else do
        let port ← parsePort (.ofList remaining)
        .ok (host, some port)
    | _ => .error s!"unclosed bracket in destination: {dest}"
  | none =>
    match rsplitn 2 ':' rest with
    | [digits, host] => do
      let port ← parsePort digits
      .ok (host, some port)
    | _ => .ok (rest, none)

/-- `parse_destination`. -/
def parseDestination (dest : String) : Except String (String × Option String × UInt16) := do
  let (user, rest) := match rsplitn 2 '@' dest with
    | [rest, user] => (some user, rest)
    | _ => (none, dest)
  let (host, port) ← parseHostPort dest rest
  .ok (host, user, port.getD 22)

example : parseDestination "bob@[::1]:2200" = .ok ("::1", some "bob", 2200) := by decide +kernel

/-- `str::to_lowercase` is a parameter: its tables are not embedded. -/
abbrev Lower : Type := String → String

/-- `opt.find('=')`, and the text on both sides. -/
def splitOption (opt : String) : Option (String × String) :=
  match splitn 2 '=' opt with
  | [key, value] => some (key, value)
  | _ => none

/-- `parse_ssh_options`: a later option replaces an earlier one with its key. -/
def parseSshOptions (lower : Lower) (options : List String) : String → Option String :=
  options.foldl (fun map opt =>
    match splitOption opt with
    | some (key, value) => fun k => if k = lower key then some value else map k
    | none => map) fun _ => none

def applyResolved (flags : ConnectFlags) (resolved : ResolvedConfig) : ConnectFlags :=
  { flags with
    user := flags.user.or resolved.user
    identityFile := flags.identityFile ++ resolved.identityFile
    proxyJump := flags.proxyJump.or resolved.proxyJump }

/-- `resolve_config`, for a `-F` and a bare host. -/
abbrev ResolveConfig : Type := Option String → String → Except String ResolvedConfig

/-! ## `run` -/

structure ConnectTarget where
  host : String
  port : UInt16
  user : String
deriving DecidableEq

/-- The destination of `run`, which may be missing when there is something to forward. -/
def destinationOf (destStr : String) : Except String (String × Option String × UInt16) :=
  if destStr = "" then .ok ("", none, 22) else parseDestination destStr

/-- The lines of `run` between the check for an empty command line and the passwords. -/
def connectTarget (lower : Lower) (resolveConfig : ResolveConfig) (flags : ConnectFlags)
    (destStr : String) : Except String ConnectTarget := do
  let opts := parseSshOptions lower flags.sshOption
  let (host, userFromDest, portFromDest) ← destinationOf destStr
  let resolved ← resolveConfig flags.configFile host
  let host := resolved.hostname.getD host
  let flags := applyResolved flags resolved
  let user := (flags.user.or userFromDest).getD "root"
  let port := if flags.sshPort ≠ 22 then flags.sshPort else portFromDest
  let port := ((opts "port").bind parseU16).getD port
  let port := if port = 22 then resolved.port.getD port else port
  .ok ⟨host, port, user⟩

/-! ## `-G` -/

/-- What `write_resolved_config` works out. -/
structure ConfigReport where
  host : String
  hostname : String
  port : UInt16
  user : String
  identity : String
  options : List (String × String)
deriving DecidableEq

def ConfigReport.lines (report : ConfigReport) : List String :=
  [s!"host {report.host}", s!"hostname {report.hostname}", s!"port {report.port}"] ++
    (if report.user ≠ "" then [s!"user {report.user}"] else []) ++
    (if report.identity ≠ "" then [s!"identityfile {report.identity}"] else []) ++
    report.options.map fun (key, value) => s!"{key} {value}"

/-- `alias` of `write_resolved_config`. -/
def hostAlias (hostArg : String) : String :=
  let afterUser := (rsplitn 2 '@' hostArg).headD hostArg
  trimEndMatches ':' (.ofList (afterUser.toList.takeWhile (· ≠ '[')))

def configReport (lower : Lower) (flags : ConnectFlags) (hostArg : String) :
    Except String ConfigReport := do
  let (host, userFromDest, portFromDest) ← parseDestination hostArg
  .ok {
    host := hostAlias hostArg
    hostname := host
    port := if flags.sshPort ≠ 22 ∧ portFromDest = 22 then flags.sshPort else portFromDest
    user := (flags.user.or userFromDest).getD ""
    identity := ",".intercalate flags.identityFile
    options := flags.sshOption.filterMap fun opt =>
      (splitOption opt).map fun (key, value) => (lower key, trim value) }

/-- `write_resolved_config`: the lines that it writes. -/
def writeResolvedConfig (lower : Lower) (flags : ConnectFlags) (hostArg : String) :
    Except String (List String) :=
  (configReport lower flags hostArg).map ConfigReport.lines

/-- The lines of `main` for `-G`, up to what is written. -/
def printReport (lower : Lower) (resolveConfig : ResolveConfig) (flags : ConnectFlags)
    (hostArg : String) : Except String ConfigReport := do
  let (bareHost, _, _) ← parseDestination hostArg
  let resolved ← resolveConfig flags.configFile bareHost
  configReport lower (applyResolved flags resolved) hostArg

/-- `-G`: the lines on stdout, or the one on stderr. -/
def printConfig (lower : Lower) (resolveConfig : ResolveConfig) (flags : ConnectFlags)
    (hostArg : String) : Except String (List String) :=
  ((printReport lower resolveConfig flags hostArg).map ConfigReport.lines).mapError fun e =>
    s!"passhrs: invalid -G argument: {e}"

/-! ## Where they agree -/

/-- The report is right about the connection. -/
structure ConfigReport.Agrees (report : ConfigReport) (target : ConnectTarget) : Prop where
  hostname : report.hostname = target.host
  port : report.port = target.port
  user : report.user ≠ "" → report.user = target.user

/-- Without `-o port=`: the destination and `-p` do not give two ports, and where they give none the
configuration has none either. With it: the port is the one that they give anyway, or that of the
configuration, which replaces a 22. -/
def PortsAgree (sshPort portFromDest : UInt16) (option config : Option UInt16) : Prop :=
  match option with
  | none =>
    if sshPort = 22 ∧ portFromDest = 22 then config.getD 22 = 22
    else sshPort = 22 ∨ portFromDest = 22 ∨ sshPort = portFromDest
  | some port =>
    let given := if portFromDest = 22 then sshPort else portFromDest
    if port = 22 then given = config.getD 22 else given = port

theorem port_eq_iff (sshPort portFromDest : UInt16) (option config : Option UInt16) :
    (if sshPort ≠ 22 ∧ portFromDest = 22 then sshPort else portFromDest) =
        (let port := option.getD (if sshPort ≠ 22 then sshPort else portFromDest)
         if port = 22 then config.getD port else port) ↔
      PortsAgree sshPort portFromDest option config := by
  unfold PortsAgree
  rcases option with _ | port
  · dsimp only [Option.getD]
    grind
  · dsimp only [Option.getD]
    grind

variable {lower : Lower} {resolveConfig : ResolveConfig} {flags : ConnectFlags}
  {dest host : String} {userFromDest : Option String} {portFromDest : UInt16}
  {resolved : ResolvedConfig}

theorem destinationOf_eq (dest : String) : destinationOf dest = parseDestination dest := by
  rw [destinationOf, ite_eq_right_iff]
  rintro rfl
  decide +kernel

theorem connectTarget_eq (hdest : parseDestination dest = .ok (host, userFromDest, portFromDest))
    (hresolve : resolveConfig flags.configFile host = .ok resolved) :
    connectTarget lower resolveConfig flags dest = .ok {
      host := resolved.hostname.getD host
      port :=
        let port := ((parseSshOptions lower flags.sshOption "port").bind parseU16).getD
          (if flags.sshPort ≠ 22 then flags.sshPort else portFromDest)
        if port = 22 then resolved.port.getD port else port
      user := ((flags.user.or resolved.user).or userFromDest).getD "root" } := by
  unfold connectTarget
  rw [destinationOf_eq, hdest]
  show (resolveConfig flags.configFile host >>= _) = _
  rw [hresolve]
  rfl

theorem printReport_eq (lower : Lower)
    (hdest : parseDestination dest = .ok (host, userFromDest, portFromDest))
    (hresolve : resolveConfig flags.configFile host = .ok resolved) :
    ∃ report, printReport lower resolveConfig flags dest = .ok report ∧ report.hostname = host ∧
      report.port = (if flags.sshPort ≠ 22 ∧ portFromDest = 22 then flags.sshPort
        else portFromDest) ∧
      report.user = ((flags.user.or resolved.user).or userFromDest).getD "" := by
  unfold printReport configReport
  rw [hdest]
  show ∃ report, (resolveConfig flags.configFile host >>= _) = _ ∧ _
  rw [hresolve]
  exact ⟨_, rfl, rfl, rfl, rfl⟩

/-- **Where `-G` tells what `run` does**: for a destination that parses and a configuration that
resolves, both come to a result, and `-G` reports the host, the port and the user of `run` if and
only if the configuration gives no other host name and the ports agree. -/
theorem agrees_iff (hdest : parseDestination dest = .ok (host, userFromDest, portFromDest))
    (hresolve : resolveConfig flags.configFile host = .ok resolved) :
    ∃ report target, printReport lower resolveConfig flags dest = .ok report ∧
      connectTarget lower resolveConfig flags dest = .ok target ∧
      (report.Agrees target ↔ (resolved.hostname = none ∨ resolved.hostname = some host) ∧
        PortsAgree flags.sshPort portFromDest
          ((parseSshOptions lower flags.sshOption "port").bind parseU16) resolved.port) := by
  obtain ⟨report, hreport, hhostname, hport, huser⟩ := printReport_eq lower hdest hresolve
  refine ⟨report, _, hreport, connectTarget_eq hdest hresolve, ?_⟩
  have hhost : resolved.hostname.getD host = host ↔
      resolved.hostname = none ∨ resolved.hostname = some host := by
    rcases resolved.hostname with _ | hostname
    · simp
    · simp
  rw [← hhost, ← port_eq_iff]
  constructor
  · rintro ⟨hhostname', hport', -⟩
    exact ⟨hhostname'.symm.trans hhostname, hport.symm.trans hport'⟩
  · rintro ⟨hhostname', hport'⟩
    refine ⟨hhostname.trans hhostname'.symm, hport.trans hport', fun hprinted => ?_⟩
    -- the two defaults differ, but without a user no line is printed
    rw [huser] at hprinted ⊢
    generalize (flags.user.or resolved.user).or userFromDest = user at hprinted ⊢
    rcases user with _ | user
    · exact absurd rfl hprinted
    · rfl

/-- The alias `web` of a host at another address. -/
theorem hostName_not_reported :
    let flags : ConnectFlags := ⟨22, none, [], none, [], none⟩
    let resolveConfig : ResolveConfig := fun _ _ => .ok ⟨some "10.0.0.7", none, none, [], none⟩
    (printReport id resolveConfig flags "web").map ConfigReport.hostname = .ok "web" ∧
      (connectTarget id resolveConfig flags "web").map ConnectTarget.host = .ok "10.0.0.7" := by
  decide +kernel

/-- `-p 2200`. -/
def flagsWithPort : ConnectFlags := ⟨2200, none, [], none, [], none⟩

def configWithUser : ResolvedConfig := ⟨none, some "bob", none, [], none⟩

theorem agrees_on_user :
    ∃ report target,
      printReport id (fun _ _ => .ok configWithUser) flagsWithPort "web" = .ok report ∧
      connectTarget id (fun _ _ => .ok configWithUser) flagsWithPort "web" = .ok target ∧
      (report.Agrees target ↔
        (configWithUser.hostname = none ∨ configWithUser.hostname = some "web") ∧
          PortsAgree flagsWithPort.sshPort 22
            ((parseSshOptions id flagsWithPort.sshOption "port").bind parseU16)
            configWithUser.port) :=
  have hdest : parseDestination "web" = .ok ("web", none, 22) := by decide +kernel
  agrees_iff hdest rfl

end Passhrs
