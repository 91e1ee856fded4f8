import Passhrs.Run.Process

/-!
# What a process takes from its command line

The functions that work out one thing each (where to connect, whether to resume, what `-G` reports,
which words a copy gets) are what the process acts on. What it takes from files is what it has read
in the same run, where the command line or the home directory says.

* **`main_does_as_asked`**: what a process starts, tells a master, reports, logs to and goes on to
  connect with is what its command line asks for.
* **`main_goes_on_iff`**: which command lines get to the rest of `run`.
* **`main_options`**: of the `-o` options, the last value of each key is all that a run goes by.
-/

namespace Passhrs

open Effects SlashPath Text

/-! ## What is read -/

/-- `~/.ssh/config`. -/
def userConfig (home : String) : String := join (join home ".ssh") "config"

/-- The configuration of the host is what the parser makes of this file, as it was read, with its
includes. -/
def ParsedFrom (ctx : ProcessContext) (log : ProcessLog) (path host : String)
    (resolved : HostConfig) : Prop :=
  ∃ content merged, ⟨.readToString path, .ok content⟩ ∈ log ∧
    ⟨.preprocessIncludes content ((parent path).getD ".") host, .ok merged⟩ ∈ log ∧
    ctx.parseConfig merged host = .ok resolved

/-- The configuration of the host is that of the file of `-F`, or else of `~/.ssh/config`, where
there may be none. -/
inductive ConfigOf (ctx : ProcessContext) (log : ProcessLog) (host : String) :
    Option String → HostConfig → Prop where
  | null {path : String} (h : isDevNull path = true) : ConfigOf ctx log host (some path) .none
  | file {path : String} {resolved : HostConfig} (h : isDevNull path = false)
      (hparsed : ParsedFrom ctx log path host resolved) : ConfigOf ctx log host (some path) resolved
  | homeless (h : ⟨.homeDir, none⟩ ∈ log) : ConfigOf ctx log host none .none
  | missing {home : String} (hhome : ⟨.homeDir, some home⟩ ∈ log)
      (h : ⟨.exists (userConfig home), false⟩ ∈ log) : ConfigOf ctx log host none .none
  | unreadable {home error : String} (hhome : ⟨.homeDir, some home⟩ ∈ log)
      (h : ⟨.readToString (userConfig home), .error error⟩ ∈ log) : ConfigOf ctx log host none .none
  | user {home : String} {resolved : HostConfig} (hhome : ⟨.homeDir, some home⟩ ∈ log)
      (h : ⟨.exists (userConfig home), true⟩ ∈ log)
      (hparsed : ParsedFrom ctx log (userConfig home) host resolved) :
    ConfigOf ctx log host none resolved

/-- The file was read, and this is its text without the white space at the end. -/
def TrimmedText (log : ProcessLog) (path secret : String) : Prop :=
  ∃ content, ⟨.readToString path, .ok content⟩ ∈ log ∧ secret = trimEnd content

/-- A secret is the text of the file for it, if there is one, and else the value for it, or the text
of the file that the value names. -/
inductive SecretOf (log : ProcessLog) : Option String → Option String → Option String → Prop where
  | none : SecretOf log none none none
  | file {path secret : String} (value : Option String) (h : TrimmedText log path secret) :
    SecretOf log (some path) value (some secret)
  | atFile {value path secret : String} (hvalue : Text.stripPrefix "@" value = some path)
      (h : TrimmedText log path secret) : SecretOf log none (some value) (some secret)
  | named {value secret : String} (hvalue : Text.stripPrefix "@" value = none)
      (hfile : ⟨.isFile value, true⟩ ∈ log) (h : TrimmedText log value secret) :
    SecretOf log none (some value) (some secret)
  | verbatim {value : String} (hvalue : Text.stripPrefix "@" value = none)
      (hfile : value ≠ "" ∧ (utf8 value).length < 256 ∧ value ≠ "-" →
        ⟨.isFile value, false⟩ ∈ log) : SecretOf log none (some value) (some value)

/-! ## What may be done -/

/-- The process is not asked for anything that ends it at once. -/
structure Starts (line : CommandLine) : Prop where
  help : line.help = false
  query : line.query = []
  controlCommand : line.controlCommand = none
  printConfig : line.printConfig = none
  fork : line.fork = false

/-- Nothing on the command line ends the process before the rest of `run`. -/
structure GoesOn (ctx : ProcessContext) (line : CommandLine) : Prop where
  starts : Starts line
  asks : asksNothing line = false
  destination : ∃ dest, destinationOf (line.destination.getD "") = .ok dest
  forwards : ∃ fw,
    parseForwards line (gatewayPorts line (parseSshOptions ctx.lower line.sshOption)) = .ok fw

/-- The settings that a process goes on with, for the configuration of the host. -/
structure Prepared (ctx : ProcessContext) (line : CommandLine) (log : ProcessLog)
    (resolved : HostConfig) (cli : Cli) (st : Settings) : Prop where
  goesOn : GoesOn ctx line
  cli_eq : cli = line.toCli.applyResolved resolved.toResolvedConfig
  target : connectTarget ctx.lower (fun _ _ => .ok resolved.toResolvedConfig) line.flags
    (line.destination.getD "") = .ok ⟨st.host, st.port, st.user⟩
  forwards : parseForwards line (gatewayPorts line (parseSshOptions ctx.lower line.sshOption)) =
    .ok ⟨st.localForwards, st.remoteForwards, st.dynamicForwards, st.httpConnects⟩
  password : SecretOf log line.passwordFile line.password st.password
  passphrase : SecretOf log line.passphraseFile line.passphrase st.passphrase
  rest : st = settings line (parseSshOptions ctx.lower line.sshOption) resolved
    ⟨st.host, st.port, st.user⟩ st.password st.passphrase
    ⟨st.localForwards, st.remoteForwards, st.dynamicForwards, st.httpConnects⟩

/-- The command line asks for the operation, with what has been read in the run. -/
def AskedFor (ctx : ProcessContext) (line : CommandLine) (log : ProcessLog) : ProcessOp → Prop
  | .createLog path => line.logFile = some path
  | .spawn exe args => line.fork = true ∧ ⟨.currentExe, .ok exe⟩ ∈ log ∧
      respawnArgs ctx.program ctx.args = some args
  | .sendControlCommand path cmd => line.controlPath = some path ∧ line.controlCommand = some cmd
  | .printLines lines => ∃ hostArg dest resolved report, line.printConfig = some hostArg ∧
      parseDestination hostArg = .ok dest ∧ ConfigOf ctx log dest.1 line.configFile resolved ∧
      printReport ctx.lower (fun _ _ => .ok resolved.toResolvedConfig) line.flags hostArg
        = .ok report ∧ lines = report.lines
  | .tryResume path cli => ∃ dest resolved, line.controlPath = some path ∧
      destinationOf (line.destination.getD "") = .ok dest ∧
      ConfigOf ctx log dest.1 line.configFile resolved ∧
      cli = line.toCli.applyResolved resolved.toResolvedConfig ∧
      callsTryResume (.ok ()) line.toCli dest.1 resolved.toResolvedConfig = .ok true
  | .restOfRun cli st => ∃ dest resolved, destinationOf (line.destination.getD "") = .ok dest ∧
      ConfigOf ctx log dest.1 line.configFile resolved ∧ Prepared ctx line log resolved cli st
  | _ => True

/-- Any process may do it. -/
def ProcessOp.isCommon : ProcessOp → Bool
  | .createLog _ | .spawn _ _ | .sendControlCommand _ _ | .printLines _ | .tryResume _ _
  | .restOfRun _ _ => false
  | _ => true

/-- A program that does only what the command line asks for, in a run with this log. -/
abbrev DoesAsAsked (ctx : ProcessContext) (line : CommandLine) (log : ProcessLog) {α : Type}
    (Q : α → Prop) (x : ProcessM α) : Prop :=
  Emits (fun op answer => ⟨op, answer⟩ ∈ log) (AskedFor ctx line log) Q x

section Parts

variable {ctx : ProcessContext} {line : CommandLine} {log : ProcessLog} {α β : Type}

theorem asked_call {op : ProcessOp} (hop : AskedFor ctx line log op) {Q : α → Prop}
    {k : op.Res → Except String α} (hQ : ∀ r, ⟨op, r⟩ ∈ log → ∀ a, k r = .ok a → Q a) :
    DoesAsAsked ctx line log Q (call op k) := emits_call hop hQ

theorem asked_common {op : ProcessOp} (hop : op.isCommon = true) {Q : α → Prop}
    {k : op.Res → Except String α} (hQ : ∀ r, ⟨op, r⟩ ∈ log → ∀ a, k r = .ok a → Q a) :
    DoesAsAsked ctx line log Q (call op k) := by
  refine asked_call ?_ hQ
  cases op <;> trivial

/-- An answer that is taken as it is. -/
theorem asked_answer {op : ProcessOp} (hop : op.isCommon = true) :
    DoesAsAsked ctx line log (fun r => ⟨op, r⟩ ∈ log) (call op .ok) :=
  asked_common hop fun _ hr _ ha => Except.ok.inj ha ▸ hr

theorem asked_pure {Q : α → Prop} {a : α} (h : Q a) :
    DoesAsAsked ctx line log Q (pure a : ProcessM α) := emits_pure h

/-- The rule for a program of which nothing is known. -/
theorem asked_bind {Q : β → Prop} {x : ProcessM α} {g : α → ProcessM β}
    (hx : DoesAsAsked ctx line log (fun _ => True) x) (hg : ∀ a, DoesAsAsked ctx line log Q (g a)) :
    DoesAsAsked ctx line log Q (x >>= g) := emits_bind hx fun a _ => hg a

/-- What is said, and nothing comes of it. -/
theorem asked_tell {op : ProcessOp} (hop : op.isCommon = true) :
    DoesAsAsked ctx line log (fun _ => True) (call op .ok : ProcessM op.Res) :=
  asked_common hop fun _ _ _ _ => trivial

theorem asked_loadAndParse {path content : String}
    (hread : ⟨.readToString path, .ok content⟩ ∈ log) (host : String) :
    DoesAsAsked ctx line log (ParsedFrom ctx log path host)
      (loadAndParse ctx content ((parent path).getD ".") host) := by
  have hmerge : DoesAsAsked ctx line log
      (fun merged => ⟨.preprocessIncludes content ((parent path).getD ".") host, .ok merged⟩ ∈ log)
      (call (.preprocessIncludes content ((parent path).getD ".") host) id) := by
    refine asked_common rfl fun r hr merged hmerged => ?_
    obtain rfl : r = .ok merged := hmerged
    exact hr
  refine emits_bind hmerge fun merged hmerged => emits_ofResult fun resolved h => ?_
  rcases hparse : ctx.parseConfig merged host with e | resolved'
  · rw [hparse] at h
    cases h
  · rw [hparse] at h
    obtain rfl := Except.ok.inj h
    exact ⟨content, merged, hread, hmerged, hparse⟩

theorem asked_resolveConfig (configFile : Option String) (host : String) :
    DoesAsAsked ctx line log (ConfigOf ctx log host configFile)
      (resolveConfig ctx configFile host) := by
  unfold resolveConfig
  split
  · next path =>
    split
    · next hnull => exact asked_pure (.null hnull)
    next hfile =>
    have hread : DoesAsAsked ctx line log (fun content => ⟨.readToString path, .ok content⟩ ∈ log)
        (call (.readToString path)
          fun r => r.mapError fun _ => s!"-F: failed to load ssh config: {path}") := by
      refine asked_common rfl fun r hr content hcontent => ?_
      cases r with
      | error e => cases hcontent
      | ok content' =>
        obtain rfl := Except.ok.inj hcontent
        exact hr
    refine emits_bind hread fun content hcontent => ?_
    exact (asked_loadAndParse hcontent host).mono (fun _ h => h)
      fun _ hparsed => .file (Bool.not_eq_true _ ▸ hfile) hparsed
  -- without -F it is the user's own file, where there is one that can be read
  · refine emits_bind (asked_answer rfl) fun home hhome => ?_
    split
    · exact asked_pure (.homeless hhome)
    next home =>
    refine emits_bind (asked_answer rfl) fun found hfound => ?_
    split
    · next hexists =>
      obtain rfl : found = true := hexists
      refine emits_bind (asked_answer rfl) fun content hcontent => ?_
      split
      · exact asked_pure (.unreadable hhome hcontent)
      · exact (asked_loadAndParse hcontent host).mono (fun _ h => h)
          fun _ hparsed => .user hhome hfound hparsed
    · next hmissing =>
      obtain rfl : found = false := Bool.not_eq_true _ ▸ hmissing
      exact asked_pure (.missing hhome hfound)

theorem asked_readTrimmed (message path : String) :
    DoesAsAsked ctx line log (TrimmedText log path) (readTrimmed message path) := by
  have hread : DoesAsAsked ctx line log (fun content => ⟨.readToString path, .ok content⟩ ∈ log)
      (call (.readToString path) fun r => r.mapError fun _ => message) := by
    refine asked_common rfl fun r hr content hcontent => ?_
    cases r with
    | error e => cases hcontent
    | ok content' =>
      obtain rfl := Except.ok.inj hcontent
      exact hr
  exact emits_bind hread fun content hcontent => asked_pure ⟨content, hcontent, rfl⟩

theorem asked_readValueFromFile (value : String) :
    DoesAsAsked ctx line log (fun secret => SecretOf log none (some value) (some secret))
      (readValueFromFile value) := by
  unfold readValueFromFile
  split
  · next path hpath =>
    exact (asked_readTrimmed _ path).mono (fun _ h => h) fun _ h => .atFile hpath h
  next hvalue =>
  split
  · refine emits_bind (asked_answer rfl) fun found hfound => ?_
    split
    · next hfile =>
      obtain rfl : found = true := hfile
      exact (asked_readTrimmed _ value).mono (fun _ h => h) fun _ h => .named hvalue hfound h
    · next hfile =>
      obtain rfl : found = false := Bool.not_eq_true _ ▸ hfile
      exact asked_pure (.verbatim hvalue fun _ => hfound)
  · next hnone => exact asked_pure (.verbatim hvalue fun h => absurd h hnone)

theorem asked_readSecret (option : String) (file value : Option String) :
    DoesAsAsked ctx line log (SecretOf log file value) (readSecret option file value) := by
  unfold readSecret
  split
  · next path =>
    exact emits_bind (asked_readTrimmed _ path) fun _ h => asked_pure (.file value h)
  split
  · next v => exact emits_bind (asked_readValueFromFile v) fun _ h => asked_pure h
  · exact asked_pure .none

theorem asked_resumeFirst {dest : String × Option String × UInt16} {resolved : HostConfig}
    (hdest : destinationOf (line.destination.getD "") = .ok dest)
    (hconfig : ConfigOf ctx log dest.1 line.configFile resolved) :
    DoesAsAsked ctx line log (fun _ => True)
      (resumeFirst (line.toCli.applyResolved resolved.toResolvedConfig)
        (resolved.hostname.getD dest.1)) := by
  unfold resumeFirst
  split
  · next path hpath =>
    split
    · next hasks =>
      refine asked_call (show AskedFor ctx line log (.tryResume path _) from
        ⟨dest, resolved, hpath, hdest, hconfig, rfl, ?_⟩) fun _ _ _ _ => trivial
      show Except.ok (_ && _ && _) = _
      rw [hpath, decide_eq_true hasks.1, hasks.2]
      rfl
    · exact asked_pure trivial
  · exact asked_pure trivial

/-- The target is the one that is worked out from the same flags. -/
theorem connectTarget_targetOf {dest : String × Option String × UInt16} (resolved : HostConfig)
    (hdest : destinationOf (line.destination.getD "") = .ok dest) :
    connectTarget ctx.lower (fun _ _ => .ok resolved.toResolvedConfig) line.flags
        (line.destination.getD "") =
      .ok (targetOf line (parseSshOptions ctx.lower line.sshOption) resolved dest) := by
  unfold connectTarget
  rw [hdest]
  rfl

theorem asked_prepareRun (hstarts : Starts line) (hasks : asksNothing line = false) :
    DoesAsAsked ctx line log (fun _ => True) (prepareRun ctx line) := by
  unfold prepareRun
  refine emits_bind (Q := fun dest => destinationOf (line.destination.getD "") = .ok dest)
    (emits_ofResult fun _ h => h) fun dest hdest => ?_
  refine emits_bind (asked_resolveConfig line.configFile dest.1) fun resolved hconfig => ?_
  refine emits_bind (asked_readSecret _ line.passwordFile line.password) fun password hword => ?_
  refine emits_bind (asked_readSecret _ line.passphraseFile line.passphrase)
    fun passphrase hphrase => ?_
  refine emits_bind (Q := fun fw => parseForwards line _ = .ok fw) (emits_ofResult fun _ h => h)
    fun fw hfw => ?_
  refine asked_bind (asked_resumeFirst hdest hconfig) fun code => ?_
  split
  · exact asked_pure trivial
  · exact asked_call (show AskedFor ctx line log (.restOfRun _ _) from ⟨dest, resolved, hdest,
      hconfig, ⟨hstarts, hasks, ⟨dest, hdest⟩, ⟨fw, hfw⟩⟩, rfl,
      connectTarget_targetOf resolved hdest, hfw, hword, hphrase, rfl⟩) fun _ _ _ _ => trivial

/-- The copy is started from the file that the process runs from. -/
theorem asked_forkProcess (hfork : line.fork = true) :
    DoesAsAsked ctx line log (fun _ => True) (forkProcess ctx) := by
  have hexe : DoesAsAsked ctx line log (fun exe => ⟨.currentExe, .ok exe⟩ ∈ log)
      (call .currentExe id) := by
    refine asked_common rfl fun r hr exe h => ?_
    obtain rfl : r = .ok exe := h
    exact hr
  unfold forkProcess
  refine emits_bind hexe fun exe hexe => ?_
  split
  · next args hargs =>
    exact asked_bind (asked_call (show AskedFor ctx line log (.spawn exe args) from
      ⟨hfork, hexe, hargs⟩) fun _ _ _ _ => trivial) fun _ => asked_pure trivial
  · exact asked_pure trivial

theorem asked_runProcess (hhelp : line.help = false) (hquery : line.query = [])
    (hcontrol : line.controlCommand = none) (hprint : line.printConfig = none) :
    DoesAsAsked ctx line log (fun _ => True) (runProcess ctx line) := by
  unfold runProcess
  split
  · next hfork => exact asked_forkProcess hfork
  next hfork =>
  refine asked_bind ?_ fun _ => ?_
  · unfold createLogFile
    split
    · next path hpath =>
      exact asked_call (show AskedFor ctx line log (.createLog path) from hpath)
        fun _ _ _ _ => trivial
    · exact asked_pure trivial
  split
  · exact asked_bind (asked_tell rfl) fun _ => asked_pure trivial
  · next hasks =>
    exact asked_prepareRun ⟨hhelp, hquery, hcontrol, hprint, Bool.not_eq_true _ ▸ hfork⟩
      (Bool.not_eq_true _ ▸ hasks)

theorem asked_dispatch (queries : List String) :
    DoesAsAsked ctx line log (fun _ => True) (dispatch queries) := by
  refine emits_foldlM (fun rc raw _ => ?_) _
  unfold dispatchOne
  split
  · exact asked_bind (asked_tell rfl) fun _ => asked_pure trivial
  · exact asked_bind (asked_tell rfl) fun _ => asked_pure trivial

/-- What `-G` prints is the report, of which the destination is parsed twice. -/
theorem asked_printConfigLines {hostArg : String} (hprint : line.printConfig = some hostArg) :
    DoesAsAsked ctx line log (fun _ => True) (printConfigLines ctx line hostArg) := by
  unfold printConfigLines
  refine emits_bind (Q := fun dest => parseDestination hostArg = .ok dest)
    (emits_ofResult fun _ h => h) fun dest hdest => ?_
  refine emits_bind (asked_resolveConfig line.configFile dest.1) fun resolved hconfig => ?_
  refine emits_bind (Q := fun lines => writeResolvedConfig ctx.lower _ hostArg = .ok lines)
    (emits_ofResult fun _ h => h) fun lines hlines => ?_
  rcases hreport : configReport ctx.lower
    (applyResolved line.flags resolved.toResolvedConfig) hostArg with e | report
  · rw [writeResolvedConfig, hreport] at hlines
    cases hlines
  · rw [writeResolvedConfig, hreport] at hlines
    refine asked_call (show AskedFor ctx line log (.printLines lines) from
      ⟨hostArg, dest, resolved, report, hprint, hdest, hconfig, ?_, (Except.ok.inj hlines).symm⟩)
      fun _ _ _ _ => trivial
    unfold printReport
    rw [hdest]
    exact hreport

theorem asked_mainProcess : DoesAsAsked ctx line log (fun _ => True) (mainProcess ctx line) := by
  unfold mainProcess
  split
  · exact asked_bind (asked_tell rfl) fun _ => asked_pure trivial
  next hhelp =>
  split
  · exact asked_bind (asked_dispatch _) fun _ => asked_pure trivial
  next hquery =>
  split
  · next cmd hcmd =>
    unfold controlProcess
    split
    · next path hpath =>
      exact asked_bind
        (asked_call (show AskedFor ctx line log (.sendControlCommand path cmd) from ⟨hpath, hcmd⟩)
          fun _ _ _ _ => trivial)
        fun _ => asked_bind (asked_tell rfl) fun _ => asked_pure trivial
    · exact asked_bind (asked_tell rfl) fun _ => asked_pure trivial
  split
  · next hostArg hprint =>
    refine emits_bind (emits_attempt (asked_printConfigLines hprint)) fun r _ => ?_
    split
    · exact asked_pure trivial
    · exact asked_bind (asked_tell rfl) fun _ => asked_pure trivial
  · next hcontrol _ hprint =>
    refine emits_bind (emits_attempt (asked_runProcess (Bool.not_eq_true _ ▸ hhelp)
      (not_not.mp hquery) hcontrol hprint)) fun r _ => ?_
    split
    · exact asked_pure trivial
    · exact asked_bind (asked_tell rfl) fun _ => asked_pure trivial

end Parts

section Runs

variable {σ : Type} {ctx : ProcessContext} {line : CommandLine}

/-- **A process does what its command line asks for**, on every machine and for every answer: a copy
of it gets the words that are left, a verb goes to the master that is named, what `-G` prints is the
report for the configuration of its host, a master is asked where the decision says so, and it goes
on with the target, the forwards, the secrets and the other settings that the options and the
configuration of the destination come to. -/
theorem main_does_as_asked (h : Handler ProcessOp ProcessOp.Res σ) (s : σ)
    {e : (op : ProcessOp) × op.Res} (he : e ∈ execLog h (mainProcess ctx line) s) :
    AskedFor ctx line (execLog h (mainProcess ctx line) s) e.1 :=
  asked_mainProcess.of_answered e he

/-- `passhrs user@host uptime`. -/
def uptimeLine : CommandLine where
  toCli := { Cli.ofCommand ["uptime"] with password := some "secret" }
  help := false
  query := []
  controlCommand := none
  printConfig := none
  fork := false
  logFile := none
  destination := some "user@host"
  configFile := none
  sshOption := ["Port=2200", "port=22", "GatewayPorts=yes"]
  sshPort := 22
  user := none
  gatewayPorts := false
  passphrase := none
  passphraseFile := none
  bindAddress := none
  bindInterface := none

def plainContext : ProcessContext := ⟨toAsciiLowercase, fun _ _ => .ok .none, "passhrs", []⟩

/-- A machine on which files are empty and nothing listens, and a server on which all goes well. -/
def emptyMachine : Handler ProcessOp ProcessOp.Res Unit := fun op s =>
  match op with
  | .printHelp | .printQuery _ | .printError _ | .reportError _ | .createLog _ => ((), s)
  | .printLines _ | .spawn _ _ => (.ok (), s)
  | .homeDir => (none, s)
  | .exists _ | .isFile _ => (false, s)
  | .readToString _ | .preprocessIncludes _ _ _ | .currentExe => (.ok "", s)
  | .sendControlCommand _ _ => (.noMaster, s)
  | .tryResume _ _ => (.ok none, s)
  | .restOfRun _ _ => (.ok (.exited 0), s)

/-- What happens there. -/
def uptimeLog : ProcessLog :=
  [⟨.homeDir, none⟩, ⟨.isFile "secret", false⟩,
    ⟨.restOfRun uptimeLine.toCli plainSettings, .ok (.exited 0)⟩]

theorem uptime_as_asked :
    AskedFor plainContext uptimeLine uptimeLog (.restOfRun uptimeLine.toCli plainSettings) := by
  have hlog : execLog emptyMachine (mainProcess plainContext uptimeLine) () = uptimeLog := rfl
  have hmem : (⟨.restOfRun uptimeLine.toCli plainSettings, .ok (.exited 0)⟩ :
      (op : ProcessOp) × op.Res) ∈
        execLog emptyMachine (mainProcess plainContext uptimeLine) () := by
    rw [hlog]
    simp [uptimeLog]
  exact hlog ▸ main_does_as_asked emptyMachine () hmem

/-! ## Which command lines go on -/

/-- The operation is the rest of `run`. -/
def ProcessOp.IsRestOfRun (op : ProcessOp) : Prop := ∃ cli st, op = .restOfRun cli st

/-- The files can be read, and no live master is there. -/
def Supplies : (op : ProcessOp) → op.Res → Prop
  | .readToString _, r | .preprocessIncludes _ _ _, r => ∃ text, r = .ok text
  | .tryResume _ _, r => r = .ok none
  | _, _ => True

theorem supplied_tell {α : Type} {op : ProcessOp} {k : op.Res → Except String α}
    (hk : ∀ r, Supplies op r → ∃ a, k r = .ok a) :
    Succeeds Supplies (fun _ => True) (call op k : ProcessM α) :=
  succeeds_call fun r hr => (hk r hr).imp fun _ ha => ⟨ha, trivial⟩

theorem supplied_bind {α β : Type} {x : ProcessM α} {g : α → ProcessM β}
    (hx : Succeeds Supplies (fun _ => True) x) (hg : ∀ a, Succeeds Supplies (fun _ => True) (g a)) :
    Succeeds Supplies (fun _ => True) (x >>= g) := succeeds_bind hx fun a _ => hg a

theorem supplied_pure {α : Type} (a : α) :
    Succeeds Supplies (fun _ => True) (pure a : ProcessM α) :=
  succeeds_pure trivial

theorem supplied_loadAndParse (hparse : ∀ merged host, ∃ c, ctx.parseConfig merged host = .ok c)
    (content base host : String) :
    Succeeds Supplies (fun _ => True) (loadAndParse ctx content base host) := by
  refine supplied_bind (supplied_tell fun r hr => hr) fun merged => succeeds_ofResult ?_
  obtain ⟨c, hc⟩ := hparse merged host
  exact ⟨c, by rw [hc]; rfl, trivial⟩

theorem supplied_resolveConfig (hparse : ∀ merged host, ∃ c, ctx.parseConfig merged host = .ok c)
    (configFile : Option String) (host : String) :
    Succeeds Supplies (fun _ => True) (resolveConfig ctx configFile host) := by
  unfold resolveConfig
  split
  · split
    · exact supplied_pure _
    · refine supplied_bind (supplied_tell ?_) fun _ => supplied_loadAndParse hparse _ _ _
      rintro _ ⟨text, rfl⟩
      exact ⟨text, rfl⟩
  · refine supplied_bind (supplied_tell fun r _ => ⟨r, rfl⟩) fun home => ?_
    split
    · exact supplied_pure _
    · refine supplied_bind (supplied_tell fun r _ => ⟨r, rfl⟩) fun found => ?_
      split
      · refine supplied_bind (supplied_tell fun r _ => ⟨r, rfl⟩) fun content => ?_
        split
        · exact supplied_pure _
        · exact supplied_loadAndParse hparse _ _ _
      · exact supplied_pure _

theorem supplied_readTrimmed (message path : String) :
    Succeeds Supplies (fun _ => True) (readTrimmed message path) := by
  refine supplied_bind (supplied_tell ?_) fun _ => supplied_pure _
  rintro _ ⟨text, rfl⟩
  exact ⟨text, rfl⟩

theorem supplied_readSecret (option : String) (file value : Option String) :
    Succeeds Supplies (fun _ => True) (readSecret option file value) := by
  unfold readSecret
  split
  · exact supplied_bind (supplied_readTrimmed _ _) fun _ => supplied_pure _
  split
  · refine supplied_bind ?_ fun _ => supplied_pure _
    unfold readValueFromFile
    split
    · exact supplied_readTrimmed _ _
    split
    · refine supplied_bind (supplied_tell fun r _ => ⟨r, rfl⟩) fun found => ?_
      split
      · exact supplied_readTrimmed _ _
      · exact supplied_pure _
    · exact supplied_pure _
  · exact supplied_pure _

/-- No live master answers. -/
theorem supplied_resumeFirst (cli : Cli) (host : String) :
    Succeeds Supplies (fun code => code = none) (resumeFirst cli host) := by
  unfold resumeFirst
  split
  · split
    · exact succeeds_call fun r hr => ⟨none, hr, rfl⟩
    · exact succeeds_pure rfl
  · exact succeeds_pure rfl

theorem reaches_restOfRun (hparse : ∀ merged host, ∃ c, ctx.parseConfig merged host = .ok c)
    (hgoesOn : GoesOn ctx line) :
    Reaches Supplies ProcessOp.IsRestOfRun (mainProcess ctx line) := by
  obtain ⟨⟨hhelp, hquery, hcontrol, hprint, hfork⟩, hasks, ⟨dest, hdest⟩, fw, hfw⟩ := hgoesOn
  have hrun : Reaches Supplies ProcessOp.IsRestOfRun (runProcess ctx line) := by
    unfold runProcess
    rw [hfork, hasks]
    -- a log file that cannot be created stops nothing
    have hlog : Succeeds Supplies (fun _ => True) (createLogFile line) := by
      unfold createLogFile
      split
      · exact supplied_tell fun r _ => ⟨r, rfl⟩
      · exact supplied_pure _
    refine reaches_bind hlog fun _ _ => ?_
    show Reaches _ _ (prepareRun ctx line)
    unfold prepareRun
    refine reaches_bind (Q := fun _ => True) (succeeds_ofResult ⟨dest, hdest, trivial⟩)
      fun dest _ => ?_
    refine reaches_bind (supplied_resolveConfig hparse _ _) fun resolved _ => ?_
    refine reaches_bind (supplied_readSecret _ _ _) fun password _ => ?_
    refine reaches_bind (supplied_readSecret _ _ _) fun passphrase _ => ?_
    refine reaches_bind (Q := fun _ => True) (succeeds_ofResult ⟨fw, hfw, trivial⟩) fun fw _ => ?_
    refine reaches_bind (supplied_resumeFirst _ _) ?_
    rintro _ rfl
    exact reaches_call ⟨_, _, rfl⟩
  unfold mainProcess
  rw [hhelp, hquery, hcontrol, hprint]
  exact reaches_attempt_bind hrun

/-- **Which command lines go on** to the rest of `run`, on a machine where the files can be read and
parsed and there is no live master: those that ask for nothing that ends the process at once, with a
destination, `-L`, `-R` or `-D`, in which the destination and all forwards are well formed. -/
theorem main_goes_on_iff {h : Handler ProcessOp ProcessOp.Res σ}
    (hparse : ∀ merged host, ∃ c, ctx.parseConfig merged host = .ok c)
    (hsupplies : ∀ op s, Supplies op (h op s).1) (s : σ) :
    (∃ e ∈ execLog h (mainProcess ctx line) s, e.1.IsRestOfRun) ↔ GoesOn ctx line := by
  constructor
  · rintro ⟨⟨op, r⟩, he, cli, st, rfl⟩
    obtain ⟨dest, resolved, -, -, hprepared⟩ := asked_mainProcess.of_answered _ he
    exact hprepared.goesOn
  · exact fun hgoesOn => (reaches_restOfRun hparse hgoesOn).exists_mem hsupplies s

theorem main_goes_on_uptime :
    (∃ e ∈ execLog emptyMachine (mainProcess plainContext uptimeLine) (), e.1.IsRestOfRun) ↔
      GoesOn plainContext uptimeLine :=
  have hsupplies : ∀ op s, Supplies op (emptyMachine op s).1 := fun op s => by
    cases op <;> first | exact ⟨"", rfl⟩ | exact rfl | trivial
  main_goes_on_iff (fun _ _ => ⟨.none, rfl⟩) hsupplies ()

/-! ## Options -/

/-- The options that are some, by their keys. -/
def keyedOptions (lower : Lower) (options : List String) : List (String × String) :=
  (options.filterMap splitOption).map fun opt => (lower opt.1, opt.2)

/-- The value of the last option with the key. -/
def lastValue (lower : Lower) (options : List String) (key : String) : Option String :=
  ((keyedOptions lower options).filter fun opt => opt.1 = key).getLast?.map Prod.snd

theorem parseSshOptions_eq (lower : Lower) (options : List String) (key : String) :
    parseSshOptions lower options key = lastValue lower options key := by
  induction options using List.reverseRecOn with
  | nil => rfl
  | append_singleton options opt ih =>
    unfold parseSshOptions lastValue keyedOptions at ih ⊢
    rw [List.foldl_append, List.filterMap_append, List.map_append, List.filter_append]
    cases hopt : splitOption opt with
    | none => simpa [hopt] using ih
    | some kv =>
      by_cases hkey : lower kv.1 = key
      · simp [hopt, hkey]
      · simpa [hopt, hkey, Ne.symm hkey] using ih

/-- **Of the options a run goes by the last value of each key**: two command lines that agree on
these, and otherwise, are one process on every machine, in whatever order and case the options come,
and whatever else stands among them. `-G` is left out, as it reports the options one by one, and
`-f`, which hands all the words to a copy. -/
theorem main_options {options args : List String} (hprint : line.printConfig = none)
    (hfork : line.fork = false)
    (hsame : ∀ key, lastValue ctx.lower options key = lastValue ctx.lower line.sshOption key) :
    mainProcess { ctx with args := args } { line with sshOption := options } =
      mainProcess ctx line := by
  have hopts : parseSshOptions ctx.lower options = parseSshOptions ctx.lower line.sshOption :=
    funext fun key => by rw [parseSshOptions_eq, parseSshOptions_eq, hsame]
  have hrun : runProcess { ctx with args := args } { line with sshOption := options } =
      runProcess ctx line := by
    unfold runProcess prepareRun
    dsimp only
    rw [hopts, hfork]
    rfl
  unfold mainProcess
  rw [hrun, hprint]

/-- Another order, another case, and a word that is no option. -/
def otherOptions : List String := ["gatewayports=yes", "Verbose", "PORT=22"]

theorem main_options_uptime :
    mainProcess { plainContext with args := otherOptions.flatMap fun opt => ["-o", opt] }
        { uptimeLine with sshOption := otherOptions } =
      mainProcess plainContext uptimeLine := by
  refine main_options rfl rfl fun key => ?_
  have hother : keyedOptions toAsciiLowercase otherOptions =
      [("gatewayports", "yes"), ("port", "22")] := by decide +kernel
  have hline : keyedOptions toAsciiLowercase uptimeLine.sshOption =
      [("port", "2200"), ("port", "22"), ("gatewayports", "yes")] := by decide +kernel
  show lastValue toAsciiLowercase otherOptions key =
    lastValue toAsciiLowercase uptimeLine.sshOption key
  rw [lastValue, lastValue, hother, hline]
  by_cases hport : "port" = key
  · subst hport
    simp
  · by_cases hgateway : "gatewayports" = key
    · subst hgateway
      simp
    · simp [hport, hgateway]

end Runs

end Passhrs
