import Passhrs.Run.PrintConfig
import Passhrs.Ssh.HostKey

/-!
# Connections to a new host

A run of connections to one host and port, with the keys that the server presents. Each connection
reads the known-hosts files, and none writes them.

* **`connections_of_absent`**: a host without an entry stays one, and `strict_check` decides about
  all its keys in the same way.
* **`acceptNew_never_trusts`**: with `accept-new`, no first connection is accepted.
-/

namespace Passhrs

abbrev KnownHostsFiles : Type := String → List KnownHost

/-- A connection: what becomes of the files, and whether the key is accepted. `check_server_key`
reads the files, and nothing else in the program opens them. -/
def connection (check : KnownHostsFiles → CheckKnownHosts) (handler : SshHandler)
    (files : KnownHostsFiles) (key : PublicKeyOrCertificate) : KnownHostsFiles × Bool :=
  (files, checkServerKey (check files) handler key)

/-- Connections one after another. -/
def connections (check : KnownHostsFiles → CheckKnownHosts) (handler : SshHandler) :
    KnownHostsFiles → List PublicKeyOrCertificate → KnownHostsFiles × List Bool
  | files, [] => (files, [])
  | files, key :: keys =>
    let (files, accepted) := connection check handler files key
    let (files, rest) := connections check handler files keys
    (files, accepted :: rest)

/-- What trust on first use makes of a new host: its first key is accepted, and other keys of this
algorithm are rejected later. -/
def TrustsOnFirstUse (first : PublicKeyOrCertificate) (later : List PublicKeyOrCertificate)
    (accepted : List Bool) : Prop :=
  accepted[0]? = some true ∧
    ∀ i key, later[i]? = some key → key.bare.algorithm = first.bare.algorithm →
      key.bare ≠ first.bare → accepted[i + 1]? = some false

/-- `options` are the values of `-o`. There is no `-y`. -/
def SshHandler.ofSshOptions (lower : Lower) (options : List String) (strictConfig : Option Bool)
    (hostsConfig : Option String) (host : String) (port : UInt16) : SshHandler :=
  let opts := parseSshOptions lower options
  .ofOptions (opts "stricthostkeychecking") strictConfig (opts "userknownhostsfile") hostsConfig
    host port

/-! ## A host without an entry -/

section NewHost

variable {check : KnownHostsFiles → CheckKnownHosts} (handler : SshHandler)
  {files : KnownHostsFiles}

theorem checkServerKey_of_absent {check : CheckKnownHosts} (hy : handler.acceptAllHostKeys = false)
    (key : PublicKeyOrCertificate)
    (habsent : ∀ path, handler.knownHostsPath = some path →
      check handler.host handler.port key.bare path = .ok false) :
    checkServerKey check handler key = !handler.strictCheck := by
  unfold checkServerKey
  rw [hy]
  cases hpath : handler.knownHostsPath with
  | none => cases handler.strictCheck <;> rfl
  | some path =>
    dsimp only
    rw [habsent path hpath]
    cases handler.strictCheck <;> simp

/-- **All keys of a new host** are decided in the same way. -/
theorem connections_of_absent (hcontract : ∀ files, KnownHostsContract files (check files))
    (hy : handler.acceptAllHostKeys = false)
    (habsent : ∀ path, handler.knownHostsPath = some path →
      ∀ e ∈ files path, ¬ (e.host = handler.host ∧ e.port = handler.port))
    (keys : List PublicKeyOrCertificate) :
    connections check handler files keys =
      (files, List.replicate keys.length (!handler.strictCheck)) := by
  induction keys with
  | nil => rfl
  | cons key keys ih =>
    have hkey : checkServerKey (check files) handler key = !handler.strictCheck :=
      checkServerKey_of_absent handler hy key fun path hpath =>
        (hcontract files).absent _ _ _ path (habsent path hpath)
    rw [connections, connection, hkey]
    dsimp only
    rw [ih]
    rfl

end NewHost

/-- **`accept-new` trusts no new host**: every connection is rejected, the first one too, and the
files stay as they are. -/
theorem acceptNew_never_trusts {check : KnownHostsFiles → CheckKnownHosts}
    (hcontract : ∀ files, KnownHostsContract files (check files)) {lower : Lower}
    {options : List String} {path : String}
    (hstrict : parseSshOptions lower options "stricthostkeychecking" = some "accept-new")
    (hpath : parseSshOptions lower options "userknownhostsfile" = some path)
    (strictConfig : Option Bool) (hostsConfig : Option String) {host : String} {port : UInt16}
    {files : KnownHostsFiles} (hnew : ∀ e ∈ files path, ¬ (e.host = host ∧ e.port = port))
    (first : PublicKeyOrCertificate) (later : List PublicKeyOrCertificate) :
    let handler := SshHandler.ofSshOptions lower options strictConfig hostsConfig host port
    connections check handler files (first :: later) =
        (files, List.replicate (later.length + 1) false) ∧
      ¬ TrustsOnFirstUse first later (connections check handler files (first :: later)).2 := by
  intro handler
  -- `accept-new` is read as strict
  have hhandler : handler.strictCheck = true := by
    show strictCheck (parseSshOptions lower options "stricthostkeychecking") strictConfig = true
    rw [hstrict]
    rfl
  have hhosts : handler.knownHostsPath = some path := by
    show userKnownHosts (parseSshOptions lower options "userknownhostsfile") hostsConfig = some path
    rw [hpath]
    rfl
  have habsent : ∀ path, handler.knownHostsPath = some path →
      ∀ e ∈ files path, ¬ (e.host = host ∧ e.port = port) := by
    intro path' hpath'
    rw [hhosts] at hpath'
    obtain rfl := Option.some.inj hpath'
    exact hnew
  have hrun := connections_of_absent handler hcontract rfl habsent (first :: later)
  rw [hhandler] at hrun
  refine ⟨hrun, fun htrusts => ?_⟩
  rw [hrun] at htrusts
  cases htrusts.1

/-- `-o` with `accept-new` and a file of known hosts. -/
def acceptNewOptions : List String :=
  ["StrictHostKeyChecking=accept-new", "UserKnownHostsFile=kh"]

def noKnownHosts : KnownHostsFiles := fun _ => []

def newKey : PublicKeyOrCertificate := .publicKey ⟨"ssh-ed25519", [1]⟩

/-- A handler with these options, for a host without an entry. -/
def acceptNewHandler : SshHandler :=
  .ofSshOptions Text.toAsciiLowercase acceptNewOptions none none "h" 22

theorem acceptNew_rejects_first :
    (connections checkKnownHosts acceptNewHandler noKnownHosts [newKey]).2 = [false] ∧
      ¬ TrustsOnFirstUse newKey []
        (connections checkKnownHosts acceptNewHandler noKnownHosts [newKey]).2 := by
  have hrun : (connections checkKnownHosts acceptNewHandler noKnownHosts [newKey]).2 = [false] := by
    decide +kernel
  refine ⟨hrun, fun htrusts => ?_⟩
  rw [hrun] at htrusts
  cases htrusts.1

theorem acceptNew_never_trusts_newKey :
    connections checkKnownHosts acceptNewHandler noKnownHosts [newKey] =
        (noKnownHosts, List.replicate 1 false) ∧
      ¬ TrustsOnFirstUse newKey []
        (connections checkKnownHosts acceptNewHandler noKnownHosts [newKey]).2 := by
  have hhosts : parseSshOptions Text.toAsciiLowercase acceptNewOptions "userknownhostsfile" =
      some "kh" := by decide +kernel
  have hnew : ∀ e ∈ noKnownHosts "kh", ¬ (e.host = "h" ∧ e.port = 22) := by
    intro e he
    cases he
  exact acceptNew_never_trusts checkKnownHosts_contract (by decide +kernel) hhosts none none hnew
    newKey []

end Passhrs
