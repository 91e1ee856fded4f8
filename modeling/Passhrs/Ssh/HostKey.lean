import Passhrs.Lib.Bytes

/-!
# Host keys

`check_server_key`, and how `run` arrives at the settings it reads. The known-hosts files and
russh's `check_known_hosts_path` are not part of the program: `files` is what the files record,
`check` the call, and `KnownHostsContract` what the one says about the other.

* **`checkServerKey_rejects_changed_iff`**: a changed key is rejected exactly when
  `StrictHostKeyChecking` came out as on.
-/

namespace Passhrs

/-! ## Keys and known-hosts files -/

structure PublicKey where
  algorithm : String
  blob : Bytes
deriving DecidableEq

/-- What the server presents: a bare key, or a certificate around one. -/
inductive PublicKeyOrCertificate where
  | publicKey (key : PublicKey)
  | certificate (key : PublicKey)

def PublicKeyOrCertificate.bare : PublicKeyOrCertificate → PublicKey
  | .publicKey key => key
  | .certificate key => key

/-- A line of a known-hosts file. -/
structure KnownHost where
  host : String
  port : UInt16
  key : PublicKey
deriving DecidableEq

inductive KnownHostsError where
  | keyChanged (line : Nat)
  | other
deriving DecidableEq

/-- `russh::keys::known_hosts::check_known_hosts_path`. -/
abbrev CheckKnownHosts : Type :=
  String → UInt16 → PublicKey → String → Except KnownHostsError Bool

def Recorded (entries : List KnownHost) (host : String) (port : UInt16) (key : PublicKey) : Prop :=
  ∃ e ∈ entries, e.host = host ∧ e.port = port ∧ e.key = key

/-- Another key of the same algorithm is recorded for the host and port. -/
def Changed (entries : List KnownHost) (host : String) (port : UInt16) (key : PublicKey) : Prop :=
  ∃ e ∈ entries, e.host = host ∧ e.port = port ∧ e.key.algorithm = key.algorithm ∧ e.key ≠ key

/-- What the check says about the file it is given. -/
structure KnownHostsContract (files : String → List KnownHost) (check : CheckKnownHosts) :
    Prop where
  changed : ∀ host port key path, Changed (files path) host port key →
    ∃ line, check host port key path = .error (.keyChanged line)
  recorded : ∀ host port key path, Recorded (files path) host port key →
    ¬ Changed (files path) host port key → check host port key path = .ok true
  absent : ∀ host port key path, (∀ e ∈ files path, ¬ (e.host = host ∧ e.port = port)) →
    check host port key path = .ok false

/-! ## Plain files -/

/-- The check over files whose lines are all plain. -/
def checkKnownHosts (files : String → List KnownHost) : CheckKnownHosts :=
  fun host port key path =>
    let entries := (files path).filter fun e => e.host = host && e.port = port
    match entries.findIdx? fun e => e.key.algorithm = key.algorithm && e.key ≠ key with
    | some line => .error (.keyChanged line)
    | none => .ok (entries.any fun e => e.key = key)

theorem checkKnownHosts_contract (files : String → List KnownHost) :
    KnownHostsContract files (checkKnownHosts files) := by
  refine ⟨fun host port key path hchanged => ?_, fun host port key path hrec hsame => ?_,
    fun host port key path hnone => ?_⟩
  · -- the other key is among the lines for this host, so the search finds one
    obtain ⟨e, he, rfl, rfl, halg, hne⟩ := hchanged
    unfold checkKnownHosts
    dsimp only
    split
    · exact ⟨_, rfl⟩
    · next hfind =>
      rw [List.findIdx?_eq_none_iff] at hfind
      simpa [halg, hne] using hfind e (by simp [he])
  · obtain ⟨e, he, rfl, rfl, rfl⟩ := hrec
    unfold checkKnownHosts
    dsimp only
    split
    · next line hfind =>
      obtain ⟨hlt, hline, -⟩ := List.findIdx?_eq_some_iff_getElem.mp hfind
      refine absurd ⟨_, (List.mem_filter.mp (List.getElem_mem hlt)).1, ?_⟩ hsame
      have hmem := (List.mem_filter.mp (List.getElem_mem hlt)).2
      simp only [Bool.and_eq_true, decide_eq_true_eq] at hmem hline
      exact ⟨hmem.1, hmem.2, hline.1, hline.2⟩
    · rw [List.any_eq_true.mpr ⟨e, by simp [he], by simp⟩]
  · unfold checkKnownHosts
    have hentries : ((files path).filter fun e => e.host = host && e.port = port) = [] := by
      rw [List.filter_eq_nil_iff]
      intro e he
      simpa using hnone e he
    rw [hentries]
    rfl

/-- One line, for the host `h`. -/
def oneKnownHost : String → List KnownHost := fun _ => [⟨"h", 22, ⟨"ssh-ed25519", [1]⟩⟩]

/-! ## The program -/

/-- `strict_check` in `run`: the `-o` value wins over the config file's. -/
def strictCheck (opt : Option String) (config : Option Bool) : Bool :=
  ((opt.map fun v => v = "yes" || v = "accept-new") <|> config).getD false

/-- `user_known_hosts` in `run`. -/
def userKnownHosts (opt config : Option String) : Option String := opt <|> config

/-- The fields of `SshHandler` that the host-key check reads. -/
structure SshHandler where
  strictCheck : Bool
  host : String
  port : UInt16
  knownHostsPath : Option String
  acceptAllHostKeys : Bool

/-- `check_server_key`. Its result is always `Ok`. -/
def checkServerKey (check : CheckKnownHosts) (self : SshHandler)
    (serverPublicKey : PublicKeyOrCertificate) : Bool :=
  -- where the source falls out of the `match`, or never enters it
  let fallThrough := if self.strictCheck then false else true
  if self.acceptAllHostKeys then true
  else
    let serverPublicKey := serverPublicKey.bare
    match self.knownHostsPath with
    | some path =>
      if path ≠ "/dev/null" && path ≠ "nul" then
        match check self.host self.port serverPublicKey path with
        | .ok true => true
        | .ok false => if self.strictCheck then false else true
        | .error _ => if self.strictCheck then false else fallThrough
      else fallThrough
    | none => fallThrough

/-- The handler of a connection without `-y`. -/
def SshHandler.ofOptions (strictOpt : Option String) (strictConfig : Option Bool)
    (hostsOpt hostsConfig : Option String) (host : String) (port : UInt16) : SshHandler where
  strictCheck := Passhrs.strictCheck strictOpt strictConfig
  host := host
  port := port
  knownHostsPath := userKnownHosts hostsOpt hostsConfig
  acceptAllHostKeys := false

/-! ## What is accepted -/

theorem strictCheck_iff (opt : Option String) (config : Option Bool) :
    strictCheck opt config = true ↔
      opt = some "yes" ∨ opt = some "accept-new" ∨ opt = none ∧ config = some true := by
  rcases opt with _ | v
  · rcases config with _ | b
    · simp [strictCheck]
    · simp [strictCheck]
  · simp [strictCheck]

/-- With a known-hosts file and without `-y`, a key gets past a strict check only when the file
knows it. -/
theorem checkServerKey_iff (check : CheckKnownHosts) (self : SshHandler)
    (serverPublicKey : PublicKeyOrCertificate) {path : String}
    (hpath : self.knownHostsPath = some path) (hfile : path ≠ "/dev/null" ∧ path ≠ "nul")
    (hy : self.acceptAllHostKeys = false) :
    checkServerKey check self serverPublicKey = true ↔
      self.strictCheck = false ∨
        check self.host self.port serverPublicKey.bare path = .ok true := by
  unfold checkServerKey
  rw [hpath, hy]
  rcases hcheck : check self.host self.port serverPublicKey.bare path with e | known
  · -- a check that fails is passed over unless it is strict
    cases hstrict : self.strictCheck <;> simp [hfile, hcheck]
  · cases hstrict : self.strictCheck <;> cases known <;> simp [hfile, hcheck]

/-- **A changed key is rejected exactly when strict checking is on**: with `yes` or `accept-new`,
or without the option when the config file says so. -/
theorem checkServerKey_rejects_changed_iff {files : String → List KnownHost}
    {check : CheckKnownHosts} (hcontract : KnownHostsContract files check)
    (strictOpt : Option String) (strictConfig : Option Bool) {hostsOpt hostsConfig : Option String}
    {path : String} (hpath : userKnownHosts hostsOpt hostsConfig = some path)
    (hfile : path ≠ "/dev/null" ∧ path ≠ "nul") {host : String} {port : UInt16}
    (serverPublicKey : PublicKeyOrCertificate)
    (hchanged : Changed (files path) host port serverPublicKey.bare) :
    checkServerKey check (.ofOptions strictOpt strictConfig hostsOpt hostsConfig host port)
        serverPublicKey = false ↔
      strictOpt = some "yes" ∨ strictOpt = some "accept-new" ∨
        strictOpt = none ∧ strictConfig = some true := by
  obtain ⟨line, hcheck⟩ := hcontract.changed host port serverPublicKey.bare path hchanged
  rw [← strictCheck_iff, ← Bool.not_eq_true, checkServerKey_iff check _ _ hpath hfile rfl]
  show ¬ (strictCheck strictOpt strictConfig = false ∨
    check host port serverPublicKey.bare path = .ok true) ↔ _
  simp [hcheck]

/-- With `no`, the changed key is accepted. -/
theorem checkServerKey_accepts_changed :
    Changed (oneKnownHost "kh") "h" 22 ⟨"ssh-ed25519", [2]⟩ ∧
      checkServerKey (checkKnownHosts oneKnownHost)
        (.ofOptions (some "no") none (some "kh") none "h" 22)
        (.publicKey ⟨"ssh-ed25519", [2]⟩) = true :=
  ⟨⟨_, List.mem_singleton_self _, by decide⟩, by decide⟩

theorem checkServerKey_rejects_changed_yes :
    checkServerKey (checkKnownHosts oneKnownHost)
        (.ofOptions (some "yes") none (some "kh") none "h" 22)
        (.publicKey ⟨"ssh-ed25519", [2]⟩) = false ↔
      some "yes" = some "yes" ∨ some "yes" = some "accept-new" ∨
        some "yes" = none ∧ (none : Option Bool) = some true :=
  checkServerKey_rejects_changed_iff (checkKnownHosts_contract oneKnownHost) _ _ rfl (by decide) _
    ⟨_, List.mem_singleton_self _, by decide⟩

end Passhrs
