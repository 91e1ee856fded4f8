import Passhrs.Run.EarlyExit
import Passhrs.Run.PrintConfig

/-!
# Whether a run resumes

`run` lays the configuration over the command line before it asks whether the user has supplied
fresh credentials, so an `IdentityFile` of the configuration counts as one of the user's.

* **`callsTryResume_agree_iff`**: the configurations between which the decision does not change.
-/

namespace Passhrs

/-- `apply_resolved`, on the fields that `run` reads afterwards. -/
def Cli.applyResolved (cli : Cli) (resolved : ResolvedConfig) : Cli :=
  { cli with
    identityFile :=
      if resolved.identityFile ≠ [] then
        if cli.identityFile = [] then resolved.identityFile
        else cli.identityFile ++ resolved.identityFile
      else cli.identityFile
    proxyJump := cli.proxyJump.or resolved.proxyJump }

/-- `run` from the configuration of `host` to the early exit: whether it calls `try_resume`. What
lies between reads the passwords and the forwards; `secrets` is how that ends, which
`apply_resolved` has no part in. -/
def callsTryResume (secrets : Except String Unit) (cli : Cli) (host : String)
    (resolved : ResolvedConfig) : Except String Bool := do
  let host := resolved.hostname.getD host
  let cli := cli.applyResolved resolved
  secrets
  pure (cli.controlPath.isSome && host ≠ "" && hasNoFreshAuth cli)

section Decision

variable {cli : Cli} {host : String} {resolved resolved' : ResolvedConfig}

theorem Cli.identityFile_applyResolved (cli : Cli) (resolved : ResolvedConfig) :
    (cli.applyResolved resolved).identityFile = cli.identityFile ++ resolved.identityFile := by
  unfold Cli.applyResolved
  dsimp only
  split
  · split
    · next hcli => rw [hcli, List.nil_append]
    · rfl
  · next hnone => rw [not_not.mp hnone, List.append_nil]

theorem hasNoFreshAuth_applyResolved :
    hasNoFreshAuth (cli.applyResolved resolved) =
      (resolved.identityFile.isEmpty && hasNoFreshAuth cli) := by
  have hempty : (cli.identityFile ++ resolved.identityFile).isEmpty =
      (resolved.identityFile.isEmpty && cli.identityFile.isEmpty) := by
    cases cli.identityFile with
    | nil => exact (Bool.and_true _).symm
    | cons k ks => exact (Bool.and_false _).symm
  unfold hasNoFreshAuth
  rw [Cli.identityFile_applyResolved, hempty, Bool.and_assoc, Bool.and_assoc, Bool.and_assoc]
  rfl

theorem callsTryResume_eq (hhost : resolved.hostname.getD host ≠ "") :
    callsTryResume (.ok ()) cli host resolved =
      .ok (cli.controlPath.isSome && hasNoFreshAuth cli && resolved.identityFile.isEmpty) := by
  show Except.ok (cli.controlPath.isSome && decide (resolved.hostname.getD host ≠ "") &&
    hasNoFreshAuth (cli.applyResolved resolved)) = _
  rw [hasNoFreshAuth_applyResolved, decide_eq_true hhost, Bool.and_true, Bool.and_assoc,
    Bool.and_comm (hasNoFreshAuth cli)]

/-- **Two configurations lead to the same decision exactly when** the command line settles it, by
having no `-S` or a credential of its own, or both name an identity file, or neither does. -/
theorem callsTryResume_agree_iff (secrets : Except String Unit)
    (hhost : resolved.hostname.getD host ≠ "") (hhost' : resolved'.hostname.getD host ≠ "") :
    callsTryResume secrets cli host resolved = callsTryResume secrets cli host resolved' ↔
      secrets ≠ .ok () ∨ cli.controlPath = none ∨ hasNoFreshAuth cli = false ∨
        (resolved.identityFile = [] ↔ resolved'.identityFile = []) := by
  cases secrets with
  | error e => exact iff_of_true rfl (.inl fun h => nomatch h)
  | ok =>
    rw [callsTryResume_eq hhost, callsTryResume_eq hhost', Except.ok.injEq]
    cases cli.controlPath <;> cases hasNoFreshAuth cli <;>
      cases resolved.identityFile <;> cases resolved'.identityFile <;> simp

end Decision

/-- A configuration for the host, with these identity files. -/
def configWithIdentities (identityFile : List String) : ResolvedConfig :=
  ⟨none, none, none, identityFile, none⟩

/-- An `IdentityFile` line keeps the client from its master. -/
theorem identity_line_stops_resuming :
    callsTryResume (.ok ()) (resumeCli ["uptime"]) "host" (configWithIdentities []) = .ok true ∧
      callsTryResume (.ok ()) (resumeCli ["uptime"]) "host"
        (configWithIdentities ["~/.ssh/id_ed25519"]) = .ok false :=
  ⟨rfl, rfl⟩

theorem callsTryResume_agree_uptime :
    callsTryResume (.ok ()) (resumeCli ["uptime"]) "host" (configWithIdentities []) =
        callsTryResume (.ok ()) (resumeCli ["uptime"]) "host" (configWithIdentities []) ↔
      (.ok () : Except String Unit) ≠ .ok () ∨ (resumeCli ["uptime"]).controlPath = none ∨
        hasNoFreshAuth (resumeCli ["uptime"]) = false ∨
        ((configWithIdentities []).identityFile = [] ↔
          (configWithIdentities []).identityFile = []) :=
  callsTryResume_agree_iff (.ok ()) (by decide) (by decide)

end Passhrs
