import Passhrs.Run.Destination

/-!
# Which port and which user

`run` folds five sources of the port and four of the user into one value each. A port of 22 stands
for no port on the way, and the user of the configuration is filled in before the destination's.

* **`precedence_iff`**: the first source that is given counts, except where it is a 22 that a later
  source replaces, and where the configuration has another user than the destination.
-/

namespace Passhrs

open Text

/-! ## Precedence -/

/-- The first of the sources that is given, in the documented order. -/
def firstPort (option flag dest config : Option UInt16) : UInt16 :=
  (((option.or flag).or dest).or config).getD 22

def firstUser (flag dest config : Option String) : String := ((flag.or dest).or config).getD "root"

/-- The first port that is given is not a 22 that a later source replaces by another one. -/
def PortCounts : (option flag dest config : Option UInt16) → Prop
  | some port, _, _, config => port = 22 → config.getD 22 = 22
  | none, some port, dest, config => port = 22 → dest.getD 22 = 22 ∧ config.getD 22 = 22
  | none, none, some port, config => port = 22 → config.getD 22 = 22
  | none, none, none, _ => True

/-- The configuration and the destination do not give two users, unless `-l` gives one. -/
def UserCounts (flag dest config : Option String) : Prop :=
  flag ≠ none ∨ dest = none ∨ config = none ∨ dest = config

theorem firstPort_iff (option flag dest config : Option UInt16) :
    (let port := option.getD (if flag.getD 22 ≠ 22 then flag.getD 22 else dest.getD 22)
     if port = 22 then config.getD port else port) = firstPort option flag dest config ↔
      PortCounts option flag dest config := by
  unfold firstPort
  rcases option with _ | option
  · rcases flag with _ | flag
    · rcases dest with _ | dest
      · simp [PortCounts]
      · simp only [PortCounts, Option.getD, Option.or]
        grind
    · simp only [PortCounts, Option.getD, Option.or]
      grind
  · simp only [PortCounts, Option.getD, Option.or]
    grind

theorem firstUser_iff (flag dest config : Option String) :
    ((flag.or config).or dest).getD "root" = firstUser flag dest config ↔
      UserCounts flag dest config := by
  unfold firstUser UserCounts
  rcases flag with _ | flag
  · rcases dest with _ | dest
    · simp
    · rcases config with _ | config
      · simp
      · simp [eq_comm]
  · simp

/-- **The order in which the sources count**: for a destination as it is written, with or without
`-p` and `-l`, for all options and any configuration of the host, the connection goes to the first
port that is given, as the first user that is given, if and only if that port is not a 22 that gives
way to a later source and the configuration does not stand in for the destination's user. -/
theorem precedence_iff {lower : Lower} {resolveConfig : ResolveConfig} {flags : ConnectFlags}
    {resolved : ResolvedConfig} (dest : Destination) (flag : Option UInt16)
    (hflag : flags.sshPort = flag.getD 22)
    (hresolve : resolveConfig flags.configFile dest.host.host = .ok resolved) :
    let option := (parseSshOptions lower flags.sshOption "port").bind parseU16
    let port := dest.port.map PortText.port
    (∃ host, connectTarget lower resolveConfig flags dest.text =
        .ok ⟨host, firstPort option flag port resolved.port,
          firstUser flags.user dest.user resolved.user⟩) ↔
      PortCounts option flag port resolved.port ∧
        UserCounts flags.user dest.user resolved.user := by
  dsimp only
  rw [connectTarget_eq (parseDestination_text dest) hresolve, hflag, ← firstPort_iff,
    ← firstUser_iff]
  constructor
  · rintro ⟨host, htarget⟩
    obtain ⟨-, hport, huser⟩ := ConnectTarget.mk.inj (Except.ok.inj htarget)
    exact ⟨hport, huser⟩
  · rintro ⟨hport, huser⟩
    exact ⟨_, congrArg Except.ok (congrArg₂ (ConnectTarget.mk _) hport huser)⟩

/-- `bob@web:2222`. -/
def bobAtWeb : Destination where
  user := some "bob"
  host := .name "web" (by decide) (by decide) (by decide)
  port := some ⟨"2222", 2222, by decide⟩

/-- `-p 22`. -/
def flagsWith22 : ConnectFlags := ⟨22, none, [], none, [], none⟩

/-- The port of the destination replaces that of `-p`, and the configuration's user that of the
destination. -/
theorem later_sources_win :
    bobAtWeb.text = "bob@web:2222" ∧
      firstPort none (some 22) (some 2222) none = 22 ∧
      firstUser none (some "bob") (some "alice") = "bob" ∧
      (connectTarget id (fun _ _ => .ok ⟨none, some "alice", none, [], none⟩) flagsWith22
        "bob@web:2222").toOption = some ⟨"web", 2222, "alice"⟩ := by
  decide +kernel

def configWithPort : ResolvedConfig := ⟨none, none, some 2022, [], none⟩

theorem precedence_of_bob :
    let option := (parseSshOptions id flagsWithPort.sshOption "port").bind parseU16
    let port := bobAtWeb.port.map PortText.port
    (∃ host, connectTarget id (fun _ _ => .ok configWithPort) flagsWithPort bobAtWeb.text =
        .ok ⟨host, firstPort option (some 2200) port configWithPort.port,
          firstUser flagsWithPort.user bobAtWeb.user configWithPort.user⟩) ↔
      PortCounts option (some 2200) port configWithPort.port ∧
        UserCounts flagsWithPort.user bobAtWeb.user configWithPort.user :=
  precedence_iff bobAtWeb (some 2200) rfl rfl

end Passhrs
