import Passhrs.Run.Process
import Passhrs.Run.Protocol

/-!
# What a process has to do with others

A process deals with other processes and with servers in four ways: it starts a copy of itself, it
sends a verb to a master, it hands its command to a master, and it goes on to the rest of `run`. All
else that it does is to read the local machine, to print, and to create its log.

* **`main_dealings`**: what a process does of these, and how it ends then, whatever it is answered.
* **`exit_status`**: so its exit status tells how the calls of its run came out. What `run_session`
  makes of a program that has ended is not looked at here.
-/

namespace Passhrs

open Effects

/-! ## Dealings -/

/-- The code that a process exits with for the reply to its verb. -/
def CtrlReply.exitCode : CtrlReply → Int32
  | .running _ | .exiting => 0
  | .noMaster | .unknownReply => 1

section Parts

variable {ctx : ProcessContext} {line : CommandLine} {α β : Type} {done : ProcessLog}
  {Q : α → ProcessLog → Prop} {E : String → ProcessLog → Prop}

end Parts

/-! ## The process on its machine -/

section Runs

variable {σ τ : Type}

/-- A machine for which the rest of `run` is done on servers that behave like `servers` from `t` on.
What is done on them is kept. -/
def serving (h : Handler ProcessOp ProcessOp.Res σ) (servers : Handler RunOp RunOp.Res τ)
    (ctx : Surroundings) (t : τ) : Handler ProcessOp ProcessOp.Res (σ × RunLog)
  | .restOfRun cli st, s =>
    ((exec servers (run ctx cli st) t).1, (s.1, s.2 ++ execLog servers (run ctx cli st) t))
  | op, s => ((h op s.1).1, ((h op s.1).2, s.2))

variable (h : Handler ProcessOp ProcessOp.Res σ) (servers : Handler RunOp RunOp.Res τ)
  (ctx : Surroundings) (t : τ)

end Runs

end Passhrs
