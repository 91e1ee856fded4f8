import Passhrs.Control.Master
import Passhrs.Run.Exec

/-!
# The early exit of a resume client

With `-S` and no fresh credentials `run` hands the command to a live master before it does anything
else, and exits with the code that comes back.

* **`earlyExit_drops_nothing_iff`**: an early exit does all that the command line asks for exactly
  when that is one command, without variables to set.
-/

namespace Passhrs

open Effects Text

/-! ## The client -/

/-- How `UnixStream::connect` ends. -/
inductive SocketConnect where
  | connected
  | notFound
  | connectionRefused
  | permissionDenied
  | failed (error : String)

/-- `try_resume`, where `reply` is what the master writes back for what it is sent. -/
def tryResume (connect : SocketConnect) (reply : Bytes → Bytes) (cli : Cli) :
    Except String (Option Int32) :=
  match connect with
  | .notFound | .connectionRefused | .permissionDenied => .ok none
  | .failed error => .error error
  | .connected =>
    (readFrames cli.quiet (reply (writeCmdFrame (utf8 (cmdLine cli.command)))) [] []).result.map
      some

/-- The early exit of `run`: the code that the process exits with, if it does. -/
def earlyExit (connect : SocketConnect) (reply : Bytes → Bytes) (cli : Cli) (host : String) :
    Except String (Option Int32) :=
  if cli.controlPath.isSome ∧ host ≠ "" ∧ hasNoFreshAuth cli then tryResume connect reply cli
  else .ok none

/-! ## What is asked for, and what is done -/

/-- What `run` would execute on a session channel of its own. -/
def directPayload (env : String → Option String) (escape : String → String) (cli : Cli) :
    Option Bytes :=
  if cli.command = [] then none else some (utf8 (execPayload env escape cli))

/-- The command line asks for no transfer and no forward. -/
structure Cli.CommandOnly (cli : Cli) : Prop where
  push : cli.push = []
  pull : cli.pull = []
  rsync : cli.rsync = []
  stdioForward : cli.stdioForward = none
  localForward : cli.localForward = []
  remoteForward : cli.remoteForward = []
  dynamicForward : cli.dynamicForward = []
  httpProxyConnect : cli.httpProxyConnect = []

section Master

variable {σ : Type} (h : Handler MasterOp MasterOp.Res σ) (s : σ) (pid : UInt32)

/-- What a live master, on a server that behaves like `h`, does for a client. -/
def masterLog (rx : Bytes) : MasterLog := execLog h (handleResume pid rx) s

/-- And what it writes back. -/
def masterReply (rx : Bytes) : Bytes := (masterLog h s pid rx).bytes

variable {h s pid} {connect : SocketConnect} {cli : Cli} {host : String} {code : Int32}

/-- An early exit has had an answer. -/
theorem reply_ne_nil_of_earlyExit {reply : Bytes → Bytes}
    (hexit : earlyExit connect reply cli host = .ok (some code)) :
    reply (writeCmdFrame (utf8 (cmdLine cli.command))) ≠ [] := by
  intro hnil
  unfold earlyExit at hexit
  split at hexit
  · cases connect with
    | connected =>
      rw [tryResume, hnil, readFrames_nil] at hexit
      cases hexit
    | _ => cases hexit
  · cases hexit

/-- What is executed for a command line that no verb is read into. -/
theorem executed_plain {line : String} (hplain : PlainCommand line) (hne : line ≠ "")
    (hlen : (utf8 line).length < 2 ^ 32)
    (hreply : masterReply h s pid (writeCmdFrame (utf8 line)) ≠ []) :
    (masterLog h s pid (writeCmdFrame (utf8 line))).executed = [utf8 line] := by
  unfold masterReply at hreply
  unfold masterLog at hreply ⊢
  rw [handleResume_writeCmdFrame, Nat.mod_eq_of_lt hlen, List.take_length, handleCmdFrame_utf8,
    handleCommandLine_plain hplain hne] at hreply ⊢
  rcases executed_execCommand h s line with ⟨e, hrefused⟩ | hexecuted
  · rw [hrefused] at hreply
    exact absurd rfl hreply
  · exact hexecuted

/-- An empty command line is answered with 0. -/
theorem executed_empty :
    (masterLog h s pid (writeCmdFrame (utf8 ""))).executed = [] := by
  have hlen : (utf8 "").length < 2 ^ 32 := by decide
  unfold masterLog
  rw [handleResume_writeCmdFrame, Nat.mod_eq_of_lt hlen, List.take_length, handleCmdFrame_utf8]
  rfl

/-- No command is executed that is longer than what the header can say. -/
theorem length_lt_of_mem_executed {payload command : Bytes}
    (hmem : command ∈ (masterLog h s pid (writeCmdFrame payload)).executed) :
    command.length < 2 ^ 32 := by
  unfold masterLog at hmem
  rw [handleResume_writeCmdFrame] at hmem
  obtain ⟨line, hline, hcommand⟩ := mem_executed_handleCmdFrame h s hmem
  have hle := (utf8_trimCommandLine_isPrefix line).length_le
  rw [hline, ← hcommand, List.length_take] at hle
  exact lt_of_le_of_lt (hle.trans (Nat.min_le_left _ _)) (Nat.mod_lt _ (by decide))

/-- **An early exit does all that is asked for exactly when** the command line asks for nothing but
a command, with no variable to set, whose length fits the header. -/
theorem earlyExit_drops_nothing_iff (env : String → Option String) (escape : String → String)
    (hplain : PlainCommand (" ".intercalate cli.command))
    (hexit : earlyExit connect (masterReply h s pid) cli host = .ok (some code)) :
    ((masterLog h s pid (writeCmdFrame (utf8 (cmdLine cli.command)))).executed
        = (directPayload env escape cli).toList ∧ cli.CommandOnly) ↔
      " ".intercalate cli.command ≠ "" ∧ cli.execEnv.filterMap (execEnvVar env) = [] ∧
        (utf8 (" ".intercalate cli.command)).length < 2 ^ 32 ∧ cli.CommandOnly := by
  have hreply := reply_ne_nil_of_earlyExit hexit
  by_cases hcommand : cli.command = []
  · -- the client sends `true`, which nobody asked for
    refine iff_of_false ?_ fun hall => hall.1 (by rw [hcommand]; rfl)
    rintro ⟨hexecuted, -⟩
    have hline : cmdLine cli.command = "true" := if_pos hcommand
    rw [hline] at hreply hexecuted
    have htrue : PlainCommand "true" := ⟨by decide, by decide, by decide⟩
    rw [executed_plain htrue (by decide) (by decide) hreply, directPayload, if_pos hcommand]
      at hexecuted
    cases hexecuted
  have hline : cmdLine cli.command = " ".intercalate cli.command := if_neg hcommand
  have hpayload : directPayload env escape cli = some (utf8 (execPayload env escape cli)) :=
    if_neg hcommand
  rw [hline] at hreply ⊢
  rw [hpayload, Option.toList_some]
  constructor
  · rintro ⟨hexecuted, honly⟩
    have hlt : (utf8 (execPayload env escape cli)).length < 2 ^ 32 :=
      length_lt_of_mem_executed (by rw [hexecuted]; exact List.mem_singleton_self _)
    -- the payload is at least as long as the command
    have hle : (utf8 (" ".intercalate cli.command)).length
        ≤ (utf8 (execPayload env escape cli)).length := by
      by_cases hvars : cli.execEnv.filterMap (execEnvVar env) = []
      · rw [execPayload_of_no_vars escape hvars]
      · exact Nat.le_of_lt (length_lt_execPayload escape hvars)
    have hlen := lt_of_le_of_lt hle hlt
    have hne : " ".intercalate cli.command ≠ "" := by
      intro hempty
      rw [hempty, executed_empty] at hexecuted
      cases hexecuted
    refine ⟨hne, ?_, hlen, honly⟩
    rw [executed_plain hplain hne hlen hreply] at hexecuted
    by_contra hvars
    have hlonger := length_lt_execPayload escape hvars
    rw [← (List.cons.inj hexecuted).1] at hlonger
    exact lt_irrefl _ hlonger
  · rintro ⟨hne, hvars, hlen, honly⟩
    refine ⟨?_, honly⟩
    rw [executed_plain hplain hne hlen hreply, execPayload_of_no_vars escape hvars]

end Master

/-- A resume client whose command follows. -/
def resumeCli (command : List String) : Cli :=
  { Cli.ofCommand command with controlPath := some "/tmp/p.sock" }

/-- A quiet server lets every plain command exit with 0. -/
theorem earlyExit_quietServer {cli : Cli} {host : String} {pid : UInt32}
    (hresumes : cli.controlPath.isSome ∧ host ≠ "" ∧ hasNoFreshAuth cli)
    (hplain : PlainCommand (cmdLine cli.command)) (hne : cmdLine cli.command ≠ "")
    (hlen : (utf8 (cmdLine cli.command)).length < 2 ^ 32) :
    earlyExit .connected (masterReply quietServer () pid) cli host = .ok (some 0) := by
  have hreply : masterReply quietServer () pid (writeCmdFrame (utf8 (cmdLine cli.command)))
      = writeDone 0 ++ [] := by
    unfold masterReply masterLog
    rw [handleResume_writeCmdFrame, Nat.mod_eq_of_lt hlen, List.take_length, handleCmdFrame_utf8,
      handleCommandLine_plain hplain hne]
    rfl
  rw [earlyExit, if_pos hresumes, tryResume, hreply, readFrames_done]
  rfl

/-- The variable of `--exec-env` is dropped. -/
theorem earlyExit_drops_exec_env :
    ¬ ∀ (env : String → Option String) (escape : String → String) (cli : Cli) (host : String)
        (code : Int32) (σ : Type) (h : Handler MasterOp MasterOp.Res σ) (s : σ) (pid : UInt32),
      PlainCommand (" ".intercalate cli.command) →
      earlyExit .connected (masterReply h s pid) cli host = .ok (some code) →
      (masterLog h s pid (writeCmdFrame (utf8 (cmdLine cli.command)))).executed
          = (directPayload env escape cli).toList ∧ cli.CommandOnly := by
  intro hall
  let cli : Cli := { resumeCli ["env"] with execEnv := ["A=1"] }
  have hplain : PlainCommand "env" := ⟨by decide, by decide, by decide⟩
  have hexit : earlyExit .connected (masterReply quietServer () 1) cli "h" = .ok (some 0) :=
    earlyExit_quietServer (by decide) hplain (by decide) (by decide)
  obtain ⟨hexecuted, -⟩ := hall (fun _ => none) id cli "h" 0 Unit quietServer () 1 hplain hexit
  have hline : cmdLine cli.command = "env" := by decide
  have hreply := reply_ne_nil_of_earlyExit hexit
  rw [hline] at hexecuted hreply
  have hdone : (masterLog quietServer () 1 (writeCmdFrame (utf8 "env"))).executed = [utf8 "env"] :=
    executed_plain hplain (by decide) (by decide) hreply
  -- the direct branch runs `export A=1; env`
  have hpayload : directPayload (fun _ => none) id cli = some (utf8 "export A=1; env") := rfl
  rw [hpayload] at hexecuted
  have hsame : utf8 "env" = utf8 "export A=1; env" :=
    (List.cons.inj (hdone.symm.trans hexecuted)).1
  exact absurd (utf8_inj.mp hsame) (by decide)

theorem earlyExit_drops_nothing_uptime :
    ((masterLog quietServer () 1 (writeCmdFrame (utf8 "uptime"))).executed
        = (directPayload (fun _ => none) id (resumeCli ["uptime"])).toList ∧
        (resumeCli ["uptime"]).CommandOnly) ↔
      " ".intercalate ["uptime"] ≠ "" ∧
        ([] : List String).filterMap (execEnvVar fun _ => none) = [] ∧
        (utf8 (" ".intercalate ["uptime"])).length < 2 ^ 32 ∧
        (resumeCli ["uptime"]).CommandOnly := by
  have hplain : PlainCommand (" ".intercalate (resumeCli ["uptime"]).command) :=
    ⟨by decide, by decide, by decide⟩
  have hexit : earlyExit .connected (masterReply quietServer () 1) (resumeCli ["uptime"]) "h"
      = .ok (some 0) := earlyExit_quietServer (by decide) hplain (by decide) (by decide)
  have hiff := earlyExit_drops_nothing_iff (fun _ => none) id hplain hexit
  exact hiff

end Passhrs
