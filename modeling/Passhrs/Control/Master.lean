import Passhrs.Lib.Program
import Passhrs.Lib.Text
import Passhrs.Control.Resume

/-!
# The master's side of a connection

`handle_resume`, the task of a master for one connection, as a program over what it does: the
calls on the cached SSH handle, the frames it writes back, and the signal to exit. The error of an
operation is the outermost message.

* **`handleResume_executes_iff`**: a command line is what the server is asked to execute, whatever
  it answers, exactly when its first word is no control verb, it does not end in a newline or CR,
  and its length fits the header.
-/

namespace Passhrs

open Effects Text

/-! ## Operations -/

/-- What `handle_resume` does. `exec` is answered once the request is sent: what the server says to
it is a message like the others. `wait` stands for the calls of `channel.wait` up to the first
`None`, and the writes are the calls of the functions of these names. -/
inductive MasterOp where
  | channelOpenSession
  | exec (wantReply : Bool) (command : Bytes)
  | wait
  | writeCmdFrame (payload : Bytes)
  | writeDataFrame (tag : UInt8) (payload : Bytes)
  | writeDone (exitCode : Int32)
  | shutdown
  | setShouldExit
deriving DecidableEq

/-- The error of `shutdown` is dropped. -/
abbrev MasterOp.Res : MasterOp → Type
  | .wait => List ChannelMsg
  | .shutdown | .setShouldExit => Unit
  | _ => Except String Unit

/-- The bytes that an operation puts on the socket. -/
def MasterOp.bytes : MasterOp → Bytes
  | .writeCmdFrame payload => Passhrs.writeCmdFrame payload
  | .writeDataFrame tag payload => Passhrs.writeDataFrame tag payload
  | .writeDone exitCode => Passhrs.writeDone exitCode
  | _ => []

abbrev MasterM (α : Type) : Type := Action MasterOp MasterOp.Res String α

/-- The operations of a run, each with its answer. -/
abbrev MasterLog : Type := List ((op : MasterOp) × op.Res)

/-! ## The task -/

/-- `handle_ctrl_check`. -/
def handleCtrlCheck (pid : UInt32) : MasterM Unit := do
  call (.writeCmdFrame (utf8 s!"ok {pid}\n")) id
  call .shutdown .ok

/-- `handle_ctrl_exit`. -/
def handleCtrlExit : MasterM Unit := do
  call (.writeCmdFrame (utf8 "bye\n")) id
  call .shutdown .ok

/-- The loop of `pump_session_to_uds`, with a socket that may fail. -/
def relayFrames (exitCode : Int32) : List ChannelMsg → MasterM Int32
  | [] => pure exitCode
  | m :: msgs =>
    match m with
    | .data bytes => do
      call (.writeDataFrame 1 bytes) id
      relayFrames exitCode msgs
    | .extendedData bytes _ => do
      call (.writeDataFrame 2 bytes) id
      relayFrames exitCode msgs
    | .exitStatus s => relayFrames s.toInt32 msgs
    | .eof | .close => pure exitCode
    | .success | .failure => relayFrames exitCode msgs
    | .other => relayFrames exitCode msgs

/-- `handle_resume` once the command is running. -/
def relayCommand : MasterM Unit := do
  let msgs ← call .wait .ok
  let exitCode ← relayFrames 0 msgs
  call (.writeDone exitCode) id
  call .shutdown .ok

/-- `handle_resume` from the exec path on. -/
def execCommand (cmd : String) : MasterM Unit := do
  call .channelOpenSession id
  call (.exec true (utf8 cmd)) id
  relayCommand

/-- `trimmed`: newlines first, and then carriage returns. -/
def trimCommandLine (cmdLine : String) : String :=
  trimEndMatches '\r' (trimEndMatches '\n' cmdLine)

/-- `handle_resume` once the command line is read. -/
def handleCommandLine (pid : UInt32) (cmdLine : String) : MasterM Unit :=
  let trimmed := trimCommandLine cmdLine
  let verb := firstWord trimmed
  if verb = "check" then handleCtrlCheck pid
  else if verb = "exit" ∨ verb = "stop" then do
    handleCtrlExit
    call .setShouldExit .ok
  else if trimmed = "" then call (.writeDone 0) id
  else execCommand trimmed

/-- `handle_resume` once the frame is read. -/
def handleCmdFrame (pid : UInt32) (bytes : Bytes) : MasterM Unit :=
  match ofUtf8 bytes with
  | none => throw "resume: command line is not UTF-8"
  | some cmdLine => handleCommandLine pid cmdLine

/-- `handle_resume`, in the process `pid`, on what the client sends. -/
def handleResume (pid : UInt32) (rx : Bytes) : MasterM Unit := do
  match ← ofResult (readCmdFrame rx) with
  | none => pure ()
  | some (bytes, _) => handleCmdFrame pid bytes

/-- The command line that `try_resume` sends for the words of a command. -/
def cmdLine (command : List String) : String :=
  if command = [] then "true" else " ".intercalate command

/-- The bytes that a run puts on the socket. -/
def MasterLog.bytes (log : MasterLog) : Bytes := log.flatMap fun e => e.1.bytes

/-! ## Commands -/

/-- The connection is served as this command: a session channel is opened and, if the server
grants it, the request to execute exactly this is sent on it. No control reply is sent, and the
master is not told to exit. -/
structure Executes (command : Bytes) (log : MasterLog) : Prop where
  opens : ∃ answer rest, log = ⟨.channelOpenSession, answer⟩ :: rest ∧
    (answer = .ok () → ∃ answer' rest', rest = ⟨.exec true command, answer'⟩ :: rest')
  noReply : ∀ e ∈ log, ∀ payload, e.1 ≠ .writeCmdFrame payload
  stays : ∀ e ∈ log, e.1 ≠ .setShouldExit

/-- Once the channel is granted, a connection is served as one command only. -/
theorem Executes.command_eq {command command' : Bytes} {log rest : MasterLog}
    (h : Executes command log) (h' : Executes command' log)
    (hgranted : log = ⟨.channelOpenSession, .ok ()⟩ :: rest) : command = command' := by
  obtain ⟨answer, tail, hlog, hexec⟩ := h.opens
  obtain ⟨answer', tail', hlog', hexec'⟩ := h'.opens
  rw [hgranted] at hlog hlog'
  cases hlog
  cases hlog'
  obtain ⟨_, _, heq⟩ := hexec rfl
  obtain ⟨_, _, heq'⟩ := hexec' rfl
  rw [heq] at heq'
  cases heq'
  rfl

/-- A command line that no verb is read into, and that the trimming leaves alone. -/
structure PlainCommand (cmdLine : String) : Prop where
  verb : firstWord cmdLine ∉ ["check", "exit", "stop"]
  newline : cmdLine.toList.getLast? ≠ some '\n'
  carriageReturn : cmdLine.toList.getLast? ≠ some '\r'

theorem trimCommandLine_eq_self_iff {cmdLine : String} :
    trimCommandLine cmdLine = cmdLine ↔
      cmdLine.toList.getLast? ≠ some '\n' ∧ cmdLine.toList.getLast? ≠ some '\r' := by
  unfold trimCommandLine
  constructor
  · intro h
    -- the outer trim is a prefix of the inner one, which is a prefix of the whole
    have hinner : trimEndMatches '\n' cmdLine = cmdLine := by
      have hout := utf8_trimEndMatches_isPrefix '\r' (trimEndMatches '\n' cmdLine)
      rw [h] at hout
      have hin := utf8_trimEndMatches_isPrefix '\n' cmdLine
      exact utf8_inj.mp (hin.eq_of_length (Nat.le_antisymm hin.length_le hout.length_le))
    rw [hinner] at h
    exact ⟨trimEndMatches_eq_self_iff.mp hinner, trimEndMatches_eq_self_iff.mp h⟩
  · rintro ⟨hn, hr⟩
    rw [trimEndMatches_eq_self_iff.mpr hn, trimEndMatches_eq_self_iff.mpr hr]

theorem utf8_trimCommandLine_isPrefix (cmdLine : String) :
    utf8 (trimCommandLine cmdLine) <+: utf8 cmdLine :=
  (utf8_trimEndMatches_isPrefix _ _).trans (utf8_trimEndMatches_isPrefix _ _)

section Task

variable {σ : Type} (h : Handler MasterOp MasterOp.Res σ) (s : σ)

theorem emits_relayFrames {P : MasterOp → Prop} (hout : ∀ payload, P (.writeDataFrame 1 payload))
    (herr : ∀ payload, P (.writeDataFrame 2 payload)) (exitCode : Int32)
    (msgs : List ChannelMsg) :
    Emits (fun _ _ => True) P (fun _ => True) (relayFrames exitCode msgs) := by
  induction msgs generalizing exitCode with
  | nil => exact emits_pure trivial
  | cons m msgs ih =>
    cases m with
    | data bytes =>
      exact emits_bind (emits_call (hout bytes) fun _ _ _ _ => trivial) fun _ _ => ih exitCode
    | extendedData bytes ext =>
      exact emits_bind (emits_call (herr bytes) fun _ _ _ _ => trivial) fun _ _ => ih exitCode
    | exitStatus status => exact ih status.toInt32
    | eof | close => exact emits_pure trivial
    | success | failure | other => exact ih exitCode

theorem emits_relayCommand {P : MasterOp → Prop} (hwait : P .wait)
    (hout : ∀ payload, P (.writeDataFrame 1 payload))
    (herr : ∀ payload, P (.writeDataFrame 2 payload)) (hdone : ∀ code, P (.writeDone code))
    (hshutdown : P .shutdown) : Emits (fun _ _ => True) P (fun _ => True) relayCommand := by
  refine emits_bind (emits_call hwait fun _ _ _ _ => trivial) fun msgs _ => ?_
  refine emits_bind (emits_relayFrames hout herr 0 msgs) fun code _ => ?_
  refine emits_bind (emits_call (hdone code) fun _ _ _ _ => trivial) fun _ _ => ?_
  exact emits_call hshutdown fun _ _ _ _ => trivial

/-- The operations on a command: the channel, which the server may refuse, the exec, and what
serves it. -/
theorem execLog_execCommand (cmd : String) :
    (∃ e, execLog h (execCommand cmd) s = [⟨.channelOpenSession, .error e⟩]) ∨
      ∃ answer rest, execLog h (execCommand cmd) s
          = ⟨.channelOpenSession, .ok ()⟩ :: ⟨.exec true (utf8 cmd), answer⟩ :: rest ∧
        ∀ e ∈ rest, (∀ payload, e.1 ≠ .writeCmdFrame payload) ∧ e.1 ≠ .setShouldExit ∧
          ∀ wantReply command, e.1 ≠ .exec wantReply command := by
  unfold execCommand
  rcases hopen : (h .channelOpenSession s).1 with e | ⟨⟩
  · left
    refine ⟨e, ?_⟩
    rw [execLog_bind, execLog_call, exec_call, hopen]
    rfl
  · right
    rw [execLog_bind, execLog_call, exec_call, hopen]
    set s₁ := (h .channelOpenSession s).2
    have htail : execLog h (call (.exec true (utf8 cmd)) id >>= fun _ => relayCommand) s₁
        = ⟨.exec true (utf8 cmd), (h (.exec true (utf8 cmd)) s₁).1⟩ ::
          match (h (.exec true (utf8 cmd)) s₁).1 with
          | .ok () => execLog h relayCommand (h (.exec true (utf8 cmd)) s₁).2
          | .error _ => [] := by
      rw [execLog_bind, execLog_call, exec_call]
      rcases (h (.exec true (utf8 cmd)) s₁).1 with e | ⟨⟩ <;> rfl
    refine ⟨_, _, congrArg (List.cons _) htail, fun e he => ?_⟩
    split at he
    -- the request is out: what follows is the relay, which writes frames and waits
    · have hserved : Emits (fun _ _ => True) (fun op => (∀ payload, op ≠ .writeCmdFrame payload) ∧
          op ≠ .setShouldExit ∧ ∀ wantReply command, op ≠ .exec wantReply command)
          (fun _ => True) relayCommand :=
        emits_relayCommand (by simp) (by simp) (by simp) (by simp) (by simp)
      exact Emits.of_mem_execLog (fun _ _ => trivial) hserved _ e he
    · cases he

theorem executes_execCommand (cmd : String) :
    Executes (utf8 cmd) (execLog h (execCommand cmd) s) := by
  rcases execLog_execCommand h s cmd with ⟨e, hlog⟩ | ⟨answer, rest, hlog, hrest⟩
  · rw [hlog]
    exact ⟨⟨.error e, [], rfl, fun h => by cases h⟩, by simp, by simp⟩
  · rw [hlog]
    refine ⟨⟨.ok (), _, rfl, fun _ => ⟨answer, rest, rfl⟩⟩, ?_, ?_⟩
    · simp only [List.forall_mem_cons]
      exact ⟨by simp, by simp, fun e he => (hrest e he).1⟩
    · simp only [List.forall_mem_cons]
      exact ⟨by simp, by simp, fun e he => (hrest e he).2.1⟩

theorem handleCommandLine_plain {cmdLine : String} (hplain : PlainCommand cmdLine)
    (hne : cmdLine ≠ "") (pid : UInt32) :
    handleCommandLine pid cmdLine = execCommand cmdLine := by
  have htrim : trimCommandLine cmdLine = cmdLine :=
    trimCommandLine_eq_self_iff.mpr ⟨hplain.newline, hplain.carriageReturn⟩
  have hverb := hplain.verb
  simp only [List.mem_cons, List.not_mem_nil, or_false, not_or] at hverb
  obtain ⟨hcheck, hexit, hstop⟩ := hverb
  unfold handleCommandLine
  rw [htrim, if_neg hcheck, if_neg (not_or.mpr ⟨hexit, hstop⟩), if_neg hne]

variable {h s} in
/-- A session channel is opened for nothing but a command. -/
theorem handleCommandLine_of_opens {pid : UInt32} {cmdLine : String}
    {answer : MasterOp.Res .channelOpenSession} {rest : MasterLog}
    (hlog : execLog h (handleCommandLine pid cmdLine) s = ⟨.channelOpenSession, answer⟩ :: rest) :
    firstWord (trimCommandLine cmdLine) ∉ ["check", "exit", "stop"] ∧
      handleCommandLine pid cmdLine = execCommand (trimCommandLine cmdLine) := by
  unfold handleCommandLine at hlog ⊢
  dsimp only at hlog ⊢
  by_cases hcheck : firstWord (trimCommandLine cmdLine) = "check"
  · rw [if_pos hcheck, handleCtrlCheck, execLog_bind] at hlog
    cases hlog
  rw [if_neg hcheck] at hlog ⊢
  by_cases hexit : firstWord (trimCommandLine cmdLine) = "exit" ∨
      firstWord (trimCommandLine cmdLine) = "stop"
  · rw [if_pos hexit, execLog_bind, handleCtrlExit, execLog_bind] at hlog
    cases hlog
  rw [if_neg hexit] at hlog ⊢
  by_cases hempty : trimCommandLine cmdLine = ""
  · rw [if_pos hempty] at hlog
    cases hlog
  rw [if_neg hempty]
  refine ⟨?_, rfl⟩
  simp only [List.mem_cons, List.not_mem_nil, or_false, not_or]
  exact ⟨hcheck, not_or.mp hexit⟩

/-- The master reads what the client has sent up to the length in the header. -/
theorem handleResume_writeCmdFrame (pid : UInt32) (payload : Bytes) :
    handleResume pid (writeCmdFrame payload)
      = handleCmdFrame pid (payload.take (payload.length % 2 ^ 32)) := by
  unfold handleResume
  rw [readCmdFrame_writeCmdFrame]
  rfl

theorem handleCmdFrame_utf8 (pid : UInt32) (cmdLine : String) :
    handleCmdFrame pid (utf8 cmdLine) = handleCommandLine pid cmdLine := by
  unfold handleCmdFrame
  rw [ofUtf8_utf8]

/-- The commands that a run asks the server to execute. -/
def MasterLog.executed (log : MasterLog) : List Bytes :=
  log.filterMap fun e =>
    match e.1 with
    | .exec _ command => some command
    | _ => none

theorem executed_eq_nil {log : MasterLog} (hlog : ∀ e ∈ log, ∀ wantReply command,
    e.1 ≠ .exec wantReply command) : log.executed = [] := by
  refine List.filterMap_eq_nil_iff.mpr fun e he => ?_
  split
  · next wantReply command heq => exact absurd heq (hlog e he wantReply command)
  · rfl

/-- Unless the server refuses the channel, one command is executed. -/
theorem executed_execCommand (cmd : String) :
    (∃ e, execLog h (execCommand cmd) s = [⟨.channelOpenSession, .error e⟩]) ∨
      MasterLog.executed (execLog h (execCommand cmd) s) = [utf8 cmd] := by
  rcases execLog_execCommand h s cmd with hrefused | ⟨answer, rest, hlog, hrest⟩
  · exact .inl hrefused
  · right
    have hnone : MasterLog.executed rest = [] := executed_eq_nil fun e he => (hrest e he).2.2
    rw [hlog]
    show utf8 cmd :: MasterLog.executed rest = _
    rw [hnone]

theorem executed_handleCommandLine (pid : UInt32) (cmdLine : String) :
    MasterLog.executed (execLog h (handleCommandLine pid cmdLine) s) = [] ∨
      MasterLog.executed (execLog h (handleCommandLine pid cmdLine) s)
        = [utf8 (trimCommandLine cmdLine)] := by
  -- nothing is executed for a verb
  have hnone : ∀ x : MasterM Unit, Emits (fun _ _ => True)
      (fun op => ∀ wantReply command, op ≠ .exec wantReply command) (fun _ => True) x →
      MasterLog.executed (execLog h x s) = [] :=
    fun x hx => executed_eq_nil (Emits.of_mem_execLog (fun _ _ => trivial) hx s)
  have hreply : ∀ payload, Emits (fun _ _ => True)
      (fun op => ∀ wantReply command, op ≠ .exec wantReply command) (fun _ => True)
      (do call (.writeCmdFrame payload) id; call .shutdown .ok : MasterM Unit) := fun payload =>
    emits_bind (emits_call (by simp) fun _ _ _ _ => trivial) fun _ _ =>
      emits_call (by simp) fun _ _ _ _ => trivial
  unfold handleCommandLine
  dsimp only
  split
  · exact .inl (hnone _ (hreply _))
  split
  · exact .inl (hnone _ (emits_bind (hreply _) fun _ _ =>
      emits_call (by simp) fun _ _ _ _ => trivial))
  split
  · exact .inl (hnone _ (emits_call (by simp) fun _ _ _ _ => trivial))
  · rcases executed_execCommand h s (trimCommandLine cmdLine) with ⟨e, hrefused⟩ | hexecuted
    · left
      rw [hrefused]
      rfl
    · exact .inr hexecuted

/-- What is executed is the command line that was read, trimmed. -/
theorem mem_executed_handleCmdFrame {pid : UInt32} {bytes command : Bytes}
    (hmem : command ∈ MasterLog.executed (execLog h (handleCmdFrame pid bytes) s)) :
    ∃ cmdLine, utf8 cmdLine = bytes ∧ command = utf8 (trimCommandLine cmdLine) := by
  rcases hutf8 : ofUtf8 bytes with _ | cmdLine
  · unfold handleCmdFrame at hmem
    rw [hutf8] at hmem
    cases hmem
  · obtain rfl := utf8_of_ofUtf8 hutf8
    rw [handleCmdFrame_utf8] at hmem
    refine ⟨cmdLine, rfl, ?_⟩
    rcases executed_handleCommandLine h s pid cmdLine with hnone | hone
    · rw [hnone] at hmem
      cases hmem
    · rw [hone] at hmem
      exact List.mem_singleton.mp hmem

variable {h s} in
theorem handleCmdFrame_of_opens {pid : UInt32} {bytes : Bytes}
    {answer : MasterOp.Res .channelOpenSession} {rest : MasterLog}
    (hlog : execLog h (handleCmdFrame pid bytes) s = ⟨.channelOpenSession, answer⟩ :: rest) :
    ∃ cmdLine, utf8 cmdLine = bytes ∧
      firstWord (trimCommandLine cmdLine) ∉ ["check", "exit", "stop"] ∧
      handleCmdFrame pid bytes = execCommand (trimCommandLine cmdLine) := by
  rcases hutf8 : ofUtf8 bytes with _ | cmdLine
  · unfold handleCmdFrame at hlog
    rw [hutf8] at hlog
    cases hlog
  · obtain rfl := utf8_of_ofUtf8 hutf8
    rw [handleCmdFrame_utf8] at hlog ⊢
    exact ⟨cmdLine, rfl, handleCommandLine_of_opens hlog⟩

end Task

/-- A server on which every call succeeds, and that sends nothing. -/
def quietServer : Handler MasterOp MasterOp.Res Unit := fun op s =>
  match op with
  | .wait => ([], s)
  | .shutdown | .setShouldExit => ((), s)
  | .channelOpenSession | .exec _ _ | .writeCmdFrame _ | .writeDataFrame _ _ | .writeDone _ =>
    (.ok (), s)

/-- **A command line is what the server is asked to execute, whatever it answers, exactly when** its
first word is no control verb, it does not end in a newline or CR, and its length fits the
header. -/
theorem handleResume_executes_iff (pid : UInt32) (command : List String)
    (hne : cmdLine command ≠ "") :
    (∀ (σ : Type) (h : Handler MasterOp MasterOp.Res σ) (s : σ),
        Executes (utf8 (cmdLine command))
          (execLog h (handleResume pid (writeCmdFrame (utf8 (cmdLine command)))) s)) ↔
      PlainCommand (cmdLine command) ∧ (utf8 (cmdLine command)).length < 2 ^ 32 := by
  set sent := cmdLine command
  rw [handleResume_writeCmdFrame]
  constructor
  · intro hall
    have hexecutes := hall Unit quietServer ()
    obtain ⟨answer, rest, hlog, -⟩ := hexecutes.opens
    -- what the master reads is a prefix of what was sent
    obtain ⟨received, hreceived, hverb, hcommand⟩ := handleCmdFrame_of_opens hlog
    have hsame : trimCommandLine received = sent := by
      obtain ⟨_, hgranted⟩ : ∃ rest,
          execLog quietServer (execCommand (trimCommandLine received)) ()
            = ⟨.channelOpenSession, .ok ()⟩ :: rest := ⟨_, execLog_bind quietServer _ _ ()⟩
      rw [hcommand] at hexecutes
      exact utf8_inj.mp
        ((executes_execCommand quietServer () _).command_eq hexecutes hgranted)
    -- and what it executes is a prefix of that
    have hlen : (utf8 sent).length ≤ (utf8 sent).length % 2 ^ 32 := by
      have hle := (utf8_trimCommandLine_isPrefix received).length_le
      rw [hsame, hreceived, List.length_take] at hle
      omega
    have hlt : (utf8 sent).length < 2 ^ 32 := lt_of_le_of_lt hlen (Nat.mod_lt _ (by decide))
    rw [Nat.mod_eq_of_lt hlt, List.take_length, utf8_inj] at hreceived
    rw [hreceived] at hsame hverb
    obtain ⟨hn, hr⟩ := trimCommandLine_eq_self_iff.mp hsame
    rw [hsame] at hverb
    exact ⟨⟨hverb, hn, hr⟩, hlt⟩
  · rintro ⟨hplain, hlen⟩ σ h s
    rw [Nat.mod_eq_of_lt hlen, List.take_length, handleCmdFrame_utf8,
      handleCommandLine_plain hplain hne]
    exact executes_execCommand h s sent

/-- The shell's `exit` is not executed: the master replies, and is told to exit. -/
theorem handleResume_runs_verb :
    ¬ ∀ (pid : UInt32) (command : List String), cmdLine command ≠ "" →
      ∀ (σ : Type) (h : Handler MasterOp MasterOp.Res σ) (s : σ),
        Executes (utf8 (cmdLine command))
          (execLog h (handleResume pid (writeCmdFrame (utf8 (cmdLine command)))) s) := by
  intro hall
  have hexecutes := hall 1 ["exit", "3"] (by decide) Unit quietServer ()
  have hlog : execLog quietServer
      (handleResume 1 (writeCmdFrame (utf8 (cmdLine ["exit", "3"])))) ()
        = [⟨.writeCmdFrame (utf8 "bye\n"), .ok ()⟩, ⟨.shutdown, ()⟩, ⟨.setShouldExit, ()⟩] := by
    rw [handleResume_writeCmdFrame, List.take_of_length_le (by decide), handleCmdFrame_utf8]
    rfl
  rw [hlog] at hexecutes
  exact hexecutes.stays ⟨.setShouldExit, ()⟩ (by simp) rfl

theorem handleResume_executes_ls :
    (∀ (σ : Type) (h : Handler MasterOp MasterOp.Res σ) (s : σ),
        Executes (utf8 (cmdLine ["ls", "-l"]))
          (execLog h (handleResume 1 (writeCmdFrame (utf8 (cmdLine ["ls", "-l"])))) s)) ↔
      PlainCommand (cmdLine ["ls", "-l"]) ∧ (utf8 (cmdLine ["ls", "-l"])).length < 2 ^ 32 :=
  handleResume_executes_iff 1 ["ls", "-l"] (by decide)

end Passhrs
