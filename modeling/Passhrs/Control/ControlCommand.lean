import Passhrs.Control.Master

/-!
# Control commands

`-O`: the client sends a verb to a master as if it were a command line, and reads one frame back.
The master tells verbs from commands by their first word, so a verb that it does not know is run as
a command, and what comes back are the frames of a session.

* **`handleResume_staysLocal_iff`**: nothing happens on the remote host exactly when the master
  reads one of its verbs, or nothing.
* **`sendControlCommand_not_forged`**: whatever the remote host sends, no other verb is answered
  with a process id or with `bye`.
-/

namespace Passhrs

open Effects Text

/-! ## The client -/

inductive CtrlReply where
  | running (pid : UInt32)
  | exiting
  | noMaster
  | unknownReply
deriving DecidableEq

/-- What `send_control_command` writes for `-O cmd`. -/
def controlFrame (cmd : String) : Bytes := writeCmdFrame (utf8 (cmd ++ "\n"))

/-- What it makes of the reply frame. -/
def readCtrlReply (reply : Bytes) : CtrlReply :=
  let replyTrim := trim (fromUtf8Lossy reply)
  match (Text.stripPrefix "ok " replyTrim).bind fun rest => parseU32 (trim rest) with
  | some pid => .running pid
  | none => if replyTrim = "bye" then .exiting else .unknownReply

/-- `send_control_command`, where `connect` and `written` are the results of the connection and of
the write, and `rx` is what arrives before the socket ends or fails. -/
def sendControlCommand (connect written : Except String Unit) (rx : Bytes) : CtrlReply :=
  match connect with
  | .error _ => .noMaster
  | .ok () =>
    match written with
    | .error _ => .noMaster
    | .ok () =>
      match readCmdFrame rx with
      | .ok (some (reply, _)) => readCtrlReply reply
      | .ok none | .error _ => .noMaster

/-! ## What the master reads -/

theorem trimCommandLine_append (s : String) :
    ∃ t : String, s = trimCommandLine s ++ t ∧ ∀ c ∈ t.toList, isWhitespace c = true := by
  obtain ⟨t, hs, ht⟩ := trimEndMatches_append '\n' s
  obtain ⟨u, hu, hcr⟩ := trimEndMatches_append '\r' (trimEndMatches '\n' s)
  refine ⟨u ++ t, ?_, fun c hc => ?_⟩
  · rw [trimCommandLine, ← String.append_assoc, ← hu]
    exact hs
  · rw [String.toList_append, List.mem_append] at hc
    rcases hc with hc | hc
    · rw [hcr c hc]
      decide
    · rw [ht c hc]
      decide

/-- Trimming a command line does not change its verb. -/
theorem firstWord_trimCommandLine (s : String) : firstWord (trimCommandLine s) = firstWord s := by
  obtain ⟨t, hs, ht⟩ := trimCommandLine_append s
  conv_rhs => rw [hs]
  exact (firstWord_append ht).symm

theorem firstWord_newline (cmd : String) : firstWord (cmd ++ "\n") = firstWord cmd :=
  firstWord_append (List.all_eq_true.mp (by decide))

theorem trimCommandLine_newline (cmd : String) :
    trimCommandLine (cmd ++ "\n") = trimCommandLine cmd := by
  have hnewline : trimEndMatches '\n' (cmd ++ "\n") = trimEndMatches '\n' cmd := by
    rw [trimEndMatches, trimEndMatches, String.toList_append,
      show "\n".toList = ['\n'] from rfl, List.rdropWhile_concat_pos _ _ _ (by decide)]
  rw [trimCommandLine, trimCommandLine, hnewline]

/-- The command line that the master reads, where it is UTF-8: a frame is cut to its length modulo
`2 ^ 32`. -/
def receivedLine (cmd : String) : Option String :=
  ofUtf8 ((utf8 (cmd ++ "\n")).take ((utf8 (cmd ++ "\n")).length % 2 ^ 32))

theorem receivedLine_of_length_lt {cmd : String} (h : (utf8 (cmd ++ "\n")).length < 2 ^ 32) :
    receivedLine cmd = some (cmd ++ "\n") := by
  rw [receivedLine, Nat.mod_eq_of_lt h, List.take_length, ofUtf8_utf8]

theorem handleResume_controlFrame (pid : UInt32) (cmd : String) :
    handleResume pid (controlFrame cmd) =
      match receivedLine cmd with
      | none => throw "resume: command line is not UTF-8"
      | some line => handleCommandLine pid line := handleResume_writeCmdFrame _ _

/-! ## No remote effect -/

/-- The operation has an effect on the remote host. -/
def MasterOp.Remote : MasterOp → Prop
  | .channelOpenSession | .exec _ _ => True
  | _ => False

/-- The master answers the line itself: it begins with a verb, or there is nothing to run. -/
def AnsweredLocally (line : String) : Prop :=
  firstWord line ∈ ["check", "exit", "stop"] ∨ trimCommandLine line = ""

instance (line : String) : Decidable (AnsweredLocally line) :=
  inferInstanceAs (Decidable (_ ∨ _))

section Master

variable {σ : Type} (h : Handler MasterOp MasterOp.Res σ) (s : σ)

theorem handleCommandLine_staysLocal_iff (pid : UInt32) (line : String) :
    (∀ e ∈ execLog h (handleCommandLine pid line) s, ¬ e.1.Remote) ↔ AnsweredLocally line := by
  have hreply : ∀ payload, Emits (fun _ _ => True) (fun op => ¬ op.Remote) (fun _ => True)
      (do call (.writeCmdFrame payload) id; call .shutdown .ok : MasterM Unit) := fun payload =>
    emits_bind (emits_call (by simp [MasterOp.Remote]) fun _ _ _ _ => trivial) fun _ _ =>
      emits_call (by simp [MasterOp.Remote]) fun _ _ _ _ => trivial
  have hlocal : ∀ x : MasterM Unit,
      Emits (fun _ _ => True) (fun op => ¬ op.Remote) (fun _ => True) x →
      ∀ e ∈ execLog h x s, ¬ e.1.Remote :=
    fun x hx => Emits.of_mem_execLog (fun _ _ => trivial) hx s
  unfold AnsweredLocally handleCommandLine
  dsimp only
  rw [firstWord_trimCommandLine]
  by_cases hcheck : firstWord line = "check"
  · rw [if_pos hcheck]
    exact iff_of_true (hlocal _ (hreply _)) (.inl (by simp [hcheck]))
  rw [if_neg hcheck]
  by_cases hexit : firstWord line = "exit" ∨ firstWord line = "stop"
  · rw [if_pos hexit]
    refine iff_of_true (hlocal _ ?_) (.inl (by simpa using .inr hexit))
    exact emits_bind (hreply _) fun _ _ =>
      emits_call (by simp [MasterOp.Remote]) fun _ _ _ _ => trivial
  rw [if_neg hexit]
  by_cases hempty : trimCommandLine line = ""
  · rw [if_pos hempty]
    exact iff_of_true (hlocal _ (emits_call (by simp [MasterOp.Remote]) fun _ _ _ _ => trivial))
      (.inr hempty)
  · -- anything else is a command: the first thing done is to open a channel
    rw [if_neg hempty]
    refine iff_of_false (fun hall => ?_) ?_
    · rw [execCommand, execLog_bind, execLog_call] at hall
      exact hall ⟨.channelOpenSession, _⟩ (List.mem_append_left _ (List.mem_singleton.mpr rfl))
        trivial
    · rintro (hverb | h)
      · simp only [List.mem_cons, List.not_mem_nil, or_false] at hverb
        exact hverb.elim hcheck hexit
      · exact hempty h

/-- **`-O` has no remote effect exactly when** the line that the master reads is one that it answers
itself. -/
theorem handleResume_staysLocal_iff (pid : UInt32) (cmd : String) :
    (∀ e ∈ execLog h (handleResume pid (controlFrame cmd)) s, ¬ e.1.Remote) ↔
      ∀ line, receivedLine cmd = some line → AnsweredLocally line := by
  rw [handleResume_controlFrame]
  rcases hline : receivedLine cmd with _ | line
  · exact iff_of_true (fun e he => by cases he) (fun _ h => by cases h)
  · simp only [Option.some.injEq, forall_eq']
    exact handleCommandLine_staysLocal_iff h s pid line

end Master

/-- In terms of what the user types: the newline that is added changes nothing. -/
theorem answeredLocally_newline (cmd : String) :
    AnsweredLocally (cmd ++ "\n") ↔ AnsweredLocally cmd := by
  rw [AnsweredLocally, AnsweredLocally, firstWord_newline, trimCommandLine_newline]

/-- `checks` is executed. -/
theorem handleResume_runs_unknown_verb :
    ¬ ∀ (σ : Type) (h : Handler MasterOp MasterOp.Res σ) (s : σ) (pid : UInt32) (cmd : String),
      ∀ e ∈ execLog h (handleResume pid (controlFrame cmd)) s, ¬ e.1.Remote := by
  intro hall
  have hlocal := hall Unit quietServer () 1 "checks"
  rw [handleResume_controlFrame, receivedLine_of_length_lt (by decide)] at hlocal
  have hverb := (handleCommandLine_staysLocal_iff quietServer () 1 _).mp hlocal
  revert hverb
  rw [answeredLocally_newline]
  decide

/-! ## Replies -/

theorem readCtrlReply_ok (pid : UInt32) : readCtrlReply (utf8 s!"ok {pid}\n") = .running pid := by
  have hdigit : ∀ c ∈ (Nat.repr pid.toNat).toList, isWhitespace c = false := fun c hc => by
    rw [Nat.toList_repr] at hc
    exact isWhitespace_of_isDigit (Nat.isDigit_of_mem_toDigits (by decide) (by decide) hc)
  have hne : (Nat.repr pid.toNat).toList ≠ [] := by
    rw [Nat.toList_repr]
    exact Nat.toDigits_ne_nil
  have htrim : trim (Nat.repr pid.toNat) = Nat.repr pid.toNat := by
    have happend := trim_append (s := Nat.repr pid.toNat) (t := "")
      (fun c hc => hdigit c (List.mem_of_mem_head? hc))
      (fun c hc => hdigit c (List.mem_of_getLast? hc)) (by simp)
    rwa [String.append_empty] at happend
  have hreply : trim (fromUtf8Lossy (utf8 s!"ok {pid}\n")) = "ok " ++ Nat.repr pid.toNat := by
    rw [fromUtf8Lossy_utf8]
    refine trim_append (s := "ok " ++ Nat.repr pid.toNat) (t := "\n") ?_ ?_
      (List.all_eq_true.mp (by decide))
    · intro c hc
      rw [String.toList_append, show "ok ".toList = ['o', 'k', ' '] from rfl] at hc
      cases hc
      decide
    · intro c hc
      rw [String.toList_append, List.getLast?_append_of_ne_nil _ hne] at hc
      exact hdigit c (List.mem_of_getLast? hc)
  unfold readCtrlReply
  rw [hreply]
  dsimp only
  rw [Text.stripPrefix_append, Option.bind_some, htrim, parseU32_repr]

theorem length_utf8_ok_lt (pid : UInt32) : (utf8 s!"ok {pid}\n").length < 2 ^ 32 := by
  have hdigits : (Nat.toDigits 10 pid.toNat).length ≤ 10 :=
    (Nat.length_toDigits_le_iff (by decide) (by decide)).mpr
      (lt_of_lt_of_le pid.toNat_lt (by decide))
  have hlength : s!"ok {pid}\n".toList.length = 3 + (Nat.toDigits 10 pid.toNat).length + 1 := by
    rw [← Nat.toList_repr]
    show (("ok " ++ Nat.repr pid.toNat) ++ "\n").toList.length = _
    rw [String.toList_append, String.toList_append, List.length_append, List.length_append]
    rfl
  have hle := length_utf8_le s!"ok {pid}\n"
  omega

/-- The master's frames of output begin with a control character, and those are no reply. -/
theorem readCtrlReply_of_tag {tag : UInt8} (htag : tag ∈ [0, 1, 2]) (rest : Bytes) :
    readCtrlReply (tag :: rest) = .unknownReply := by
  obtain ⟨c, hbytes, hwhite, ho, hb⟩ : ∃ c : Char, String.utf8EncodeChar c = [tag] ∧
      isWhitespace c = false ∧ c ≠ 'o' ∧ c ≠ 'b' := by
    simp only [List.mem_cons, List.not_mem_nil, or_false] at htag
    rcases htag with rfl | rfl | rfl
    · exact ⟨'\x00', by decide⟩
    · exact ⟨'\x01', by decide⟩
    · exact ⟨'\x02', by decide⟩
  have hhead : (trim (fromUtf8Lossy (tag :: rest))).toList.head? = some c := by
    refine head?_trim ?_ hwhite
    rw [fromUtf8Lossy, String.toList_ofList, ← List.singleton_append, ← hbytes,
      lossyChars_utf8EncodeChar]
    rfl
  unfold readCtrlReply
  dsimp only
  have hok : Text.stripPrefix "ok " (trim (fromUtf8Lossy (tag :: rest))) = none := by
    refine if_neg fun hpre => ?_
    obtain ⟨l, hl⟩ := hpre
    rw [← hl] at hhead
    exact ho (Option.some.inj hhead).symm
  have hbye : trim (fromUtf8Lossy (tag :: rest)) ≠ "bye" := by
    intro hbye
    rw [hbye] at hhead
    exact hb (Option.some.inj hhead).symm
  rw [hok, Option.bind_none, if_neg hbye]

/-- Nothing, or a length and a tag. -/
def Tagged (bytes : Bytes) : Prop :=
  bytes = [] ∨ ∃ n tag rest, tag ∈ [0, 1, 2] ∧ bytes = Bytes.toBe32 n ++ tag :: rest

theorem tagged_bytes {log : MasterLog} (hlog : ∀ e ∈ log, Tagged e.1.bytes) :
    Tagged log.bytes := by
  induction log with
  | nil => exact .inl rfl
  | cons e log ih =>
    rcases hlog e (by simp) with hnone | ⟨n, tag, rest, htag, hbytes⟩
    · have hsame : MasterLog.bytes (e :: log) = MasterLog.bytes log := by
        rw [MasterLog.bytes, List.flatMap_cons, hnone]
        rfl
      rw [hsame]
      exact ih fun e' he' => hlog e' (List.mem_cons_of_mem _ he')
    · refine .inr ⟨n, tag, rest ++ MasterLog.bytes log, htag, ?_⟩
      rw [MasterLog.bytes, List.flatMap_cons, hbytes, List.append_assoc]
      rfl

theorem readCtrlReply_of_tagged {bytes payload rest : Bytes} (htagged : Tagged bytes)
    (hread : readCmdFrame bytes = .ok (some (payload, rest))) :
    readCtrlReply payload = .unknownReply := by
  rcases htagged with rfl | ⟨n, tag, tail, htag, rfl⟩
  · cases hread
  unfold readCmdFrame at hread
  rw [show (4 : Nat) = (Bytes.toBe32 n).length from rfl, Bytes.readExact_append] at hread
  dsimp only at hread
  split at hread
  · cases hread
  · next payload' rest' hpayload =>
    obtain ⟨hsplit, -⟩ := Bytes.readExact_eq_some hpayload
    cases hread
    -- an empty frame is no reply either
    rcases payload with _ | ⟨b, payload⟩
    · decide
    · rw [← (List.cons.inj hsplit).1]
      exact readCtrlReply_of_tag htag payload

/-! ## No forged reply -/

section Reply

variable {σ : Type} (h : Handler MasterOp MasterOp.Res σ) (s : σ)

theorem MasterLog.bytes_append (log log' : MasterLog) :
    MasterLog.bytes (log ++ log') = log.bytes ++ log'.bytes := List.flatMap_append

theorem bytes_reply (payload : Bytes) :
    MasterLog.bytes (execLog h
        (do call (.writeCmdFrame payload) id; call .shutdown .ok : MasterM Unit) s)
      = writeCmdFrame payload := by
  rw [execLog_bind, MasterLog.bytes_append, execLog_call]
  have hfirst : MasterLog.bytes [⟨.writeCmdFrame payload, (h (.writeCmdFrame payload) s).1⟩]
      = writeCmdFrame payload := List.append_nil _
  rw [hfirst]
  split <;> exact List.append_nil _

theorem tagged_execCommand (cmd : String) :
    Tagged (MasterLog.bytes (execLog h (execCommand cmd) s)) := by
  have hnone : ∀ {op : MasterOp}, op.bytes = [] → Tagged op.bytes := .inl
  have hserved : Emits (fun _ _ => True) (fun op => Tagged op.bytes) (fun _ => True)
      (execCommand cmd) := by
    refine emits_bind (emits_call (hnone rfl) fun _ _ _ _ => trivial) fun _ _ => ?_
    refine emits_bind (emits_call (hnone rfl) fun _ _ _ _ => trivial) fun _ _ => ?_
    refine emits_relayCommand (hnone rfl) (fun payload => ?_) (fun payload => ?_) (fun code => ?_)
      (hnone rfl)
    · exact .inr ⟨_, 1, payload, by decide, List.append_assoc _ _ _⟩
    · exact .inr ⟨_, 2, payload, by decide, List.append_assoc _ _ _⟩
    · exact .inr ⟨_, 0, _, by decide, List.append_assoc _ _ _⟩
  exact tagged_bytes (Emits.of_mem_execLog (fun _ _ => trivial) hserved s)

/-- What the master sends begins with the reply of the verb, or with a tagged frame. -/
theorem bytes_handleCommandLine (pid : UInt32) (line : String) :
    (firstWord line = "check" ∧ MasterLog.bytes (execLog h (handleCommandLine pid line) s)
        = writeCmdFrame (utf8 s!"ok {pid}\n")) ∨
      ((firstWord line = "exit" ∨ firstWord line = "stop") ∧
        MasterLog.bytes (execLog h (handleCommandLine pid line) s)
          = writeCmdFrame (utf8 "bye\n")) ∨
      Tagged (MasterLog.bytes (execLog h (handleCommandLine pid line) s)) := by
  unfold handleCommandLine
  dsimp only
  rw [firstWord_trimCommandLine]
  by_cases hcheck : firstWord line = "check"
  · rw [if_pos hcheck]
    exact .inl ⟨hcheck, bytes_reply h s _⟩
  rw [if_neg hcheck]
  by_cases hexit : firstWord line = "exit" ∨ firstWord line = "stop"
  · rw [if_pos hexit]
    refine .inr (.inl ⟨hexit, ?_⟩)
    rw [execLog_bind, MasterLog.bytes_append, handleCtrlExit, bytes_reply]
    split <;> exact List.append_nil _
  rw [if_neg hexit]
  right; right
  by_cases hempty : trimCommandLine line = ""
  · rw [if_pos hempty, execLog_call]
    exact .inr ⟨1, 0, _, by decide, rfl⟩
  · rw [if_neg hempty]
    exact tagged_execCommand h s _

end Reply

/-- What the kernel promises of a write: where it succeeds, what the other end has not read is in
the buffer of the socket, whose size is an `int`. -/
def BufferBounded (written : Except String Unit) (sent : Bytes) : Prop :=
  written = .ok () → ∀ payload rest, readCmdFrame sent = .ok (some (payload, rest)) →
    rest.length < 2 ^ 32

/-- So a frame that is written whole is read whole. -/
theorem BufferBounded.length_lt {written : Except String Unit} {payload : Bytes}
    (hbuffer : BufferBounded written (writeCmdFrame payload)) (hwritten : written = .ok ()) :
    payload.length < 2 ^ 32 := by
  have hrest := hbuffer hwritten _ _ (readCmdFrame_writeCmdFrame payload)
  rw [List.length_drop] at hrest
  omega

theorem bufferBounded_of_length_lt {written : Except String Unit} {payload : Bytes}
    (h : payload.length < 2 ^ 32) : BufferBounded written (writeCmdFrame payload) := by
  intro _ front rest hread
  rw [readCmdFrame_writeCmdFrame, Except.ok.injEq, Option.some.injEq, Prod.mk.injEq] at hread
  rw [← hread.2, List.length_drop]
  omega

theorem sendControlCommand_eq {connect written : Except String Unit} {rx : Bytes}
    {reply : CtrlReply} (hreply : sendControlCommand connect written rx = reply)
    (hne : reply ≠ .noMaster) :
    written = .ok () ∧ ∃ payload rest, readCmdFrame rx = .ok (some (payload, rest)) ∧
      readCtrlReply payload = reply := by
  unfold sendControlCommand at hreply
  split at hreply
  · exact absurd hreply.symm hne
  split at hreply
  · exact absurd hreply.symm hne
  split at hreply
  · next payload rest hread => exact ⟨rfl, payload, rest, hread, hreply⟩
  · exact absurd hreply.symm hne
  · exact absurd hreply.symm hne

/-- **No forged reply**: whatever the remote host sends and whatever fails, a process id is the
master's own and answers `check`, and `bye` answers `exit` or `stop`. -/
theorem sendControlCommand_not_forged {σ : Type} (h : Handler MasterOp MasterOp.Res σ) (s : σ)
    (pid : UInt32) (cmd : String) (connect written : Except String Unit) (rx : Bytes)
    (hbuffer : BufferBounded written (controlFrame cmd))
    (hrx : rx <+: MasterLog.bytes (execLog h (handleResume pid (controlFrame cmd)) s)) :
    (∀ n, sendControlCommand connect written rx = .running n →
        firstWord cmd = "check" ∧ n = pid) ∧
      (sendControlCommand connect written rx = .exiting →
        firstWord cmd = "exit" ∨ firstWord cmd = "stop") := by
  have hcases : ∀ reply, sendControlCommand connect written rx = reply → reply ≠ .noMaster →
      (firstWord cmd = "check" ∧ reply = .running pid) ∨
        ((firstWord cmd = "exit" ∨ firstWord cmd = "stop") ∧ reply = .exiting) ∨
        reply = .unknownReply := by
    intro reply hreply hne
    obtain ⟨hwritten, payload, rest, hread, rfl⟩ := sendControlCommand_eq hreply hne
    have hlength := hbuffer.length_lt hwritten
    rw [handleResume_controlFrame, receivedLine_of_length_lt hlength] at hrx
    dsimp only at hrx
    -- the frame that is read is the first of those that the master sends
    obtain ⟨more, hmore⟩ := readCmdFrame_of_isPrefix hrx hread
    have hframe : ∀ text : String, (utf8 text).length < 2 ^ 32 →
        MasterLog.bytes (execLog h (handleCommandLine pid (cmd ++ "\n")) s)
          = writeCmdFrame (utf8 text) → payload = utf8 text := by
      intro text hlt hbytes
      rw [hbytes, readCmdFrame_writeCmdFrame, Nat.mod_eq_of_lt hlt, List.take_length,
        Except.ok.injEq, Option.some.injEq, Prod.mk.injEq] at hmore
      exact hmore.1.symm
    rcases bytes_handleCommandLine h s pid (cmd ++ "\n") with
      ⟨hcheck, hbytes⟩ | ⟨hexit, hbytes⟩ | htagged
    · rw [firstWord_newline] at hcheck
      rw [hframe _ (length_utf8_ok_lt pid) hbytes, readCtrlReply_ok]
      exact .inl ⟨hcheck, rfl⟩
    · rw [firstWord_newline] at hexit
      rw [hframe _ (by decide) hbytes]
      exact .inr (.inl ⟨hexit, by decide⟩)
    · exact .inr (.inr (readCtrlReply_of_tagged htagged hmore))
  constructor
  · intro n hn
    rcases hcases _ hn (by simp) with ⟨hcheck, heq⟩ | ⟨_, heq⟩ | heq
    · exact ⟨hcheck, CtrlReply.running.inj heq⟩
    · cases heq
    · cases heq
  · intro hexiting
    rcases hcases _ hexiting (by simp) with ⟨_, heq⟩ | ⟨hexit, -⟩ | heq
    · cases heq
    · exact hexit
    · cases heq

theorem sendControlCommand_check :
    sendControlCommand (.ok ()) (.ok ()) (writeCmdFrame (utf8 "ok 7\n")) = .running 7 ∧
      ((∀ n, sendControlCommand (.ok ()) (.ok ()) (writeCmdFrame (utf8 "ok 7\n")) = .running n →
          firstWord "check" = "check" ∧ n = 7) ∧
        (sendControlCommand (.ok ()) (.ok ()) (writeCmdFrame (utf8 "ok 7\n")) = .exiting →
          firstWord "check" = "exit" ∨ firstWord "check" = "stop")) := by
  refine ⟨by decide, sendControlCommand_not_forged quietServer () 7 "check" _ _ _
    (bufferBounded_of_length_lt (by decide)) ?_⟩
  rw [handleResume_controlFrame, receivedLine_of_length_lt (by decide)]
  decide

end Passhrs
