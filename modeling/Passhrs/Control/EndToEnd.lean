import Passhrs.Control.Master

/-!
# A resume from end to end

The client of a resume, the socket, the master and the server, where anything may fail: the server
may refuse, each write of the master may fail with any part of it on the socket, and the client may
lose the connection at any byte. What the client reads is then the front of what the master writes.

* **`resume_end_to_end`**: the client comes to a code exactly when the channel is opened, the
  command is sent and the whole session has arrived, and then it has what `resume` makes of the
  session. A server that refuses the command says so in the session, where nobody looks at it.
-/

namespace Passhrs

open Effects Text

section Frames

variable {σ : Type} (h : Handler MasterOp MasterOp.Res σ)

theorem MasterLog.bytes_cons (e : (op : MasterOp) × op.Res) (log : MasterLog) :
    MasterLog.bytes (e :: log) = e.1.bytes ++ MasterLog.bytes log := List.flatMap_cons

/-- The frames of the messages that the pump sees. -/
def framesOf (msgs : List ChannelMsg) : Bytes :=
  ((beforeEnd msgs).flatMap outputFrames).flatMap OutputFrame.write

theorem framesOf_cons {m : ChannelMsg} (hm : m.endsPump = false) (msgs : List ChannelMsg) :
    framesOf (m :: msgs) = (outputFrames m).flatMap OutputFrame.write ++ framesOf msgs := by
  have hbefore : beforeEnd (m :: msgs) = m :: beforeEnd msgs := by simp [beforeEnd, hm]
  unfold framesOf
  rw [hbefore, List.flatMap_cons, List.flatMap_append]

theorem relay_eq (msgs : List ChannelMsg) :
    relay msgs = framesOf msgs ++ writeDone (lastStatus 0 (beforeEnd msgs)) := by
  unfold relay
  rw [pumpSessionToUds_eq]
  rfl

/-- What the loop has written: the front of the frames, and all of them if it ends with a code,
which is then the last status. -/
structure WritesFrames (msgs : List ChannelMsg) (exitCode : Int32) (written : Bytes)
    (result : Except String Int32) : Prop where
  isPrefix : written <+: framesOf msgs
  complete : ∀ code, result = .ok code →
    written = framesOf msgs ∧ code = lastStatus exitCode (beforeEnd msgs)

/-- A message that ends the pump. -/
theorem WritesFrames.ending {m : ChannelMsg} (hm : m.endsPump = true) (msgs : List ChannelMsg)
    (exitCode : Int32) : WritesFrames (m :: msgs) exitCode [] (.ok exitCode) := by
  have hbefore : beforeEnd (m :: msgs) = [] := by simp [beforeEnd, hm]
  refine ⟨List.nil_prefix, fun code hcode => ?_⟩
  rw [framesOf, hbefore]
  exact ⟨rfl, (Except.ok.inj hcode).symm⟩

/-- A message of which the pump makes no frame. -/
theorem WritesFrames.silent {m : ChannelMsg} (hm : m.endsPump = false)
    (hframes : outputFrames m = []) {msgs : List ChannelMsg} {exitCode : Int32} {written : Bytes}
    {result : Except String Int32}
    (hrest : WritesFrames msgs ((m.status.map UInt32.toInt32).getD exitCode) written result) :
    WritesFrames (m :: msgs) exitCode written result := by
  have hbefore : beforeEnd (m :: msgs) = m :: beforeEnd msgs := by simp [beforeEnd, hm]
  have hsame : framesOf (m :: msgs) = framesOf msgs := by rw [framesOf_cons hm, hframes]; rfl
  refine ⟨hsame ▸ hrest.isPrefix, fun code hcode => ?_⟩
  obtain ⟨hwritten, hstatus⟩ := hrest.complete code hcode
  rw [hsame, hbefore, lastStatus_cons]
  exact ⟨hwritten, hstatus⟩

/-- A message of output, whose write may fail. -/
theorem WritesFrames.frame {m : ChannelMsg} {msgs : List ChannelMsg} {tag : UInt8} {payload : Bytes}
    (hm : m.endsPump = false) (hstatus : m.status = none)
    (hframes : (outputFrames m).flatMap OutputFrame.write = writeDataFrame tag payload)
    {exitCode : Int32} (hrest : ∀ s, WritesFrames msgs exitCode
      (MasterLog.bytes (execLog h (relayFrames exitCode msgs) s))
      (exec h (relayFrames exitCode msgs) s).1) (s : σ) :
    WritesFrames (m :: msgs) exitCode
      (MasterLog.bytes (execLog h
        (call (.writeDataFrame tag payload) id >>= fun _ => relayFrames exitCode msgs) s))
      (exec h (call (.writeDataFrame tag payload) id >>= fun _ => relayFrames exitCode msgs)
        s).1 := by
  have hbefore : beforeEnd (m :: msgs) = m :: beforeEnd msgs := by simp [beforeEnd, hm]
  rcases hwrite : h (.writeDataFrame tag payload) s with ⟨_ | ⟨⟩, s'⟩
  · -- the write fails, and the loop with it
    next e =>
    have hcall : exec h (call (.writeDataFrame tag payload) id) s = (.error e, s') := by
      rw [exec_call, hwrite]
      rfl
    rw [exec_bind_error hcall, execLog_bind_error hcall, execLog_call, hwrite]
    refine ⟨?_, fun _ hcode => by cases hcode⟩
    rw [MasterLog.bytes_cons, framesOf_cons hm, hframes]
    exact (List.prefix_append_right_inj _).mpr List.nil_prefix
  · have hcall : exec h (call (.writeDataFrame tag payload) id) s = (.ok (), s') := by
      rw [exec_call, hwrite]
      rfl
    obtain ⟨hfront, hcomplete⟩ := hrest s'
    rw [exec_bind_ok hcall, execLog_bind_ok hcall, execLog_call, hwrite, List.singleton_append,
      MasterLog.bytes_cons]
    have hsplit : framesOf (m :: msgs) = writeDataFrame tag payload ++ framesOf msgs := by
      rw [framesOf_cons hm, hframes]
    refine ⟨?_, fun code hcode => ?_⟩
    · rw [hsplit]
      exact (List.prefix_append_right_inj _).mpr hfront
    · obtain ⟨hwritten, hlast⟩ := hcomplete code hcode
      rw [hsplit, hwritten, hbefore, lastStatus_cons, hstatus]
      exact ⟨rfl, hlast⟩

theorem relayFrames_writes (msgs : List ChannelMsg) (exitCode : Int32) (s : σ) :
    WritesFrames msgs exitCode (MasterLog.bytes (execLog h (relayFrames exitCode msgs) s))
      (exec h (relayFrames exitCode msgs) s).1 := by
  induction msgs generalizing exitCode s with
  | nil => exact ⟨List.nil_prefix, fun code hcode => ⟨rfl, (Except.ok.inj hcode).symm⟩⟩
  | cons m msgs ih =>
    cases m with
    | data bytes => exact .frame h rfl rfl (List.append_nil _) (ih exitCode) s
    | extendedData bytes ext => exact .frame h rfl rfl (List.append_nil _) (ih exitCode) s
    | exitStatus status => exact (ih status.toInt32 s).silent rfl rfl
    | eof => exact .ending rfl msgs exitCode
    | close => exact .ending rfl msgs exitCode
    | success | failure | other => exact (ih exitCode s).silent rfl rfl

/-- What is on the socket of a command that runs is the front of its stream. -/
theorem relayCommand_isPrefix (s : σ) :
    MasterLog.bytes (execLog h relayCommand s) <+: relay (h .wait s).1 := by
  rcases hwait : h .wait s with ⟨msgs, s₁⟩
  have hcall : exec h (call .wait .ok : MasterM (List ChannelMsg)) s = (.ok msgs, s₁) := by
    rw [exec_call, hwait]
  obtain ⟨hfront, hcomplete⟩ := relayFrames_writes h msgs 0 s₁
  unfold relayCommand
  rw [execLog_bind_ok hcall, execLog_call, List.singleton_append, MasterLog.bytes_cons, relay_eq]
  show [] ++ _ <+: _
  rw [List.nil_append]
  rcases hframes : exec h (relayFrames 0 msgs) s₁ with ⟨e | code, s₂⟩
  · rw [execLog_bind_error hframes]
    exact hfront.trans (List.prefix_append _ _)
  · obtain ⟨hwritten, rfl⟩ := hcomplete code (by rw [hframes])
    rw [execLog_bind_ok hframes]
    show MasterLog.bytes (_ ++ _) <+: _
    rw [MasterLog.bytes, List.flatMap_append]
    refine hwritten ▸ (List.prefix_append_right_inj _).mpr ?_
    -- the done frame is the last thing on the socket
    rw [execLog_bind, execLog_call, exec_call]
    rcases (h (.writeDone (lastStatus 0 (beforeEnd msgs))) s₂).1 with e | ⟨⟩
    · exact List.prefix_refl _
    · exact List.prefix_refl _

/-- The server has opened the channel, the request for the command has been sent, and `msgs` is what
then comes on the channel, the server's answer to the request with it. -/
def CommandSent (s : σ) (line : String) (msgs : List ChannelMsg) : Prop :=
  ∃ s₁ s₂, h .channelOpenSession s = (.ok (), s₁) ∧ h (.exec true (utf8 line)) s₁ = (.ok (), s₂) ∧
    (h .wait s₂).1 = msgs

/-- Nothing is on the socket of a command that is not sent. -/
theorem execCommand_bytes (line : String) (s : σ) :
    MasterLog.bytes (execLog h (execCommand line) s) = [] ∨
      ∃ msgs, CommandSent h s line msgs ∧
        MasterLog.bytes (execLog h (execCommand line) s) <+: relay msgs := by
  unfold execCommand
  rcases hopen : h .channelOpenSession s with ⟨e | ⟨⟩, s₁⟩
  · left
    have hcall : exec h (call .channelOpenSession id : MasterM Unit) s = (.error e, s₁) := by
      rw [exec_call, hopen]
      rfl
    rw [execLog_bind_error hcall]
    rfl
  have hcall : exec h (call .channelOpenSession id : MasterM Unit) s = (.ok (), s₁) := by
    rw [exec_call, hopen]
    rfl
  rw [execLog_bind_ok hcall]
  -- the channel is open, and the request fails to go out or is sent
  rcases hexec : h (.exec true (utf8 line)) s₁ with ⟨e | ⟨⟩, s₂⟩
  · left
    have hcall' : exec h (call (.exec true (utf8 line)) id : MasterM Unit) s₁ = (.error e, s₂) := by
      rw [exec_call, hexec]
      rfl
    rw [execLog_bind_error hcall']
    rfl
  · right
    have hcall' : exec h (call (.exec true (utf8 line)) id : MasterM Unit) s₁ = (.ok (), s₂) := by
      rw [exec_call, hexec]
      rfl
    rw [execLog_bind_ok hcall']
    exact ⟨_, ⟨s₁, s₂, hopen, hexec, rfl⟩, relayCommand_isPrefix h s₂⟩

/-- No frame is longer than a message. -/
theorem frames_lt_of_payloads {msgs : List ChannelMsg}
    (hlen : ∀ m ∈ msgs, m.stdoutBytes.length < 2 ^ 32 ∧ m.stderrBytes.length < 2 ^ 32) :
    ∀ f ∈ (beforeEnd msgs).flatMap outputFrames, f.payload.length < 2 ^ 32 := by
  intro f hf
  obtain ⟨m, hm, hf⟩ := List.mem_flatMap.mp hf
  obtain ⟨hout, herr⟩ := hlen m ((List.takeWhile_prefix _).subset hm)
  cases m with
  | data bytes => rw [List.mem_singleton.mp hf]; exact hout
  | extendedData bytes _ => rw [List.mem_singleton.mp hf]; exact herr
  | _ => cases hf

end Frames

section Client

variable {σ : Type} {h : Handler MasterOp MasterOp.Res σ} {s : σ} {pid : UInt32} {line : String}
  {rx : Bytes}

/-- **When a client comes to a code.** Whatever the server does, whichever write fails, and wherever
the connection is cut: the client of a plain command comes to a code exactly when the channel is
opened, the command is sent and the client has read the whole stream of the session. Then it has
printed what came before EOF or CLOSE, and its code is the last status there modulo 256, which is 0
where there is none, as where the server refuses the command. -/
theorem resume_end_to_end (hplain : PlainCommand line) (hne : line ≠ "")
    (hlen : (utf8 line).length < 2 ^ 32)
    (hpayload : ∀ s, ∀ m ∈ (h .wait s).1,
      m.stdoutBytes.length < 2 ^ 32 ∧ m.stderrBytes.length < 2 ^ 32)
    (hrx : rx <+: MasterLog.bytes (execLog h (handleResume pid (writeCmdFrame (utf8 line))) s))
    (code : Int32) :
    (readFrames false rx [] []).result = .ok code ↔
      ∃ msgs, CommandSent h s line msgs ∧ rx = relay msgs ∧
        readFrames false rx [] [] =
          ⟨.ok code, dataOf (beforeEnd msgs), extendedOf (beforeEnd msgs), []⟩ ∧
        code.toInt = (lastStatus 0 (beforeEnd msgs)).toInt % 256 := by
  rw [handleResume_writeCmdFrame, Nat.mod_eq_of_lt hlen, List.take_length, handleCmdFrame_utf8,
    handleCommandLine_plain hplain hne] at hrx
  constructor
  · intro hcode
    rcases execCommand_bytes h line s with hnil | ⟨msgs, hsent, hfront⟩
    · -- nothing arrives, so there is no code
      rw [hnil] at hrx
      rw [List.prefix_nil.mp hrx, readFrames_nil] at hcode
      cases hcode
    obtain ⟨s₁, s₂, hopen, hexec, rfl⟩ := hsent
    have hlengths := hpayload s₂
    have hsession : relay (h .wait s₂).1 = sessionStream
        ((beforeEnd (h .wait s₂).1).flatMap outputFrames)
        (lastStatus 0 (beforeEnd (h .wait s₂).1)) := relay_eq _
    have hwhole : rx = relay (h .wait s₂).1 := by
      by_contra hcut
      obtain ⟨message, herror⟩ := readFrames_of_isPrefix (frames_lt_of_payloads hlengths)
        (hsession ▸ hrx.trans hfront) (hsession ▸ hcut) [] []
      rw [herror] at hcode
      cases hcode
    have hresume : readFrames false rx [] [] = resume false (h .wait s₂).1 := by rw [hwhole]; rfl
    rw [hresume, resume_eq hlengths] at hcode ⊢
    obtain rfl := Except.ok.inj hcode
    exact ⟨_, ⟨s₁, s₂, hopen, hexec, rfl⟩, hwhole, rfl, toInt_low_byte _⟩
  · rintro ⟨msgs, -, -, hread, -⟩
    rw [hread]

end Client

/-- A session with output, and with a code that does not fit a byte. -/
def sessionOf771 : List ChannelMsg :=
  [.success, .data [104], .exitStatus 771, .extendedData [33] 1, .eof, .close]

/-- A server on which every call succeeds, with that session. -/
def serverOf771 : Handler MasterOp MasterOp.Res Unit := fun op s =>
  match op with
  | .wait => (sessionOf771, s)
  | .shutdown | .setShouldExit => ((), s)
  | .channelOpenSession | .exec _ _ | .writeCmdFrame _ | .writeDataFrame _ _ | .writeDone _ =>
    (.ok (), s)

theorem resume_end_to_end_771 :
    (readFrames false (relay sessionOf771) [] []).result = .ok 3 ↔
      ∃ msgs, CommandSent serverOf771 () "ls" msgs ∧ relay sessionOf771 = relay msgs ∧
        readFrames false (relay sessionOf771) [] [] =
          ⟨.ok 3, dataOf (beforeEnd msgs), extendedOf (beforeEnd msgs), []⟩ ∧
        (3 : Int32).toInt = (lastStatus 0 (beforeEnd msgs)).toInt % 256 := by
  have hsent : relay sessionOf771
      = MasterLog.bytes (execLog serverOf771 (handleResume 1 (writeCmdFrame (utf8 "ls"))) ()) := by
    rw [handleResume_writeCmdFrame, List.take_of_length_le (by decide), handleCmdFrame_utf8]
    rfl
  have hpayload : ∀ s, ∀ m ∈ (serverOf771 .wait s).1,
      m.stdoutBytes.length < 2 ^ 32 ∧ m.stderrBytes.length < 2 ^ 32 := by
    show ∀ _, ∀ m ∈ sessionOf771, _
    decide
  have hrx : relay sessionOf771 <+:
      MasterLog.bytes (execLog serverOf771 (handleResume 1 (writeCmdFrame (utf8 "ls"))) ()) := by
    rw [← hsent]
  exact resume_end_to_end ⟨by decide, by decide, by decide⟩ (by decide) (by decide) hpayload hrx 3

end Passhrs
