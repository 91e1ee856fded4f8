import Passhrs.Control.Frames
import Passhrs.Ssh.Channel

/-!
# The resume path

A command that a resume client runs over a master: the master pumps the channel's messages to the
socket as frames, the client reads them back. The socket carries what is written to it.

* **`pumpSessionToUds_eq`**: the pump writes the output before EOF or CLOSE, and has the last
  status before it.
* **`resume_exact_iff`**: on a sequence that the protocol allows, output and status arrive exactly
  when the status comes before EOF or is 0.
-/

namespace Passhrs

open ChannelMsg

/-! ## The master -/

/-- The loop of `pump_session_to_uds`: what is on `tx`, and the code, when it ends. -/
def pumpSessionToUds (tx : Bytes) (exitCode : Int32) : List ChannelMsg → Bytes × Int32
  | [] => (tx, exitCode)
  | m :: msgs =>
    match m with
    | .data bytes => pumpSessionToUds (tx ++ writeDataFrame 1 bytes) exitCode msgs
    | .extendedData bytes _ => pumpSessionToUds (tx ++ writeDataFrame 2 bytes) exitCode msgs
    | .exitStatus s => pumpSessionToUds tx s.toInt32 msgs
    | .eof | .close => (tx, exitCode)
    | .success | .failure => pumpSessionToUds tx exitCode msgs
    | .other => pumpSessionToUds tx exitCode msgs

/-- What `handle_resume` writes once the command is accepted. -/
def relay (msgs : List ChannelMsg) : Bytes :=
  let (tx, exitCode) := pumpSessionToUds [] 0 msgs
  tx ++ writeDone exitCode

/-- A resume, from the channel to the client. -/
def resume (quiet : Bool) (msgs : List ChannelMsg) : Resumed := readFrames quiet (relay msgs) [] []

/-! ## What the pump writes -/

/-- The message is EOF or CLOSE. -/
def ChannelMsg.endsPump : ChannelMsg → Bool
  | .eof | .close => true
  | _ => false

/-- The frames that the pump makes of a message. -/
def outputFrames : ChannelMsg → List OutputFrame
  | .data bytes => [.stdout bytes]
  | .extendedData bytes _ => [.stderr bytes]
  | _ => []

/-- What the pump sees. -/
def beforeEnd (msgs : List ChannelMsg) : List ChannelMsg := msgs.takeWhile fun m => !m.endsPump

/-- The last status, or `code` without one. -/
def lastStatus (code : Int32) (msgs : List ChannelMsg) : Int32 :=
  ((msgs.filterMap status).getLast?.map UInt32.toInt32).getD code

theorem lastStatus_cons (code : Int32) (m : ChannelMsg) (msgs : List ChannelMsg) :
    lastStatus code (m :: msgs)
      = lastStatus ((m.status.map UInt32.toInt32).getD code) msgs := by
  unfold lastStatus
  rcases hm : m.status with _ | s
  · rw [List.filterMap_cons_none hm]
    rfl
  · rw [List.filterMap_cons_some hm, List.getLast?_cons]
    rcases (msgs.filterMap status).getLast? with _ | _ <;> rfl

theorem pumpSessionToUds_eq (msgs : List ChannelMsg) (tx : Bytes) (exitCode : Int32) :
    pumpSessionToUds tx exitCode msgs
      = (tx ++ ((beforeEnd msgs).flatMap outputFrames).flatMap OutputFrame.write,
          lastStatus exitCode (beforeEnd msgs)) := by
  induction msgs generalizing tx exitCode with
  | nil =>
    show (tx, exitCode) = (tx ++ [], exitCode)
    rw [List.append_nil]
  | cons m msgs ih =>
    by_cases hends : m.endsPump = true
    · -- the loop ends here
      have hbefore : beforeEnd (m :: msgs) = [] := by simp [beforeEnd, hends]
      have hpump : pumpSessionToUds tx exitCode (m :: msgs) = (tx, exitCode) := by
        cases m with
        | eof => rfl
        | close => rfl
        | _ => cases hends
      rw [hbefore, hpump]
      show (tx, exitCode) = (tx ++ [], exitCode)
      rw [List.append_nil]
    · have hbefore : beforeEnd (m :: msgs) = m :: beforeEnd msgs := by simp [beforeEnd, hends]
      have hpump : pumpSessionToUds tx exitCode (m :: msgs)
          = pumpSessionToUds (tx ++ (outputFrames m).flatMap OutputFrame.write)
              ((m.status.map UInt32.toInt32).getD exitCode) msgs := by
        cases m with
        | eof => exact absurd rfl hends
        | close => exact absurd rfl hends
        | _ => simp [pumpSessionToUds, outputFrames, OutputFrame.write, status]
      rw [hpump, ih, hbefore, lastStatus_cons, List.flatMap_cons, List.flatMap_append,
        List.append_assoc]

/-! ## From end to end -/

theorem flatMap_outputFrames (msgs : List ChannelMsg) :
    (msgs.flatMap outputFrames).flatMap OutputFrame.stdoutBytes = dataOf msgs ∧
      (msgs.flatMap outputFrames).flatMap OutputFrame.stderrBytes = extendedOf msgs := by
  rw [List.flatMap_assoc, List.flatMap_assoc]
  constructor
  · refine congrArg (msgs.flatMap ·) (funext fun m => ?_)
    cases m <;> simp [outputFrames, OutputFrame.stdoutBytes, stdoutBytes]
  · refine congrArg (msgs.flatMap ·) (funext fun m => ?_)
    cases m <;> simp [outputFrames, OutputFrame.stderrBytes, stderrBytes]

/-- **What arrives** is the output that the pump has seen, and the low byte of its code. -/
theorem resume_eq {msgs : List ChannelMsg}
    (h : ∀ m ∈ msgs, m.stdoutBytes.length < 2 ^ 32 ∧ m.stderrBytes.length < 2 ^ 32) :
    resume false msgs
      = ⟨.ok (lastStatus 0 (beforeEnd msgs)).toUInt32.toUInt8.toUInt32.toInt32,
          dataOf (beforeEnd msgs), extendedOf (beforeEnd msgs), []⟩ := by
  have hframes : ∀ f ∈ (beforeEnd msgs).flatMap outputFrames, f.payload.length < 2 ^ 32 := by
    intro f hf
    obtain ⟨m, hm, hf⟩ := List.mem_flatMap.mp hf
    obtain ⟨hout, herr⟩ := h m ((List.takeWhile_prefix _).subset hm)
    cases m with
    | data bytes => rw [List.mem_singleton.mp hf]; exact hout
    | extendedData bytes _ => rw [List.mem_singleton.mp hf]; exact herr
    | _ => cases hf
  unfold resume relay
  rw [pumpSessionToUds_eq]
  show readFrames false ([] ++ _ ++ writeDone _) [] [] = _
  rw [List.nil_append, readFrames_output _ hframes, ← List.append_nil (writeDone _),
    readFrames_done, (flatMap_outputFrames _).1, (flatMap_outputFrames _).2, List.nil_append,
    List.nil_append]

/-- The codes that a byte holds arrive as they are. -/
theorem byte_roundtrip {s : UInt32} (h : s ≤ 255) :
    s.toInt32.toUInt32.toUInt8.toUInt32.toInt32 = s.toInt32 := by
  have hlt : s.toNat < 256 := Nat.lt_succ_of_le (UInt32.le_iff_toNat_le.mp h)
  have hbyte : s.toUInt8.toUInt32 = s := by
    rw [← UInt32.toNat_inj]
    simp [Nat.mod_eq_of_lt hlt]
  rw [UInt32.toUInt32_toInt32, hbyte]

/-- Up to EOF there is all of the output. -/
theorem Allowed.beforeEnd_output {msgs : List ChannelMsg} {s : UInt32} (h : Allowed msgs s) :
    dataOf (beforeEnd msgs) = dataOf msgs ∧ extendedOf (beforeEnd msgs) = extendedOf msgs := by
  obtain ⟨body, tail, rfl, hbody, htail⟩ := h.split
  have hbefore : beforeEnd (body ++ .eof :: (tail ++ [.close])) = body := by
    unfold beforeEnd
    rw [List.takeWhile_append_of_pos fun m hm => ?_]
    · exact List.append_nil body
    · obtain ⟨hne, hnc⟩ := hbody m hm
      cases m <;> simp_all [endsPump]
  have hout : tail.flatMap stdoutBytes = [] :=
    List.flatMap_eq_nil_iff.mpr fun m hm => (htail m hm).2.2.1
  have herr : tail.flatMap stderrBytes = [] :=
    List.flatMap_eq_nil_iff.mpr fun m hm => (htail m hm).2.2.2
  rw [hbefore]
  constructor
  · simp [dataOf, hout, stdoutBytes]
  · simp [extendedOf, herr, stderrBytes]

theorem Allowed.lastStatus_beforeEnd {msgs : List ChannelMsg} {s : UInt32} (h : Allowed msgs s) :
    lastStatus 0 (beforeEnd msgs) = if .exitStatus s ∈ beforeEnd msgs then s.toInt32 else 0 := by
  have hmem : ∀ x, .exitStatus x ∈ beforeEnd msgs ↔ x ∈ (beforeEnd msgs).filterMap status := by
    intro x
    rw [List.mem_filterMap]
    constructor
    · exact fun hx => ⟨_, hx, rfl⟩
    · rintro ⟨m, hm, hx⟩
      cases m with
      | exitStatus y => cases hx; exact hm
      | _ => cases hx
  have hprefix : (beforeEnd msgs).filterMap status <+: [s] := by
    rw [← h.once]
    exact (List.takeWhile_prefix _).filterMap status
  unfold lastStatus
  simp only [hmem]
  rcases List.prefix_cons_iff.mp hprefix with hnil | ⟨t, hone, ht⟩
  · rw [hnil]
    rfl
  · rw [hone, List.prefix_nil.mp ht, if_pos (List.mem_singleton_self s)]
    rfl

/-- **A resume is faithful exactly when the status comes before EOF**, or is 0. -/
theorem resume_exact_iff {msgs : List ChannelMsg} {s : UInt32} (h : Allowed msgs s) (hs : s ≤ 255)
    (hlen : ∀ m ∈ msgs, m.stdoutBytes.length < 2 ^ 32 ∧ m.stderrBytes.length < 2 ^ 32) :
    ((resume false msgs).result = .ok s.toInt32 ∧ (resume false msgs).stdout = dataOf msgs ∧
        (resume false msgs).stderr = extendedOf msgs) ↔
      .exitStatus s ∈ beforeEnd msgs ∨ s = 0 := by
  rw [resume_eq hlen, h.beforeEnd_output.1, h.beforeEnd_output.2, h.lastStatus_beforeEnd]
  by_cases hbefore : .exitStatus s ∈ beforeEnd msgs
  · rw [if_pos hbefore, byte_roundtrip hs]
    simp [hbefore]
  · -- the pump never saw the status, and sent 0
    rw [if_neg hbefore]
    show (Except.ok 0 = Except.ok s.toInt32 ∧ dataOf msgs = dataOf msgs ∧
      extendedOf msgs = extendedOf msgs) ↔ _
    simp [hbefore, toInt32_eq_zero]

/-- EOF ends the pump, and the status behind it is lost. -/
theorem resume_loses_status :
    Allowed [.data [104], .eof, .exitStatus 3, .close] 3 ∧
      (resume false [.data [104], .eof, .exitStatus 3, .close]).result
        ≠ .ok (UInt32.toInt32 3) := by
  refine ⟨⟨⟨[.data [104]], [.exitStatus 3], rfl, by decide, by decide⟩, rfl⟩, ?_⟩
  rw [resume_eq (by decide)]
  show Except.ok 0 ≠ Except.ok 3
  simp

theorem resume_exact_status_first :
    ((resume false [.data [104], .exitStatus 3, .eof, .close]).result = .ok (UInt32.toInt32 3) ∧
        (resume false [.data [104], .exitStatus 3, .eof, .close]).stdout = [104] ∧
        (resume false [.data [104], .exitStatus 3, .eof, .close]).stderr = []) ↔
      .exitStatus 3 ∈ beforeEnd [.data [104], .exitStatus 3, .eof, .close] ∨ (3 : UInt32) = 0 :=
  resume_exact_iff ⟨⟨[.data [104], .exitStatus 3], [], rfl, by decide, by decide⟩, rfl⟩ (by decide)
    (by decide)

end Passhrs
