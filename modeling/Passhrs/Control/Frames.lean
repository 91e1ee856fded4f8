import Passhrs.Lib.Bytes

/-!
# Frames of the control socket

The frame that a client sends to a master, what a master writes back to a resume client, and the
loop of `try_resume` that reads it. A read that fails has met the end of the stream.

* **`readCmdFrame_writeCmdFrame`**: the master reads the payload up to its length modulo `2 ^ 32`.
* **`readFrames_output`**: the loop takes in frames of output one by one.
* **`readFrames_done`**: it stops at the done frame, with the low byte of the code.
* **`readFrames_sessionStream`**: decoding undoes encoding, and a cut stream gives no code.
-/

namespace Passhrs

/-! ## What a client sends -/

/-- `write_cmd_frame`. -/
def writeCmdFrame (payload : Bytes) : Bytes :=
  Bytes.toBe32 (UInt32.ofNat payload.length) ++ payload

/-- `read_cmd_frame`: the payload and the rest of the stream, or nothing at its end. -/
def readCmdFrame (rx : Bytes) : Except String (Option (Bytes × Bytes)) :=
  match Bytes.readExact 4 rx with
  | none => .ok none
  | some (header, rx) =>
    match Bytes.readExact (Bytes.ofBe32 header).toNat rx with
    | none => .error "early eof"
    | some (payload, rest) => .ok (some (payload, rest))

/-- What is read of the front of a stream is read of the stream. -/
theorem readCmdFrame_of_isPrefix {front rx payload rest : Bytes} (hpre : front <+: rx)
    (h : readCmdFrame front = .ok (some (payload, rest))) :
    ∃ more, readCmdFrame rx = .ok (some (payload, rest ++ more)) := by
  unfold readCmdFrame at h ⊢
  rcases hheader : Bytes.readExact 4 front with _ | ⟨header, tail⟩
  · rw [hheader] at h
    cases h
  obtain ⟨more, hmore⟩ := Bytes.readExact_of_isPrefix hpre hheader
  rw [hheader] at h
  rw [hmore]
  dsimp only at h ⊢
  rcases hpayload : Bytes.readExact (Bytes.ofBe32 header).toNat tail with _ | ⟨taken, left⟩
  · rw [hpayload] at h
    cases h
  · obtain ⟨more', hmore'⟩ := Bytes.readExact_of_isPrefix (List.prefix_append tail more) hpayload
    rw [hpayload] at h
    cases h
    exact ⟨more', by rw [hmore']⟩

theorem readCmdFrame_writeCmdFrame (payload : Bytes) :
    readCmdFrame (writeCmdFrame payload)
      = .ok (some (payload.take (payload.length % 2 ^ 32),
          payload.drop (payload.length % 2 ^ 32))) := by
  set n := UInt32.ofNat payload.length with hn
  have hheader : Bytes.readExact 4 (writeCmdFrame payload) = some (Bytes.toBe32 n, payload) :=
    Bytes.readExact_append (Bytes.toBe32 n) payload
  have hlength : (Bytes.ofBe32 (Bytes.toBe32 n)).toNat = payload.length % 2 ^ 32 := by
    rw [Bytes.ofBe32_toBe32, hn, UInt32.toNat_ofNat']
  have hle : payload.length % 2 ^ 32 ≤ payload.length := Nat.mod_le _ _
  unfold readCmdFrame
  rw [hheader]
  dsimp only
  rw [hlength, Bytes.readExact, if_pos hle]

/-! ## What the master writes -/

def writeDataFrame (tag : UInt8) (payload : Bytes) : Bytes := Bytes.frame tag payload

/-- `write_done`. Only the low byte of the code is sent. -/
def writeDone (exitCode : Int32) : Bytes :=
  Bytes.toBe32 1 ++ [0] ++ [exitCode.toUInt32.toUInt8]

/-- A frame of output. -/
inductive OutputFrame where
  | stdout (payload : Bytes)
  | stderr (payload : Bytes)

namespace OutputFrame

def payload : OutputFrame → Bytes
  | stdout bytes | stderr bytes => bytes

def write : OutputFrame → Bytes
  | stdout bytes => writeDataFrame 1 bytes
  | stderr bytes => writeDataFrame 2 bytes

def stdoutBytes : OutputFrame → Bytes
  | stdout bytes => bytes
  | stderr _ => []

def stderrBytes : OutputFrame → Bytes
  | stdout _ => []
  | stderr bytes => bytes

end OutputFrame

/-! ## What the client reads -/

/-- How the loop of `try_resume` ends, what it has written, and what it has not read. -/
structure Resumed where
  result : Except String Int32
  stdout : Bytes
  stderr : Bytes
  rest : Bytes

/-- The loop of `try_resume`. -/
def readFrames (quiet : Bool) (rx stdout stderr : Bytes) : Resumed :=
  match h : Bytes.readFrame rx with
  | .error .header =>
    ⟨.error "resume: connection to master closed before exit code", stdout, stderr, []⟩
  | .error .payload => ⟨.error "early eof", stdout, stderr, []⟩
  | .ok (tag, payload, rest) =>
    have : rest.length < rx.length := Bytes.length_lt_of_readFrame h
    if tag = 1 then
      readFrames quiet rest (if quiet then stdout else stdout ++ payload) stderr
    else if tag = 2 then
      readFrames quiet rest stdout (if quiet then stderr else stderr ++ payload)
    else if tag = 0 then
      ⟨.ok (payload.head?.getD 0).toUInt32.toInt32, stdout, stderr, rest⟩
    else ⟨.error s!"resume: unknown tag {tag} from master", stdout, stderr, rest⟩
termination_by rx.length

theorem readFrames_nil (quiet : Bool) (stdout stderr : Bytes) :
    readFrames quiet [] stdout stderr
      = ⟨.error "resume: connection to master closed before exit code", stdout, stderr, []⟩ := by
  have hread : Bytes.readFrame [] = .error .header := rfl
  rw [readFrames]
  split
  · rfl
  · next h => cases h.symm.trans hread
  · next h => cases h.symm.trans hread

/-- One turn of the loop. -/
theorem readFrames_ok {rx payload rest : Bytes} {tag : UInt8}
    (h : Bytes.readFrame rx = .ok (tag, payload, rest)) (quiet : Bool) (stdout stderr : Bytes) :
    readFrames quiet rx stdout stderr =
      if tag = 1 then
        readFrames quiet rest (if quiet then stdout else stdout ++ payload) stderr
      else if tag = 2 then
        readFrames quiet rest stdout (if quiet then stderr else stderr ++ payload)
      else if tag = 0 then
        ⟨.ok (payload.head?.getD 0).toUInt32.toInt32, stdout, stderr, rest⟩
      else ⟨.error s!"resume: unknown tag {tag} from master", stdout, stderr, rest⟩ := by
  rw [readFrames]
  split
  · next hread => cases h.symm.trans hread
  · next hread => cases h.symm.trans hread
  · next tag' payload' rest' hread =>
    cases h.symm.trans hread
    rfl

theorem readFrames_of_readFrame_error {rx : Bytes} {e : Bytes.FrameError}
    (h : Bytes.readFrame rx = .error e) (quiet : Bool) (stdout stderr : Bytes) :
    ∃ message, (readFrames quiet rx stdout stderr).result = .error message := by
  rw [readFrames]
  split
  · exact ⟨_, rfl⟩
  · exact ⟨_, rfl⟩
  · next hread => cases h.symm.trans hread

/-- A client that is not quiet takes in the output of a frame. -/
theorem readFrames_write {f : OutputFrame} (h : f.payload.length < 2 ^ 32)
    (rx stdout stderr : Bytes) :
    readFrames false (f.write ++ rx) stdout stderr
      = readFrames false rx (stdout ++ f.stdoutBytes) (stderr ++ f.stderrBytes) := by
  cases f with
  | stdout payload =>
    have hread := readFrames_ok (Bytes.readFrame_frame 1 h rx) false stdout stderr
    rw [if_pos rfl] at hread
    show _ = readFrames false rx (stdout ++ payload) (stderr ++ [])
    rw [List.append_nil]
    exact hread
  | stderr payload =>
    have hread := readFrames_ok (Bytes.readFrame_frame 2 h rx) false stdout stderr
    rw [if_neg (by decide), if_pos rfl] at hread
    show _ = readFrames false rx (stdout ++ []) (stderr ++ payload)
    rw [List.append_nil]
    exact hread

/-- A client that is not quiet takes in the output of every frame. -/
theorem readFrames_output (frames : List OutputFrame) (h : ∀ f ∈ frames, f.payload.length < 2 ^ 32)
    (rx stdout stderr : Bytes) :
    readFrames false (frames.flatMap OutputFrame.write ++ rx) stdout stderr
      = readFrames false rx (stdout ++ frames.flatMap OutputFrame.stdoutBytes)
          (stderr ++ frames.flatMap OutputFrame.stderrBytes) := by
  induction frames generalizing stdout stderr with
  | nil => simp
  | cons f frames ih =>
    have ih := ih fun f' hf' => h f' (List.mem_cons_of_mem f hf')
    rw [List.flatMap_cons, List.append_assoc, readFrames_write (h f List.mem_cons_self), ih]
    simp

/-- The done frame ends the loop, and what follows it is not read. -/
theorem readFrames_done (quiet : Bool) (exitCode : Int32) (rx stdout stderr : Bytes) :
    readFrames quiet (writeDone exitCode ++ rx) stdout stderr
      = ⟨.ok exitCode.toUInt32.toUInt8.toUInt32.toInt32, stdout, stderr, rx⟩ := by
  have hframe : writeDone exitCode = Bytes.frame 0 [exitCode.toUInt32.toUInt8] := rfl
  have hone : [exitCode.toUInt32.toUInt8].length < 2 ^ 32 := by simp
  rw [hframe, readFrames_ok (Bytes.readFrame_frame 0 hone rx), if_neg (by decide),
    if_neg (by decide), if_pos rfl]
  rfl

/-! ## The whole stream -/

/-- The loop reads the low byte of the code as a number from 0 to 255. -/
theorem toInt_low_byte (code : Int32) :
    code.toUInt32.toUInt8.toUInt32.toInt32.toInt = code.toInt % 256 := by
  have hbits : code.toBitVec.toNat = code.toUInt32.toNat := rfl
  have hbyte : code.toUInt32.toUInt8.toUInt32.toInt32.toInt
      = ((code.toUInt32.toNat % 256 : Nat) : Int).bmod (2 ^ 32) := by
    rw [← Int32.toInt_toBitVec, BitVec.toInt_eq_toNat_bmod]
    simp [hbits]
  have hcode : code.toInt = (code.toUInt32.toNat : Int).bmod (2 ^ 32) := by
    rw [← Int32.toInt_toBitVec, BitVec.toInt_eq_toNat_bmod, hbits]
  rw [hbyte, hcode, Int.bmod_def, Int.bmod_def]
  split <;> split <;> omega

/-- The bytes of a session: its output, and the done frame. -/
def sessionStream (frames : List OutputFrame) (exitCode : Int32) : Bytes :=
  frames.flatMap OutputFrame.write ++ writeDone exitCode

/-- A stream that is cut short gives no code, wherever the cut is. -/
theorem readFrames_of_isPrefix {frames : List OutputFrame}
    (h : ∀ f ∈ frames, f.payload.length < 2 ^ 32) {exitCode : Int32} {front : Bytes}
    (hpre : front <+: sessionStream frames exitCode) (hne : front ≠ sessionStream frames exitCode)
    (stdout stderr : Bytes) :
    ∃ message, (readFrames false front stdout stderr).result = .error message := by
  induction frames generalizing front stdout stderr with
  | nil =>
    have hone : [exitCode.toUInt32.toUInt8].length < 2 ^ 32 := by simp
    obtain ⟨e, he⟩ := @Bytes.readFrame_of_isPrefix 0 _ _ hone hpre hne
    exact readFrames_of_readFrame_error he false stdout stderr
  | cons f frames ih =>
    have hf : f.payload.length < 2 ^ 32 := h f List.mem_cons_self
    have hstream : sessionStream (f :: frames) exitCode
        = f.write ++ sessionStream frames exitCode := List.append_assoc ..
    rw [hstream] at hpre hne
    by_cases hwhole : f.write <+: front
    · -- the cut comes after the first frame
      obtain ⟨front, rfl⟩ := hwhole
      rw [readFrames_write hf]
      exact ih (fun f' hf' => h f' (List.mem_cons_of_mem f hf'))
        ((List.prefix_append_right_inj _).mp hpre) (fun heq => hne (by rw [heq])) _ _
    · -- the cut is in the first frame
      have hfront : front <+: f.write :=
        (List.prefix_or_prefix_of_prefix hpre (List.prefix_append _ _)).resolve_right hwhole
      have hcut : front ≠ f.write := fun heq => hwhole (heq ▸ List.prefix_refl _)
      obtain ⟨e, he⟩ : ∃ e, Bytes.readFrame front = .error e := by
        cases f with
        | stdout payload => exact @Bytes.readFrame_of_isPrefix 1 _ _ hf hfront hcut
        | stderr payload => exact @Bytes.readFrame_of_isPrefix 2 _ _ hf hfront hcut
      exact readFrames_of_readFrame_error he false stdout stderr

/-- **Decoding undoes encoding.** The loop takes in the output frame by frame, stops behind the
done frame with the code modulo 256, and reads no code off a stream that is cut short. -/
theorem readFrames_sessionStream {frames : List OutputFrame}
    (h : ∀ f ∈ frames, f.payload.length < 2 ^ 32) (exitCode : Int32) :
    (∀ rest, ∃ code, readFrames false (sessionStream frames exitCode ++ rest) [] []
        = ⟨.ok code, frames.flatMap OutputFrame.stdoutBytes,
            frames.flatMap OutputFrame.stderrBytes, rest⟩ ∧
      code.toInt = exitCode.toInt % 256) ∧
    ∀ front, front <+: sessionStream frames exitCode → front ≠ sessionStream frames exitCode →
      ∃ message, (readFrames false front [] []).result = .error message := by
  refine ⟨fun rest => ⟨_, ?_, toInt_low_byte exitCode⟩, fun front hpre hne =>
    readFrames_of_isPrefix h hpre hne [] []⟩
  rw [sessionStream, List.append_assoc, readFrames_output frames h, readFrames_done,
    List.nil_append, List.nil_append]

/-- A payload that looks like a done frame, and one of no bytes. -/
theorem readFrames_sessionStream_headers :
    (∀ rest, ∃ code, readFrames false
        (sessionStream [.stdout [0, 0, 0, 1, 0, 7], .stderr []] 256 ++ rest) [] []
          = ⟨.ok code, [0, 0, 0, 1, 0, 7], [], rest⟩ ∧ code.toInt = (256 : Int32).toInt % 256) ∧
    ∀ front, front <+: sessionStream [.stdout [0, 0, 0, 1, 0, 7], .stderr []] 256 →
      front ≠ sessionStream [.stdout [0, 0, 0, 1, 0, 7], .stderr []] 256 →
      ∃ message, (readFrames false front [] []).result = .error message :=
  readFrames_sessionStream (by decide) 256

end Passhrs
