import Passhrs.Lib.Bytes

/-!
# The session channel and its reader

What russh delivers on a session channel, and the task of `run_session` that reads it: an outer
loop that writes output, and an inner one that drains what comes after EOF or CLOSE.

* **`reader_stdout`**, **`reader_stderr`**: the reader writes what comes before the message that
  ends its outer loop, and nothing after it.
* **`reader_code`**: its code is the status that ends its outer loop, or the last one it drains.
* **`reader_output_exact_iff`**: on a sequence the protocol allows, that is all of the output
  exactly when none comes after the exit status.
-/

namespace Passhrs

/-! ## Messages -/

/-- `russh::ChannelMsg`. `other` stands for the kinds that no code here looks at. -/
inductive ChannelMsg where
  | data (data : Bytes)
  | extendedData (data : Bytes) (ext : UInt32)
  | eof
  | close
  | exitStatus (exitStatus : UInt32)
  | success
  | failure
  | other
deriving DecidableEq

namespace ChannelMsg

def stdoutBytes : ChannelMsg → Bytes
  | data bytes => bytes
  | _ => []

def stderrBytes : ChannelMsg → Bytes
  | extendedData bytes _ => bytes
  | _ => []

def status : ChannelMsg → Option UInt32
  | exitStatus s => some s
  | _ => none

/-- The message ends the outer loop of the reader. -/
def endsLoop : ChannelMsg → Bool
  | eof | close | exitStatus _ => true
  | _ => false

end ChannelMsg

open ChannelMsg

/-- The concatenation of the Data payloads. -/
def dataOf (msgs : List ChannelMsg) : Bytes := msgs.flatMap stdoutBytes

/-- The concatenation of the ExtendedData payloads. -/
def extendedOf (msgs : List ChannelMsg) : Bytes := msgs.flatMap stderrBytes

/-- A sequence that the connection protocol allows, with one exit status: output, then EOF, then
CLOSE, and requests anywhere before CLOSE. -/
structure Allowed (msgs : List ChannelMsg) (s : UInt32) : Prop where
  split : ∃ body tail, msgs = body ++ .eof :: (tail ++ [.close]) ∧
    (∀ m ∈ body, m ≠ .eof ∧ m ≠ .close) ∧
    ∀ m ∈ tail, m ≠ .eof ∧ m ≠ .close ∧ stdoutBytes m = [] ∧ stderrBytes m = []
  once : msgs.filterMap status = [s]

theorem toInt32_eq_zero {c : UInt32} : (0 : Int32) = c.toInt32 ↔ c = 0 := by
  constructor
  · intro h
    rw [← UInt32.toUInt32_toInt32 c, ← h]
    rfl
  · rintro rfl
    rfl

/-- The messages from the exit status on. -/
def fromStatus (msgs : List ChannelMsg) : List ChannelMsg :=
  msgs.dropWhile fun m => m.status.isNone

/-! ## The reader -/

/-- Where the reader task is: in its outer loop, in the loop that drains, or past both. -/
inductive ReaderPhase where
  | loop
  | drain
  | exited
deriving DecidableEq

/-- The reader task of `run_session`. -/
structure Reader where
  phase : ReaderPhase
  code : Int32
  stdout : Bytes
  stderr : Bytes
deriving DecidableEq

def Reader.start : Reader := ⟨.loop, 0, [], []⟩

/-- What the reader does with the result of one `rx.wait()`. The drain's timeout never fires. -/
def Reader.receive (r : Reader) : Option ChannelMsg → Reader :=
  match r.phase with
  | .loop => fun
    | some (.data bytes) => { r with stdout := r.stdout ++ bytes }
    | some (.extendedData bytes _) => { r with stderr := r.stderr ++ bytes }
    | some .eof | some .close => { r with phase := .drain }
    | none => { r with phase := .exited }
    | some (.exitStatus s) => { r with code := s.toInt32, phase := .exited }
    | some _ => r
  | .drain => fun
    | some (.exitStatus s) => { r with code := s.toInt32 }
    | none => { r with phase := .exited }
    | some _ => r
  | .exited => fun _ => r

/-- The reader on a whole sequence, after which the sender is dropped. -/
def Reader.run (msgs : List ChannelMsg) : Reader :=
  (msgs.map some ++ [none]).foldl Reader.receive Reader.start

/-! ## What it writes -/

theorem Reader.foldl_exited {r : Reader} (h : r.phase = .exited)
    (results : List (Option ChannelMsg)) : results.foldl receive r = r := by
  induction results with
  | nil => rfl
  | cons m results ih =>
    rw [List.foldl_cons]
    have hm : r.receive m = r := by
      unfold receive
      rw [h]
    rw [hm, ih]

/-- What comes after the reader has left is not read. -/
theorem Reader.run_append_of_exited {msgs : List ChannelMsg}
    (h : ((msgs.map some).foldl receive start).phase = .exited) (rest : List ChannelMsg) :
    Reader.run (msgs ++ rest) = (msgs.map some).foldl receive start := by
  unfold Reader.run
  rw [List.map_append, List.append_assoc, List.foldl_append]
  exact foldl_exited h _

/-- Outside its outer loop the reader writes nothing. -/
theorem Reader.foldl_output {r : Reader} (h : r.phase ≠ .loop)
    (results : List (Option ChannelMsg)) :
    (results.foldl receive r).stdout = r.stdout ∧
      (results.foldl receive r).stderr = r.stderr := by
  induction results generalizing r with
  | nil => exact ⟨rfl, rfl⟩
  | cons m results ih =>
    rw [List.foldl_cons]
    rcases hphase : r.phase with _ | _ | _
    · exact absurd hphase h
    · -- draining: whatever arrives, only the code and the phase can change
      have hnext : (r.receive m).phase ≠ .loop ∧ (r.receive m).stdout = r.stdout ∧
          (r.receive m).stderr = r.stderr := by
        unfold receive
        rw [hphase]
        rcases m with _ | m
        · simp
        · cases m <;> simp [hphase]
      obtain ⟨hout, herr⟩ := ih hnext.1
      exact ⟨hout.trans hnext.2.1, herr.trans hnext.2.2⟩
    · rw [← List.foldl_cons (f := receive), foldl_exited hphase]
      exact ⟨rfl, rfl⟩

/-- From its outer loop, the reader writes the output up to the message that ends the loop. -/
theorem Reader.foldl_loop (msgs : List ChannelMsg) {r : Reader} (h : r.phase = .loop) :
    let r' := (msgs.map some ++ [none]).foldl receive r
    r'.stdout = r.stdout ++ dataOf (msgs.takeWhile fun m => !m.endsLoop) ∧
      r'.stderr = r.stderr ++ extendedOf (msgs.takeWhile fun m => !m.endsLoop) := by
  induction msgs generalizing r with
  | nil => simp [receive, h, dataOf, extendedOf]
  | cons m msgs ih =>
    intro r'
    have hr' : r' = (msgs.map some ++ [none]).foldl receive (r.receive (some m)) := rfl
    rw [hr']
    by_cases hends : m.endsLoop = true
    · -- EOF and CLOSE lead to the drain, the exit status out of both loops
      have hnext : (r.receive (some m)).phase ≠ .loop ∧
          (r.receive (some m)).stdout = r.stdout ∧ (r.receive (some m)).stderr = r.stderr := by
        unfold receive
        rw [h]
        cases m with
        | eof | close | exitStatus _ => exact ⟨by simp, rfl, rfl⟩
        | data _ | extendedData _ _ | success | failure | other => cases hends
      obtain ⟨hout, herr⟩ := foldl_output hnext.1 (msgs.map some ++ [none])
      rw [hout, herr, hnext.2.1, hnext.2.2]
      simp [hends, dataOf, extendedOf]
    · have hnext : (r.receive (some m)).phase = .loop ∧
          (r.receive (some m)).stdout = r.stdout ++ m.stdoutBytes ∧
          (r.receive (some m)).stderr = r.stderr ++ m.stderrBytes := by
        unfold receive
        rw [h]
        cases m with
        | eof | close | exitStatus _ => exact absurd rfl hends
        | data _ | extendedData _ _ | success | failure | other =>
          simp [h, stdoutBytes, stderrBytes]
      obtain ⟨hout, herr⟩ := ih hnext.1
      rw [hout, herr, hnext.2.1, hnext.2.2]
      simp [hends, dataOf, extendedOf]

theorem reader_stdout (msgs : List ChannelMsg) :
    (Reader.run msgs).stdout = dataOf (msgs.takeWhile fun m => !m.endsLoop) :=
  (Reader.foldl_loop msgs rfl).1

theorem reader_stderr (msgs : List ChannelMsg) :
    (Reader.run msgs).stderr = extendedOf (msgs.takeWhile fun m => !m.endsLoop) :=
  (Reader.foldl_loop msgs rfl).2

/-! ## Its code -/

theorem Reader.receive_code {r : Reader} (h : r.phase ≠ .exited) (m : ChannelMsg) :
    (r.receive (some m)).code = (m.status.map UInt32.toInt32).getD r.code := by
  unfold receive
  rcases hphase : r.phase with _ | _ | _
  · cases m <;> rfl
  · cases m <;> rfl
  · exact absurd hphase h

/-- Short of `None`, only the exit status makes the reader leave. -/
theorem Reader.receive_exited {r : Reader} (h : r.phase ≠ .exited) {m : ChannelMsg}
    (hexited : (r.receive (some m)).phase = .exited) : ∃ s, m = .exitStatus s := by
  unfold receive at hexited
  rcases hphase : r.phase with _ | _ | _
  · rw [hphase] at hexited
    cases m with
    | exitStatus s => exact ⟨s, rfl⟩
    | data _ | extendedData _ _ | eof | close | success | failure | other =>
      simp [hphase] at hexited
  · -- the drain goes on after any message
    rw [hphase] at hexited
    cases m with
    | exitStatus s => exact ⟨s, rfl⟩
    | data _ | extendedData _ _ | eof | close | success | failure | other =>
      simp [hphase] at hexited
  · exact absurd hphase h

theorem Reader.receive_none (r : Reader) :
    (r.receive none).phase = .exited ∧ (r.receive none).code = r.code := by
  unfold receive
  rcases hphase : r.phase with _ | _ | _
  · exact ⟨rfl, rfl⟩
  · exact ⟨rfl, rfl⟩
  · exact ⟨hphase, rfl⟩

/-- The status that the reader takes: the one that ends its outer loop, or the last one that it
drains. -/
def takenStatus (msgs : List ChannelMsg) : Option UInt32 :=
  match msgs.dropWhile fun m => !m.endsLoop with
  | .exitStatus s :: _ => some s
  | rest => (rest.filterMap status).getLast?

/-- A drain keeps the last status, or the code it came with. -/
theorem Reader.foldl_drain_code (msgs : List ChannelMsg) {r : Reader} (h : r.phase = .drain) :
    ((msgs.map some ++ [none]).foldl receive r).code
      = ((msgs.filterMap status).getLast?.map UInt32.toInt32).getD r.code := by
  induction msgs generalizing r with
  | nil => exact r.receive_none.2
  | cons m msgs ih =>
    have hphase : (r.receive (some m)).phase = .drain := by
      unfold receive
      rw [h]
      cases m <;> first | rfl | exact h
    have hcode := r.receive_code (by rw [h]; simp) m
    show ((msgs.map some ++ [none]).foldl receive (r.receive (some m))).code = _
    rw [ih hphase, hcode]
    rcases hm : m.status with _ | x
    · rw [List.filterMap_cons_none hm]
      rfl
    · rw [List.filterMap_cons_some hm, List.getLast?_cons]
      rcases (msgs.filterMap status).getLast? with _ | y
      · rfl
      · rfl

theorem Reader.foldl_loop_code (msgs : List ChannelMsg) {r : Reader} (h : r.phase = .loop) :
    ((msgs.map some ++ [none]).foldl receive r).code
      = ((takenStatus msgs).map UInt32.toInt32).getD r.code := by
  induction msgs generalizing r with
  | nil => exact r.receive_none.2
  | cons m msgs ih =>
    have hcode := r.receive_code (by rw [h]; simp) m
    show ((msgs.map some ++ [none]).foldl receive (r.receive (some m))).code = _
    cases m with
    | exitStatus x =>
      rw [foldl_exited (by simp [receive, h]), hcode]
      rfl
    | eof | close =>
      rw [foldl_drain_code msgs (by simp [receive, h]), hcode]
      rfl
    | data _ | extendedData _ _ | success | failure | other =>
      rw [ih (by simp [receive, h]), hcode]
      rfl

theorem reader_code (msgs : List ChannelMsg) :
    (Reader.run msgs).code = ((takenStatus msgs).map UInt32.toInt32).getD 0 :=
  Reader.foldl_loop_code msgs rfl

/-! ## Sequences that the protocol allows -/

/-- Output ends at EOF, so up to the exit status it is what comes before the loop ends. -/
theorem Allowed.output_before {msgs : List ChannelMsg} {s : UInt32} (h : Allowed msgs s) :
    dataOf (msgs.takeWhile fun m => !m.endsLoop)
        = dataOf (msgs.takeWhile fun m => m.status.isNone) ∧
      extendedOf (msgs.takeWhile fun m => !m.endsLoop)
        = extendedOf (msgs.takeWhile fun m => m.status.isNone) := by
  obtain ⟨body, tail, rfl, hbody, htail⟩ := h.split
  clear h
  induction body with
  | nil =>
    -- nothing after EOF is output
    have hquiet : ∀ m ∈ .eof :: (tail ++ [.close]), stdoutBytes m = [] ∧ stderrBytes m = [] := by
      intro m hm
      rcases List.mem_cons.mp hm with rfl | hm
      · exact ⟨rfl, rfl⟩
      · rcases List.mem_append.mp hm with hm | hm
        · exact (htail m hm).2.2
        · rw [List.mem_singleton.mp hm]
          exact ⟨rfl, rfl⟩
    have hnone : ∀ p, dataOf ((.eof :: (tail ++ [.close])).takeWhile p) = [] ∧
        extendedOf ((.eof :: (tail ++ [.close])).takeWhile p) = [] := by
      intro p
      constructor
      · exact List.flatMap_eq_nil_iff.mpr fun m hm =>
          (hquiet m ((List.takeWhile_prefix p).subset hm)).1
      · exact List.flatMap_eq_nil_iff.mpr fun m hm =>
          (hquiet m ((List.takeWhile_prefix p).subset hm)).2
    rw [List.nil_append, (hnone _).1, (hnone _).1, (hnone _).2, (hnone _).2]
    exact ⟨rfl, rfl⟩
  | cons m body ih =>
    have hm := hbody m (by simp)
    obtain ⟨hout, herr⟩ := ih fun m' hm' => hbody m' (List.mem_cons_of_mem _ hm')
    have hsame : m.status.isNone = !m.endsLoop := by
      cases m with
      | eof => exact absurd rfl hm.1
      | close => exact absurd rfl hm.2
      | data _ | extendedData _ _ | exitStatus _ | success | failure | other => rfl
    rw [List.cons_append, List.takeWhile_cons, List.takeWhile_cons, hsame]
    split
    · constructor
      · show stdoutBytes m ++ dataOf _ = stdoutBytes m ++ dataOf _
        rw [hout]
      · show stderrBytes m ++ extendedOf _ = stderrBytes m ++ extendedOf _
        rw [herr]
    · exact ⟨rfl, rfl⟩

/-- **The reader writes all of the output exactly when none comes after the exit status.** -/
theorem reader_output_exact_iff {msgs : List ChannelMsg} {s : UInt32} (h : Allowed msgs s) :
    ((Reader.run msgs).stdout = dataOf msgs ∧ (Reader.run msgs).stderr = extendedOf msgs) ↔
      dataOf (fromStatus msgs) = [] ∧ extendedOf (fromStatus msgs) = [] := by
  have hsplit : msgs = msgs.takeWhile (fun m => m.status.isNone) ++ fromStatus msgs :=
    List.takeWhile_append_dropWhile.symm
  have hdata : dataOf msgs
      = dataOf (msgs.takeWhile fun m => m.status.isNone) ++ dataOf (fromStatus msgs) := by
    rw [dataOf, dataOf, dataOf, ← List.flatMap_append, ← hsplit]
  have hextended : extendedOf msgs
      = extendedOf (msgs.takeWhile fun m => m.status.isNone) ++ extendedOf (fromStatus msgs) := by
    rw [extendedOf, extendedOf, extendedOf, ← List.flatMap_append, ← hsplit]
  rw [reader_stdout, reader_stderr, h.output_before.1, h.output_before.2, hdata, hextended]
  simp

/-- The exit status ends the outer loop, so the output behind it is lost. -/
theorem reader_drops_data_after_status :
    Allowed [.exitStatus 0, .data [1], .eof, .close] 0 ∧
      (Reader.run [.exitStatus 0, .data [1], .eof, .close]).stdout
        ≠ dataOf [.exitStatus 0, .data [1], .eof, .close] :=
  ⟨⟨⟨[.exitStatus 0, .data [1]], [], rfl, by decide, by decide⟩, by decide⟩, by decide⟩

theorem reader_output_exact_data_first :
    (Reader.run [.data [1], .exitStatus 0, .eof, .close]).stdout = [1] ∧
      (Reader.run [.data [1], .exitStatus 0, .eof, .close]).stderr = [] :=
  (reader_output_exact_iff (s := 0)
    ⟨⟨[.data [1], .exitStatus 0], [], rfl, by decide, by decide⟩, by decide⟩).mpr (by decide)

end Passhrs
