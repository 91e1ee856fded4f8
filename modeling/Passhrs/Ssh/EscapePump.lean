import Mathlib.Data.List.GetD
import Passhrs.Lib.Text

/-!
# The escape pump

The task of `run_session` that carries stdin to the channel. In every read it looks for the escape
character at the start of a line: `~.` disconnects, `~?` prints the help text.

* **`independentOfReads_iff`**: how stdin is cut into reads makes no difference exactly for the
  streams in which no escape sequence stands at the start of a line.
-/

namespace Passhrs

open Text

/-! ## The task -/

def newline : UInt8 := 0x0a

def helpText : String :=
  "\r\nSupported escape sequences:\r\n" ++
    "~.  - disconnect session\r\n" ++
    "~?  - print this help\r\n" ++
    "Other characters are forwarded unchanged.\r\n"

/-- What the pump does. `stdout` and `stderr` are the user's side of an escape action. -/
inductive EscapeOp where
  | stdout (text : String)
  | stderr (text : String)
  | data (bytes : Bytes)
  | eof
deriving DecidableEq

/-- The operations of the pump, each with an offset in stdin: for an escape action that of its
escape character. -/
abbrev EscapeLog : Type := List (Nat × EscapeOp)

/-- The scan of a stream from `pos` on, which is `skip` bytes into what is given: what it does, and
the `pos` and `at_line_start` that it ends with, if it does not disconnect. -/
def scan (esc : UInt8) (base skip pos : Nat) (atLineStart : Bool) :
    Bytes → EscapeLog × Option (Nat × Bool)
  | [] => ([], some (pos, atLineStart))
  | b :: rest =>
    match skip with
    | skip + 1 => scan esc base skip pos atLineStart rest
    | 0 =>
      if b = newline then scan esc base 0 (pos + 1) true rest
      else if atLineStart ∧ b = esc ∧ rest ≠ [] then
        let action := rest.getD 0 0
        if action = 0x2e then ([(base + pos, .stdout "\r\n"), (base + pos, .eof)], none)
        else if action = 0x3f then
          -- with the newline that follows, if any
          let length := if rest.getD 1 0 = newline then 3 else 2
          let scanned := scan esc base (length - 1) (pos + length) true rest
          ((base + pos, .stderr helpText) :: scanned.1, scanned.2)
        else scan esc base 0 (pos + 1) false rest
      else scan esc base 0 (pos + 1) false rest

/-- The first pass over what the pump has of stdin. -/
def firstPass (escapeChar : Option UInt8) (base : Nat) (atLineStart : Bool) (stream : Bytes) :
    EscapeLog × Option (Nat × Bool) :=
  match escapeChar with
  | some esc => scan esc base 0 0 atLineStart stream
  | none => ([], some (stream.length, atLineStart))

structure EscapePump where
  /-- How much of stdin stands in front of `carry`. -/
  offset : Nat
  carry : Bytes
  atLineStart : Bool

def EscapePump.start : EscapePump := ⟨0, [], true⟩

/-- A round of the loop, with the result of the read and whether the channel takes the data. The
loop ends where there is no next state. -/
def EscapePump.step (escapeChar : Option UInt8) (s : EscapePump) (sent : Bool) :
    Except String Bytes → EscapeLog × Option EscapePump
  | .error _ => ([], none)
  | .ok [] => ([(s.offset + s.carry.length, .eof)], none)
  | .ok buf =>
    let stream := s.carry ++ buf
    let scanned := firstPass escapeChar s.offset s.atLineStart stream
    match scanned.2 with
    | none => (scanned.1, none)
    | some (pos, atLineStart) =>
      let next : EscapePump := ⟨s.offset + pos, stream.drop pos, atLineStart⟩
      if 0 < pos then
        (scanned.1 ++ [(s.offset, .data (stream.take pos))], if sent then some next else none)
      else (scanned.1, some next)

def EscapePump.run (escapeChar : Option UInt8) (s : EscapePump) :
    List (Except String Bytes × Bool) → EscapeLog
  | [] => []
  | (read, sent) :: rounds =>
    let out := s.step escapeChar sent read
    match out.2 with
    | some s' => out.1 ++ s'.run escapeChar rounds
    | none => out.1

/-- What the pump does when stdin comes in these reads, over a channel that takes everything. -/
def escapePump (escapeChar : Option UInt8) (reads : List Bytes) : EscapeLog :=
  EscapePump.start.run escapeChar (reads.map fun buf => (.ok buf, true))

def EscapeOp.dataBytes : EscapeOp → Bytes
  | .data bytes => bytes
  | _ => []

/-- An escape action shows on the user's side. -/
def EscapeOp.isAction : EscapeOp → Bool
  | .stdout _ | .stderr _ => true
  | _ => false

/-- The bytes that go into the channel. -/
def sentToChannel (log : EscapeLog) : Bytes := log.flatMap fun entry => entry.2.dataBytes

def escapeActions (log : EscapeLog) : EscapeLog := log.filter fun entry => entry.2.isAction

example : escapePump (some 0x7e) [[0x61, 0x0a, 0x7e], [0x3f, 0x0a, 0x7e, 0x2e]] =
    [(0, .data [0x61, 0x0a, 0x7e]), (5, .stdout "\r\n"), (5, .eof)] := by decide

/-! ## One scan -/

/-- The state of the scan after these bytes, as long as there has been no action. -/
def lineStart (before : Bytes) : Bool := before.getLast?.getD newline = newline

@[simp] theorem lineStart_nil : lineStart [] = true := rfl

@[simp] theorem lineStart_concat (before : Bytes) (b : UInt8) :
    lineStart (before ++ [b]) = decide (b = newline) := by
  rw [lineStart, List.getLast?_append, List.getLast?_singleton]
  rfl

/-- An escape sequence at the start of a line. A newline is never taken for the escape
character. -/
def HasEscape (esc : UInt8) (stream : Bytes) : Prop :=
  esc ≠ newline ∧ ∃ before action rest, stream = before ++ esc :: action :: rest ∧
    (before = [] ∨ before.getLast? = some newline) ∧ (action = 0x2e ∨ action = 0x3f)

theorem lineStart_iff {before : Bytes} :
    lineStart before = true ↔ before = [] ∨ before.getLast? = some newline := by
  rcases before.eq_nil_or_concat with rfl | ⟨front, b, rfl⟩
  · simp
  · simp

theorem HasEscape.append {esc : UInt8} {stream : Bytes} (h : HasEscape esc stream) (more : Bytes) :
    HasEscape esc (stream ++ more) := by
  obtain ⟨hesc, before, action, rest, rfl, hstart, haction⟩ := h
  exact ⟨hesc, before, action, rest ++ more, by simp, hstart, haction⟩

theorem hasEscape_of_action {esc : UInt8} {before rest : Bytes} (hesc : esc ≠ newline)
    (hstart : lineStart before = true) (hrest : rest ≠ [])
    (haction : rest.getD 0 0 = 0x2e ∨ rest.getD 0 0 = 0x3f) :
    HasEscape esc (before ++ esc :: rest) := by
  obtain ⟨action, rest, rfl⟩ := List.exists_cons_of_ne_nil hrest
  exact ⟨hesc, before, action, rest, rfl, lineStart_iff.mp hstart, haction⟩

/-- Without an escape sequence in the stream so far, the scan does nothing but keep track of where
lines start. -/
theorem scan_eq_of_not_hasEscape {esc : UInt8} {before stream : Bytes}
    (h : ¬ HasEscape esc (before ++ stream)) (base pos : Nat) :
    scan esc base 0 pos (lineStart before) stream =
      ([], some (pos + stream.length, lineStart (before ++ stream))) := by
  induction stream generalizing before pos with
  | nil => rw [List.append_nil]; rfl
  | cons b rest ih =>
    have hcons : before ++ b :: rest = before ++ [b] ++ rest := by simp
    -- all branches without an action go on like this
    have hnext : scan esc base 0 (pos + 1) (decide (b = newline)) rest =
        ([], some (pos + (b :: rest).length, lineStart (before ++ b :: rest))) := by
      rw [hcons] at h ⊢
      rw [← lineStart_concat before b, ih h (pos + 1), List.length_cons, Nat.add_assoc,
        Nat.add_comm 1]
    by_cases hnewline : b = newline
    · rw [decide_eq_true hnewline] at hnext
      rw [scan]
      dsimp only
      rw [if_pos hnewline, hnext]
    · rw [decide_eq_false hnewline] at hnext
      rw [scan]
      dsimp only
      rw [if_neg hnewline]
      split_ifs with hescape hdisconnect hhelp
      · obtain ⟨hstart, rfl, hrest⟩ := hescape
        exact absurd (hasEscape_of_action hnewline hstart hrest (.inl hdisconnect)) h
      · obtain ⟨hstart, rfl, hrest⟩ := hescape
        exact absurd (hasEscape_of_action hnewline hstart hrest (.inr hhelp)) h
      · obtain ⟨hstart, rfl, hrest⟩ := hescape
        exact absurd (hasEscape_of_action hnewline hstart hrest (.inr hhelp)) h
      · exact hnext
      · exact hnext

/-- In a read of its own an escape character is never interpreted. -/
theorem scan_singleton (esc : UInt8) (base : Nat) (atLineStart : Bool) (b : UInt8) :
    scan esc base 0 0 atLineStart [b] = ([], some (1, decide (b = newline))) := by
  by_cases hnewline : b = newline <;> simp [scan, hnewline]

/-- An escape sequence that one read brings at the start of a line is performed. -/
theorem exists_action_mem_scan {esc action : UInt8} (hesc : esc ≠ newline)
    (haction : action = 0x2e ∨ action = 0x3f) (base : Nat) :
    ∃ op, (base, op) ∈ (scan esc base 0 0 true [esc, action]).1 ∧ op.isAction = true := by
  rcases haction with rfl | rfl
  · exact ⟨.stdout "\r\n", by simp [scan, hesc], rfl⟩
  · exact ⟨.stderr helpText, by simp [scan, hesc], rfl⟩

/-! ## Runs -/

/-- A read whose scan goes to its end is forwarded as it is, and nothing is kept of it. -/
theorem step_of_firstPass {escapeChar : Option UInt8} {offset : Nat} {atLineStart next : Bool}
    {buf : Bytes} {actions : EscapeLog} (hbuf : buf ≠ [])
    (hscan : firstPass escapeChar offset atLineStart buf = (actions, some (buf.length, next))) :
    EscapePump.step escapeChar ⟨offset, [], atLineStart⟩ true (.ok buf) =
      (actions ++ [(offset, .data buf)], some ⟨offset + buf.length, [], next⟩) := by
  obtain ⟨b, rest, rfl⟩ := List.exists_cons_of_ne_nil hbuf
  unfold EscapePump.step
  dsimp only
  rw [List.nil_append, hscan]
  dsimp only
  rw [if_pos (List.length_pos_iff.mpr hbuf), List.take_length, List.drop_length]
  rfl

/-- The reads of a working session. -/
def rounds (reads : List Bytes) : List (Except String Bytes × Bool) :=
  reads.map fun buf => (.ok buf, true)

/-- Reads without an action, of which `track` tells the state that each one leaves. -/
theorem run_append_of_firstPass {escapeChar : Option UInt8} (track : Bytes → Bool)
    {reads : List Bytes} (before : Bytes)
    (hreads : ∀ front buf back, reads = front ++ buf :: back → buf ≠ [] ∧
      ∀ base, firstPass escapeChar base (track (before ++ front.flatten)) buf =
        ([], some (buf.length, track (before ++ front.flatten ++ buf)))) (more : List Bytes) :
    ∃ log, sentToChannel log = reads.flatten ∧ escapeActions log = [] ∧
      EscapePump.run escapeChar ⟨before.length, [], track before⟩ (rounds (reads ++ more)) =
        log ++ EscapePump.run escapeChar ⟨(before ++ reads.flatten).length, [],
          track (before ++ reads.flatten)⟩ (rounds more) := by
  induction reads generalizing before with
  | nil => exact ⟨[], rfl, rfl, by simp⟩
  | cons buf reads ih =>
    obtain ⟨hbuf, hscan⟩ := hreads [] buf reads rfl
    rw [List.flatten_nil, List.append_nil] at hscan
    -- what has been read moves from `reads` to `before`
    have hrest : ∀ front buf' back, reads = front ++ buf' :: back → buf' ≠ [] ∧
        ∀ base, firstPass escapeChar base (track (before ++ buf ++ front.flatten)) buf' =
          ([], some (buf'.length, track (before ++ buf ++ front.flatten ++ buf'))) := by
      rintro front buf' back rfl
      have := hreads (buf :: front) buf' back rfl
      rwa [List.flatten_cons, ← List.append_assoc] at this
    obtain ⟨log, hforwarded, hactions, hrun⟩ := ih (before ++ buf) hrest
    refine ⟨(before.length, .data buf) :: log, ?_, ?_, ?_⟩
    · rw [List.flatten_cons, ← hforwarded]
      rfl
    · rw [← hactions]
      rfl
    · rw [List.flatten_cons, ← List.append_assoc, List.cons_append, rounds, List.map_cons,
        EscapePump.run, step_of_firstPass hbuf (hscan _)]
      dsimp only
      rw [← List.length_append, ← rounds, hrun]
      rfl

/-! ## The ways to cut stdin into reads -/

/-- One way in which a stream comes in reads of the pump's buffer. -/
structure Splits (reads : List Bytes) (stream : Bytes) : Prop where
  flatten_eq : reads.flatten = stream
  size : ∀ buf ∈ reads, buf ≠ [] ∧ buf.length ≤ 4096

theorem splits_singletons (stream : Bytes) : Splits (stream.map fun b => [b]) stream where
  flatten_eq := by rw [← List.flatMap_def]; simp
  size := by
    intro buf hbuf
    obtain ⟨b, -, rfl⟩ := List.mem_map.mp hbuf
    exact ⟨List.cons_ne_nil b [], Nat.le_add_left 1 4095⟩

theorem Splits.append {reads reads' : List Bytes} {stream stream' : Bytes}
    (h : Splits reads stream) (h' : Splits reads' stream') :
    Splits (reads ++ reads') (stream ++ stream') where
  flatten_eq := by rw [List.flatten_append, h.flatten_eq, h'.flatten_eq]
  size := fun buf hbuf => (List.mem_append.mp hbuf).elim (h.size buf) (h'.size buf)

theorem Splits.ne_nil_of_eq {reads front back : List Bytes} {stream buf : Bytes}
    (h : Splits reads stream) (heq : reads = front ++ buf :: back) : buf ≠ [] :=
  (h.size buf (by rw [heq]; exact List.mem_append_right _ List.mem_cons_self)).1

/-- Reads without an action are all that the pump forwards. -/
theorem escapePump_of_firstPass {escapeChar : Option UInt8} (track : Bytes → Bool)
    (htrack : track [] = true) {reads : List Bytes} {stream : Bytes} (hsplits : Splits reads stream)
    (hscan : ∀ front buf back, reads = front ++ buf :: back → ∀ base,
      firstPass escapeChar base (track front.flatten) buf =
        ([], some (buf.length, track (front.flatten ++ buf)))) :
    sentToChannel (escapePump escapeChar reads) = stream ∧
      escapeActions (escapePump escapeChar reads) = [] := by
  obtain ⟨log, hforwarded, hactions, hrun⟩ :=
    run_append_of_firstPass track []
      (fun front buf back heq => ⟨hsplits.ne_nil_of_eq heq, hscan front buf back heq⟩) []
  have hlog : escapePump escapeChar reads = log := by
    rw [htrack, List.append_nil] at hrun
    exact hrun.trans (List.append_nil log)
  rw [hlog, ← hsplits.flatten_eq]
  exact ⟨hforwarded, hactions⟩

theorem escapePump_of_not_hasEscape {escapeChar : Option UInt8} {reads : List Bytes}
    {stream : Bytes} (h : ∀ esc, escapeChar = some esc → ¬ HasEscape esc stream)
    (hsplits : Splits reads stream) :
    sentToChannel (escapePump escapeChar reads) = stream ∧
      escapeActions (escapePump escapeChar reads) = [] := by
  rcases escapeChar with _ | esc
  · exact escapePump_of_firstPass (fun _ => true) rfl hsplits fun _ _ _ _ _ => rfl
  · refine escapePump_of_firstPass lineStart rfl hsplits ?_
    rintro front buf back rfl base
    have hfront : ¬ HasEscape esc (front.flatten ++ buf) := by
      intro hescape
      refine h esc rfl ?_
      rw [← hsplits.flatten_eq, List.flatten_append, List.flatten_cons, ← List.append_assoc]
      exact hescape.append back.flatten
    exact (scan_eq_of_not_hasEscape hfront base 0).trans (by rw [Nat.zero_add])

/-- Typed one key at a time, no escape sequence is ever recognised. -/
theorem firstPass_singletons {esc : UInt8} {stream : Bytes} {front back : List Bytes} {buf : Bytes}
    (heq : stream.map (fun b => [b]) = front ++ buf :: back) (base : Nat) (before : Bytes) :
    firstPass (some esc) base (lineStart (before ++ front.flatten)) buf =
      ([], some (buf.length, lineStart (before ++ front.flatten ++ buf))) := by
  obtain ⟨b, -, rfl⟩ : ∃ b ∈ stream, [b] = buf :=
    List.mem_map.mp (by rw [heq]; exact List.mem_append_right _ List.mem_cons_self)
  rw [lineStart_concat]
  exact scan_singleton esc base _ b

theorem mem_run_of_mem_firstPass {escapeChar : Option UInt8} {s : EscapePump} {buf : Bytes}
    {sent : Bool} (hbuf : buf ≠ []) {entry : Nat × EscapeOp}
    (hentry : entry ∈ (firstPass escapeChar s.offset s.atLineStart (s.carry ++ buf)).1)
    (rest : List (Except String Bytes × Bool)) :
    entry ∈ s.run escapeChar ((.ok buf, sent) :: rest) := by
  obtain ⟨b, buf, rfl⟩ := List.exists_cons_of_ne_nil hbuf
  have hstep : entry ∈ (s.step escapeChar sent (.ok (b :: buf))).1 := by
    unfold EscapePump.step
    dsimp only
    split
    · exact hentry
    · split
      · exact List.mem_append_left _ hentry
      · exact hentry
  rw [EscapePump.run]
  split
  · exact List.mem_append_left _ hstep
  · exact hstep

/-- `~.` at the start of a session, typed as one read and as two. -/
theorem disconnect_in_two_reads :
    Splits [[0x7e, 0x2e]] [0x7e, 0x2e] ∧ Splits [[0x7e], [0x2e]] [0x7e, 0x2e] ∧
      escapeActions (escapePump (some 0x7e) [[0x7e, 0x2e]]) = [(0, .stdout "\r\n")] ∧
      sentToChannel (escapePump (some 0x7e) [[0x7e, 0x2e]]) = [] ∧
      escapeActions (escapePump (some 0x7e) [[0x7e], [0x2e]]) = [] ∧
      sentToChannel (escapePump (some 0x7e) [[0x7e], [0x2e]]) = [0x7e, 0x2e] :=
  ⟨⟨rfl, by decide⟩, ⟨rfl, by decide⟩, by decide, by decide, by decide, by decide⟩

/-- **The reads make no difference exactly where there is no escape sequence**: for an escape
character and a stream, what goes into the channel and what is done for the user are the same for
any two ways in which the stream comes in reads, if and only if no line of it starts with an escape
sequence. -/
theorem independentOfReads_iff (escapeChar : Option UInt8) (stream : Bytes) :
    (∀ reads reads', Splits reads stream → Splits reads' stream →
      sentToChannel (escapePump escapeChar reads) = sentToChannel (escapePump escapeChar reads') ∧
        escapeActions (escapePump escapeChar reads) = escapeActions (escapePump escapeChar reads'))
      ↔ ∀ esc, escapeChar = some esc → ¬ HasEscape esc stream := by
  constructor
  · rintro h esc rfl ⟨hesc, before, action, rest, rfl, hstart, haction⟩
    have hkeys := splits_singletons (before ++ esc :: action :: rest)
    -- the same keys, but with the escape sequence in one read
    have hwhole : Splits (before.map (fun b => [b]) ++ [esc, action] :: rest.map fun b => [b])
        (before ++ esc :: action :: rest) := by
      refine (splits_singletons before).append ?_
      have hsequence : Splits [[esc, action]] [esc, action] :=
        ⟨rfl, by rintro buf hbuf; rw [List.mem_singleton.mp hbuf]; simp⟩
      exact hsequence.append (splits_singletons rest)
    have hnone : escapeActions (escapePump (some esc)
        ((before ++ esc :: action :: rest).map fun b => [b])) = [] :=
      (escapePump_of_firstPass lineStart rfl hkeys fun front buf back heq base =>
        firstPass_singletons heq base []).2
    obtain ⟨log, -, -, hrun⟩ := run_append_of_firstPass lineStart []
      (fun front buf back heq => ⟨(splits_singletons before).ne_nil_of_eq heq,
        fun base => firstPass_singletons heq base []⟩) ([esc, action] :: rest.map fun b => [b])
    rw [(splits_singletons before).flatten_eq, List.nil_append, lineStart_iff.mpr hstart] at hrun
    obtain ⟨op, hop, haction⟩ := exists_action_mem_scan hesc haction before.length
    have hmem : (before.length, op) ∈ escapeActions (escapePump (some esc)
        (before.map (fun b => [b]) ++ [esc, action] :: rest.map fun b => [b])) := by
      refine List.mem_filter.mpr ⟨?_, haction⟩
      refine (congrArg ((before.length, op) ∈ ·) hrun).mpr (List.mem_append_right log ?_)
      exact mem_run_of_mem_firstPass (List.cons_ne_nil _ _) hop _
    rw [← (h _ _ hkeys hwhole).2, hnone] at hmem
    cases hmem
  · intro h reads reads' hreads hreads'
    obtain ⟨hforwarded, hactions⟩ := escapePump_of_not_hasEscape h hreads
    obtain ⟨hforwarded', hactions'⟩ := escapePump_of_not_hasEscape h hreads'
    exact ⟨hforwarded.trans hforwarded'.symm, hactions.trans hactions'.symm⟩

end Passhrs
