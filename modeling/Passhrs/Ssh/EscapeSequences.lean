import Passhrs.Ssh.EscapePump

/-!
# Escape sequences

What a read of the escape pump says, cut into pieces, and what the pump makes of it.

* **`scan_eq`**: a scan does what the pieces of its read say, in their order, and it stops at the
  first `~.`.
* **`escapePump_of_stays`**: reads without a `~.` are forwarded to the last byte, also those with a
  `~?`: the help text is printed, but nothing is taken out of what goes into the channel.
-/

namespace Passhrs

open Text

/-! ## The pieces of a read -/

/-- A piece of a read, up to where the pump disconnects. -/
inductive Piece where
  | plain (b : UInt8)
  /-- `~?`, with the newline that directly follows it if `entered`. -/
  | help (entered : Bool)
  /-- `~.`, with the rest of the read. -/
  | disconnect (rest : Bytes)
deriving DecidableEq

/-- The pieces of a read. An escape character is one at the start of a line, which is after a
newline or after a `~?`, and only with its action in the same read. -/
def pieces (esc : UInt8) (atLineStart : Bool) : Bytes → List Piece
  | [] => []
  | [b] => [.plain b]
  | b :: action :: rest =>
    if atLineStart ∧ b = esc ∧ b ≠ newline ∧ action = 0x2e then [.disconnect rest]
    else if atLineStart ∧ b = esc ∧ b ≠ newline ∧ action = 0x3f then
      match rest with
      | [] => [.help false]
      | c :: rest =>
        if c = newline then .help true :: pieces esc true rest
        else .help false :: pieces esc true (c :: rest)
    else .plain b :: pieces esc (b = newline) (action :: rest)

example : pieces 0x7e true [0x7e, 0x3f, 0x0a, 0x7e, 0x3f, 0x7e, 0x2e, 0x61] =
    [.help true, .help false, .disconnect [0x61]] := by decide

namespace Piece

def source (esc : UInt8) : Piece → Bytes
  | plain b => [b]
  | help false => [esc, 0x3f]
  | help true => [esc, 0x3f, newline]
  | disconnect rest => esc :: 0x2e :: rest

/-- What there is to forward of it. -/
def kept : Piece → Bytes
  | plain b => [b]
  | _ => []

def isHelp : Piece → Bool
  | help _ => true
  | _ => false

def isDisconnect : Piece → Bool
  | disconnect _ => true
  | _ => false

/-- Whether a line starts behind it. -/
def endsLine : Piece → Bool
  | plain b => b = newline
  | help _ => true
  | disconnect _ => false

/-- The byte behind the escape character. -/
def action : Piece → Option UInt8
  | plain _ => none
  | help _ => some 0x3f
  | disconnect _ => some 0x2e

/-- What the pump does for it, when it stands at `offset` in stdin. -/
def actions (offset : Nat) : Piece → EscapeLog
  | plain _ => []
  | help _ => [(offset, .stderr helpText)]
  | disconnect _ => [(offset, .stdout "\r\n"), (offset, .eof)]

theorem source_of_action (esc : UInt8) {action : UInt8} {piece : Piece}
    (h : piece.action = some action) :
    ∃ after, piece.source esc = esc :: action :: after := by
  rcases piece with b | ⟨_ | _⟩ | rest
  · cases h
  · cases h
    exact ⟨[], rfl⟩
  · cases h
    exact ⟨[newline], rfl⟩
  · cases h
    exact ⟨rest, rfl⟩

end Piece

def lineStartAfter (atLineStart : Bool) (read : List Piece) : Bool :=
  read.foldl (fun _ piece => piece.endsLine) atLineStart

def actionsAt (esc : UInt8) (offset : Nat) : List Piece → EscapeLog
  | [] => []
  | piece :: read => piece.actions offset ++ actionsAt esc (offset + (piece.source esc).length) read

/-- What a scan from `pos` on makes of the pieces. -/
def scanned (esc : UInt8) (base pos : Nat) (atLineStart : Bool) (read : List Piece) :
    EscapeLog × Option (Nat × Bool) :=
  (actionsAt esc (base + pos) read,
    if read.any Piece.isDisconnect then none
    else some (pos + (read.flatMap (Piece.source esc)).length, lineStartAfter atLineStart read))

/-- The pieces are all of the read. -/
theorem flatMap_source (esc : UInt8) (atLineStart : Bool) (buf : Bytes) :
    (pieces esc atLineStart buf).flatMap (Piece.source esc) = buf := by
  fun_induction pieces esc atLineStart buf with
  | case1 => rfl
  | case2 => rfl
  | case3 atLineStart b action rest h =>
    obtain ⟨-, rfl, -, rfl⟩ := h
    exact List.append_nil _
  | case4 atLineStart b action _ h =>
    obtain ⟨-, rfl, -, rfl⟩ := h
    rfl
  | case5 atLineStart b action _ h rest ih =>
    obtain ⟨-, rfl, -, rfl⟩ := h
    rw [List.flatMap_cons, ih]
    rfl
  | case6 atLineStart b action _ h c rest _ ih =>
    obtain ⟨-, rfl, -, rfl⟩ := h
    rw [List.flatMap_cons, ih]
    rfl
  | case7 atLineStart b action rest _ _ ih =>
    rw [List.flatMap_cons, ih]
    rfl

/-! ## A scan does what the pieces say -/

theorem scanned_cons {esc : UInt8} {base pos : Nat} {atLineStart : Bool} {piece : Piece}
    {read : List Piece} (h : piece.isDisconnect = false) :
    scanned esc base pos atLineStart (piece :: read) =
      (piece.actions (base + pos) ++
        (scanned esc base (pos + (piece.source esc).length) piece.endsLine read).1,
        (scanned esc base (pos + (piece.source esc).length) piece.endsLine read).2) := by
  unfold scanned
  rw [List.any_cons, h, Bool.false_or, List.flatMap_cons, List.length_append, ← Nat.add_assoc,
    actionsAt, Nat.add_assoc base]
  rfl

/-- A byte that starts no sequence is passed over. -/
theorem scan_plain {esc b : UInt8} {base pos : Nat} {atLineStart : Bool} {rest : Bytes}
    (h : ∀ action, rest.head? = some action →
      ¬ (atLineStart ∧ b = esc ∧ b ≠ newline ∧ (action = 0x2e ∨ action = 0x3f))) :
    scan esc base 0 pos atLineStart (b :: rest) =
      scan esc base 0 (pos + 1) (b = newline) rest := by
  rw [scan]
  dsimp only
  by_cases hnewline : b = newline
  · rw [if_pos hnewline, decide_eq_true hnewline]
  · rw [if_neg hnewline, decide_eq_false hnewline]
    by_cases hescape : atLineStart ∧ b = esc ∧ rest ≠ []
    · -- an escape character, but the byte behind it is no action
      obtain ⟨hstart, hb, hrest⟩ := hescape
      obtain ⟨action, rest, rfl⟩ := List.exists_cons_of_ne_nil hrest
      have haction : ¬ (action = 0x2e ∨ action = 0x3f) := fun haction =>
        h action rfl ⟨hstart, hb, hnewline, haction⟩
      rw [if_pos ⟨hstart, hb, hrest⟩, List.getD_cons_zero, if_neg (not_or.mp haction).1,
        if_neg (not_or.mp haction).2]
    · rw [if_neg hescape]

theorem scan_disconnect {esc : UInt8} (hesc : esc ≠ newline) (base pos : Nat) (rest : Bytes) :
    scan esc base 0 pos true (esc :: 0x2e :: rest) =
      ([(base + pos, .stdout "\r\n"), (base + pos, .eof)], none) := by
  rw [scan]
  dsimp only
  rw [if_neg hesc, if_pos ⟨rfl, rfl, List.cons_ne_nil _ _⟩]
  rfl

theorem scan_help {esc : UInt8} (hesc : esc ≠ newline) (base pos : Nat) (entered : Bool)
    {rest : Bytes} (hentered : entered = false → rest.head? ≠ some newline) :
    scan esc base 0 pos true ((Piece.help entered).source esc ++ rest) =
      ((base + pos, .stderr helpText) ::
          (scan esc base 0 (pos + ((Piece.help entered).source esc).length) true rest).1,
        (scan esc base 0 (pos + ((Piece.help entered).source esc).length) true rest).2) := by
  rcases entered with _ | _
  · have hskip : ((0x3f :: rest).getD 1 0 : UInt8) ≠ newline := by
      rcases rest with _ | ⟨c, rest⟩
      · decide
      · exact fun h => hentered rfl (congrArg some h)
    unfold Piece.source
    dsimp only
    rw [List.cons_append, List.cons_append, List.nil_append, scan]
    dsimp only
    rw [if_neg hesc, if_pos ⟨rfl, rfl, List.cons_ne_nil _ _⟩, if_neg hskip]
    rfl
  · unfold Piece.source
    dsimp only
    rw [List.cons_append, List.cons_append, List.cons_append, List.nil_append, scan]
    dsimp only
    rw [if_neg hesc, if_pos ⟨rfl, rfl, List.cons_ne_nil _ _⟩]
    rfl

/-- **A scan does what the pieces of its read say.** -/
theorem scan_eq (esc : UInt8) (base pos : Nat) (atLineStart : Bool) (buf : Bytes) :
    scan esc base 0 pos atLineStart buf =
      scanned esc base pos atLineStart (pieces esc atLineStart buf) := by
  -- `pieces` cuts a read where the scan decides, so its cases are those of the scan
  fun_induction pieces esc atLineStart buf generalizing pos with
  | case1 => rfl
  | case2 atLineStart b =>
    rw [scan_plain (by simp), scanned_cons rfl]
    rfl
  | case3 atLineStart b action rest h =>
    obtain ⟨rfl, rfl, hesc, rfl⟩ := h
    rw [scan_disconnect hesc]
    rfl
  | case4 atLineStart b action _ h =>
    obtain ⟨rfl, rfl, hesc, rfl⟩ := h
    have := scan_help hesc base pos false (fun _ => by simp : false = false → [].head? ≠ _)
    rw [scanned_cons rfl]
    exact this
  | case5 atLineStart b action _ h rest ih =>
    obtain ⟨rfl, rfl, hesc, rfl⟩ := h
    refine (scan_help hesc base pos true (by simp : true = false → rest.head? ≠ _)).trans ?_
    rw [ih, scanned_cons rfl]
    rfl
  | case6 atLineStart b action _ h c rest hc ih =>
    obtain ⟨rfl, rfl, hesc, rfl⟩ := h
    refine (scan_help hesc base pos false
      (by simp [hc] : false = false → (c :: rest).head? ≠ _)).trans ?_
    rw [ih, scanned_cons rfl]
    rfl
  | case7 atLineStart b action rest hdisconnect hhelp ih =>
    rw [scanned_cons rfl, scan_plain ?_, ih]
    · rfl
    · rintro _ ⟨⟩ ⟨hstart, hb, hnewline, haction | haction⟩
      · exact hdisconnect ⟨hstart, hb, hnewline, haction⟩
      · exact hhelp ⟨hstart, hb, hnewline, haction⟩

/-! ## Sessions -/

/-- The pieces of the reads of a session. -/
def sessionPieces (esc : UInt8) (atLineStart : Bool) : List Bytes → List Piece
  | [] => []
  | buf :: reads =>
    let read := pieces esc atLineStart buf
    read ++ sessionPieces esc (lineStartAfter atLineStart read) reads

/-- No piece of these disconnects. -/
def Stays (session : List Piece) : Prop := ∀ piece ∈ session, piece.isDisconnect = false

instance (session : List Piece) : Decidable (Stays session) :=
  inferInstanceAs (Decidable (∀ piece ∈ session, piece.isDisconnect = false))

theorem lineStartAfter_append (atLineStart : Bool) (read more : List Piece) :
    lineStartAfter atLineStart (read ++ more) =
      lineStartAfter (lineStartAfter atLineStart read) more :=
  List.foldl_append

theorem actionsAt_append (esc : UInt8) (offset : Nat) (read more : List Piece) :
    actionsAt esc offset (read ++ more) = actionsAt esc offset read ++
      actionsAt esc (offset + (read.flatMap (Piece.source esc)).length) more := by
  induction read generalizing offset with
  | nil => rfl
  | cons piece read ih =>
    rw [List.cons_append, actionsAt, ih, actionsAt, List.append_assoc, List.flatMap_cons,
      List.length_append, Nat.add_assoc]

theorem sessionPieces_source (esc : UInt8) (atLineStart : Bool) (reads : List Bytes) :
    (sessionPieces esc atLineStart reads).flatMap (Piece.source esc) = reads.flatten := by
  induction reads generalizing atLineStart with
  | nil => rfl
  | cons buf reads ih =>
    rw [sessionPieces, List.flatMap_append, flatMap_source, ih, List.flatten_cons]

theorem sessionPieces_append (esc : UInt8) (atLineStart : Bool) (reads more : List Bytes) :
    sessionPieces esc atLineStart (reads ++ more) = sessionPieces esc atLineStart reads ++
      sessionPieces esc (lineStartAfter atLineStart (sessionPieces esc atLineStart reads))
        more := by
  induction reads generalizing atLineStart with
  | nil => rfl
  | cons buf reads ih =>
    rw [List.cons_append, sessionPieces, ih, sessionPieces, List.append_assoc,
      lineStartAfter_append]

variable {esc : UInt8} {offset : Nat} {atLineStart : Bool}

/-- A read without a `~.` is forwarded as it is, after what its `~?` do. -/
theorem step_of_stays {buf : Bytes} (hbuf : buf ≠ []) (h : Stays (pieces esc atLineStart buf)) :
    EscapePump.step (some esc) ⟨offset, [], atLineStart⟩ true (.ok buf) =
      let read := pieces esc atLineStart buf
      (actionsAt esc offset read ++ [(offset, .data buf)],
        some ⟨offset + buf.length, [], lineStartAfter atLineStart read⟩) := by
  have hany : (pieces esc atLineStart buf).any Piece.isDisconnect = false := by
    rw [List.any_eq_false]
    exact fun piece hpiece => by rw [h piece hpiece]; decide
  refine step_of_firstPass hbuf ((scan_eq esc offset 0 atLineStart buf).trans ?_)
  rw [scanned, hany, flatMap_source, Nat.zero_add]
  rfl

/-- A read with a `~.` is not forwarded at all. -/
theorem step_of_disconnect {buf : Bytes} (hbuf : buf ≠ []) {piece : Piece}
    (hpiece : piece ∈ pieces esc atLineStart buf) (h : piece.isDisconnect = true) :
    EscapePump.step (some esc) ⟨offset, [], atLineStart⟩ true (.ok buf) =
      (actionsAt esc offset (pieces esc atLineStart buf), none) := by
  obtain ⟨b, rest, rfl⟩ := List.exists_cons_of_ne_nil hbuf
  have hscan : firstPass (some esc) offset atLineStart (b :: rest) =
      (actionsAt esc offset (pieces esc atLineStart (b :: rest)), none) := by
    refine (scan_eq esc offset 0 atLineStart (b :: rest)).trans ?_
    rw [scanned, List.any_eq_true.mpr ⟨piece, hpiece, h⟩]
    rfl
  unfold EscapePump.step
  dsimp only
  rw [List.nil_append, hscan]

theorem sentToChannel_actionsAt (esc : UInt8) (offset : Nat) (read : List Piece) :
    sentToChannel (actionsAt esc offset read) = [] := by
  induction read generalizing offset with
  | nil => rfl
  | cons piece read ih =>
    rw [actionsAt, sentToChannel, List.flatMap_append, ← sentToChannel, ← sentToChannel, ih,
      List.append_nil]
    cases piece <;> rfl

/-- Until it disconnects, all that the pump does is print the help text. -/
theorem op_of_mem_actionsAt {read : List Piece} (h : Stays read) {entry : Nat × EscapeOp}
    (hentry : entry ∈ actionsAt esc offset read) : entry.2 = .stderr helpText := by
  induction read generalizing offset with
  | nil => cases hentry
  | cons piece read ih =>
    rw [actionsAt, List.mem_append] at hentry
    rcases hentry with hentry | hentry
    · rcases piece with b | entered | rest
      · cases hentry
      · rw [List.mem_singleton.mp hentry]
      · cases h _ List.mem_cons_self
    · exact ih (fun piece hpiece => h piece (List.mem_cons_of_mem _ hpiece)) hentry

/-- The log of reads that stay connected: their data, and the help text for each `~?`. -/
structure LogOf (esc : UInt8) (offset : Nat) (atLineStart : Bool) (reads : List Bytes)
    (log : EscapeLog) : Prop where
  sent : sentToChannel log = reads.flatten
  actions : escapeActions log = actionsAt esc offset (sessionPieces esc atLineStart reads)
  eof_not_mem : ∀ entry ∈ log, entry.2 ≠ .eof

theorem LogOf.nil : LogOf esc offset atLineStart [] [] := ⟨rfl, rfl, by simp⟩

theorem LogOf.cons {buf : Bytes} {reads : List Bytes} {log : EscapeLog}
    (h : Stays (pieces esc atLineStart buf))
    (hlog : LogOf esc (offset + buf.length)
      (lineStartAfter atLineStart (pieces esc atLineStart buf)) reads log) :
    LogOf esc offset atLineStart (buf :: reads)
      (actionsAt esc offset (pieces esc atLineStart buf) ++ (offset, .data buf) :: log) where
  sent := by
    rw [sentToChannel, List.flatMap_append, List.flatMap_cons, ← sentToChannel, ← sentToChannel,
      sentToChannel_actionsAt, hlog.sent]
    rfl
  actions := by
    rw [sessionPieces, actionsAt_append, flatMap_source, ← hlog.actions, escapeActions,
      List.filter_append, List.filter_cons_of_neg (by simp [EscapeOp.isAction]), ← escapeActions,
      ← escapeActions, escapeActions, List.filter_eq_self.mpr]
    intro entry hentry
    rw [op_of_mem_actionsAt h hentry]
    rfl
  eof_not_mem := by
    intro entry hentry
    rcases List.mem_append.mp hentry with hentry | hentry
    · rw [op_of_mem_actionsAt h hentry]
      exact EscapeOp.noConfusion
    · rcases List.mem_cons.mp hentry with rfl | hentry
      · exact EscapeOp.noConfusion
      · exact hlog.eof_not_mem entry hentry

theorem run_of_stays {reads : List Bytes} (hreads : ∀ buf ∈ reads, buf ≠ [])
    (h : Stays (sessionPieces esc atLineStart reads)) :
    ∃ log, LogOf esc offset atLineStart reads log ∧ ∀ more,
      EscapePump.run (some esc) ⟨offset, [], atLineStart⟩ (rounds (reads ++ more)) =
        log ++ EscapePump.run (some esc) ⟨offset + reads.flatten.length, [],
          lineStartAfter atLineStart (sessionPieces esc atLineStart reads)⟩ (rounds more) := by
  induction reads generalizing offset atLineStart with
  | nil => exact ⟨[], .nil, fun _ => rfl⟩
  | cons buf reads ih =>
    have hbuf : Stays (pieces esc atLineStart buf) :=
      fun piece hpiece => h piece (List.mem_append_left _ hpiece)
    obtain ⟨log, hlog, hrun⟩ := ih (fun buf hbuf => hreads buf (List.mem_cons_of_mem _ hbuf))
      (fun piece hpiece => h piece (List.mem_append_right _ hpiece))
    -- nothing is carried over, so the rest runs as a session of its own
    refine ⟨_, .cons hbuf hlog, fun more => ?_⟩
    rw [List.cons_append, rounds, List.map_cons, EscapePump.run,
      step_of_stays (hreads buf List.mem_cons_self) hbuf]
    dsimp only
    rw [← rounds, hrun more, List.flatten_cons, List.length_append, ← Nat.add_assoc, sessionPieces,
      lineStartAfter_append]
    simp

/-- At a read with a `~.` the session ends. -/
theorem run_of_disconnect {buf : Bytes} (hbuf : buf ≠ []) {piece : Piece}
    (hpiece : piece ∈ pieces esc atLineStart buf) (h : piece.isDisconnect = true)
    (more : List Bytes) :
    EscapePump.run (some esc) ⟨offset, [], atLineStart⟩ (rounds (buf :: more)) =
      actionsAt esc offset (pieces esc atLineStart buf) := by
  rw [rounds, List.map_cons, EscapePump.run, step_of_disconnect hbuf hpiece h]

/-- Either nothing disconnects, or there is a first read that does. -/
theorem stays_or (esc : UInt8) (atLineStart : Bool) (reads : List Bytes) :
    Stays (sessionPieces esc atLineStart reads) ∨
      ∃ front buf back, reads = front ++ buf :: back ∧
        Stays (sessionPieces esc atLineStart front) ∧
        ∃ piece ∈ pieces esc
          (lineStartAfter atLineStart (sessionPieces esc atLineStart front)) buf,
          piece.isDisconnect = true := by
  induction reads generalizing atLineStart with
  | nil => exact .inl (by simp [Stays, sessionPieces])
  | cons buf reads ih =>
    by_cases hbuf : Stays (pieces esc atLineStart buf)
    · rcases ih (lineStartAfter atLineStart (pieces esc atLineStart buf)) with
        hstays | ⟨front, buf', back, rfl, hstays, hdisconnect⟩
      · refine .inl fun piece hpiece => ?_
        exact (List.mem_append.mp hpiece).elim (hbuf piece) (hstays piece)
      · refine .inr ⟨buf :: front, buf', back, rfl, fun piece hpiece => ?_, ?_⟩
        · exact (List.mem_append.mp hpiece).elim (hbuf piece) (hstays piece)
        · rwa [sessionPieces, lineStartAfter_append]
    · obtain ⟨piece, hpiece, hdisconnect⟩ : ∃ piece ∈ pieces esc atLineStart buf,
          piece.isDisconnect = true := by
        simpa [Stays] using hbuf
      exact .inr ⟨[], buf, reads, rfl, by simp [Stays, sessionPieces], piece, hpiece, hdisconnect⟩

/-- Apart from data, the log is what the pieces say. -/
theorem LogOf.mem_iff {reads : List Bytes} {log : EscapeLog}
    (h : LogOf esc offset atLineStart reads log) {entry : Nat × EscapeOp}
    (hentry : ∀ bytes, entry.2 ≠ .data bytes) :
    entry ∈ log ↔ entry ∈ actionsAt esc offset (sessionPieces esc atLineStart reads) := by
  have hfilter : entry ∈ actionsAt esc offset (sessionPieces esc atLineStart reads) ↔
      entry ∈ log ∧ entry.2.isAction = true := by
    rw [← h.actions]
    exact List.mem_filter
  refine ⟨fun hmem => hfilter.mpr ⟨hmem, ?_⟩, fun hmem => (hfilter.mp hmem).1⟩
  rcases hop : entry.2 with text | text | bytes | _
  · rfl
  · rfl
  · exact absurd hop (hentry bytes)
  · exact absurd hop (h.eof_not_mem entry hmem)

/-- A log of some reads that is part of that of all longer sessions is theirs. -/
theorem escapePump_eq {escapeChar : Option UInt8} {reads : List Bytes} {log : EscapeLog}
    {s : EscapePump} (h : ∀ more, EscapePump.start.run escapeChar (rounds (reads ++ more)) =
      log ++ s.run escapeChar (rounds more)) : escapePump escapeChar reads = log := by
  have hrun := h []
  rw [List.append_nil] at hrun
  exact hrun.trans (List.append_nil log)

theorem escapePump_append_of_stays {reads : List Bytes} (hreads : ∀ buf ∈ reads, buf ≠ [])
    (h : Stays (sessionPieces esc true reads)) :
    ∃ log, LogOf esc 0 true reads log ∧ ∀ more, escapePump (some esc) (reads ++ more) =
      log ++ EscapePump.run (some esc) ⟨reads.flatten.length, [],
        lineStartAfter true (sessionPieces esc true reads)⟩ (rounds more) := by
  obtain ⟨log, hlog, hrun⟩ := run_of_stays hreads h
  rw [Nat.zero_add] at hrun
  exact ⟨log, hlog, hrun⟩

theorem escapePump_of_stays {reads : List Bytes} (hreads : ∀ buf ∈ reads, buf ≠ [])
    (h : Stays (sessionPieces esc true reads)) :
    LogOf esc 0 true reads (escapePump (some esc) reads) := by
  obtain ⟨log, hlog, hrun⟩ := escapePump_append_of_stays hreads h
  rwa [escapePump_eq hrun]

theorem escapePump_of_disconnect {front back : List Bytes} {buf : Bytes}
    (hreads : ∀ buf' ∈ front ++ buf :: back, buf' ≠ [])
    (hfront : Stays (sessionPieces esc true front)) {piece : Piece}
    (hpiece : piece ∈ pieces esc (lineStartAfter true (sessionPieces esc true front)) buf)
    (h : piece.isDisconnect = true) :
    ∃ log, LogOf esc 0 true front log ∧ escapePump (some esc) (front ++ buf :: back) =
      log ++ actionsAt esc front.flatten.length
        (pieces esc (lineStartAfter true (sessionPieces esc true front)) buf) := by
  obtain ⟨log, hlog, hrun⟩ := escapePump_append_of_stays
    (fun buf' hbuf' => hreads buf' (List.mem_append_left _ hbuf')) hfront
  refine ⟨log, hlog, (hrun (buf :: back)).trans ?_⟩
  rw [run_of_disconnect (hreads buf (List.mem_append_right _ List.mem_cons_self)) hpiece h]

/-- Apart from data, a session does what the pieces say of its reads up to the one that ends it. -/
theorem mem_escapePump (esc : UInt8) {reads : List Bytes} (hreads : ∀ buf ∈ reads, buf ≠ []) :
    ∃ done back, reads = done ++ back ∧ ∀ entry : Nat × EscapeOp,
      (∀ bytes, entry.2 ≠ .data bytes) → (entry ∈ escapePump (some esc) reads ↔
        entry ∈ actionsAt esc 0 (sessionPieces esc true done)) := by
  rcases stays_or esc true reads with
    hstays | ⟨front, buf, back, rfl, hstays, piece, hpiece, h⟩
  · exact ⟨reads, [], (List.append_nil reads).symm, fun entry hentry =>
      (escapePump_of_stays hreads hstays).mem_iff hentry⟩
  · obtain ⟨log, hlog, hrun⟩ := escapePump_of_disconnect hreads hstays hpiece h
    refine ⟨front ++ [buf], back, by simp, fun entry hentry => ?_⟩
    rw [hrun, List.mem_append, hlog.mem_iff hentry, sessionPieces_append, actionsAt_append,
      List.mem_append, sessionPieces_source, Nat.zero_add]
    simp [sessionPieces]

/-! ## Where actions stand -/

/-- The escape sequences among these pieces are at the start of a line. -/
def StartLines (esc : UInt8) (atLineStart : Bool) (read : List Piece) : Prop :=
  ∀ front piece back, read = front ++ piece :: back → piece.action ≠ none →
    esc ≠ newline ∧ lineStartAfter atLineStart front = true

theorem StartLines.nil : StartLines esc atLineStart [] :=
  fun _ _ _ heq => absurd heq.symm (by simp)

theorem StartLines.cons {piece : Piece} {read : List Piece}
    (hpiece : piece.action ≠ none → esc ≠ newline ∧ atLineStart = true)
    (h : StartLines esc piece.endsLine read) : StartLines esc atLineStart (piece :: read) := by
  intro front piece' back heq haction
  rcases front with _ | ⟨first, front⟩
  · obtain ⟨rfl, -⟩ := List.cons.inj heq
    exact hpiece haction
  · obtain ⟨rfl, htail⟩ := List.cons.inj heq
    exact h front piece' back htail haction

theorem StartLines.append {read more : List Piece} (h : StartLines esc atLineStart read)
    (hmore : StartLines esc (lineStartAfter atLineStart read) more) :
    StartLines esc atLineStart (read ++ more) := by
  induction read generalizing atLineStart with
  | nil => exact hmore
  | cons piece read ih =>
    refine .cons (h [] piece read rfl) (ih ?_ hmore)
    intro front piece' back heq
    exact h (piece :: front) piece' back (by rw [heq]; rfl)

theorem startLines_pieces (esc : UInt8) (atLineStart : Bool) (buf : Bytes) :
    StartLines esc atLineStart (pieces esc atLineStart buf) := by
  fun_induction pieces esc atLineStart buf with
  | case1 => exact .nil
  | case2 => exact .cons (fun h => absurd rfl h) .nil
  | case3 atLineStart b action rest h =>
    obtain ⟨rfl, rfl, hesc, -⟩ := h
    exact .cons (fun _ => ⟨hesc, rfl⟩) .nil
  | case4 atLineStart b action _ h =>
    obtain ⟨rfl, rfl, hesc, -⟩ := h
    exact .cons (fun _ => ⟨hesc, rfl⟩) .nil
  | case5 atLineStart b action _ h rest ih =>
    obtain ⟨rfl, rfl, hesc, -⟩ := h
    exact .cons (fun _ => ⟨hesc, rfl⟩) ih
  | case6 atLineStart b action _ h c rest _ ih =>
    obtain ⟨rfl, rfl, hesc, -⟩ := h
    exact .cons (fun _ => ⟨hesc, rfl⟩) ih
  | case7 atLineStart b action rest _ _ ih => exact .cons (fun h => absurd rfl h) ih

theorem startLines_sessionPieces (esc : UInt8) (atLineStart : Bool) (reads : List Bytes) :
    StartLines esc atLineStart (sessionPieces esc atLineStart reads) := by
  induction reads generalizing atLineStart with
  | nil => exact .nil
  | cons buf reads ih => exact (startLines_pieces esc atLineStart buf).append (ih _)

/-- A line starts at the beginning of stdin, behind a newline and behind a `~?`. -/
theorem eq_nil_or_of_lineStartAfter (esc : UInt8) {read : List Piece}
    (h : lineStartAfter true read = true) :
    read = [] ∨ (read.flatMap (Piece.source esc)).getLast? = some newline ∨
      ∃ front, read = front ++ [.help false] := by
  rcases List.eq_nil_or_concat' read with rfl | ⟨front, piece, rfl⟩
  · exact .inl rfl
  · rw [lineStartAfter_append] at h
    have hends : piece.endsLine = true := h
    refine .inr ?_
    rw [List.flatMap_append, List.getLast?_append]
    rcases piece with b | ⟨_ | _⟩ | rest
    · rw [decide_eq_true_eq.mp hends]
      exact .inl rfl
    · exact .inr ⟨front, rfl⟩
    · exact .inl rfl
    · cases hends

/-- An escape sequence of a session is whole in one of its reads. -/
theorem exists_read_of_action {reads : List Bytes} {front back : List Piece} {piece : Piece}
    {action : UInt8} (h : sessionPieces esc atLineStart reads = front ++ piece :: back)
    (haction : piece.action = some action) :
    ∃ earlier before after later, reads = earlier ++ (before ++ esc :: action :: after) :: later ∧
      front.flatMap (Piece.source esc) = earlier.flatten ++ before := by
  induction reads generalizing atLineStart front with
  | nil => exact absurd h.symm (by simp [sessionPieces])
  | cons buf reads ih =>
    rw [sessionPieces] at h
    -- it is in a later read if the pieces of this one all stand in front of it
    by_cases hlater : ∃ more, front = pieces esc atLineStart buf ++ more
    · obtain ⟨more, rfl⟩ := hlater
      rw [List.append_assoc] at h
      obtain ⟨earlier, before, after, later, rfl, hfront⟩ := ih (List.append_cancel_left h)
      refine ⟨buf :: earlier, before, after, later, rfl, ?_⟩
      rw [List.flatMap_append, flatMap_source, hfront, List.flatten_cons, List.append_assoc]
    · rcases List.append_eq_append_iff.mp h with ⟨more, hfront, -⟩ | ⟨more, hread, hmore⟩
      · exact absurd ⟨more, hfront⟩ hlater
      · rcases more with _ | ⟨first, more⟩
        -- this read ends where the piece begins
        · exact absurd ⟨[], by rw [hread]; simp⟩ hlater
        · obtain ⟨rfl, -⟩ := List.cons.inj hmore
          have hbuf := flatMap_source esc atLineStart buf
          obtain ⟨after, hsource⟩ := Piece.source_of_action esc haction
          rw [hread, List.flatMap_append, List.flatMap_cons, hsource] at hbuf
          exact ⟨[], front.flatMap (Piece.source esc), _, reads, by rw [← hbuf]; rfl, rfl⟩

end Passhrs
