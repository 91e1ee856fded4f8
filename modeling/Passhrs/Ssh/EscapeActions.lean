import Passhrs.Ssh.EscapeSequences

/-!
# What the escape character does

* **`escapePump_sound`**: an action fires for an escape character at the start of a line and for
  nothing else, and until one fires, what has been read is what has been forwarded.
* **`recognised_iff`**: behind the carriage return of a raw terminal no escape sequence is seen.
* **`help_removed_iff`**, **`disconnect_keeps_iff`**: what goes into the channel around a sequence
  is right where there is none, and where a `~.` stands at the beginning of its read.
-/

namespace Passhrs

open Text

variable {esc : UInt8} {offset : Nat} {atLineStart : Bool} {reads : List Bytes}

/-! ## Soundness -/

/-- `op` is an action for the escape sequence behind `before`, which is whole in a read and at the
start of a line. -/
structure Fires (esc : UInt8) (reads : List Bytes) (log : EscapeLog) (before : Bytes)
    (action : UInt8) (op : EscapeOp) : Prop where
  inRead : ∃ earlier front after later,
    reads = earlier ++ (front ++ esc :: action :: after) :: later ∧
      before = earlier.flatten ++ front
  atLineStart : before = [] ∨ before.getLast? = some newline ∨
    ∃ earlier, before = earlier ++ [esc, 0x3f] ∧ (earlier.length, .stderr helpText) ∈ log
  action : action = 0x2e ∧ (op = .stdout "\r\n" ∨ op = .eof) ∨ action = 0x3f ∧ op = .stderr helpText
  ne_newline : esc ≠ newline

theorem exists_piece_of_mem {read : List Piece} {entry : Nat × EscapeOp}
    (h : entry ∈ actionsAt esc offset read) :
    ∃ front piece back, read = front ++ piece :: back ∧
      entry ∈ piece.actions (offset + (front.flatMap (Piece.source esc)).length) := by
  induction read generalizing offset with
  | nil => cases h
  | cons piece read ih =>
    rw [actionsAt, List.mem_append] at h
    rcases h with h | h
    · exact ⟨[], piece, read, rfl, h⟩
    · obtain ⟨front, piece', back, rfl, hentry⟩ := ih h
      refine ⟨piece :: front, piece', back, rfl, ?_⟩
      rwa [List.flatMap_cons, List.length_append, ← Nat.add_assoc]

theorem Piece.action_of_mem {piece : Piece} {entry : Nat × EscapeOp}
    (h : entry ∈ piece.actions offset) : entry.1 = offset ∧ ∃ action, piece.action = some action ∧
      (action = 0x2e ∧ (entry.2 = .stdout "\r\n" ∨ entry.2 = .eof) ∨
        action = 0x3f ∧ entry.2 = .stderr helpText) := by
  rcases piece with b | entered | rest
  · cases h
  · rw [List.mem_singleton.mp h]
    exact ⟨rfl, _, rfl, .inr ⟨rfl, rfl⟩⟩
  · rcases List.mem_pair.mp h with rfl | rfl
    · exact ⟨rfl, _, rfl, .inl ⟨rfl, .inl rfl⟩⟩
    · exact ⟨rfl, _, rfl, .inl ⟨rfl, .inr rfl⟩⟩

theorem help_mem_actionsAt (front back : List Piece) (entered : Bool) :
    ((front.flatMap (Piece.source esc)).length, EscapeOp.stderr helpText) ∈
      actionsAt esc 0 (front ++ .help entered :: back) := by
  rw [actionsAt_append, List.mem_append, Nat.zero_add]
  exact .inr List.mem_cons_self

theorem fires_of_mem (hreads : ∀ buf ∈ reads, buf ≠ []) {entry : Nat × EscapeOp}
    (hentry : entry ∈ escapePump (some esc) reads) (hop : ∀ bytes, entry.2 ≠ .data bytes) :
    ∃ before action, entry.1 = before.length ∧
      Fires esc reads (escapePump (some esc) reads) before action entry.2 := by
  -- the operation belongs to a piece, and the bytes of the piece are in one read
  obtain ⟨done, rest, rfl, hmem⟩ := mem_escapePump esc hreads
  obtain ⟨front, piece, back, hsession, hpiece⟩ := exists_piece_of_mem ((hmem entry hop).mp hentry)
  obtain ⟨hoffset, action, haction, hwhich⟩ := Piece.action_of_mem hpiece
  rw [Nat.zero_add] at hoffset
  obtain ⟨hesc, hstart⟩ := startLines_sessionPieces esc true done front piece back hsession
    (by rw [haction]; exact Option.some_ne_none action)
  obtain ⟨earlier, before, after, later, rfl, hbefore⟩ := exists_read_of_action hsession haction
  refine ⟨_, action, hoffset, ⟨earlier, before, after, later ++ rest, by simp, hbefore⟩, ?_,
    hwhich, hesc⟩
  rcases eq_nil_or_of_lineStartAfter esc hstart with rfl | hnewline | ⟨helped, rfl⟩
  · exact .inl rfl
  · exact .inr (.inl hnewline)
  · -- a line also starts behind a `~?`, which has printed the help text
    refine .inr (.inr ⟨helped.flatMap (Piece.source esc), by rw [List.flatMap_append]; rfl, ?_⟩)
    rw [hmem _ (fun bytes => EscapeOp.noConfusion), hsession, List.append_assoc]
    exact help_mem_actionsAt helped _ false

/-! ## Transparency -/

theorem run_none (offset : Nat) (atLineStart : Bool) (hreads : ∀ buf ∈ reads, buf ≠ []) :
    ∃ log, sentToChannel log = reads.flatten ∧ (∀ entry ∈ log, ∃ bytes, entry.2 = .data bytes) ∧
      ∀ more, EscapePump.run none ⟨offset, [], atLineStart⟩ (rounds (reads ++ more)) =
        log ++ EscapePump.run none ⟨offset + reads.flatten.length, [], atLineStart⟩
          (rounds more) := by
  induction reads generalizing offset with
  | nil => exact ⟨[], rfl, by simp, fun _ => rfl⟩
  | cons buf reads ih =>
    obtain ⟨log, hsent, hdata, hrun⟩ := ih (offset + buf.length)
      (fun buf hbuf => hreads buf (List.mem_cons_of_mem _ hbuf))
    have hscan : firstPass none offset atLineStart buf = ([], some (buf.length, atLineStart)) := rfl
    refine ⟨(offset, .data buf) :: log, ?_, ?_, fun more => ?_⟩
    · rw [List.flatten_cons, ← hsent]
      rfl
    · rintro entry (_ | ⟨_, hentry⟩)
      · exact ⟨buf, rfl⟩
      · exact hdata entry hentry
    · rw [List.cons_append, rounds, List.map_cons, EscapePump.run,
        step_of_firstPass (hreads buf List.mem_cons_self) hscan]
      dsimp only
      rw [← rounds, hrun more, List.flatten_cons, List.length_append, Nat.add_assoc]
      rfl

theorem stdout_mem_actionsAt (offset : Nat) {read : List Piece} {piece : Piece}
    (hpiece : piece ∈ read) (h : piece.isDisconnect = true) :
    ∃ place, (place, EscapeOp.stdout "\r\n") ∈ actionsAt esc offset read := by
  obtain ⟨front, back, rfl⟩ := List.append_of_mem hpiece
  rcases piece with b | entered | rest
  · cases h
  · cases h
  · refine ⟨offset + (front.flatMap (Piece.source esc)).length, ?_⟩
    rw [actionsAt_append, List.mem_append]
    exact .inr List.mem_cons_self

/-- What the pump does with the reads that are `done` does not depend on later ones, and nothing
of them is held back as long as there has been no action. -/
theorem escapePump_append_of_no_action {escapeChar : Option UInt8} {done : List Bytes}
    (hdone : ∀ buf ∈ done, buf ≠ []) (h : escapeActions (escapePump escapeChar done) = []) :
    sentToChannel (escapePump escapeChar done) = done.flatten ∧
      ∃ s : EscapePump, s.carry = [] ∧ s.offset = done.flatten.length ∧
        ∀ later, escapePump escapeChar (done ++ later) =
          escapePump escapeChar done ++ s.run escapeChar (rounds later) := by
  rcases escapeChar with _ | esc
  · obtain ⟨log, hsent, -, hrun⟩ := run_none 0 true hdone
    have heq : escapePump none done = log := escapePump_eq hrun
    rw [heq]
    exact ⟨hsent, _, rfl, Nat.zero_add _, hrun⟩
  · rcases stays_or esc true done with
      hstays | ⟨front, buf, back, rfl, hstays, piece, hpiece, hdisconnect⟩
    · obtain ⟨log, hlog, hrun⟩ := run_of_stays hdone hstays
      have heq : escapePump (some esc) done = log := escapePump_eq hrun
      rw [heq]
      exact ⟨hlog.sent, _, rfl, Nat.zero_add _, hrun⟩
    · -- a session that ends by itself has written to the user
      obtain ⟨log, -, hlog⟩ := escapePump_of_disconnect hdone hstays hpiece hdisconnect
      obtain ⟨offset, hmem⟩ := stdout_mem_actionsAt front.flatten.length hpiece hdisconnect
      have : (offset, EscapeOp.stdout "\r\n") ∈
          escapeActions (escapePump (some esc) (front ++ buf :: back)) := by
        rw [hlog]
        exact List.mem_filter.mpr ⟨List.mem_append_right _ hmem, rfl⟩
      rw [h] at this
      cases this

/-- The pump does something other than forwarding only for an escape sequence, and forwards what
it has read. -/
structure SeesOnlyEscapes (escapeChar : Option UInt8) (reads : List Bytes) : Prop where
  fires : ∀ entry ∈ escapePump escapeChar reads, (∃ bytes, entry.2 = .data bytes) ∨
    ∃ esc before action, escapeChar = some esc ∧ entry.1 = before.length ∧
      Fires esc reads (escapePump escapeChar reads) before action entry.2
  forwarded : ∀ done later, reads = done ++ later →
    escapeActions (escapePump escapeChar done) = [] →
    sentToChannel (escapePump escapeChar done) = done.flatten ∧
      ∃ s : EscapePump, s.carry = [] ∧ s.offset = done.flatten.length ∧
        escapePump escapeChar reads = escapePump escapeChar done ++ s.run escapeChar (rounds later)
  off : escapeChar = none → ∀ entry ∈ escapePump escapeChar reads, ∃ bytes, entry.2 = .data bytes

/-- **Escape sequences are seen only where they stand, and nothing else changes the input**: for
every escape setting and all reads, whatever the pump does besides forwarding is for an escape
sequence that is whole in a read, at the beginning of stdin, behind a newline or behind an earlier
`~?`; after reads without an action, exactly these have been forwarded and nothing is carried over,
whatever comes later; and without an escape character there is only data. -/
theorem escapePump_sound (escapeChar : Option UInt8) {reads : List Bytes}
    (hreads : ∀ buf ∈ reads, buf ≠ []) : SeesOnlyEscapes escapeChar reads := by
  have hnone : escapeChar = none → ∀ entry ∈ escapePump escapeChar reads,
      ∃ bytes, entry.2 = .data bytes := by
    rintro rfl
    obtain ⟨log, -, hdata, hrun⟩ := run_none 0 true hreads
    have heq : escapePump none reads = log := escapePump_eq hrun
    rwa [heq]
  refine ⟨fun entry hentry => ?_, ?_, hnone⟩
  · rcases escapeChar with _ | esc
    · exact .inl (hnone rfl entry hentry)
    · by_cases hdata : ∃ bytes, entry.2 = .data bytes
      · exact .inl hdata
      · obtain ⟨before, action, hoffset, hfires⟩ :=
          fires_of_mem hreads hentry (not_exists.mp hdata)
        exact .inr ⟨esc, before, action, rfl, hoffset, hfires⟩
  · rintro done later rfl h
    obtain ⟨hsent, s, hcarry, hoffset, hrun⟩ := escapePump_append_of_no_action
      (fun buf hbuf => hreads buf (List.mem_append_left _ hbuf)) h
    exact ⟨hsent, s, hcarry, hoffset, hrun later⟩

theorem sound_with_help : SeesOnlyEscapes (some 0x7e) [[0x6c, 0x73, 0x0a], [0x7e, 0x3f, 0x61]] :=
  escapePump_sound (some 0x7e) (by decide)

/-! ## The return key -/

def carriageReturn : UInt8 := 0x0d

/-- The session ends with a `~.` at this place of stdin. -/
def DisconnectsAt (log : EscapeLog) (offset : Nat) : Prop :=
  ∃ front, log = front ++ [(offset, .stdout "\r\n"), (offset, .eof)]

theorem lineStartAfter_of_newline {read : List Piece} (hstays : Stays read)
    (h : (read.flatMap (Piece.source esc)).getLast? = some newline) :
    lineStartAfter atLineStart read = true := by
  rcases List.eq_nil_or_concat' read with rfl | ⟨front, piece, rfl⟩
  · cases h
  · rw [lineStartAfter_append]
    rcases piece with b | entered | rest
    · rw [List.flatMap_append, List.getLast?_append] at h
      exact decide_eq_true (Option.some.inj h)
    · rfl
    · cases hstays _ (List.mem_append_right _ List.mem_cons_self)

theorem lineStart_of_history {history : List Bytes}
    (hstays : Stays (sessionPieces esc true history))
    (h : history.flatten.getLast? = some newline) :
    lineStartAfter true (sessionPieces esc true history) = true := by
  have hlast : ((sessionPieces esc true history).flatMap (Piece.source esc)).getLast? =
      some newline := by rwa [sessionPieces_source]
  exact lineStartAfter_of_newline hstays hlast

theorem pieces_disconnect (hesc : esc ≠ newline) (rest : Bytes) :
    pieces esc true (esc :: 0x2e :: rest) = [.disconnect rest] := by
  unfold pieces
  exact if_pos ⟨rfl, rfl, hesc, rfl⟩

theorem pieces_help (hesc : esc ≠ newline) (rest : Bytes) :
    ∃ entered more, pieces esc true (esc :: 0x3f :: rest) = .help entered :: more := by
  rcases rest with _ | ⟨c, rest⟩
  · exact ⟨false, [], by simp [pieces, hesc]⟩
  · by_cases hc : c = newline
    · exact ⟨true, pieces esc true rest, by simp [pieces, hesc, hc]⟩
    · exact ⟨false, pieces esc true (c :: rest), by simp [pieces, hesc, hc]⟩

/-- An action at some place of stdin is for a sequence behind what is in front of this place. -/
theorem Fires.of_append {history later : List Bytes} {log : EscapeLog} {before : Bytes}
    {action : UInt8} {op : EscapeOp} (h : Fires esc (history ++ later) log before action op)
    (hlength : history.flatten.length = before.length) : before = history.flatten := by
  obtain ⟨earlier, front, after, rest, hreads, rfl⟩ := h.inRead
  have hflatten := congrArg List.flatten hreads
  rw [List.flatten_append, List.flatten_append, List.flatten_cons, List.append_assoc front,
    ← List.append_assoc earlier.flatten] at hflatten
  exact (List.append_inj_left hflatten hlength).symm

theorem ends_newline_of_fires {history later : List Bytes} {log : EscapeLog} {before : Bytes}
    {action : UInt8} {op : EscapeOp} (h : Fires esc (history ++ later) log before action op)
    (hlength : history.flatten.length = before.length)
    (hend : history.flatten.getLast? = some newline ∨
      history.flatten.getLast? = some carriageReturn) :
    esc ≠ newline ∧ history.flatten.getLast? = some newline := by
  obtain rfl := h.of_append hlength
  refine ⟨h.ne_newline, ?_⟩
  rcases h.atLineStart with hnil | hnewline | ⟨earlier, hhelp, -⟩
  · rw [hnil] at hend
    rcases hend with hend | hend <;> cases hend
  · exact hnewline
  · rw [hhelp, List.getLast?_append] at hend
    rcases hend with hend | hend <;> cases hend

/-- **Behind a carriage return nothing is recognised**: when what has been read ends in a newline
or in a carriage return, a next read that begins with `~.` disconnects at this place, and one that
begins with `~?` prints the help text for it, if and only if it is a newline and the escape
character is another. -/
theorem recognised_iff (esc : UInt8) (history : List Bytes)
    (hstays : Stays (sessionPieces esc true history))
    (hend : history.flatten.getLast? = some newline ∨
      history.flatten.getLast? = some carriageReturn)
    (rest : Bytes) {later : List Bytes} (hreads : ∀ buf ∈ history ++ later, buf ≠ []) :
    (DisconnectsAt (escapePump (some esc) (history ++ (esc :: 0x2e :: rest) :: later))
        history.flatten.length ↔
      esc ≠ newline ∧ history.flatten.getLast? = some newline) ∧
    ((history.flatten.length, .stderr helpText) ∈
        escapePump (some esc) (history ++ (esc :: 0x3f :: rest) :: later) ↔
      esc ≠ newline ∧ history.flatten.getLast? = some newline) := by
  have hnext : ∀ action, ∀ buf ∈ history ++ (esc :: action :: rest) :: later, buf ≠ [] := by
    intro action buf hbuf
    rcases List.mem_append.mp hbuf with hbuf | hbuf
    · exact hreads buf (List.mem_append_left _ hbuf)
    · rcases List.mem_cons.mp hbuf with rfl | hbuf
      · exact List.cons_ne_nil _ _
      · exact hreads buf (List.mem_append_right _ hbuf)
  -- whatever happens at this place is for the bytes that stand there, by soundness
  have hfires : ∀ action op, (∀ bytes, op ≠ EscapeOp.data bytes) → (history.flatten.length, op) ∈
      escapePump (some esc) (history ++ (esc :: action :: rest) :: later) →
        esc ≠ newline ∧ history.flatten.getLast? = some newline := by
    intro action op hop hmem
    obtain ⟨before, action', hlength, h⟩ := fires_of_mem (hnext action) hmem hop
    exact ends_newline_of_fires h hlength hend
  refine ⟨⟨?_, ?_⟩, ⟨hfires _ _ fun bytes => EscapeOp.noConfusion, ?_⟩⟩
  · rintro ⟨front, hlog⟩
    refine hfires 0x2e .eof (fun bytes => EscapeOp.noConfusion) ?_
    rw [hlog]
    exact List.mem_append_right _ (List.mem_cons_of_mem _ List.mem_cons_self)
  · rintro ⟨hesc, hnewline⟩
    have hpieces := pieces_disconnect hesc rest
    rw [← lineStart_of_history hstays hnewline] at hpieces
    obtain ⟨log, -, hrun⟩ := escapePump_of_disconnect (hnext 0x2e) hstays
      (by rw [hpieces]; exact List.mem_cons_self) rfl
    exact ⟨log, by rw [hrun, hpieces]; rfl⟩
  · rintro ⟨hesc, hnewline⟩
    have hhistory : ∀ buf ∈ history, buf ≠ [] :=
      fun buf hbuf => hreads buf (List.mem_append_left _ hbuf)
    obtain ⟨log, -, hrun⟩ := escapePump_append_of_stays hhistory hstays
    rw [hrun, lineStart_of_history hstays hnewline]
    refine List.mem_append_right _ (mem_run_of_mem_firstPass (List.cons_ne_nil _ _) ?_ _)
    obtain ⟨entered, more, hpieces⟩ := pieces_help hesc rest
    show _ ∈ (scan _ _ _ _ _ _).1
    rw [scan_eq, List.nil_append, hpieces]
    exact List.mem_cons_self

/-- `ls`, the return key of a raw terminal, and what is typed at the next prompt. -/
theorem not_recognised_behind_return :
    Stays (sessionPieces 0x7e true [[0x6c, 0x73, 0x0d]]) ∧
      escapePump (some 0x7e) [[0x6c, 0x73, 0x0d], [0x7e, 0x2e]] =
        [(0, .data [0x6c, 0x73, 0x0d]), (3, .data [0x7e, 0x2e])] ∧
      escapePump (some 0x7e) [[0x6c, 0x73, 0x0d], [0x7e, 0x3f]] =
        [(0, .data [0x6c, 0x73, 0x0d]), (3, .data [0x7e, 0x3f])] := by
  decide

theorem recognised_behind_newline :
    (DisconnectsAt (escapePump (some 0x7e) ([[0x6c, 0x73, 0x0a]] ++ [0x7e, 0x2e] :: [])) 3 ↔
      (0x7e : UInt8) ≠ newline ∧ [0x6c, 0x73, 0x0a].getLast? = some newline) ∧
    ((3, .stderr helpText) ∈ escapePump (some 0x7e) ([[0x6c, 0x73, 0x0a]] ++ [0x7e, 0x3f] :: []) ↔
      (0x7e : UInt8) ≠ newline ∧ [0x6c, 0x73, 0x0a].getLast? = some newline) :=
  recognised_iff 0x7e [[0x6c, 0x73, 0x0a]] (by decide) (.inl rfl) [] (by decide)

/-! ## What goes into the channel -/

/-- The input without the help sequences goes into the channel, and the help text is printed once
for each of these. -/
structure HelpRemoved (esc : UInt8) (reads : List Bytes) : Prop where
  forwarded : sentToChannel (escapePump (some esc) reads) =
    (sessionPieces esc true reads).flatMap Piece.kept
  printed : escapeActions (escapePump (some esc) reads) =
    actionsAt esc 0 (sessionPieces esc true reads)

theorem Piece.kept_length_le (esc : UInt8) (piece : Piece) :
    piece.kept.length ≤ (piece.source esc).length := by
  rcases piece with b | entered | rest
  · exact Nat.le_refl _
  · exact Nat.zero_le _
  · exact Nat.zero_le _

theorem kept_length_le (esc : UInt8) (read : List Piece) :
    (read.flatMap Piece.kept).length ≤ (read.flatMap (Piece.source esc)).length := by
  induction read with
  | nil => exact Nat.le_refl _
  | cons piece read ih =>
    rw [List.flatMap_cons, List.flatMap_cons, List.length_append, List.length_append]
    exact Nat.add_le_add (piece.kept_length_le esc) ih

/-- All is kept of what has neither a `~?` nor a `~.`. -/
theorem source_eq_kept_iff {read : List Piece} (h : Stays read) :
    read.flatMap (Piece.source esc) = read.flatMap Piece.kept ↔
      ∀ piece ∈ read, piece.isHelp = false := by
  induction read with
  | nil => simp
  | cons piece read ih =>
    have ih := ih fun piece hpiece => h piece (List.mem_cons_of_mem _ hpiece)
    rw [List.forall_mem_cons, ← ih, List.flatMap_cons, List.flatMap_cons]
    rcases piece with b | entered | rest
    · simp [Piece.source, Piece.kept, Piece.isHelp]
    · -- a help sequence has bytes of which nothing is kept
      refine iff_of_false (fun heq => ?_) (fun hhelp => Bool.noConfusion hhelp.1)
      have hlength := congrArg List.length heq
      rw [List.length_append, List.length_append] at hlength
      have := kept_length_le esc read
      have : 0 < ((Piece.help entered).source esc).length := by
        cases entered <;> exact Nat.succ_pos _
      have : (Piece.help entered).kept.length = 0 := rfl
      omega
    · cases h _ List.mem_cons_self

/-- **Nothing of a help sequence is removed**: for reads without a `~.`, the input without its help
sequences is what goes into the channel if and only if it has no help sequence. -/
theorem help_removed_iff (hreads : ∀ buf ∈ reads, buf ≠ [])
    (hstays : Stays (sessionPieces esc true reads)) :
    HelpRemoved esc reads ↔ ∀ piece ∈ sessionPieces esc true reads, piece.isHelp = false := by
  have hlog := escapePump_of_stays hreads hstays
  rw [← source_eq_kept_iff hstays, sessionPieces_source, ← hlog.sent]
  exact ⟨fun h => h.forwarded, fun h => ⟨h, hlog.actions⟩⟩

/-- `~?` and the return key. -/
theorem help_not_removed :
    sessionPieces 0x7e true [[0x7e, 0x3f, 0x0a]] = [.help true] ∧
      sentToChannel (escapePump (some 0x7e) [[0x7e, 0x3f, 0x0a]]) = [0x7e, 0x3f, 0x0a] ∧
      ¬ HelpRemoved 0x7e [[0x7e, 0x3f, 0x0a]] :=
  ⟨by decide, by decide, fun h => absurd h.forwarded (by decide)⟩

theorem help_removed_from_plain :
    HelpRemoved 0x7e [[0x6c, 0x73, 0x0a]] ↔
      ∀ piece ∈ sessionPieces 0x7e true [[0x6c, 0x73, 0x0a]], piece.isHelp = false :=
  help_removed_iff (by decide) (by decide)

/-- What goes into the channel before EOF is `input`, and nothing goes into it afterwards. -/
structure EofAfter (log : EscapeLog) (input : Bytes) : Prop where
  eof : ∃ offset, (offset, .eof) ∈ log
  before : sentToChannel (log.takeWhile fun entry => entry.2 ≠ .eof) = input
  after : sentToChannel (log.dropWhile fun entry => entry.2 ≠ .eof) = []

theorem eofAfter_iff {log : EscapeLog} (h : ∀ entry ∈ log, entry.2 ≠ .eof) (input : Bytes) :
    EofAfter (log ++ [(offset, .stdout "\r\n"), (offset, .eof)]) input ↔
      sentToChannel log = input := by
  have hopen : ∀ entry ∈ log ++ [(offset, EscapeOp.stdout "\r\n")],
      decide (entry.2 ≠ .eof) = true := by
    intro entry hentry
    rcases List.mem_append.mp hentry with hentry | hentry
    · exact decide_eq_true (h entry hentry)
    · rw [List.mem_singleton.mp hentry]
      rfl
  have hlog : log ++ [(offset, EscapeOp.stdout "\r\n"), (offset, .eof)] =
      (log ++ [(offset, .stdout "\r\n")]) ++ [(offset, .eof)] := by simp
  have hbefore : sentToChannel ((log ++ [(offset, EscapeOp.stdout "\r\n"),
      (offset, .eof)]).takeWhile fun entry => entry.2 ≠ .eof) = sentToChannel log := by
    rw [hlog, List.takeWhile_append_of_pos hopen]
    simp [sentToChannel, EscapeOp.dataBytes]
  refine ⟨fun heof => hbefore.symm.trans heof.before, fun hsent => ⟨⟨offset, by simp⟩, ?_, ?_⟩⟩
  · exact hbefore.trans hsent
  · rw [hlog, List.dropWhile_append_of_pos hopen]
    rfl

/-- Without a help sequence a read is plain, or plain up to its `~.`. -/
theorem pieces_of_no_help {buf : Bytes}
    (h : ∀ piece ∈ pieces esc atLineStart buf, piece.isHelp = false) :
    ∃ before : Bytes, pieces esc atLineStart buf = before.map Piece.plain ∨
      ∃ after, pieces esc atLineStart buf = before.map Piece.plain ++ [.disconnect after] := by
  fun_induction pieces esc atLineStart buf with
  | case1 => exact ⟨[], .inl rfl⟩
  | case2 atLineStart b => exact ⟨[b], .inl rfl⟩
  | case3 atLineStart b action rest => exact ⟨[], .inr ⟨rest, rfl⟩⟩
  | case4 => exact absurd (h _ List.mem_cons_self) Bool.noConfusion
  | case5 => exact absurd (h _ List.mem_cons_self) Bool.noConfusion
  | case6 => exact absurd (h _ List.mem_cons_self) Bool.noConfusion
  | case7 atLineStart b action rest _ _ ih =>
    rcases ih fun piece hpiece => h piece (List.mem_cons_of_mem _ hpiece) with
      ⟨before, hplain | ⟨after, hdisconnect⟩⟩
    · exact ⟨b :: before, .inl (by rw [hplain]; rfl)⟩
    · exact ⟨b :: before, .inr ⟨after, by rw [hdisconnect]; rfl⟩⟩

theorem eq_map_plain (esc : UInt8) {read : List Piece} (hstays : Stays read)
    (h : ∀ piece ∈ read, piece.isHelp = false) :
    read = (read.flatMap (Piece.source esc)).map Piece.plain := by
  induction read with
  | nil => rfl
  | cons piece read ih =>
    rw [List.flatMap_cons, List.map_append, ← ih
      (fun piece hpiece => hstays piece (List.mem_cons_of_mem _ hpiece))
      (fun piece hpiece => h piece (List.mem_cons_of_mem _ hpiece))]
    rcases piece with b | entered | rest
    · rfl
    · cases h _ List.mem_cons_self
    · cases hstays _ List.mem_cons_self

theorem actionsAt_map_plain (offset : Nat) (before : Bytes) (more : List Piece) :
    actionsAt esc offset (before.map Piece.plain ++ more) =
      actionsAt esc (offset + before.length) more := by
  induction before generalizing offset with
  | nil => rfl
  | cons b before ih =>
    rw [List.map_cons, List.cons_append, actionsAt, ih, List.length_cons, Nat.add_comm _ 1,
      Nat.add_assoc]
    rfl

/-- A read that begins at some place of stdin begins with what follows there. -/
theorem eq_nil_of_flatten_eq {front back front' back' : List Bytes} {before after : Bytes}
    (h : front ++ (before ++ after) :: back = front' ++ after :: back') (hafter : after ≠ [])
    (hflatten : front'.flatten = front.flatten ++ before) : before = [] := by
  have hlength := congrArg List.length hflatten
  rw [List.length_append] at hlength
  have hpos := List.length_pos_iff.mpr hafter
  rw [← List.length_eq_zero_iff]
  -- the first read is the same one, an earlier one or a later one
  rcases List.append_eq_append_iff.mp h with ⟨more, rfl, hmore⟩ | ⟨more, rfl, -⟩
  · rcases more with _ | ⟨buf, more⟩
    · have := congrArg List.length (List.cons.inj hmore).1
      rw [List.length_append] at this
      omega
    · rw [← (List.cons.inj hmore).1, List.flatten_append, List.flatten_cons] at hlength
      simp only [List.length_append] at hlength
      omega
  · rw [List.flatten_append, List.length_append] at hlength
    omega

/-- The first `~.` of a session without help sequences, and the read that it stands in. -/
theorem exists_disconnect (hhelp : ∀ piece ∈ sessionPieces esc true reads, piece.isHelp = false)
    (hdisconnect : ¬ Stays (sessionPieces esc true reads)) :
    ∃ front before after back, reads = front ++ (before ++ esc :: 0x2e :: after) :: back ∧
      sessionPieces esc true front = front.flatten.map Piece.plain ∧
      pieces esc (lineStartAfter true (sessionPieces esc true front))
        (before ++ esc :: 0x2e :: after) = before.map Piece.plain ++ [.disconnect after] := by
  rcases stays_or esc true reads with
    hstays | ⟨front, buf, back, rfl, hstays, piece, hpiece, hisDisconnect⟩
  · exact absurd hstays hdisconnect
  rw [sessionPieces_append, sessionPieces] at hhelp
  have hfront := eq_map_plain esc hstays fun piece hpiece =>
    hhelp piece (List.mem_append_left _ hpiece)
  obtain ⟨before, hplain | ⟨after, hread⟩⟩ := pieces_of_no_help fun piece hpiece =>
    hhelp piece (List.mem_append_right _ (List.mem_append_left _ hpiece))
  · rw [hplain] at hpiece
    obtain ⟨b, -, rfl⟩ := List.mem_map.mp hpiece
    cases hisDisconnect
  -- the pieces give the buffer back, and it ends the plain bytes with the escape
  · have hbuf := flatMap_source esc (lineStartAfter true (sessionPieces esc true front)) buf
    have hsource : (before.map Piece.plain).flatMap (Piece.source esc) = before := by
      simp [List.flatMap_map, Piece.source]
    rw [hread, List.flatMap_append, hsource] at hbuf
    obtain rfl : buf = before ++ esc :: 0x2e :: after :=
      hbuf.symm.trans (congrArg (before ++ ·) (List.append_nil _))
    exact ⟨front, before, after, back, rfl, by rwa [sessionPieces_source] at hfront, hread⟩

/-- **A `~.` discards what stands before it in its read**: for reads without a help sequence of
which one has a `~.` at the start of a line, the input before this `~.` is what goes into the
channel before EOF if and only if it is at the beginning of its read. -/
theorem disconnect_keeps_iff (hreads : ∀ buf ∈ reads, buf ≠ [])
    (hhelp : ∀ piece ∈ sessionPieces esc true reads, piece.isHelp = false)
    (hdisconnect : ¬ Stays (sessionPieces esc true reads)) :
    ∃ before after later,
      sessionPieces esc true reads = before.map Piece.plain ++ .disconnect after :: later ∧
      (EofAfter (escapePump (some esc) reads) before ↔
        ∃ front back, reads = front ++ (esc :: 0x2e :: after) :: back ∧
          front.flatten = before) := by
  obtain ⟨front, before, after, back, rfl, hfront, hread⟩ := exists_disconnect hhelp hdisconnect
  have hstays : Stays (sessionPieces esc true front) := by
    rw [hfront]
    exact List.forall_mem_map.mpr fun _ _ => rfl
  obtain ⟨log, hlog, hrun⟩ := escapePump_of_disconnect hreads hstays
    (by rw [hread]; exact List.mem_append_right _ List.mem_cons_self) rfl
  refine ⟨front.flatten ++ before, after, sessionPieces esc false back, ?_, ?_⟩
  · rw [sessionPieces_append, sessionPieces, hread, hfront, lineStartAfter_append, List.map_append,
      List.append_assoc, List.append_assoc]
    rfl
  -- only the earlier reads have been sent, so `before` has to be empty
  rw [hrun, hread, actionsAt_map_plain]
  refine (eofAfter_iff hlog.eof_not_mem _).trans ?_
  rw [hlog.sent]
  constructor
  · intro hnil
    obtain rfl : before = [] := by simpa using hnil
    exact ⟨front, back, rfl, (List.append_nil _).symm⟩
  · rintro ⟨front', back', hreads', hflatten⟩
    obtain rfl := eq_nil_of_flatten_eq hreads' (List.cons_ne_nil _ _) hflatten
    exact (List.append_nil _).symm

/-- `ls` and `~.` on the next line, in one read. -/
theorem disconnect_loses_command :
    sessionPieces 0x7e true [[0x6c, 0x73, 0x0a, 0x7e, 0x2e]] =
        [0x6c, 0x73, 0x0a].map Piece.plain ++ .disconnect [] :: [] ∧
      sentToChannel (escapePump (some 0x7e) [[0x6c, 0x73, 0x0a, 0x7e, 0x2e]]) = [] ∧
      ¬ EofAfter (escapePump (some 0x7e) [[0x6c, 0x73, 0x0a, 0x7e, 0x2e]]) [0x6c, 0x73, 0x0a] :=
  ⟨by decide, by decide, fun h => absurd h.before (by decide)⟩

theorem disconnect_keeps_earlier_read :
    ∃ before after later,
      sessionPieces 0x7e true [[0x6c, 0x73, 0x0a], [0x7e, 0x2e]] =
        before.map Piece.plain ++ .disconnect after :: later ∧
      (EofAfter (escapePump (some 0x7e) [[0x6c, 0x73, 0x0a], [0x7e, 0x2e]]) before ↔
        ∃ front back, [[0x6c, 0x73, 0x0a], [0x7e, 0x2e]] =
          front ++ (0x7e :: 0x2e :: after) :: back ∧ front.flatten = before) :=
  disconnect_keeps_iff (by decide) (by decide) (by decide)

end Passhrs
