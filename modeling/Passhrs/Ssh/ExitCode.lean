import Mathlib.Data.List.TakeWhile
import Passhrs.Lib.Machine
import Passhrs.Ssh.Channel

/-!
# The exit code of a session

`run_session` is three tasks: russh's connection task, the reader, and the main one, which selects
between the reader's oneshot and the reader's end and then looks into the map that
`Handler::exit_status` fills. Each event is one atomic step of one of them, and a schedule is a
list of events.

* **`runSession_length_le`**, **`returned_of_stuck`**: every schedule ends, and ends with a result.
* **`runSession_returns_iff`**: it is the server's status exactly when the callback was in time, or
  the oneshot was selected and the status came before CLOSE, or the status is 0.
-/

namespace Passhrs

open ChannelMsg

/-! ## The three tasks -/

/-- The main task: in its `select!`, past it, or returned. -/
inductive MainTask where
  | selecting
  | chose (code : Int32)
  | returned (code : Int32)
deriving DecidableEq

structure Session where
  /-- What the server sent and the connection task has not handled. -/
  packets : List ChannelMsg
  /-- The status that `Handler::exit_status` is about to insert. -/
  recording : Option UInt32
  /-- The connection task holds the channel's mpsc sender. -/
  alive : Bool
  mpsc : List ChannelMsg
  reader : Reader
  /-- What the reader sent on the oneshot. -/
  oneshot : Option Int32
  readerDone : Bool
  /-- The entry of this channel in the shared map. -/
  exitStatuses : Option UInt32
  main : MainTask
deriving DecidableEq

def Session.start (packets : List ChannelMsg) : Session :=
  ⟨packets, none, true, [], .start, none, false, none, .selecting⟩

/-- `packet` and `record` are steps of the connection task, `receive`, `sendCode` and `finish` of
the reader, the others of the main task. -/
inductive SessionEvent where
  | packet
  | record
  | receive
  | sendCode
  | finish
  | selectCode
  | selectReader
  | lookup
deriving DecidableEq

/-- What the connection task sends to the mpsc for a packet. Whether CLOSE is sent, before the
sender is dropped, is russh's choice. -/
def forwarded (closeMsg : Bool) (m : ChannelMsg) : List ChannelMsg :=
  if m = .close ∧ closeMsg = false then [] else [m]

/-- A send does not wait: there is room, or nobody receives. -/
def Session.HasRoom (capacity : Nat) (s : Session) : Prop :=
  s.mpsc.length < capacity ∨ s.readerDone = true

instance (capacity : Nat) (s : Session) : Decidable (s.HasRoom capacity) :=
  inferInstanceAs (Decidable (_ ∨ _))

/-- `final_code`: the captured status wins over the selected code. -/
def finalCode (captured : Option UInt32) (code : Int32) : Int32 :=
  match captured with
  | some c => if c.toInt32 ≠ code then c.toInt32 else c.toInt32
  | none => code

/-- One step of one task, if the task can make it. -/
def Session.step (capacity : Nat) (closeMsg : Bool) (s : Session) : SessionEvent → Option Session
  | .packet =>
    match s.recording, s.packets with
    | none, m :: packets =>
      -- after CLOSE the channel is unknown: nothing is sent, but the callback still fires
      let sent := if s.alive then forwarded closeMsg m else []
      if sent = [] ∨ s.HasRoom capacity then
        some { s with
          packets := packets
          mpsc := s.mpsc ++ sent
          alive := s.alive && m ≠ .close
          recording := m.status }
      else none
    | _, _ => none
  | .record =>
    match s.recording with
    | some status => some { s with recording := none, exitStatuses := some status }
    | none => none
  | .receive =>
    if s.reader.phase = .exited then none
    else
      match s.mpsc with
      | m :: mpsc => some { s with mpsc := mpsc, reader := s.reader.receive (some m) }
      -- `wait` returns `None` once the sender is gone
      | [] => if s.alive then none else some { s with reader := s.reader.receive none }
  | .sendCode =>
    if s.reader.phase = .exited ∧ s.oneshot = none then
      some { s with oneshot := some s.reader.code }
    else none
  | .finish =>
    if s.oneshot ≠ none ∧ s.readerDone = false then some { s with readerDone := true } else none
  | .selectCode =>
    match s.main, s.oneshot with
    | .selecting, some code => some { s with main := .chose code }
    | _, _ => none
  | .selectReader =>
    -- `_ = reader => 0`, also when the oneshot holds a code
    if s.main = .selecting ∧ s.readerDone = true then some { s with main := .chose 0 } else none
  | .lookup =>
    match s.main with
    | .chose code =>
      some { s with exitStatuses := none, main := .returned (finalCode s.exitStatuses code) }
    | _ => none

/-- A run of `run_session` over a schedule. -/
abbrev runSession (capacity : Nat) (closeMsg : Bool) (packets : List ChannelMsg)
    (events : List SessionEvent) : Option Session :=
  Machine.run (Session.step capacity closeMsg) (.start packets) events

/-! ## One step -/

section Step

variable {capacity : Nat} {closeMsg : Bool} {s s' : Session}

theorem step_packet : s.step capacity closeMsg .packet = some s' ↔
    s.recording = none ∧ ∃ m packets, s.packets = m :: packets ∧
      ((if s.alive then forwarded closeMsg m else []) = [] ∨ s.HasRoom capacity) ∧
      s' = { s with
        packets := packets
        mpsc := s.mpsc ++ if s.alive then forwarded closeMsg m else []
        alive := s.alive && m ≠ .close
        recording := m.status } := by
  unfold Session.step
  rcases s.recording with _ | status
  · rcases s.packets with _ | ⟨m, packets⟩
    · simp
    · simp [@eq_comm _ _ s']
  · simp

theorem step_record : s.step capacity closeMsg .record = some s' ↔
    ∃ status, s.recording = some status ∧
      s' = { s with recording := none, exitStatuses := some status } := by
  unfold Session.step
  rcases s.recording with _ | status
  · simp
  · simp [@eq_comm _ _ s']

theorem step_receive : s.step capacity closeMsg .receive = some s' ↔
    s.reader.phase ≠ .exited ∧
      ((∃ m mpsc, s.mpsc = m :: mpsc ∧
          s' = { s with mpsc := mpsc, reader := s.reader.receive (some m) }) ∨
        s.mpsc = [] ∧ s.alive = false ∧ s' = { s with reader := s.reader.receive none }) := by
  unfold Session.step
  by_cases hphase : s.reader.phase = .exited
  · simp [hphase]
  · rcases s.mpsc with _ | ⟨m, mpsc⟩
    · simp [hphase, @eq_comm _ _ s']
    · simp [hphase, @eq_comm _ _ s']

theorem step_sendCode : s.step capacity closeMsg .sendCode = some s' ↔
    s.reader.phase = .exited ∧ s.oneshot = none ∧
      s' = { s with oneshot := some s.reader.code } := by
  unfold Session.step
  simp [and_assoc, @eq_comm _ _ s']

theorem step_finish : s.step capacity closeMsg .finish = some s' ↔
    s.oneshot ≠ none ∧ s.readerDone = false ∧ s' = { s with readerDone := true } := by
  unfold Session.step
  simp [and_assoc, @eq_comm _ _ s']

theorem step_selectCode : s.step capacity closeMsg .selectCode = some s' ↔
    s.main = .selecting ∧ ∃ code, s.oneshot = some code ∧ s' = { s with main := .chose code } := by
  unfold Session.step
  rcases s.main with _ | _ | _
  · rcases s.oneshot with _ | code
    · simp
    · simp [@eq_comm _ _ s']
  · simp
  · simp

theorem step_selectReader : s.step capacity closeMsg .selectReader = some s' ↔
    s.main = .selecting ∧ s.readerDone = true ∧ s' = { s with main := .chose 0 } := by
  unfold Session.step
  simp [and_assoc, @eq_comm _ _ s']

theorem step_lookup : s.step capacity closeMsg .lookup = some s' ↔
    ∃ code, s.main = .chose code ∧ s' = { s with
      exitStatuses := none
      main := .returned (finalCode s.exitStatuses code) } := by
  unfold Session.step
  rcases s.main with _ | code | _
  · simp
  · simp [@eq_comm _ _ s']
  · simp

end Step

/-! ## Every schedule ends -/

/-- Bounds the steps that are left. A packet is handled, queued and recorded. -/
def Session.work (s : Session) : ℕ :=
  3 * s.packets.length + s.recording.toList.length + s.mpsc.length
    + (if s.reader.phase = .exited then 0 else 1) + (if s.oneshot = none then 1 else 0)
    + (if s.readerDone then 0 else 1)
    + match s.main with | .selecting => 2 | .chose _ => 1 | .returned _ => 0

theorem length_forwarded_le (closeMsg : Bool) (m : ChannelMsg) :
    (forwarded closeMsg m).length ≤ 1 := by
  unfold forwarded
  split <;> simp

theorem length_status_le (m : ChannelMsg) : m.status.toList.length ≤ 1 := by
  rcases m.status with _ | _ <;> simp

theorem work_step (capacity : Nat) (closeMsg : Bool) (s : Session) (e : SessionEvent)
    (s' : Session) (h : s.step capacity closeMsg e = some s') : s'.work < s.work := by
  cases e with
  | packet =>
    obtain ⟨hrec, m, packets, hpackets, -, rfl⟩ := step_packet.mp h
    have hsent : (if s.alive then forwarded closeMsg m else []).length ≤ 1 := by
      split
      · exact length_forwarded_le closeMsg m
      · simp
    have hstatus := length_status_le m
    -- one packet less, at most one message and one status more
    simp only [Session.work, hpackets, hrec, List.length_cons, List.length_append,
      Option.toList_none, List.length_nil]
    omega
  | record =>
    obtain ⟨status, hrec, rfl⟩ := step_record.mp h
    simp only [Session.work, hrec, Option.toList_none, Option.toList_some, List.length_nil,
      List.length_singleton]
    omega
  | receive =>
    obtain ⟨hphase, ⟨m, mpsc, hmpsc, rfl⟩ | ⟨-, -, rfl⟩⟩ := step_receive.mp h
    · simp only [Session.work, hmpsc, if_neg hphase, List.length_cons]
      split <;> omega
    · simp only [Session.work, if_neg hphase, if_pos s.reader.receive_none.1]
      omega
  | sendCode =>
    obtain ⟨-, hnone, rfl⟩ := step_sendCode.mp h
    simp [Session.work, hnone]
  | finish =>
    obtain ⟨-, hdone, rfl⟩ := step_finish.mp h
    simp [Session.work, hdone]
  | selectCode =>
    obtain ⟨hmain, code, -, rfl⟩ := step_selectCode.mp h
    simp [Session.work, hmain]
  | selectReader =>
    obtain ⟨hmain, -, rfl⟩ := step_selectReader.mp h
    simp [Session.work, hmain]
  | lookup =>
    obtain ⟨code, hmain, rfl⟩ := step_lookup.mp h
    simp [Session.work, hmain]

/-- **No schedule is longer than this.** -/
theorem runSession_length_le {capacity : Nat} {closeMsg : Bool} {packets : List ChannelMsg}
    {events : List SessionEvent} {s : Session}
    (hrun : runSession capacity closeMsg packets events = some s) :
    events.length ≤ 3 * packets.length + 5 := by
  have hle := Machine.run_length_le (work_step capacity closeMsg) hrun
  have hstart : (Session.start packets).work = 3 * packets.length + 5 := rfl
  omega

/-! ## What reaches the reader -/

/-- What comes before CLOSE. -/
def beforeClose (packets : List ChannelMsg) : List ChannelMsg := packets.takeWhile (· ≠ .close)

/-- All that the connection task sends to the mpsc while it holds the sender. -/
def queued (closeMsg : Bool) (packets : List ChannelMsg) : List ChannelMsg :=
  beforeClose packets ++ forwarded closeMsg .close

theorem queued_cons (closeMsg : Bool) (m : ChannelMsg) (packets : List ChannelMsg) :
    queued closeMsg (m :: packets)
      = forwarded closeMsg m ++ if m = .close then [] else queued closeMsg packets := by
  by_cases hm : m = .close
  · simp [queued, beforeClose, hm]
  · simp [queued, beforeClose, hm, forwarded]

theorem status_mem_queued (closeMsg : Bool) {packets : List ChannelMsg} {c : UInt32} :
    .exitStatus c ∈ queued closeMsg packets ↔ .exitStatus c ∈ beforeClose packets := by
  have hclose : .exitStatus c ∉ forwarded closeMsg .close := by
    unfold forwarded
    split <;> simp
  simp [queued, hclose]

theorem status_of_mem_queued {closeMsg : Bool} {packets : List ChannelMsg} {c : UInt32}
    (honly : ∀ m ∈ packets, ∀ x, m.status = some x → x = c) :
    ∀ m ∈ queued closeMsg packets, ∀ x, m.status = some x → x = c := by
  intro m hm x hx
  rcases List.mem_append.mp hm with hm | hm
  · exact honly m ((List.takeWhile_prefix _).subset hm) x hx
  · have hclose : m = .close := by
      unfold forwarded at hm
      split at hm
      · cases hm
      · exact List.mem_singleton.mp hm
    rw [hclose] at hx
    cases hx

/-! ## Invariants -/

/-- `seen` is what the reader has received. -/
structure Seen (closeMsg : Bool) (packets : List ChannelMsg) (c : UInt32) (s : Session)
    (seen : List ChannelMsg) : Prop where
  /-- Received, queued and yet to be sent: nothing is lost, and nothing overtakes. -/
  all : seen ++ s.mpsc ++ (if s.alive then queued closeMsg s.packets else [])
    = queued closeMsg packets
  code : s.reader.code = if .exitStatus c ∈ seen then c.toInt32 else 0
  exited : s.reader.phase = .exited → .exitStatus c ∈ seen ∨ s.mpsc = [] ∧ s.alive = false

/-- The connection task and the reader. -/
structure ReaderInv (closeMsg : Bool) (packets : List ChannelMsg) (c : UInt32) (s : Session) :
    Prop where
  rest : s.packets <:+ packets
  closes : s.alive = true → .close ∈ s.packets
  seen : ∃ seen, Seen closeMsg packets c s seen
  oneshot : ∀ code, s.oneshot = some code → s.reader.phase = .exited ∧ code = s.reader.code
  done : s.readerDone = true → s.oneshot ≠ none

section Invariants

variable {capacity : Nat} {closeMsg : Bool} {packets : List ChannelMsg} {c : UInt32}
  {s s' : Session}

theorem readerInv_start (hclose : .close ∈ packets) :
    ReaderInv closeMsg packets c (.start packets) where
  rest := List.suffix_rfl
  closes := fun _ => hclose
  seen := ⟨[], rfl, rfl, fun h => by cases h⟩
  oneshot := fun _ h => by cases h
  done := fun h => by cases h

/-- A packet's messages move to the queue as long as the sender lives. -/
theorem queued_packet {seen : List ChannelMsg} {m : ChannelMsg} {rest : List ChannelMsg}
    (hpackets : s.packets = m :: rest)
    (hall : seen ++ s.mpsc ++ (if s.alive then queued closeMsg s.packets else [])
      = queued closeMsg packets) :
    seen ++ (s.mpsc ++ if s.alive then forwarded closeMsg m else [])
        ++ (if s.alive && m ≠ .close then queued closeMsg rest else [])
      = queued closeMsg packets := by
  rw [hpackets, queued_cons] at hall
  rw [← hall]
  cases halive : s.alive
  · simp
  · by_cases hm : m = .close
    · simp [hm]
    · simp [hm]

theorem Seen.packet {seen : List ChannelMsg} (h : Seen closeMsg packets c s seen) {m : ChannelMsg}
    {rest : List ChannelMsg} (hpackets : s.packets = m :: rest) (recording : Option UInt32) :
    Seen closeMsg packets c { s with
      packets := rest
      mpsc := s.mpsc ++ if s.alive then forwarded closeMsg m else []
      alive := s.alive && m ≠ .close
      recording := recording } seen := by
  refine ⟨queued_packet hpackets h.all, h.code, fun hphase => ?_⟩
  refine (h.exited hphase).imp id fun hend => ?_
  obtain ⟨hempty, hdead⟩ := hend
  simp [hempty, hdead]

theorem Seen.receive {seen : List ChannelMsg} (h : Seen closeMsg packets c s seen)
    (honly : ∀ m ∈ packets, ∀ x, m.status = some x → x = c) (hphase : s.reader.phase ≠ .exited)
    {m : ChannelMsg} {mpsc : List ChannelMsg} (hmpsc : s.mpsc = m :: mpsc) :
    Seen closeMsg packets c { s with mpsc := mpsc, reader := s.reader.receive (some m) }
      (seen ++ [m]) := by
  have hall := h.all
  rw [hmpsc] at hall
  have hmem : m ∈ queued closeMsg packets := by
    rw [← hall]
    simp
  have hstatus := status_of_mem_queued honly m hmem
  refine ⟨?_, ?_, fun hexited => .inl ?_⟩
  · rw [← hall]
    simp
  · show (s.reader.receive (some m)).code = _
    rw [Reader.receive_code hphase, h.code]
    -- a status that arrives is the one the server sent
    cases m with
    | exitStatus x => simp [status, hstatus x rfl]
    | _ => simp [status]
  · obtain ⟨x, rfl⟩ := Reader.receive_exited hphase hexited
    rw [hstatus x rfl]
    simp

theorem ReaderInv.step (honly : ∀ m ∈ packets, ∀ x, m.status = some x → x = c)
    (h : ReaderInv closeMsg packets c s) {e : SessionEvent}
    (hstep : s.step capacity closeMsg e = some s') : ReaderInv closeMsg packets c s' := by
  obtain ⟨seen, hseen⟩ := h.seen
  cases e with
  | packet =>
    obtain ⟨-, m, rest, hpackets, -, rfl⟩ := step_packet.mp hstep
    refine ⟨?_, fun halive => ?_, ⟨seen, hseen.packet hpackets _⟩, h.oneshot, h.done⟩
    · exact ((List.suffix_cons m rest).trans (hpackets ▸ h.rest))
    · simp only [Bool.and_eq_true, decide_eq_true_eq] at halive
      have hmem := h.closes halive.1
      rw [hpackets] at hmem
      exact (List.mem_cons.mp hmem).resolve_left fun heq => halive.2 heq.symm
  | record =>
    obtain ⟨x, -, rfl⟩ := step_record.mp hstep
    exact ⟨h.rest, h.closes, ⟨seen, hseen.all, hseen.code, hseen.exited⟩, h.oneshot, h.done⟩
  | receive =>
    obtain ⟨hphase, hres⟩ := step_receive.mp hstep
    -- the oneshot is sent after the loops only
    have hunsent : s.oneshot = none := by
      rcases hone : s.oneshot with _ | code
      · rfl
      · exact absurd (h.oneshot code hone).1 hphase
    have hsent : ∀ code, s.oneshot = some code → False := fun code hcode => by
      rw [hunsent] at hcode
      cases hcode
    obtain ⟨m, mpsc, hmpsc, rfl⟩ | ⟨hempty, hdead, rfl⟩ := hres
    · exact ⟨h.rest, h.closes, ⟨_, hseen.receive honly hphase hmpsc⟩,
        fun code hcode => (hsent code hcode).elim, h.done⟩
    · refine ⟨h.rest, h.closes, ⟨seen, hseen.all, ?_, fun _ => .inr ⟨hempty, hdead⟩⟩,
        fun code hcode => (hsent code hcode).elim, h.done⟩
      exact s.reader.receive_none.2.trans hseen.code
  | sendCode =>
    obtain ⟨hphase, -, rfl⟩ := step_sendCode.mp hstep
    refine ⟨h.rest, h.closes, ⟨seen, hseen.all, hseen.code, hseen.exited⟩,
      fun code hcode => ⟨hphase, (Option.some.inj hcode).symm⟩, fun _ => ?_⟩
    exact Option.some_ne_none _
  | finish =>
    obtain ⟨hone, -, rfl⟩ := step_finish.mp hstep
    exact ⟨h.rest, h.closes, ⟨seen, hseen.all, hseen.code, hseen.exited⟩, h.oneshot,
      fun _ => hone⟩
  | selectCode =>
    obtain ⟨-, code, -, rfl⟩ := step_selectCode.mp hstep
    exact ⟨h.rest, h.closes, ⟨seen, hseen.all, hseen.code, hseen.exited⟩, h.oneshot, h.done⟩
  | selectReader =>
    obtain ⟨-, -, rfl⟩ := step_selectReader.mp hstep
    exact ⟨h.rest, h.closes, ⟨seen, hseen.all, hseen.code, hseen.exited⟩, h.oneshot, h.done⟩
  | lookup =>
    obtain ⟨code, -, rfl⟩ := step_lookup.mp hstep
    exact ⟨h.rest, h.closes, ⟨seen, hseen.all, hseen.code, hseen.exited⟩, h.oneshot, h.done⟩

/-- What the reader sends is the status, if the status came before CLOSE. -/
theorem ReaderInv.oneshot_eq (h : ReaderInv closeMsg packets c s) {code : Int32}
    (hcode : s.oneshot = some code) :
    code = if .exitStatus c ∈ beforeClose packets then c.toInt32 else 0 := by
  obtain ⟨seen, hseen⟩ := h.seen
  obtain ⟨hphase, rfl⟩ := h.oneshot code hcode
  have hiff : .exitStatus c ∈ seen ↔ .exitStatus c ∈ beforeClose packets := by
    rw [← status_mem_queued closeMsg, ← hseen.all]
    rcases hseen.exited hphase with hmem | ⟨hempty, hdead⟩
    · simp [hmem]
    · simp [hempty, hdead]
  rw [hseen.code]
  simp only [hiff]

/-- The callback and the main task, which has not looked into the map yet. -/
structure MainInv (c : UInt32) (events : List SessionEvent) (s : Session) : Prop where
  recording : ∀ x, s.recording = some x → x = c
  captured : s.exitStatuses = if .record ∈ events then some c else none
  lookup : .lookup ∉ events
  selecting : s.main = .selecting → .selectCode ∉ events
  chose : ∀ code, s.main = .chose code →
    if .selectCode ∈ events then s.oneshot = some code else code = 0

theorem mainInv_start : MainInv c [] (.start packets) where
  recording := fun _ h => by cases h
  captured := rfl
  lookup := List.not_mem_nil
  selecting := fun _ => List.not_mem_nil
  chose := fun _ h => by cases h

theorem mem_concat_of_ne {events : List SessionEvent} {e e' : SessionEvent} (h : e' ≠ e) :
    e' ∈ events ++ [e] ↔ e' ∈ events := by
  simp [h]

/-- Only its own steps move the main task. -/
theorem step_main {e : SessionEvent} (hstep : s.step capacity closeMsg e = some s') :
    s'.main = s.main ∨ (s.main = .selecting ∧ ∃ code, s'.main = .chose code) ∨
      e = .lookup ∧ ∃ code, s.main = .chose code := by
  cases e with
  | packet =>
    obtain ⟨-, m, rest, -, -, rfl⟩ := step_packet.mp hstep
    exact .inl rfl
  | record =>
    obtain ⟨x, -, rfl⟩ := step_record.mp hstep
    exact .inl rfl
  | receive =>
    obtain ⟨-, ⟨m, mpsc, -, rfl⟩ | ⟨-, -, rfl⟩⟩ := step_receive.mp hstep
    · exact .inl rfl
    · exact .inl rfl
  | sendCode =>
    obtain ⟨-, -, rfl⟩ := step_sendCode.mp hstep
    exact .inl rfl
  | finish =>
    obtain ⟨-, -, rfl⟩ := step_finish.mp hstep
    exact .inl rfl
  | selectCode =>
    obtain ⟨hmain, code, -, rfl⟩ := step_selectCode.mp hstep
    exact .inr (.inl ⟨hmain, code, rfl⟩)
  | selectReader =>
    obtain ⟨hmain, -, rfl⟩ := step_selectReader.mp hstep
    exact .inr (.inl ⟨hmain, 0, rfl⟩)
  | lookup =>
    obtain ⟨code, hmain, -⟩ := step_lookup.mp hstep
    exact .inr (.inr ⟨rfl, code, hmain⟩)

/-- A result is final. -/
theorem step_returned {r : Int32} (h : s.main = .returned r) {e : SessionEvent}
    (hstep : s.step capacity closeMsg e = some s') : s'.main = .returned r := by
  rcases step_main hstep with hsame | ⟨hmain, -⟩ | ⟨-, code, hmain⟩
  · rw [hsame, h]
  · rw [h] at hmain
    cases hmain
  · rw [h] at hmain
    cases hmain

/-- It takes a lookup to return. -/
theorem lookup_of_step_returned (h : ∀ r, s.main ≠ .returned r) {r : Int32}
    (h' : s'.main = .returned r) {e : SessionEvent}
    (hstep : s.step capacity closeMsg e = some s') : e = .lookup := by
  rcases step_main hstep with hsame | ⟨-, code, hmain⟩ | ⟨he, -⟩
  · rw [hsame] at h'
    exact absurd h' (h r)
  · rw [h'] at hmain
    cases hmain
  · exact he

/-- Short of the lookup, a step keeps what is known about the branch of the `select!`. -/
theorem select_step {events : List SessionEvent}
    (hselecting : s.main = .selecting → .selectCode ∉ events)
    (hchose : ∀ code, s.main = .chose code →
      if .selectCode ∈ events then s.oneshot = some code else code = 0)
    {e : SessionEvent} (hlookup : e ≠ .lookup) (hstep : s.step capacity closeMsg e = some s') :
    (s'.main = .selecting → .selectCode ∉ events ++ [e]) ∧
      ∀ code, s'.main = .chose code →
        if .selectCode ∈ events ++ [e] then s'.oneshot = some code else code = 0 := by
  by_cases hselect : e = .selectCode
  · subst hselect
    obtain ⟨-, code, hcode, rfl⟩ := step_selectCode.mp hstep
    refine ⟨fun hmain => (by cases hmain), fun code' hmain => ?_⟩
    rw [if_pos (by simp)]
    cases hmain
    exact hcode
  simp only [mem_concat_of_ne (Ne.symm hselect)]
  cases e with
  | packet =>
    obtain ⟨-, m, rest, -, -, rfl⟩ := step_packet.mp hstep
    exact ⟨hselecting, hchose⟩
  | record =>
    obtain ⟨x, -, rfl⟩ := step_record.mp hstep
    exact ⟨hselecting, hchose⟩
  | receive =>
    obtain ⟨-, ⟨m, mpsc, -, rfl⟩ | ⟨-, -, rfl⟩⟩ := step_receive.mp hstep
    · exact ⟨hselecting, hchose⟩
    · exact ⟨hselecting, hchose⟩
  | sendCode =>
    obtain ⟨-, hnone, rfl⟩ := step_sendCode.mp hstep
    refine ⟨hselecting, fun code hmain => ?_⟩
    -- nothing was selected from a oneshot that had not been sent
    have hthen := hchose code hmain
    split at hthen
    · rw [hnone] at hthen
      cases hthen
    · rw [if_neg (by assumption)]
      exact hthen
  | finish =>
    obtain ⟨-, -, rfl⟩ := step_finish.mp hstep
    exact ⟨hselecting, hchose⟩
  | selectReader =>
    obtain ⟨hmain, -, rfl⟩ := step_selectReader.mp hstep
    refine ⟨fun hmain' => (by cases hmain'), fun code hmain' => ?_⟩
    rw [if_neg (hselecting hmain)]
    cases hmain'
    rfl
  | selectCode => exact absurd rfl hselect
  | lookup => exact absurd rfl hlookup

theorem MainInv.step (honly : ∀ m ∈ packets, ∀ x, m.status = some x → x = c)
    (hreader : ReaderInv closeMsg packets c s) {events : List SessionEvent}
    (h : MainInv c events s) {e : SessionEvent} (hlookup : e ≠ .lookup)
    (hstep : s.step capacity closeMsg e = some s') : MainInv c (events ++ [e]) s' := by
  obtain ⟨hselecting, hchose⟩ := select_step h.selecting h.chose hlookup hstep
  have hlook : .lookup ∉ events ++ [e] := fun hmem =>
    h.lookup ((mem_concat_of_ne hlookup.symm).mp hmem)
  -- the map is left alone by every step but the callback's
  have hcaptured : e ≠ .record →
      s.exitStatuses = if .record ∈ events ++ [e] then some c else none := fun hne => by
    simp only [mem_concat_of_ne hne.symm]
    exact h.captured
  cases e with
  | packet =>
    obtain ⟨-, m, rest, hpackets, -, rfl⟩ := step_packet.mp hstep
    refine ⟨fun x hx => ?_, hcaptured (by simp), hlook, hselecting, hchose⟩
    exact honly m (hreader.rest.subset (hpackets ▸ List.mem_cons_self)) x hx
  | record =>
    obtain ⟨x, hx, rfl⟩ := step_record.mp hstep
    refine ⟨fun _ hy => (by cases hy), ?_, hlook, hselecting, hchose⟩
    rw [if_pos (by simp)]
    show some x = some c
    rw [h.recording x hx]
  | receive =>
    obtain ⟨-, ⟨m, mpsc, -, rfl⟩ | ⟨-, -, rfl⟩⟩ := step_receive.mp hstep
    · exact ⟨h.recording, hcaptured (by simp), hlook, hselecting, hchose⟩
    · exact ⟨h.recording, hcaptured (by simp), hlook, hselecting, hchose⟩
  | sendCode =>
    obtain ⟨-, -, rfl⟩ := step_sendCode.mp hstep
    exact ⟨h.recording, hcaptured (by simp), hlook, hselecting, hchose⟩
  | finish =>
    obtain ⟨-, -, rfl⟩ := step_finish.mp hstep
    exact ⟨h.recording, hcaptured (by simp), hlook, hselecting, hchose⟩
  | selectCode =>
    obtain ⟨-, code, -, rfl⟩ := step_selectCode.mp hstep
    exact ⟨h.recording, hcaptured (by simp), hlook, hselecting, hchose⟩
  | selectReader =>
    obtain ⟨-, -, rfl⟩ := step_selectReader.mp hstep
    exact ⟨h.recording, hcaptured (by simp), hlook, hselecting, hchose⟩
  | lookup => exact absurd rfl hlookup

/-- Both invariants, over a whole run. -/
theorem runSession_invariant (honly : ∀ m ∈ packets, ∀ x, m.status = some x → x = c)
    (hclose : .close ∈ packets) {events : List SessionEvent}
    (hrun : runSession capacity closeMsg packets events = some s) :
    ReaderInv closeMsg packets c s ∧ ((∀ r, s.main ≠ .returned r) → MainInv c events s) := by
  refine Machine.run_invariant (I := fun events s => ReaderInv closeMsg packets c s ∧
    ((∀ r, s.main ≠ .returned r) → MainInv c events s))
    ⟨readerInv_start hclose, fun _ => mainInv_start⟩ ?_ hrun
  rintro events s e s' ⟨hreader, hmain⟩ hstep
  refine ⟨hreader.step honly hstep, fun hnot => ?_⟩
  have hbefore : ∀ r, s.main ≠ .returned r := fun r hr => hnot r (step_returned hr hstep)
  have hlookup : e ≠ .lookup := by
    rintro rfl
    obtain ⟨code, -, rfl⟩ := step_lookup.mp hstep
    exact hnot _ rfl
  exact (hmain hbefore).step honly hreader hlookup hstep

end Invariants

/-! ## The result -/

section Result

variable {capacity : Nat} {closeMsg : Bool} {packets : List ChannelMsg} {c : UInt32}
  {events : List SessionEvent} {s : Session}

/-- **A schedule that cannot be continued has returned.** -/
theorem returned_of_stuck (honly : ∀ m ∈ packets, ∀ x, m.status = some x → x = c)
    (hclose : .close ∈ packets) (hcapacity : 0 < capacity)
    (hrun : runSession capacity closeMsg packets events = some s)
    (hstuck : Machine.Stuck (Session.step capacity closeMsg) s) :
    ∃ r, s.main = .returned r := by
  obtain ⟨hreader, -⟩ := runSession_invariant honly hclose hrun
  have hrefused : ∀ e s', s.step capacity closeMsg e ≠ some s' := fun e s' h => by
    rw [hstuck e] at h
    cases h
  rcases hmain : s.main with _ | code | r
  · exfalso
    -- the select waits, so nothing has been sent on the oneshot
    have hone : s.oneshot = none := by
      rcases hone : s.oneshot with _ | code
      · rfl
      · exact absurd (step_selectCode.mpr ⟨hmain, code, hone, rfl⟩) (hrefused _ _)
    by_cases hphase : s.reader.phase = .exited
    · exact hrefused _ _ (step_sendCode.mpr ⟨hphase, hone, rfl⟩)
    rcases hmpsc : s.mpsc with _ | ⟨m, mpsc⟩
    · rcases halive : s.alive
      · exact hrefused _ _ (step_receive.mpr ⟨hphase, .inr ⟨hmpsc, halive, rfl⟩⟩)
      · -- the reader waits for the connection task, which has CLOSE ahead of it
        rcases hrec : s.recording with _ | x
        · obtain ⟨m, rest, hpackets⟩ := List.exists_cons_of_ne_nil
            (List.ne_nil_of_mem (hreader.closes halive))
          refine hrefused _ _ (step_packet.mpr ⟨hrec, m, rest, hpackets, .inr (.inl ?_), rfl⟩)
          rw [hmpsc]
          exact hcapacity
        · exact hrefused _ _ (step_record.mpr ⟨x, hrec, rfl⟩)
    · exact hrefused _ _ (step_receive.mpr ⟨hphase, .inl ⟨m, mpsc, hmpsc, rfl⟩⟩)
  · exact absurd (step_lookup.mpr ⟨code, hmain, rfl⟩) (hrefused _ _)
  · exact ⟨r, rfl⟩

/-- The events before the main task looks into the map. -/
def beforeLookup (events : List SessionEvent) : List SessionEvent :=
  events.takeWhile (· ≠ .lookup)

/-- The result is decided by the state that the lookup finds. -/
theorem lookup_of_returned (honly : ∀ m ∈ packets, ∀ x, m.status = some x → x = c)
    (hclose : .close ∈ packets) (hrun : runSession capacity closeMsg packets events = some s)
    {r : Int32} (hr : s.main = .returned r) :
    ∃ t code, ReaderInv closeMsg packets c t ∧ MainInv c (beforeLookup events) t ∧
      t.main = .chose code ∧ r = finalCode t.exitStatuses code := by
  obtain ⟨pre, e, post, t, t', rfl, hpre, hnot, hstep, ⟨r', hr'⟩, hpost⟩ :=
    Machine.exists_first_of_run (P := fun s : Session => ∃ r, s.main = .returned r)
      (by rintro ⟨r, h⟩; cases h) hrun ⟨r, hr⟩
  obtain ⟨hreader, hmain⟩ := runSession_invariant honly hclose hpre
  have hmain := hmain fun r h => hnot ⟨r, h⟩
  -- once there, the result stays
  have hkept : s.main = .returned r' :=
    Machine.run_invariant (I := fun _ (s : Session) => s.main = .returned r') hr'
      (fun _ _ _ _ h hstep => step_returned h hstep) hpost
  obtain rfl : e = .lookup := lookup_of_step_returned (fun r h => hnot ⟨r, h⟩) hr' hstep
  obtain ⟨code, hchose, rfl⟩ := step_lookup.mp hstep
  have hbefore : beforeLookup (pre ++ .lookup :: post) = pre := by
    unfold beforeLookup
    rw [List.takeWhile_append_of_pos fun e he => ?_]
    · simp
    · exact decide_eq_true fun heq => hmain.lookup (heq ▸ he)
  refine ⟨t, code, hreader, ?_, hchose, ?_⟩
  · rw [hbefore]
    exact hmain
  · rw [hr] at hkept
    cases hkept
    exact MainTask.returned.inj hr'.symm

/-- **The session returns the server's status exactly when** the callback has inserted it before
the lookup, or the reader's oneshot is selected and the status came before CLOSE, or it is 0. -/
theorem runSession_returns_iff (honce : packets.filterMap status = [c]) (hclose : .close ∈ packets)
    (hcapacity : 0 < capacity) (hrun : runSession capacity closeMsg packets events = some s)
    (hstuck : Machine.Stuck (Session.step capacity closeMsg) s) :
    s.main = .returned c.toInt32 ↔
      .record ∈ beforeLookup events ∨
        (.selectCode ∈ beforeLookup events ∧ .exitStatus c ∈ beforeClose packets) ∨ c = 0 := by
  have honly : ∀ m ∈ packets, ∀ x, m.status = some x → x = c := fun m hm x hx => by
    have hmem : x ∈ packets.filterMap status := List.mem_filterMap.mpr ⟨m, hm, hx⟩
    rw [honce] at hmem
    exact List.mem_singleton.mp hmem
  obtain ⟨r, hr⟩ := returned_of_stuck honly hclose hcapacity hrun hstuck
  obtain ⟨t, code, hreader, hmain, hchose, rfl⟩ := lookup_of_returned honly hclose hrun hr
  have hcode := hmain.chose code hchose
  rw [hr, MainTask.returned.injEq, hmain.captured]
  by_cases hrecord : .record ∈ beforeLookup events
  · -- the map has the status, whatever was selected
    simp [hrecord, finalCode]
  · rw [if_neg hrecord]
    show code = c.toInt32 ↔ _
    -- the map is empty, so the selected code stands
    by_cases hselect : .selectCode ∈ beforeLookup events
    · rw [if_pos hselect] at hcode
      rw [hreader.oneshot_eq hcode]
      by_cases hbefore : .exitStatus c ∈ beforeClose packets
      · simp [hselect, hbefore]
      · simp [hrecord, hbefore, toInt32_eq_zero]
    · rw [if_neg hselect] at hcode
      rw [hcode]
      simp [hrecord, hselect, toInt32_eq_zero]

/-- A status is lost after CLOSE when the callback is late, and before CLOSE when the callback is
late and the reader's end is selected. -/
theorem runSession_loses_status :
    (∃ s, runSession 100 false [.close, .exitStatus 3]
        [.packet, .receive, .sendCode, .selectCode, .lookup, .packet, .record, .finish] = some s ∧
      Machine.Stuck (Session.step 100 false) s ∧ s.main ≠ .returned (UInt32.toInt32 3)) ∧
    ∃ s, runSession 100 false [.exitStatus 3, .eof, .close]
        [.packet, .receive, .sendCode, .finish, .selectReader, .lookup, .record, .packet, .packet]
          = some s ∧
      Machine.Stuck (Session.step 100 false) s ∧ s.main ≠ .returned (UInt32.toInt32 3) :=
  ⟨⟨_, rfl, fun e => by cases e <;> rfl, by decide⟩, _, rfl, fun e => by cases e <;> rfl,
    by decide⟩

/-- A schedule on which the callback is in time. -/
def inTime : List SessionEvent :=
  [.packet, .record, .receive, .sendCode, .packet, .selectCode, .lookup, .finish, .packet]

theorem runSession_returns_recorded :
    ∃ s, runSession 100 false [.exitStatus 3, .eof, .close] inTime = some s ∧
      (s.main = .returned (UInt32.toInt32 3) ↔
        .record ∈ beforeLookup inTime ∨
          (.selectCode ∈ beforeLookup inTime ∧
            .exitStatus 3 ∈ beforeClose [.exitStatus 3, .eof, .close]) ∨ (3 : UInt32) = 0) := by
  have hrun : runSession 100 false [.exitStatus 3, .eof, .close] inTime
      = some ⟨[], none, false, [.eof], ⟨.exited, 3, [], []⟩, some 3, true, none, .returned 3⟩ := rfl
  exact ⟨_, hrun, runSession_returns_iff rfl (by decide) (Nat.succ_pos 99) hrun
    fun e => by cases e <;> rfl⟩

end Result

end Passhrs
