import Passhrs.Ssh.ExitCode

/-!
# The output of a session

In a session the reader runs beside the connection task and the main one, and it gets its messages
through a bounded queue. What it has written never depends on how the three are scheduled.

* **`reader_of_exited`**: a reader that has left its loops is the one that had the whole of the
  queue's messages in front of it.
* **`session_output`**: so once `run_session` returns all the output is written, and its code is
  none that the server did not send.
-/

namespace Passhrs

open ChannelMsg

/-! ## The reader and what is put in front of it -/

/-- The end of the messages changes nothing that a reader has written. -/
theorem Reader.run_output (msgs : List ChannelMsg) :
    (Reader.run msgs).stdout = ((msgs.map some).foldl receive start).stdout ∧
      (Reader.run msgs).stderr = ((msgs.map some).foldl receive start).stderr := by
  have hnone : ∀ r : Reader, (r.receive none).stdout = r.stdout ∧
      (r.receive none).stderr = r.stderr := by
    intro r
    unfold receive
    rcases r.phase with _ | _ | _ <;> exact ⟨rfl, rfl⟩
  unfold Reader.run
  rw [List.foldl_append]
  exact hnone _

/-- More messages, more output, behind what there is. -/
theorem dataOf_takeWhile_prefix {msgs msgs' : List ChannelMsg} (h : msgs <+: msgs') :
    dataOf (msgs.takeWhile fun m => !m.endsLoop)
        <+: dataOf (msgs'.takeWhile fun m => !m.endsLoop) ∧
      extendedOf (msgs.takeWhile fun m => !m.endsLoop)
        <+: extendedOf (msgs'.takeWhile fun m => !m.endsLoop) := by
  have hfront : msgs.takeWhile (fun m => !m.endsLoop)
      <+: msgs'.takeWhile fun m => !m.endsLoop := by
    obtain ⟨more, rfl⟩ := h
    rw [List.takeWhile_append]
    split
    · next hall =>
      rw [(List.takeWhile_prefix _).eq_of_length hall]
      exact List.prefix_append _ _
    · exact List.prefix_rfl
  obtain ⟨more, hmore⟩ := hfront
  rw [← hmore, dataOf, dataOf, extendedOf, extendedOf, List.flatMap_append, List.flatMap_append]
  exact ⟨List.prefix_append _ _, List.prefix_append _ _⟩

/-- CLOSE ends the outer loop, so whether it is queued makes no difference to the output. -/
theorem takeWhile_queued (closeMsg : Bool) (packets : List ChannelMsg) :
    (queued closeMsg packets).takeWhile (fun m => !m.endsLoop)
      = packets.takeWhile fun m => !m.endsLoop := by
  induction packets with
  | nil => cases closeMsg <;> rfl
  | cons m packets ih =>
    rw [queued_cons]
    by_cases hclose : m = .close
    · subst hclose
      cases closeMsg <;> rfl
    · have hsent : forwarded closeMsg m = [m] := if_neg fun h => hclose h.1
      rw [hsent, if_neg hclose, List.singleton_append, List.takeWhile_cons, List.takeWhile_cons,
        ih]

theorem run_queued_output (closeMsg : Bool) (packets : List ChannelMsg) :
    (Reader.run (queued closeMsg packets)).stdout = (Reader.run packets).stdout ∧
      (Reader.run (queued closeMsg packets)).stderr = (Reader.run packets).stderr := by
  rw [reader_stdout, reader_stdout, reader_stderr, reader_stderr, takeWhile_queued]
  exact ⟨rfl, rfl⟩

/-- A code of the server's, or 0. -/
def FromServer (packets : List ChannelMsg) (code : Int32) : Prop :=
  code = 0 ∨ ∃ x, .exitStatus x ∈ packets ∧ code = x.toInt32

theorem mem_of_mem_queued {closeMsg : Bool} {packets : List ChannelMsg} {x : UInt32}
    (h : .exitStatus x ∈ queued closeMsg packets) : .exitStatus x ∈ packets :=
  (List.takeWhile_prefix _).subset ((status_mem_queued closeMsg).mp h)

/-- A reader takes one of the codes that it is given. -/
theorem fromServer_run (closeMsg : Bool) (packets : List ChannelMsg) :
    FromServer packets (Reader.run (queued closeMsg packets)).code := by
  have htaken : ∀ msgs x, takenStatus msgs = some x → .exitStatus x ∈ msgs := by
    intro msgs x hx
    have hsub := (List.dropWhile_suffix (fun m : ChannelMsg => !m.endsLoop) (l := msgs)).subset
    unfold takenStatus at hx
    split at hx
    · next s rest hdrop =>
      obtain rfl := Option.some.inj hx
      exact hsub (hdrop ▸ List.mem_cons_self)
    · obtain ⟨m, hm, hstatus⟩ := List.mem_filterMap.mp (List.mem_of_getLast? hx)
      cases m with
      | exitStatus y =>
        obtain rfl := Option.some.inj hstatus
        exact hsub hm
      | _ => cases hstatus
  rw [reader_code]
  rcases hx : takenStatus (queued closeMsg packets) with _ | x
  · exact .inl rfl
  · exact .inr ⟨x, mem_of_mem_queued (htaken _ x hx), rfl⟩

/-! ## What every step keeps -/

/-- The reader is where these messages take it, and the others are still to come. -/
structure Fed (closeMsg : Bool) (packets : List ChannelMsg) (s : Session)
    (seen : List ChannelMsg) : Prop where
  all : seen ++ s.mpsc ++ (if s.alive then queued closeMsg s.packets else [])
    = queued closeMsg packets
  reader : s.reader = (seen.map some).foldl Reader.receive .start ∨
    s.reader = Reader.run seen ∧ s.mpsc = [] ∧ s.alive = false

/-- Where the codes come from that the tasks hand on. -/
structure Truthful (closeMsg : Bool) (packets : List ChannelMsg) (s : Session) : Prop where
  rest : s.packets <:+ packets
  fed : ∃ seen, Fed closeMsg packets s seen
  recording : ∀ x, s.recording = some x → .exitStatus x ∈ packets
  captured : ∀ x, s.exitStatuses = some x → .exitStatus x ∈ packets
  oneshot : ∀ code, s.oneshot = some code → s.reader.phase = .exited ∧ FromServer packets code
  done : s.readerDone = true → s.reader.phase = .exited
  main : ∀ code, s.main = .chose code ∨ s.main = .returned code →
    s.reader.phase = .exited ∧ FromServer packets code

section Invariant

variable {capacity : Nat} {closeMsg : Bool} {packets : List ChannelMsg} {s s' : Session}

/-- **A reader that has left its loops** is where all of the queue's messages take it. -/
theorem reader_of_exited {seen : List ChannelMsg} (h : Fed closeMsg packets s seen)
    (hphase : s.reader.phase = .exited) : s.reader = Reader.run (queued closeMsg packets) := by
  have hall := h.all
  rcases h.reader with hreader | ⟨hreader, hempty, hdead⟩
  · rw [hreader] at hphase
    rw [← hall, List.append_assoc, Reader.run_append_of_exited hphase, hreader]
  · rw [hempty, hdead, List.append_nil] at hall
    rw [hreader, ← hall]
    simp

theorem Fed.output_prefix {seen : List ChannelMsg} (h : Fed closeMsg packets s seen) :
    s.reader.stdout <+: (Reader.run packets).stdout ∧
      s.reader.stderr <+: (Reader.run packets).stderr := by
  have hrun : s.reader.stdout = (Reader.run seen).stdout ∧
      s.reader.stderr = (Reader.run seen).stderr := by
    obtain ⟨hout, herr⟩ := Reader.run_output seen
    rcases h.reader with hreader | ⟨hreader, -⟩
    · rw [hreader, hout, herr]
      exact ⟨rfl, rfl⟩
    · rw [hreader]
      exact ⟨rfl, rfl⟩
  have hseen : seen <+: queued closeMsg packets := by
    rw [← h.all, List.append_assoc]
    exact List.prefix_append _ _
  rw [hrun.1, hrun.2, reader_stdout, reader_stdout, reader_stderr, reader_stderr,
    ← takeWhile_queued closeMsg packets]
  exact dataOf_takeWhile_prefix hseen

theorem Fed.packet {seen : List ChannelMsg} (h : Fed closeMsg packets s seen) {m : ChannelMsg}
    {rest : List ChannelMsg} (hpackets : s.packets = m :: rest) (recording : Option UInt32) :
    Fed closeMsg packets { s with
      packets := rest
      mpsc := s.mpsc ++ if s.alive then forwarded closeMsg m else []
      alive := s.alive && m ≠ .close
      recording := recording } seen := by
  refine ⟨queued_packet hpackets h.all, h.reader.imp_right fun hend => ?_⟩
  obtain ⟨hreader, hempty, hdead⟩ := hend
  simp [hreader, hempty, hdead]

/-- A message moves from the queue to the reader, or the reader finds the queue closed. -/
theorem Fed.receive {seen : List ChannelMsg} (h : Fed closeMsg packets s seen)
    (hphase : s.reader.phase ≠ .exited) :
    (∀ m mpsc, s.mpsc = m :: mpsc → Fed closeMsg packets
      { s with mpsc := mpsc, reader := s.reader.receive (some m) } (seen ++ [m])) ∧
    (s.mpsc = [] → s.alive = false → Fed closeMsg packets
      { s with reader := s.reader.receive none } seen) := by
  have hreader : s.reader = (seen.map some).foldl Reader.receive .start := by
    refine h.reader.resolve_right fun hend => hphase ?_
    rw [hend.1, Reader.run, List.foldl_append]
    exact (Reader.receive_none _).1
  constructor
  · intro m mpsc hmpsc
    refine ⟨?_, .inl ?_⟩
    · rw [← h.all, hmpsc]
      simp
    · show s.reader.receive (some m) = _
      rw [hreader, List.map_append, List.foldl_append]
      rfl
  · intro hempty hdead
    refine ⟨h.all, .inr ⟨?_, hempty, hdead⟩⟩
    show s.reader.receive none = _
    rw [hreader, Reader.run, List.foldl_append]
    rfl

theorem truthful_start : Truthful closeMsg packets (.start packets) where
  rest := List.suffix_rfl
  fed := ⟨[], rfl, .inl rfl⟩
  recording := fun _ h => by cases h
  captured := fun _ h => by cases h
  oneshot := fun _ h => by cases h
  done := fun h => by cases h
  main := fun _ h => by rcases h with h | h <;> cases h

/-- Before the reader has left its loops nothing is handed on. -/
theorem Truthful.nothing_sent (h : Truthful closeMsg packets s)
    (hphase : s.reader.phase ≠ .exited) :
    s.oneshot = none ∧ s.readerDone = false ∧ s.main = .selecting := by
  refine ⟨?_, ?_, ?_⟩
  · rcases hone : s.oneshot with _ | code
    · rfl
    · exact absurd (h.oneshot code hone).1 hphase
  · rcases hdone : s.readerDone
    · rfl
    · exact absurd (h.done hdone) hphase
  · rcases hmain : s.main with _ | code | code
    · rfl
    · exact absurd (h.main code (.inl hmain)).1 hphase
    · exact absurd (h.main code (.inr hmain)).1 hphase

theorem Truthful.receive (h : Truthful closeMsg packets s) (hphase : s.reader.phase ≠ .exited)
    {mpsc : List ChannelMsg} {reader : Reader} {seen : List ChannelMsg}
    (hfed : Fed closeMsg packets { s with mpsc := mpsc, reader := reader } seen) :
    Truthful closeMsg packets { s with mpsc := mpsc, reader := reader } := by
  obtain ⟨hone, hdone, hmain⟩ := h.nothing_sent hphase
  refine ⟨h.rest, ⟨seen, hfed⟩, h.recording, h.captured, fun code hcode => ?_, fun hd => ?_,
    fun code hcode => ?_⟩
  · exact absurd (hone.symm.trans hcode) (by simp)
  · exact absurd (hdone.symm.trans hd) (by simp)
  · have hselecting : s.main = .chose code ∨ s.main = .returned code := hcode
    rw [hmain] at hselecting
    rcases hselecting with h | h <;> cases h

theorem Truthful.step (h : Truthful closeMsg packets s) {e : SessionEvent}
    (hstep : s.step capacity closeMsg e = some s') : Truthful closeMsg packets s' := by
  obtain ⟨seen, hfed⟩ := h.fed
  cases e with
  | packet =>
    obtain ⟨-, m, rest, hpackets, -, rfl⟩ := step_packet.mp hstep
    have hsuffix : m :: rest <:+ packets := hpackets ▸ h.rest
    refine ⟨(List.suffix_cons m rest).trans hsuffix, ⟨seen, hfed.packet hpackets _⟩, ?_,
      h.captured, h.oneshot, h.done, h.main⟩
    intro x hx
    cases m with
    | exitStatus y =>
      obtain rfl := Option.some.inj hx
      exact hsuffix.subset List.mem_cons_self
    | _ => cases hx
  | record =>
    obtain ⟨x, hrec, rfl⟩ := step_record.mp hstep
    refine ⟨h.rest, ⟨seen, hfed.all, hfed.reader⟩, fun _ hx => (by cases hx), fun y hy => ?_,
      h.oneshot, h.done, h.main⟩
    obtain rfl := Option.some.inj hy
    exact h.recording x hrec
  | receive =>
    obtain ⟨hphase, ⟨m, mpsc, hmpsc, rfl⟩ | ⟨hempty, hdead, rfl⟩⟩ := step_receive.mp hstep
    · exact h.receive hphase ((hfed.receive hphase).1 m mpsc hmpsc)
    · exact h.receive hphase ((hfed.receive hphase).2 hempty hdead)
  | sendCode =>
    obtain ⟨hphase, -, rfl⟩ := step_sendCode.mp hstep
    refine ⟨h.rest, ⟨seen, hfed.all, hfed.reader⟩, h.recording, h.captured, fun code hcode => ?_,
      h.done, h.main⟩
    obtain rfl := Option.some.inj hcode
    -- the reader's code is what it has read from the whole stream
    refine ⟨hphase, ?_⟩
    rw [reader_of_exited hfed hphase]
    exact fromServer_run closeMsg packets
  | finish =>
    obtain ⟨hone, -, rfl⟩ := step_finish.mp hstep
    obtain ⟨code, hcode⟩ := Option.ne_none_iff_exists'.mp hone
    exact ⟨h.rest, ⟨seen, hfed.all, hfed.reader⟩, h.recording, h.captured, h.oneshot,
      fun _ => (h.oneshot code hcode).1, h.main⟩
  | selectCode =>
    obtain ⟨-, code, hcode, rfl⟩ := step_selectCode.mp hstep
    refine ⟨h.rest, ⟨seen, hfed.all, hfed.reader⟩, h.recording, h.captured, h.oneshot, h.done,
      fun code' hcode' => ?_⟩
    rcases hcode' with hchose | hreturned
    · obtain rfl := MainTask.chose.inj hchose
      exact h.oneshot _ hcode
    · cases hreturned
  | selectReader =>
    obtain ⟨-, hdone, rfl⟩ := step_selectReader.mp hstep
    refine ⟨h.rest, ⟨seen, hfed.all, hfed.reader⟩, h.recording, h.captured, h.oneshot, h.done,
      fun code' hcode' => ?_⟩
    rcases hcode' with hchose | hreturned
    · obtain rfl := MainTask.chose.inj hchose
      exact ⟨h.done hdone, .inl rfl⟩
    · cases hreturned
  | lookup =>
    obtain ⟨code, hmain, rfl⟩ := step_lookup.mp hstep
    obtain ⟨hphase, hserver⟩ := h.main code (.inl hmain)
    refine ⟨h.rest, ⟨seen, hfed.all, hfed.reader⟩, h.recording, fun _ hx => (by cases hx),
      h.oneshot, h.done, fun code' hcode' => ⟨hphase, ?_⟩⟩
    rcases hcode' with hchose | hreturned
    · cases hchose
    obtain rfl := MainTask.returned.inj hreturned
    rcases hcaptured : s.exitStatuses with _ | x
    -- nothing captured: the code stays the one that was chosen
    · exact hserver
    · refine .inr ⟨x, h.captured x hcaptured, ?_⟩
      exact ite_self _

end Invariant

/-! ## Whole schedules -/

section Schedules

variable {capacity : Nat} {closeMsg : Bool} {packets : List ChannelMsg} {s : Session}
  {events : List SessionEvent}

/-- **What a session writes does not depend on the schedule**: for every capacity of the queue,
every sequence of messages and every order of the steps, it is the front of what the reader alone
would write of that sequence, and all of it once `run_session` has returned, with a code that is 0
or one that the server has sent. -/
theorem session_output (hrun : runSession capacity closeMsg packets events = some s) :
    (s.reader.stdout <+: (Reader.run packets).stdout ∧
      s.reader.stderr <+: (Reader.run packets).stderr) ∧
    ∀ code, s.main = .returned code →
      s.reader.stdout = (Reader.run packets).stdout ∧
        s.reader.stderr = (Reader.run packets).stderr ∧ FromServer packets code := by
  have htruthful : Truthful closeMsg packets s :=
    Machine.run_invariant (I := fun _ s => Truthful closeMsg packets s) truthful_start
      (fun _ _ _ _ h hstep => h.step hstep) hrun
  obtain ⟨seen, hfed⟩ := htruthful.fed
  refine ⟨hfed.output_prefix, fun code hcode => ?_⟩
  obtain ⟨hphase, hserver⟩ := htruthful.main code (.inr hcode)
  obtain ⟨hout, herr⟩ := run_queued_output closeMsg packets
  rw [reader_of_exited hfed hphase]
  exact ⟨hout, herr, hserver⟩

/-- A program that writes to both, with a queue of one message. -/
def chatter : List ChannelMsg := [.data [104, 105], .extendedData [33] 1, .exitStatus 3, .close]

/-- The reader has left when the connection task comes to the status. -/
def chatterEvents : List SessionEvent :=
  [.packet, .receive, .packet, .receive, .packet, .receive, .sendCode, .selectCode, .record,
    .lookup]

theorem session_output_chatter :
    ([104, 105] <+: (Reader.run chatter).stdout ∧ [33] <+: (Reader.run chatter).stderr) ∧
    ∀ code, MainTask.returned (UInt32.toInt32 3) = .returned code →
      [104, 105] = (Reader.run chatter).stdout ∧ [33] = (Reader.run chatter).stderr ∧
        FromServer chatter code := by
  have hrun : runSession 1 true chatter chatterEvents =
      some ⟨[.close], none, true, [], ⟨.exited, 3, [104, 105], [33]⟩, some 3, false, none,
        .returned (UInt32.toInt32 3)⟩ := rfl
  exact session_output hrun

end Schedules

end Passhrs
