import Passhrs.Ssh.ExitCode

/-!
# The exit code through a jump host

`run` takes the map for `run_session` from a handler that it makes for the target. On a direct
connection the session is opened with that handler. With `-J` it is opened with `target_handler`,
which has a map of its own.

* **`proxyJump_exit_code_iff`**: on the same schedule both sessions return the same code exactly
  when the last status recorded before the lookup, if there is one, is the code that was selected.
  No recorded status is visible to `run_session`.
-/

namespace Passhrs

open ChannelMsg

/-! ## The session through the tunnel -/

/-- `session.exitStatuses` is the entry in the map that `run_session` is given. -/
structure TargetSession where
  session : Session
  /-- The entry in the map of `target_handler`. -/
  targetStatuses : Option UInt32
deriving DecidableEq

def TargetSession.start (packets : List ChannelMsg) : TargetSession := ⟨.start packets, none⟩

/-- `Handler::exit_status` is called on `target_handler`. -/
def TargetSession.step (capacity : Nat) (closeMsg : Bool) (j : TargetSession) :
    SessionEvent → Option TargetSession
  | .record =>
    match j.session.recording with
    | some status => some ⟨{ j.session with recording := none }, some status⟩
    | none => none
  | e => (j.session.step capacity closeMsg e).map fun session => { j with session := session }

abbrev runTargetSession (capacity : Nat) (closeMsg : Bool) (packets : List ChannelMsg)
    (events : List SessionEvent) : Option TargetSession :=
  Machine.run (TargetSession.step capacity closeMsg) (.start packets) events

/-! ## What is recorded and what is selected -/

/-- The last status that the callback has recorded after these events. -/
def lastRecorded (packets : List ChannelMsg) (events : List SessionEvent) : Option UInt32 :=
  ((packets.filterMap status).take (events.count .record)).getLast?

/-- The code of the branch of the `select!` that was taken in these events: the status that the
reader takes from what is queued, or 0. -/
def selectedCode (closeMsg : Bool) (packets : List ChannelMsg) (events : List SessionEvent) :
    Int32 :=
  if .selectCode ∈ events then
    ((takenStatus (queued closeMsg packets)).map UInt32.toInt32).getD 0
  else 0

/-- The messages that the reader has received, and what has become of it. -/
structure Received (closeMsg : Bool) (packets : List ChannelMsg) (s : Session)
    (seen : List ChannelMsg) : Prop where
  all : seen ++ s.mpsc ++ (if s.alive then queued closeMsg s.packets else [])
    = queued closeMsg packets
  inside : s.reader.phase ≠ .exited → s.reader = (seen.map some).foldl Reader.receive .start
  exited : s.reader.phase = .exited → s.reader = Reader.run (queued closeMsg packets)

/-- The three tasks before the lookup, whatever the server sends. -/
structure Before (closeMsg : Bool) (packets : List ChannelMsg) (events : List SessionEvent)
    (s : Session) : Prop where
  recorded : ∃ recorded : List UInt32,
    recorded ++ s.recording.toList ++ s.packets.filterMap status = packets.filterMap status ∧
      recorded.length = events.count .record ∧ s.exitStatuses = recorded.getLast?
  received : ∃ seen, Received closeMsg packets s seen
  oneshot : ∀ code, s.oneshot = some code → s.reader.phase = .exited ∧ code = s.reader.code
  selecting : s.main = .selecting → .selectCode ∉ events
  chose : ∀ code, s.main = .chose code →
    if .selectCode ∈ events then s.oneshot = some code else code = 0
  lookup : .lookup ∉ events

section Direct

variable {capacity : Nat} {closeMsg : Bool} {packets : List ChannelMsg}
  {events : List SessionEvent} {s s' : Session}

theorem before_start : Before closeMsg packets [] (.start packets) where
  recorded := ⟨[], rfl, rfl, rfl⟩
  received := ⟨[], rfl, fun _ => rfl, fun h => by cases h⟩
  oneshot := fun _ h => by cases h
  selecting := fun _ => List.not_mem_nil
  chose := fun _ h => by cases h
  lookup := List.not_mem_nil

theorem Before.captured (h : Before closeMsg packets events s) :
    s.exitStatuses = lastRecorded packets events := by
  obtain ⟨recorded, hall, hcount, hcaptured⟩ := h.recorded
  unfold lastRecorded
  rw [hcaptured, ← hcount, ← hall, List.append_assoc, List.take_left]

theorem Before.selected (h : Before closeMsg packets events s) {code : Int32}
    (hmain : s.main = .chose code) : code = selectedCode closeMsg packets events := by
  have hchose := h.chose code hmain
  unfold selectedCode
  split at hchose
  · next hselect =>
    obtain ⟨hphase, hcode⟩ := h.oneshot code hchose
    obtain ⟨seen, hseen⟩ := h.received
    rw [if_pos hselect, hcode, hseen.exited hphase, reader_code]
  · next hselect => rw [if_neg hselect, hchose]

/-- One message more. -/
theorem Received.receive {seen : List ChannelMsg} (h : Received closeMsg packets s seen)
    (hphase : s.reader.phase ≠ .exited) {m : ChannelMsg} {mpsc : List ChannelMsg}
    (hmpsc : s.mpsc = m :: mpsc) :
    Received closeMsg packets { s with mpsc := mpsc, reader := s.reader.receive (some m) }
      (seen ++ [m]) := by
  have hreader : s.reader.receive (some m)
      = ((seen ++ [m]).map some).foldl Reader.receive .start := by
    rw [h.inside hphase, List.map_append, List.foldl_append]
    rfl
  have hall := h.all
  rw [hmpsc] at hall
  refine ⟨?_, fun _ => hreader, fun hexited => ?_⟩
  · rw [← hall]
    simp
  · show s.reader.receive (some m) = _
    have hsplit : queued closeMsg packets
        = (seen ++ [m]) ++ (mpsc ++ if s.alive then queued closeMsg s.packets else []) := by
      rw [← hall]
      simp
    rw [hsplit, Reader.run_append_of_exited (hreader ▸ hexited)]
    exact hreader

theorem Before.step (h : Before closeMsg packets events s) {e : SessionEvent}
    (hlookup : e ≠ .lookup) (hstep : s.step capacity closeMsg e = some s') :
    Before closeMsg packets (events ++ [e]) s' := by
  obtain ⟨recorded, hall, hcount, hcaptured⟩ := h.recorded
  obtain ⟨seen, hseen⟩ := h.received
  obtain ⟨hselecting, hchose⟩ := select_step h.selecting h.chose hlookup hstep
  have hlook : .lookup ∉ events ++ [e] := fun hmem =>
    h.lookup ((mem_concat_of_ne hlookup.symm).mp hmem)
  have hcount' : e ≠ .record → recorded.length = (events ++ [e]).count .record := fun hne => by
    rw [hcount, List.count_append, List.count_singleton, beq_eq_false_iff_ne.mpr hne]
    rfl
  cases e with
  | packet =>
    obtain ⟨hnone, m, rest, hpackets, -, rfl⟩ := step_packet.mp hstep
    refine ⟨⟨recorded, ?_, hcount' (by simp), hcaptured⟩, ⟨seen, ?_⟩, h.oneshot, hselecting,
      hchose, hlook⟩
    · rw [hnone, hpackets] at hall
      rw [← hall]
      rcases hm : m.status with _ | x
      · simp [hm]
      · simp [hm]
    · exact ⟨queued_packet hpackets hseen.all, hseen.inside, hseen.exited⟩
  | record =>
    obtain ⟨x, hx, rfl⟩ := step_record.mp hstep
    refine ⟨⟨recorded ++ [x], ?_, ?_, ?_⟩, ⟨seen, hseen.all, hseen.inside, hseen.exited⟩,
      h.oneshot, hselecting, hchose, hlook⟩
    · rw [← hall, hx]
      simp
    · simp [hcount]
    · simp
  | receive =>
    obtain ⟨hphase, hres⟩ := step_receive.mp hstep
    -- the oneshot is sent after the loops only
    have hsent : ∀ code, s.oneshot ≠ some code := fun code hcode => hphase (h.oneshot code hcode).1
    obtain ⟨m, mpsc, hmpsc, rfl⟩ | ⟨hempty, hdead, rfl⟩ := hres
    · exact ⟨⟨recorded, hall, hcount' (by simp), hcaptured⟩, ⟨_, hseen.receive hphase hmpsc⟩,
        fun code hcode => absurd hcode (hsent code), hselecting, hchose, hlook⟩
    · refine ⟨⟨recorded, hall, hcount' (by simp), hcaptured⟩, ⟨seen, hseen.all, ?_, ?_⟩,
        fun code hcode => absurd hcode (hsent code), hselecting, hchose, hlook⟩
      · intro hphase'
        exact absurd s.reader.receive_none.1 hphase'
      · intro _
        have hseenAll : queued closeMsg packets = seen := by
          rw [← hseen.all, hempty, hdead]
          simp
        show s.reader.receive none = _
        unfold Reader.run
        rw [hseenAll, hseen.inside hphase, List.foldl_append]
        rfl
  | sendCode =>
    obtain ⟨hphase, -, rfl⟩ := step_sendCode.mp hstep
    exact ⟨⟨recorded, hall, hcount' (by simp), hcaptured⟩,
      ⟨seen, hseen.all, hseen.inside, hseen.exited⟩,
      fun code hcode => ⟨hphase, (Option.some.inj hcode).symm⟩, hselecting, hchose, hlook⟩
  | finish =>
    obtain ⟨-, -, rfl⟩ := step_finish.mp hstep
    exact ⟨⟨recorded, hall, hcount' (by simp), hcaptured⟩,
      ⟨seen, hseen.all, hseen.inside, hseen.exited⟩, h.oneshot, hselecting, hchose, hlook⟩
  | selectCode =>
    obtain ⟨-, code, -, rfl⟩ := step_selectCode.mp hstep
    exact ⟨⟨recorded, hall, hcount' (by simp), hcaptured⟩,
      ⟨seen, hseen.all, hseen.inside, hseen.exited⟩, h.oneshot, hselecting, hchose, hlook⟩
  | selectReader =>
    obtain ⟨-, -, rfl⟩ := step_selectReader.mp hstep
    exact ⟨⟨recorded, hall, hcount' (by simp), hcaptured⟩,
      ⟨seen, hseen.all, hseen.inside, hseen.exited⟩, h.oneshot, hselecting, hchose, hlook⟩
  | lookup => exact absurd rfl hlookup

end Direct

/-! ## Both sessions on one schedule -/

/-- What the session through the tunnel has in common with the direct one. Only the maps differ, and
the results once both have returned. -/
structure Follows (closeMsg : Bool) (packets : List ChannelMsg) (events : List SessionEvent)
    (s : Session) (j : TargetSession) : Prop where
  same : ∃ main, j.session = { s with exitStatuses := none, main := main }
  before : (∀ r, s.main ≠ .returned r) → Before closeMsg packets events s ∧
    j.session.main = s.main ∧ j.targetStatuses = s.exitStatuses
  after : ∀ r, s.main = .returned r → .lookup ∈ events ∧
    j.session.main = .returned (selectedCode closeMsg packets (beforeLookup events)) ∧
    r = finalCode (lastRecorded packets (beforeLookup events))
      (selectedCode closeMsg packets (beforeLookup events))

theorem beforeLookup_of_not_mem {events : List SessionEvent} (h : .lookup ∉ events)
    (events' : List SessionEvent) :
    beforeLookup (events ++ events') = events ++ beforeLookup events' :=
  List.takeWhile_append_of_pos fun _ he => decide_eq_true fun heq => h (heq ▸ he)

theorem beforeLookup_of_mem {events : List SessionEvent} (h : .lookup ∈ events)
    (events' : List SessionEvent) : beforeLookup (events ++ events') = beforeLookup events := by
  induction events with
  | nil => cases h
  | cons e events ih =>
    unfold beforeLookup at ih ⊢
    rw [List.cons_append, List.takeWhile_cons, List.takeWhile_cons]
    split
    · next hne =>
      rw [ih ((List.mem_cons.mp h).resolve_left fun heq => of_decide_eq_true hne heq.symm)]
    · rfl

section Both

variable {capacity : Nat} {closeMsg : Bool} {packets : List ChannelMsg}
  {events : List SessionEvent} {s s' : Session} {j j' : TargetSession}

theorem follows_start : Follows closeMsg packets [] (.start packets) (.start packets) where
  same := ⟨.selecting, rfl⟩
  before := fun _ => ⟨before_start, rfl, rfl⟩
  after := fun _ h => by cases h

/-- Short of the lookup, nothing becomes of the difference between the maps. -/
theorem Follows.next (h : Follows closeMsg packets events s j) {e : SessionEvent}
    (hlookup : e ≠ .lookup) (hstep : s.step capacity closeMsg e = some s')
    (hsame : ∃ main, j'.session = { s' with exitStatuses := none, main := main })
    (hmain : j.session.main = s.main → j'.session.main = s'.main)
    (htarget : j.targetStatuses = s.exitStatuses → j'.targetStatuses = s'.exitStatuses)
    (hkept : ∀ r, s.main = .returned r → j'.session.main = j.session.main) :
    Follows closeMsg packets (events ++ [e]) s' j' where
  same := hsame
  before := fun hnot => by
    obtain ⟨hbefore, hm, ht⟩ := h.before fun r hr => hnot r (step_returned hr hstep)
    exact ⟨hbefore.step hlookup hstep, hmain hm, htarget ht⟩
  after := fun r hr => by
    have hreturned : s.main = .returned r := by
      by_contra hne
      refine hlookup (lookup_of_step_returned (fun r' hr' => hne ?_) hr hstep)
      rw [hr', ← hr, step_returned hr' hstep]
    obtain ⟨hmem, hcode, hfinal⟩ := h.after r hreturned
    rw [beforeLookup_of_mem hmem, hkept r hreturned]
    exact ⟨List.mem_append_left _ hmem, hcode, hfinal⟩

/-- Short of the callback, the session through the tunnel steps as a session does. -/
theorem targetStep_of_ne {e : SessionEvent} (he : e ≠ .record) {t : Session}
    (h : j.session.step capacity closeMsg e = some t) :
    j.step capacity closeMsg e = some { j with session := t } := by
  unfold TargetSession.step
  cases e with
  | record => exact absurd rfl he
  | packet | receive | sendCode | finish | selectCode | selectReader | lookup =>
    dsimp only
    rw [h]
    rfl

/-- The steps that neither look at the main task nor at the map. -/
theorem step_frame {e : SessionEvent} (he : e ∈ [.packet, .receive, .sendCode, .finish])
    (statuses : Option UInt32) (main : MainTask) (hstep : s.step capacity closeMsg e = some s') :
    Session.step capacity closeMsg { s with exitStatuses := statuses, main := main } e
        = some { s' with exitStatuses := statuses, main := main } ∧
      s'.main = s.main ∧ s'.exitStatuses = s.exitStatuses := by
  cases e with
  | packet =>
    obtain ⟨hnone, m, rest, hpackets, hroom, rfl⟩ := step_packet.mp hstep
    exact ⟨step_packet.mpr ⟨hnone, m, rest, hpackets, hroom, rfl⟩, rfl, rfl⟩
  | receive =>
    obtain ⟨hphase, ⟨m, mpsc, hmpsc, rfl⟩ | ⟨hempty, hdead, rfl⟩⟩ := step_receive.mp hstep
    · exact ⟨step_receive.mpr ⟨hphase, .inl ⟨m, mpsc, hmpsc, rfl⟩⟩, rfl, rfl⟩
    · exact ⟨step_receive.mpr ⟨hphase, .inr ⟨hempty, hdead, rfl⟩⟩, rfl, rfl⟩
  | sendCode =>
    obtain ⟨hphase, hnone, rfl⟩ := step_sendCode.mp hstep
    exact ⟨step_sendCode.mpr ⟨hphase, hnone, rfl⟩, rfl, rfl⟩
  | finish =>
    obtain ⟨hone, hdone, rfl⟩ := step_finish.mp hstep
    exact ⟨step_finish.mpr ⟨hone, hdone, rfl⟩, rfl, rfl⟩
  | record | selectCode | selectReader | lookup => simp at he

/-- The session through the tunnel can make every step that the direct one makes. -/
theorem Follows.step (h : Follows closeMsg packets events s j) {e : SessionEvent}
    (hstep : s.step capacity closeMsg e = some s') :
    ∃ j', j.step capacity closeMsg e = some j' ∧
      Follows closeMsg packets (events ++ [e]) s' j' := by
  obtain ⟨main, hsame⟩ := h.same
  have hmain : j.session.main = main := by rw [hsame]
  cases e with
  | packet | receive | sendCode | finish =>
    obtain ⟨hframe, hkept, hstatuses⟩ := step_frame (by simp) none main hstep
    rw [← hsame] at hframe
    refine ⟨_, targetStep_of_ne (by simp) hframe, h.next (by simp) hstep ⟨main, rfl⟩ ?_ ?_ ?_⟩
    · intro heq
      rw [hkept, ← heq, hmain]
    · intro heq
      rw [hstatuses, ← heq]
    · intro r hr
      exact hmain.symm
  | record =>
    obtain ⟨x, hx, rfl⟩ := step_record.mp hstep
    have hj : j.step capacity closeMsg .record
        = some ⟨{ j.session with recording := none }, some x⟩ := by
      unfold TargetSession.step
      rw [hsame]
      dsimp only
      rw [hx]
    refine ⟨_, hj, h.next (by simp) hstep ⟨main, ?_⟩ id (fun _ => rfl) fun _ _ => rfl⟩
    rw [hsame]
  | selectCode =>
    obtain ⟨hselecting, code, hcode, rfl⟩ := step_selectCode.mp hstep
    obtain ⟨-, heq, -⟩ := h.before fun r hr => by
      rw [hselecting] at hr
      cases hr
    have hj : j.session.step capacity closeMsg .selectCode
        = some { j.session with main := .chose code } :=
      step_selectCode.mpr ⟨heq.trans hselecting, code, by rw [hsame]; exact hcode, rfl⟩
    refine ⟨_, targetStep_of_ne (by simp) hj,
      h.next (by simp) hstep ⟨.chose code, by rw [hsame]⟩ (fun _ => rfl) id fun r hr => ?_⟩
    rw [hselecting] at hr
    cases hr
  | selectReader =>
    obtain ⟨hselecting, hdone, rfl⟩ := step_selectReader.mp hstep
    obtain ⟨-, heq, -⟩ := h.before fun r hr => by
      rw [hselecting] at hr
      cases hr
    have hj : j.session.step capacity closeMsg .selectReader
        = some { j.session with main := .chose 0 } :=
      step_selectReader.mpr ⟨heq.trans hselecting, by rw [hsame]; exact hdone, rfl⟩
    refine ⟨_, targetStep_of_ne (by simp) hj,
      h.next (by simp) hstep ⟨.chose 0, by rw [hsame]⟩ (fun _ => rfl) id fun r hr => ?_⟩
    rw [hselecting] at hr
    cases hr
  | lookup =>
    obtain ⟨code, hchose, rfl⟩ := step_lookup.mp hstep
    obtain ⟨hbefore, heq, -⟩ := h.before fun r hr => by
      rw [hchose] at hr
      cases hr
    have hj : j.session.step capacity closeMsg .lookup = some { j.session with
        exitStatuses := none
        main := .returned (finalCode j.session.exitStatuses code) } :=
      step_lookup.mpr ⟨code, heq.trans hchose, rfl⟩
    refine ⟨_, targetStep_of_ne (by simp) hj, ⟨_, by rw [hsame]⟩, fun hnot => absurd rfl (hnot _),
      fun r hr => ⟨by simp, ?_⟩⟩
    have hevents : beforeLookup (events ++ [.lookup]) = events := by
      rw [beforeLookup_of_not_mem hbefore.lookup]
      exact List.append_nil _
    have hnone : j.session.exitStatuses = none := by rw [hsame]
    rw [hevents, ← hbefore.selected hchose, ← hbefore.captured]
    refine ⟨?_, (MainTask.returned.inj hr).symm⟩
    -- the map of `handler` is empty, so the selected code stands
    show MainTask.returned (finalCode j.session.exitStatuses code) = .returned code
    rw [hnone]
    rfl

theorem finalCode_eq_iff {captured : Option UInt32} {code : Int32} :
    finalCode captured code = code ↔ ∀ c, captured = some c → c.toInt32 = code := by
  unfold finalCode
  rcases captured with _ | c
  · simp
  · simp

/-- **Through a jump host, `run_session` returns what it returns on a direct connection exactly
when** the last status recorded before the lookup, if there is one, is the code that was selected;
before the lookup, the recorded statuses are visible to it exactly when there is none. -/
theorem proxyJump_exit_code_iff (hrun : runSession capacity closeMsg packets events = some s) :
    ∃ j, runTargetSession capacity closeMsg packets events = some j ∧
      (j.session.main = s.main ↔ (.lookup ∈ events → ∀ c,
        lastRecorded packets (beforeLookup events) = some c →
          c.toInt32 = selectedCode closeMsg packets (beforeLookup events))) ∧
      (.lookup ∉ events → (j.session.exitStatuses = j.targetStatuses ↔ .record ∉ events)) := by
  obtain ⟨j, hj, hfollows⟩ : ∃ j, runTargetSession capacity closeMsg packets events = some j ∧
      Follows closeMsg packets events s j :=
    Machine.run_simulation (R := Follows closeMsg packets) follows_start
      (fun _ _ _ _ _ h hstep => h.step hstep) hrun
  refine ⟨j, hj, ?_, fun hlookup => ?_⟩
  -- until the lookup both are the same session
  · by_cases hreturned : ∃ r, s.main = .returned r
    · obtain ⟨r, hr⟩ := hreturned
      obtain ⟨hmem, hcode, hfinal⟩ := hfollows.after r hr
      rw [hcode, hr, hfinal, MainTask.returned.injEq, eq_comm, finalCode_eq_iff]
      simp [hmem]
    · obtain ⟨hbefore, hmain, -⟩ := hfollows.before fun r hr => hreturned ⟨r, hr⟩
      exact iff_of_true hmain fun hmem => absurd hmem hbefore.lookup
  · obtain ⟨hbefore, -, htarget⟩ := hfollows.before fun r hr => hlookup (hfollows.after r hr).1
    obtain ⟨recorded, -, hcount, hlast⟩ := hbefore.recorded
    obtain ⟨main, hsame⟩ := hfollows.same
    have hnone : j.session.exitStatuses = none := by rw [hsame]
    rw [hnone, htarget, hlast, eq_comm, List.getLast?_eq_none_iff, ← List.length_eq_zero_iff,
      hcount, List.count_eq_zero]

end Both

/-- The server sends CLOSE before the status, and the callback is in time. -/
def closeFirst : List SessionEvent :=
  [.packet, .packet, .record, .receive, .sendCode, .selectCode, .lookup, .finish]

/-- The status 3 is returned on a direct connection, and 0 through a jump host. -/
theorem proxyJump_loses_status :
    ¬ ∀ (capacity : Nat) (closeMsg : Bool) (packets : List ChannelMsg) (events : List SessionEvent)
        (s : Session) (j : TargetSession),
      runSession capacity closeMsg packets events = some s →
      runTargetSession capacity closeMsg packets events = some j →
        j.session.main = s.main := by
  intro hall
  have hsame := hall 100 false [.close, .exitStatus 3] closeFirst _ _ rfl rfl
  exact absurd hsame (by decide)

theorem proxyJump_keeps_early_status :
    ∃ j, runTargetSession 100 false [.exitStatus 3, .eof, .close] inTime = some j ∧
      j.session.main = .returned 3 := by
  have hrun : runSession 100 false [.exitStatus 3, .eof, .close] inTime
      = some ⟨[], none, false, [.eof], ⟨.exited, 3, [], []⟩, some 3, true, none, .returned 3⟩ := rfl
  obtain ⟨j, hj, hcode, -⟩ := proxyJump_exit_code_iff hrun
  exact ⟨j, hj, hcode.mpr fun _ c hc => by
    obtain rfl : (3 : UInt32) = c := Option.some.inj hc
    decide⟩

end Passhrs
