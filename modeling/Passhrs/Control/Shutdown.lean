import Mathlib.Logic.Function.Basic
import Passhrs.Control.ControlCommand
import Passhrs.Lib.Machine

/-!
# The shutdown of a master

`accept_loop`, the task of each connection, and any number of clients, step by step. The tasks run
on threads of their own, so the loop may be overtaken between its look at `SHOULD_EXIT` and its look
at the listener. A task is what is left of its `handle_resume`, and each of its operations is one
step.

`bind_listener` wraps a listener that was never made non-blocking. Up to the first connection this
makes no difference, since the loop waits for the runtime to find the listener readable. From then
on the listener counts as readable, and `accept` is a blocking call of the operating system: the
loop sits in it until there is a connection, and neither the notification nor a signal wakes it.

* **`acceptsNoneAfter_iff`**: once a client of `-O exit` has its acknowledgement, no connection that
  is opened later is accepted, exactly when the loop has left, or the notification is in place and
  the loop looks at it before it can accept such a connection.
* **`returned_of_blocked`**: a loop that sits in `accept` leaves only after it has served one more
  connection, or a failure of `accept`, whatever it was told before.
-/

namespace Passhrs

open Effects Text

/-! ## The master's process -/

/-- Where `accept_loop` is: before the `select!`, in it behind the looks at the signals and at
`SHOULD_EXIT`, or returned, with its listener closed. -/
inductive AcceptLoop where
  | polling
  | checked
  | returned
deriving DecidableEq

/-- A connection is a number, and they are numbered in the order in which they are opened. -/
structure MasterState where
  loop : AcceptLoop
  /-- The runtime has found the listener readable. It takes that back only when `accept` would
  block, which the `accept` of a blocking listener never says. -/
  readable : Bool
  /-- The connections that wait to be accepted. -/
  backlog : List Nat
  opened : Nat
  accepted : List Nat
  /-- `SHOULD_EXIT` holds a permit: `notify_one` was called, and no `notified()` has ended. -/
  permit : Bool
  /-- What is left to do for a connection. -/
  task : Nat → Prog MasterOp MasterOp.Res (Except String Unit)
  /-- What was written to it. -/
  sent : Nat → Bytes

def MasterState.start : MasterState :=
  ⟨.polling, false, [], 0, [], false, fun _ => .pure (.ok ()), fun _ => []⟩

/-- A client connects; the runtime finds the listener readable; the loop finds that a signal has
come; it looks at `SHOULD_EXIT`; it waits, while the listener is not readable, and is woken; it
accepts a connection, whose client sends `rx`, or the accept fails; the next operation for a
connection, with its answer; the client of `-O exit` or `-O stop` reads its acknowledgement,
`reply`. -/
inductive MasterEvent where
  | connect
  | becomesReadable
  | signal
  | pollExit
  | wait
  | accept (rx : Bytes)
  | acceptFails
  | task (connection : Nat) (answer : (op : MasterOp) → op.Res)
  | acknowledged (connection : Nat) (reply : Bytes)

/-- One operation of a task. -/
def MasterState.stepTask (s : MasterState) (c : Nat) (answer : (op : MasterOp) → op.Res) :
    Option MasterState :=
  match s.task c with
  | .pure _ => none
  | .op op k =>
    some { s with
      task := Function.update s.task c (k (answer op))
      sent := Function.update s.sent c (s.sent c ++ op.bytes)
      permit := s.permit || op = .setShouldExit }

def MasterState.step (pid : UInt32) (s : MasterState) : MasterEvent → Option MasterState
  | .connect =>
    if s.loop ≠ .returned then
      some { s with backlog := s.backlog ++ [s.opened], opened := s.opened + 1 }
    else none
  | .becomesReadable => if s.backlog ≠ [] then some { s with readable := true } else none
  | .signal => if s.loop = .polling then some { s with loop := .returned } else none
  | .pollExit =>
    if s.loop = .polling then
      if s.permit then some { s with loop := .returned, permit := false }
      else some { s with loop := .checked }
    else none
  -- the loop is woken by the runtime, by the notification or by a signal, and starts over
  | .wait =>
    if s.loop = .checked ∧ s.readable = false then some { s with loop := .polling } else none
  | .accept rx =>
    if s.loop = .checked ∧ s.readable = true then
      match s.backlog with
      -- the call blocks
      | [] => none
      | c :: backlog =>
        some { s with
          loop := .polling
          backlog := backlog
          accepted := s.accepted ++ [c]
          task := Function.update s.task c (handleResume pid rx).run }
    else none
  | .acceptFails =>
    if s.loop = .checked ∧ s.readable = true then some { s with loop := .polling } else none
  | .task c answer => s.stepTask c answer
  | .acknowledged c reply =>
    if reply <+: s.sent c ∧ sendControlCommand (.ok ()) (.ok ()) reply = .exiting then some s
    else none

/-! ## What is accepted from a state on -/

/-- The loop accepts no connection that is opened from now on. -/
def MasterState.Closing (s : MasterState) : Prop :=
  s.loop = .returned ∨ s.permit = true ∧ (s.loop = .checked → s.backlog ≠ [])

/-- Only the first `n` connections have been accepted, or can be next. -/
structure ClosedTo (n : Nat) (s : MasterState) : Prop where
  accepted : ∀ c ∈ s.accepted, c < n
  closing : s.loop = .returned ∨ s.permit = true ∧
    (s.loop = .checked → ∃ c rest, s.backlog = c :: rest ∧ c < n)

section Steps

variable {pid : UInt32} {s s' : MasterState} {n : Nat}

/-- A task leaves the loop and the listener alone, and takes no permit. -/
theorem stepTask_eq_some {c : Nat} {answer : (op : MasterOp) → op.Res}
    (h : s.stepTask c answer = some s') :
    s'.loop = s.loop ∧ s'.readable = s.readable ∧ s'.backlog = s.backlog ∧ s'.opened = s.opened ∧
      s'.accepted = s.accepted ∧ (s.permit = true → s'.permit = true) := by
  unfold MasterState.stepTask at h
  split at h
  · cases h
  · obtain rfl := Option.some.inj h
    exact ⟨rfl, rfl, rfl, rfl, rfl, fun hpermit => by simp [hpermit]⟩

theorem acknowledged_eq_some {c : Nat} {reply : Bytes}
    (h : s.step pid (.acknowledged c reply) = some s') : s' = s :=
  (Option.ite_some_none_eq_some.mp h).2.symm

/-- A listener that is closed to later connections stays closed to them. -/
theorem ClosedTo.step {e : MasterEvent} (hs : ClosedTo n s) (hstep : s.step pid e = some s') :
    ClosedTo n s' := by
  obtain ⟨haccepted, hclosing⟩ := hs
  cases e with
  | connect =>
    obtain ⟨hopen, rfl⟩ := Option.ite_some_none_eq_some.mp hstep
    obtain ⟨hpermit, hnext⟩ := hclosing.resolve_left hopen
    refine ⟨haccepted, .inr ⟨hpermit, fun hchecked => ?_⟩⟩
    -- the earlier connection is still in front
    obtain ⟨c, rest, hbacklog, hc⟩ := hnext hchecked
    exact ⟨c, rest ++ [s.opened], by rw [hbacklog]; rfl, hc⟩
  | becomesReadable =>
    obtain ⟨-, rfl⟩ := Option.ite_some_none_eq_some.mp hstep
    exact ⟨haccepted, hclosing⟩
  | signal =>
    obtain ⟨-, rfl⟩ := Option.ite_some_none_eq_some.mp hstep
    exact ⟨haccepted, .inl rfl⟩
  | pollExit =>
    dsimp only [MasterState.step] at hstep
    split at hstep
    -- the notification is in place, so the look at SHOULD_EXIT ends the loop
    · next hpolling =>
      obtain ⟨hpermit, -⟩ := hclosing.resolve_left (by rw [hpolling]; simp)
      rw [if_pos hpermit] at hstep
      obtain rfl := Option.some.inj hstep
      exact ⟨haccepted, .inl rfl⟩
    · cases hstep
  | accept rx =>
    dsimp only [MasterState.step] at hstep
    split at hstep
    -- accept takes the earlier connection, and the loop comes round to the look
    · next hblocked =>
      obtain ⟨hpermit, hnext⟩ := hclosing.resolve_left (by rw [hblocked.1]; simp)
      obtain ⟨c, rest, hbacklog, hc⟩ := hnext hblocked.1
      rw [hbacklog] at hstep
      obtain rfl := Option.some.inj hstep
      refine ⟨fun d hd => ?_, .inr ⟨hpermit, fun h => by cases h⟩⟩
      rcases List.mem_append.mp hd with hd | hd
      · exact haccepted d hd
      · rw [List.mem_singleton.mp hd]
        exact hc
    · cases hstep
  | wait | acceptFails =>
    obtain ⟨⟨hchecked, -⟩, rfl⟩ := Option.ite_some_none_eq_some.mp hstep
    obtain ⟨hpermit, -⟩ := hclosing.resolve_left (by rw [hchecked]; simp)
    exact ⟨haccepted, .inr ⟨hpermit, fun h => by cases h⟩⟩
  | task c answer =>
    obtain ⟨hloop, -, hbacklog, -, hsame, hpermit⟩ := stepTask_eq_some hstep
    refine ⟨by rwa [hsame], ?_⟩
    rw [hloop, hbacklog]
    exact hclosing.imp_right fun h => ⟨hpermit h.1, h.2⟩
  | acknowledged c reply =>
    rw [acknowledged_eq_some hstep]
    exact ⟨haccepted, hclosing⟩

/-- Connections are numbered in the order in which they are opened. -/
def Numbered (s : MasterState) : Prop :=
  (∀ c ∈ s.accepted, c < s.opened) ∧ ∀ c ∈ s.backlog, c < s.opened

theorem Numbered.step {e : MasterEvent} (hs : Numbered s) (hstep : s.step pid e = some s') :
    Numbered s' := by
  obtain ⟨haccepted, hbacklog⟩ := hs
  cases e with
  | connect =>
    obtain ⟨-, rfl⟩ := Option.ite_some_none_eq_some.mp hstep
    refine ⟨fun c hc => Nat.lt_succ_of_lt (haccepted c hc), fun c hc => ?_⟩
    rcases List.mem_append.mp hc with hc | hc
    · exact Nat.lt_succ_of_lt (hbacklog c hc)
    · rw [List.mem_singleton.mp hc]
      exact Nat.lt_succ_self _
  | becomesReadable | signal | wait | acceptFails =>
    obtain ⟨-, rfl⟩ := Option.ite_some_none_eq_some.mp hstep
    exact ⟨haccepted, hbacklog⟩
  | pollExit =>
    dsimp only [MasterState.step] at hstep
    split at hstep
    · split at hstep <;> obtain rfl := Option.some.inj hstep <;> exact ⟨haccepted, hbacklog⟩
    · cases hstep
  | accept rx =>
    dsimp only [MasterState.step] at hstep
    split at hstep
    · split at hstep
      · cases hstep
      · next c rest heq =>
        obtain rfl := Option.some.inj hstep
        rw [heq] at hbacklog
        refine ⟨fun d hd => ?_, fun d hd => hbacklog d (List.mem_cons_of_mem _ hd)⟩
        rcases List.mem_append.mp hd with hd | hd
        · exact haccepted d hd
        · rw [List.mem_singleton.mp hd]
          exact hbacklog c (List.mem_cons_self)
    · cases hstep
  | task c answer =>
    obtain ⟨-, -, hsame, hopened, haccepted', -⟩ := stepTask_eq_some hstep
    unfold Numbered
    rw [hsame, hopened, haccepted']
    exact ⟨haccepted, hbacklog⟩
  | acknowledged c reply =>
    rw [acknowledged_eq_some hstep]
    exact ⟨haccepted, hbacklog⟩

end Steps

/-! ## How a later connection gets in -/

section Later

variable (pid : UInt32) {s : MasterState}

theorem step_becomesReadable (hbacklog : s.backlog ≠ []) :
    s.step pid .becomesReadable = some { s with readable := true } := if_pos hbacklog

theorem step_accept {c : Nat} {rest : List Nat} (hloop : s.loop = .checked)
    (hreadable : s.readable = true) (hbacklog : s.backlog = c :: rest) (rx : Bytes) :
    s.step pid (.accept rx) = some { s with
      loop := .polling
      backlog := rest
      accepted := s.accepted ++ [c]
      task := Function.update s.task c (handleResume pid rx).run } := by
  dsimp only [MasterState.step]
  rw [if_pos ⟨hloop, hreadable⟩, hbacklog]

theorem step_pollExit (hloop : s.loop = .polling) (hpermit : s.permit = false) :
    s.step pid .pollExit = some { s with loop := .checked } := by
  dsimp only [MasterState.step]
  rw [if_pos hloop, if_neg (by rw [hpermit]; simp)]

theorem step_pollExit_of_permit (hloop : s.loop = .polling) (hpermit : s.permit = true) :
    ∃ s', s.step pid .pollExit = some s' ∧ s'.loop = .returned := by
  refine ⟨{ s with loop := .returned, permit := false }, ?_, rfl⟩
  dsimp only [MasterState.step]
  rw [if_pos hloop, if_pos hpermit]

/-- With nothing in the backlog, the loop accepts the next one that connects. -/
theorem accepts_next (hloop : s.loop = .checked) (hbacklog : s.backlog = []) :
    ∃ s', Machine.run (MasterState.step pid) s [.connect, .becomesReadable, .accept []] = some s' ∧
      s.opened ∈ s'.accepted := by
  have hconnect : s.step pid .connect
      = some { s with backlog := s.backlog ++ [s.opened], opened := s.opened + 1 } :=
    if_pos (by rw [hloop]; simp)
  set connected : MasterState :=
    { s with backlog := s.backlog ++ [s.opened], opened := s.opened + 1 }
  have hreadable := step_becomesReadable pid (s := connected) (by simp [connected])
  have haccept := step_accept pid (s := { connected with readable := true }) hloop rfl
    (show s.backlog ++ [s.opened] = s.opened :: [] by rw [hbacklog]; rfl) []
  exact ⟨_, Machine.run_cons_eq_some.mpr ⟨_, hconnect,
      Machine.run_cons_eq_some.mpr ⟨_, hreadable,
        Machine.run_cons_eq_some.mpr ⟨_, haccept, rfl⟩⟩⟩,
    List.mem_append_right _ (List.mem_singleton_self _)⟩

/-- Without a permit, the loop accepts what is in the backlog. -/
theorem exists_drained (hloop : s.loop = .checked) (hpermit : s.permit = false) :
    ∃ events s', Machine.run (MasterState.step pid) s events = some s' ∧ s'.loop = .checked ∧
      s'.backlog = [] ∧ s'.opened = s.opened := by
  induction hbacklog : s.backlog generalizing s with
  | nil => exact ⟨[], s, rfl, hloop, hbacklog, rfl⟩
  | cons c rest ih =>
    -- take the first one, look at SHOULD_EXIT, which is not set, and go on with the others
    have hreadable := step_becomesReadable pid (s := s) (by rw [hbacklog]; simp)
    have haccept :=
      step_accept pid (s := { s with readable := true }) hloop rfl hbacklog []
    set taken : MasterState := { s with
      loop := .polling
      readable := true
      backlog := rest
      accepted := s.accepted ++ [c]
      task := Function.update s.task c (handleResume pid []).run }
    have hpoll := step_pollExit pid (s := taken) rfl hpermit
    obtain ⟨events, s', hrest, hdrained⟩ :=
      ih (s := { taken with loop := .checked }) rfl hpermit rfl
    exact ⟨_, s', Machine.run_cons_eq_some.mpr ⟨_, hreadable,
      Machine.run_cons_eq_some.mpr ⟨_, haccept,
        Machine.run_cons_eq_some.mpr ⟨_, hpoll, hrest⟩⟩⟩, hdrained⟩

theorem exists_accepts_of_no_permit (hloop : s.loop = .checked) (hpermit : s.permit = false) :
    ∃ events s', Machine.run (MasterState.step pid) s events = some s' ∧
      s.opened ∈ s'.accepted := by
  obtain ⟨events, t, hdrain, ht, hempty, hopened⟩ := exists_drained pid hloop hpermit
  obtain ⟨s', hrun, hmem⟩ := accepts_next pid ht hempty
  rw [hopened] at hmem
  exact ⟨_, s', Machine.run_append_eq_some.mpr ⟨t, hdrain, hrun⟩, hmem⟩

/-- A loop that is not closing accepts a later connection in some continuation. -/
theorem exists_accepts_of_not_closing (hs : ¬ s.Closing) :
    ∃ events s', Machine.run (MasterState.step pid) s events = some s' ∧
      s.opened ∈ s'.accepted := by
  obtain ⟨hrunning, hopen⟩ := not_or.mp hs
  cases hloop : s.loop with
  | returned => exact absurd hloop hrunning
  | polling =>
    have hpermit : s.permit = false := by
      by_contra h
      exact hopen ⟨by simpa using h, fun hchecked => by rw [hloop] at hchecked; cases hchecked⟩
    obtain ⟨events, s', hrun, hmem⟩ :=
      exists_accepts_of_no_permit pid (s := { s with loop := .checked }) rfl hpermit
    exact ⟨_, s', Machine.run_cons_eq_some.mpr ⟨_, step_pollExit pid hloop hpermit, hrun⟩, hmem⟩
  | checked =>
    by_cases hpermit : s.permit = true
    -- the notification is in place, but the loop is past its look and sits in accept
    · have hempty : s.backlog = [] := by
        by_contra hne
        exact hopen ⟨hpermit, fun _ => hne⟩
      obtain ⟨s', hrun, hmem⟩ := accepts_next pid hloop hempty
      exact ⟨_, s', hrun, hmem⟩
    · exact exists_accepts_of_no_permit pid hloop (by simpa using hpermit)

end Later

/-! ## After the acknowledgement -/

/-- **Once a client has its acknowledgement, no connection that is opened later is accepted, exactly
when** the loop has left, or the notification is in place and the loop is not on its way from its
look at it to an empty backlog. -/
theorem acceptsNoneAfter_iff {pid : UInt32} {before : List MasterEvent} {s s' : MasterState}
    {c : Nat} {reply : Bytes}
    (hrun : Machine.run (MasterState.step pid) .start before = some s)
    (hack : s.step pid (.acknowledged c reply) = some s') :
    (∀ after s'', Machine.run (MasterState.step pid) s' after = some s'' →
        ∀ d ∈ s''.accepted, d < s'.opened) ↔ s'.Closing := by
  obtain rfl := acknowledged_eq_some hack
  have hnumbered : Numbered s' :=
    Machine.run_invariant (I := fun _ t => Numbered t) ⟨by simp [MasterState.start],
      by simp [MasterState.start]⟩ (fun _ _ _ _ hs hstep => hs.step hstep) hrun
  constructor
  · intro hnone
    by_contra hs
    obtain ⟨after, s'', hafter, hmem⟩ := exists_accepts_of_not_closing pid hs
    exact lt_irrefl _ (hnone after s'' hafter _ hmem)
  -- connections are numbered as they are opened: a later one has a number from here on
  · intro hclosing after s'' hafter
    have hstart : ClosedTo s'.opened s' := by
      refine ⟨hnumbered.1, hclosing.imp_right fun h => ⟨h.1, fun hchecked => ?_⟩⟩
      obtain ⟨d, rest, hbacklog⟩ := List.exists_cons_of_ne_nil (h.2 hchecked)
      exact ⟨d, rest, hbacklog, hnumbered.2 d (by rw [hbacklog]; simp)⟩
    exact (Machine.run_invariant (I := fun _ t => ClosedTo s'.opened t) hstart
      (fun _ _ _ _ hs hstep => hs.step hstep) hafter).accepted

/-! ## A loop that sits in `accept` -/

/-- There is nothing to accept, and the call blocks. -/
structure MasterState.Blocked (s : MasterState) : Prop where
  loop : s.loop = .checked
  readable : s.readable = true
  backlog : s.backlog = []

/-- The loop still sits in the call that it sat in when `n` connections had been opened, or it has
accepted the next one. -/
def SitsOrServed (n : Nat) (s : MasterState) : Prop :=
  (s.loop = .checked ∧ s.readable = true ∧
    (s.backlog = [] ∧ s.opened = n ∨ s.backlog.head? = some n)) ∨ n ∈ s.accepted

theorem SitsOrServed.step {pid : UInt32} {n : Nat} {s s' : MasterState} {e : MasterEvent}
    (hs : SitsOrServed n s) (he : e ≠ .acceptFails) (hstep : s.step pid e = some s') :
    SitsOrServed n s' := by
  cases e with
  | connect =>
    obtain ⟨-, rfl⟩ := Option.ite_some_none_eq_some.mp hstep
    -- the new connection goes behind the others, or it is the next one itself
    refine hs.imp_left fun ⟨hloop, hreadable, hnext⟩ => ⟨hloop, hreadable, .inr ?_⟩
    rcases hnext with ⟨hempty, hopened⟩ | hhead
    · show (s.backlog ++ [s.opened]).head? = some n
      rw [hempty, hopened]
      rfl
    · show (s.backlog ++ [s.opened]).head? = some n
      rw [List.head?_append, hhead]
      rfl
  | becomesReadable =>
    obtain ⟨-, rfl⟩ := Option.ite_some_none_eq_some.mp hstep
    exact hs.imp_left fun ⟨hloop, _, hnext⟩ => ⟨hloop, rfl, hnext⟩
  | signal =>
    obtain ⟨hpolling, rfl⟩ := Option.ite_some_none_eq_some.mp hstep
    -- a signal is looked at before accept only, where the loop does not sit
    exact .inr (hs.resolve_left fun h => by rw [hpolling] at h; cases h.1)
  | pollExit =>
    dsimp only [MasterState.step] at hstep
    split at hstep
    · next hpolling =>
      have hserved : n ∈ s.accepted := hs.resolve_left fun h => by rw [hpolling] at h; cases h.1
      split at hstep <;> obtain rfl := Option.some.inj hstep <;> exact .inr hserved
    · cases hstep
  | wait =>
    obtain ⟨⟨-, hreadable⟩, rfl⟩ := Option.ite_some_none_eq_some.mp hstep
    exact .inr (hs.resolve_left fun h => by rw [hreadable] at h; cases h.2.1)
  | accept rx =>
    dsimp only [MasterState.step] at hstep
    split at hstep
    · split at hstep
      · cases hstep
      · next c rest hbacklog =>
        obtain rfl := Option.some.inj hstep
        -- the head of the backlog is the one that gets served
        right
        rcases hs with ⟨-, -, ⟨hempty, -⟩ | hhead⟩ | hserved
        · rw [hbacklog] at hempty
          cases hempty
        · rw [hbacklog, List.head?_cons, Option.some.injEq] at hhead
          exact List.mem_append_right _ (List.mem_singleton.mpr hhead.symm)
        · exact List.mem_append_left _ hserved
    · cases hstep
  | acceptFails => exact absurd rfl he
  | task c answer =>
    obtain ⟨hloop, hreadable, hbacklog, hopened, haccepted, -⟩ := stepTask_eq_some hstep
    unfold SitsOrServed
    rwa [hloop, hreadable, hbacklog, hopened, haccepted]
  | acknowledged c reply =>
    rw [acknowledged_eq_some hstep]
    exact hs

/-- **A loop that sits in `accept` leaves only after it has served one more connection**, the next
one that is opened, unless the call fails: no `-O exit`, no `-O stop` and no signal ends it. -/
theorem returned_of_blocked {pid : UInt32} {s s' : MasterState} {events : List MasterEvent}
    (hs : s.Blocked) (hrun : Machine.run (MasterState.step pid) s events = some s')
    (haccept : .acceptFails ∉ events) (hreturned : s'.loop = .returned) :
    s.opened ∈ s'.accepted := by
  have hstart : .acceptFails ∉ ([] : List MasterEvent) → SitsOrServed s.opened s :=
    fun _ => .inl ⟨hs.loop, hs.readable, .inl ⟨hs.backlog, rfl⟩⟩
  have hend : .acceptFails ∉ events → SitsOrServed s.opened s' :=
    Machine.run_invariant (I := fun events t => .acceptFails ∉ events → SitsOrServed s.opened t)
      hstart (fun events t e t' ht hstep hnot => by
        obtain ⟨hbefore, he⟩ := not_or.mp (mt List.mem_append.mpr hnot)
        exact (ht hbefore).step (fun h => he (List.mem_singleton.mpr h.symm)) hstep) hrun
  exact (hend haccept).resolve_left fun h => by rw [hreturned] at h; cases h.1

/-! ## One `-O exit` -/

/-- A client connects, is accepted, and sends `exit`. The loop comes round and sits in `accept`, and
the client's task answers, shuts the connection down and notifies the loop. -/
def exitRun : List MasterEvent :=
  [.connect, .becomesReadable, .pollExit, .accept (controlFrame "exit"), .pollExit,
    .task 0 fun op => (quietServer op ()).1, .task 0 fun op => (quietServer op ()).1,
    .task 0 fun op => (quietServer op ()).1]

theorem handleResume_exit (pid : UInt32) :
    handleResume pid (controlFrame "exit")
      = handleCtrlExit >>= fun _ => call .setShouldExit .ok := by
  rw [handleResume_controlFrame, receivedLine_of_length_lt (by decide)]
  rfl

/-- The notification is in place, and the loop sits in `accept` with nothing to accept. -/
theorem run_exitRun (pid : UInt32) :
    ∃ s, Machine.run (MasterState.step pid) .start exitRun = some s ∧ s.loop = .checked ∧
      s.readable = true ∧ s.backlog = [] ∧ s.permit = true ∧
      s.sent 0 = writeCmdFrame (utf8 "bye\n") := by
  have haccepted : Machine.run (MasterState.step pid) .start
      [.connect, .becomesReadable, .pollExit, .accept (controlFrame "exit"), .pollExit] = some
        ⟨.checked, true, [], 1, [0], false,
          Function.update (fun _ => .pure (.ok ())) 0 (handleResume pid (controlFrame "exit")).run,
          fun _ => []⟩ := rfl
  rw [handleResume_exit] at haccepted
  exact ⟨_, Machine.run_append_eq_some.mpr ⟨_, haccepted, rfl⟩, rfl, rfl, rfl, rfl, rfl⟩

/-- The client that has its acknowledgement connects again, and is accepted. -/
theorem acknowledged_accepts_later :
    ¬ ∀ (pid : UInt32) (before after : List MasterEvent) (s s' s'' : MasterState) (c : Nat)
        (reply : Bytes),
      Machine.run (MasterState.step pid) .start before = some s →
      s.step pid (.acknowledged c reply) = some s' →
      Machine.run (MasterState.step pid) s' after = some s'' →
      ∀ d ∈ s''.accepted, d < s'.opened := by
  intro hall
  obtain ⟨s, hrun, hloop, -, hempty, -, hsent⟩ := run_exitRun 1
  have hack : s.step 1 (.acknowledged 0 (writeCmdFrame (utf8 "bye\n"))) = some s :=
    if_pos ⟨by rw [hsent], by decide⟩
  obtain ⟨s'', hafter, hmem⟩ := accepts_next 1 hloop hempty
  exact lt_irrefl _ (hall 1 exitRun _ s s s'' 0 _ hrun hack hafter _ hmem)

/-- Another client's `check` is served before the master ends. -/
theorem returned_of_blocked_exitRun :
    ∃ s s', Machine.run (MasterState.step 1) .start exitRun = some s ∧
      Machine.run (MasterState.step 1) s [.connect, .accept (controlFrame "check"), .pollExit]
        = some s' ∧ s.opened ∈ s'.accepted := by
  obtain ⟨s, hrun, hloop, hreadable, hempty, hpermit, -⟩ := run_exitRun 1
  have hconnect : s.step 1 .connect
      = some { s with backlog := s.backlog ++ [s.opened], opened := s.opened + 1 } :=
    if_pos (by rw [hloop]; simp)
  set connected : MasterState :=
    { s with backlog := s.backlog ++ [s.opened], opened := s.opened + 1 }
  have haccept := step_accept 1 (s := connected) hloop hreadable
    (show s.backlog ++ [s.opened] = s.opened :: [] by rw [hempty]; rfl) (controlFrame "check")
  obtain ⟨s', hexit, hreturned⟩ := step_pollExit_of_permit 1 (s := { connected with
    loop := .polling
    backlog := []
    accepted := connected.accepted ++ [s.opened]
    task := Function.update connected.task s.opened (handleResume 1 (controlFrame "check")).run })
    rfl hpermit
  have hafter : Machine.run (MasterState.step 1) s
      [.connect, .accept (controlFrame "check"), .pollExit] = some s' :=
    Machine.run_cons_eq_some.mpr ⟨_, hconnect, Machine.run_cons_eq_some.mpr ⟨_, haccept,
      Machine.run_cons_eq_some.mpr ⟨_, hexit, rfl⟩⟩⟩
  exact ⟨s, s', hrun, hafter,
    returned_of_blocked ⟨hloop, hreadable, hempty⟩ hafter (by simp) hreturned⟩

theorem acceptsNoneAfter_exitRun :
    ∃ s s', Machine.run (MasterState.step 1) .start exitRun = some s ∧
      s.step 1 (.acknowledged 0 (writeCmdFrame (utf8 "bye\n"))) = some s' ∧
      ((∀ after s'', Machine.run (MasterState.step 1) s' after = some s'' →
        ∀ d ∈ s''.accepted, d < s'.opened) ↔ s'.Closing) := by
  obtain ⟨s, hrun, -, -, -, -, hsent⟩ := run_exitRun 1
  have hack : s.step 1 (.acknowledged 0 (writeCmdFrame (utf8 "bye\n"))) = some s :=
    if_pos ⟨by rw [hsent], by decide⟩
  exact ⟨s, s, hrun, hack, acceptsNoneAfter_iff hrun hack⟩

end Passhrs
