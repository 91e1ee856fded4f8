import Mathlib.Logic.Function.Basic
import Passhrs.Lib.Machine

/-!
# The control path

Masters that start and exit on one control path. `bind_listener` unlinks what is at the path, binds
a socket there and sets its mode; `run_master` then accepts until it is told to stop, and the drop
of `ControlSocketGuard` unlinks what is at the path. Each of these is one step, of any of the
masters, and a run is a list of steps.

* **`serves_always_iff`**: as long as a master accepts the path leads to one that does, exactly when
  nothing is unlinked while a master accepts, none leaves from behind the path while another
  accepts, and none enters its loop over the socket of one that does not accept.
-/

namespace Passhrs

/-! ## Masters on a path -/

/-- What is at the path: the socket that a master bound, or a file left by none of them. -/
inductive PathEntry where
  | stale
  | socket (master : Nat)
deriving DecidableEq

/-- A master: not started, in `bind_listener` after its `remove_file` or its `bind`, in the accept
loop, past it with the listener closed, and past its guard; or `bind_listener` has failed. -/
inductive MasterPhase where
  | idle
  | unlinked
  | bound
  | accepting
  | left
  | exited
  | failed
deriving DecidableEq

structure ControlPath where
  entry : Option PathEntry
  phase : Nat → MasterPhase

def ControlPath.start (stale : Bool) : ControlPath :=
  ⟨if stale then some .stale else none, fun _ => .idle⟩

/-- A step of one master. -/
inductive ControlEvent where
  | unlink (master : Nat)
  | bind (master : Nat)
  | chmod (master : Nat)
  | leave (master : Nat)
  | dropGuard (master : Nat)

/-- The state in which `master` has got to `phase`. -/
def ControlPath.moved (s : ControlPath) (master : Nat) (phase : MasterPhase) : ControlPath :=
  { s with phase := Function.update s.phase master phase }

def ControlPath.step (s : ControlPath) : ControlEvent → Option ControlPath
  | .unlink i =>
    if s.phase i = .idle then some { s.moved i .unlinked with entry := none } else none
  | .bind i =>
    if s.phase i = .unlinked then
      match s.entry with
      | none => some { s.moved i .bound with entry := some (.socket i) }
      -- EADDRINUSE: another master has been faster
      | some _ => some (s.moved i .failed)
    else none
  | .chmod i =>
    if s.phase i = .bound then
      match s.entry with
      -- ENOENT: another master has unlinked the socket
      | none => some (s.moved i .failed)
      | some _ => some (s.moved i .accepting)
    else none
  | .leave i => if s.phase i = .accepting then some (s.moved i .left) else none
  | .dropGuard i =>
    if s.phase i = .left then some { s.moved i .exited with entry := none } else none

/-! ## Reaching a master -/

/-- When a master accepts, a client that connects reaches one that does. -/
def ControlPath.Serves (s : ControlPath) : Prop :=
  (∃ i, s.phase i = .accepting) → ∃ j, s.entry = some (.socket j) ∧ s.phase j = .accepting

/-- The step takes the path away from no master that accepts. -/
def SparesPath (s : ControlPath) : ControlEvent → Prop
  | .unlink _ | .dropGuard _ => ∀ j, s.phase j ≠ .accepting
  | .bind _ => True
  | .chmod i => ∀ e, s.entry = some e →
      e = .socket i ∨ ∃ j, e = .socket j ∧ s.phase j = .accepting
  | .leave i => s.entry = some (.socket i) → ∀ j, s.phase j = .accepting → j = i

section Steps

variable {s : ControlPath} {i j : Nat} {phase : MasterPhase}

theorem moved_accepting_iff (h : phase ≠ .accepting) :
    (s.moved i phase).phase j = .accepting ↔ j ≠ i ∧ s.phase j = .accepting := by
  by_cases hj : j = i
  · subst hj
    simp [ControlPath.moved, h]
  · simp [ControlPath.moved, hj]

/-- A master that moves from one phase outside its loop to another changes nothing for clients. -/
theorem moved_accepting_iff_of_ne (h : phase ≠ .accepting) (hi : s.phase i ≠ .accepting) :
    (s.moved i phase).phase j = .accepting ↔ s.phase j = .accepting := by
  rw [moved_accepting_iff h]
  constructor
  · exact fun hj => hj.2
  · intro hj
    refine ⟨?_, hj⟩
    rintro rfl
    exact hi hj

/-- Without an entry no client reaches anyone. -/
theorem serves_iff_of_none (h : s.entry = none) : s.Serves ↔ ∀ j, s.phase j ≠ .accepting := by
  constructor
  · intro hs j hj
    obtain ⟨k, hk, -⟩ := hs ⟨j, hj⟩
    rw [h] at hk
    cases hk
  · rintro hnone ⟨j, hj⟩
    exact absurd hj (hnone j)

/-- A master outside its loop moves on and the path is left alone, or has no master behind it. -/
theorem serves_moved_iff (h : phase ≠ .accepting) (hi : s.phase i ≠ .accepting) :
    (s.moved i phase).Serves ↔ s.Serves := by
  unfold ControlPath.Serves
  simp only [moved_accepting_iff_of_ne h hi]
  exact Iff.rfl

theorem moved_accepting_self_iff :
    (s.moved i .accepting).phase j = .accepting ↔ j = i ∨ s.phase j = .accepting := by
  by_cases hj : j = i
  · subst hj
    simp [ControlPath.moved]
  · simp [ControlPath.moved, hj]

/-- A master that begins to accept is reached, or another one that accepts. -/
theorem serves_accepting_iff {e : PathEntry} (hentry : s.entry = some e) :
    (s.moved i .accepting).Serves ↔
      e = .socket i ∨ ∃ j, e = .socket j ∧ s.phase j = .accepting := by
  have hmoved : (s.moved i .accepting).Serves ↔
      ∃ j, e = .socket j ∧ (j = i ∨ s.phase j = .accepting) := by
    unfold ControlPath.Serves
    simp only [moved_accepting_self_iff]
    show (_ → ∃ j, s.entry = some (.socket j) ∧ _) ↔ _
    rw [hentry]
    simp only [Option.some_inj]
    exact ⟨fun h => h ⟨i, .inl rfl⟩, fun h _ => h⟩
  rw [hmoved]
  constructor
  · rintro ⟨j, rfl, rfl | hj⟩
    · exact .inl rfl
    · exact .inr ⟨j, rfl, hj⟩
  · rintro (rfl | ⟨j, rfl, hj⟩)
    · exact ⟨i, rfl, .inl rfl⟩
    · exact ⟨j, rfl, .inr hj⟩

/-- A master that leaves its loop is missed when clients reach it and others accept. -/
theorem serves_left_iff (hs : s.Serves) (hphase : s.phase i = .accepting) :
    (s.moved i .left).Serves ↔
      (s.entry = some (.socket i) → ∀ j, s.phase j = .accepting → j = i) := by
  obtain ⟨k, hentry, hk⟩ := hs ⟨i, hphase⟩
  unfold ControlPath.Serves
  have hleft : ∀ j, (s.moved i .left).phase j = .accepting ↔ j ≠ i ∧ s.phase j = .accepting :=
    fun j => moved_accepting_iff (by simp)
  simp only [hleft]
  show (_ → ∃ j, s.entry = some (.socket j) ∧ _) ↔
    (s.entry = some (.socket i) → ∀ j, s.phase j = .accepting → j = i)
  rw [hentry]
  simp only [Option.some_inj, PathEntry.socket.injEq]
  constructor
  · rintro h rfl j hj
    by_contra hne
    obtain ⟨_, rfl, hki, -⟩ := h ⟨j, hne, hj⟩
    exact hki rfl
  · rintro h ⟨j, hne, hj⟩
    exact ⟨k, rfl, fun hki => hne (h hki j hj), hk⟩

/-- **What it takes for a step** to keep the path serving. -/
theorem serves_step_iff {s' : ControlPath} {e : ControlEvent} (hs : s.Serves)
    (hstep : s.step e = some s') : s'.Serves ↔ SparesPath s e := by
  cases e with
  | unlink i =>
    obtain ⟨hphase, rfl⟩ := Option.ite_some_none_eq_some.mp hstep
    rw [serves_iff_of_none rfl]
    exact forall_congr' fun j => not_congr (moved_accepting_iff_of_ne (by simp) (by simp [hphase]))
  | dropGuard i =>
    obtain ⟨hphase, rfl⟩ := Option.ite_some_none_eq_some.mp hstep
    rw [serves_iff_of_none rfl]
    exact forall_congr' fun j => not_congr (moved_accepting_iff_of_ne (by simp) (by simp [hphase]))
  | bind i =>
    refine iff_of_true ?_ trivial
    simp only [ControlPath.step] at hstep
    split at hstep
    · next hphase =>
      have hi : s.phase i ≠ .accepting := by simp [hphase]
      split at hstep
      · next hentry =>
        -- there was no entry, so no master accepts
        obtain rfl := Option.some.inj hstep
        rintro ⟨j, hj⟩
        have hj : s.phase j = .accepting := (moved_accepting_iff_of_ne (by simp) hi).mp hj
        exact absurd hj ((serves_iff_of_none hentry).mp hs j)
      · obtain rfl := Option.some.inj hstep
        exact (serves_moved_iff (by simp) hi).mpr hs
    · cases hstep
  | chmod i =>
    simp only [ControlPath.step] at hstep
    split at hstep
    · next hphase =>
      have hi : s.phase i ≠ .accepting := by simp [hphase]
      split at hstep
      · next hentry =>
        obtain rfl := Option.some.inj hstep
        refine iff_of_true ((serves_moved_iff (by simp) hi).mpr hs) fun e he => ?_
        rw [hentry] at he
        cases he
      · next e hentry =>
        obtain rfl := Option.some.inj hstep
        rw [serves_accepting_iff hentry]
        show _ ↔ ∀ e', s.entry = some e' → _
        rw [hentry]
        exact ⟨fun h e' he' => Option.some.inj he' ▸ h, fun h => h e rfl⟩
    · cases hstep
  | leave i =>
    obtain ⟨hphase, rfl⟩ := Option.ite_some_none_eq_some.mp hstep
    exact serves_left_iff hs hphase

end Steps

/-- **The path leads to a master that accepts, in every state of a run, exactly when** each of its
steps spares it. -/
theorem serves_always_iff {stale : Bool} {events : List ControlEvent} {s : ControlPath}
    (hrun : Machine.run ControlPath.step (.start stale) events = some s) :
    Machine.Always ControlPath.step ControlPath.Serves (.start stale) events ↔
      Machine.EachStep ControlPath.step SparesPath (.start stale) events := by
  refine Machine.always_iff_eachStep (I := fun _ => True) trivial ?_ (fun _ _ _ _ _ => trivial)
    (fun s e s' _ hs hstep => serves_step_iff hs hstep) hrun
  rintro ⟨i, hi⟩
  cases hi

/-- A master that is replaced unlinks the socket of the one that replaced it. -/
theorem control_path_lost :
    ¬ ∀ (events : List ControlEvent) (s : ControlPath),
      Machine.run ControlPath.step (.start false) events = some s → s.Serves := by
  intro hall
  have hserves := hall [.unlink 0, .bind 0, .chmod 0, .unlink 1, .bind 1, .chmod 1, .leave 0,
    .dropGuard 0] _ rfl
  obtain ⟨j, hj, -⟩ := hserves ⟨1, rfl⟩
  cases hj

theorem serves_always_one_after_another :
    Machine.Always ControlPath.step ControlPath.Serves (.start true)
        [.unlink 0, .bind 0, .chmod 0, .leave 0, .dropGuard 0, .unlink 1, .bind 1, .chmod 1] ↔
      Machine.EachStep ControlPath.step SparesPath (.start true)
        [.unlink 0, .bind 0, .chmod 0, .leave 0, .dropGuard 0, .unlink 1, .bind 1, .chmod 1] :=
  serves_always_iff rfl

end Passhrs
