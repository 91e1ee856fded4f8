import Passhrs.Run.Starting

/-!
# Forwards that fail

With `ExitOnForwardFailure`, a forward that does not come up is to end the run with an error. The
`-L`, `-D` and `-H` forwards come up in tasks, whose results nobody reads.

* **`run_exits_on_failure_iff`**: the run ends with an error whenever a forward does not come up,
  exactly when its options start no task, or are rejected once the tasks are started.
* **`run_exits_on_refused_remote`**: a refused `-R` does end it.
-/

namespace Passhrs

open Effects

/-- The forward of a spec does not come up: no connection, no authentication or no listener. -/
def NotUp (op : ForwardOp) (answer : op.Res) : Prop :=
  match op, answer with
  | .connect _ _ _ _, .error _ | .authenticateFwd _ _ _ _, .error _ | .parseAddr _, .error _
  | .bind _, .error _ => True
  | _, _ => False

/-- In one of the tasks that the run spawns, a forward does not come up. The tasks run against
`hf`, each from a state of its own. -/
def ForwardFails {σ τ : Type} (h : Handler RunOp RunOp.Res σ) (s : σ)
    (hf : Handler ForwardOp ForwardOp.Res τ) (start : ForwardTask → τ) (ctx : Surroundings)
    (cli : Cli) (st : Settings) : Prop :=
  ∃ task, ⟨.spawnForwards task, ()⟩ ∈ execLog h (run ctx cli st) s ∧
    ∃ e ∈ execLog hf (forwardTask ctx.defaults task) (start task), NotUp e.1 e.2

/-- Connections that are all refused. -/
def refuseConnections : Handler ForwardOp ForwardOp.Res Unit := fun op t =>
  match op with
  | .connect _ _ _ _ => (.error "connection refused", t)
  | .accept _ => (none, t)
  | .authenticateFwd _ _ _ _ | .parseAddr _ | .bind _ => (.ok (), t)

/-- **A run ends with an error whenever a forward of its tasks does not come up, exactly when** its
options start no task, or are rejected once it is started. `ExitOnForwardFailure` does not enter. -/
theorem run_exits_on_failure_iff (ctx : Surroundings) (cli : Cli) (st : Settings) :
    (∀ (σ τ : Type) (h : Handler RunOp RunOp.Res σ) (s : σ)
        (hf : Handler ForwardOp ForwardOp.Res τ) (start : ForwardTask → τ),
      ForwardFails h s hf start ctx cli st →
        ∃ message, (exec h (run ctx cli st) s).1 = .error message) ↔
      ¬ StartsForward ctx cli st ∨ RejectedLater ctx cli := by
  constructor
  · intro hall
    by_contra hneither
    rw [not_or, not_not] at hneither
    obtain ⟨hstarts, haccepted⟩ := hneither
    obtain ⟨specs, hsome, hspawn⟩ := exists_spawn hstarts
    -- every call of the run succeeds, and none of its tasks
    have hfails : ForwardFails grantAll () refuseConnections (fun _ => ()) ctx cli st :=
      ⟨_, hspawn, _, connect_mem_execLog_forwardTask refuseConnections ctx.defaults hsome (),
        trivial⟩
    obtain ⟨message, herror⟩ := hall Unit Unit grantAll () refuseConnections (fun _ => ()) hfails
    obtain ⟨ending, hok⟩ := (passes_run hstarts.reaches haccepted).exec_ok
    rw [hok] at herror
    cases herror
  · rintro hwhen σ τ h s hf start ⟨task, hspawn, -⟩
    have hstarts := startsForward_of_spawn hspawn rfl
    rcases hwhen with hnone | hrejected
    · exact absurd hstarts hnone
    · obtain ⟨message, s', herror⟩ := exec_run_of_rejectedLater (h := h) (s := s) hstarts.reaches
        hrejected
      exact ⟨message, congrArg Prod.fst herror⟩

/-! ## Remote forwards -/

/-- The server refuses an `-R`. -/
def RefusesRemote (op : RunOp) (answer : op.Res) : Prop :=
  match op, answer with
  | .tcpipForward _ _, .error _ => True
  | _, _ => False

section Remote

variable {ctx : Surroundings} {cli : Cli} {st : Settings}

/-- What makes no such request has none refused. -/
theorem stopsOn_of_does {α : Type} {x : RunM α}
    (hx : Does (fun op => ∀ addr port, op ≠ .tcpipForward addr port) x) :
    StopsOn RefusesRemote x := by
  refine stopsOn_of_emits hx fun op answer hop hrefused => ?_
  cases op with
  | tcpipForward addr port => exact hop addr port rfl
  | _ => exact hrefused

theorem stopsOn_spawnForwardTasks (session : ForwardSession) (specs : ForwardSpecs) :
    StopsOn RefusesRemote (spawnForwardTasks session specs) := by
  unfold spawnForwardTasks
  split
  · trivial
  · exact stopsOn_of_does (does_call (by simp))

theorem stopsOn_startForwards (hexit : st.exitOnFwdFailure = true) :
    StopsOn RefusesRemote (startForwards cli st) := by
  refine stopsOn_bind (stopsOn_spawnForwardTasks _ _) fun _ =>
    stopsOn_bind (stopsOn_spawnForwardTasks _ _) fun _ =>
    stopsOn_bind (stopsOn_forM fun fw _ => ?_) fun _ => stopsOn_spawnForwardTasks _ _
  intro answer
  rcases answer with message | port
  · -- the error of the request is the error of the run
    refine ⟨fun _ => ⟨message, ?_⟩, fun hgranted => absurd trivial hgranted⟩
    show (if st.exitOnFwdFailure then throw message else pure () : RunM Unit).run = _
    rw [hexit]
    rfl
  · exact ⟨fun hrefused => absurd hrefused id, fun _ => trivial⟩

/-- **With `ExitOnForwardFailure`, a refused `-R` ends the run with an error.** -/
theorem run_exits_on_refused_remote {σ : Type} {h : Handler RunOp RunOp.Res σ} {s : σ}
    (hexit : st.exitOnFwdFailure = true) {e : (op : RunOp) × op.Res}
    (he : e ∈ execLog h (run ctx cli st) s) (hrefused : RefusesRemote e.1 e.2) :
    ∃ message s', exec h (run ctx cli st) s = (.error message, s') := by
  have hsession : ∀ op, OnSession op → ∀ addr port, op ≠ .tcpipForward addr port := by
    rintro op hop addr port rfl
    exact hop
  have hrun : StopsOn RefusesRemote (run ctx cli st) := by
    refine stopsOn_bind (stopsOn_of_does (does_login (by simp) (by simp) (by simp) (by simp)))
      fun _ => ?_
    unfold runAuthenticated
    split
    · exact stopsOn_bind (stopsOn_of_does (does_call (by simp))) fun _ => trivial
    refine stopsOn_bind (stopsOn_of_does (does_transfer.mono hsession)) fun _ => ?_
    split
    · trivial
    · exact stopsOn_bind (stopsOn_startForwards hexit) fun _ =>
        stopsOn_of_does (does_serve.mono hsession)
  exact hrun.exec_error he hrefused

end Remote

/-! ## A local forward that is refused -/

/-- `passhrs -N -L 8080:db:5432 -o ExitOnForwardFailure=yes user@host` goes on when the connection
of the forward is refused. -/
theorem run_goes_on_without_forward :
    ¬ ∀ (σ τ : Type) (h : Handler RunOp RunOp.Res σ) (s : σ)
        (hf : Handler ForwardOp ForwardOp.Res τ) (start : ForwardTask → τ) (ctx : Surroundings)
        (cli : Cli) (st : Settings), st.exitOnFwdFailure = true →
      ForwardFails h s hf start ctx cli st →
        ∃ message, (exec h (run ctx cli st) s).1 = .error message := by
  intro hall
  set cli := { Cli.ofCommand [] with noCommand := true }
  set st := { plainSettings with
    exitOnFwdFailure := true, localForwards := [⟨"127.0.0.1", 8080, "db", 5432⟩] }
  have hfails : ForwardFails grantAll () refuseConnections (fun _ => ()) bareSurroundings cli
      st := by
    have hspawn : ⟨.spawnForwards ⟨.localPort st.localForwards, forwardSession cli st⟩, ()⟩
        ∈ execLog grantAll (run bareSurroundings cli st) () := List.mem_of_getElem? (i := 2) rfl
    exact ⟨_, hspawn, _, connect_mem_execLog_forwardTask refuseConnections _ rfl (), trivial⟩
  obtain ⟨message, herror⟩ := hall Unit Unit grantAll () refuseConnections (fun _ => ())
    bareSurroundings cli st rfl hfails
  have hwaits : (exec grantAll (run bareSurroundings cli st) ()).1 = .ok .waits := rfl
  rw [hwaits] at herror
  cases herror

end Passhrs
