import Passhrs.Run.EarlyExit
import Passhrs.Run.Starting

/-!
# Master mode

With `-S` a run that authenticates becomes a master, whatever else it is asked for: also when the
early exit has found no master, and says that it falls back to a connection of its own.

* **`runOrResume_executes_iff`**: the command is executed, or the run fails, exactly when
  `bind_listener` cannot bind the control path.
-/

namespace Passhrs

open Effects Text

/-! ## `run_master` -/

/-- How `remove_file` ends in `bind_listener`. -/
inductive RemoveFile where
  | removed
  | notFound
  | failed (error : String)
deriving DecidableEq

/-- What the calls of `bind_listener` are answered with. -/
structure BindAnswers where
  removeFile : RemoveFile
  bind : Except String Unit
  setPermissions : Except String Unit
  fromStd : Except String Unit

/-- The stale file, if there is one. -/
def removeStale (path : String) : RemoveFile → Except String Unit
  | .removed | .notFound => .ok ()
  | .failed error => .error s!"control socket: failed to unlink stale {path}: {error}"

/-- `bind_listener`. -/
def bindListener (path : String) (answers : BindAnswers) : Except String Unit := do
  removeStale path answers.removeFile
  context s!"control socket: failed to bind {path}" answers.bind
  context s!"control socket: chmod 0600 {path} failed" answers.setPermissions
  context s!"control socket: tokio wrap of {path} failed" answers.fromStd

/-- `run_master`, once it returns: `accept_loop` ends on a signal or on `-O exit`, with `Ok`. -/
def runMaster (path : String) (answers : BindAnswers) : Except String Unit := do
  bindListener path answers
  pure ()

/-- The control path can be bound: there is nothing in the way that cannot be unlinked, and the
socket gets its mode. -/
structure BindAnswers.Binds (answers : BindAnswers) : Prop where
  removeFile : ∀ error, answers.removeFile ≠ .failed error
  bind : answers.bind = .ok ()
  setPermissions : answers.setPermissions = .ok ()
  fromStd : answers.fromStd = .ok ()

theorem removeStale_eq_ok_iff {path : String} {removeFile : RemoveFile} :
    removeStale path removeFile = .ok () ↔ ∀ error, removeFile ≠ .failed error := by
  cases removeFile with
  | removed | notFound => exact iff_of_true rfl fun error h => by cases h
  | failed error => exact iff_of_false (fun h => by cases h) fun h => h error rfl

theorem context_eq_ok_iff {message : String} {answer : Except String Unit} :
    context message answer = .ok () ↔ answer = .ok () := by
  cases answer with
  | error e => exact iff_of_false (fun h => by cases h) fun h => by cases h
  | ok a => exact Iff.rfl

theorem bind_eq_ok_iff {x y : Except String Unit} :
    (x >>= fun _ => y) = .ok () ↔ x = .ok () ∧ y = .ok () := by
  cases x with
  | error e => exact iff_of_false (fun h => by cases h) fun h => by cases h.1
  | ok a => exact ⟨fun h => ⟨rfl, h⟩, fun h => h.2⟩

theorem runMaster_eq_ok_iff {path : String} {answers : BindAnswers} :
    runMaster path answers = .ok () ↔ answers.Binds := by
  unfold runMaster bindListener
  rw [bind_eq_ok_iff, bind_eq_ok_iff, bind_eq_ok_iff, bind_eq_ok_iff, removeStale_eq_ok_iff,
    context_eq_ok_iff, context_eq_ok_iff, context_eq_ok_iff]
  constructor
  · rintro ⟨⟨hremove, hbind, hmode, hwrap⟩, -⟩
    exact ⟨hremove, hbind, hmode, hwrap⟩
  · rintro ⟨hremove, hbind, hmode, hwrap⟩
    exact ⟨⟨hremove, hbind, hmode, hwrap⟩, rfl⟩

/-! ## The run of a client with `-S` -/

/-- `run`: the early exit, and the run where there is none. -/
def runOrResume (connect : SocketConnect) (reply : Bytes → Bytes) (ctx : Surroundings) (cli : Cli)
    (st : Settings) : RunM Ending := do
  match ← ofResult (earlyExit connect reply cli st.host) with
  | some code => pure (.exited code)
  | none => run ctx cli st

/-- The command of the command line is executed on the connection of the run. -/
def ExecutesCommand (ctx : Surroundings) (cli : Cli) (log : RunLog) : Prop :=
  ∃ e ∈ log, e.1 = .exec (utf8 (execPayload ctx.envVar ctx.shellEscape cli))

section Runs

variable {σ : Type} {h : Handler RunOp RunOp.Res σ} {s s₁ : σ} {connect : SocketConnect}
  {reply : Bytes → Bytes} {ctx : Surroundings} {cli : Cli} {st : Settings} {path : String}

/-- No command is executed before the run is authenticated, and none as a master. -/
theorem not_executesCommand_run (hcontrol : cli.controlPath = some path) :
    ¬ ExecutesCommand ctx cli (execLog h (run ctx cli st) s) := by
  have hrun : Does (fun op => ∀ command, op ≠ .exec command) (run ctx cli st) := by
    refine does_bind (does_login (by simp) (by simp) (by simp) (by simp)) fun _ => ?_
    unfold runAuthenticated
    rw [hcontrol]
    exact does_bind (does_call (by simp)) fun _ => emits_pure trivial
  rintro ⟨e, he, hexec⟩
  exact hrun.of_mem_execLog he _ hexec

/-- A run with `-S` that is authenticated ends the way that its master does. -/
theorem exec_run_of_controlPath (hcontrol : cli.controlPath = some path)
    (hlogin : exec h (login ctx cli st) s = (.ok (), s₁)) :
    (exec h (run ctx cli st) s).1 = (h (.runMaster path) s₁).1.map fun _ => .returned := by
  unfold run
  rw [exec_bind_ok hlogin]
  unfold runAuthenticated
  rw [hcontrol]
  dsimp only
  rw [exec_bind, exec_call]
  rcases (h (.runMaster path) s₁).1 with e | ⟨⟩ <;> rfl

/-- **With `-S`, an authenticated run executes its command or fails exactly when** its control path
cannot be bound: it becomes a master, and drops the command. -/
theorem runOrResume_executes_iff {answers : BindAnswers} (hcontrol : cli.controlPath = some path)
    (hresume : earlyExit connect reply cli st.host = .ok none)
    (hlogin : exec h (login ctx cli st) s = (.ok (), s₁))
    (hmaster : (h (.runMaster path) s₁).1 = runMaster path answers) :
    (ExecutesCommand ctx cli (execLog h (runOrResume connect reply ctx cli st) s) ∨
        ∃ e, (exec h (runOrResume connect reply ctx cli st) s).1 = .error e) ↔
      ¬ answers.Binds := by
  have hrun : runOrResume connect reply ctx cli st = run ctx cli st := by
    unfold runOrResume
    rw [hresume]
    rfl
  rw [hrun, exec_run_of_controlPath hcontrol hlogin, hmaster, ← runMaster_eq_ok_iff]
  constructor
  · rintro (hexecuted | ⟨e, he⟩) hok
    · exact not_executesCommand_run hcontrol hexecuted
    · rw [hok] at he
      cases he
  · intro hfails
    rcases hresult : runMaster path answers with e | ⟨⟩
    · exact .inr ⟨e, rfl⟩
    · exact absurd hresult hfails

end Runs

/-- `uptime`, with a control path that nothing is bound to, is not executed. -/
theorem runOrResume_drops_command :
    ¬ ∀ (σ : Type) (h : Handler RunOp RunOp.Res σ) (s s₁ : σ) (connect : SocketConnect)
        (reply : Bytes → Bytes) (ctx : Surroundings) (cli : Cli) (st : Settings),
      cli.controlPath.isSome → cli.command ≠ [] → connect ≠ .connected →
      earlyExit connect reply cli st.host = .ok none →
      exec h (login ctx cli st) s = (.ok (), s₁) →
      ExecutesCommand ctx cli (execLog h (runOrResume connect reply ctx cli st) s) ∨
        ∃ e, (exec h (runOrResume connect reply ctx cli st) s).1 = .error e := by
  intro hall
  have hrun : runOrResume .notFound id bareSurroundings (resumeCli ["uptime"]) plainSettings
      = run bareSurroundings (resumeCli ["uptime"]) plainSettings := rfl
  have hdone := hall Unit grantAll () () .notFound id bareSurroundings (resumeCli ["uptime"])
    plainSettings rfl (by decide) (by simp) rfl rfl
  rw [hrun] at hdone
  rcases hdone with hexecuted | ⟨e, he⟩
  · exact not_executesCommand_run rfl hexecuted
  · rw [exec_run_of_controlPath rfl (rfl : exec grantAll (login _ _ _) () = (.ok (), ()))] at he
    cases he

theorem runOrResume_executes_uptime :
    (ExecutesCommand bareSurroundings (resumeCli ["uptime"]) (execLog grantAll
        (runOrResume .notFound id bareSurroundings (resumeCli ["uptime"]) plainSettings) ()) ∨
        ∃ e, (exec grantAll
          (runOrResume .notFound id bareSurroundings (resumeCli ["uptime"]) plainSettings) ()).1
            = .error e) ↔
      ¬ (⟨.notFound, .ok (), .ok (), .ok ()⟩ : BindAnswers).Binds := by
  have hmaster : (grantAll (.runMaster "/tmp/p.sock") ()).1
      = runMaster "/tmp/p.sock" ⟨.notFound, .ok (), .ok (), .ok ()⟩ := rfl
  exact runOrResume_executes_iff rfl rfl rfl hmaster

end Passhrs
