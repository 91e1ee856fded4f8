import Passhrs.Run.Starting

/-!
# Runs behind a jump host

With `-J`, everything that a run opens is to go through the jump host, and every session with the
target is to be negotiated with the ciphers and MACs of `-c` and `-m`. The run itself keeps to that.
Its forwarding tasks connect on their own.

* **`run_staysBehind_iff`**: the run and its tasks keep to it exactly when no task is started, or
  the jump host is the target and russh's lists are the user's.
-/

namespace Passhrs

open Effects

/-- The jump host, where it can be parsed. -/
def IsJump (ctx : Surroundings) (spec host : String) (port : UInt16) : Prop :=
  ∃ jump, ctx.parseProxyJump spec = .ok jump ∧ jump.host = host ∧ jump.port = port

/-- A TCP connection goes to the jump host, and a session with the target uses the user's lists. -/
def BehindJump (ctx : Surroundings) (cli : Cli) (spec : String) : RunOp → Prop
  | .connectTcp addr => ∃ host port, IsJump ctx spec host port ∧ addr = s!"{host}:{port}"
  | .connectWithBind prefs host port _ _ _ =>
    IsJump ctx spec host port ∧ preferred ctx cli = .ok prefs
  | .connectTunnel prefs _ => preferred ctx cli = .ok prefs
  | _ => True

/-- The same of what a forwarding task does, whose sessions are all with the target. -/
def ForwardBehindJump (ctx : Surroundings) (cli : Cli) (spec : String) : ForwardOp → Prop
  | .connect prefs host port _ => IsJump ctx spec host port ∧ preferred ctx cli = .ok prefs
  | _ => True

/-- All of what a run and its tasks do. The tasks run against `hf`, each from a state of its own. -/
structure StaysBehind {σ τ : Type} (h : Handler RunOp RunOp.Res σ) (s : σ)
    (hf : Handler ForwardOp ForwardOp.Res τ) (start : ForwardTask → τ) (ctx : Surroundings)
    (cli : Cli) (st : Settings) (spec : String) : Prop where
  main : ∀ e ∈ execLog h (run ctx cli st) s, BehindJump ctx cli spec e.1
  tasks : ∀ task, ⟨.spawnForwards task, ()⟩ ∈ execLog h (run ctx cli st) s →
    ∀ e ∈ execLog hf (forwardTask ctx.defaults task) (start task),
      ForwardBehindJump ctx cli spec e.1

section Behind

variable {ctx : Surroundings} {cli : Cli} {st : Settings} {spec : String}

theorem BehindJump.of_onSession {op : RunOp} (h : OnSession op) : BehindJump ctx cli spec op := by
  cases op <;> trivial

/-- The run itself stays behind its jump host. -/
theorem does_run_behindJump (hspec : cli.proxyJump = some spec) :
    Does (BehindJump ctx cli spec) (run ctx cli st) := by
  refine does_bind (does_login ?_ ?_ (fun _ _ _ _ _ => trivial) fun _ _ => trivial) fun _ =>
    does_runAuthenticated (fun _ => trivial) (fun _ _ => trivial) fun _ => BehindJump.of_onSession
  · intro hnone
    rw [hspec] at hnone
    cases hnone
  · intro spec' jump prefs hspec' hjump hprefs
    obtain rfl := Option.some.inj (hspec.symm.trans hspec')
    exact ⟨⟨jump.host, jump.port, ⟨jump, hjump, rfl, rfl⟩, rfl⟩, trivial, hprefs⟩

/-- The tasks are given the target. -/
theorem session_of_spawn {σ : Type} {h : Handler RunOp RunOp.Res σ} {s : σ} {task : ForwardTask}
    (hspawn : ⟨.spawnForwards task, ()⟩ ∈ execLog h (run ctx cli st) s) :
    task.session = forwardSession cli st := by
  have hdoes : Does (fun op => ∀ task, op = .spawnForwards task →
      task.session = forwardSession cli st) (run ctx cli st) := by
    have hother : ∀ op, OnSession op → ∀ task, op = .spawnForwards task →
        task.session = forwardSession cli st := by
      rintro op hop task rfl
      exact absurd hop id
    refine does_bind (does_login (by simp) (by simp) (by simp) (by simp)) fun _ =>
      does_runAuthenticated ?_ (by simp) hother
    rintro specs task heq
    rw [← RunOp.spawnForwards.inj heq]
  exact hdoes.of_mem_execLog hspawn task rfl

/-- **With `-J`, a run and its tasks stay behind the jump host, whatever they meet, exactly when**
no task is started, or the jump host is the target and russh's lists are those asked for. -/
theorem run_staysBehind_iff (st : Settings) (hspec : cli.proxyJump = some spec) :
    (∀ (σ τ : Type) (h : Handler RunOp RunOp.Res σ) (s : σ)
        (hf : Handler ForwardOp ForwardOp.Res τ) (start : ForwardTask → τ),
      StaysBehind h s hf start ctx cli st spec) ↔
      ¬ StartsForward ctx cli st ∨
        IsJump ctx spec st.host st.port ∧ preferred ctx cli = .ok ctx.defaults := by
  constructor
  · intro hall
    by_cases hstarts : StartsForward ctx cli st
    -- where all goes well, the forward task is spawned and connects on its own
    · obtain ⟨specs, hsome, hspawn⟩ := exists_spawn hstarts
      have hbehind := (hall Unit Unit grantAll () allUp (fun _ => ())).tasks _ hspawn _
        (connect_mem_execLog_forwardTask allUp ctx.defaults hsome ())
      exact .inr hbehind
    · exact .inl hstarts
  · intro hwhen σ τ h s hf start
    refine ⟨fun e he => (does_run_behindJump hspec).of_mem_execLog he, fun task hspawn e he => ?_⟩
    have hstarts := startsForward_of_spawn hspawn rfl
    obtain ⟨hjump, hprefs⟩ := hwhen.resolve_left (not_not.mpr hstarts)
    have hconnects := Emits.of_mem_execLog (fun _ _ => trivial)
      (emits_forwardTask ctx.defaults task) _ e he
    rw [session_of_spawn hspawn] at hconnects
    obtain ⟨op, answer⟩ := e
    cases op with
    | connect prefs host port handler =>
      obtain ⟨rfl, rfl, rfl⟩ := hconnects prefs host port handler rfl
      exact ⟨hjump, hprefs⟩
    | authenticateFwd _ _ _ _ | parseAddr _ | bind _ | accept _ => trivial

end Behind

/-! ## A bastion -/

/-- `-J bastion`, as it is parsed. -/
def bastion : Surroundings :=
  { bareSurroundings with parseProxyJump := fun _ => .ok ⟨none, "bastion", 22⟩ }

/-- `passhrs -J bastion -N user@host`. -/
def viaBastion : Cli := { Cli.ofCommand [] with noCommand := true, proxyJump := some "bastion" }

/-- `passhrs -J bastion -L 8080:db:5432 -N user@host` dials `host` from a task. -/
theorem task_dials_target :
    ¬ ∀ (σ τ : Type) (h : Handler RunOp RunOp.Res σ) (s : σ)
        (hf : Handler ForwardOp ForwardOp.Res τ) (start : ForwardTask → τ) (ctx : Surroundings)
        (cli : Cli) (st : Settings) (spec : String),
      cli.proxyJump = some spec → StaysBehind h s hf start ctx cli st spec := by
  intro hall
  set st := { plainSettings with localForwards := [⟨"127.0.0.1", 8080, "db", 5432⟩] }
  have hspawn : ⟨.spawnForwards ⟨.localPort st.localForwards, forwardSession viaBastion st⟩, ()⟩
      ∈ execLog grantAll (run bastion viaBastion st) () := List.mem_of_getElem? (i := 6) rfl
  have hbehind := (hall Unit Unit grantAll () allUp (fun _ => ()) bastion viaBastion st "bastion"
    rfl).tasks _ hspawn _ (connect_mem_execLog_forwardTask allUp bastion.defaults rfl ())
  obtain ⟨⟨jump, hjump, hhost, -⟩, -⟩ := hbehind
  rw [← Except.ok.inj hjump] at hhost
  exact absurd hhost (by decide)

theorem staysBehind_without_forwards :
    (∀ (σ τ : Type) (h : Handler RunOp RunOp.Res σ) (s : σ)
        (hf : Handler ForwardOp ForwardOp.Res τ) (start : ForwardTask → τ),
      StaysBehind h s hf start bastion viaBastion plainSettings "bastion") ↔
      ¬ StartsForward bastion viaBastion plainSettings ∨
        IsJump bastion "bastion" plainSettings.host plainSettings.port ∧
          preferred bastion viaBastion = .ok bastion.defaults :=
  run_staysBehind_iff plainSettings rfl

end Passhrs
