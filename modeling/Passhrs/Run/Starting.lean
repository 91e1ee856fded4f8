import Passhrs.Run.Main

/-!
# Which runs start forwarding tasks

A run gets as far as the forwards when its options are accepted up to there and it is neither a
master nor done with its transfers.

* **`startsForward_of_spawn`**: a task is spawned only then, whatever the server does.
* **`exists_spawn`**: and then one is, when every call succeeds.
-/

namespace Passhrs

open Effects

/-- The options take `run` to the forwards. -/
structure ReachesForwards (ctx : Surroundings) (cli : Cli) (st : Settings) : Prop where
  host : st.host ≠ ""
  names : ∃ prefs, preferred ctx cli = .ok prefs
  jump : ∀ spec, cli.proxyJump = some spec → ∃ jump, ctx.parseProxyJump spec = .ok jump
  noMaster : cli.controlPath = none
  push : ∀ s ∈ cli.push, ∃ paths, ctx.parseFileSpec s = .ok paths
  pull : ∀ s ∈ cli.pull, ∃ paths, ctx.parseFileSpec s = .ok paths
  rsync : ∀ s ∈ cli.rsync, ∃ left right, ctx.parseFileSpec s = .ok (left, right) ∧
    isAbsolutePath (ctx.expandPath left) = true ∧ isAbsolutePath (ctx.expandPath right) = true
  goesOn : cli.transfers = true → cli.command ≠ [] ∨ cli.noCommand = true

/-- And there is a forward to start. -/
structure StartsForward (ctx : Surroundings) (cli : Cli) (st : Settings) : Prop where
  reaches : ReachesForwards ctx cli st
  some : st.localForwards ≠ [] ∨ st.dynamicForwards ≠ [] ∨ st.httpConnects ≠ []

/-! ## What the parts of a run do -/

/-- The operations that neither connect nor forward. -/
def OnSession : RunOp → Prop
  | .connectWithBind _ _ _ _ _ _ | .connectTcp _ | .connectJump _ _ | .connectTunnel _ _
  | .spawnForwards _ | .tcpipForward _ _ => False
  | _ => True

/-- A program whose operations all satisfy `P`. -/
abbrev Does (P : RunOp → Prop) {α : Type} (x : RunM α) : Prop :=
  Emits (fun _ _ => True) P (fun _ => True) x

section Parts

variable {ctx : Surroundings} {cli : Cli} {st : Settings} {P : RunOp → Prop} {α : Type}

theorem Does.mono {P' : RunOp → Prop} {x : RunM α} (hx : Does P x) (h : ∀ op, P op → P' op) :
    Does P' x := Prog.Guarded.mono hx h fun _ h => h

theorem does_call {op : RunOp} {k : op.Res → Except String α} (hop : P op) :
    Does P (call op k : RunM α) := emits_call hop fun _ _ _ _ => trivial

theorem does_ofResult (r : Except String α) : Does P (ofResult r : RunM α) :=
  emits_ofResult fun _ _ => trivial

theorem does_bind {β : Type} {x : RunM α} {g : α → RunM β} (hx : Does P x)
    (hg : ∀ a, Does P (g a)) : Does P (x >>= g) := emits_bind hx fun a _ => hg a

theorem does_forM {f : α → RunM PUnit} {xs : List α} (hf : ∀ x ∈ xs, Does P (f x)) :
    Does P (forM xs f) := emits_forM hf

theorem mapError_eq_ok {α : Type} {f : String → String} {r : Except String α} {a : α}
    (hr : r.mapError f = .ok a) : r = .ok a := by
  cases r with
  | error e => cases hr
  | ok b => exact congrArg Except.ok (Except.ok.inj hr)

/-- What a login does: with `-J`, everything goes through the jump host. -/
theorem does_login
    (hdirect : cli.proxyJump = none → ∀ prefs, P (.connectWithBind prefs st.host st.port
      (handlerFor cli st st.host st.port) st.bindAddress st.bindInterface))
    (hjump : ∀ spec jump prefs, cli.proxyJump = some spec → ctx.parseProxyJump spec = .ok jump →
      preferred ctx cli = .ok prefs → P (.connectTcp s!"{jump.host}:{jump.port}") ∧
        P (.connectJump prefs (handlerFor cli st jump.host jump.port)) ∧
        P (.connectTunnel prefs (handlerFor cli st st.host st.port)))
    (hauth : ∀ hop user identityFile password passphrase,
      P (.authenticate hop user identityFile password passphrase))
    (htunnel : ∀ host port, P (.openTunnel host port)) : Does P (login ctx cli st) := by
  unfold login
  split
  · exact emits_throw _
  refine does_bind ?_ fun _ => does_call (hauth _ _ _ _ _)
  unfold connect
  refine emits_bind (Q := fun prefs => preferred ctx cli = .ok prefs)
    (emits_ofResult fun prefs hprefs => hprefs) fun prefs hprefs => ?_
  split
  · next spec hspec =>
    refine emits_bind (Q := fun jump => ctx.parseProxyJump spec = .ok jump)
      (emits_ofResult fun jump hok => mapError_eq_ok hok) fun jump hparse => ?_
    obtain ⟨htcp, hssh, htarget⟩ := hjump spec jump prefs hspec hparse hprefs
    exact does_bind (does_call htcp) fun _ => does_bind (does_call hssh) fun _ =>
      does_bind (does_call (hauth _ _ _ _ _)) fun _ =>
      does_bind (does_call (htunnel _ _)) fun _ => does_call htarget
  · next hnone => exact does_call (hdirect hnone prefs)

theorem does_transfer : Does OnSession (transfer ctx cli) := by
  unfold transfer
  split
  · refine does_bind (does_call trivial) fun _ => does_bind (does_call trivial) fun _ =>
      does_bind (does_call trivial) fun _ => does_bind (does_forM fun s _ => ?_) fun _ =>
      does_bind (does_forM fun s _ => ?_) fun _ => does_forM fun s _ => ?_
    · exact does_bind (does_ofResult _) fun _ => does_call trivial
    · exact does_bind (does_ofResult _) fun _ => does_call trivial
    · refine does_bind (does_ofResult _) fun paths => ?_
      dsimp only
      split
      · exact emits_throw _
      · exact does_call trivial
  · exact emits_pure trivial

theorem does_startForwards
    (hspawn : ∀ specs, specs ∈ [ForwardSpecs.httpConnect st.httpConnects,
        .socks st.dynamicForwards, .localPort st.localForwards] → specs.isEmpty = false →
      P (.spawnForwards ⟨specs, forwardSession cli st⟩))
    (hremote : ∀ addr port, P (.tcpipForward addr port)) : Does P (startForwards cli st) := by
  have htask : ∀ specs, specs ∈ [ForwardSpecs.httpConnect st.httpConnects,
      .socks st.dynamicForwards, .localPort st.localForwards] →
      Does P (spawnForwardTasks (forwardSession cli st) specs) := by
    intro specs hmem
    unfold spawnForwardTasks
    split
    · exact emits_pure trivial
    · next hsome => exact does_call (hspawn specs hmem (by simpa using hsome))
  refine does_bind (htask _ (by simp)) fun _ => does_bind (htask _ (by simp)) fun _ =>
    does_bind (does_forM fun fw _ => ?_) fun _ => htask _ (by simp)
  refine does_bind (does_call (hremote _ _)) fun answer => ?_
  split
  · exact emits_pure trivial
  · split
    · exact emits_throw _
    · exact emits_pure trivial

theorem does_serve : Does OnSession (serve ctx cli st) := by
  unfold serve
  split
  · exact emits_throw _
  split
  · exact does_bind (does_ofResult _) fun _ => does_bind (does_call trivial) fun _ =>
      does_bind (does_call trivial) fun _ => emits_pure trivial
  split
  · refine does_bind ?_ fun _ => ?_
    · refine does_bind (does_call trivial) fun _ => does_bind ?_ fun _ => does_bind ?_ fun _ => ?_
      · unfold requestAgent
        split
        · exact does_bind (does_call trivial) fun _ => emits_pure trivial
        · exact emits_pure trivial
      · unfold requestTerminal
        split
        · exact does_call trivial
        · exact emits_pure trivial
      · exact does_forM fun _ _ => does_bind (does_call trivial) fun _ => emits_pure trivial
    · unfold runCommand
      split
      · exact does_bind (does_call trivial) fun _ => does_bind (does_call trivial) fun _ =>
          emits_pure trivial
      split
      · exact does_bind (does_call trivial) fun _ => does_bind (does_call trivial) fun _ =>
          emits_pure trivial
      · exact emits_pure trivial
  split
  · exact emits_pure trivial
  · exact emits_pure trivial

theorem does_runAuthenticated
    (hspawn : ∀ specs, P (.spawnForwards ⟨specs, forwardSession cli st⟩))
    (hremote : ∀ addr port, P (.tcpipForward addr port)) (hother : ∀ op, OnSession op → P op) :
    Does P (runAuthenticated ctx cli st) := by
  unfold runAuthenticated
  split
  · exact does_bind (does_call (hother _ trivial)) fun _ => emits_pure trivial
  refine does_bind (does_transfer.mono hother) fun _ => ?_
  split
  · exact emits_pure trivial
  · exact does_bind (does_startForwards (fun specs _ _ => hspawn specs) hremote) fun _ =>
      does_serve.mono hother

end Parts

/-! ## From a task to the options -/

section Runs

variable {σ : Type} {h : Handler RunOp RunOp.Res σ} {ctx : Surroundings} {cli : Cli}
  {st : Settings} {s s' : σ} {e : (op : RunOp) × op.Res}

theorem Does.of_mem_execLog {P : RunOp → Prop} {α : Type} {x : RunM α} (hx : Does P x)
    (he : e ∈ execLog h x s) : P e.1 :=
  Emits.of_mem_execLog (fun _ _ => trivial) hx s e he

/-- A login that succeeds had options that can be read. -/
theorem exec_login_eq_ok (hlogin : exec h (login ctx cli st) s = (.ok (), s')) :
    st.host ≠ "" ∧ (∃ prefs, preferred ctx cli = .ok prefs) ∧
      ∀ spec, cli.proxyJump = some spec → ∃ jump, ctx.parseProxyJump spec = .ok jump := by
  unfold login at hlogin
  split at hlogin
  · cases hlogin
  next hhost =>
  obtain ⟨_, s₁, hconnect, -⟩ := exec_bind_eq_ok hlogin
  unfold connect at hconnect
  obtain ⟨prefs, hprefs, hconnect⟩ := exec_ofResult_bind_eq_ok hconnect
  refine ⟨hhost, ⟨prefs, hprefs⟩, fun spec hspec => ?_⟩
  rw [hspec] at hconnect
  obtain ⟨jump, hjump, -⟩ := exec_ofResult_bind_eq_ok hconnect
  exact ⟨jump, mapError_eq_ok hjump⟩

/-- So had transfers that succeed. -/
theorem exec_transfer_eq_ok (htransfer : exec h (transfer ctx cli) s = (.ok (), s')) :
    (∀ s ∈ cli.push, ∃ paths, ctx.parseFileSpec s = .ok paths) ∧
      (∀ s ∈ cli.pull, ∃ paths, ctx.parseFileSpec s = .ok paths) ∧
      ∀ s ∈ cli.rsync, ∃ left right, ctx.parseFileSpec s = .ok (left, right) ∧
        isAbsolutePath (ctx.expandPath left) = true ∧
        isAbsolutePath (ctx.expandPath right) = true := by
  unfold transfer at htransfer
  split at htransfer
  -- the loops over the specs come after the session, the subsystem and its start
  · obtain ⟨_, _, -, h₁⟩ := exec_bind_eq_ok htransfer
    obtain ⟨_, _, -, h₂⟩ := exec_bind_eq_ok h₁
    obtain ⟨_, _, -, h₃⟩ := exec_bind_eq_ok h₂
    obtain ⟨_, _, hpush, h₄⟩ := exec_bind_eq_ok h₃
    obtain ⟨_, _, hpull, hrsync⟩ := exec_bind_eq_ok h₄
    refine ⟨fun spec hspec => ?_, fun spec hspec => ?_, fun spec hspec => ?_⟩
    · obtain ⟨_, _, hone⟩ := exec_of_mem_forM hpush hspec
      obtain ⟨paths, hpaths, -⟩ := exec_ofResult_bind_eq_ok hone
      exact ⟨paths, hpaths⟩
    · obtain ⟨_, _, hone⟩ := exec_of_mem_forM hpull hspec
      obtain ⟨paths, hpaths, -⟩ := exec_ofResult_bind_eq_ok hone
      exact ⟨paths, hpaths⟩
    · obtain ⟨_, _, hone⟩ := exec_of_mem_forM hrsync hspec
      obtain ⟨⟨left, right⟩, hpaths, hone⟩ := exec_ofResult_bind_eq_ok hone
      dsimp only at hone
      split at hone
      · cases hone
      · next habsolute =>
        simp only [Bool.or_eq_true, Bool.not_eq_true', not_or, Bool.not_eq_false] at habsolute
        exact ⟨left, right, hpaths, habsolute.2, habsolute.1⟩
  -- without a transfer there is no spec
  · next hnone =>
    have hempty : cli.push = [] ∧ cli.pull = [] ∧ cli.rsync = [] := by
      simpa [Cli.transfers, and_assoc] using hnone
    obtain ⟨hpush, hpull, hrsync⟩ := hempty
    rw [hpush, hpull, hrsync]
    simp

/-- **A run that spawns a task** has options that take it to the forwards, and one to start. -/
theorem startsForward_of_spawn {task : ForwardTask} (he : e ∈ execLog h (run ctx cli st) s)
    (hspawn : e.1 = .spawnForwards task) : StartsForward ctx cli st := by
  have hon : ∀ op, OnSession op → op ≠ .spawnForwards task := by
    rintro op hop rfl
    exact hop
  unfold run at he
  rcases mem_execLog_bind he with hmem | ⟨_, s₁, hlogin, hrest⟩
  · exact absurd hspawn ((does_login (P := (· ≠ .spawnForwards task)) (by simp) (by simp)
      (by simp) (by simp)).of_mem_execLog hmem)
  obtain ⟨hhost, hnames, hjump⟩ := exec_login_eq_ok hlogin
  unfold runAuthenticated at hrest
  split at hrest
  · rcases mem_execLog_bind hrest with hmem | ⟨_, _, -, hmem⟩
    · rw [execLog_call, List.mem_singleton] at hmem
      rw [hmem] at hspawn
      cases hspawn
    · cases hmem
  next hmaster =>
  rcases mem_execLog_bind hrest with hmem | ⟨_, s₂, htransfer, hrest⟩
  · exact absurd hspawn (hon _ (does_transfer.of_mem_execLog hmem))
  obtain ⟨hpush, hpull, hrsync⟩ := exec_transfer_eq_ok htransfer
  split at hrest
  · cases hrest
  next hgoesOn =>
  have hreaches : ReachesForwards ctx cli st := by
    refine ⟨hhost, hnames, hjump, hmaster, hpush, hpull, hrsync, fun htransfers => ?_⟩
    by_contra hdone
    rw [not_or, not_not, Bool.not_eq_true] at hdone
    exact hgoesOn (by simp [htransfers, hdone.1, hdone.2])
  refine ⟨hreaches, ?_⟩
  rcases mem_execLog_bind hrest with hmem | ⟨_, s₃, -, hmem⟩
  · by_contra hnone
    rw [not_or, not_or, not_not, not_not, not_not] at hnone
    obtain ⟨hL, hD, hH⟩ := hnone
    have hnot : Does (· ≠ .spawnForwards task) (startForwards cli st) := by
      refine does_startForwards ?_ (by simp)
      -- none of the three lists has a spec to start
      rw [hL, hD, hH]
      simp [ForwardSpecs.isEmpty]
    exact absurd hspawn (hnot.of_mem_execLog hmem)
  · exact absurd hspawn (hon _ (does_serve.of_mem_execLog hmem))

end Runs

/-! ## From the options to a task -/

section Granted

variable {ctx : Surroundings} {cli : Cli} {st : Settings}

/-- The answers when every call succeeds. -/
def Granted (op : RunOp) (answer : op.Res) : Prop := answer = (grantAll op ()).1

/-- A program that gets through when every call succeeds. -/
abbrev Passes {α : Type} (x : RunM α) : Prop := Succeeds Granted (fun _ => True) x

theorem passes_call {α : Type} {op : RunOp} {k : op.Res → Except String α} {a : α}
    (h : k (grantAll op ()).1 = .ok a) : Passes (call op k : RunM α) :=
  succeeds_call fun _ hr => ⟨a, hr ▸ h, trivial⟩

theorem passes_bind {α β : Type} {x : RunM α} {g : α → RunM β} (hx : Passes x)
    (hg : ∀ a, Passes (g a)) : Passes (x >>= g) := succeeds_bind hx fun a _ => hg a

theorem Passes.exec_ok {α : Type} {x : RunM α} (hx : Passes x) :
    ∃ a, exec grantAll x () = (.ok a, ()) := by
  obtain ⟨a, ⟨⟩, hok, -⟩ := Succeeds.exec_ok hx (h := grantAll) (fun _ _ => rfl) ()
  exact ⟨a, hok⟩

theorem passes_login_of_accepted (hhost : st.host ≠ "")
    (hnames : ∃ prefs, preferred ctx cli = .ok prefs)
    (hjump : ∀ spec, cli.proxyJump = some spec → ∃ jump, ctx.parseProxyJump spec = .ok jump) :
    Passes (login ctx cli st) := by
  unfold login
  rw [if_neg hhost]
  refine passes_bind ?_ fun _ => passes_call rfl
  unfold connect
  obtain ⟨prefs, hprefs⟩ := hnames
  refine passes_bind (succeeds_ofResult ⟨prefs, hprefs, trivial⟩) fun prefs => ?_
  split
  · next spec hspec =>
    obtain ⟨jump, hjump⟩ := hjump spec hspec
    refine passes_bind (succeeds_ofResult ⟨jump, by rw [hjump]; rfl, trivial⟩) fun _ => ?_
    exact passes_bind (passes_call rfl) fun _ => passes_bind (passes_call rfl) fun _ =>
      passes_bind (passes_call rfl) fun _ => passes_bind (passes_call rfl) fun _ => passes_call rfl
  · exact passes_call rfl

theorem passes_login (hreaches : ReachesForwards ctx cli st) : Passes (login ctx cli st) :=
  passes_login_of_accepted hreaches.host hreaches.names hreaches.jump

theorem passes_transfer (hreaches : ReachesForwards ctx cli st) : Passes (transfer ctx cli) := by
  unfold transfer
  split
  · refine passes_bind (passes_call rfl) fun _ => passes_bind (passes_call rfl) fun _ =>
      passes_bind (passes_call rfl) fun _ => passes_bind (succeeds_forM fun s hs => ?_) fun _ =>
      passes_bind (succeeds_forM fun s hs => ?_) fun _ => succeeds_forM fun s hs => ?_
    · obtain ⟨paths, hpaths⟩ := hreaches.push s hs
      exact passes_bind (succeeds_ofResult ⟨paths, hpaths, trivial⟩) fun _ => passes_call rfl
    · obtain ⟨paths, hpaths⟩ := hreaches.pull s hs
      exact passes_bind (succeeds_ofResult ⟨paths, hpaths, trivial⟩) fun _ => passes_call rfl
    · obtain ⟨left, right, hpaths, hleft, hright⟩ := hreaches.rsync s hs
      refine succeeds_bind (Q := (· = (left, right)))
        (succeeds_ofResult ⟨_, hpaths, rfl⟩) fun _ heq => ?_
      rw [heq]
      dsimp only
      rw [hleft, hright]
      exact passes_call rfl
  · exact succeeds_pure trivial

theorem passes_spawnForwardTasks (session : ForwardSession) (specs : ForwardSpecs) :
    Passes (spawnForwardTasks session specs) := by
  unfold spawnForwardTasks
  split
  · exact succeeds_pure trivial
  · exact passes_call rfl

theorem passes_remoteForwards : Passes (forM st.remoteForwards (requestRemoteForward st)) := by
  refine succeeds_forM fun fw _ => ?_
  refine succeeds_bind (Q := fun answer => ∃ port, answer = .ok port)
    (succeeds_call fun _ hr => ⟨.ok _, congrArg Except.ok hr, _, rfl⟩) fun _ hok => ?_
  obtain ⟨port, rfl⟩ := hok
  exact succeeds_pure trivial

theorem passes_startForwards : Passes (startForwards cli st) :=
  passes_bind (passes_spawnForwardTasks _ _) fun _ => passes_bind (passes_spawnForwardTasks _ _)
    fun _ => passes_bind passes_remoteForwards fun _ => passes_spawnForwardTasks _ _

/-- Options that `run` rejects once it has started the forwards: `-W` with a transfer, or with a
spec that does not parse. -/
def RejectedLater (ctx : Surroundings) (cli : Cli) : Prop :=
  ∃ spec, cli.stdioForward = some spec ∧
    (cli.transfers = true ∨ ∃ e, ctx.parseStdioForward spec = .error e)

theorem passes_serve (haccepted : ¬ RejectedLater ctx cli) : Passes (serve ctx cli st) := by
  unfold serve
  split
  -- `-W` beside a transfer is refused
  · next hboth =>
    simp only [Bool.and_eq_true, Option.isSome_iff_exists] at hboth
    obtain ⟨htransfers, spec, hspec⟩ := hboth
    exact absurd ⟨spec, hspec, .inl htransfers⟩ haccepted
  split
  · next spec hspec =>
    rcases hparse : ctx.parseStdioForward spec with e | target
    · exact absurd ⟨spec, hspec, .inr ⟨e, hparse⟩⟩ haccepted
    · unfold stdioForward
      refine passes_bind (succeeds_ofResult ⟨target, by rw [hparse]; rfl, trivial⟩) fun _ => ?_
      exact passes_bind (passes_call rfl) fun _ => passes_bind (passes_call rfl) fun _ =>
        succeeds_pure trivial
  split
  -- a session: the channel and what is asked of it, then the command or the shell
  · refine passes_bind ?_ fun _ => ?_
    · refine passes_bind (passes_call rfl) fun _ => passes_bind ?_ fun _ =>
        passes_bind ?_ fun _ => ?_
      · unfold requestAgent
        split
        · exact passes_bind (passes_call rfl) fun _ => succeeds_pure trivial
        · exact succeeds_pure trivial
      · unfold requestTerminal
        split
        · exact passes_call rfl
        · exact succeeds_pure trivial
      · exact succeeds_forM fun _ _ => passes_bind (passes_call rfl) fun _ => succeeds_pure trivial
    · unfold runCommand
      split
      · exact passes_bind (passes_call rfl) fun _ => passes_bind (passes_call rfl) fun _ =>
          succeeds_pure trivial
      split
      · exact passes_bind (passes_call rfl) fun _ => passes_bind (passes_call rfl) fun _ =>
          succeeds_pure trivial
      · exact succeeds_pure trivial
  split
  · exact succeeds_pure trivial
  · exact succeeds_pure trivial

theorem ReachesForwards.runAuthenticated_eq (hreaches : ReachesForwards ctx cli st) :
    runAuthenticated ctx cli st = transfer ctx cli >>= fun _ =>
      startForwards cli st >>= fun _ => serve ctx cli st := by
  refine Passhrs.runAuthenticated_eq hreaches.noMaster ?_
  rcases htransfers : cli.transfers
  · rfl
  · rcases hreaches.goesOn htransfers with hcommand | hN
    · simp [hcommand]
    · simp [hN]

theorem passes_run (hreaches : ReachesForwards ctx cli st) (haccepted : ¬ RejectedLater ctx cli) :
    Passes (run ctx cli st) := by
  unfold run
  rw [hreaches.runAuthenticated_eq]
  exact passes_bind (passes_login hreaches) fun _ => passes_bind (passes_transfer hreaches)
    fun _ => passes_bind passes_startForwards fun _ => passes_serve haccepted

/-- Under such options no run succeeds, whatever the calls answer. -/
theorem exec_run_of_rejectedLater {σ : Type} {h : Handler RunOp RunOp.Res σ} {s : σ}
    (hreaches : ReachesForwards ctx cli st) (hrejected : RejectedLater ctx cli) :
    ∃ message s', exec h (run ctx cli st) s = (.error message, s') := by
  rcases hrun : exec h (run ctx cli st) s with ⟨message | ending, s'⟩
  · exact ⟨message, s', rfl⟩
  exfalso
  unfold run at hrun
  rw [hreaches.runAuthenticated_eq] at hrun
  obtain ⟨_, _, -, hrun⟩ := exec_bind_eq_ok hrun
  obtain ⟨_, _, -, hrun⟩ := exec_bind_eq_ok hrun
  obtain ⟨_, _, -, hserve⟩ := exec_bind_eq_ok hrun
  obtain ⟨spec, hspec, hbad⟩ := hrejected
  unfold serve at hserve
  split at hserve
  · cases hserve
  next hboth =>
  rw [hspec] at hserve
  rcases hbad with htransfers | ⟨e, hparse⟩
  · exact hboth (by rw [htransfers, hspec]; rfl)
  · obtain ⟨target, htarget, -⟩ := exec_ofResult_bind_eq_ok hserve
    rw [hparse] at htarget
    cases htarget

theorem execLog_spawnForwardTasks {session : ForwardSession} {specs : ForwardSpecs}
    (hsome : specs.isEmpty = false) :
    ⟨.spawnForwards ⟨specs, session⟩, ()⟩
      ∈ execLog grantAll (spawnForwardTasks session specs) () := by
  unfold spawnForwardTasks
  rw [hsome]
  exact List.mem_singleton_self _

/-- What a part of a program does, the program does, once what stands before it has passed. -/
theorem Passes.mem_execLog_bind {α β : Type} {x : RunM α} {g : α → RunM β} (hx : Passes x)
    {e : (op : RunOp) × op.Res} (he : ∀ a, e ∈ execLog grantAll (g a) ()) :
    e ∈ execLog grantAll (x >>= g) () := by
  obtain ⟨a, hok⟩ := hx.exec_ok
  rw [execLog_bind_ok hok, List.mem_append]
  exact .inr (he a)

/-- **When every call succeeds**, options that have a forward to start lead to a task. -/
theorem exists_spawn (hstarts : StartsForward ctx cli st) :
    ∃ specs : ForwardSpecs, specs.isEmpty = false ∧
      ⟨.spawnForwards ⟨specs, forwardSession cli st⟩, ()⟩
        ∈ execLog grantAll (run ctx cli st) () := by
  have hrun : ∀ e : (op : RunOp) × op.Res, e ∈ execLog grantAll (startForwards cli st) () →
      e ∈ execLog grantAll (run ctx cli st) () := by
    intro e he
    unfold run
    rw [hstarts.reaches.runAuthenticated_eq]
    exact (passes_login hstarts.reaches).mem_execLog_bind fun _ =>
      (passes_transfer hstarts.reaches).mem_execLog_bind fun _ => mem_execLog_bind_left he
  -- whatever is started before it goes well: the proxies, then -D, then -R, then -L
  rcases hstarts.some with hL | hD | hH
  · have hsome : (ForwardSpecs.localPort st.localForwards).isEmpty = false := by
      simpa [ForwardSpecs.isEmpty] using hL
    refine ⟨_, hsome, hrun _ ?_⟩
    exact (passes_spawnForwardTasks _ _).mem_execLog_bind fun _ =>
      (passes_spawnForwardTasks _ _).mem_execLog_bind fun _ =>
      passes_remoteForwards.mem_execLog_bind fun _ => execLog_spawnForwardTasks hsome
  · have hsome : (ForwardSpecs.socks st.dynamicForwards).isEmpty = false := by
      simpa [ForwardSpecs.isEmpty] using hD
    refine ⟨_, hsome, hrun _ ?_⟩
    exact (passes_spawnForwardTasks _ _).mem_execLog_bind fun _ =>
      mem_execLog_bind_left (execLog_spawnForwardTasks hsome)
  · have hsome : (ForwardSpecs.httpConnect st.httpConnects).isEmpty = false := by
      simpa [ForwardSpecs.isEmpty] using hH
    exact ⟨_, hsome, hrun _ (mem_execLog_bind_left (execLog_spawnForwardTasks hsome))⟩

end Granted

end Passhrs
