import Mathlib.Data.Set.Basic
import Passhrs.Run.ForwardFailure
import Passhrs.Run.Jump

/-!
# Where the credentials go

A run logs in on the target, with `-J` on the jump host before, and each forwarding task logs in on
the target again, over connections of its own. Every login offers the user's keys and password. The
connections of a run come about only with a host key that `check_server_key` accepts, and that is
all that is assumed of russh here: who answers under a name, and with which key, is left open.

* **`run_logsIn_iff`**: under which names a run and its tasks may log in.
* **`changed_key_gets_no_login_iff`**: a name with a changed key gets no login, whatever happens,
  exactly when the check is strict, or the options never lead there.
-/

namespace Passhrs

open Effects

/-! ## Connections and logins -/

/-- The keys that are shown under a name. -/
abbrev ShownKeys : Type := String → UInt16 → Set PublicKeyOrCertificate

/-- The check lets a key pass that is shown under the handler's name. -/
def Acceptable (check : CheckKnownHosts) (shown : ShownKeys) (handler : SshHandler) : Prop :=
  ∃ key ∈ shown handler.host handler.port, checkServerKey check handler key = true

/-- An SSH connection is made with an accepted key only. -/
def Accepted (ok : SshHandler → Prop) (op : RunOp) (answer : op.Res) : Prop :=
  match op, answer with
  | .connectWithBind _ _ _ handler _ _, .ok _ | .connectJump _ handler, .ok _
  | .connectTunnel _ handler, .ok _ => ok handler
  | _, _ => True

/-- An attempt to log in on a host. -/
inductive LoginOn (ctx : Surroundings) (cli : Cli) (st : Settings) :
    RunOp → String → UInt16 → Prop where
  | jump {spec : String} {jump : ProxyJumpSpec} (user : String) (identityFile : List String)
      (password passphrase : Option String) (hspec : cli.proxyJump = some spec)
      (hjump : ctx.parseProxyJump spec = .ok jump) :
    LoginOn ctx cli st (.authenticate .jump user identityFile password passphrase) jump.host
      jump.port
  | target (user : String) (identityFile : List String) (password passphrase : Option String) :
    LoginOn ctx cli st (.authenticate .target user identityFile password passphrase) st.host st.port

/-- An attempt of a task, which is on the host of its session. -/
def ForwardOp.isLogin : ForwardOp → Bool
  | .authenticateFwd _ _ _ _ => true
  | _ => false

/-- The run or one of its tasks tries to log in on this host. The tasks run against `hf`, each from
a state of its own. -/
def LogsIn {σ τ : Type} (h : Handler RunOp RunOp.Res σ) (s : σ)
    (hf : Handler ForwardOp ForwardOp.Res τ) (start : ForwardTask → τ) (ctx : Surroundings)
    (cli : Cli) (st : Settings) (host : String) (port : UInt16) : Prop :=
  (∃ e ∈ execLog h (run ctx cli st) s, LoginOn ctx cli st e.1 host port) ∨
    ∃ task, ⟨.spawnForwards task, ()⟩ ∈ execLog h (run ctx cli st) s ∧
      task.session.host = host ∧ task.session.port = port ∧
      ∃ e ∈ execLog hf (forwardTask ctx.defaults task) (start task), e.1.isLogin = true

/-! ## Where the options lead -/

/-- The names on the way of a run, where the jump host comes before the target. -/
inductive OnTheWay (ok : SshHandler → Prop) (ctx : Surroundings) (cli : Cli) (st : Settings) :
    String → UInt16 → Prop where
  | direct (hnone : cli.proxyJump = none) : OnTheWay ok ctx cli st st.host st.port
  | jump {spec : String} {jump : ProxyJumpSpec} (hspec : cli.proxyJump = some spec)
      (hjump : ctx.parseProxyJump spec = .ok jump) : OnTheWay ok ctx cli st jump.host jump.port
  | behind {spec : String} {jump : ProxyJumpSpec} (hspec : cli.proxyJump = some spec)
      (hjump : ctx.parseProxyJump spec = .ok jump)
      (hok : ok (handlerFor cli st jump.host jump.port)) : OnTheWay ok ctx cli st st.host st.port

/-- The options are accepted up to a connection under this name. -/
structure LeadsTo (ok : SshHandler → Prop) (ctx : Surroundings) (cli : Cli) (st : Settings)
    (host : String) (port : UInt16) : Prop where
  destination : st.host ≠ ""
  names : ∃ prefs, preferred ctx cli = .ok prefs
  way : OnTheWay ok ctx cli st host port

/-- And the key passes. -/
structure MayLogIn (ok : SshHandler → Prop) (ctx : Surroundings) (cli : Cli) (st : Settings)
    (host : String) (port : UInt16) : Prop where
  leads : LeadsTo ok ctx cli st host port
  passes : ok (handlerFor cli st host port)

/-! ## From a login to the options -/

section Logins

variable {ok : SshHandler → Prop} {ctx : Surroundings} {cli : Cli} {st : Settings} {host : String}
  {port : UInt16} {α : Type}

/-- Where this operation is an attempt to log in, it is one that may be made. -/
def OffersSafely (ok : SshHandler → Prop) (ctx : Surroundings) (cli : Cli) (st : Settings)
    (op : RunOp) : Prop :=
  ∀ host port, LoginOn ctx cli st op host port → MayLogIn ok ctx cli st host port

/-- A program that logs in where it may, when connections are made with accepted keys only. -/
abbrev Safe (ok : SshHandler → Prop) (ctx : Surroundings) (cli : Cli) (st : Settings)
    (Q : α → Prop) (x : RunM α) : Prop := Emits (Accepted ok) (OffersSafely ok ctx cli st) Q x

/-- An operation that is no login, and what is known once it has succeeded. -/
theorem safe_call {Q : Prop} {op : RunOp} {k : op.Res → Except String Unit}
    (hop : ∀ host port, ¬ LoginOn ctx cli st op host port)
    (hk : ∀ r, Accepted ok op r → k r = .ok () → Q) :
    Safe ok ctx cli st (fun _ => Q) (call op k : RunM Unit) :=
  emits_call (fun host port hlogin => absurd hlogin (hop host port)) fun r hr _ ha => hk r hr ha

/-- The jump host, where its key passes. -/
theorem offersSafely_jump {spec : String} {jump : ProxyJumpSpec}
    (hspec : cli.proxyJump = some spec) (hjump : ctx.parseProxyJump spec = .ok jump)
    (hmay : MayLogIn ok ctx cli st jump.host jump.port) (user : String) (identityFile : List String)
    (password passphrase : Option String) :
    OffersSafely ok ctx cli st (.authenticate .jump user identityFile password passphrase) := by
  intro host port hlogin
  cases hlogin with
  | jump _ _ _ _ hspec' hjump' =>
    obtain rfl := Option.some.inj (hspec.symm.trans hspec')
    obtain rfl := Except.ok.inj (hjump.symm.trans hjump')
    exact hmay

/-- Once the keys of all names on the way have passed. -/
theorem offersSafely_of_way
    (hjump : ∀ spec jump, cli.proxyJump = some spec → ctx.parseProxyJump spec = .ok jump →
      MayLogIn ok ctx cli st jump.host jump.port)
    (htarget : MayLogIn ok ctx cli st st.host st.port) (op : RunOp) :
    OffersSafely ok ctx cli st op := by
  intro host port hlogin
  cases hlogin with
  | jump _ _ _ _ hspec hparse => exact hjump _ _ hspec hparse
  | target => exact htarget

theorem safe_connectThroughJump {prefs : Preferred} {spec : String} (hhost : st.host ≠ "")
    (hprefs : preferred ctx cli = .ok prefs) (hspec : cli.proxyJump = some spec) :
    Safe ok ctx cli st (fun _ => ∀ op, OffersSafely ok ctx cli st op)
      (connectThroughJump ctx cli st prefs spec) := by
  have hleads : ∀ {host port}, OnTheWay ok ctx cli st host port →
      LeadsTo ok ctx cli st host port := fun hway => ⟨hhost, ⟨prefs, hprefs⟩, hway⟩
  unfold connectThroughJump
  refine emits_bind (Q := fun jump => ctx.parseProxyJump spec = .ok jump)
    (emits_ofResult fun _ h => mapError_eq_ok h) fun jump hjump => ?_
  refine emits_bind (safe_call (Q := True) (by rintro _ _ ⟨⟩) fun _ _ _ => trivial) fun _ _ => ?_
  refine emits_bind (safe_call (Q := ok (handlerFor cli st jump.host jump.port))
    (by rintro _ _ ⟨⟩) fun r hr h => ?_) fun _ hok => ?_
  · obtain rfl : r = .ok () := mapError_eq_ok h
    exact hr
  -- the jump host's key has passed, and only now are the secrets offered there
  have hsafe := offersSafely_jump hspec hjump ⟨hleads (.jump hspec hjump), hok⟩
  refine emits_bind (Q := fun _ => True) (emits_call (hsafe _ _ _ _) fun _ _ _ _ => trivial)
    fun _ _ => ?_
  refine emits_bind (safe_call (Q := True) (by rintro _ _ ⟨⟩) fun _ _ _ => trivial) fun _ _ => ?_
  refine safe_call (by rintro _ _ ⟨⟩) fun r hr h => ?_
  obtain rfl : r = .ok () := mapError_eq_ok h
  refine offersSafely_of_way (fun spec' jump' hspec' hjump' => ?_)
    ⟨hleads (.behind hspec hjump hok), hr⟩
  exact hsafe "" [] none none _ _ (.jump _ _ _ _ hspec' hjump')

/-- A login comes after the keys on its way have passed. -/
theorem safe_login :
    Safe ok ctx cli st (fun _ => ∀ op, OffersSafely ok ctx cli st op) (login ctx cli st) := by
  unfold login
  split
  · exact emits_throw _
  next hhost =>
  refine emits_bind (Q := fun _ => ∀ op, OffersSafely ok ctx cli st op) ?_ fun _ hall =>
    emits_call (hall _) fun _ _ _ _ => hall
  unfold connect
  refine emits_bind (Q := fun prefs => preferred ctx cli = .ok prefs)
    (emits_ofResult fun _ h => h) fun prefs hprefs => ?_
  split
  · next spec hspec => exact safe_connectThroughJump hhost hprefs hspec
  -- without a jump host the target's own key is the only one
  · next hnone =>
    refine safe_call (by rintro _ _ ⟨⟩) fun r hr h => ?_
    obtain rfl : r = .ok () := h
    refine offersSafely_of_way (fun spec jump hspec => ?_)
      ⟨⟨hhost, ⟨prefs, hprefs⟩, .direct hnone⟩, hr⟩
    rw [hnone] at hspec
    cases hspec

variable {σ τ : Type} {h : Handler RunOp RunOp.Res σ} {s : σ}
  {hf : Handler ForwardOp ForwardOp.Res τ} {start : ForwardTask → τ}

/-- So does every other operation of a run: after the login it takes no key. -/
theorem offersSafely_of_mem (hrun : ∀ op s, Accepted ok op (h op s).1)
    {e : (op : RunOp) × op.Res} (he : e ∈ execLog h (run ctx cli st) s) :
    OffersSafely ok ctx cli st e.1 ∧
      (∀ task, e.1 = .spawnForwards task → MayLogIn ok ctx cli st st.host st.port) := by
  unfold run at he
  rcases mem_execLog_bind he with hmem | ⟨_, s', hlogin, -⟩
  · refine ⟨safe_login.of_mem_execLog hrun s e hmem, fun task hspawn => ?_⟩
    have hnone : Does (· ≠ .spawnForwards task) (login ctx cli st) :=
      does_login (by simp) (by simp) (by simp) (by simp)
    exact absurd hspawn (hnone.of_mem_execLog hmem)
  · have hall := safe_login.of_exec_ok hrun hlogin
    exact ⟨hall e.1, fun _ _ => hall _ _ _ (.target "" [] none none)⟩

/-- **From a login to the options**: the name is one that they lead to, and a key that passes was
shown under it. -/
theorem mayLogIn_of_logsIn (hrun : ∀ op s, Accepted ok op (h op s).1)
    (hlogs : LogsIn h s hf start ctx cli st host port) : MayLogIn ok ctx cli st host port := by
  rcases hlogs with ⟨e, he, hlogin⟩ | ⟨task, hspawn, rfl, rfl, e, he, hlogin⟩
  · exact (offersSafely_of_mem hrun he).1 host port hlogin
  · have htarget := (offersSafely_of_mem hrun hspawn).2 task rfl
    rw [session_of_spawn hspawn]
    exact htarget

/-! ## From the options to a login -/

/-- A connection is made where the key passes, and the rest of a login succeeds. -/
def Admitted (ok : SshHandler → Prop) (op : RunOp) (answer : op.Res) : Prop :=
  match op, answer with
  | .connectWithBind _ _ _ handler _ _, r | .connectJump _ handler, r
  | .connectTunnel _ handler, r => ok handler → r = .ok ()
  | .connectTcp _, r | .authenticate _ _ _ _ _, r | .openTunnel _ _, r => r = .ok ()
  | _, _ => True

/-- Servers on which only that stands in the way. -/
def keyedServers (ok : SshHandler → Prop) [DecidablePred ok] : Handler RunOp RunOp.Res Unit :=
  fun op s =>
    match op with
    | .connectWithBind _ _ _ handler _ _ | .connectJump _ handler | .connectTunnel _ handler =>
      (if ok handler then .ok () else .error "Unknown server key", s)
    | op => grantAll op s

theorem keyedServers_accepted [DecidablePred ok] (op : RunOp) (s : Unit) :
    Accepted ok op (keyedServers ok op s).1 := by
  have hkey : ∀ handler, (if ok handler then .ok () else .error "Unknown server key"
      : Except String Unit) = .ok () → ok handler := by
    intro handler h
    by_contra hnot
    rw [if_neg hnot] at h
    cases h
  unfold Accepted
  split
  · next hr => exact hkey _ hr
  · next hr => exact hkey _ hr
  · next hr => exact hkey _ hr
  · trivial

theorem keyedServers_admitted [DecidablePred ok] (op : RunOp) (s : Unit) :
    Admitted ok op (keyedServers ok op s).1 := by
  cases op <;> first | exact fun hok => if_pos hok | rfl | trivial

/-- An operation of a login that succeeds. -/
theorem admitted_call {op : RunOp} {k : op.Res → Except String Unit}
    (hop : ∀ r, Admitted ok op r → k r = .ok ()) :
    Succeeds (Admitted ok) (fun _ => True) (call op k : RunM Unit) :=
  succeeds_call fun r hr => ⟨(), hop r hr, trivial⟩

theorem context_ok (message : String) (r : Except String Unit) (hr : r = .ok ()) :
    context message r = .ok () := by
  rw [hr]
  rfl

/-- The way to the target is made where every key on it passes. -/
theorem succeeds_connect (hnames : ∃ prefs, preferred ctx cli = .ok prefs)
    (htarget : ok (handlerFor cli st st.host st.port))
    (hbehind : ∀ spec, cli.proxyJump = some spec → ∃ jump, ctx.parseProxyJump spec = .ok jump ∧
      ok (handlerFor cli st jump.host jump.port)) :
    Succeeds (Admitted ok) (fun _ => True) (connect ctx cli st) := by
  obtain ⟨prefs, hprefs⟩ := hnames
  unfold connect
  refine succeeds_bind (Q := fun _ => True) (succeeds_ofResult ⟨prefs, hprefs, trivial⟩)
    fun prefs _ => ?_
  split
  · next spec hspec =>
    obtain ⟨jump, hjump, hok⟩ := hbehind spec hspec
    unfold connectThroughJump
    refine succeeds_bind (Q := fun j => j = jump)
      (succeeds_ofResult ⟨jump, by rw [hjump]; rfl, rfl⟩) ?_
    rintro _ rfl
    refine succeeds_bind (admitted_call fun r hr => context_ok _ r hr) fun _ _ => ?_
    refine succeeds_bind (admitted_call fun r hr => context_ok _ r (hr hok)) fun _ _ => ?_
    refine succeeds_bind (admitted_call fun r hr => context_ok _ r hr) fun _ _ => ?_
    refine succeeds_bind (admitted_call fun r hr => context_ok _ r hr) fun _ _ => ?_
    exact admitted_call fun r hr => context_ok _ r (hr htarget)
  · exact admitted_call fun r hr => hr htarget

/-- The login on a jump host whose key passes. -/
theorem reaches_jump {spec : String} {jump : ProxyJumpSpec}
    (hnames : ∃ prefs, preferred ctx cli = .ok prefs) (hspec : cli.proxyJump = some spec)
    (hjump : ctx.parseProxyJump spec = .ok jump)
    (hok : ok (handlerFor cli st jump.host jump.port)) :
    Reaches (Admitted ok) (LoginOn ctx cli st · jump.host jump.port) (connect ctx cli st) := by
  obtain ⟨prefs, hprefs⟩ := hnames
  unfold connect
  refine reaches_bind (Q := fun _ => True) (succeeds_ofResult ⟨prefs, hprefs, trivial⟩)
    fun prefs _ => ?_
  rw [hspec]
  show Reaches _ _ (connectThroughJump ctx cli st prefs spec)
  unfold connectThroughJump
  refine reaches_bind (Q := fun j => j = jump)
    (succeeds_ofResult ⟨jump, by rw [hjump]; rfl, rfl⟩) ?_
  rintro _ rfl
  refine reaches_bind (admitted_call fun r hr => context_ok _ r hr) fun _ _ => ?_
  refine reaches_bind (admitted_call fun r hr => context_ok _ r (hr hok)) fun _ _ => ?_
  exact reaches_bind_left (reaches_call (.jump _ _ _ _ hspec hjump))

theorem reaches_login (hmay : MayLogIn ok ctx cli st host port) :
    Reaches (Admitted ok) (LoginOn ctx cli st · host port) (run ctx cli st) := by
  obtain ⟨⟨hdest, hnames, hway⟩, hok⟩ := hmay
  unfold run login
  rw [if_neg hdest]
  refine reaches_bind_left ?_
  cases hway with
  | direct hnone =>
    refine reaches_bind (succeeds_connect hnames hok fun spec hspec => ?_)
      fun _ _ => reaches_call (.target _ _ _ _)
    rw [hnone] at hspec
    cases hspec
  | jump hspec hjump => exact reaches_bind_left (reaches_jump hnames hspec hjump hok)
  | behind hspec hjump hpasses =>
    refine reaches_bind (succeeds_connect hnames hok
      fun spec' hspec' => ?_) fun _ _ => reaches_call (.target _ _ _ _)
    obtain rfl := Option.some.inj (hspec.symm.trans hspec')
    exact ⟨_, hjump, hpasses⟩

/-- **Under which names a run logs in**, with servers and tasks that may do anything but get a
connection with a key that does not pass: exactly those that the options lead to, with a key that
does, on the way there too. -/
theorem run_logsIn_iff :
    (∃ (σ τ : Type) (h : Handler RunOp RunOp.Res σ) (s : σ)
        (hf : Handler ForwardOp ForwardOp.Res τ) (start : ForwardTask → τ),
      (∀ op s, Accepted ok op (h op s).1) ∧ LogsIn h s hf start ctx cli st host port) ↔
      MayLogIn ok ctx cli st host port := by
  constructor
  · rintro ⟨σ, τ, h, s, hf, start, hrun, hlogs⟩
    exact mayLogIn_of_logsIn hrun hlogs
  · intro hmay
    classical
    refine ⟨Unit, Unit, keyedServers ok, (), allUp, fun _ => (), keyedServers_accepted, .inl ?_⟩
    exact (reaches_login hmay).exists_mem keyedServers_admitted ()

end Logins

/-! ## Changed keys -/

section Changed

variable {ctx : Surroundings} {cli : Cli} {st : Settings}

/-- A changed key passes where it is not looked at, or the check is not strict. -/
theorem checkServerKey_changed {files : String → List KnownHost} {check : CheckKnownHosts}
    (hcontract : KnownHostsContract files check) {path : String}
    (hpath : st.userKnownHosts = some path) (hfile : path ≠ "/dev/null" ∧ path ≠ "nul")
    {host : String} {port : UInt16} {key : PublicKeyOrCertificate}
    (hchanged : Changed (files path) host port key.bare) :
    checkServerKey check (handlerFor cli st host port) key = true ↔
      cli.acceptAllHostKeys = true ∨ st.strictCheck = false := by
  by_cases hall : cli.acceptAllHostKeys = true
  · refine iff_of_true ?_ (.inl hall)
    unfold checkServerKey handlerFor
    rw [hall]
    rfl
  · obtain ⟨line, hline⟩ := hcontract.changed host port key.bare path hchanged
    rw [checkServerKey_iff check _ key (show (handlerFor cli st host port).knownHostsPath = _ from
      hpath) hfile (Bool.not_eq_true _ ▸ hall)]
    show st.strictCheck = false ∨ check host port key.bare path = .ok true ↔ _
    simp [hline, hall]

/-- **A name with a changed key gets no login**, whatever happens, exactly when the check is strict
and not switched off, or the options do not lead there. -/
theorem changed_key_gets_no_login_iff {files : String → List KnownHost} {check : CheckKnownHosts}
    (hcontract : KnownHostsContract files check) {path : String}
    (hpath : st.userKnownHosts = some path) (hfile : path ≠ "/dev/null" ∧ path ≠ "nul")
    {shown : ShownKeys} {host : String} {port : UInt16} (hshown : (shown host port).Nonempty)
    (hchanged : ∀ key ∈ shown host port, Changed (files path) host port key.bare) :
    (∀ (σ τ : Type) (h : Handler RunOp RunOp.Res σ) (s : σ)
        (hf : Handler ForwardOp ForwardOp.Res τ) (start : ForwardTask → τ),
      (∀ op s, Accepted (Acceptable check shown) op (h op s).1) →
        ¬ LogsIn h s hf start ctx cli st host port) ↔
      st.strictCheck = true ∧ cli.acceptAllHostKeys = false ∨
        ¬ LeadsTo (Acceptable check shown) ctx cli st host port := by
  have hmay : (∀ (σ τ : Type) (h : Handler RunOp RunOp.Res σ) (s : σ)
        (hf : Handler ForwardOp ForwardOp.Res τ) (start : ForwardTask → τ),
      (∀ op s, Accepted (Acceptable check shown) op (h op s).1) →
        ¬ LogsIn h s hf start ctx cli st host port) ↔
      ¬ MayLogIn (Acceptable check shown) ctx cli st host port := by
    rw [← run_logsIn_iff]
    simp only [not_exists, not_and]
  -- a changed key passes where nothing is checked, and nowhere else
  have hpasses : Acceptable check shown (handlerFor cli st host port) ↔
      cli.acceptAllHostKeys = true ∨ st.strictCheck = false := by
    constructor
    · rintro ⟨key, hkey, hok⟩
      exact (checkServerKey_changed hcontract hpath hfile (hchanged key hkey)).mp hok
    · intro hoff
      obtain ⟨key, hkey⟩ := hshown
      exact ⟨key, hkey, (checkServerKey_changed hcontract hpath hfile (hchanged key hkey)).mpr hoff⟩
  rw [hmay]
  constructor
  · intro hnot
    by_contra hneither
    obtain ⟨hoff, hleads⟩ := not_or.mp hneither
    refine hnot ⟨not_not.mp hleads, hpasses.mpr ?_⟩
    cases hstrict : st.strictCheck with
    | false => exact .inr rfl
    | true => exact .inl (Bool.not_eq_false _ ▸ fun hy => hoff ⟨hstrict, hy⟩)
  · rintro (⟨hstrict, hy⟩ | hnot) ⟨hleads, hok⟩
    · rcases hpasses.mp hok with h | h
      · rw [hy] at h
        cases h
      · rw [hstrict] at h
        cases h
    · exact hnot hleads

end Changed

/-! ## A host in the middle -/

/-- `passhrs -o StrictHostKeyChecking=yes -o UserKnownHostsFile=kh user@h`. -/
def strictSettings : Settings :=
  { plainSettings with host := "h", strictCheck := true, userKnownHosts := some "kh" }

/-- Somebody shows a key of their own under every name. -/
def intercepted : ShownKeys := fun _ _ => {.publicKey ⟨"ssh-ed25519", [2]⟩}

theorem changed_key_gets_no_login_intercepted :
    (∀ (σ τ : Type) (h : Handler RunOp RunOp.Res σ) (s : σ)
        (hf : Handler ForwardOp ForwardOp.Res τ) (start : ForwardTask → τ),
      (∀ op s, Accepted (Acceptable (checkKnownHosts oneKnownHost) intercepted) op (h op s).1) →
        ¬ LogsIn h s hf start bareSurroundings (Cli.ofCommand ["uptime"]) strictSettings "h" 22) ↔
      strictSettings.strictCheck = true ∧ (Cli.ofCommand ["uptime"]).acceptAllHostKeys = false ∨
        ¬ LeadsTo (Acceptable (checkKnownHosts oneKnownHost) intercepted) bareSurroundings
          (Cli.ofCommand ["uptime"]) strictSettings "h" 22 :=
  changed_key_gets_no_login_iff (checkKnownHosts_contract oneKnownHost) rfl (by decide)
    ⟨_, rfl⟩ (by
      rintro _ rfl
      exact ⟨_, List.mem_singleton_self _, by decide⟩)

end Passhrs
