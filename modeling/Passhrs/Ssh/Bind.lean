import Passhrs.Lib.Program
import Passhrs.Lib.SocketAddr

/-!
# Source address and interface

`connect_with_bind`, which makes the TCP connection to the target: `-b` gives it a source address
and `-B` a network interface. Names are resolved, and sockets are made, by the system.

* **`connectWithBind_honours_iff`**: whatever the system answers, the two options are honoured and
  nothing panics, exactly when `-B` does not come without `-b`.
-/

namespace Passhrs

open Effects IpAddr

/-! ## The system -/

/-- `SocketAddr::is_ipv4`. -/
def isIpv4 : SocketAddr → Bool
  | .v4 _ _ => true
  | .v6 _ _ _ => false

/-- `str::parse::<IpAddr>`, as an address with port 0. -/
def parseIpAddr (s : String) : Option SocketAddr :=
  (readIpv4 s.toList).elim none (fun (ip, rest) => if rest = [] then some (.v4 ip 0) else none)
    <|> (parseIpv6 s).map fun segments => .v6 segments 0 0

example : parseIpAddr "127.0.0.1" = some (.v4 (127, 0, 0, 1) 0) ∧
    parseIpAddr "::1" = some (.v6 [0, 0, 0, 0, 0, 0, 0, 1] 0 0) ∧ parseIpAddr "eth0" = none := by
  decide

/-- `Display` of a `SocketAddr`. -/
def displaySocketAddr : SocketAddr → String
  | .v4 (a, b, c, d) port => s!"{ipv4Text a b c d}:{port}"
  | .v6 segments scopeId port =>
    let scope := if scopeId = 0 then "" else s!"%{scopeId}"
    s!"[{ipv6Text segments}{scope}]:{port}"

/-- What is asked of the system. `connect` is `client::connect`, which makes a socket of its own,
and `connectStream` is `client::connect_stream` over the one that was made before. -/
inductive BindOp where
  | connect (host : String) (port : UInt16)
  | lookupHost (text : String)
  | lookupHostPort (host : String) (port : UInt16)
  | newSocket (ipv4 : Bool)
  | bind (addr : SocketAddr)
  | bindToDevice (name : String)
  | connectSocket (remote : SocketAddr)
  | connectStream

abbrev BindOp.Res : BindOp → Type
  | .lookupHost _ | .lookupHostPort _ _ => Except String (List SocketAddr)
  | _ => Except String Unit

/-- How it stops short of a connection. -/
inductive BindStop where
  | panicked (message : String)
  | failed (message : String)

abbrev BindM : Type → Type := Action BindOp BindOp.Res BindStop

/-- `.with_context(message)?` on an answer. -/
def orFail {α : Type} (message : String) (answer : Except String α) : Except BindStop α :=
  answer.mapError fun _ => .failed message

/-- A socket with what it is bound to. -/
structure TcpSocket where
  ipv4 : Bool
  source : Option SocketAddr
  device : Option String

/-- A connection: over a socket of russh's own, or over the one that was made for it. -/
inductive Connection where
  | plain
  | over (socket : TcpSocket) (remote : SocketAddr)

def Connection.source : Connection → Option SocketAddr
  | .plain => none
  | .over socket _ => socket.source

def Connection.device : Connection → Option String
  | .plain => none
  | .over socket _ => socket.device

/-! ## The program -/

/-- `local`: the address that `-b` stands for, with port 0. -/
def resolveSource (bindStr : String) : BindM SocketAddr :=
  (parseIpAddr bindStr).elim
    (do
      let addrs ← call (.lookupHost (bindStr ++ ":0"))
        (orFail s!"-b: failed to resolve bind address {bindStr}")
      ofResult (addrs.head?.elim (.error (.failed s!"-b: no addresses for {bindStr}")) .ok))
    pure

/-- `remote_addrs.find(..).or_else(|| remote_addrs.next())`: a search that finds nothing has used
the iterator up. -/
def pickRemote (source : SocketAddr) (remoteAddrs : List SocketAddr) : Option SocketAddr :=
  let rest := remoteAddrs.dropWhile fun a => isIpv4 a != isIpv4 source
  rest.head? <|> rest.tail.head?

/-- `remote`. -/
def resolveRemote (source : SocketAddr) (host : String) (port : UInt16) : BindM SocketAddr := do
  let remoteAddrs ← call (.lookupHostPort host port)
    (orFail s!"-b: failed to resolve {host}:{port}")
  let remote ← ofResult ((pickRemote source remoteAddrs).elim
    (.error (.failed s!"-b: no addresses for {host}:{port}")) .ok)
  if isIpv4 remote != isIpv4 source then
    let family := if isIpv4 source then "v4" else "v6"
    throw (.failed (s!"-b: local bind family ({family}) does not match any resolved " ++
      s!"address for {host}:{port}"))
  else pure remote

/-- `TcpSocket::new_v4` or `new_v6`. -/
def newSocket (ipv4 : Bool) : BindM TcpSocket := do
  call (.newSocket ipv4) (orFail (if ipv4 then "-b: failed to create IPv4 socket"
    else "-b: failed to create IPv6 socket"))
  pure ⟨ipv4, none, none⟩

def bindSocket (socket : TcpSocket) (source : SocketAddr) : BindM TcpSocket := do
  call (.bind source) (orFail s!"-b: failed to bind to {displaySocketAddr source}")
  pure { socket with source := some source }

/-- What `setsockopt` is answered with. -/
def deviceResult (name : String) (answer : Except String Unit) : Except BindStop Unit :=
  answer.mapError fun err => .failed s!"-B: setsockopt(SO_BINDTODEVICE, {name}) failed: {err}"

/-- `apply_bind_interface`. Elsewhere than on Linux the interface is only warned about. -/
def applyBindInterface (printable : Char → Bool) (linux : Bool) (socket : TcpSocket)
    (bindInterface : Option String) : BindM TcpSocket :=
  (bindInterface.filter (· ≠ "")).elim (pure socket) fun name =>
    if linux then
      -- `CString::new`
      if '\x00' ∈ name.toList then
        throw (.failed ("-B: invalid interface name " ++ Text.debugStr printable name))
      else do
        call (.bindToDevice name) (deviceResult name)
        pure { socket with device := some name }
    else pure socket

/-- The branch of `connect_with_bind` that has an address to bind to. -/
def connectFrom (printable : Char → Bool) (linux : Bool) (host : String) (port : UInt16)
    (bindStr : String) (bindInterface : Option String) : BindM Connection := do
  let source ← resolveSource bindStr
  let remote ← resolveRemote source host port
  let socket ← newSocket (isIpv4 source)
  let socket ← bindSocket socket source
  let socket ← applyBindInterface printable linux socket bindInterface
  call (.connectSocket remote) (orFail s!"-b: connect to {displaySocketAddr remote} failed")
  call .connectStream (orFail "Failed to connect to SSH server (after -b bind)")
  pure (.over socket remote)

/-- `connect_with_bind`. -/
def connectWithBind (printable : Char → Bool) (linux : Bool) (host : String) (port : UInt16)
    (bindAddress bindInterface : Option String) : BindM Connection :=
  let needsBind := bindAddress.any (· ≠ "")
  let needsIf := bindInterface.any (· ≠ "")
  if !needsBind && !needsIf then do
    call (.connect host port) (orFail "Failed to connect to SSH server")
    pure .plain
  else
    bindAddress.elim (throw (.panicked "needs_bind implies Some")) fun bindStr =>
      connectFrom printable linux host port bindStr bindInterface

/-! ## What the options ask for -/

/-- The addresses that `-b` stands for: the one that is written, or those that its name has. -/
def IsGivenSource (log : List ((op : BindOp) × op.Res)) (bindAddress : Option String)
    (a : SocketAddr) : Prop :=
  ∃ text, bindAddress = some text ∧
    (parseIpAddr text = some a ∨ ∃ addrs, ⟨.lookupHost (text ++ ":0"), .ok addrs⟩ ∈ log ∧ a ∈ addrs)

/-- A connection as the two options want it. -/
structure Connection.Honours (c : Connection) (linux : Bool)
    (bindAddress bindInterface : Option String) (log : List ((op : BindOp) × op.Res)) : Prop where
  source : c.source.isSome = true ↔ bindAddress.any (· ≠ "") = true
  given : ∀ a, c.source = some a → IsGivenSource log bindAddress a
  device : linux = true → c.device = bindInterface.filter (· ≠ "")
  family : ∀ socket remote, c = .over socket remote →
    ∃ a, socket.source = some a ∧ isIpv4 a = isIpv4 remote

/-- It never panics. -/
def NoPanic {α : Type} (x : BindM α) : Prop :=
  ∀ (σ : Type) (h : Handler BindOp BindOp.Res σ) (s : σ) (message : String),
    (exec h x s).1 ≠ .error (.panicked message)

section NoPanic

variable {α β : Type} {printable : Char → Bool}

theorem noPanic_pure (a : α) : NoPanic (pure a) := fun _ _ _ _ hrun => nomatch hrun

theorem noPanic_fail (message : String) : NoPanic (throw (.failed message) : BindM α) :=
  fun _ _ _ _ hrun => nomatch hrun

theorem noPanic_call {op : BindOp} {k : op.Res → Except BindStop α}
    (hk : ∀ r message, k r ≠ .error (.panicked message)) : NoPanic (call op k : BindM α) :=
  fun _ h s => hk (h op s).1

theorem noPanic_bind {x : BindM α} {g : α → BindM β} (hx : NoPanic x) (hg : ∀ a, NoPanic (g a)) :
    NoPanic (x >>= g) := by
  intro σ h s message hrun
  rcases hfirst : exec h x s with ⟨e | a, s'⟩
  · rw [exec_bind_error hfirst] at hrun
    exact hx σ h s message (by rw [hfirst, Except.error.inj hrun])
  · rw [exec_bind_ok hfirst] at hrun
    exact hg a σ h s' message hrun

theorem noPanic_ofResult {r : Except BindStop α} (hr : ∀ message, r ≠ .error (.panicked message)) :
    NoPanic (ofResult r) := fun _ _ _ => hr

theorem mapError_ne_panicked (text : String → String) (answer : Except String α)
    (message : String) :
    answer.mapError (fun e => BindStop.failed (text e)) ≠ .error (.panicked message) := by
  cases answer with
  | ok a => exact fun hmap => nomatch hmap
  | error e => exact fun hmap => nomatch hmap

theorem orFail_ne_panicked (text : String) (answer : Except String α) (message : String) :
    orFail text answer ≠ .error (.panicked message) :=
  mapError_ne_panicked (fun _ => text) answer message

theorem noPanic_resolveSource (bindStr : String) : NoPanic (resolveSource bindStr) := by
  unfold resolveSource
  cases parseIpAddr bindStr with
  | some a => exact noPanic_pure a
  | none =>
    refine noPanic_bind (noPanic_call fun r => orFail_ne_panicked _ r) fun addrs =>
      noPanic_ofResult ?_
    cases addrs.head? with
    | some a => exact fun _ heq => nomatch heq
    | none => exact fun _ heq => nomatch heq

theorem noPanic_resolveRemote (source : SocketAddr) (host : String) (port : UInt16) :
    NoPanic (resolveRemote source host port) := by
  unfold resolveRemote
  refine noPanic_bind (noPanic_call fun r => orFail_ne_panicked _ r) fun addrs =>
    noPanic_bind (noPanic_ofResult ?_) fun remote => ?_
  · cases pickRemote source addrs with
    | some a => exact fun _ heq => nomatch heq
    | none => exact fun _ heq => nomatch heq
  · split
    · exact noPanic_fail _
    · exact noPanic_pure _

theorem noPanic_applyBindInterface (linux : Bool) (socket : TcpSocket)
    (bindInterface : Option String) :
    NoPanic (applyBindInterface printable linux socket bindInterface) := by
  unfold applyBindInterface
  cases bindInterface.filter (· ≠ "") with
  | none => exact noPanic_pure _
  | some name =>
    dsimp only [Option.elim]
    split
    · split
      · exact noPanic_fail _
      · exact noPanic_bind (noPanic_call fun r => mapError_ne_panicked _ r) fun _ =>
          noPanic_pure _
    · exact noPanic_pure _

theorem noPanic_connectFrom (linux : Bool) (host : String) (port : UInt16) (bindStr : String)
    (bindInterface : Option String) :
    NoPanic (connectFrom printable linux host port bindStr bindInterface) := by
  refine noPanic_bind (noPanic_resolveSource bindStr) fun source =>
    noPanic_bind (noPanic_resolveRemote source host port) fun remote =>
    noPanic_bind (noPanic_bind (noPanic_call fun r => orFail_ne_panicked _ r) fun _ =>
      noPanic_pure _) fun socket =>
    noPanic_bind (noPanic_bind (noPanic_call fun r => orFail_ne_panicked _ r) fun _ =>
      noPanic_pure _) fun socket =>
    noPanic_bind (noPanic_applyBindInterface linux socket bindInterface) fun socket =>
    noPanic_bind (noPanic_call fun r => orFail_ne_panicked _ r) fun _ =>
    noPanic_bind (noPanic_call fun r => orFail_ne_panicked _ r) fun _ => noPanic_pure _

end NoPanic

/-! ## What a connection is bound to -/

section Runs

variable {σ : Type} {h : Handler BindOp BindOp.Res σ} {s s' : σ} {printable : Char → Bool}
  {linux : Bool} {host : String} {port : UInt16} {bindStr : String} {bindInterface : Option String}

theorem orFail_eq_ok {α : Type} {text : String} {answer : Except String α} {a : α}
    (h : orFail text answer = .ok a) : answer = .ok a := by
  cases answer with
  | ok b => exact congrArg Except.ok (Except.ok.inj h)
  | error e => cases h

theorem exec_resolveSource_eq_ok {a : SocketAddr}
    (hrun : exec h (resolveSource bindStr) s = (.ok a, s')) :
    IsGivenSource (execLog h (resolveSource bindStr) s) (some bindStr) a := by
  refine ⟨bindStr, rfl, ?_⟩
  unfold resolveSource at hrun ⊢
  cases hparse : parseIpAddr bindStr with
  | some b =>
    rw [hparse] at hrun
    exact .inl (congrArg some (Except.ok.inj (Prod.mk.inj hrun).1))
  | none =>
    rw [hparse] at hrun
    obtain ⟨addrs, s₁, hcall, hhead⟩ := exec_bind_eq_ok hrun
    rw [exec_call] at hcall
    refine .inr ⟨addrs, mem_execLog_bind_left ?_, ?_⟩
    · rw [execLog_call, List.mem_singleton, ← orFail_eq_ok (Prod.mk.inj hcall).1]
    · rw [exec_ofResult] at hhead
      cases addrs with
      | nil => cases hhead
      | cons b addrs =>
        cases hhead
        exact List.mem_cons_self

theorem exec_resolveRemote_eq_ok {source remote : SocketAddr}
    (hrun : exec h (resolveRemote source host port) s = (.ok remote, s')) :
    isIpv4 remote = isIpv4 source := by
  obtain ⟨addrs, s₁, -, hrun⟩ := exec_bind_eq_ok hrun
  obtain ⟨remote', -, hrun⟩ := exec_ofResult_bind_eq_ok hrun
  split at hrun
  · cases hrun
  · next hsame =>
    cases hrun
    simpa using hsame

theorem exec_applyBindInterface_eq_ok {socket socket' : TcpSocket}
    (hrun : exec h (applyBindInterface printable linux socket bindInterface) s =
      (.ok socket', s')) :
    socket'.source = socket.source ∧ (socket.device = none → linux = true →
      socket'.device = bindInterface.filter (· ≠ "") ∧
        ∀ name, bindInterface.filter (· ≠ "") = some name → '\x00' ∉ name.toList) := by
  unfold applyBindInterface at hrun
  cases hfilter : bindInterface.filter (· ≠ "") with
  | none =>
    rw [hfilter] at hrun
    cases hrun
    exact ⟨rfl, fun hnone _ => ⟨hnone, fun _ hname => nomatch hname⟩⟩
  | some name =>
    rw [hfilter] at hrun
    dsimp only [Option.elim] at hrun
    split at hrun
    · split at hrun
      · cases hrun
      · next hnul =>
        obtain ⟨_, s₁, -, hrun⟩ := exec_bind_eq_ok hrun
        cases hrun
        exact ⟨rfl, fun _ _ => ⟨rfl, fun name' hname' => Option.some.inj hname' ▸ hnul⟩⟩
    · next hlinux =>
      cases hrun
      exact ⟨rfl, fun _ hyes => absurd hyes hlinux⟩

theorem exec_connectFrom_eq_ok {c : Connection}
    (hrun : exec h (connectFrom printable linux host port bindStr bindInterface) s = (.ok c, s')) :
    ∃ socket source remote, c = .over socket remote ∧ socket.source = some source ∧
      isIpv4 source = isIpv4 remote ∧ (linux = true →
        socket.device = bindInterface.filter (· ≠ "") ∧
          ∀ name, bindInterface.filter (· ≠ "") = some name → '\x00' ∉ name.toList) ∧
      IsGivenSource (execLog h (connectFrom printable linux host port bindStr bindInterface) s)
        (some bindStr) source := by
  obtain ⟨source, s₁, hsource, hrun⟩ := exec_bind_eq_ok hrun
  obtain ⟨remote, s₂, hremote, hrun⟩ := exec_bind_eq_ok hrun
  obtain ⟨socket, s₃, hnew, hrun⟩ := exec_bind_eq_ok hrun
  obtain ⟨socket₁, s₄, hbind, hrun⟩ := exec_bind_eq_ok hrun
  obtain ⟨socket₂, s₅, hdevice, hrun⟩ := exec_bind_eq_ok hrun
  obtain ⟨_, s₆, -, hrun⟩ := exec_bind_eq_ok hrun
  obtain ⟨_, s₇, -, hrun⟩ := exec_bind_eq_ok hrun
  cases hrun
  obtain ⟨_, _, -, hnew⟩ := exec_bind_eq_ok hnew
  cases hnew
  obtain ⟨_, _, -, hbind⟩ := exec_bind_eq_ok hbind
  cases hbind
  -- the interface is set after the bind, which it leaves alone
  obtain ⟨hkept, hset⟩ := exec_applyBindInterface_eq_ok hdevice
  obtain ⟨text, htext, hgiven⟩ := exec_resolveSource_eq_ok hsource
  refine ⟨socket₂, source, remote, rfl, hkept, (exec_resolveRemote_eq_ok hremote).symm,
    hset rfl, text, htext, hgiven.imp_right ?_⟩
  rintro ⟨addrs, hmem, ha⟩
  exact ⟨addrs, mem_execLog_bind_left hmem, ha⟩

end Runs

/-! ## The two options together -/

/-- A system on which every name stands for `127.0.0.1` and nothing is refused. -/
def loopbackSystem : Handler BindOp BindOp.Res Unit := fun op s =>
  match op with
  | .lookupHost _ | .lookupHostPort _ _ => (.ok [.v4 (127, 0, 0, 1) 0], s)
  | .connect _ _ | .newSocket _ | .bind _ | .bindToDevice _ | .connectSocket _ | .connectStream =>
    (.ok (), s)

/-- The interface is set and the address is missing: not there, or empty with an interface whose
name the system can be given. -/
def LacksAddress (linux : Bool) (bindAddress bindInterface : Option String) : Prop :=
  ∃ name, bindInterface = some name ∧ name ≠ "" ∧
    (bindAddress = none ∨ bindAddress = some "" ∧ (linux = true → '\x00' ∉ name.toList))

section Options

variable (printable : Char → Bool) (linux : Bool) (host : String) (port : UInt16)
  (bindAddress bindInterface : Option String)

/-- Without either option the connection is russh's own. -/
theorem connectWithBind_plain (haddr : bindAddress.any (· ≠ "") = false)
    (hif : bindInterface.any (· ≠ "") = false) :
    connectWithBind printable linux host port bindAddress bindInterface = (do
      call (.connect host port) (orFail "Failed to connect to SSH server")
      pure .plain) := by
  rw [connectWithBind, haddr, hif]
  rfl

/-- With one of them the address is taken to be there. -/
theorem connectWithBind_bound
    (hset : bindAddress.any (· ≠ "") = true ∨ bindInterface.any (· ≠ "") = true) :
    connectWithBind printable linux host port bindAddress bindInterface =
      bindAddress.elim (throw (.panicked "needs_bind implies Some")) fun bindStr =>
        connectFrom printable linux host port bindStr bindInterface := by
  rw [connectWithBind]
  rcases hset with hset | hset
  · rw [hset]
    rfl
  · rw [hset]
    cases bindAddress.any (· ≠ "") with
    | true => rfl
    | false => rfl

/-- The empty address is resolved like any other name. -/
theorem exists_connectWithBind_empty {name : String} (hname : name ≠ "")
    (hnul : linux = true → '\x00' ∉ name.toList) :
    ∃ c, (exec loopbackSystem
        (connectWithBind printable linux host port (some "") (some name)) ()).1 = .ok c ∧
      c.source.isSome = true := by
  have hset : (some name).any (· ≠ "") = true := by simpa using hname
  have hsource : exec loopbackSystem (resolveSource "") () = (.ok (.v4 (127, 0, 0, 1) 0), ()) := rfl
  have hremote : exec loopbackSystem (resolveRemote (.v4 (127, 0, 0, 1) 0) host port) () =
      (.ok (.v4 (127, 0, 0, 1) 0), ()) := rfl
  have hnew : exec loopbackSystem (newSocket true) () = (.ok ⟨true, none, none⟩, ()) := rfl
  have hbind : exec loopbackSystem (bindSocket ⟨true, none, none⟩ (.v4 (127, 0, 0, 1) 0)) () =
      (.ok ⟨true, some (.v4 (127, 0, 0, 1) 0), none⟩, ()) := rfl
  -- the name is taken as it stands on Linux, and passed over elsewhere
  obtain ⟨socket, hdevice, hkept⟩ : ∃ socket, exec loopbackSystem
      (applyBindInterface printable linux ⟨true, some (.v4 (127, 0, 0, 1) 0), none⟩
        (some name)) () = (.ok socket, ()) ∧
        socket.source = some (.v4 (127, 0, 0, 1) 0) := by
    have hfilter : (some name).filter (· ≠ "") = some name := by simp [Option.filter, hname]
    rw [applyBindInterface, hfilter]
    cases linux with
    | false => exact ⟨_, rfl, rfl⟩
    | true =>
      dsimp only [Option.elim]
      rw [if_pos rfl, if_neg (hnul rfl)]
      exact ⟨_, rfl, rfl⟩
  refine ⟨.over socket (.v4 (127, 0, 0, 1) 0), ?_, Option.isSome_iff_exists.mpr ⟨_, hkept⟩⟩
  rw [connectWithBind_bound printable linux host port _ _ (.inr hset), Option.elim, connectFrom,
    exec_bind_ok hsource, exec_bind_ok hremote, isIpv4, exec_bind_ok hnew,
    exec_bind_ok hbind, exec_bind_ok hdevice]
  rfl

/-- **The two options are honoured, and nothing panics, whatever the system answers, exactly when**
the address is not missing. -/
theorem connectWithBind_honours_iff :
    (∀ (σ : Type) (h : Handler BindOp BindOp.Res σ) (s : σ),
      (∀ message,
        (exec h (connectWithBind printable linux host port bindAddress bindInterface) s).1 ≠
          .error (.panicked message)) ∧
      ∀ c, (exec h (connectWithBind printable linux host port bindAddress bindInterface) s).1 =
          .ok c →
        c.Honours linux bindAddress bindInterface
          (execLog h (connectWithBind printable linux host port bindAddress bindInterface) s)) ↔
      ¬ LacksAddress linux bindAddress bindInterface := by
  constructor
  · rintro hall ⟨name, rfl, hname, rfl | ⟨rfl, hnul⟩⟩
    · have hset : (some name).any (· ≠ "") = true := by simpa using hname
      obtain ⟨hpanic, -⟩ := hall Unit loopbackSystem ()
      refine hpanic "needs_bind implies Some" ?_
      rw [connectWithBind_bound printable linux host port _ _ (.inr hset)]
      rfl
    · obtain ⟨c, hrun, hsource⟩ := exists_connectWithBind_empty printable linux host port hname hnul
      have hwanted := ((hall Unit loopbackSystem ()).2 c hrun).source.mp hsource
      simp at hwanted
  · intro hlacks σ h s
    by_cases hset : bindAddress.any (· ≠ "") = true ∨ bindInterface.any (· ≠ "") = true
    · rw [connectWithBind_bound printable linux host port _ _ hset]
      cases bindAddress with
      | none =>
        obtain ⟨name, rfl, hname⟩ : ∃ name, bindInterface = some name ∧ name ≠ "" := by
          simpa [Option.any_eq_true] using hset
        exact absurd ⟨name, rfl, hname, .inl rfl⟩ hlacks
      | some text =>
        refine ⟨noPanic_connectFrom linux host port text bindInterface σ h s, fun c hok => ?_⟩
        obtain ⟨socket, source, remote, rfl, hsource, hfamily, hdevice, hgiven⟩ :=
          exec_connectFrom_eq_ok (Prod.ext hok rfl)
        refine ⟨iff_of_true (Option.isSome_iff_exists.mpr ⟨source, hsource⟩) ?_, fun a ha => ?_,
          fun hlinux => (hdevice hlinux).1, ?_⟩
        · -- an empty address comes with an interface that Linux cannot be given
          by_contra htext
          obtain rfl : text = "" := by simpa using htext
          obtain ⟨name, rfl, hname⟩ : ∃ name, bindInterface = some name ∧ name ≠ "" := by
            simpa [Option.any_eq_true] using hset
          refine hlacks ⟨name, rfl, hname, .inr ⟨rfl, fun hlinux => ?_⟩⟩
          exact (hdevice hlinux).2 name (by simp [Option.filter, hname])
        · obtain rfl := Option.some.inj (hsource.symm.trans ha)
          exact hgiven
        · rintro _ _ ⟨⟩
          exact ⟨source, hsource, hfamily⟩
    · obtain ⟨haddr, hif⟩ := not_or.mp hset
      rw [Bool.not_eq_true] at haddr hif
      rw [connectWithBind_plain printable linux host port _ _ haddr hif]
      have hplain : NoPanic (do
          call (.connect host port) (orFail "Failed to connect to SSH server")
          pure .plain : BindM Connection) :=
        noPanic_bind (noPanic_call fun r => orFail_ne_panicked _ r) fun _ => noPanic_pure _
      refine ⟨hplain σ h s, fun c hok => ?_⟩
      obtain ⟨_, s₁, -, hrun⟩ := exec_bind_eq_ok (Prod.ext hok rfl)
      cases hrun
      have hfilter : bindInterface.filter (· ≠ "") = none := by
        rw [Option.filter_eq_none_iff]
        intro name hname
        simpa [hname] using hif
      exact ⟨by rw [haddr]; rfl, fun _ ha => (nomatch ha), fun _ => hfilter.symm,
        fun _ _ hover => (nomatch hover)⟩

end Options

/-- `-B eth0` without `-b`. -/
theorem connectWithBind_panics :
    (exec loopbackSystem
        (connectWithBind (fun _ => true) true "host" 22 none (some "eth0")) ()).1 =
      .error (.panicked "needs_bind implies Some") := by
  rw [connectWithBind_bound _ true "host" 22 none (some "eth0") (.inr (by decide))]
  rfl

end Passhrs
