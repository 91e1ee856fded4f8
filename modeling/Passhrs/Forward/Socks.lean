import Passhrs.Forward.HttpConnect

/-!
# The handshake of `-D`

What `socks5_handshake` makes of the bytes of a client, in whatever segments they come.

* **`socks_decoded`**: of a request it takes exactly its bytes, and opens the channel that it asks
  for, which gets what follows the request.
* **`validates_iff`**: but it never looks at a version, at the methods or at the command.
-/

namespace Passhrs

open Effects IpAddr Text

/-! ## Requests -/

/-- The address forms of a request. A name is not always UTF-8. -/
inductive SocksAddress where
  | ipv4 (a b c d : UInt8)
  | domain (name : Bytes) (h : name.length < 256)
  | ipv6 (segments : List UInt16) (h : segments.length = 8)

namespace SocksAddress

def kind : SocksAddress → UInt8
  | ipv4 .. => 1
  | domain .. => 3
  | ipv6 .. => 4

def bytes : SocksAddress → Bytes
  | ipv4 a b c d => [a, b, c, d]
  | domain name _ => UInt8.ofNat name.length :: name
  | ipv6 segments _ => segments.flatMap toBe16

def text : SocksAddress → String
  | ipv4 a b c d => ipv4Text a b c d
  | domain name _ => fromUtf8Lossy name
  | ipv6 segments _ => ipv6Text segments

end SocksAddress

/-- A greeting and a request, with any values in the fields that do not frame them. -/
structure SocksRequest where
  version : UInt8
  methods : Bytes
  length_methods : methods.length < 256
  requestVersion : UInt8
  command : UInt8
  reserved : UInt8
  address : SocksAddress
  port : UInt16

def SocksRequest.bytes (request : SocksRequest) : Bytes :=
  [request.version, UInt8.ofNat request.methods.length] ++ (request.methods ++
    ([request.requestVersion, request.command, request.reserved, request.address.kind] ++
      (request.address.bytes ++ toBe16 request.port)))

/-! ## Clients -/

/-- A client that sends this, on a session that answers `opened` for a channel. What is written to
the client goes through. -/
def socksStream (opened : String → UInt32 → Except String Unit) :
    Handler ConnOp ConnOp.Res Bytes := fun f stream =>
  match f with
  | .readExact n =>
    match Bytes.readExact n stream with
    | some (got, rest) => (.ok got, rest)
    | none => (.error "early eof", [])
  | .read capacity => (.ok (stream.take capacity), stream.drop capacity)
  | .writeAll _ => (.ok (), stream)
  | .shutdown => ((), stream)
  | .channelOpenDirectTcpip host port _ _ => (opened host port, stream)
  | .pump => ((), stream)

/-- A client whose bytes come in these segments. -/
def socksClient (opened : String → UInt32 → Except String Unit) :
    Handler ConnOp ConnOp.Res (List Bytes) := fun f segments =>
  match f with
  | .readExact n =>
    match Bytes.readExactFrom n segments with
    | some (got, rest) => (.ok got, rest)
    | none => (.error "early eof", [])
  | .read capacity =>
    match segments with
    | [] => (.ok [], [])
    | segment :: rest => (.ok (segment.take capacity), segment.drop capacity :: rest)
  | .writeAll _ => (.ok (), segments)
  | .shutdown => ((), segments)
  | .channelOpenDirectTcpip host port _ _ => (opened host port, segments)
  | .pump => ((), segments)

/-- Not a read that takes what has come. -/
def ConnOp.Framed (f : ConnOp) : Prop := ∀ capacity, f ≠ .read capacity

section Emits

variable {α β : Type} {P : ConnOp → Prop}

/-- Whatever the answers are, only such operations are issued. -/
abbrev EmitsOnly (P : ConnOp → Prop) (x : ConnM α) : Prop :=
  Emits (fun _ _ => True) P (fun _ => True) x

theorem emitsOnly_call {f : ConnOp} (hf : P f) {k : f.Res → Except String α} :
    EmitsOnly P (call f k) := emits_call hf fun _ _ _ _ => trivial

theorem emitsOnly_bind {x : ConnM α} {g : α → ConnM β} (hx : EmitsOnly P x)
    (hg : ∀ a, EmitsOnly P (g a)) : EmitsOnly P (x >>= g) := emits_bind hx fun a _ => hg a

theorem emitsOnly_socks5Handshake (hread : ∀ n, P (.readExact n))
    (hwrite : ∀ bytes, P (.writeAll bytes)) : EmitsOnly P socks5Handshake := by
  have hport : EmitsOnly P readPort :=
    emitsOnly_bind (emitsOnly_call (hread 2)) fun _ => emits_pure trivial
  unfold socks5Handshake
  refine emitsOnly_bind (emitsOnly_call (hread 2)) fun greeting =>
    emitsOnly_bind (emitsOnly_call (hread _)) fun _ =>
      emitsOnly_bind (emitsOnly_call (hwrite _)) fun _ =>
        emitsOnly_bind (emitsOnly_call (hread 4)) fun request => ?_
  dsimp only
  split_ifs
  · exact emitsOnly_bind (emitsOnly_call (hread 4)) fun ip =>
      emitsOnly_bind hport fun port => emits_pure trivial
  · exact emitsOnly_bind (emitsOnly_call (hread 1)) fun length =>
      emitsOnly_bind (emitsOnly_call (hread _)) fun domain =>
        emitsOnly_bind hport fun port => emits_pure trivial
  · exact emitsOnly_bind (emitsOnly_call (hread 16)) fun ip =>
      emitsOnly_bind hport fun port => emits_pure trivial
  · exact emits_throw _

theorem framed_socks5Handshake : EmitsOnly ConnOp.Framed socks5Handshake :=
  emitsOnly_socks5Handshake (fun _ _ => ConnOp.noConfusion) fun _ _ => ConnOp.noConfusion

theorem framed_handleSocksConnection : EmitsOnly ConnOp.Framed handleSocksConnection := by
  unfold handleSocksConnection
  refine emitsOnly_bind framed_socks5Handshake fun target =>
    emitsOnly_bind (emitsOnly_call fun _ => ConnOp.noConfusion) fun answer => ?_
  rcases answer with e | ⟨⟨⟩⟩
  · exact emitsOnly_bind (emitsOnly_call fun _ => ConnOp.noConfusion) fun _ => emits_throw _
  · exact emitsOnly_bind (emitsOnly_call fun _ => ConnOp.noConfusion)
      fun _ => emitsOnly_call fun _ => ConnOp.noConfusion

end Emits

section Runs

variable {α : Type} {opened : String → UInt32 → Except String Unit}

theorem socksStream_flatten {f : ConnOp} (hf : f.Framed) (segments : List Bytes) :
    socksStream opened f segments.flatten =
      ((socksClient opened f segments).1, (socksClient opened f segments).2.flatten) := by
  rcases f with n | capacity | bytes | _ | ⟨host, port, originator, originatorPort⟩ | _
  · unfold socksStream socksClient
    dsimp only
    rw [Bytes.readExact_flatten]
    rcases Bytes.readExactFrom n segments with _ | ⟨got, rest⟩
    · rfl
    · rfl
  · exact absurd rfl (hf capacity)
  · rfl
  · rfl
  · rfl
  · rfl

/-- **The segments make no difference** to what reads in pieces of a known size. -/
theorem exec_socksStream (opened : String → UInt32 → Except String Unit) {x : ConnM α}
    (hx : EmitsOnly ConnOp.Framed x) (segments : List Bytes) :
    (exec (socksStream opened) x segments.flatten =
        let run := exec (socksClient opened) x segments
        (run.1, run.2.flatten)) ∧
      execLog (socksStream opened) x segments.flatten = execLog (socksClient opened) x segments :=
  hx.exec_view (fun _ segments hf => ⟨trivial, socksStream_flatten hf segments⟩) segments

/-! ## The handshake -/

theorem exec_readExact_bind {n : Nat} (front : Bytes) (h : front.length = n)
    (rest : Bytes) (g : Bytes → ConnM α) :
    exec (socksStream opened) (call (.readExact n) id >>= g) (front ++ rest) =
      exec (socksStream opened) (g front) rest := by
  refine exec_bind_ok ?_ g
  show (id (socksStream opened _ _).1, (socksStream opened _ _).2) = _
  unfold socksStream
  dsimp only
  rw [← h, Bytes.readExact_append]
  rfl

theorem exec_readPort_bind (port : UInt16) (rest : Bytes) (g : UInt16 → ConnM α) :
    exec (socksStream opened) (readPort >>= g) (toBe16 port ++ rest) =
      exec (socksStream opened) (g port) rest := by
  refine exec_bind_ok ?_ g
  unfold readPort
  refine Eq.trans (exec_readExact_bind (toBe16 port) rfl rest _) ?_
  exact congrArg (fun port => (Except.ok port, rest)) (ofBe16_toBe16 port)

theorem toNat_ofNat_length {bytes : Bytes} (h : bytes.length < 256) :
    (UInt8.ofNat bytes.length).toNat = bytes.length := by
  rw [UInt8.toNat_ofNat', Nat.mod_eq_of_lt h]

/-- The segments of an IPv6 address, read from its bytes. -/
theorem segments_of_bytes {segments : List UInt16} (h : segments.length = 8) :
    (List.range 8).map (fun i => ofBe16 ((segments.flatMap toBe16).getD (2 * i) 0)
      ((segments.flatMap toBe16).getD (2 * i + 1) 0)) = segments := by
  obtain ⟨a, b, c, d, e, f, g, i, rfl⟩ :
      ∃ a b c d e f g i, segments = [a, b, c, d, e, f, g, i] := by
    match segments, h with
    | [a, b, c, d, e, f, g, i], _ => exact ⟨a, b, c, d, e, f, g, i, rfl⟩
  show [ofBe16 (a >>> 8).toUInt8 a.toUInt8, ofBe16 (b >>> 8).toUInt8 b.toUInt8,
    ofBe16 (c >>> 8).toUInt8 c.toUInt8, ofBe16 (d >>> 8).toUInt8 d.toUInt8,
    ofBe16 (e >>> 8).toUInt8 e.toUInt8, ofBe16 (f >>> 8).toUInt8 f.toUInt8,
    ofBe16 (g >>> 8).toUInt8 g.toUInt8, ofBe16 (i >>> 8).toUInt8 i.toUInt8] = _
  simp only [ofBe16_toBe16]

/-- **The handshake takes a request and nothing else.** -/
theorem exec_socks5Handshake (request : SocksRequest) (tail : Bytes) :
    exec (socksStream opened) socks5Handshake (request.bytes ++ tail) =
      (.ok (request.address.text, request.port), tail) := by
  obtain ⟨version, methods, hmethods, requestVersion, command, reserved, address, port⟩ := request
  unfold socks5Handshake SocksRequest.bytes
  simp only [List.append_assoc]
  -- the greeting, its methods, the answer to them, and the header of the request
  refine Eq.trans (exec_readExact_bind [version, UInt8.ofNat methods.length] rfl _ _) ?_
  refine Eq.trans (exec_readExact_bind methods (toNat_ofNat_length hmethods).symm _ _) ?_
  refine Eq.trans (exec_bind_ok rfl _) ?_
  refine Eq.trans (exec_readExact_bind [requestVersion, command, reserved, address.kind] rfl _ _) ?_
  rcases address with ⟨a, b, c, d⟩ | ⟨name, hname⟩ | ⟨segments, hsegments⟩
  · refine Eq.trans (exec_readExact_bind [a, b, c, d] rfl _ _) ?_
    exact exec_readPort_bind port tail _
  · -- the length of a name is read before the name
    show exec _ (_ >>= _) ([UInt8.ofNat name.length] ++ (name ++ _)) = _
    refine Eq.trans (exec_readExact_bind [UInt8.ofNat name.length] rfl _ _) ?_
    refine Eq.trans (exec_readExact_bind name (toNat_ofNat_length hname).symm _ _) ?_
    exact exec_readPort_bind port tail _
  · have hlength : (segments.flatMap toBe16).length = 16 := by
      simp [hsegments, toBe16]
    refine Eq.trans (exec_readExact_bind (segments.flatMap toBe16) hlength _ _) ?_
    refine Eq.trans (exec_readPort_bind port tail _) ?_
    show (Except.ok (ipv6Text _, port), tail) = _
    rw [segments_of_bytes hsegments]
    rfl

theorem exec_readExact_eq_ok {n : Nat} {stream got rest : Bytes}
    (h : exec (socksStream opened) (call (.readExact n) id : ConnM Bytes) stream =
      (.ok got, rest)) : stream = got ++ rest ∧ got.length = n := by
  rw [exec_call] at h
  unfold socksStream at h
  dsimp only at h
  rcases hread : Bytes.readExact n stream with _ | ⟨got', rest'⟩
  · rw [hread] at h
    cases h
  · rw [hread] at h
    cases h
    exact Bytes.readExact_eq_some hread

theorem exec_readExact_bind_eq_ok {n : Nat} {stream rest : Bytes} {g : Bytes → ConnM α} {a : α}
    (h : exec (socksStream opened) (call (.readExact n) id >>= g) stream = (.ok a, rest)) :
    ∃ got more, got.length = n ∧ stream = got ++ more ∧
      exec (socksStream opened) (g got) more = (.ok a, rest) := by
  obtain ⟨got, more, hread, hrun⟩ := exec_bind_eq_ok h
  obtain ⟨hstream, hlength⟩ := exec_readExact_eq_ok hread
  exact ⟨got, more, hlength, hstream, hrun⟩

theorem exec_readPort_bind_eq_ok {stream rest : Bytes} {g : UInt16 → ConnM α} {a : α}
    (h : exec (socksStream opened) (readPort >>= g) stream = (.ok a, rest)) :
    ∃ port more, stream = toBe16 port ++ more ∧
      exec (socksStream opened) (g port) more = (.ok a, rest) := by
  obtain ⟨port, more, hread, hrun⟩ := exec_bind_eq_ok h
  obtain ⟨p, more', hlength, rfl, hport⟩ := exec_readExact_bind_eq_ok hread
  obtain ⟨high, low, rfl⟩ := List.length_eq_two.mp hlength
  cases hport
  exact ⟨ofBe16 high low, more, by rw [toBe16_ofBe16], hrun⟩

/-- The bytes of an IPv6 address are those of its segments. -/
theorem exists_segments {ip : Bytes} (h : ip.length = 16) :
    ∃ segments : List UInt16, segments.length = 8 ∧ segments.flatMap toBe16 = ip := by
  match ip, h with
  | [a, b, c, d, e, f, g, i, j, k, l, m, n, o, p, q], _ =>
    refine ⟨[ofBe16 a b, ofBe16 c d, ofBe16 e f, ofBe16 g i, ofBe16 j k, ofBe16 l m, ofBe16 n o,
      ofBe16 p q], rfl, ?_⟩
    simp only [List.flatMap_cons, List.flatMap_nil, toBe16_ofBe16]
    rfl

/-- What the handshake accepts begins with a request. -/
theorem exists_request_of_ok {stream rest : Bytes} {target : String × UInt16}
    (h : exec (socksStream opened) socks5Handshake stream = (.ok target, rest)) :
    ∃ request : SocksRequest, stream = request.bytes ++ rest := by
  unfold socks5Handshake at h
  obtain ⟨greeting, s₁, hgreeting, rfl, h₁⟩ := exec_readExact_bind_eq_ok h
  obtain ⟨version, nmethods, rfl⟩ := List.length_eq_two.mp hgreeting
  obtain ⟨methods, s₂, hmethods, rfl, h₂⟩ := exec_readExact_bind_eq_ok h₁
  obtain ⟨⟨⟩, s₃, hwrite, h₃⟩ := exec_bind_eq_ok h₂
  cases hwrite
  obtain ⟨header, s₄, hheader, rfl, h₄⟩ := exec_readExact_bind_eq_ok h₃
  obtain ⟨requestVersion, command, reserved, kind, rfl⟩ := List.length_eq_four.mp hheader
  -- the branches for the three address types; any other one ends the handshake
  have hrequest : ∃ (address : SocksAddress) (port : UInt16), kind = address.kind ∧
      s₄ = address.bytes ++ toBe16 port ++ rest := by
    dsimp only [List.getD_cons_succ, List.getD_cons_zero] at h₄
    split_ifs at h₄ with hipv4 hdomain hipv6
    · obtain ⟨ip, s₅, hip, rfl, h₅⟩ := exec_readExact_bind_eq_ok h₄
      obtain ⟨a, b, c, d, rfl⟩ := List.length_eq_four.mp hip
      obtain ⟨port, s₆, rfl, hpure⟩ := exec_readPort_bind_eq_ok h₅
      cases hpure
      exact ⟨.ipv4 a b c d, port, hipv4, by rw [List.append_assoc]; rfl⟩
    · obtain ⟨length, s₅, hlength, rfl, h₅⟩ := exec_readExact_bind_eq_ok h₄
      obtain ⟨length, rfl⟩ := List.length_eq_one_iff.mp hlength
      obtain ⟨name, s₆, hname, rfl, h₆⟩ := exec_readExact_bind_eq_ok h₅
      obtain ⟨port, s₇, rfl, hpure⟩ := exec_readPort_bind_eq_ok h₆
      cases hpure
      refine ⟨.domain name (by rw [hname]; exact length.toNat_lt), port, hdomain, ?_⟩
      rw [SocksAddress.bytes, hname, List.append_assoc]
      simp
    · obtain ⟨ip, s₅, hip, rfl, h₅⟩ := exec_readExact_bind_eq_ok h₄
      obtain ⟨segments, hsegments, rfl⟩ := exists_segments hip
      obtain ⟨port, s₆, rfl, hpure⟩ := exec_readPort_bind_eq_ok h₅
      cases hpure
      exact ⟨.ipv6 segments hsegments, port, hipv6, by rw [List.append_assoc]; rfl⟩
    · cases h₄
  obtain ⟨address, port, rfl, rfl⟩ := hrequest
  have hlt : methods.length < 256 := by
    rw [hmethods]
    exact nmethods.toNat_lt
  obtain rfl : nmethods = UInt8.ofNat methods.length := by
    rw [hmethods]
    simp
  refine ⟨⟨version, methods, hlt, requestVersion, command, reserved, address, port⟩, ?_⟩
  rw [SocksRequest.bytes]
  simp only [List.append_assoc]

theorem opens_append (log more : List ((f : ConnOp) × f.Res)) :
    opens (log ++ more) = opens log ++ opens more := List.filterMap_append

theorem opens_socks5Handshake {σ : Type} (h : Handler ConnOp ConnOp.Res σ) (s : σ) :
    opens (execLog h socks5Handshake s) = [] := by
  have hemits : EmitsOnly (fun f => f.opens = none) socks5Handshake :=
    emitsOnly_socks5Handshake (fun _ => rfl) fun _ => rfl
  exact List.filterMap_eq_nil_iff.mpr (hemits.of_mem_execLog (fun _ _ => trivial) s)

/-! ## The connection -/

/-- The client's run, when the SSH session opens the channel. -/
theorem handleSocksConnection_of_opened (request : SocksRequest) (tail : Bytes)
    (h : opened request.address.text request.port.toUInt32 = .ok ()) :
    exec (socksStream opened) handleSocksConnection (request.bytes ++ tail) = (.ok (), tail) ∧
      ⟨.pump, ()⟩ ∈ execLog (socksStream opened) handleSocksConnection (request.bytes ++ tail) := by
  unfold handleSocksConnection
  rw [exec_bind_ok (exec_socks5Handshake request tail),
    execLog_bind_ok (exec_socks5Handshake request tail)]
  have hopen : exec (socksStream opened) (call (.channelOpenDirectTcpip request.address.text
      request.port.toUInt32 "127.0.0.1" 0) .ok : ConnM (Except String Unit)) tail =
      (.ok (.ok ()), tail) := by
    rw [exec_call]
    exact congrArg (fun answer => (Except.ok answer, tail)) h
  dsimp only
  rw [exec_bind_ok hopen, execLog_bind_ok hopen]
  refine ⟨rfl, List.mem_append_right _ (List.mem_append_right _ ?_)⟩
  exact List.mem_cons_of_mem _ (List.mem_singleton_self _)

theorem opens_handleSocksConnection (request : SocksRequest) (tail : Bytes) :
    opens (execLog (socksStream opened) handleSocksConnection (request.bytes ++ tail)) =
      [(request.address.text, request.port.toUInt32)] := by
  unfold handleSocksConnection
  rw [execLog_bind_ok (exec_socks5Handshake request tail), opens_append, opens_socks5Handshake]
  dsimp only
  rw [List.nil_append, execLog_bind_ok (exec_call _ _ _ _), opens_append, execLog_call]
  rcases socksStream opened (.channelOpenDirectTcpip request.address.text request.port.toUInt32
    "127.0.0.1" 0) tail with ⟨_ | ⟨⟨⟩⟩, s⟩
  · rfl
  · rfl

/-- The handshake, in whatever segments the request comes. -/
theorem exec_socksClient_of_request (request : SocksRequest) {tail : Bytes} {segments : List Bytes}
    (h : segments.flatten = request.bytes ++ tail) :
    ∃ rest, exec (socksClient opened) socks5Handshake segments =
      (.ok (request.address.text, request.port), rest) ∧ rest.flatten = tail := by
  obtain ⟨hexec, -⟩ := exec_socksStream opened framed_socks5Handshake segments
  rw [h, exec_socks5Handshake] at hexec
  obtain ⟨hresult, hrest⟩ := Prod.mk.inj hexec
  exact ⟨_, Prod.ext hresult.symm rfl, hrest.symm⟩

theorem opens_socksClient_of_request (opened : String → UInt32 → Except String Unit)
    (request : SocksRequest) {tail : Bytes} {segments : List Bytes}
    (h : segments.flatten = request.bytes ++ tail) :
    opens (execLog (socksClient opened) handleSocksConnection segments) =
      [(request.address.text, request.port.toUInt32)] := by
  obtain ⟨-, hlog⟩ := exec_socksStream opened framed_handleSocksConnection segments
  rw [← hlog, h]
  exact opens_handleSocksConnection request tail

/-- A client's bytes, in segments, as they are decoded and forwarded. -/
structure SocksDecoded (opened : String → UInt32 → Except String Unit) (request : SocksRequest)
    (tail : Bytes) (segments : List Bytes) : Prop where
  handshake : ∃ rest, exec (socksClient opened) socks5Handshake segments =
    (.ok (request.address.text, request.port), rest) ∧ rest.flatten = tail
  channel : opens (execLog (socksClient opened) handleSocksConnection segments) =
    [(request.address.text, request.port.toUInt32)]
  /-- `later` is what the client sends after `tail`. -/
  tunnel : opened request.address.text request.port.toUInt32 = .ok () →
    ∃ rest, exec (socksClient opened) handleSocksConnection segments = (.ok (), rest) ∧
      ⟨.pump, ()⟩ ∈ execLog (socksClient opened) handleSocksConnection segments ∧
      ∀ events p later,
        Machine.run (Pump.step .handleSocksConnection) (.start .handleSocksConnection) events =
          some p →
        (∀ read, .fromSocket read false ∉ events) →
        (events.filterMap PumpEvent.socketRead).flatten = rest.flatten ++ later →
        p.toChannel = tail ++ later

/-- **A request is decoded whatever segments it comes in**: for every request and all that follows
it, the handshake results in the text of the address and in the port and leaves what follows, the
channel goes there, and what follows comes first in the tunnel. A name in UTF-8 is the text
itself. -/
theorem socks_decoded (opened : String → UInt32 → Except String Unit) (request : SocksRequest)
    {tail : Bytes} {segments : List Bytes} (hsegments : segments.flatten = request.bytes ++ tail) :
    SocksDecoded opened request tail segments ∧
      ∀ name h, request.address = .domain (utf8 name) h → request.address.text = name := by
  refine ⟨⟨exec_socksClient_of_request request hsegments,
    opens_socksClient_of_request opened request hsegments, fun hopened => ?_⟩, ?_⟩
  · obtain ⟨hexec, hlog⟩ := exec_socksStream opened framed_handleSocksConnection segments
    obtain ⟨hrun, hpump⟩ := handleSocksConnection_of_opened request tail hopened
    rw [hsegments] at hexec hlog
    rw [hrun] at hexec
    obtain ⟨hunit, htail⟩ := Prod.mk.inj hexec
    refine ⟨_, Prod.ext hunit.symm rfl, by rwa [← hlog], ?_⟩
    intro events p later hmachine hsent hreads
    rw [toChannel_eq hsent hmachine, hreads, ← htail]
  · intro name h haddress
    rw [haddress]
    exact fromUtf8Lossy_utf8 name

/-! ## The headers -/

/-- The fields of a greeting and of a request that say what the client wants. -/
structure HeadersValid (stream : Bytes) : Prop where
  version : stream[0]? = some 5
  noAuth : 0 ∈ (stream.drop 2).take (stream.getD 1 0).toNat
  requestVersion : (stream.drop (2 + (stream.getD 1 0).toNat))[0]? = some 5
  connect : (stream.drop (2 + (stream.getD 1 0).toNat))[1]? = some 1

/-- The handshake succeeds for valid headers only, and opens nothing for others. -/
structure Validates (opened : String → UInt32 → Except String Unit) (segments : List Bytes) :
    Prop where
  ok : ∀ target rest, exec (socksClient opened) socks5Handshake segments = (.ok target, rest) →
    HeadersValid segments.flatten
  refused : ¬ HeadersValid segments.flatten →
    (∃ e rest, exec (socksClient opened) socks5Handshake segments = (.error e, rest)) ∧
      opens (execLog (socksClient opened) handleSocksConnection segments) = []

/-- **The headers are not looked at**: what a client sends is validated if and only if its headers
are valid or it holds no complete request. -/
theorem validates_iff (opened : String → UInt32 → Except String Unit) (segments : List Bytes) :
    Validates opened segments ↔ HeadersValid segments.flatten ∨
      ¬ ∃ (request : SocksRequest) (tail : Bytes), segments.flatten = request.bytes ++ tail := by
  obtain ⟨hhandshake, -⟩ := exec_socksStream opened framed_socks5Handshake segments
  constructor
  · intro h
    by_cases hrequest : ∃ (request : SocksRequest) (tail : Bytes),
        segments.flatten = request.bytes ++ tail
    · -- a complete request is always accepted
      obtain ⟨request, tail, hsegments⟩ := hrequest
      obtain ⟨rest, hok, -⟩ := exec_socksClient_of_request request hsegments
      exact .inl (h.ok _ _ hok)
    · exact .inr hrequest
  · intro h
    have hok : ∀ target rest, exec (socksClient opened) socks5Handshake segments =
        (.ok target, rest) → HeadersValid segments.flatten := by
      intro target rest hok
      rw [hok] at hhandshake
      obtain ⟨request, hrequest⟩ := exists_request_of_ok hhandshake
      exact h.resolve_right (not_not.mpr ⟨request, _, hrequest⟩)
    refine ⟨hok, fun hinvalid => ?_⟩
    rcases hrun : exec (socksClient opened) socks5Handshake segments with ⟨e | target, rest⟩
    · refine ⟨⟨e, rest, rfl⟩, ?_⟩
      unfold handleSocksConnection
      rw [execLog_bind_error hrun, opens_socks5Handshake]
    · exact absurd (hok target rest hrun) hinvalid

end Runs

/-! ## Two requests -/

/-- `SOCKS5` without authentication, to port 80 of a host on the local network. -/
def connectRequest : SocksRequest :=
  ⟨5, [0], by decide, 5, 1, 0, .ipv4 10 0 0 7, 80⟩

theorem connectRequest_decoded :
    SocksDecoded (fun _ _ => .ok ()) connectRequest [0x47]
        [[5, 1], [0, 5, 1], [0, 1, 10, 0, 0, 7, 0, 80, 0x47]] ∧
      ∀ name h, connectRequest.address = .domain (utf8 name) h →
        connectRequest.address.text = name :=
  socks_decoded (fun _ _ => .ok ()) connectRequest rfl

/-- UDP ASSOCIATE, from a client that offers user names and passwords only. -/
def udpRequest : SocksRequest :=
  ⟨5, [2], by decide, 5, 3, 0, .ipv4 10 0 0 7, 80⟩

theorem udpRequest_accepted :
    ¬ HeadersValid udpRequest.bytes ∧
      opens (execLog (socksClient fun _ _ => .ok ()) handleSocksConnection [udpRequest.bytes]) =
        [("10.0.0.7", 80)] ∧
      ¬ Validates (fun _ _ => .ok ()) [udpRequest.bytes] := by
  have hinvalid : ¬ HeadersValid udpRequest.bytes := fun h => absurd h.connect (by decide)
  have hflatten : [udpRequest.bytes].flatten = udpRequest.bytes ++ [] := rfl
  have hopens := opens_socksClient_of_request (fun _ _ => .ok ()) udpRequest hflatten
  refine ⟨hinvalid, hopens.trans (by decide), fun h => ?_⟩
  have hnone := (h.refused hinvalid).2
  rw [hopens] at hnone
  cases hnone

end Passhrs
