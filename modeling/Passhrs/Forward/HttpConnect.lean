import Passhrs.Forward.Proxy
import Passhrs.Forward.Pump
import Passhrs.Lib.Separators

/-!
# Requests of `-H` and the reads they come in

`http_connect_handle_one` takes what one read brings for the whole request, and nothing of that
read goes on to the tunnel.

* **`served_iff`**: a client gets the channel it asks for, or an error, exactly when the first read
  does not end inside the target where that already reads as another target.
* **`tunnel_takes_tail_iff`**: the channel gets all that follows a request exactly when nothing of
  it comes with the request.
-/

namespace Passhrs

open Effects Text

/-! ## Requests -/

/-- What a target says: the host and the port behind its last colon. -/
def Names (target host : String) (port : UInt16) : Prop :=
  ∃ digits : String, target = host ++ .singleton ':' ++ digits ∧ ':' ∉ digits.toList ∧
    parseU16 digits = some port

/-- A CONNECT request. `rest` is all that follows the target and the space behind it. -/
structure ConnectRequest where
  method : String
  method_eq : isConnect method = true
  target : String
  space_notMem : ' ' ∉ target.toList
  rest : Bytes

def ConnectRequest.bytes (request : ConnectRequest) : Bytes :=
  utf8 (request.method ++ .singleton ' ' ++ request.target ++ .singleton ' ') ++ request.rest

/-- The first read ends inside the target, and what it has of it already reads as a target, but as
another one. -/
def ConnectRequest.MisreadAt (request : ConnectRequest) (first : Bytes) : Prop :=
  ∃ seen host port, seen.toList <+: request.target.toList ∧
    first = utf8 (request.method ++ .singleton ' ' ++ seen) ∧ Names seen host port ∧
    ¬ Names request.target host port

/-! ## The parser -/

theorem names_append_iff {front digits : String} (hdigits : ':' ∉ digits.toList) (host : String)
    (port : UInt16) : Names (front ++ .singleton ':' ++ digits) host port ↔
      host = front ∧ parseU16 digits = some port := by
  constructor
  · rintro ⟨digits', heq, hdigits', hport⟩
    obtain ⟨hfront, rfl⟩ := append_singleton_inj_last hdigits hdigits' heq
    exact ⟨hfront.symm, hport⟩
  · rintro ⟨rfl, hport⟩
    exact ⟨digits, rfl, hdigits, hport⟩

theorem space_notMem_of_isConnect {method : String} (h : isConnect method = true) :
    ' ' ∉ method.toList := by
  intro hmem
  have hupper : method.toList.map Char.toUpper = "CONNECT".toList := by
    rw [← String.toList_map]
    exact congrArg String.toList (of_decide_eq_true h)
  have hspace := List.mem_map_of_mem (f := Char.toUpper) hmem
  rw [hupper] at hspace
  exact absurd hspace (by decide)

theorem parse_of_notMem {buf : Bytes} (h : ' ' ∉ (fromUtf8Lossy buf).toList) (host : String)
    (port : UInt16) : parseConnectRequest buf ≠ .ok (host, port) := by
  unfold parseConnectRequest
  dsimp only
  rw [splitn_of_notMem h]
  simp

/-- The parser looks at the part behind the first space only. -/
theorem parse_eq_ok_iff {buf : Bytes} {method target : String} (hmethod : isConnect method = true)
    (htarget : ' ' ∉ target.toList)
    (hbuf : fromUtf8Lossy buf = method ++ .singleton ' ' ++ target ∨
      ∃ rest, fromUtf8Lossy buf = method ++ .singleton ' ' ++ (target ++ .singleton ' ' ++ rest))
    (host : String) (port : UInt16) :
    parseConnectRequest buf = .ok (host, port) ↔ Names target host port := by
  have hsplit : ∃ more, splitn 3 ' ' (fromUtf8Lossy buf) = method :: target :: more := by
    have hspace := space_notMem_of_isConnect hmethod
    rcases hbuf with hbuf | ⟨rest, hbuf⟩
    · exact ⟨[], by rw [hbuf, splitn_append hspace, splitn_of_notMem htarget]⟩
    · exact ⟨splitn 1 ' ' rest, by rw [hbuf, splitn_append hspace, splitn_append htarget]⟩
  obtain ⟨more, hmore⟩ := hsplit
  unfold parseConnectRequest
  dsimp only
  rw [hmore]
  dsimp only
  rw [if_pos hmethod]
  by_cases hcolon : ':' ∈ target.toList
  -- the last colon is the one before the port
  · obtain ⟨front, digits, rfl, hdigits⟩ := exists_last hcolon
    rw [rsplitn_append hdigits, rsplitn_one, names_append_iff hdigits]
    dsimp only
    rcases parseU16 digits with _ | port'
    · simp
    · simp [eq_comm]
  · rw [rsplitn_of_notMem hcolon]
    refine ⟨by simp, ?_⟩
    rintro ⟨digits, rfl, -⟩
    exact absurd (by simp) hcolon

/-- A port does not end outside ASCII. -/
theorem not_names_of_high {seen rest host : String} {port : UInt16} (hrest : rest ≠ "")
    (hhigh : ∀ c ∈ rest.toList, 128 ≤ c.toNat) : ¬ Names (seen ++ rest) host port := by
  rintro ⟨digits, heq, -, hport⟩
  -- the last character is one of the port's, or its colon
  have hne : rest.toList ≠ [] := fun hnil => hrest (String.toList_eq_nil_iff.mp hnil)
  have hright : (seen ++ rest).toList.getLast? = rest.toList.getLast? := by
    rw [String.toList_append, List.getLast?_append_of_ne_nil _ hne]
  have hleft : (seen ++ rest).toList.getLast? = (':' :: digits.toList).getLast? := by
    rw [heq, String.toList_append, String.toList_append, String.toList_singleton,
      List.append_assoc, List.singleton_append,
      List.getLast?_append_of_ne_nil _ (List.cons_ne_nil _ _)]
  have hlast := List.getLast?_eq_some_getLast hne
  generalize rest.toList.getLast hne = c at hlast
  have hc : 128 ≤ c.toNat := hhigh c (List.mem_of_getLast? hlast)
  have hmem : c ∈ ':' :: digits.toList :=
    List.mem_of_getLast? (hleft.symm.trans (hright.trans hlast))
  rcases List.mem_cons.mp hmem with rfl | hmem
  · exact absurd hc (by decide)
  · have hdigit : c.isDigit = false := by
      rw [Bool.eq_false_iff, ne_eq, Char.isDigit_iff_toNat]
      exact fun h => absurd (Nat.le_trans hc h.2) (by decide)
    have hplus : c ≠ '+' := by
      rintro rfl
      exact absurd hc (by decide)
    rw [parseU16_eq_none_of_mem hmem hdigit hplus] at hport
    cases hport

/-- How far into a request a text goes that stops before the end of its target. -/
theorem cut_cases {method target front : String}
    (h : front.toList <+: (method ++ .singleton ' ' ++ target ++ .singleton ' ').toList) :
    front.toList <+: method.toList ∨
      (∃ seen : String, seen.toList <+: target.toList ∧ front = method ++ .singleton ' ' ++ seen) ∨
      front = method ++ .singleton ' ' ++ target ++ .singleton ' ' := by
  have hchars : front.toList <+: method.toList ++ ' ' :: (target.toList ++ [' ']) := by
    simpa using h
  by_cases hmethod : front.toList <+: method.toList
  · exact .inl hmethod
  · obtain ⟨x, hx⟩ := (List.prefix_or_prefix_of_prefix hchars
      (List.prefix_append _ _)).resolve_left hmethod
    rw [← hx] at hchars hmethod
    rcases List.prefix_cons_iff.mp ((List.prefix_append_right_inj _).mp hchars) with
      rfl | ⟨seen, rfl, hseen⟩
    · exact absurd (by simp) hmethod
    have hfront : front = method ++ .singleton ' ' ++ .ofList seen :=
      String.toList_injective (by rw [← hx]; simp)
    rcases List.prefix_concat_iff.mp hseen with rfl | hseen
    · refine .inr (.inr ?_)
      rw [hfront, String.ofList_append, String.ofList_toList]
      simp only [String.append_assoc]
      rfl
    · exact .inr (.inl ⟨.ofList seen, by rwa [String.toList_ofList], hfront⟩)

/-- The parser on what the first read has of a request. -/
theorem parse_first {request : ConnectRequest} {first : Bytes} (hfirst : first <+: request.bytes)
    {host : String} {port : UInt16} (hparse : parseConnectRequest first = .ok (host, port)) :
    Names request.target host port ∨
      ∃ seen : String, seen.toList <+: request.target.toList ∧
        first = utf8 (request.method ++ .singleton ' ' ++ seen) ∧ Names seen host port := by
  have hmethod := request.method_eq
  have htarget := request.space_notMem
  -- the space behind the target has come
  have hwhole : ∀ rest, parseConnectRequest (utf8 (request.method ++ .singleton ' ' ++
      request.target ++ .singleton ' ') ++ rest) = .ok (host, port) →
      Names request.target host port := by
    intro rest hparse
    refine (parse_eq_ok_iff hmethod htarget (.inr ⟨fromUtf8Lossy rest, ?_⟩) host port).mp hparse
    rw [fromUtf8Lossy_append]
    simp only [String.append_assoc]
  rw [ConnectRequest.bytes] at hfirst
  rcases List.prefix_or_prefix_of_prefix hfirst (List.prefix_append _ _) with hshort | ⟨rest, rfl⟩
  · obtain ⟨front, rest, rfl, hfront, hrest⟩ := exists_of_isPrefix_utf8 hshort
    have hspace : ' ' ∉ (fromUtf8Lossy rest).toList := fun hmem =>
      absurd (high_of_mem_fromUtf8Lossy hrest hmem) (by decide)
    rcases cut_cases hfront with hcut | ⟨seen, hseen, rfl⟩ | rfl
    · refine absurd hparse (parse_of_notMem ?_ host port)
      rw [fromUtf8Lossy_append, String.toList_append, List.mem_append, not_or]
      exact ⟨fun hmem => space_notMem_of_isConnect hmethod (hcut.subset hmem), hspace⟩
    · have hnames : Names (seen ++ fromUtf8Lossy rest) host port := by
        refine (parse_eq_ok_iff hmethod ?_ (.inl ?_) host port).mp hparse
        · rw [String.toList_append, List.mem_append, not_or]
          exact ⟨fun hmem => htarget (hseen.subset hmem), hspace⟩
        · rw [fromUtf8Lossy_append, String.append_assoc]
      by_cases hrest' : rest = []
      · rw [hrest', show fromUtf8Lossy [] = "" from rfl, String.append_empty] at hnames
        exact .inr ⟨seen, hseen, by rw [hrest', List.append_nil], hnames⟩
      · exact absurd hnames (not_names_of_high (fromUtf8Lossy_ne_empty hrest')
          fun c hc => high_of_mem_fromUtf8Lossy hrest hc)
    · exact .inl (hwhole rest hparse)
  · exact .inl (hwhole rest hparse)

theorem parse_seen {request : ConnectRequest} {seen : String}
    (hseen : seen.toList <+: request.target.toList) (host : String) (port : UInt16) :
    parseConnectRequest (utf8 (request.method ++ .singleton ' ' ++ seen)) = .ok (host, port) ↔
      Names seen host port :=
  parse_eq_ok_iff request.method_eq (fun hmem => request.space_notMem (hseen.subset hmem))
    (.inl (fromUtf8Lossy_utf8 _)) host port

/-- **What it takes for the parser** to find nothing but the target of the request. -/
theorem parse_names_iff {request : ConnectRequest} {first : Bytes}
    (hfirst : first <+: request.bytes) :
    (∀ host port, parseConnectRequest first = .ok (host, port) → Names request.target host port) ↔
      ¬ request.MisreadAt first := by
  constructor
  · rintro h ⟨seen, host, port, hseen, rfl, hnames, hother⟩
    exact hother (h host port ((parse_seen hseen host port).mpr hnames))
  · intro h host port hparse
    rcases parse_first hfirst hparse with hnames | ⟨seen, hseen, heq, hnames⟩
    · exact hnames
    · by_contra hother
      exact h ⟨seen, host, port, hseen, heq, hnames, hother⟩

/-! ## A client's run -/

def ConnOp.opens : ConnOp → Option (String × UInt32)
  | .channelOpenDirectTcpip host port _ _ => some (host, port)
  | _ => none

/-- Where the channels go that are asked for in a run. -/
def opens (log : List ((f : ConnOp) × f.Res)) : List (String × UInt32) :=
  log.filterMap fun e => e.1.opens

/-- The client is served: every channel asked for goes where the request says, and when there is
none the answer is an error. -/
structure ConnectRequest.Served (request : ConnectRequest) (log : List ((f : ConnOp) × f.Res)) :
    Prop where
  named : ∀ target ∈ opens log,
    ∃ host port, target = (host, UInt16.toUInt32 port) ∧ Names request.target host port
  answered : opens log = [] →
    ∃ e ∈ log, e.1 = .writeAll (utf8 "HTTP/1.1 400 Bad Request\r\n\r\n")

/-- A client whose first read brings `first`, on a session that opens every channel. -/
def opensAll (first : Bytes) : Handler ConnOp ConnOp.Res Unit := fun f _ =>
  match f with
  | .readExact _ => (.error "", ())
  | .read _ => (.ok first, ())
  | .writeAll _ => (.ok (), ())
  | .shutdown => ((), ())
  | .channelOpenDirectTcpip _ _ _ _ => (.ok (), ())
  | .pump => ((), ())

def requestTo8080 : ConnectRequest where
  method := "CONNECT"
  method_eq := by decide +kernel
  target := "example.com:8080"
  space_notMem := by decide
  rest := utf8 "HTTP/1.1\r\n\r\n"

theorem names_requestTo8080 : Names requestTo8080.target "example.com" 8080 :=
  ⟨"8080", by decide, by decide, by decide⟩

section Runs

variable {σ : Type} {h : Handler ConnOp ConnOp.Res σ} {s : σ} {first : Bytes}

/-- What is done for a client, when the first read brings something. -/
theorem execLog_httpConnectHandleOne (hread : (h (.read 4096) s).1 = .ok first)
    (hfirst : first ≠ []) :
    execLog h httpConnectHandleOne s = ⟨.read 4096, .ok first⟩ ::
      match parseConnectRequest first with
      | .error _ => execLog h (writeHttpResponse 400 "Bad Request") (h (.read 4096) s).2
      | .ok (host, port) =>
        let opened := h (.channelOpenDirectTcpip host port.toUInt32 "127.0.0.1" 0)
          (h (.read 4096) s).2
        ⟨.channelOpenDirectTcpip host port.toUInt32 "127.0.0.1" 0, opened.1⟩ ::
          match opened.1 with
          | .ok () => execLog h (do
              writeHttpResponse 200 "Connection Established"
              call .pump .ok) opened.2
          | .error _ => execLog h (writeHttpResponse 502 "Bad Gateway") opened.2 := by
  obtain ⟨b, buf, rfl⟩ := List.exists_cons_of_ne_nil hfirst
  unfold httpConnectHandleOne
  have hcall : exec h (call (.read 4096) .ok : ConnM (Except String Bytes)) s =
      (.ok (.ok (b :: buf)), (h (.read 4096) s).2) := by
    rw [exec_call, hread]
  rw [execLog_bind_ok hcall, execLog_call, hread, List.singleton_append]
  dsimp only
  -- a bad request gets its answer before any channel is opened
  rcases parseConnectRequest (b :: buf) with _ | ⟨host, port⟩
  · rfl
  dsimp only
  rw [execLog_bind_ok (exec_call h _ _ _), execLog_call, List.singleton_append]
  rcases h (.channelOpenDirectTcpip host port.toUInt32 "127.0.0.1" 0) (h (.read 4096) s).2 with
    ⟨_ | ⟨⟨⟩⟩, s'⟩
  · rfl
  · rfl

/-- A run whose first read parses asks for one channel, to what was parsed. -/
theorem opens_of_parse {host : String} {port : UInt16}
    (hread : (h (.read 4096) s).1 = .ok first) (hfirst : first ≠ [])
    (hparse : parseConnectRequest first = .ok (host, port)) :
    opens (execLog h httpConnectHandleOne s) = [(host, port.toUInt32)] := by
  rw [execLog_httpConnectHandleOne hread hfirst, hparse]
  dsimp only
  rcases h (.channelOpenDirectTcpip host port.toUInt32 "127.0.0.1" 0) (h (.read 4096) s).2 with
    ⟨_ | ⟨⟨⟩⟩, s'⟩
  · rfl
  · rfl

theorem served_of_parse {request : ConnectRequest} {host : String} {port : UInt16}
    (hread : (h (.read 4096) s).1 = .ok first) (hfirst : first ≠ [])
    (hparse : parseConnectRequest first = .ok (host, port)) :
    request.Served (execLog h httpConnectHandleOne s) ↔ Names request.target host port := by
  have hopens := opens_of_parse hread hfirst hparse
  constructor
  · intro hserved
    obtain ⟨host', port', heq, hnames⟩ := hserved.named (host, port.toUInt32) (by rw [hopens]; simp)
    obtain ⟨rfl, hport⟩ := Prod.mk.inj heq
    rwa [UInt16.toUInt32_inj.mp hport]
  · refine fun hnames => ⟨fun target htarget => ?_, fun hnil => ?_⟩
    · rw [hopens, List.mem_singleton] at htarget
      exact ⟨host, port, htarget, hnames⟩
    · rw [hopens] at hnil
      cases hnil

theorem served_of_error {request : ConnectRequest} {e : String}
    (hread : (h (.read 4096) s).1 = .ok first) (hfirst : first ≠ [])
    (hparse : parseConnectRequest first = .error e) :
    request.Served (execLog h httpConnectHandleOne s) := by
  rw [execLog_httpConnectHandleOne hread hfirst, hparse]
  have hopens : opens (⟨.read 4096, .ok first⟩ ::
      execLog h (writeHttpResponse 400 "Bad Request") (h (.read 4096) s).2) = [] := rfl
  refine ⟨fun target htarget => ?_, fun _ => ⟨_, List.mem_cons_of_mem _ List.mem_cons_self, rfl⟩⟩
  rw [hopens] at htarget
  cases htarget

/-- **A client is served exactly unless its first read is mistaken for the request.** -/
theorem served_iff (request : ConnectRequest) (hfront : first <+: request.bytes)
    (hfirst : first ≠ []) (hread : (h (.read 4096) s).1 = .ok first) :
    request.Served (execLog h httpConnectHandleOne s) ↔ ¬ request.MisreadAt first := by
  rw [← parse_names_iff hfront]
  rcases hparse : parseConnectRequest first with e | ⟨host, port⟩
  · refine iff_of_true (served_of_error hread hfirst hparse) ?_
    rintro host port ⟨⟩
  · rw [served_of_parse hread hfirst hparse]
    constructor
    · rintro hnames _ _ ⟨⟩
      exact hnames
    · exact fun hall => hall host port rfl

theorem served_in_one_read :
    requestTo8080.Served (execLog (opensAll requestTo8080.bytes) httpConnectHandleOne ()) ↔
      ¬ requestTo8080.MisreadAt requestTo8080.bytes :=
  served_iff requestTo8080 List.prefix_rfl (by decide) rfl

/-- The read ends inside the port. -/
theorem port_cut_short :
    utf8 "CONNECT example.com:80" <+: requestTo8080.bytes ∧
      opens (execLog (opensAll (utf8 "CONNECT example.com:80")) httpConnectHandleOne ()) =
        [("example.com", 80)] ∧
      ¬ requestTo8080.Served
        (execLog (opensAll (utf8 "CONNECT example.com:80")) httpConnectHandleOne ()) := by
  have hparse : parseConnectRequest (utf8 "CONNECT example.com:80") = .ok ("example.com", 80) := by
    decide +kernel
  have hfirst : utf8 "CONNECT example.com:80" ≠ [] := by decide
  refine ⟨by decide, opens_of_parse rfl hfirst hparse, fun hserved => ?_⟩
  have hnames := (served_of_parse rfl hfirst hparse).mp hserved
  rw [show requestTo8080.target = "example.com" ++ .singleton ':' ++ "8080" by decide] at hnames
  have hdigits : ':' ∉ "8080".toList := by decide
  have hother := ((names_append_iff hdigits "example.com" 80).mp hnames).2
  revert hother
  decide

/-- A request that has come whole is parsed, whatever comes with it. -/
theorem parse_bytes_append {request : ConnectRequest} {host : String} {port : UInt16}
    (hnames : Names request.target host port) (tail : Bytes) :
    parseConnectRequest (request.bytes ++ tail) = .ok (host, port) := by
  refine (parse_eq_ok_iff request.method_eq request.space_notMem
    (.inr ⟨fromUtf8Lossy (request.rest ++ tail), ?_⟩) host port).mpr hnames
  rw [ConnectRequest.bytes, List.append_assoc, fromUtf8Lossy_append]
  simp only [String.append_assoc]

/-- A request that has come whole is followed by the tunnel, once the channel is open. -/
theorem pump_mem_log {request : ConnectRequest} {tail : Bytes} {host : String} {port : UInt16}
    (hnames : Names request.target host port)
    (hread : (h (.read 4096) s).1 = .ok (request.bytes ++ tail))
    (hopen : ∀ t, (h (.channelOpenDirectTcpip host port.toUInt32 "127.0.0.1" 0) t).1 = .ok ()) :
    ⟨.pump, ()⟩ ∈ execLog h httpConnectHandleOne s := by
  have hparse := parse_bytes_append hnames tail
  have hfirst : request.bytes ++ tail ≠ [] := by
    intro hnil
    rw [hnil] at hparse
    exact parse_of_notMem (by decide) host port hparse
  rw [execLog_httpConnectHandleOne hread hfirst, hparse]
  dsimp only
  rw [hopen]
  refine List.mem_cons_of_mem _ (List.mem_cons_of_mem _ ?_)
  exact List.mem_cons_of_mem _ (List.mem_singleton_self _)

/-- **The tunnel gets all that follows the request exactly when nothing of it comes with the
request**: `tail` is what the first read has beyond the request, and `later` is what the tunnel
reads from the client after that. -/
theorem tunnel_takes_tail_iff {request : ConnectRequest} {tail : Bytes} {host : String}
    {port : UInt16} (hnames : Names request.target host port)
    (hread : (h (.read 4096) s).1 = .ok (request.bytes ++ tail))
    (hopen : ∀ t, (h (.channelOpenDirectTcpip host port.toUInt32 "127.0.0.1" 0) t).1 = .ok ())
    {events : List PumpEvent} {later : List Bytes}
    (hlater : events.filterMap PumpEvent.socketRead = later)
    (hsent : ∀ read, .fromSocket read false ∉ events) {p : Pump}
    (hrun : Machine.run (Pump.step .tunnelForward) (.start .tunnelForward) events = some p) :
    ⟨.pump, ()⟩ ∈ execLog h httpConnectHandleOne s ∧
      (p.toChannel = tail ++ later.flatten ↔ tail = []) := by
  refine ⟨pump_mem_log hnames hread hopen, ?_⟩
  rw [toChannel_eq hsent hrun, hlater, List.self_eq_append_left]

/-- The client's first byte for the tunnel comes with the request, its second one later. -/
theorem early_byte_lost :
    ⟨.pump, ()⟩ ∈
        execLog (opensAll (requestTo8080.bytes ++ [0x16])) httpConnectHandleOne () ∧
      (Machine.run (Pump.step .tunnelForward) (.start .tunnelForward)
        [.fromSocket (.ok [0x03]) true]).map Pump.toChannel = some [0x03] :=
  ⟨pump_mem_log names_requestTo8080 rfl fun _ => rfl, rfl⟩

theorem tunnel_after_request :
    ⟨.pump, ()⟩ ∈ execLog (opensAll (requestTo8080.bytes ++ [])) httpConnectHandleOne () ∧
      ((⟨none, false, [], [0x03], false, false⟩ : Pump).toChannel = [] ++ [[0x03]].flatten ↔
        ([] : Bytes) = []) :=
  have hrun : Machine.run (Pump.step .tunnelForward) (.start .tunnelForward)
      [.fromSocket (.ok [0x03]) true] = some ⟨none, false, [], [0x03], false, false⟩ := rfl
  tunnel_takes_tail_iff (h := opensAll (requestTo8080.bytes ++ [])) (s := ()) names_requestTo8080
    rfl (fun _ => rfl) rfl (by simp) hrun

end Runs

end Passhrs
