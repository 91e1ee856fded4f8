import Passhrs.Forward.Socks

/-!
# Targets of the two proxies

A client of `-H` writes its target as text, one of `-D` as an address. An IPv6 address stands in
brackets in the text, and `parse_connect_request` keeps them.

* **`proxies_agree_iff`**: for the same host and port the two proxies open the same channel, except
  for IPv6 addresses.
-/

namespace Passhrs

open Effects IpAddr Text

/-- A host that both kinds of clients can ask for. -/
inductive ProxyHost where
  | ipv4 (a b c d : UInt8)
  | ipv6 (segments : List UInt16) (h : segments.length = 8)
  | domain (name : String) (space_notMem : ' ' ∉ name.toList) (h : (utf8 name).length < 256)

namespace ProxyHost

/-- How it is written in front of the port. -/
def authority : ProxyHost → String
  | ipv4 a b c d => ipv4Text a b c d
  | ipv6 segments _ => "[" ++ ipv6Text segments ++ "]"
  | domain name _ _ => name

def address : ProxyHost → SocksAddress
  | ipv4 a b c d => .ipv4 a b c d
  | ipv6 segments h => .ipv6 segments h
  | domain name _ h => .domain (utf8 name) h

def isIpv6 : ProxyHost → Bool
  | ipv6 .. => true
  | _ => false

theorem space_notMem_authority (host : ProxyHost) : ' ' ∉ host.authority.toList := by
  rcases host with ⟨a, b, c, d⟩ | ⟨segments, h⟩ | ⟨name, hspace, h⟩
  · exact space_notMem_ipv4Text a b c d
  · have hopen : ' ' ∉ "[".toList := by decide
    have hclose : ' ' ∉ "]".toList := by decide
    rw [authority, String.toList_append, String.toList_append]
    simp only [List.mem_append, not_or]
    exact ⟨⟨hopen, space_notMem_ipv6Text segments⟩, hclose⟩
  · exact hspace

/-- The brackets are the only difference between the two ways to write a host. -/
theorem authority_eq_text_iff (host : ProxyHost) :
    host.authority = host.address.text ↔ host.isIpv6 = false := by
  rcases host with ⟨a, b, c, d⟩ | ⟨segments, h⟩ | ⟨name, hspace, h⟩
  · exact iff_of_true rfl rfl
  · -- with its brackets it is longer by two characters
    refine iff_of_false (fun heq => ?_) Bool.noConfusion
    have hlength := congrArg String.length heq
    rw [authority, String.length_append, String.length_append] at hlength
    have : (SocksAddress.ipv6 segments h).text.length = (ipv6Text segments).length := rfl
    have : "[".length = 1 := rfl
    simp only [address] at hlength
    omega
  · exact iff_of_true (fromUtf8Lossy_utf8 name).symm rfl

/-- A CONNECT request for the host and a port. -/
def connectRequest (host : ProxyHost) (port : UInt16) (method : String)
    (hmethod : isConnect method = true) (rest : Bytes) : ConnectRequest where
  method := method
  method_eq := hmethod
  target := host.authority ++ .singleton ':' ++ Nat.repr port.toNat
  space_notMem := by
    have hcolon : ' ' ∉ (String.singleton ':').toList := by decide
    rw [String.toList_append, String.toList_append]
    simp only [List.mem_append, not_or]
    refine ⟨⟨host.space_notMem_authority, hcolon⟩, ?_⟩
    rw [Nat.toList_repr]
    exact space_notMem_toDigits (by decide) port.toNat
  rest := rest

theorem names_connectRequest (host : ProxyHost) (port : UInt16) {method : String}
    (hmethod : isConnect method = true) (rest : Bytes) :
    Names (host.connectRequest port method hmethod rest).target host.authority port := by
  refine ⟨Nat.repr port.toNat, rfl, fun hmem => ?_, parseU16_repr port⟩
  rw [Nat.toList_repr] at hmem
  exact absurd (Nat.isDigit_of_mem_toDigits (by decide) (by decide) hmem) (by decide)

end ProxyHost

/-- Both clients get a channel to the same host and port. -/
def SameTarget (http socks : List ((f : ConnOp) × f.Res)) : Prop :=
  ∃ target, opens http = [target] ∧ opens socks = [target]

/-- **The two proxies agree on all hosts but IPv6 addresses.** -/
theorem proxies_agree_iff (host : ProxyHost) {method : String} (hmethod : isConnect method = true)
    (rest : Bytes) {σ : Type} {h : Handler ConnOp ConnOp.Res σ} {s : σ}
    (opened : String → UInt32 → Except String Unit) (request : SocksRequest)
    (hrequest : request.address = host.address) {tail : Bytes} {segments : List Bytes}
    (hread : (h (.read 4096) s).1 =
      .ok (host.connectRequest request.port method hmethod rest).bytes)
    (hsegments : segments.flatten = request.bytes ++ tail) :
    SameTarget (execLog h httpConnectHandleOne s)
        (execLog (socksClient opened) handleSocksConnection segments) ↔
      host.isIpv6 = false := by
  have hparse := parse_bytes_append (host.names_connectRequest request.port hmethod rest) []
  rw [List.append_nil] at hparse
  have hfirst : (host.connectRequest request.port method hmethod rest).bytes ≠ [] := by
    intro hnil
    rw [hnil] at hparse
    exact parse_of_notMem (by decide) _ _ hparse
  have hhttp := opens_of_parse hread hfirst hparse
  have hsocks := opens_socksClient_of_request opened request hsegments
  rw [hrequest] at hsocks
  unfold SameTarget
  rw [hhttp, hsocks, ← host.authority_eq_text_iff]
  constructor
  · rintro ⟨target, hauthority, htext⟩
    exact congrArg Prod.fst (List.cons.inj (hauthority.trans htext.symm)).1
  · intro heq
    exact ⟨_, rfl, by rw [heq]⟩

/-- `::1` port 443. -/
def loopback : ProxyHost := .ipv6 [0, 0, 0, 0, 0, 0, 0, 1] rfl

def loopbackRequest : SocksRequest :=
  { connectRequest with address := loopback.address, port := 443 }

theorem isConnect_upper : isConnect "CONNECT" = true := by decide +kernel

theorem brackets_kept :
    let http := execLog (opensAll (utf8 "CONNECT [::1]:443 ")) httpConnectHandleOne ()
    let socks := execLog (socksClient fun _ _ => .ok ()) handleSocksConnection
      [loopbackRequest.bytes]
    (loopback.connectRequest 443 "CONNECT" isConnect_upper []).bytes = utf8 "CONNECT [::1]:443 " ∧
      opens http = [("[::1]", 443)] ∧ opens socks = [("::1", 443)] ∧ ¬ SameTarget http socks := by
  have hparse : parseConnectRequest (utf8 "CONNECT [::1]:443 ") = .ok ("[::1]", 443) := by
    decide +kernel
  have hflatten : [loopbackRequest.bytes].flatten = loopbackRequest.bytes ++ [] := rfl
  have hhttp : opens (execLog (opensAll (utf8 "CONNECT [::1]:443 ")) httpConnectHandleOne ()) =
      [("[::1]", 443)] := opens_of_parse rfl (by decide) hparse
  have hsocks : opens (execLog (socksClient fun _ _ => .ok ()) handleSocksConnection
      [loopbackRequest.bytes]) = [("::1", 443)] := by
    rw [opens_socksClient_of_request _ loopbackRequest hflatten]
    decide +kernel
  refine ⟨by decide +kernel, hhttp, hsocks, ?_⟩
  rintro ⟨target, htarget, htarget'⟩
  rw [hhttp, ← htarget', hsocks] at htarget
  exact absurd htarget (by decide)

/-- A host of the local network, by its address. -/
def localHost : ProxyHost := .ipv4 10 0 0 7

theorem agree_on_ipv4 :
    SameTarget
        (execLog (opensAll (localHost.connectRequest connectRequest.port "CONNECT" isConnect_upper
          []).bytes) httpConnectHandleOne ())
        (execLog (socksClient fun _ _ => .ok ()) handleSocksConnection [connectRequest.bytes]) ↔
      localHost.isIpv6 = false :=
  proxies_agree_iff localHost isConnect_upper [] (fun _ _ => .ok ()) connectRequest rfl rfl
    (rfl : [connectRequest.bytes].flatten = connectRequest.bytes ++ [])

end Passhrs
