import Passhrs.Lib.IpAddr
import Passhrs.Lib.Program

/-!
# The local proxies

What is done for one client of `-L`, `-D` and `-H`: the handshake, the channel, the reply, and the
pump, as programs over the operations on the client's socket and on the SSH session. An error is the
outermost message of its chain.
-/

namespace Passhrs

open Effects IpAddr Text

/-! ## Operations -/

/-- What is done for a client. `read` is one read of at most `capacity` bytes, and `pump` the two
tasks between the channel and the socket, up to the end of their `join!`. -/
inductive ConnOp where
  | readExact (n : Nat)
  | read (capacity : Nat)
  | writeAll (bytes : Bytes)
  | shutdown
  | channelOpenDirectTcpip (host : String) (port : UInt32) (originator : String)
      (originatorPort : UInt32)
  | pump
deriving DecidableEq

/-- The error of `shutdown` is dropped. -/
abbrev ConnOp.Res : ConnOp → Type
  | .readExact _ | .read _ => Except String Bytes
  | .shutdown | .pump => Unit
  | _ => Except String Unit

abbrev ConnM (α : Type) : Type := Action ConnOp ConnOp.Res String α

/-! ## `-L` -/

/-- A round of the loop of `local_port_forward`, behind the accept. -/
def localPortConnection (targetHost : String) (targetPort : UInt16) (bindAddr : String)
    (bindPort : UInt16) : ConnM Unit := do
  match ← call (.channelOpenDirectTcpip targetHost targetPort.toUInt32 bindAddr bindPort.toUInt32)
      .ok with
  | .ok () => call .pump .ok
  | .error _ => pure ()

/-! ## `-D` -/

/-- `try_parse_ipv4`. -/
def tryParseIpv4 (addr : String) : Option Bytes :=
  match addr.toList.splitOn '.' with
  | [a, b, c, d] => [a, b, c, d].mapM fun part => parseU8 (.ofList part)
  | _ => none

/-- `try_parse_ipv6`. -/
def tryParseIpv6 (addr : String) : Option Bytes :=
  let addr := trimEndMatches ']' (.ofList (addr.toList.dropWhile (· == '[')))
  (parseIpv6 addr).map fun segments => segments.flatMap toBe16

/-- `socks5_response`. -/
def socks5Response (bindAddr : String) (bindPort : UInt16) (status : UInt8) : Bytes :=
  match tryParseIpv4 bindAddr with
  | some octets => [5, status, 0, 1] ++ octets ++ toBe16 bindPort
  | none =>
    match tryParseIpv6 bindAddr with
    | some octets => [5, status, 0, 4] ++ octets ++ toBe16 bindPort
    | none =>
      [5, status, 0, 3] ++ [UInt8.ofNat (utf8 bindAddr).length] ++ utf8 bindAddr ++ toBe16 bindPort

example : socks5Response "127.0.0.1" 0 0 = [5, 0, 0, 1, 127, 0, 0, 1, 0, 0] := by decide

/-- The port at the end of a request. -/
def readPort : ConnM UInt16 := do
  let p ← call (.readExact 2) id
  pure (ofBe16 (p.getD 0 0) (p.getD 1 0))

/-- `socks5_handshake`: the host and the port that the client asks for. -/
def socks5Handshake : ConnM (String × UInt16) := do
  let greeting ← call (.readExact 2) id
  let nmethods := (greeting.getD 1 0).toNat
  let _ ← call (.readExact nmethods) id
  call (.writeAll [5, 0]) id
  let request ← call (.readExact 4) id
  let kind := request.getD 3 0
  if kind = 1 then do
    let ip ← call (.readExact 4) id
    let port ← readPort
    pure (ipv4Text (ip.getD 0 0) (ip.getD 1 0) (ip.getD 2 0) (ip.getD 3 0), port)
  else if kind = 3 then do
    let length ← call (.readExact 1) id
    let domain ← call (.readExact (length.getD 0 0).toNat) id
    let port ← readPort
    pure (fromUtf8Lossy domain, port)
  else if kind = 4 then do
    let ip ← call (.readExact 16) id
    let port ← readPort
    let segments := (List.range 8).map fun i => ofBe16 (ip.getD (2 * i) 0) (ip.getD (2 * i + 1) 0)
    pure (ipv6Text segments, port)
  else throw s!"unsupported SOCKS5 address type: {kind}"

def handleSocksConnection : ConnM Unit := do
  let (host, port) ← socks5Handshake
  match ← call (.channelOpenDirectTcpip host port.toUInt32 "127.0.0.1" 0) .ok with
  | .ok () => do
    call (.writeAll (socks5Response "127.0.0.1" 0 0)) id
    call .pump .ok
  | .error e => do
    let _ ← call (.writeAll (socks5Response "0.0.0.0" 0 1)) .ok
    throw s!"SOCKS channel open failed: {e}"

/-! ## `-H` -/

/-- `parts[0].to_uppercase() != "CONNECT"`, the other way round: no letter outside ASCII has an
upper case that is one of these. -/
def isConnect (method : String) : Bool := method.toUpper = "CONNECT"

/-- `parse_connect_request`. -/
def parseConnectRequest (buf : Bytes) : Except String (String × UInt16) :=
  let request := fromUtf8Lossy buf
  let line := (firstLine request).getD "?"
  match splitn 3 ' ' request with
  | method :: hostPort :: _ =>
    if isConnect method then
      match rsplitn 2 ':' hostPort with
      | [port, host] =>
        match parseU16 port with
        | some port => .ok (host, port)
        | none => .error "invalid port in CONNECT"
      | _ => .error s!"invalid host:port in CONNECT: {hostPort}"
    else .error s!"invalid HTTP CONNECT request: {line}"
  | _ => .error s!"invalid HTTP CONNECT request: {line}"

/-- `write_http_response`, whose error is dropped. -/
def writeHttpResponse (status : UInt16) (message : String) : ConnM Unit := do
  let _ ← call (.writeAll (utf8 s!"HTTP/1.1 {status} {message}\r\n\r\n")) .ok
  pure ()

def httpConnectHandleOne : ConnM Unit := do
  match ← call (.read 4096) .ok with
  | .error _ | .ok [] => call .shutdown .ok
  | .ok bytes =>
    match parseConnectRequest bytes with
    | .error _ => writeHttpResponse 400 "Bad Request"
    | .ok (host, port) =>
      match ← call (.channelOpenDirectTcpip host port.toUInt32 "127.0.0.1" 0) .ok with
      | .ok () => do
        writeHttpResponse 200 "Connection Established"
        call .pump .ok
      | .error _ => writeHttpResponse 502 "Bad Gateway"

end Passhrs
