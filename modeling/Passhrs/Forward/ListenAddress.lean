import Passhrs.Forward.Driver
import Passhrs.Forward.ForwardSpecs
import Passhrs.Lib.SocketAddr

/-!
# From a spec to a listener

`parse_forward_spec` takes the brackets off a bind address, and `local_port_forward` formats what is
left with the port and parses the result as a socket address.

* **`listens_iff`**: the IP literals that are listened on.
-/

namespace Passhrs

open Text IpAddr Effects

/-! ## The address of a listener -/

variable {τ : Type}

/-- The answers to the parse of an address are those of the standard library. -/
def ParsesAddrs (h : Handler ForwardOp ForwardOp.Res τ) : Prop :=
  ∀ addr t, (h (.parseAddr addr) t).1 = .ok () ↔ (parseSocketAddr addr).isSome = true

/-- A listener was bound, or tried to be bound, to the address. -/
def ForwardLog.ListensOn (log : ForwardLog) (addr : SocketAddr) : Prop :=
  ∃ text answer, ⟨.bind text, answer⟩ ∈ log ∧ parseSocketAddr text = some addr

/-- A listener is bound to the address that is formatted. -/
theorem bind_of_mem_execLog {h : Handler ForwardOp ForwardOp.Res τ} {bindAddr : String}
    {bindPort : UInt16} {exitOnFailure : Bool} {t : τ} {text : String} {answer : Except String Unit}
    (hmem : ⟨.bind text, answer⟩ ∈ execLog h (listenOn bindAddr bindPort exitOnFailure) t) :
    text = listenAddr bindAddr bindPort := by
  let P : ForwardOp → Prop := fun op =>
    ∀ text, op = .bind text → text = listenAddr bindAddr bindPort
  have hcall : ∀ {α : Type} {op : ForwardOp} {k : op.Res → Except Stop α}, P op →
      Emits (fun _ _ => True) P (fun _ => True) (call op k : ForwardM α) :=
    fun hop => emits_call hop fun _ _ _ _ => trivial
  have hemits : Emits (fun _ _ => True) P (fun _ => True)
      (listenOn bindAddr bindPort exitOnFailure) := by
    unfold listenOn
    refine emits_bind (hcall (by simp [P])) fun _ _ => ?_
    refine emits_bind (hcall (by simp [P, listenAddr])) fun bound _ => ?_
    split
    · split
      · exact emits_throw _
      · exact emits_pure trivial
    · refine emits_bind (hcall (by simp [P])) fun accepted _ => ?_
      split
      · exact emits_throw _
      · exact emits_throw _
  exact hemits.of_mem_execLog (fun _ _ => trivial) t _ hmem text rfl

theorem listensOn_iff {h : Handler ForwardOp ForwardOp.Res τ} (hparse : ParsesAddrs h)
    (bindAddr : String) (bindPort : UInt16) (exitOnFailure : Bool) (t : τ) (addr : SocketAddr) :
    ForwardLog.ListensOn (execLog h (listenOn bindAddr bindPort exitOnFailure) t) addr ↔
      parseSocketAddr (listenAddr bindAddr bindPort) = some addr := by
  constructor
  · rintro ⟨text, answer, hmem, haddr⟩
    rwa [bind_of_mem_execLog hmem] at haddr
  · intro haddr
    let text := listenAddr bindAddr bindPort
    have hanswer := (hparse text t).mpr (by rw [haddr]; rfl)
    have hcall : exec h (call (.parseAddr text) orStop) t =
        (.ok (), (h (.parseAddr text) t).2) := by
      rw [exec_call, hanswer]
      rfl
    refine ⟨text, (h (.bind text) (h (.parseAddr text) t).2).1, ?_, haddr⟩
    unfold listenOn
    dsimp only
    rw [show s!"{bindAddr}:{bindPort}" = text from rfl, execLog_bind_ok hcall]
    exact List.mem_append_right _ (mem_execLog_bind_left (List.mem_singleton_self _))

/-! ## The bind address of a spec -/

/-- An IP address, as it stands in a spec. -/
inductive IpLiteral where
  | v4 (text : String) (ip : UInt8 × UInt8 × UInt8 × UInt8)
      (parse_eq : readIpv4 text.toList = some (ip, []))
  | v6 (text : String) (ip : List UInt16) (parse_eq : parseIpv6 text = some ip)

namespace IpLiteral

/-- The bind part of a spec: an IPv6 address is in brackets. -/
def bindText : IpLiteral → String
  | v4 text .. => text ++ .singleton ':'
  | v6 text .. => "[" ++ text ++ "]"

def text : IpLiteral → String
  | v4 text .. => text
  | v6 text .. => text

def socketAddr (port : UInt16) : IpLiteral → SocketAddr
  | v4 _ ip _ => .v4 ip port
  | v6 _ ip _ => .v6 ip 0 port

def isV4 : IpLiteral → Bool
  | v4 .. => true
  | v6 .. => false

end IpLiteral

/-- The bind address is the text of the literal. -/
theorem bindAddr_of_literal {s : String} {gatewayPorts : Bool} {f : ForwardSpec}
    (hparse : parseForwardSpec s gatewayPorts = .ok f) (literal : IpLiteral)
    (hs : ∃ rest, trim s = literal.bindText ++ rest) : f.bindAddr = literal.text := by
  obtain ⟨rest, hs⟩ := hs
  obtain ⟨form, hreadable, hform, rfl⟩ := parseForwardSpec_eq_ok_iff.mp hparse
  have hbind := splitBind_text form hreadable gatewayPorts
  rw [← hform, hs] at hbind
  rcases literal with ⟨text, ip, htext⟩ | ⟨text, ip, htext⟩
  · have hchar : ∀ c ∈ text.toList, c = '.' ∨ (toDigit 10 c).isSome = true := by
      obtain ⟨front, hfront, hmem⟩ := exists_of_readIpv4 htext
      rw [List.append_nil] at hfront
      rwa [hfront]
    have hcolon : ':' ∉ text.toList := fun hmem => absurd (hchar ':' hmem) (by decide)
    have hopen : text.toList.head? ≠ some '[' := fun hhead =>
      absurd (hchar '[' (List.mem_of_mem_head? hhead)) (by decide)
    have hport : parseU16 text = none :=
      parseU16_eq_none_of_mem (dot_mem_of_readIpv4 htext) (by decide) (by decide)
    rw [IpLiteral.bindText, splitBind_plain hcolon hopen hport] at hbind
    exact (Prod.mk.inj (Except.ok.inj hbind)).1.symm
  · obtain ⟨k, hrun, hhead⟩ := exists_trimStartMatches ':' rest
    have hclose := notMem_of_parseIpv6 htext (by decide : ¬ IsIpv6Char ']')
    rw [IpLiteral.bindText, hrun, ← String.append_assoc,
      splitBind_bracketed k hclose hhead] at hbind
    exact (Prod.mk.inj (Except.ok.inj hbind)).1.symm

/-- **What is listened on**: for every spec that `parse_forward_spec` accepts with an IP literal
for its bind address, `local_port_forward` listens on that address and the bind port, if and only
if it is an IPv4 address. -/
theorem listens_iff {s : String} {gatewayPorts : Bool} {f : ForwardSpec}
    (hparse : parseForwardSpec s gatewayPorts = .ok f) (literal : IpLiteral)
    (hs : ∃ rest, trim s = literal.bindText ++ rest) {h : Handler ForwardOp ForwardOp.Res τ}
    (haddrs : ParsesAddrs h) (exitOnFailure : Bool) (t : τ) :
    ForwardLog.ListensOn (execLog h (localPortForward f exitOnFailure) t)
        (literal.socketAddr f.bindPort) ↔ literal.isV4 = true := by
  have hlisten : listenAddr f.bindAddr f.bindPort =
      literal.text ++ ":" ++ Nat.repr f.bindPort.toNat := by
    rw [bindAddr_of_literal hparse literal hs]
    rfl
  rw [localPortForward, listensOn_iff haddrs, hlisten]
  rcases literal with ⟨text, ip, htext⟩ | ⟨text, ip, htext⟩
  · exact iff_of_true (parseSocketAddr_ipv4 htext f.bindPort) rfl
  · refine iff_of_false (fun hsome => ?_) Bool.false_ne_true
    rw [IpLiteral.text, parseSocketAddr_ipv6 htext] at hsome
    cases hsome

/-- `-L [::1]:8080:localhost:80` is accepted, and its task stops at the address `::1:8080`. -/
theorem brackets_lost :
    parseForwardSpec "[::1]:8080:localhost:80" false = .ok ⟨"::1", 8080, "localhost", 80⟩ ∧
      parseSocketAddr (listenAddr "::1" 8080) = none ∧
      parseSocketAddr "[::1]:8080" = some (.v6 [0, 0, 0, 0, 0, 0, 0, 1] 0 8080) := by
  decide +kernel

/-- Addresses that are read, and listeners that come up. -/
def readsAddrs : Handler ForwardOp ForwardOp.Res Unit := fun op t =>
  match op with
  | .accept _ => (none, t)
  | .parseAddr addr =>
    (if (parseSocketAddr addr).isSome then .ok () else .error "invalid socket address syntax", t)
  | .connect _ _ _ _ | .authenticateFwd _ _ _ _ | .bind _ => (.ok (), t)

theorem parsesAddrs_readsAddrs : ParsesAddrs readsAddrs := by
  intro addr t
  show (if (parseSocketAddr addr).isSome then Except.ok () else Except.error _) = .ok () ↔ _
  split
  · next h => exact iff_of_true rfl h
  · next h => exact iff_of_false (fun heq => by cases heq) h

theorem listens_on_ipv4 :
    ForwardLog.ListensOn (execLog readsAddrs
        (localPortForward ⟨"10.0.0.7", 8080, "localhost", 80⟩ false) ())
        (IpLiteral.socketAddr 8080 (.v4 "10.0.0.7" (10, 0, 0, 7) (by decide))) ↔
      (IpLiteral.v4 "10.0.0.7" (10, 0, 0, 7) (by decide)).isV4 = true :=
  have hparse : parseForwardSpec "10.0.0.7:8080:localhost:80" false =
      .ok ⟨"10.0.0.7", 8080, "localhost", 80⟩ := by decide +kernel
  listens_iff hparse (.v4 "10.0.0.7" (10, 0, 0, 7) (by decide))
    ⟨"8080:localhost:80", by decide +kernel⟩ parsesAddrs_readsAddrs false ()

end Passhrs
