import Passhrs.Lib.IpAddr
import Passhrs.Lib.Separators

/-!
# Socket addresses

An address with a port, the way Rust's standard library reads it: `127.0.0.1:80`, `[::1]:80` or
`[fe80::1%2]:80`.

* **`parseSocketAddr_ipv4`**: an IPv4 address in front of a colon and a port is read.
* **`parseSocketAddr_ipv6`**: an IPv6 address without brackets is not.
-/

namespace IpAddr

open Text

/-- `SocketAddr`. The flow information of what is parsed is 0. -/
inductive SocketAddr where
  | v4 (ip : UInt8 × UInt8 × UInt8 × UInt8) (port : UInt16)
  | v6 (ip : List UInt16) (scopeId : UInt32) (port : UInt16)
deriving DecidableEq

/-! ## Reading -/

/-- `Parser::read_given_char`. -/
def readGivenChar (c : Char) : List Char → Option (List Char)
  | d :: s => if d = c then some s else none
  | [] => none

/-- `Parser::read_ipv6_addr`. -/
def readIpv6 (s : List Char) : Option (List UInt16 × List Char) :=
  match readGroups 8 [] s with
  | (head, headIpv4, rest) =>
    if head.length = 8 then some (head, rest)
    else if headIpv4 then none
    else
      match rest with
      | ':' :: ':' :: rest =>
        match readGroups (8 - (head.length + 1)) [] rest with
        | (tail, _, rest) =>
          some (head ++ List.replicate (8 - head.length - tail.length) 0 ++ tail, rest)
      | _ => none

/-- `Parser::read_port`: the digits may be as many as there are. -/
def readPort (s : List Char) : Option (UInt16 × List Char) := do
  let s ← readGivenChar ':' s
  let (port, s) ← readNumber 10 s.length 65536 true s
  pure (UInt16.ofNat port, s)

/-- `Parser::read_scope_id`. -/
def readScopeId (s : List Char) : Option (UInt32 × List Char) := do
  let s ← readGivenChar '%' s
  let (scopeId, s) ← readNumber 10 s.length (2 ^ 32) true s
  pure (UInt32.ofNat scopeId, s)

/-- `Parser::read_socket_addr_v4`. -/
def readSocketAddrV4 (s : List Char) : Option (SocketAddr × List Char) := do
  let (ip, s) ← readIpv4 s
  let (port, s) ← readPort s
  pure (.v4 ip port, s)

/-- `Parser::read_socket_addr_v6`. -/
def readSocketAddrV6 (s : List Char) : Option (SocketAddr × List Char) := do
  let s ← readGivenChar '[' s
  let (ip, s) ← readIpv6 s
  let (scopeId, s) := (readScopeId s).getD (0, s)
  let s ← readGivenChar ']' s
  let (port, s) ← readPort s
  pure (.v6 ip scopeId port, s)

/-- `str::parse::<SocketAddr>`. -/
def parseSocketAddr (s : String) : Option SocketAddr :=
  match (readSocketAddrV4 s.toList).or (readSocketAddrV6 s.toList) with
  | some (addr, []) => some addr
  | _ => none

example : parseSocketAddr "[fe80::1%2]:080" =
    some (.v6 [0xfe80, 0, 0, 0, 0, 0, 0, 1] 2 80) := by decide
example : parseSocketAddr "::1:80" = none ∧ parseSocketAddr "127.0.0.1:80 " = none ∧
    parseSocketAddr "127.0.0.1:65536" = none := by decide

/-! ## What follows an address -/

theorem readNumber_append {radix maxDigits bound : Nat} {allowZeroPrefix : Bool}
    {s rest more : List Char} {n : Nat}
    (h : readNumber radix maxDigits bound allowZeroPrefix s = some (n, rest))
    (hmore : ∀ c, more.head? = some c → toDigit radix c = none) :
    readNumber radix maxDigits bound allowZeroPrefix (s ++ more) = some (n, rest ++ more) := by
  have hnil : more.takeWhile (fun c => (toDigit radix c).isSome) = [] := by
    rcases more with _ | ⟨c, more⟩
    · rfl
    · rw [List.takeWhile_cons_of_neg (by rw [hmore c rfl]; decide)]
  have htake : (s ++ more).takeWhile (fun c => (toDigit radix c).isSome) =
      s.takeWhile fun c => (toDigit radix c).isSome := by
    rw [List.takeWhile_append]
    split
    · next hlength =>
      rw [hnil, List.append_nil]
      exact ((List.takeWhile_prefix _).eq_of_length hlength).symm
    · rfl
  have hhead : s ≠ [] → (s ++ more).head? = s.head? := fun hne => List.head?_append_of_ne_nil _ hne
  unfold readNumber at h ⊢
  dsimp only at h ⊢
  rw [htake]
  split at h
  · cases h
  next hdigits =>
  have hne : s ≠ [] := by
    rintro rfl
    exact hdigits (.inl rfl)
  rw [if_neg hdigits, hhead hne]
  split at h
  · cases h
  next hzero =>
  obtain ⟨rfl, rfl⟩ := Prod.mk.inj (Option.some.inj h)
  rw [if_neg hzero, List.drop_append_of_le_length (List.takeWhile_prefix _).length_le]

theorem readSeparator_append {sep : Char} {index : Nat} {s rest : List Char}
    (h : readSeparator sep index s = some rest) (more : List Char) :
    readSeparator sep index (s ++ more) = some (rest ++ more) := by
  unfold readSeparator at h ⊢
  split at h
  · next hindex =>
    obtain rfl := Option.some.inj h
    rw [if_pos hindex]
  · next hindex =>
    rw [if_neg hindex]
    split at h
    · next c s' =>
      split at h
      · next hc =>
        obtain rfl := Option.some.inj h
        exact if_pos hc
      · cases h
    · cases h

/-- What follows an IPv4 address is left, if it begins with no digit. -/
theorem readIpv4_append {s rest more : List Char} {ip : UInt8 × UInt8 × UInt8 × UInt8}
    (h : readIpv4 s = some (ip, rest)) (hmore : ∀ c, more.head? = some c → toDigit 10 c = none) :
    readIpv4 (s ++ more) = some (ip, rest ++ more) := by
  have hoctet : ∀ {index : Nat} {s : List Char} {octet : UInt8 × List Char},
      (∃ s', readSeparator '.' index s = some s' ∧ ∃ number,
        readNumber 10 3 256 false s' = some number ∧
          some (UInt8.ofNat number.1, number.2) = some octet) →
      ∃ s', readSeparator '.' index (s ++ more) = some s' ∧ ∃ number,
        readNumber 10 3 256 false s' = some number ∧
          some (UInt8.ofNat number.1, number.2) = some (octet.1, octet.2 ++ more) := by
    rintro index s _ ⟨s', hsep, ⟨n, rest⟩, hnumber, hoctet⟩
    obtain rfl := Option.some.inj hoctet
    exact ⟨s' ++ more, readSeparator_append hsep more, (n, rest ++ more),
      readNumber_append hnumber hmore, rfl⟩
  unfold readIpv4 at h ⊢
  simp only [Option.bind_eq_bind, Option.pure_def, Option.bind_eq_some_iff] at h ⊢
  obtain ⟨⟨a, s₁⟩, ha, ⟨b, s₂⟩, hb, ⟨c, s₃⟩, hc, ⟨d, s₄⟩, hd, heq⟩ := h
  obtain ⟨rfl, rfl⟩ := Prod.mk.inj (Option.some.inj heq)
  exact ⟨(a, s₁ ++ more), hoctet ha, (b, s₂ ++ more), hoctet hb, (c, s₃ ++ more), hoctet hc,
    (d, s₄ ++ more), hoctet hd, rfl⟩

/-! ## An address and a port -/

theorem toDigit_ten {c : Char} (hc : c.isDigit = true) : toDigit 10 c = some (c.toNat - 0x30) := by
  obtain ⟨-, hhigh⟩ : 0x30 ≤ c.toNat ∧ c.toNat ≤ 0x39 := Char.isDigit_iff_toNat.mp hc
  unfold toDigit
  rw [if_pos hc]
  exact Option.filter_some_pos (decide_eq_true (by omega))

theorem foldl_toDigit {digits : List Char} (h : ∀ c ∈ digits, c.isDigit = true) (n : Nat) :
    digits.foldl (fun n c => n * 10 + (toDigit 10 c).getD 0) n = Nat.ofDigitChars 10 digits n := by
  induction digits generalizing n with
  | nil => rfl
  | cons c digits ih =>
    rw [List.forall_mem_cons] at h
    rw [List.foldl_cons, ih h.2, Nat.ofDigitChars_cons, toDigit_ten h.1, Option.getD_some,
      Nat.mul_comm]
    rfl

theorem readPort_repr (port : UInt16) :
    readPort (':' :: (Nat.repr port.toNat).toList) = some (port, []) := by
  have hdigits : ∀ c ∈ Nat.toDigits 10 port.toNat, c.isDigit = true := fun c hc =>
    Nat.isDigit_of_mem_toDigits (by decide) (by decide) hc
  have htake : (Nat.toDigits 10 port.toNat).takeWhile (fun c => (toDigit 10 c).isSome) =
      Nat.toDigits 10 port.toNat := by
    refine List.takeWhile_eq_self_iff.mpr fun c hc => ?_
    rw [toDigit_ten (hdigits c hc)]
    rfl
  have hread : readNumber 10 (Nat.toDigits 10 port.toNat).length 65536 true
      (Nat.toDigits 10 port.toNat) = some (port.toNat, []) := by
    unfold readNumber
    dsimp only
    rw [htake, foldl_toDigit hdigits, Nat.ofDigitChars_ten_toDigits, if_neg, if_neg (by simp),
      List.drop_length]
    rw [not_or, not_or]
    exact ⟨Nat.toDigits_ne_nil, Nat.lt_irrefl _, Nat.not_le.mpr port.toNat_lt⟩
  rw [Nat.toList_repr, readPort, readGivenChar, if_pos rfl]
  show (readNumber 10 _ 65536 true (Nat.toDigits 10 port.toNat) >>= _) = _
  rw [hread]
  exact congrArg (fun n => some (n, [])) UInt16.ofNat_toNat

theorem parseSocketAddr_ipv4 {ip : UInt8 × UInt8 × UInt8 × UInt8} {s : String}
    (h : readIpv4 s.toList = some (ip, [])) (port : UInt16) :
    parseSocketAddr (s ++ ":" ++ Nat.repr port.toNat) = some (.v4 ip port) := by
  have hlist : (s ++ ":" ++ Nat.repr port.toNat).toList =
      s.toList ++ ':' :: (Nat.repr port.toNat).toList := by simp
  have hread : readSocketAddrV4 (s.toList ++ ':' :: (Nat.repr port.toNat).toList) =
      some (.v4 ip port, []) := by
    have hcolon : ∀ c, (':' :: (Nat.repr port.toNat).toList).head? = some c →
        toDigit 10 c = none := by
      rintro c hc
      rw [← Option.some.inj hc]
      rfl
    rw [readSocketAddrV4, readIpv4_append h hcolon]
    show (readPort (':' :: (Nat.repr port.toNat).toList) >>= _) = _
    rw [readPort_repr]
    rfl
  rw [parseSocketAddr, hlist, hread]
  rfl

/-- A port is a colon and digits. -/
theorem exists_of_readPort {s : List Char} {port : UInt16} (h : readPort s = some (port, [])) :
    ∃ digits, s = ':' :: digits ∧ ':' ∉ digits := by
  unfold readPort at h
  simp only [Option.bind_eq_bind, Option.pure_def, Option.bind_eq_some_iff] at h
  obtain ⟨s', hcolon, ⟨n, rest⟩, hnumber, heq⟩ := h
  obtain ⟨-, rfl⟩ := Prod.mk.inj (Option.some.inj heq)
  obtain ⟨digits, rfl, -, hdigits⟩ := exists_of_readNumber hnumber
  rw [List.append_nil] at hcolon
  refine ⟨digits, ?_, fun hmem => absurd (hdigits ':' hmem) (by decide)⟩
  rcases s with _ | ⟨c, s⟩
  · cases hcolon
  · rw [readGivenChar] at hcolon
    split at hcolon
    · next hc => rw [hc, Option.some.inj hcolon]
    · cases hcolon

/-- Without its brackets an IPv6 address is not told from its port. -/
theorem parseSocketAddr_ipv6 {segments : List UInt16} {s : String}
    (h : parseIpv6 s = some segments) (port : UInt16) :
    parseSocketAddr (s ++ ":" ++ Nat.repr port.toNat) = none := by
  have hcolon := colon_mem_of_parseIpv6 h
  have hhead := head?_ne_of_parseIpv6 h
  have hv6 : readSocketAddrV6 (s ++ ":" ++ Nat.repr port.toNat).toList = none := by
    have hbracket : readGivenChar '[' (s ++ ":" ++ Nat.repr port.toNat).toList = none := by
      rcases hs : s.toList with _ | ⟨c, l⟩
      · rw [hs] at hcolon
        cases hcolon
      · rw [hs] at hhead
        rw [String.append_assoc, String.toList_append, hs]
        exact if_neg fun hc => hhead (congrArg some hc)
    rw [readSocketAddrV6, hbracket]
    rfl
  rw [parseSocketAddr, hv6, Option.or_none]
  rcases hv4 : readSocketAddrV4 (s ++ ":" ++ Nat.repr port.toNat).toList with _ | ⟨addr, rest⟩
  · rfl
  rcases rest with _ | ⟨c, rest⟩
  · -- all of it would be read as one address, with only one colon
    unfold readSocketAddrV4 at hv4
    simp only [Option.bind_eq_bind, Option.pure_def, Option.bind_eq_some_iff] at hv4
    obtain ⟨⟨ip, rest⟩, hip, ⟨port', rest'⟩, hport, heq⟩ := hv4
    obtain ⟨-, rfl⟩ := Prod.mk.inj (Option.some.inj heq)
    obtain ⟨front, hfront, hdots⟩ := exists_of_readIpv4 hip
    obtain ⟨digits, rfl, hdigits⟩ := exists_of_readPort hport
    have hsplit : s ++ .singleton ':' ++ Nat.repr port.toNat =
        .ofList front ++ .singleton ':' ++ .ofList digits := by
      apply String.toList_injective
      refine (show _ = (s ++ ":" ++ Nat.repr port.toNat).toList from ?_).trans ?_
      · simp
      · rw [hfront]
        simp
    have hrepr : ':' ∉ (Nat.repr port.toNat).toList := by
      intro hmem
      rw [Nat.toList_repr] at hmem
      exact absurd (Nat.isDigit_of_mem_toDigits (by decide) (by decide) hmem) (by decide)
    obtain ⟨rfl, -⟩ := append_singleton_inj_last hrepr (by simpa using hdigits) hsplit
    rw [String.toList_ofList] at hcolon
    rcases hdots ':' hcolon with hdot | hdigit
    · exact absurd hdot (by decide)
    · exact absurd hdigit (by decide)
  · rfl

end IpAddr
