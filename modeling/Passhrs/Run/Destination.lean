import Passhrs.Lib.Separators
import Passhrs.Run.PrintConfig

/-!
# The destination

`parse_destination` is read backwards: `HostReading` is what it accepts behind the `@`, by its
parts.

* **`parseDestination_eq_ok_iff`**: what is accepted, and as which host, user and port.
* **`parseDestination_text`**: a destination that is written as `[user@]host[:port]` is read back.
-/

namespace Passhrs

open Text

/-! ## Ports -/

/-- A port, as it is written. -/
structure PortText where
  digits : String
  port : UInt16
  parse_eq : parseU16 digits = some port

theorem PortText.notMem (port : PortText) {c : Char} (hdigit : c.isDigit = false)
    (hplus : c ≠ '+') : c ∉ port.digits.toList := by
  intro hmem
  have hparse := port.parse_eq
  rw [parseU16_eq_none_of_mem hmem hdigit hplus] at hparse
  cases hparse

theorem PortText.digits_ne (port : PortText) : port.digits.toList ≠ [] := by
  intro hnil
  have hparse := port.parse_eq
  rw [String.toList_eq_nil_iff.mp hnil] at hparse
  cases (rfl : parseU16 "" = none).symm.trans hparse

theorem PortText.colon_notMem (port : PortText) : ':' ∉ port.digits.toList :=
  port.notMem (by decide) (by decide)

/-- `parse::<u16>`, with the context of its error. -/
def parsePort (context digits : String) : Except String UInt16 :=
  match parseU16 digits with
  | some port => .ok port
  | none => .error context

theorem parsePort_bind_eq_ok_iff {α : Type} {context digits : String}
    {f : UInt16 → Except String α} {a : α} :
    (parsePort context digits >>= f) = .ok a ↔
      ∃ port : PortText, port.digits = digits ∧ f port.port = .ok a := by
  unfold parsePort
  constructor
  · intro h
    rcases hparse : parseU16 digits with _ | port
    · rw [hparse] at h
      cases h
    · rw [hparse] at h
      exact ⟨⟨digits, port, hparse⟩, rfl, h⟩
  · rintro ⟨port, rfl, h⟩
    rw [port.parse_eq]
    exact h

theorem PortText.ext_digits {port port' : PortText} (h : port.digits = port'.digits) :
    port = port' := by
  obtain ⟨digits, n, hparse⟩ := port
  obtain ⟨digits', n', hparse'⟩ := port'
  obtain rfl : digits = digits' := h
  obtain rfl : n = n' := Option.some.inj (hparse.symm.trans hparse')
  rfl

/-- The digits of a port that may be missing. -/
def portDigits : Option PortText → String
  | none => ""
  | some port => port.digits

/-- `[:port]`. -/
def colonPort : Option PortText → String
  | none => ""
  | some port => .singleton ':' ++ port.digits

/-- How many colons stand between a bracketed host and its port. -/
def separators : Option PortText → Nat
  | none => 0
  | some _ => 1

theorem colonPort_eq (port : Option PortText) :
    colonPort port = copies (separators port) ':' ++ portDigits port := by
  rcases port with _ | port
  · rfl
  · rw [colonPort, separators, copies_one, portDigits]

theorem portDigits_head (port : Option PortText) : (portDigits port).toList.head? ≠ some ':' := by
  rcases port with _ | port
  · exact fun h => by cases h
  · exact fun h => port.colon_notMem (List.mem_of_mem_head? h)

/-! ## What is read -/

theorem stripPrefix_bracket_eq_none_iff {s : String} :
    stripPrefix "[" s = none ↔ s.toList.head? ≠ some '[' :=
  stripPrefix_singleton_eq_none_iff (c := '[')

theorem head?_append_colon {host : String} (h : host.toList.head? ≠ some '[') (rest : String) :
    (host ++ .singleton ':' ++ rest).toList.head? ≠ some '[' := by
  rw [String.append_assoc, String.toList_append]
  rcases hhost : host.toList with _ | ⟨c, l⟩
  · simp
  · rwa [hhost] at h

/-- Text that begins with a part in brackets and a run of colons, as the parsers cut it. -/
theorem bracketed_eq (part : String) (k : Nat) (rest : String) :
    "[" ++ part ++ "]" ++ copies k ':' ++ rest =
      "[" ++ (part ++ .singleton ']' ++ (copies k ':' ++ rest)) := by
  apply String.toList_injective
  simp

theorem exists_bracketed {s stripped part behind : String}
    (hstrip : stripPrefix "[" s = some stripped)
    (hsplit : splitOnce ']' stripped = some (part, behind)) :
    ∃ k, s = "[" ++ part ++ "]" ++ copies k ':' ++ trimStartMatches ':' behind ∧
      ']' ∉ part.toList := by
  obtain ⟨rfl, hclose⟩ := splitOnce_eq_some_iff.mp hsplit
  obtain ⟨k, hrun, -⟩ := exists_trimStartMatches ':' behind
  rw [stripPrefix_eq_some_iff.mp hstrip]
  refine ⟨k, ?_, hclose⟩
  rw [bracketed_eq, ← hrun]

/-- What `parse_destination` reads behind the `@`: the text, the host and the port. -/
inductive HostReading : String → String → Option UInt16 → Prop
  | bracketed (host : String) (k : Nat) (port : Option PortText)
      (close_notMem : ']' ∉ host.toList) :
      HostReading ("[" ++ host ++ "]" ++ copies k ':' ++ portDigits port) host
        (port.map PortText.port)
  | cut (host : String) (port : PortText) (bracket : host.toList.head? ≠ some '[') :
      HostReading (host ++ .singleton ':' ++ port.digits) host (some port.port)
  | whole (host : String) (colon_notMem : ':' ∉ host.toList)
      (bracket : host.toList.head? ≠ some '[') : HostReading host host none

theorem parseHostPort_bracketed (dest : String) {host : String} (k : Nat) (port : Option PortText)
    (hclose : ']' ∉ host.toList) :
    parseHostPort dest ("[" ++ host ++ "]" ++ copies k ':' ++ portDigits port) =
      .ok (host, port.map PortText.port) := by
  have htrim : (copies k ':' ++ portDigits port).toList.dropWhile (· == ':') =
      (portDigits port).toList := by
    have htrimmed := trimStartMatches_copies (portDigits_head port) k
    rw [trimStartMatches] at htrimmed
    rw [← String.toList_inj, String.toList_ofList] at htrimmed
    exact htrimmed
  unfold parseHostPort
  rw [bracketed_eq, stripPrefix_append]
  dsimp only
  rw [splitn_two, splitOnce_append hclose]
  dsimp only
  rw [htrim]
  rcases port with _ | port
  · rfl
  · have hne : (portDigits (some port)).toList ≠ [] := port.digits_ne
    rw [if_neg hne, String.ofList_toList, portDigits, port.parse_eq]
    rfl

theorem parseHostPort_cut (dest : String) {host : String} (port : PortText)
    (hbracket : host.toList.head? ≠ some '[') :
    parseHostPort dest (host ++ .singleton ':' ++ port.digits) = .ok (host, some port.port) := by
  unfold parseHostPort
  rw [stripPrefix_bracket_eq_none_iff.mpr (head?_append_colon hbracket _)]
  dsimp only
  rw [rsplitn_two, rsplitOnce_append host port.colon_notMem]
  dsimp only
  rw [port.parse_eq]
  rfl

theorem parseHostPort_whole (dest : String) {host : String} (hcolon : ':' ∉ host.toList)
    (hbracket : host.toList.head? ≠ some '[') : parseHostPort dest host = .ok (host, none) := by
  unfold parseHostPort
  rw [stripPrefix_bracket_eq_none_iff.mpr hbracket]
  dsimp only
  rw [rsplitn_two, rsplitOnce_of_notMem hcolon]

theorem HostReading.of_parse {dest rest host : String} {port : Option UInt16}
    (h : parseHostPort dest rest = .ok (host, port)) : HostReading rest host port := by
  unfold parseHostPort at h
  split at h
  -- an opening bracket: the host ends at the first closing one
  · next stripped hstrip =>
    rw [splitn_two] at h
    rcases hsplit : splitOnce ']' stripped with _ | ⟨host', remaining⟩
    · rw [hsplit] at h
      cases h
    rw [hsplit] at h
    dsimp only at h
    obtain ⟨k, hrest, hclose⟩ := exists_bracketed hstrip hsplit
    rw [trimStartMatches] at hrest
    split at h
    · next hnil =>
      obtain ⟨rfl, rfl⟩ := Prod.mk.inj (Except.ok.inj h)
      rw [hrest, hnil]
      exact .bracketed host' k none hclose
    · obtain ⟨text, htext, hok⟩ := parsePort_bind_eq_ok_iff.mp h
      obtain ⟨rfl, rfl⟩ := Prod.mk.inj (Except.ok.inj hok)
      rw [hrest, ← htext]
      exact .bracketed host' k (some text) hclose
  -- none: the last colon, if there is one, cuts the port off
  · next hstrip =>
    rw [stripPrefix_bracket_eq_none_iff] at hstrip
    rw [rsplitn_two] at h
    rcases hsplit : rsplitOnce ':' rest with _ | ⟨host', digits⟩
    · rw [hsplit] at h
      obtain ⟨rfl, rfl⟩ := Prod.mk.inj (Except.ok.inj h)
      exact .whole rest (rsplitOnce_eq_none_iff.mp hsplit) hstrip
    · rw [hsplit] at h
      obtain ⟨rfl, -⟩ := rsplitOnce_eq_some_iff.mp hsplit
      obtain ⟨text, rfl, hok⟩ := parsePort_bind_eq_ok_iff.mp h
      obtain ⟨rfl, rfl⟩ := Prod.mk.inj (Except.ok.inj hok)
      rw [String.append_assoc] at hstrip
      exact .cut host' text (head?_ne_of_append hstrip)

theorem parseHostPort_eq_ok_iff {dest rest host : String} {port : Option UInt16} :
    parseHostPort dest rest = .ok (host, port) ↔ HostReading rest host port := by
  refine ⟨HostReading.of_parse, ?_⟩
  rintro (⟨_, k, text, hclose⟩ | ⟨_, text, hbracket⟩ | ⟨_, hcolon, hbracket⟩)
  · exact parseHostPort_bracketed dest k text hclose
  · exact parseHostPort_cut dest text hbracket
  · exact parseHostPort_whole dest hcolon hbracket

/-- `[user@]`. -/
def userAt : Option String → String
  | none => ""
  | some user => user ++ .singleton '@'

theorem parseDestination_eq_ok_iff {s host : String} {user : Option String} {port : UInt16} :
    parseDestination s = .ok (host, user, port) ↔
      ∃ rest p, s = userAt user ++ rest ∧ '@' ∉ rest.toList ∧ HostReading rest host p ∧
        port = p.getD 22 := by
  have hread : ∀ (user : Option String) (rest : String), s = userAt user ++ rest →
      '@' ∉ rest.toList → parseDestination s =
        parseHostPort s rest >>= fun parts => .ok (parts.1, user, parts.2.getD 22) := by
    rintro (_ | user) rest rfl hat
    · have hempty : userAt none ++ rest = rest := String.empty_append
      unfold parseDestination
      rw [hempty, rsplitn_two, rsplitOnce_of_notMem hat]
    · unfold parseDestination
      rw [userAt, rsplitn_two, rsplitOnce_append user hat]
  constructor
  · intro h
    -- the user is what stands before the last `@`
    obtain ⟨user', rest, hs, hat⟩ : ∃ user' rest, s = userAt user' ++ rest ∧ '@' ∉ rest.toList := by
      by_cases hmem : '@' ∈ s.toList
      · obtain ⟨user', rest, hs, hat⟩ := exists_last hmem
        exact ⟨some user', rest, hs, hat⟩
      · exact ⟨none, s, String.empty_append.symm, hmem⟩
    rw [hread user' rest hs hat] at h
    rcases hparse : parseHostPort s rest with e | ⟨host', p⟩
    · rw [hparse] at h
      cases h
    · rw [hparse] at h
      obtain ⟨rfl, heq⟩ := Prod.mk.inj (Except.ok.inj h)
      obtain ⟨rfl, rfl⟩ := Prod.mk.inj heq
      exact ⟨rest, p, hs, hat, parseHostPort_eq_ok_iff.mp hparse, rfl⟩
  · rintro ⟨rest, p, hs, hat, hreading, rfl⟩
    rw [hread user rest hs hat, parseHostPort_eq_ok_iff.mpr hreading]
    rfl

/-! ## What is written -/

/-- A host, as it is written: a name, or an address in brackets. -/
inductive HostText where
  | name (host : String) (colon_notMem : ':' ∉ host.toList) (at_notMem : '@' ∉ host.toList)
      (bracket : host.toList.head? ≠ some '[')
  | address (host : String) (close_notMem : ']' ∉ host.toList) (at_notMem : '@' ∉ host.toList)

namespace HostText

def host : HostText → String
  | name host .. => host
  | address host .. => host

def text : HostText → String
  | name host .. => host
  | address host .. => "[" ++ host ++ .singleton ']'

end HostText

structure Destination where
  user : Option String
  host : HostText
  port : Option PortText

namespace Destination

/-- What stands behind the `@`. -/
def hostPort (dest : Destination) : String :=
  match dest.port with
  | some port => dest.host.text ++ .singleton ':' ++ port.digits
  | none => dest.host.text

def text (dest : Destination) : String :=
  match dest.user with
  | some user => user ++ .singleton '@' ++ dest.hostPort
  | none => dest.hostPort

end Destination

theorem HostText.at_notMem_text (host : HostText) : '@' ∉ host.text.toList := by
  rcases host with ⟨host, -, hat, -⟩ | ⟨host, -, hat⟩
  · exact hat
  · simp [text, hat]

theorem Destination.at_notMem_hostPort (dest : Destination) : '@' ∉ dest.hostPort.toList := by
  unfold hostPort
  rcases dest.port with _ | port
  · exact dest.host.at_notMem_text
  · have hdigits := port.notMem (by decide : '@'.isDigit = false) (by decide)
    simp [dest.host.at_notMem_text, hdigits]

theorem Destination.hostPort_eq (dest : Destination) :
    dest.hostPort = dest.host.text ++ colonPort dest.port := by
  obtain ⟨user, host, port⟩ := dest
  rcases port with _ | port
  · exact String.append_empty.symm
  · exact String.append_assoc

theorem Destination.text_eq (dest : Destination) :
    dest.text = userAt dest.user ++ dest.hostPort := by
  obtain ⟨user, host, port⟩ := dest
  rcases user with _ | user
  · exact String.empty_append.symm
  · rfl

/-- What stands behind the `@` is read as its host and its port. -/
theorem Destination.reading (dest : Destination) :
    HostReading dest.hostPort dest.host.host (dest.port.map PortText.port) := by
  rw [dest.hostPort_eq]
  obtain ⟨user, host, port⟩ := dest
  rcases host with ⟨host, hcolon, hat, hbracket⟩ | ⟨host, hclose, hat⟩
  -- a name is cut at the colon
  · rcases port with _ | port
    · rw [colonPort, String.append_empty]
      exact .whole host hcolon hbracket
    · rw [colonPort, ← String.append_assoc]
      exact .cut host port hbracket
  -- an address is cut at its closing bracket
  · rw [colonPort_eq, ← String.append_assoc]
    exact .bracketed host (separators port) port hclose

/-- **What is written as a destination is read back.** -/
theorem parseDestination_text (dest : Destination) :
    parseDestination dest.text =
      .ok (dest.host.host, dest.user, (dest.port.map PortText.port).getD 22) :=
  parseDestination_eq_ok_iff.mpr
    ⟨dest.hostPort, _, dest.text_eq, dest.at_notMem_hostPort, dest.reading, rfl⟩

end Passhrs
