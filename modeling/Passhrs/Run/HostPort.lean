import Passhrs.Lib.IpAddr
import Passhrs.Run.Cli
import Passhrs.Run.Destination

/-!
# Hosts and ports

Three parsers read `host:port`: that of the destination, that of the jump host (`-J`) and that of
the forwarded stdio (`-W`). Each one is read backwards: the strings that it accepts, by their parts.

* **`parseStdioForward_iff`**: `-W` accepts its grammar and nothing else, up to an empty host in
  brackets.
* **`parseDestination_names_iff`**: the destinations that are misread.
* **`jump_agrees_iff`**: `-J` reads what a destination means, unless it is an address without a
  port.
-/

namespace Passhrs

open Text IpAddr

/-! ## `-W` -/

/-- `parse_stdio_forward`. -/
def parseStdioForward (spec : String) : Except String (String × UInt16) :=
  let spec := trim spec
  if spec = "" then .error "-W: empty host:port (expected host:port)"
  else
    match stripPrefix "[" spec with
    | some rest =>
      match splitOnce ']' rest with
      | none => .error s!"-W: unclosed bracket in host:port: {spec}"
      | some (host, after) =>
        if after = "" then
          .error s!"-W: missing port after host (expected host:port): {spec}"
        else
          match stripPrefix ":" after with
          | none => .error s!"-W: expected ':' after ']' in IPv6 literal: {spec}"
          | some digits => do
            let port ← parsePort s!"-W: invalid port in host:port: {spec}" digits
            .ok (host, port)
    | none =>
      match rsplitOnce ':' spec with
      | some (host, digits) =>
        if ':' ∈ host.toList then
          .error s!"-W: IPv6 literal must be bracketed (use [::1]:port, not ::1:port): {spec}"
        else do
          let port ← parsePort s!"-W: invalid port in host:port: {spec}" digits
          if host = "" then .error s!"-W: missing host in host:port: {spec}"
          else .ok (host, port)
      | none => .error s!"-W: missing port (expected host:port): {spec}"

/-- The grammar of `-W`: the text, the host and the port. -/
inductive StdioTarget : String → String → UInt16 → Prop
  | plain (host : String) (port : PortText) (ne_empty : host ≠ "")
      (colon_notMem : ':' ∉ host.toList) (bracket : host.toList.head? ≠ some '[') :
      StdioTarget (host ++ .singleton ':' ++ port.digits) host port.port
  | bracketed (host : String) (port : PortText) (ne_empty : host ≠ "")
      (close_notMem : ']' ∉ host.toList) :
      StdioTarget ("[" ++ host ++ "]:" ++ port.digits) host port.port

theorem StdioTarget.host_ne_empty {spec host : String} {port : UInt16}
    (h : StdioTarget spec host port) : host ≠ "" := by
  rcases h with ⟨_, _, hempty, -, -⟩ | ⟨_, _, hempty, -⟩
  · exact hempty
  · exact hempty

theorem head?_append_colonPort {host : String} (h : host.toList.head? ≠ some '[')
    (port : Option PortText) : (host ++ colonPort port).toList.head? ≠ some '[' := by
  rcases port with _ | port
  · rwa [colonPort, String.append_empty]
  · rw [colonPort, ← String.append_assoc]
    exact head?_append_colon h _

theorem parseStdioForward_plain {spec host : String} (text : PortText) (hempty : host ≠ "")
    (hcolon : ':' ∉ host.toList) (hbracket : host.toList.head? ≠ some '[')
    (hspec : trim spec = host ++ .singleton ':' ++ text.digits) :
    parseStdioForward spec = .ok (host, text.port) := by
  have hne : host ++ .singleton ':' ++ text.digits ≠ "" := by
    rw [ne_eq, ← String.toList_inj]
    simp
  unfold parseStdioForward
  rw [hspec]
  dsimp only
  rw [if_neg hne, stripPrefix_bracket_eq_none_iff.mpr (head?_append_colon hbracket _)]
  dsimp only
  rw [rsplitOnce_append host text.colon_notMem]
  dsimp only
  rw [if_neg hcolon, parsePort_bind_eq_ok_iff]
  exact ⟨text, rfl, if_neg hempty⟩

theorem parseStdioForward_bracketed {spec host : String} (text : PortText)
    (hclose : ']' ∉ host.toList) (hspec : trim spec = "[" ++ host ++ "]:" ++ text.digits) :
    parseStdioForward spec = .ok (host, text.port) := by
  have hparts : "[" ++ host ++ "]:" ++ text.digits =
      "[" ++ (host ++ .singleton ']' ++ (":" ++ text.digits)) := by
    apply String.toList_injective
    simp
  have hopen : ∀ rest : String, "[" ++ rest ≠ "" := by simp
  have hcolon : ∀ rest : String, ":" ++ rest ≠ "" := by simp
  unfold parseStdioForward
  rw [hspec, hparts]
  dsimp only
  rw [if_neg (hopen _), stripPrefix_append]
  dsimp only
  rw [splitOnce_append hclose]
  dsimp only
  rw [if_neg (hcolon _), stripPrefix_append]
  dsimp only
  rw [parsePort_bind_eq_ok_iff]
  exact ⟨text, rfl, rfl⟩

theorem StdioTarget.of_parse {spec host : String} {port : UInt16}
    (h : parseStdioForward spec = .ok (host, port)) :
    StdioTarget (trim spec) host port ∨
      host = "" ∧ ∃ text : PortText, text.port = port ∧ trim spec = "[]:" ++ text.digits := by
  unfold parseStdioForward at h
  dsimp only at h
  generalize trim spec = spec at h ⊢
  split at h
  · cases h
  split at h
  -- behind a bracket
  · next rest hstrip =>
    rw [stripPrefix_eq_some_iff] at hstrip
    split at h
    · cases h
    next host' after hsplit =>
    obtain ⟨hrest, hclose⟩ := splitOnce_eq_some_iff.mp hsplit
    split at h
    · cases h
    split at h
    · cases h
    next digits hcolon =>
    rw [stripPrefix_eq_some_iff] at hcolon
    obtain ⟨text, htext, hok⟩ := parsePort_bind_eq_ok_iff.mp h
    obtain ⟨rfl, rfl⟩ := Prod.mk.inj (Except.ok.inj hok)
    have hspec : spec = "[" ++ host' ++ "]:" ++ text.digits := by
      rw [hstrip, hrest, hcolon, htext]
      apply String.toList_injective
      simp
    by_cases hempty : host' = ""
    · subst hempty
      exact .inr ⟨rfl, text, rfl, hspec⟩
    · rw [hspec]
      exact .inl (.bracketed host' text hempty hclose)
  -- at the last colon
  · next hstrip =>
    split at h
    · next host' digits hsplit =>
      obtain ⟨rfl, hdigits⟩ := rsplitOnce_eq_some_iff.mp hsplit
      split at h
      · cases h
      next hcolon =>
      obtain ⟨text, rfl, hok⟩ := parsePort_bind_eq_ok_iff.mp h
      split at hok
      · cases hok
      next hempty =>
      obtain ⟨rfl, rfl⟩ := Prod.mk.inj (Except.ok.inj hok)
      rw [stripPrefix_bracket_eq_none_iff, String.append_assoc] at hstrip
      exact .inl (.plain host' text hempty hcolon (head?_ne_of_append hstrip))
    · cases h

/-- What `parse_stdio_forward` accepts: its grammar, and an empty host in brackets. -/
theorem parseStdioForward_eq_ok_iff {spec host : String} {port : UInt16} :
    parseStdioForward spec = .ok (host, port) ↔
      StdioTarget (trim spec) host port ∨
        host = "" ∧ ∃ text : PortText, text.port = port ∧ trim spec = "[]:" ++ text.digits := by
  refine ⟨StdioTarget.of_parse, ?_⟩
  rintro (htarget | ⟨rfl, text, rfl, hspec⟩)
  · generalize hspec : trim spec = spec' at htarget
    rcases htarget with ⟨_, text, hempty, hcolon, hbracket⟩ | ⟨_, text, hempty, hclose⟩
    · exact parseStdioForward_plain text hempty hcolon hbracket hspec
    · exact parseStdioForward_bracketed text hclose hspec
  · exact parseStdioForward_bracketed text (by simp) hspec

/-- **The grammar of `-W`**: for any string, what `parse_stdio_forward` accepts is what its grammar
gives, with the same host and the same port, if and only if the string is not an empty pair of
brackets with a port. -/
theorem parseStdioForward_iff (spec : String) :
    (∀ host port, parseStdioForward spec = .ok (host, port) ↔ StdioTarget (trim spec) host port) ↔
      ¬ ∃ port : PortText, trim spec = "[]:" ++ port.digits := by
  constructor
  · rintro h ⟨text, hspec⟩
    have htarget := (h "" text.port).mp (parseStdioForward_eq_ok_iff.mpr
      (.inr ⟨rfl, text, rfl, hspec⟩))
    exact htarget.host_ne_empty rfl
  · intro h host port
    rw [parseStdioForward_eq_ok_iff, or_iff_left]
    rintro ⟨-, text, -, hspec⟩
    exact h ⟨text, hspec⟩

/-- `-W []:80` asks for a connection to no host, which `-W :80` is refused. -/
theorem empty_host_in_brackets :
    parseStdioForward "[]:80" = .ok ("", 80) ∧ ¬ StdioTarget (trim "[]:80") "" 80 ∧
      (parseStdioForward ":80").toOption = none := by
  exact ⟨by decide +kernel, fun htarget => htarget.host_ne_empty rfl, by decide +kernel⟩

/-! ## The destination -/

/-- The grammar of a destination behind the `@`: the text, the host and the port. -/
inductive HostNamed : String → String → UInt16 → Prop
  | plain (host : String) (port : Option PortText) (colon_notMem : ':' ∉ host.toList)
      (open_notMem : '[' ∉ host.toList) (close_notMem : ']' ∉ host.toList) :
      HostNamed (host ++ colonPort port) host ((port.map PortText.port).getD 22)
  | bracketed (host : String) (port : Option PortText) (close_notMem : ']' ∉ host.toList) :
      HostNamed ("[" ++ host ++ "]" ++ colonPort port) host ((port.map PortText.port).getD 22)
  | unbracketed (host : String) (literal : IsIpv6Literal host) : HostNamed host host 22

/-- The texts behind the `@` that are outside the grammar and accepted all the same: a wrong number
of colons behind the closing bracket, and a host without brackets around it that has a colon or a
bracket in it. -/
inductive MisreadHost : String → Prop
  | separator (host : String) (k : Nat) (port : Option PortText)
      (close_notMem : ']' ∉ host.toList) (wrong : k ≠ separators port) :
      MisreadHost ("[" ++ host ++ "]" ++ copies k ':' ++ portDigits port)
  | host (host : String) (port : Option PortText) (bracket : host.toList.head? ≠ some '[')
      (colon : port = none → ':' ∉ host.toList)
      (wrong : ':' ∈ host.toList ∨ '[' ∈ host.toList ∨ ']' ∈ host.toList) :
      MisreadHost (host ++ colonPort port)

/-- A run of colons before the digits is what stands before a port only if it has the right
length. -/
theorem eq_separators {k : Nat} {port port' : Option PortText}
    (h : copies k ':' ++ portDigits port = colonPort port') : k = separators port := by
  have hlist : List.replicate k ':' ++ (portDigits port).toList = (colonPort port').toList := by
    rw [← h, String.toList_append, toList_copies]
  have hhead := portDigits_head port
  rcases port' with _ | port'
  · have hnil : List.replicate k ':' ++ (portDigits port).toList = [] := hlist
    rw [List.append_eq_nil_iff, List.replicate_eq_nil_iff] at hnil
    rcases port with _ | port
    · exact hnil.1
    · exact absurd hnil.2 port.digits_ne
  · rw [colonPort, String.toList_append, String.toList_singleton, List.singleton_append] at hlist
    rcases k with _ | _ | k
    · rw [List.replicate_zero, List.nil_append] at hlist
      rw [hlist] at hhead
      exact absurd rfl hhead
    · rcases port with _ | port
      · exact absurd (List.cons.inj hlist).2.symm port'.digits_ne
      · rfl
    · refine absurd ?_ port'.colon_notMem
      rw [← (List.cons.inj hlist).2]
      exact List.mem_cons_self

theorem HostReading.named_of_not_misread {rest host : String} {port : Option UInt16}
    (h : HostReading rest host port) (hmisread : ¬ MisreadHost rest) :
    HostNamed rest host (port.getD 22) := by
  have hplain : ∀ text : Option PortText, host.toList.head? ≠ some '[' →
      (text = none → ':' ∉ host.toList) → ¬ MisreadHost (host ++ colonPort text) →
      HostNamed (host ++ colonPort text) host ((text.map PortText.port).getD 22) := by
    intro text hbracket hcolon hmisread
    by_cases hwrong : ':' ∈ host.toList ∨ '[' ∈ host.toList ∨ ']' ∈ host.toList
    · exact absurd (.host host text hbracket hcolon hwrong) hmisread
    · simp only [not_or] at hwrong
      exact .plain host text hwrong.1 hwrong.2.1 hwrong.2.2
  rcases h with ⟨_, k, text, hclose⟩ | ⟨_, text, hbracket⟩ | ⟨_, hcolon, hbracket⟩
  · by_cases hk : k = separators text
    · rw [hk, String.append_assoc, ← colonPort_eq]
      exact .bracketed host text hclose
    · exact absurd (.separator host k text hclose hk) hmisread
  · rw [String.append_assoc] at hmisread ⊢
    exact hplain (some text) hbracket (fun h => by cases h) hmisread
  · have hempty : rest ++ colonPort none = rest := String.append_empty
    rw [← hempty] at hmisread
    have hnamed := hplain none hbracket (fun _ => hcolon) hmisread
    rwa [hempty] at hnamed

/-- What is misread is read, but not as the grammar has it. -/
theorem MisreadHost.exists_reading {rest : String} (h : MisreadHost rest) :
    ∃ host port, HostReading rest host port ∧ ∀ p, ¬ HostNamed rest host p := by
  rcases h with ⟨host, k, port, hclose, hk⟩ | ⟨host, port, hbracket, hcolon, hwrong⟩
  · refine ⟨host, _, .bracketed host k port hclose, fun p hnamed => ?_⟩
    have hhead : ("[" ++ host ++ "]" ++ copies k ':' ++ portDigits port).toList.head? =
        some '[' := by simp
    generalize hrest : "[" ++ host ++ "]" ++ copies k ':' ++ portDigits port = rest at hnamed hhead
    -- another number of colons behind the bracket is no way to name this host
    rcases hnamed with ⟨_, port', -, hopen, -⟩ | ⟨_, port', -⟩ | ⟨_, hliteral⟩
    · exact head?_append_colonPort (fun h => hopen (List.mem_of_mem_head? h)) port' hhead
    · rw [String.append_assoc, String.append_right_inj] at hrest
      exact hk (eq_separators hrest)
    · exact hliteral.head?_ne hhead
  · have hreading : HostReading (host ++ colonPort port) host (port.map PortText.port) := by
      rcases port with _ | port
      · rw [colonPort, String.append_empty]
        exact .whole host (hcolon rfl) hbracket
      · rw [colonPort, ← String.append_assoc]
        exact .cut host port hbracket
    refine ⟨host, _, hreading, fun p hnamed => ?_⟩
    have hhead := head?_append_colonPort hbracket port
    generalize hrest : host ++ colonPort port = rest at hnamed hhead
    rcases hnamed with ⟨_, port', hcolon', hopen, hclose⟩ | ⟨_, port', -⟩ | ⟨_, hliteral⟩
    · rcases hwrong with hwrong | hwrong | hwrong
      · exact hcolon' hwrong
      · exact hopen hwrong
      · exact hclose hwrong
    · exact hhead (by simp)
    · have hempty : colonPort port = "" := by
        rwa [String.append_eq_left_iff] at hrest
      rcases port with _ | port
      · exact hcolon rfl hliteral.colon_mem
      · rw [colonPort, String.append_eq_empty_iff] at hempty
        exact port.digits_ne (String.toList_eq_nil_iff.mpr hempty.2)

/-- **No invented target**: for any string, `parse_destination` accepts it only as its grammar has
it, with the same user, host and port, if and only if what stands behind the last `@` is not
misread. -/
theorem parseDestination_names_iff (s : String) :
    (∀ host user port, parseDestination s = .ok (host, user, port) →
        ∃ rest, s = userAt user ++ rest ∧ '@' ∉ rest.toList ∧ HostNamed rest host port) ↔
      ∀ user rest, s = userAt user ++ rest → '@' ∉ rest.toList → ¬ MisreadHost rest := by
  constructor
  · rintro h user rest hs hat hmisread
    obtain ⟨host, port, hreading, hnot⟩ := hmisread.exists_reading
    obtain ⟨rest', hs', -, hnamed⟩ := h host user (port.getD 22)
      (parseDestination_eq_ok_iff.mpr ⟨rest, port, hs, hat, hreading, rfl⟩)
    rw [hs, String.append_right_inj] at hs'
    rw [← hs'] at hnamed
    exact hnot _ hnamed
  · intro h host user port hparse
    obtain ⟨rest, p, hs, hat, hreading, rfl⟩ := parseDestination_eq_ok_iff.mp hparse
    exact ⟨rest, hs, hat, hreading.named_of_not_misread (h user rest hs hat)⟩

/-- `user@::1` becomes port 1 of a host named by a colon. -/
theorem address_is_cut :
    parseDestination "user@::1" = .ok (":", some "user", 1) ∧
      ¬ ∃ rest, "user@::1" = userAt (some "user") ++ rest ∧ '@' ∉ rest.toList ∧
        HostNamed rest ":" 1 := by
  refine ⟨by decide +kernel, ?_⟩
  rintro ⟨rest, hs, -, hnamed⟩
  have hparts : "user@::1" = userAt (some "user") ++ "::1" := by decide
  obtain rfl := String.append_right_inj _ |>.mp (hparts.symm.trans hs)
  generalize hrest : "::1" = rest at hnamed
  generalize hhost : ":" = host at hnamed
  generalize (1 : UInt16) = port at hnamed
  rcases hnamed with ⟨_, port', hcolon, -, -⟩ | ⟨_, port', -⟩ | ⟨_, -⟩
  · rw [← hhost] at hcolon
    exact hcolon (by decide)
  · have hhead := congrArg (·.toList.head?) hrest
    simp at hhead
  · exact absurd (hrest.trans hhost.symm) (by decide)

/-! ## `-J` -/

/-- The host and the port of what stands behind the `@` of a jump host. -/
def parseJumpHost (rest : String) : Except String (String × UInt16) :=
  match rsplitOnce ':' rest with
  | some (hostPart, digits) =>
    -- both branches read the port: only the brackets tell them apart
    if hostPart.toList.head? = some '[' ∧ hostPart.toList.getLast? = some ']' then do
      let host := trimEndMatches ']' (trimStartMatches '[' hostPart)
      let port ← parsePort "Invalid port in proxy jump" digits
      .ok (host, port)
    else do
      let port ← parsePort "Invalid port in proxy jump" digits
      .ok (hostPart, port)
  | none => .ok (rest, 22)

/-- `parse_proxy_jump`. -/
def parseProxyJump (spec : String) : Except String ProxyJumpSpec := do
  let spec := trim spec
  let (user, rest) := match rsplitOnce '@' spec with
    | some (user, rest) => (some user, rest)
    | none => (none, spec)
  let (host, port) ← parseJumpHost rest
  .ok ⟨user, host, port⟩

example : (parseProxyJump "bob@[::1]:2200").toOption = some ⟨some "bob", "::1", 2200⟩ := by
  decide +kernel

namespace HostText

def isAddress : HostText → Bool
  | name .. => false
  | address .. => true

/-- What stands in brackets is an IPv6 address. -/
def Literal : HostText → Prop
  | name .. => True
  | address host .. => IsIpv6Literal host

end HostText

theorem parseProxyJump_eq {dest : Destination}
    (hspace : ∀ c ∈ dest.text.toList, isWhitespace c = false) :
    parseProxyJump dest.text = (do
      let (host, port) ← parseJumpHost (dest.host.text ++ colonPort dest.port)
      .ok ⟨dest.user, host, port⟩) := by
  have htrim : trim dest.text = dest.text :=
    trim_eq_self (fun c hc => hspace c (List.mem_of_mem_head? hc))
      fun c hc => hspace c (List.mem_of_getLast? hc)
  unfold parseProxyJump
  rw [htrim, dest.text_eq]
  have hat := dest.at_notMem_hostPort
  rw [dest.hostPort_eq] at hat ⊢
  obtain ⟨user, host, port⟩ := dest
  rcases user with _ | user
  · rw [userAt, String.empty_append]
    dsimp only at hat ⊢
    rw [rsplitOnce_of_notMem hat]
  · rw [userAt]
    dsimp only at hat ⊢
    rw [rsplitOnce_append user hat]

theorem trim_brackets {host : String} (hopen : host.toList.head? ≠ some '[')
    (hclose : ']' ∉ host.toList) :
    trimEndMatches ']' (trimStartMatches '[' ("[" ++ host ++ .singleton ']')) = host := by
  have hhead : (host ++ .singleton ']').toList.head? ≠ some '[' := by
    rcases hhost : host.toList with _ | ⟨c, l⟩
    · simp [hhost]
    · rw [hhost] at hopen
      simpa [hhost] using hopen
  have hbracket : "[" ++ host ++ .singleton ']' =
      .singleton '[' ++ (host ++ .singleton ']') := String.append_assoc
  rw [hbracket, trimStartMatches_singleton hhead,
    trimEndMatches_singleton fun h => hclose (List.mem_of_getLast? h)]

/-- A host that is not an address without a port is read as in a destination. -/
theorem parseJumpHost_text {host : HostText} {port : Option PortText} (hliteral : host.Literal)
    (hport : host.isAddress = true → port ≠ none) :
    parseJumpHost (host.text ++ colonPort port) =
      .ok (host.host, (port.map PortText.port).getD 22) := by
  unfold parseJumpHost
  rcases host with ⟨host, hcolon, hat, hbracket⟩ | ⟨host, hclose, hat⟩
  · rcases port with _ | port
    · rw [colonPort, String.append_empty, HostText.text, rsplitOnce_of_notMem hcolon]
      rfl
    · rw [colonPort, HostText.text, ← String.append_assoc,
        rsplitOnce_append host port.colon_notMem]
      dsimp only
      rw [if_neg fun h => hbracket h.1, parsePort, port.parse_eq]
      rfl
  · rcases port with _ | port
    -- a bare address ends in `]`, and its last colon is inside: excluded by `hport`
    · exact absurd rfl (hport rfl)
    · rw [colonPort, HostText.text, ← String.append_assoc,
        rsplitOnce_append _ port.colon_notMem]
      dsimp only
      have hlast : ("[" ++ host ++ .singleton ']').toList.getLast? = some ']' := by
        rw [String.toList_append, String.toList_singleton, List.getLast?_concat]
      rw [if_pos ⟨by simp, hlast⟩, trim_brackets (IsIpv6Literal.head?_ne hliteral) hclose,
        parsePort, port.parse_eq]
      rfl

/-- An address without a port is cut at a colon of its own. -/
theorem parseJumpHost_address {host : HostText} (hliteral : host.Literal)
    (haddress : host.isAddress = true) : ∃ e, parseJumpHost host.text = .error e := by
  unfold parseJumpHost
  rcases host with ⟨host, hcolon, hat, hbracket⟩ | ⟨host, hclose, hat⟩
  · cases haddress
  · obtain ⟨front, back, rfl, hback⟩ := exists_last (IsIpv6Literal.colon_mem hliteral)
    have hcut : "[" ++ (front ++ .singleton ':' ++ back) ++ .singleton ']' =
        "[" ++ front ++ .singleton ':' ++ (back ++ .singleton ']') := by
      simp only [String.append_assoc]
    have hnotMem : ':' ∉ (back ++ .singleton ']').toList := by simpa using hback
    have hdigits : parseU16 (back ++ .singleton ']') = none :=
      parseU16_eq_none_of_mem (c := ']') (by simp) (by decide) (by decide)
    rw [HostText.text, hcut, rsplitOnce_append _ hnotMem]
    dsimp only
    rw [parsePort, hdigits]
    dsimp only
    split
    · exact ⟨_, rfl⟩
    · exact ⟨_, rfl⟩

/-- **One language for the destination and the jump host**: for any `[user@]host[:port]` without
white space whose host is a name or an IPv6 address in brackets, `parse_proxy_jump` and
`parse_destination` both succeed, with the same user, host and port, if and only if it is not an
address without a port. -/
theorem jump_agrees_iff (dest : Destination)
    (hspace : ∀ c ∈ dest.text.toList, isWhitespace c = false) (hliteral : dest.host.Literal) :
    (∃ user host port, parseProxyJump dest.text = .ok ⟨user, host, port⟩ ∧
        parseDestination dest.text = .ok (host, user, port)) ↔
      ¬ (dest.host.isAddress = true ∧ dest.port = none) := by
  constructor
  · rintro ⟨user, host, port, hjump, -⟩ ⟨haddress, hport⟩
    obtain ⟨e, herror⟩ := parseJumpHost_address hliteral haddress
    rw [parseProxyJump_eq hspace, hport, colonPort, String.append_empty, herror] at hjump
    cases hjump
  · intro h
    refine ⟨_, _, _, ?_, parseDestination_text dest⟩
    rw [parseProxyJump_eq hspace,
      parseJumpHost_text hliteral fun haddress hport => h ⟨haddress, hport⟩]
    rfl

/-- `-J [::1]` is refused, though `[::1]` is a destination. -/
theorem jump_to_address :
    parseDestination "[::1]" = .ok ("::1", none, 22) ∧
      (parseProxyJump "[::1]").toOption = none := by decide +kernel

/-- `bob@[fe80::1]:2200`. -/
def bobAtAddress : Destination where
  user := some "bob"
  host := .address "fe80::1" (by decide) (by decide)
  port := some ⟨"2200", 2200, by decide⟩

theorem jump_agrees_for_bob :
    (∃ user host port, parseProxyJump bobAtAddress.text = .ok ⟨user, host, port⟩ ∧
        parseDestination bobAtAddress.text = .ok (host, user, port)) ↔
      ¬ (bobAtAddress.host.isAddress = true ∧ bobAtAddress.port = none) := by
  have hspace : bobAtAddress.text.toList.all (!isWhitespace ·) = true := by decide
  refine jump_agrees_iff bobAtAddress (fun c hc => ?_)
    ⟨"fe80::1", [0xfe80, 0, 0, 0, 0, 0, 0, 1], by decide, .inl rfl⟩
  exact Bool.not_eq_true' _ ▸ List.all_eq_true.mp hspace c hc

end Passhrs
