import Passhrs.Run.HostPort

/-!
# Forward specs

`-L` and `-R` name where to listen and where to connect to: `[bind:]port:host:hostport`. Their
parser is read backwards first: `ForwardText` is what it accepts, by its parts.

* **`parseForwardSpec_eq_ok_iff`**: what is accepted, and as which forward.
* **`parseForwardSpec_print`**: what is printed as a spec is read back.
* **`parseForwardSpec_documented_iff`**: the specs that are accepted outside the grammar.
-/

namespace Passhrs

open Text

/-! ## The parser -/

/-- The bind address of a spec that names none. -/
def defaultBind (gatewayPorts : Bool) : String := if gatewayPorts then "0.0.0.0" else "127.0.0.1"

/-- The bind address of `parse_forward_spec`, and its `core`. -/
def splitBind (spec : String) (gatewayPorts : Bool) : Except String (String × String) :=
  match stripPrefix "[" spec with
  | some s =>
    match splitOnce ']' s with
    | some (bindAddr, rest) => .ok (bindAddr, trimStartMatches ':' rest)
    | none => .error s!"unclosed bracket in forward spec: {spec}"
  | none =>
    -- a first field that is a port is no bind address
    if (parseU16 (firstField ':' spec)).isSome then .ok (defaultBind gatewayPorts, spec)
    else
      match splitOnce ':' spec with
      | some (b, r) => .ok (b, r)
      | none => .error s!"invalid forward spec: {spec}"

/-- The host of `parse_forward_spec`'s `target`, and the text of its port. -/
def splitTarget (spec target : String) : Except String (String × String) :=
  match stripPrefix "[" target with
  | some t =>
    match splitOnce ']' t with
    | some (host, rest) => .ok (host, trimStartMatches ':' rest)
    | none => .error s!"unclosed bracket for target host in forward spec: {spec}"
  | none =>
    match rsplitOnce ':' target with
    | some (h, p) => .ok (h, p)
    | none =>
      .error s!"invalid forward spec: {spec}. Use port:host:port or [bind:]port:host:port"

/-- The lines of `parse_forward_spec` behind the bind address. -/
def parseCore (spec bindAddr core : String) : Except String ForwardSpec :=
  match splitOnce ':' core with
  | none =>
    .error s!"invalid forward spec: {spec}. Use port:host:port or [bind:]port:host:port"
  | some (bindPortStr, target) => do
    let bindPort ← parsePort s!"invalid bind port in forward spec: {spec}" bindPortStr
    let (targetHost, targetPortStr) ← splitTarget spec target
    let targetPort ← parsePort s!"invalid target port in forward spec: {spec}" targetPortStr
    .ok ⟨bindAddr, bindPort, targetHost, targetPort⟩

/-- `parse_forward_spec`. -/
def parseForwardSpec (spec : String) (gatewayPorts : Bool) : Except String ForwardSpec := do
  let spec := trim spec
  let (bindAddr, core) ← splitBind spec gatewayPorts
  parseCore spec bindAddr core

example : (parseForwardSpec "[::1]:8080:[fe80::1]:80" false).toOption =
    some ⟨"::1", 8080, "fe80::1", 80⟩ := by decide +kernel

/-! ## What it accepts -/

/-- A bind address, as it is read: the closing bracket is followed by any number of colons. -/
inductive BindText where
  | absent
  | plain (bind : String) (colon_notMem : ':' ∉ bind.toList)
      (bracket : bind.toList.head? ≠ some '[')
  | bracketed (bind : String) (k : Nat) (close_notMem : ']' ∉ bind.toList)

namespace BindText

def text : BindText → String
  | absent => ""
  | plain bind .. => bind ++ .singleton ':'
  | bracketed bind k _ => "[" ++ bind ++ "]" ++ copies k ':'

def addr (gatewayPorts : Bool) : BindText → String
  | absent => defaultBind gatewayPorts
  | plain bind .. => bind
  | bracketed bind .. => bind

/-- It is not taken for a port. -/
def Readable : BindText → Prop
  | plain bind .. => parseU16 bind = none
  | _ => True

end BindText

/-- A target host, as it is read. -/
inductive TargetText where
  | plain (host : String) (bracket : host.toList.head? ≠ some '[')
  | bracketed (host : String) (k : Nat) (close_notMem : ']' ∉ host.toList)

namespace TargetText

def text : TargetText → String
  | plain host _ => host ++ .singleton ':'
  | bracketed host k _ => "[" ++ host ++ "]" ++ copies k ':'

def host : TargetText → String
  | plain host _ => host
  | bracketed host .. => host

end TargetText

structure ForwardText where
  bind : BindText
  bindPort : PortText
  target : TargetText
  targetPort : PortText

namespace ForwardText

/-- What is left behind the bind address. -/
def core (form : ForwardText) : String :=
  form.bindPort.digits ++ .singleton ':' ++ (form.target.text ++ form.targetPort.digits)

def text (form : ForwardText) : String := form.bind.text ++ form.core

def forward (form : ForwardText) (gatewayPorts : Bool) : ForwardSpec where
  bindAddr := form.bind.addr gatewayPorts
  bindPort := form.bindPort.port
  targetHost := form.target.host
  targetPort := form.targetPort.port

end ForwardText

theorem PortText.head?_ne (port : PortText) {c : Char} (hdigit : c.isDigit = false)
    (hplus : c ≠ '+') (rest : String) : (port.digits ++ rest).toList.head? ≠ some c :=
  head?_append_ne port.digits_ne (port.notMem hdigit hplus) rest

theorem ForwardText.head?_core_ne (form : ForwardText) {c : Char} (hdigit : c.isDigit = false)
    (hplus : c ≠ '+') : form.core.toList.head? ≠ some c := by
  rw [core, String.append_assoc]
  exact form.bindPort.head?_ne hdigit hplus _

theorem splitBind_absent (port : PortText) (rest : String) (gatewayPorts : Bool) :
    splitBind (port.digits ++ .singleton ':' ++ rest) gatewayPorts =
      .ok (defaultBind gatewayPorts, port.digits ++ .singleton ':' ++ rest) := by
  have hopen : (port.digits ++ .singleton ':' ++ rest).toList.head? ≠ some '[' := by
    rw [String.append_assoc]
    exact port.head?_ne (by decide) (by decide) _
  unfold splitBind
  rw [stripPrefix_bracket_eq_none_iff.mpr hopen]
  dsimp only
  rw [firstField_append port.colon_notMem, port.parse_eq, Option.isSome_some, if_pos rfl]

theorem splitBind_plain {bind : String} (hcolon : ':' ∉ bind.toList)
    (hbracket : bind.toList.head? ≠ some '[') (hport : parseU16 bind = none) (core : String)
    (gatewayPorts : Bool) :
    splitBind (bind ++ .singleton ':' ++ core) gatewayPorts = .ok (bind, core) := by
  unfold splitBind
  rw [stripPrefix_bracket_eq_none_iff.mpr (head?_append_colon hbracket _)]
  dsimp only
  rw [firstField_append hcolon, hport, if_neg (by decide), splitOnce_append hcolon]

theorem splitBind_bracketed {bind core : String} (k : Nat) (hclose : ']' ∉ bind.toList)
    (hcolon : core.toList.head? ≠ some ':') (gatewayPorts : Bool) :
    splitBind ("[" ++ bind ++ "]" ++ copies k ':' ++ core) gatewayPorts = .ok (bind, core) := by
  unfold splitBind
  rw [bracketed_eq, stripPrefix_append]
  dsimp only
  rw [splitOnce_append hclose]
  dsimp only
  rw [trimStartMatches_copies hcolon]

theorem splitBind_text (form : ForwardText) (hreadable : form.bind.Readable)
    (gatewayPorts : Bool) :
    splitBind form.text gatewayPorts = .ok (form.bind.addr gatewayPorts, form.core) := by
  unfold ForwardText.text
  rcases hbind : form.bind with _ | ⟨bind, hcolon, hbracket⟩ | ⟨bind, k, hclose⟩
  · rw [BindText.text, String.empty_append]
    exact splitBind_absent form.bindPort _ gatewayPorts
  · rw [hbind] at hreadable
    exact splitBind_plain hcolon hbracket hreadable form.core gatewayPorts
  · exact splitBind_bracketed k hclose (form.head?_core_ne (by decide) (by decide)) gatewayPorts

theorem exists_of_splitBind {spec bindAddr core : String} {gatewayPorts : Bool}
    (h : splitBind spec gatewayPorts = .ok (bindAddr, core)) :
    ∃ bind : BindText, bind.Readable ∧ bind.addr gatewayPorts = bindAddr ∧
      spec = bind.text ++ core := by
  unfold splitBind at h
  split at h
  -- a bracket: the address ends at the first closing one
  · next s hstrip =>
    split at h
    · next bind rest hsplit =>
      obtain ⟨rfl, rfl⟩ := Prod.mk.inj (Except.ok.inj h)
      obtain ⟨k, hspec, hclose⟩ := exists_bracketed hstrip hsplit
      exact ⟨.bracketed bind k hclose, trivial, rfl, hspec⟩
    · cases h
  -- no bracket: the first field is an address, unless it reads as a port
  · next hstrip =>
    rw [stripPrefix_bracket_eq_none_iff] at hstrip
    split at h
    · obtain ⟨rfl, rfl⟩ := Prod.mk.inj (Except.ok.inj h)
      exact ⟨.absent, trivial, rfl, String.empty_append.symm⟩
    · next hfirst =>
      split at h
      · next bind rest hsplit =>
        obtain ⟨rfl, rfl⟩ := Prod.mk.inj (Except.ok.inj h)
        obtain ⟨rfl, hcolon⟩ := splitOnce_eq_some_iff.mp hsplit
        rw [firstField_append hcolon] at hfirst
        rw [String.append_assoc] at hstrip
        exact ⟨.plain bind hcolon (head?_ne_of_append hstrip),
          Option.not_isSome_iff_eq_none.mp hfirst, rfl, rfl⟩
      · cases h

theorem splitTarget_text (spec : String) (target : TargetText) (port : PortText) :
    splitTarget spec (target.text ++ port.digits) = .ok (target.host, port.digits) := by
  unfold splitTarget
  rcases target with ⟨host, hbracket⟩ | ⟨host, k, hclose⟩
  · rw [TargetText.text, stripPrefix_bracket_eq_none_iff.mpr (head?_append_colon hbracket _)]
    dsimp only
    rw [rsplitOnce_append host port.colon_notMem]
    rfl
  · rw [TargetText.text, bracketed_eq, stripPrefix_append]
    dsimp only
    rw [splitOnce_append hclose]
    dsimp only
    rw [trimStartMatches_copies fun hhead => port.colon_notMem (List.mem_of_mem_head? hhead)]
    rfl

theorem exists_of_splitTarget {spec target host digits : String}
    (h : splitTarget spec target = .ok (host, digits)) :
    ∃ text : TargetText, text.host = host ∧ target = text.text ++ digits := by
  unfold splitTarget at h
  split at h
  · next t hstrip =>
    split at h
    · next host' rest hsplit =>
      obtain ⟨rfl, rfl⟩ := Prod.mk.inj (Except.ok.inj h)
      obtain ⟨k, htarget, hclose⟩ := exists_bracketed hstrip hsplit
      exact ⟨.bracketed host' k hclose, rfl, htarget⟩
    · cases h
  · next hstrip =>
    rw [stripPrefix_bracket_eq_none_iff] at hstrip
    split at h
    · next host' digits' hsplit =>
      obtain ⟨rfl, rfl⟩ := Prod.mk.inj (Except.ok.inj h)
      obtain ⟨rfl, -⟩ := rsplitOnce_eq_some_iff.mp hsplit
      rw [String.append_assoc] at hstrip
      exact ⟨.plain host' (head?_ne_of_append hstrip), rfl, rfl⟩
    · cases h

theorem parseForwardSpec_of_splitBind {s bindAddr core : String} {gatewayPorts : Bool}
    (h : splitBind (trim s) gatewayPorts = .ok (bindAddr, core)) :
    parseForwardSpec s gatewayPorts = parseCore (trim s) bindAddr core := by
  unfold parseForwardSpec
  dsimp only
  rw [h]
  rfl

theorem parseForwardSpec_text {s : String} {form : ForwardText} (hs : trim s = form.text)
    (hreadable : form.bind.Readable) (gatewayPorts : Bool) :
    parseForwardSpec s gatewayPorts = .ok (form.forward gatewayPorts) := by
  rw [parseForwardSpec_of_splitBind (hs ▸ splitBind_text form hreadable gatewayPorts), parseCore,
    ForwardText.core, splitOnce_append form.bindPort.colon_notMem]
  dsimp only
  rw [parsePort_bind_eq_ok_iff]
  refine ⟨form.bindPort, rfl, ?_⟩
  rw [splitTarget_text]
  show (parsePort _ form.targetPort.digits >>= _) = _
  rw [parsePort_bind_eq_ok_iff]
  exact ⟨form.targetPort, rfl, rfl⟩

/-- What `parse_forward_spec` accepts: the texts of a readable form, as the forward of its parts. -/
theorem parseForwardSpec_eq_ok_iff {s : String} {gatewayPorts : Bool} {f : ForwardSpec} :
    parseForwardSpec s gatewayPorts = .ok f ↔
      ∃ form : ForwardText, form.bind.Readable ∧ trim s = form.text ∧
        f = form.forward gatewayPorts := by
  constructor
  · intro h
    rcases hbind : splitBind (trim s) gatewayPorts with e | ⟨bindAddr, core⟩
    · unfold parseForwardSpec at h
      dsimp only at h
      rw [hbind] at h
      cases h
    obtain ⟨bind, hreadable, rfl, hs⟩ := exists_of_splitBind hbind
    rw [parseForwardSpec_of_splitBind hbind, parseCore] at h
    split at h
    · cases h
    next bindPortStr target hsplit =>
    obtain ⟨rfl, -⟩ := splitOnce_eq_some_iff.mp hsplit
    obtain ⟨bindPort, rfl, hrest⟩ := parsePort_bind_eq_ok_iff.mp h
    rcases htarget : splitTarget (trim s) target with e | ⟨host, digits⟩
    · rw [htarget] at hrest
      cases hrest
    rw [htarget] at hrest
    obtain ⟨text, rfl, rfl⟩ := exists_of_splitTarget htarget
    obtain ⟨targetPort, rfl, hok⟩ := parsePort_bind_eq_ok_iff.mp hrest
    obtain rfl := Except.ok.inj hok
    exact ⟨⟨bind, bindPort, text, targetPort⟩, hreadable, hs, rfl⟩
  · rintro ⟨form, hreadable, hs, rfl⟩
    exact parseForwardSpec_text hs hreadable gatewayPorts

/-! ## One text, one form -/

theorem copies_inj {c : Char} {k k' : Nat} (h : copies k c = copies k' c) : k = k' := by
  have hlength := congrArg (·.toList.length) h
  simpa only [toList_copies, List.length_replicate] using hlength

/-- A plain part and a bracketed one differ in their first character. -/
theorem plain_ne_bracketed {part : String} (h : part.toList.head? ≠ some '[') (part' : String)
    (k : Nat) : part ++ .singleton ':' ≠ "[" ++ part' ++ "]" ++ copies k ':' := by
  intro heq
  have hhead := head?_append_colon h ""
  rw [String.append_empty, heq] at hhead
  exact hhead (by simp)

theorem BindText.eq_of_text {bind bind' : BindText} {gatewayPorts : Bool}
    (htext : bind.text = bind'.text) (haddr : bind.addr gatewayPorts = bind'.addr gatewayPorts) :
    bind = bind' := by
  have hplain : ∀ part : String, "" ≠ part ++ .singleton ':' := by simp
  have hbracketed : ∀ (part : String) (k : Nat), "" ≠ "[" ++ part ++ "]" ++ copies k ':' := by simp
  cases bind with
  | absent =>
    cases bind' with
    | absent => rfl
    | plain bind' => exact absurd htext (hplain bind')
    | bracketed bind' k' => exact absurd htext (hbracketed bind' k')
  | plain bind _ hbracket =>
    cases bind' with
    | absent => exact absurd htext.symm (hplain bind)
    | plain bind' =>
      obtain rfl : bind = bind' := haddr
      rfl
    | bracketed bind' k' => exact absurd htext (plain_ne_bracketed hbracket bind' k')
  | bracketed bind k =>
    cases bind' with
    | absent => exact absurd htext.symm (hbracketed bind k)
    | plain bind' _ hbracket => exact absurd htext.symm (plain_ne_bracketed hbracket bind k)
    | bracketed bind' k' =>
      obtain rfl : bind = bind' := haddr
      obtain rfl := copies_inj (String.append_right_inj _ |>.mp htext)
      rfl

theorem TargetText.eq_of_text {target target' : TargetText} (htext : target.text = target'.text)
    (hhost : target.host = target'.host) : target = target' := by
  cases target with
  | plain host hbracket =>
    cases target' with
    | plain host' =>
      obtain rfl : host = host' := hhost
      rfl
    | bracketed host' k' => exact absurd htext (plain_ne_bracketed hbracket host' k')
  | bracketed host k =>
    cases target' with
    | plain host' hbracket => exact absurd htext.symm (plain_ne_bracketed hbracket host k)
    | bracketed host' k' =>
      obtain rfl : host = host' := hhost
      obtain rfl := copies_inj (String.append_right_inj _ |>.mp htext)
      rfl

/-- A text is read as one form. -/
theorem ForwardText.eq_of_text {form form' : ForwardText} (hreadable : form.bind.Readable)
    (hreadable' : form'.bind.Readable) (h : form.text = form'.text) : form = form' := by
  have hbind := splitBind_text form hreadable false
  rw [h, splitBind_text form' hreadable' false] at hbind
  obtain ⟨haddr, hcore⟩ := Prod.mk.inj (Except.ok.inj hbind)
  have hbindText : form.bind.text = form'.bind.text := by
    rw [text, text, hcore, String.append_left_inj] at h
    exact h
  obtain ⟨hbindPort, hrest⟩ :=
    append_singleton_inj form'.bindPort.colon_notMem form.bindPort.colon_notMem hcore
  have htarget := splitTarget_text "" form.target form.targetPort
  rw [← hrest, splitTarget_text "" form'.target form'.targetPort] at htarget
  obtain ⟨hhost, hport⟩ := Prod.mk.inj (Except.ok.inj htarget)
  have htargetText : form'.target.text = form.target.text := by
    rwa [hport, String.append_left_inj] at hrest
  obtain ⟨bind, bindPort, target, targetPort⟩ := form
  obtain ⟨bind', bindPort', target', targetPort'⟩ := form'
  rw [mk.injEq]
  exact ⟨BindText.eq_of_text hbindText haddr.symm, PortText.ext_digits hbindPort.symm,
    TargetText.eq_of_text htargetText.symm hhost.symm, PortText.ext_digits hport.symm⟩

/-! ## The documented grammar -/

/-- One colon stands behind the brackets. A plain bind address has no colon anyway. -/
def BindText.Documented : BindText → Prop
  | bracketed _ k _ => k = 1
  | _ => True

/-- There is a host, without a colon in it or in brackets with one colon behind them. -/
def TargetText.Documented : TargetText → Prop
  | plain host _ => host ≠ "" ∧ ':' ∉ host.toList
  | bracketed host k _ => host ≠ "" ∧ k = 1

/-- `port:host:hostport`, `bind:port:host:hostport` or `[bind]:port:host:hostport`. -/
structure ForwardText.Documented (form : ForwardText) : Prop where
  bind : form.bind.Documented
  target : form.target.Documented

/-- A number of colons other than one behind a bracketed bind address or target host, an empty
target host, or one with a colon in it and without brackets. -/
def ForwardText.Misread (form : ForwardText) : Prop :=
  (match form.bind with
    | .bracketed _ k _ => k ≠ 1
    | _ => False) ∨
  match form.target with
    | .plain host _ => host = "" ∨ ':' ∈ host.toList
    | .bracketed host k _ => host = "" ∨ k ≠ 1

/-- A spec that is read, and with one of these. -/
def MisreadSpec (s : String) : Prop :=
  ∃ form : ForwardText, form.bind.Readable ∧ form.Misread ∧ s = form.text

theorem ForwardText.documented_iff (form : ForwardText) : form.Documented ↔ ¬ form.Misread := by
  have hbind : form.bind.Documented ↔ ¬ match form.bind with
      | .bracketed _ k _ => k ≠ 1
      | _ => False := by
    rcases form.bind with _ | _ | ⟨bind, k, -⟩
    · exact iff_of_true trivial id
    · exact iff_of_true trivial id
    · exact not_not.symm
  have htarget : form.target.Documented ↔ ¬ match form.target with
      | .plain host _ => host = "" ∨ ':' ∈ host.toList
      | .bracketed host k _ => host = "" ∨ k ≠ 1 := by
    rcases form.target with ⟨host, -⟩ | ⟨host, k, -⟩
    · exact not_or.symm
    · rw [not_or, not_not]
      exact Iff.rfl
  rw [Misread, not_or, ← hbind, ← htarget]
  exact ⟨fun h => ⟨h.bind, h.target⟩, fun h => ⟨h.1, h.2⟩⟩

/-- A text that is misread has no other form, except one whose bind address is a number. -/
theorem MisreadSpec.not_readable {s : String} (h : MisreadSpec s) {form : ForwardText}
    (hdocumented : form.Documented) (hs : s = form.text) : ¬ form.bind.Readable := by
  intro hreadable
  obtain ⟨misread, hreadable', hmisread, hs'⟩ := h
  obtain rfl := ForwardText.eq_of_text hreadable hreadable' (hs.symm.trans hs')
  exact form.documented_iff.mp hdocumented hmisread

/-- It is read with another bind address then. -/
theorem BindText.addr_ne {bind bind' : BindText} {core core' : String}
    (hreadable : bind.Readable) (hreadable' : ¬ bind'.Readable)
    (htext : bind.text ++ core = bind'.text ++ core') (gatewayPorts : Bool) :
    bind.addr gatewayPorts ≠ bind'.addr gatewayPorts := by
  intro haddr
  cases bind' with
  | absent => exact hreadable' trivial
  | bracketed bind' k' => exact hreadable' trivial
  | plain bind' hcolon' hbracket' =>
    have hnumber : parseU16 bind' ≠ none := hreadable'
    cases bind with
    | absent =>
      rw [← show _ = bind' from haddr] at hnumber
      cases gatewayPorts
      · exact hnumber (by decide)
      · exact hnumber (by decide)
    | plain bind =>
      rw [← show bind = bind' from haddr] at hnumber
      exact hnumber hreadable
    | bracketed bind k =>
      have hhead := head?_append_colon hbracket' core'
      rw [← show _ = bind' ++ .singleton ':' ++ core' from htext] at hhead
      exact hhead (by simp [text])

/-- **Only the documented grammar**: for any spec, `parse_forward_spec` accepts it only if it is
documented, if and only if it is not misread, or a number stands where a documented spec has the
bind address; and it accepts it only as the forward that the documented parts give, if and only if
it is not misread. -/
theorem parseForwardSpec_documented_iff (s : String) (gatewayPorts : Bool) :
    ((∀ f, parseForwardSpec s gatewayPorts = .ok f →
        ∃ form : ForwardText, form.Documented ∧ trim s = form.text) ↔
      ¬ MisreadSpec (trim s) ∨
        ∃ form : ForwardText, form.Documented ∧ ¬ form.bind.Readable ∧ trim s = form.text) ∧
    ((∀ f, parseForwardSpec s gatewayPorts = .ok f → ∃ form : ForwardText,
        form.Documented ∧ trim s = form.text ∧ f = form.forward gatewayPorts) ↔
      ¬ MisreadSpec (trim s)) := by
  have hread : ¬ MisreadSpec (trim s) → ∀ f, parseForwardSpec s gatewayPorts = .ok f →
      ∃ form : ForwardText, form.Documented ∧ trim s = form.text ∧
        f = form.forward gatewayPorts := by
    intro hmisread f hparse
    obtain ⟨form, hreadable, hs, hf⟩ := parseForwardSpec_eq_ok_iff.mp hparse
    exact ⟨form, form.documented_iff.mpr fun h => hmisread ⟨form, hreadable, h, hs⟩, hs, hf⟩
  constructor
  · constructor
    · intro h
      refine or_iff_not_imp_left.mpr fun hmisread => ?_
      rw [not_not] at hmisread
      -- a misread spec is accepted, so it needs a documented form with the same text
      obtain ⟨misread, hreadable, -, hs⟩ := id hmisread
      obtain ⟨form, hdocumented, hs'⟩ := h _ (parseForwardSpec_text hs hreadable gatewayPorts)
      exact ⟨form, hdocumented, hmisread.not_readable hdocumented hs', hs'⟩
    · rintro (hmisread | ⟨form, hdocumented, -, hs⟩) f hparse
      · obtain ⟨form, hdocumented, hs, -⟩ := hread hmisread f hparse
        exact ⟨form, hdocumented, hs⟩
      · exact ⟨form, hdocumented, hs⟩
  · refine ⟨fun h hmisread => ?_, hread⟩
    obtain ⟨misread, hreadable, -, hs⟩ := id hmisread
    obtain ⟨form, hdocumented, hs', hf⟩ := h _ (parseForwardSpec_text hs hreadable gatewayPorts)
    exact BindText.addr_ne hreadable (hmisread.not_readable hdocumented hs') (hs.symm.trans hs')
      gatewayPorts (congrArg ForwardSpec.bindAddr hf)

/-- `[::1]8080:localhost:80`. -/
def missingColon : ForwardText where
  bind := .bracketed "::1" 0 (by decide)
  bindPort := ⟨"8080", 8080, by decide⟩
  target := .plain "localhost" (by decide)
  targetPort := ⟨"80", 80, by decide⟩

/-- The colon behind the bracket may be missing. `-W` insists on it. -/
theorem missing_colon_accepted :
    parseForwardSpec "[::1]8080:localhost:80" false = .ok ⟨"::1", 8080, "localhost", 80⟩ ∧
      (¬ ∃ form : ForwardText, form.Documented ∧ trim "[::1]8080:localhost:80" = form.text) ∧
      (parseStdioForward "[::1]8080").toOption = none := by
  refine ⟨by decide +kernel, ?_, by decide +kernel⟩
  rintro ⟨form, hdocumented, hs⟩
  have htext : trim "[::1]8080:localhost:80" = missingColon.text := by decide +kernel
  rw [htext] at hs
  have hmisread : MisreadSpec missingColon.text :=
    ⟨missingColon, trivial, .inl (Nat.zero_ne_one), rfl⟩
  have hreadable := hmisread.not_readable hdocumented hs
  rcases hbind : form.bind with _ | ⟨bind, _, hbracket⟩ | ⟨bind, k, _⟩
  · exact hreadable (by rw [hbind]; trivial)
  · have hhead := head?_append_colon hbracket form.core
    rw [ForwardText.text, ForwardText.text, hbind] at hs
    rw [← show _ = bind ++ .singleton ':' ++ form.core from hs] at hhead
    exact hhead (by decide)
  · exact hreadable (by rw [hbind]; trivial)

/-! ## Printing -/

theorem PortText.not_space (port : PortText) {c : Char} (hc : c ∈ port.digits.toList) :
    isWhitespace c = false := by
  by_cases hplus : c = '+'
  · rw [hplus]
    decide
  · by_cases hdigit : c.isDigit = true
    · exact isWhitespace_of_isDigit hdigit
    · exact absurd hc (port.notMem (by simpa using hdigit) hplus)

/-- Nothing of a form is trimmed. -/
theorem ForwardText.trim_text (form : ForwardText)
    (hhead : ∀ c, form.bind.text.toList.head? = some c → isWhitespace c = false) :
    trim form.text = form.text := by
  refine trim_eq_self (fun c hc => ?_) (fun c hc => ?_)
  · rw [text, core, String.append_assoc, String.toList_append, List.head?_append,
      Option.or_eq_some_iff] at hc
    rcases hc with hc | ⟨-, hc⟩
    · exact hhead c hc
    · rw [String.toList_append, List.head?_append_of_ne_nil _ form.bindPort.digits_ne] at hc
      exact form.bindPort.not_space (List.mem_of_mem_head? hc)
  · refine form.targetPort.not_space (List.mem_of_getLast? ?_)
    have hlist : form.text.toList = (form.bind.text ++ form.bindPort.digits ++ .singleton ':' ++
        form.target.text).toList ++ form.targetPort.digits.toList := by
      simp [text, core]
    rw [hlist, List.getLast?_append_of_ne_nil _ form.targetPort.digits_ne] at hc
    exact hc

/-- A port, printed. -/
def PortText.print (port : UInt16) : PortText := ⟨Nat.repr port.toNat, port, parseU16_repr port⟩

/-- The bind address of a spec that is printed. -/
inductive BindPart where
  | absent
  | plain (bind : String) (ne_empty : bind ≠ "") (colon_notMem : ':' ∉ bind.toList)
      (open_notMem : '[' ∉ bind.toList) (close_notMem : ']' ∉ bind.toList)
      (not_port : parseU16 bind = none)
      (head_not_space : ∀ c, bind.toList.head? = some c → isWhitespace c = false)
      (last_not_space : ∀ c, bind.toList.getLast? = some c → isWhitespace c = false)
  | bracketed (bind : String) (ne_empty : bind ≠ "") (close_notMem : ']' ∉ bind.toList)

/-- The target host of a spec that is printed. -/
inductive HostPart where
  | plain (host : String) (ne_empty : host ≠ "") (colon_notMem : ':' ∉ host.toList)
      (open_notMem : '[' ∉ host.toList) (close_notMem : ']' ∉ host.toList)
  | bracketed (host : String) (close_notMem : ']' ∉ host.toList)

namespace BindPart

def print : BindPart → String
  | absent => ""
  | plain bind .. => bind ++ ":"
  | bracketed bind .. => "[" ++ bind ++ "]:"

def addr (gatewayPorts : Bool) : BindPart → String
  | absent => if gatewayPorts then "0.0.0.0" else "127.0.0.1"
  | plain bind .. => bind
  | bracketed bind .. => bind

def toText : BindPart → BindText
  | absent => .absent
  | plain bind _ hcolon hopen .. =>
    .plain bind hcolon fun hhead => hopen (List.mem_of_mem_head? hhead)
  | bracketed bind _ hclose => .bracketed bind 1 hclose

end BindPart

namespace HostPart

def print : HostPart → String
  | plain host .. => host
  | bracketed host _ => "[" ++ host ++ "]"

def host : HostPart → String
  | plain host .. => host
  | bracketed host _ => host

def toText : HostPart → TargetText
  | plain host _ _ hopen _ => .plain host fun hhead => hopen (List.mem_of_mem_head? hhead)
  | bracketed host hclose => .bracketed host 1 hclose

end HostPart

/-- `[bind:]port:host:hostport`. -/
def printForward (bind : BindPart) (bindPort : UInt16) (host : HostPart) (targetPort : UInt16) :
    String :=
  bind.print ++ Nat.repr bindPort.toNat ++ ":" ++ host.print ++ ":" ++ Nat.repr targetPort.toNat

theorem HostPart.print_colon (host : HostPart) : host.print ++ ":" = host.toText.text := by
  rcases host with _ | ⟨host, hclose⟩
  · rfl
  · rw [print, toText, TargetText.text, copies_one]
    rfl

theorem printForward_eq (bind : BindPart) (bindPort : UInt16) (host : HostPart)
    (targetPort : UInt16) :
    printForward bind bindPort host targetPort =
      (⟨bind.toText, .print bindPort, host.toText, .print targetPort⟩ : ForwardText).text := by
  have hbind : bind.print = bind.toText.text := by
    rcases bind with _ | ⟨bind, _, hcolon, hopen, _, _, _, _⟩ | ⟨bind, _, hclose⟩
    · rfl
    · rfl
    · rw [BindPart.print, BindPart.toText, BindText.text, copies_one]
      apply String.toList_injective
      simp
  rw [printForward, hbind, ForwardText.text, ForwardText.core, ← host.print_colon]
  apply String.toList_injective
  simp [PortText.print]

namespace BindPart

theorem readable_toText (bind : BindPart) : bind.toText.Readable := by
  rcases bind with _ | ⟨bind, _, _, _, _, hport, _, _⟩ | _
  · trivial
  · exact hport
  · trivial

theorem addr_toText (bind : BindPart) (gatewayPorts : Bool) :
    bind.toText.addr gatewayPorts = bind.addr gatewayPorts := by
  rcases bind with _ | _ | _
  · rfl
  · rfl
  · rfl

theorem head_toText (bind : BindPart) {c : Char} (hc : bind.toText.text.toList.head? = some c) :
    isWhitespace c = false := by
  rcases bind with _ | ⟨bind, hne, _, _, _, _, hhead, _⟩ | ⟨bind, _, hclose⟩
  · cases hc
  · rw [toText, BindText.text, String.toList_append] at hc
    rcases hbind : bind.toList with _ | ⟨d, l⟩
    · exact absurd (String.toList_eq_nil_iff.mp hbind) hne
    · rw [hbind] at hc hhead
      exact hhead c hc
  · have hopen : (toText (.bracketed bind ‹_› hclose)).text.toList.head? = some '[' := by
      simp [toText, BindText.text]
    rw [← Option.some.inj (hopen.symm.trans hc)]
    decide

end BindPart

theorem HostPart.host_toText (host : HostPart) : host.toText.host = host.host := by
  rcases host with _ | _
  · rfl
  · rfl

/-- **What is printed is read back**: for every bind part, both ports in 0..=65535 and every target
host, `parse_forward_spec` returns the parts that the spec was printed from. -/
theorem parseForwardSpec_print (bind : BindPart) (bindPort : UInt16) (host : HostPart)
    (targetPort : UInt16) (gatewayPorts : Bool) :
    parseForwardSpec (printForward bind bindPort host targetPort) gatewayPorts =
      .ok ⟨bind.addr gatewayPorts, bindPort, host.host, targetPort⟩ := by
  let form : ForwardText := ⟨bind.toText, .print bindPort, host.toText, .print targetPort⟩
  have htrim := form.trim_text fun _ => bind.head_toText
  rw [printForward_eq, parseForwardSpec_text htrim bind.readable_toText, ForwardText.forward,
    bind.addr_toText, host.host_toText]
  rfl

end Passhrs
