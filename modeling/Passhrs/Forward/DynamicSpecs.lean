import Passhrs.Forward.ForwardSpecs

/-!
# Dynamic forward specs

`-D` and `-H` name where to listen only: `[bind:]port`, which is how the spec of a `-L` begins. They
have a parser of their own, which neither trims white space nor takes brackets off.

* **`dynamic_agrees_iff`**: where both parsers come to the same address and port.
-/

namespace Passhrs

open Text

/-! ## The parser -/

/-- `parse_dynamic_spec`. -/
def parseDynamicSpec (spec : String) (gatewayPorts : Bool) : Except String DynamicForwardSpec :=
  match splitOnce ':' spec with
  | some (bindAddr, digits) => do
    let bindPort ← parsePort "invalid SOCKS port" digits
    .ok ⟨bindAddr, bindPort⟩
  | none => do
    let bindPort ← parsePort "invalid SOCKS port" spec
    .ok ⟨defaultBind gatewayPorts, bindPort⟩

/-- White space around a spec. -/
structure Space where
  text : String
  white : ∀ c ∈ text.toList, isWhitespace c = true

/-- What stands before the port to listen on: nothing, `addr:` or `[addr]:`. -/
inductive ListenPart where
  | absent
  | plain (addr : String) (colon_notMem : ':' ∉ addr.toList)
      (bracket : addr.toList.head? ≠ some '[')
      (head_not_space : ∀ c, addr.toList.head? = some c → isWhitespace c = false)
  | bracketed (addr : String) (close_notMem : ']' ∉ addr.toList)

namespace ListenPart

def print : ListenPart → String
  | absent => ""
  | plain addr .. => addr ++ .singleton ':'
  | bracketed addr _ => "[" ++ addr ++ "]" ++ .singleton ':'

def toText : ListenPart → BindText
  | absent => .absent
  | plain addr hcolon hbracket _ => .plain addr hcolon hbracket
  | bracketed addr hclose => .bracketed addr 1 hclose

/-- The address is not a number that stands for a port. -/
def NotPort (part : ListenPart) : Prop := part.toText.Readable

def isBracketed : ListenPart → Bool
  | bracketed .. => true
  | _ => false

theorem print_eq (part : ListenPart) : part.print = part.toText.text := by
  rcases part with _ | _ | ⟨addr, hclose⟩
  · rfl
  · rfl
  · rw [print, toText, BindText.text, copies_one]

theorem head_toText (part : ListenPart) {c : Char} (hc : part.toText.text.toList.head? = some c) :
    isWhitespace c = false := by
  rcases part with _ | ⟨addr, _, _, hhead⟩ | ⟨addr, hclose⟩
  · cases hc
  · rw [toText, BindText.text, String.toList_append, List.head?_append, Option.or_eq_some_iff] at hc
    rcases hc with hc | ⟨-, hc⟩
    · exact hhead c hc
    · rw [← Option.some.inj hc]
      decide
  · have hopen : (toText (.bracketed addr hclose)).text.toList.head? = some '[' := by
      simp [toText, BindText.text]
    rw [← Option.some.inj (hopen.symm.trans hc)]
    decide

end ListenPart

theorem Space.notMem (space : Space) {c : Char} (hc : isWhitespace c = false) :
    c ∉ space.text.toList := by
  intro hmem
  rw [space.white c hmem] at hc
  cases hc

/-- A port is not read with white space around it. -/
theorem parseU16_space {space : Space} {digits : String} {c : Char} (hc : c ∈ space.text.toList)
    (hmem : c ∈ digits.toList) : parseU16 digits = none := by
  have hwhite := space.white c hc
  have hdigit : c.isDigit = false := by
    rcases h : c.isDigit
    · rfl
    · rw [isWhitespace_of_isDigit h] at hwhite
      cases hwhite
  have hplus : c ≠ '+' := by
    rintro rfl
    exact absurd hwhite (by decide)
  exact parseU16_eq_none_of_mem hmem hdigit hplus

theorem Space.exists_mem {space : Space} (h : space.text ≠ "") : ∃ c, c ∈ space.text.toList := by
  obtain ⟨c, l, hl⟩ := List.exists_cons_of_ne_nil fun hnil => h (String.toList_eq_nil_iff.mp hnil)
  exact ⟨c, by rw [hl]; exact List.mem_cons_self⟩

theorem parseU16_padded {pad back : Space} (h : pad.text ≠ "" ∨ back.text ≠ "") (digits : String) :
    parseU16 (pad.text ++ digits ++ back.text) = none := by
  rcases h with h | h
  · obtain ⟨c, hc⟩ := Space.exists_mem h
    exact parseU16_space hc (by simp [hc])
  · obtain ⟨c, hc⟩ := Space.exists_mem h
    exact parseU16_space hc (by simp [hc])

theorem parseU16_pad_iff (pad back : Space) (digits : String) {port : UInt16}
    (hport : parseU16 digits = some port) :
    parseU16 (pad.text ++ digits ++ back.text) = some port ↔ pad.text = "" ∧ back.text = "" := by
  constructor
  · intro h
    by_contra hpadded
    rw [parseU16_padded (not_and_or.mp hpadded)] at h
    cases h
  · rintro ⟨hpad, hback⟩
    rw [hpad, hback, String.empty_append, String.append_empty, hport]

theorem parseU16_pad_eq_none (pad back : Space) {digits : String} (h : parseU16 digits = none) :
    parseU16 (pad.text ++ digits ++ back.text) = none := by
  by_cases hpadded : pad.text = "" ∧ back.text = ""
  · rw [hpadded.1, hpadded.2, String.empty_append, String.append_empty, h]
  · exact parseU16_padded (not_and_or.mp hpadded) digits

theorem toOption_parsePort {α : Type} (context digits : String) (f : UInt16 → α) :
    (parsePort context digits >>= fun port => .ok (f port)).toOption =
      (parseU16 digits).map f := by
  unfold parsePort
  rcases parseU16 digits with _ | port
  · rfl
  · rfl

theorem repr_notMem (n : Nat) {c : Char} (hc : c.isDigit = false) : c ∉ (Nat.repr n).toList := by
  intro hmem
  rw [Nat.toList_repr] at hmem
  rw [Nat.isDigit_of_mem_toDigits (by decide) (by decide) hmem] at hc
  cases hc

theorem toList_repr_ne_nil (n : Nat) : (Nat.repr n).toList ≠ [] := by
  rw [Nat.toList_repr]
  exact Nat.toDigits_ne_nil

theorem head?_repr_ne (n : Nat) {c : Char} (hc : c.isDigit = false) (rest : String) :
    (Nat.repr n ++ rest).toList.head? ≠ some c :=
  head?_append_ne (toList_repr_ne_nil n) (repr_notMem n hc) rest

/-! ## The two texts -/

/-- Where to listen: the bind address and the port. -/
def listenText (part : ListenPart) (port : Nat) : String := part.print ++ Nat.repr port

/-- `[bind:]port`, with white space around it. -/
def dynamicText (pad : Space) (part : ListenPart) (port : Nat) (back : Space) : String :=
  pad.text ++ listenText part port ++ back.text

/-- `[bind:]port:host:hostport`, with white space around it. -/
def targetedText (pad : Space) (part : ListenPart) (port : Nat) (target : HostPart)
    (targetPort : UInt16) (back : Space) : String :=
  pad.text ++ (listenText part port ++ ":" ++ target.print ++ ":" ++ Nat.repr targetPort.toNat) ++
    back.text

theorem parseDynamicSpec_colon {front : String} (h : ':' ∉ front.toList) (digits : String)
    (gatewayPorts : Bool) :
    (parseDynamicSpec (front ++ .singleton ':' ++ digits) gatewayPorts).toOption =
      (parseU16 digits).map (⟨front, ·⟩) := by
  unfold parseDynamicSpec
  rw [splitOnce_append h]
  exact toOption_parsePort _ _ _

theorem parseDynamicSpec_of_notMem {spec : String} (h : ':' ∉ spec.toList) (gatewayPorts : Bool) :
    (parseDynamicSpec spec gatewayPorts).toOption =
      (parseU16 spec).map (⟨defaultBind gatewayPorts, ·⟩) := by
  unfold parseDynamicSpec
  rw [splitOnce_of_notMem h]
  exact toOption_parsePort _ _ _

/-- A bracketed address with a colon in it is cut there, and its bracket is read as a port. -/
theorem parseDynamicSpec_colon_mem (pad : Space) {addr : String} (h : ':' ∈ addr.toList)
    (rest : String) (gatewayPorts : Bool) :
    (parseDynamicSpec (pad.text ++ ("[" ++ addr ++ "]" ++ rest)) gatewayPorts).toOption = none := by
  have hpad := pad.notMem (by decide : isWhitespace ':' = false)
  obtain ⟨front, back, rfl, hfront⟩ := exists_first h
  have hparts : pad.text ++ ("[" ++ (front ++ .singleton ':' ++ back) ++ "]" ++ rest) =
      pad.text ++ "[" ++ front ++ .singleton ':' ++ (back ++ "]" ++ rest) := by
    simp only [String.append_assoc]
  have hnotMem : ':' ∉ (pad.text ++ "[" ++ front).toList := by simp [hpad, hfront]
  have hdigits : parseU16 (back ++ "]" ++ rest) = none :=
    parseU16_eq_none_of_mem (c := ']') (by simp) (by decide) (by decide)
  rw [hparts, parseDynamicSpec_colon hnotMem, hdigits, Option.map_none]

/-- What `-D` reads, for each way of giving the bind address. -/
theorem parseDynamicSpec_text (pad : Space) (part : ListenPart) (port : Nat) (back : Space)
    (gatewayPorts : Bool) :
    (parseDynamicSpec (dynamicText pad part port back) gatewayPorts).toOption =
      match part with
      | .absent =>
        (parseU16 (pad.text ++ Nat.repr port ++ back.text)).map (⟨defaultBind gatewayPorts, ·⟩)
      | .plain addr .. => (parseU16 (Nat.repr port ++ back.text)).map (⟨pad.text ++ addr, ·⟩)
      | .bracketed addr _ =>
        if ':' ∈ addr.toList then none
        else (parseU16 (Nat.repr port ++ back.text)).map (⟨pad.text ++ "[" ++ addr ++ "]", ·⟩) := by
  have hpad := pad.notMem (by decide : isWhitespace ':' = false)
  have hback := back.notMem (by decide : isWhitespace ':' = false)
  have hport := repr_notMem port (by decide : ':'.isDigit = false)
  unfold dynamicText listenText
  rcases part with _ | ⟨addr, hcolon, _, _⟩ | ⟨addr, hclose⟩
  -- no colon at all: the whole text is the port
  · have hnotMem : ':' ∉ (pad.text ++ Nat.repr port ++ back.text).toList := by
      simpa [hpad, hback] using hport
    dsimp only [ListenPart.print]
    rw [String.empty_append]
    exact parseDynamicSpec_of_notMem hnotMem gatewayPorts
  -- one colon: the address before it keeps the leading blanks
  · have hparts : pad.text ++ (addr ++ .singleton ':' ++ Nat.repr port) ++ back.text =
        pad.text ++ addr ++ .singleton ':' ++ (Nat.repr port ++ back.text) := by
      simp only [String.append_assoc]
    have hnotMem : ':' ∉ (pad.text ++ addr).toList := by simp [hpad, hcolon]
    dsimp only [ListenPart.print]
    rw [hparts]
    exact parseDynamicSpec_colon hnotMem _ gatewayPorts
  · dsimp only [ListenPart.print]
    -- brackets do not protect: the split is at the first colon
    by_cases hmem : ':' ∈ addr.toList
    · have hparts : pad.text ++ ("[" ++ addr ++ "]" ++ .singleton ':' ++ Nat.repr port) ++
          back.text = pad.text ++ ("[" ++ addr ++ "]" ++
          (.singleton ':' ++ Nat.repr port ++ back.text)) := by
        simp only [String.append_assoc]
      rw [hparts, if_pos hmem]
      exact parseDynamicSpec_colon_mem pad hmem _ gatewayPorts
    · have hparts : pad.text ++ ("[" ++ addr ++ "]" ++ .singleton ':' ++ Nat.repr port) ++
          back.text = pad.text ++ "[" ++ addr ++ "]" ++ .singleton ':' ++
          (Nat.repr port ++ back.text) := by
        simp only [String.append_assoc]
      have hnotMem : ':' ∉ (pad.text ++ "[" ++ addr ++ "]").toList := by simp [hpad, hmem]
      rw [hparts, if_neg hmem]
      exact parseDynamicSpec_colon hnotMem _ gatewayPorts

theorem trim_targetedText (pad : Space) (part : ListenPart) (port : Nat) (target : HostPart)
    (targetPort : UInt16) (back : Space) :
    trim (targetedText pad part port target targetPort back) =
      listenText part port ++ ":" ++ target.print ++ ":" ++ Nat.repr targetPort.toNat := by
  have hdigits : ∀ (n : Nat) {c : Char}, c ∈ (Nat.repr n).toList → isWhitespace c = false := by
    intro n c hc
    rw [Nat.toList_repr] at hc
    exact isWhitespace_of_isDigit (Nat.isDigit_of_mem_toDigits (by decide) (by decide) hc)
  refine trim_pad pad.white (fun c hc => ?_) (fun c hc => ?_) back.white
  · have hlist : (listenText part port ++ ":" ++ target.print ++ ":" ++
        Nat.repr targetPort.toNat).toList = part.toText.text.toList ++ ((Nat.repr port).toList ++
        (":" ++ target.print ++ ":" ++ Nat.repr targetPort.toNat).toList) := by
      simp [listenText, part.print_eq]
    rw [hlist, List.head?_append, Option.or_eq_some_iff] at hc
    rcases hc with hc | ⟨-, hc⟩
    · exact part.head_toText hc
    · rw [List.head?_append_of_ne_nil _ (toList_repr_ne_nil port)] at hc
      exact hdigits port (List.mem_of_mem_head? hc)
  · rw [String.toList_append, List.getLast?_append_of_ne_nil _ (toList_repr_ne_nil _)] at hc
    exact hdigits _ (List.mem_of_getLast? hc)

/-! ## What `-L` reads -/

/-- The form of a spec with a port to listen on. -/
def targetedForm (part : ListenPart) (port : UInt16) (target : HostPart) (targetPort : UInt16) :
    ForwardText :=
  ⟨part.toText, .print port, target.toText, .print targetPort⟩

theorem targetedForm_text (part : ListenPart) (port : UInt16) (target : HostPart)
    (targetPort : UInt16) :
    (targetedForm part port target targetPort).text =
      listenText part port.toNat ++ ":" ++ target.print ++ ":" ++ Nat.repr targetPort.toNat := by
  rw [targetedForm, ForwardText.text, ForwardText.core, ← target.print_colon, listenText,
    part.print_eq]
  apply String.toList_injective
  simp [PortText.print]

/-- A number before the colon is the port to listen on, and the rest is the target. -/
def numberedForm (number : PortText) (port : Nat) (target : HostPart) (targetPort : UInt16) :
    ForwardText where
  bind := .absent
  bindPort := number
  target := .plain (Nat.repr port ++ (":" ++ target.print)) (head?_repr_ne port (by decide) _)
  targetPort := .print targetPort

theorem numberedForm_text (number : PortText) (port : Nat) (target : HostPart)
    (targetPort : UInt16) (hcolon : ':' ∉ number.digits.toList)
    (hbracket : number.digits.toList.head? ≠ some '[')
    (hhead : ∀ c, number.digits.toList.head? = some c → isWhitespace c = false) :
    (numberedForm number port target targetPort).text =
      listenText (.plain number.digits hcolon hbracket hhead) port ++ ":" ++ target.print ++ ":" ++
        Nat.repr targetPort.toNat := by
  apply String.toList_injective
  simp [numberedForm, ForwardText.text, ForwardText.core, BindText.text, TargetText.text,
    listenText, ListenPart.print, PortText.print]

theorem parseCore_error {spec bindAddr digits rest : String} (hcolon : ':' ∉ digits.toList)
    (hdigits : parseU16 digits = none) :
    ∃ e, parseCore spec bindAddr (digits ++ .singleton ':' ++ rest) = .error e := by
  rw [parseCore, splitOnce_append hcolon]
  dsimp only
  rw [parsePort, hdigits]
  exact ⟨_, rfl⟩

/-- Behind a number that is no port there is no port to listen on. -/
theorem parseCore_target (spec bindAddr : String) (target : HostPart) (targetPort : UInt16) :
    ∃ e, parseCore spec bindAddr
      (target.print ++ .singleton ':' ++ Nat.repr targetPort.toNat) = .error e := by
  have hcolon := repr_notMem targetPort.toNat (by decide : ':'.isDigit = false)
  have hopen := repr_notMem targetPort.toNat (by decide : '['.isDigit = false)
  rcases target with ⟨host, _, hhost, _, _⟩ | ⟨host, _⟩
  -- the port of the target is left as the target
  · have htarget : ∃ e, splitTarget spec (Nat.repr targetPort.toNat) = .error e := by
      rw [splitTarget, stripPrefix_bracket_eq_none_iff.mpr fun hhead =>
        hopen (List.mem_of_mem_head? hhead)]
      dsimp only
      rw [rsplitOnce_of_notMem hcolon]
      exact ⟨_, rfl⟩
    obtain ⟨e, he⟩ := htarget
    rw [HostPart.print, parseCore, splitOnce_append hhost]
    dsimp only
    rw [he]
    rcases parsePort s!"invalid bind port in forward spec: {spec}" host with e' | port
    · exact ⟨e', rfl⟩
    · exact ⟨e, rfl⟩
  -- what stands before the first colon begins with a bracket
  · have hmem : ':' ∈ (("[" ++ host ++ "]") ++ .singleton ':' ++
        Nat.repr targetPort.toNat).toList := by simp
    obtain ⟨front, rest, heq, hfront⟩ := exists_first hmem
    have hhead : (front ++ .singleton ':' ++ rest).toList.head? = some '[' := by
      rw [← heq]
      simp
    have hbracket : '[' ∈ front.toList := by
      rcases hlist : front.toList with _ | ⟨c, l⟩
      · simp [hlist] at hhead
      · rw [String.append_assoc, String.toList_append, hlist] at hhead
        rw [← Option.some.inj hhead]
        exact List.mem_cons_self
    rw [HostPart.print, heq]
    exact parseCore_error hfront (parseU16_eq_none_of_mem hbracket (by decide) (by decide))

/-- A number that is no port is not listened on. -/
theorem parseForwardSpec_invalid {pad back : Space} {part : ListenPart} {port : Nat}
    {target : HostPart} {targetPort : UInt16} (hpart : part.NotPort) (hport : 2 ^ 16 ≤ port)
    (gatewayPorts : Bool) :
    ∃ e, parseForwardSpec (targetedText pad part port target targetPort back) gatewayPorts =
      .error e := by
  have hdigits : parseU16 (Nat.repr port) = none := parseU16_repr_eq_none hport
  have hcolon := repr_notMem port (by decide : ':'.isDigit = false)
  have htrim := trim_targetedText pad part port target targetPort back
  rcases part with _ | ⟨addr, haddr, hopen, _⟩ | ⟨addr, hclose⟩
  -- the number is taken for a bind address
  · have hparts : listenText .absent port ++ ":" ++ target.print ++ ":" ++
        Nat.repr targetPort.toNat = Nat.repr port ++ .singleton ':' ++
        (target.print ++ .singleton ':' ++ Nat.repr targetPort.toNat) := by
      apply String.toList_injective
      simp [listenText, ListenPart.print]
    have hopen : (Nat.repr port).toList.head? ≠ some '[' := by
      have hnone := head?_repr_ne port (by decide : '['.isDigit = false) ""
      rwa [String.append_empty] at hnone
    rw [hparts] at htrim
    rw [parseForwardSpec_of_splitBind (htrim ▸ splitBind_plain hcolon hopen hdigits _ _)]
    exact parseCore_target _ _ target targetPort
  · have hparts : listenText (.plain addr haddr hopen ‹_›) port ++ ":" ++ target.print ++ ":" ++
        Nat.repr targetPort.toNat = addr ++ .singleton ':' ++ (Nat.repr port ++ .singleton ':' ++
        (target.print ++ .singleton ':' ++ Nat.repr targetPort.toNat)) := by
      apply String.toList_injective
      simp [listenText, ListenPart.print]
    rw [hparts] at htrim
    rw [parseForwardSpec_of_splitBind (htrim ▸ splitBind_plain haddr hopen hpart _ _)]
    exact parseCore_error hcolon hdigits
  · have hparts : listenText (.bracketed addr hclose) port ++ ":" ++ target.print ++ ":" ++
        Nat.repr targetPort.toNat = "[" ++ addr ++ "]" ++ copies 1 ':' ++
        (Nat.repr port ++ .singleton ':' ++
        (target.print ++ .singleton ':' ++ Nat.repr targetPort.toNat)) := by
      apply String.toList_injective
      simp [listenText, ListenPart.print]
    have hrest : (Nat.repr port ++ .singleton ':' ++ (target.print ++ .singleton ':' ++
        Nat.repr targetPort.toNat)).toList.head? ≠ some ':' := by
      rw [String.append_assoc]
      exact head?_repr_ne port (by decide) _
    rw [hparts] at htrim
    rw [parseForwardSpec_of_splitBind (htrim ▸ splitBind_bracketed 1 hclose hrest _)]
    exact parseCore_error hcolon hdigits

/-! ## Where they agree -/

/-- Where a forward listens. -/
def ForwardSpec.listen (f : ForwardSpec) : DynamicForwardSpec := ⟨f.bindAddr, f.bindPort⟩

theorem parseForwardSpec_listen {pad back : Space} {part : ListenPart} {port : UInt16}
    {target : HostPart} {targetPort : UInt16} (hpart : part.NotPort) (gatewayPorts : Bool) :
    (parseForwardSpec (targetedText pad part port.toNat target targetPort back)
        gatewayPorts).toOption.map ForwardSpec.listen =
      some ⟨part.toText.addr gatewayPorts, port⟩ := by
  rw [parseForwardSpec_text ((trim_targetedText ..).trans (targetedForm_text ..).symm) hpart]
  rfl

/-- A number in the place of the address is listened on. -/
theorem parseForwardSpec_number {pad back : Space} {part : ListenPart} {port : Nat}
    {target : HostPart} {targetPort : UInt16} (hpart : ¬ part.NotPort) (gatewayPorts : Bool) :
    ∃ number : PortText, (∃ h₁ h₂ h₃, part = .plain number.digits h₁ h₂ h₃) ∧
      (parseForwardSpec (targetedText pad part port target targetPort back)
          gatewayPorts).toOption.map ForwardSpec.listen =
        some ⟨defaultBind gatewayPorts, number.port⟩ := by
  rcases part with _ | ⟨addr, haddr, hopen, hhead⟩ | ⟨addr, hclose⟩
  · exact absurd trivial hpart
  · obtain ⟨number, hnumber⟩ := Option.ne_none_iff_exists'.mp hpart
    refine ⟨⟨addr, number, hnumber⟩, ⟨haddr, hopen, hhead, rfl⟩, ?_⟩
    have htext := numberedForm_text ⟨addr, number, hnumber⟩ port target targetPort haddr hopen hhead
    rw [parseForwardSpec_text ((trim_targetedText ..).trans htext.symm) trivial]
    rfl
  · exact absurd trivial hpart

/-- A spec of its own is listened on as in a `-L`, if it is that spec to the letter. -/
theorem parseDynamicSpec_listen_iff (pad back : Space) (part : ListenPart) (port : UInt16)
    (gatewayPorts : Bool) :
    (parseDynamicSpec (dynamicText pad part port.toNat back) gatewayPorts).toOption =
        some ⟨part.toText.addr gatewayPorts, port⟩ ↔
      pad.text = "" ∧ back.text = "" ∧ part.isBracketed = false := by
  have hempty : ∀ addr : String, (parseU16 (Nat.repr port.toNat ++ back.text)).map
      (⟨pad.text ++ addr, ·⟩) = some (⟨addr, port⟩ : DynamicForwardSpec) ↔
      pad.text = "" ∧ back.text = "" := by
    intro addr
    have hback := parseU16_pad_iff ⟨"", by simp⟩ back _ (parseU16_repr port)
    rw [String.empty_append] at hback
    rw [Option.map_eq_some_iff]
    constructor
    · rintro ⟨port', hparse, heq⟩
      obtain ⟨haddr, rfl⟩ := DynamicForwardSpec.mk.inj heq
      exact ⟨String.append_eq_right_iff.mp haddr, (hback.mp hparse).2⟩
    · rintro ⟨hpad, hback'⟩
      refine ⟨port, hback.mpr ⟨rfl, hback'⟩, ?_⟩
      rw [hpad, String.empty_append]
  rw [parseDynamicSpec_text]
  rcases part with _ | ⟨addr, haddr, hopen, hhead⟩ | ⟨addr, hclose⟩
  · have hpad := parseU16_pad_iff pad back _ (parseU16_repr port)
    rw [Option.map_eq_some_iff]
    constructor
    · rintro ⟨port', hparse, heq⟩
      obtain ⟨-, rfl⟩ := DynamicForwardSpec.mk.inj heq
      obtain ⟨hpad, hback⟩ := hpad.mp hparse
      exact ⟨hpad, hback, rfl⟩
    · rintro ⟨hpad', hback, -⟩
      exact ⟨port, hpad.mpr ⟨hpad', hback⟩, rfl⟩
  · exact (hempty addr).trans (by simp [ListenPart.isBracketed])
  · refine iff_of_false (fun heq => ?_) (by simp [ListenPart.isBracketed])
    dsimp only at heq
    split at heq
    · cases heq
    · obtain ⟨port', -, heq⟩ := Option.map_eq_some_iff.mp heq
      -- the brackets stay
      have hlength := congrArg (·.bindAddr.toList.length) heq
      simp [ListenPart.toText, BindText.addr] at hlength
      omega

theorem parseDynamicSpec_invalid (pad : Space) (part : ListenPart) {port : Nat}
    (hport : 2 ^ 16 ≤ port) (back : Space) (gatewayPorts : Bool) :
    (parseDynamicSpec (dynamicText pad part port back) gatewayPorts).toOption = none := by
  have hdigits : parseU16 (Nat.repr port) = none := parseU16_repr_eq_none hport
  have hback := parseU16_pad_eq_none ⟨"", by simp⟩ back hdigits
  rw [String.empty_append] at hback
  rw [parseDynamicSpec_text]
  rcases part with _ | ⟨addr, _, _, _⟩ | ⟨addr, _⟩
  · dsimp only
    rw [parseU16_pad_eq_none pad back hdigits]
    rfl
  · dsimp only
    rw [hback]
    rfl
  · dsimp only
    rw [hback, Option.map_none, ite_self]

/-- `-D` does not take the default address for a number. -/
theorem parseDynamicSpec_number {pad : Space} {number : PortText} {port : Nat} {back : Space}
    {hcolon hbracket hhead} (gatewayPorts : Bool) (p : UInt16) :
    (parseDynamicSpec (dynamicText pad (.plain number.digits hcolon hbracket hhead) port back)
      gatewayPorts).toOption ≠ some ⟨defaultBind gatewayPorts, p⟩ := by
  rw [parseDynamicSpec_text]
  dsimp only
  intro heq
  obtain ⟨port', -, heq⟩ := Option.map_eq_some_iff.mp heq
  have hdot : '.' ∈ (defaultBind gatewayPorts).toList := by
    cases gatewayPorts
    · decide
    · decide
  rw [← (DynamicForwardSpec.mk.inj heq).1, String.toList_append, List.mem_append] at hdot
  rcases hdot with hdot | hdot
  · exact pad.notMem (by decide) hdot
  · exact number.notMem (by decide) (by decide) hdot

/-- **`-D` listens where `-L` listens**: for any bind address and port, with any white space around
the spec, and for any target, `parse_dynamic_spec` and `parse_forward_spec` both fail or give the
same address and port to listen on, if and only if the bind address is no number, and, for a port
that there is, the spec has neither white space around it nor brackets. -/
theorem dynamic_agrees_iff (pad back : Space) (part : ListenPart) (port : Nat) (target : HostPart)
    (targetPort : UInt16) (gatewayPorts : Bool) :
    (parseDynamicSpec (dynamicText pad part port back) gatewayPorts).toOption =
        (parseForwardSpec (targetedText pad part port target targetPort back)
          gatewayPorts).toOption.map ForwardSpec.listen ↔
      part.NotPort ∧
        (port < 2 ^ 16 → pad.text = "" ∧ back.text = "" ∧ part.isBracketed = false) := by
  by_cases hpart : part.NotPort
  · rw [and_iff_right hpart]
    rcases Nat.lt_or_ge port (2 ^ 16) with hport | hport
    · obtain ⟨port, rfl⟩ : ∃ n : UInt16, n.toNat = port :=
        ⟨UInt16.ofNat port, UInt16.toNat_ofNat_of_lt' hport⟩
      rw [parseForwardSpec_listen hpart, parseDynamicSpec_listen_iff]
      exact ⟨fun h _ => h, fun h => h hport⟩
    · obtain ⟨e, herror⟩ : ∃ e, parseForwardSpec (targetedText pad part port target targetPort back)
          gatewayPorts = .error e := parseForwardSpec_invalid hpart hport gatewayPorts
      rw [herror, parseDynamicSpec_invalid pad part hport]
      exact iff_of_true rfl fun h => absurd hport (Nat.not_le.mpr h)
  · obtain ⟨number, ⟨_, _, _, rfl⟩, hforward⟩ : ∃ number : PortText, _ ∧
        (parseForwardSpec (targetedText pad part port target targetPort back)
          gatewayPorts).toOption.map ForwardSpec.listen = _ :=
      parseForwardSpec_number hpart gatewayPorts
    rw [hforward]
    exact iff_of_false (parseDynamicSpec_number gatewayPorts number.port) fun h => hpart h.1

/-- `-D [::1]:1080` is refused, and `-L [::1]:1080:host:80` is not. -/
theorem brackets_refused :
    (parseDynamicSpec "[::1]:1080" false).toOption = none ∧
      (parseForwardSpec "[::1]:1080:host:80" false).toOption =
        some ⟨"::1", 1080, "host", 80⟩ := by decide +kernel

end Passhrs
