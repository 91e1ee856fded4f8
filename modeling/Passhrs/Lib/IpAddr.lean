import Passhrs.Lib.Text

/-!
# Internet addresses

The text of addresses, the way Rust's standard library writes and reads it.
-/

namespace IpAddr

open Text

/-! ## Writing -/

/-- `Ipv4Addr`, displayed. -/
def ipv4Text (a b c d : UInt8) : String := s!"{a}.{b}.{c}.{d}"

def ofBe16 (high low : UInt8) : UInt16 := high.toUInt16 * 256 + low.toUInt16

def toBe16 (n : UInt16) : Bytes := [(n >>> 8).toUInt8, n.toUInt8]

theorem ofBe16_toBe16 (n : UInt16) : ofBe16 (n >>> 8).toUInt8 n.toUInt8 = n := by
  have hlt := n.toNat_lt
  rw [← UInt16.toNat_inj]
  simp [ofBe16, UInt16.toNat_shiftRight, Nat.shiftRight_eq_div_pow]
  omega

theorem toBe16_ofBe16 (high low : UInt8) : toBe16 (ofBe16 high low) = [high, low] := by
  have hhigh := high.toNat_lt
  have hlow := low.toNat_lt
  have hfirst : ((ofBe16 high low) >>> 8).toUInt8 = high := by
    rw [← UInt8.toNat_inj]
    simp [ofBe16, UInt16.toNat_shiftRight, Nat.shiftRight_eq_div_pow]
    omega
  have hsecond : (ofBe16 high low).toUInt8 = low := by
    rw [← UInt8.toNat_inj]
    simp [ofBe16]
  rw [toBe16, hfirst, hsecond]

/-- Where the first of the longest runs of zeros starts, and its length. -/
def zeroRun (segments : List UInt16) : Nat × Nat :=
  let step : (Nat × Nat) × (Nat × Nat) → UInt16 × Nat → (Nat × Nat) × (Nat × Nat) :=
    fun (longest, current) (segment, i) =>
      if segment = 0 then
        let current := (if current.2 = 0 then i else current.1, current.2 + 1)
        (if longest.2 < current.2 then current else longest, current)
      else (longest, (0, 0))
  (segments.zipIdx.foldl step ((0, 0), (0, 0))).1

def hexGroups (segments : List UInt16) : String :=
  ":".intercalate (segments.map fun n => .ofList (Nat.toDigits 16 n.toNat))

/-- `Ipv6Addr`, displayed. -/
def ipv6Text (segments : List UInt16) : String :=
  match segments with
  | [0, 0, 0, 0, 0, 0xffff, ab, cd] =>
    "::ffff:" ++ ipv4Text (ab >>> 8).toUInt8 ab.toUInt8 (cd >>> 8).toUInt8 cd.toUInt8
  | _ =>
    let (start, length) := zeroRun segments
    if 1 < length then
      hexGroups (segments.take start) ++ "::" ++ hexGroups (segments.drop (start + length))
    else hexGroups segments

example : ipv6Text [0x2001, 0xdb8, 0, 0, 1, 0, 0, 1] = "2001:db8::1:0:0:1" := by decide
example : ipv6Text [0, 0, 0, 0, 0, 0, 0, 1] = "::1" ∧
    ipv6Text [0, 0, 0, 0, 0, 0xffff, 0x7f00, 1] = "::ffff:127.0.0.1" := by decide

theorem space_notMem_toDigits {b : Nat} (hb : 1 < b) (n : Nat) : ' ' ∉ Nat.toDigits b n := by
  have hdigit : ∀ d, Nat.digitChar d ≠ ' ' := fun d => Nat.digitChar_ne ' ' (by decide)
  induction n using Nat.strongRecOn with
  | ind n ih =>
    rw [Nat.toDigits_eq_if hb]
    split
    · rw [List.mem_singleton]
      exact (hdigit n).symm
    · next hle =>
      rw [List.mem_append, List.mem_singleton, not_or]
      exact ⟨ih _ (Nat.div_lt_self (by omega) hb), (hdigit _).symm⟩

theorem space_notMem_ipv4Text (a b c d : UInt8) : ' ' ∉ (ipv4Text a b c d).toList := by
  have hoctet : ∀ octet : UInt8, ' ' ∉ (toString octet).toList := by
    intro octet
    show ' ' ∉ (Nat.repr octet.toNat).toList
    rw [Nat.toList_repr]
    exact space_notMem_toDigits (by decide) _
  have hdot : ' ' ∉ (toString ".").toList := by decide
  simp [ipv4Text, String.toList_append, hoctet, hdot]

theorem space_notMem_hexGroups (segments : List UInt16) : ' ' ∉ (hexGroups segments).toList := by
  have hgroups : ∀ groups : List String, (∀ group ∈ groups, ' ' ∉ group.toList) →
      ' ' ∉ (":".intercalate groups).toList := by
    intro groups
    induction groups with
    | nil => exact fun _ => by decide
    | cons group groups ih =>
      intro h
      rw [List.forall_mem_cons] at h
      by_cases hnil : groups = []
      · rw [hnil, String.intercalate_singleton]
        exact h.1
      · have hcolon : ' ' ∉ ":".toList := by decide
        rw [String.intercalate_cons_of_ne_nil hnil, String.toList_append, String.toList_append]
        simp only [List.mem_append, not_or]
        exact ⟨⟨h.1, hcolon⟩, ih h.2⟩
  refine hgroups _ fun group hgroup => ?_
  obtain ⟨n, -, rfl⟩ := List.mem_map.mp hgroup
  rw [String.toList_ofList]
  exact space_notMem_toDigits (by decide) n.toNat

theorem space_notMem_ipv6Text (segments : List UInt16) : ' ' ∉ (ipv6Text segments).toList := by
  unfold ipv6Text
  split
  · have hmapped : ' ' ∉ "::ffff:".toList := by decide
    rw [String.toList_append, List.mem_append, not_or]
    exact ⟨hmapped, space_notMem_ipv4Text _ _ _ _⟩
  · dsimp only
    split
    · have hcolons : ' ' ∉ "::".toList := by decide
      simp only [String.toList_append, List.mem_append, not_or]
      exact ⟨⟨space_notMem_hexGroups _, hcolons⟩, space_notMem_hexGroups _⟩
    · exact space_notMem_hexGroups segments
/-! ## Reading

A parser takes what it reads off the front, or fails. -/

/-- `char::to_digit`, for 10 and 16. -/
def toDigit (radix : Nat) (c : Char) : Option Nat :=
  let digit :=
    if c.isDigit then some (c.toNat - 0x30)
    else if 'a' ≤ c ∧ c ≤ 'f' then some (c.toNat - 0x57)
    else if 'A' ≤ c ∧ c ≤ 'F' then some (c.toNat - 0x37)
    else none
  digit.filter (· < radix)

/-- `Parser::read_number`. -/
def readNumber (radix maxDigits bound : Nat) (allowZeroPrefix : Bool) (s : List Char) :
    Option (Nat × List Char) :=
  let digits := s.takeWhile fun c => (toDigit radix c).isSome
  let n := digits.foldl (fun n c => n * radix + (toDigit radix c).getD 0) 0
  if digits = [] ∨ maxDigits < digits.length ∨ bound ≤ n then none
  else if allowZeroPrefix = false ∧ s.head? = some '0' ∧ 1 < digits.length then none
  else some (n, s.drop digits.length)

/-- `Parser::read_separator`: what stands before all but the first of a list. -/
def readSeparator (sep : Char) (index : Nat) (s : List Char) : Option (List Char) :=
  if index = 0 then some s
  else
    match s with
    | c :: s => if c = sep then some s else none
    | [] => none

/-- `Parser::read_ipv4_addr`. -/
def readIpv4 (s : List Char) : Option ((UInt8 × UInt8 × UInt8 × UInt8) × List Char) := do
  let readOctet (index : Nat) (s : List Char) : Option (UInt8 × List Char) := do
    let s ← readSeparator '.' index s
    let (n, s) ← readNumber 10 3 256 false s
    pure (UInt8.ofNat n, s)
  let (a, s) ← readOctet 0 s
  let (b, s) ← readOctet 1 s
  let (c, s) ← readOctet 2 s
  let (d, s) ← readOctet 3 s
  pure ((a, b, c, d), s)

/-- `read_groups`, with the number of slots that are left: the groups, and whether an IPv4 address
was the last of them. -/
def readGroups : Nat → List UInt16 → List Char → List UInt16 × Bool × List Char
  | 0, groups, s => (groups, false, s)
  | slots + 1, groups, s =>
    let index := groups.length
    let ipv4 := if slots = 0 then none else (readSeparator ':' index s).bind readIpv4
    match ipv4 with
    | some ((a, b, c, d), s) => (groups ++ [ofBe16 a b, ofBe16 c d], true, s)
    | none =>
      match (readSeparator ':' index s).bind (readNumber 16 4 65536 true) with
      | some (group, s) => readGroups slots (groups ++ [UInt16.ofNat group]) s
      | none => (groups, false, s)

/-- `str::parse::<Ipv6Addr>`: the segments. -/
def parseIpv6 (s : String) : Option (List UInt16) :=
  match readGroups 8 [] s.toList with
  | (head, headIpv4, rest) =>
    if head.length = 8 then if rest = [] then some head else none
    else if headIpv4 then none
    else
      match rest with
      | ':' :: ':' :: rest =>
        match readGroups (8 - (head.length + 1)) [] rest with
        | (tail, _, []) => some (head ++ List.replicate (8 - head.length - tail.length) 0 ++ tail)
        | _ => none
      | _ => none

example : parseIpv6 "2001:db8::1:0:0:1" = some [0x2001, 0xdb8, 0, 0, 1, 0, 0, 1] := by decide
example : parseIpv6 "::ffff:127.0.0.1" = some [0, 0, 0, 0, 0, 0xffff, 0x7f00, 1] := by decide
example : parseIpv6 "1:2:3:4:5:6:7" = none ∧ parseIpv6 "::1 " = none := by decide

/-! ## What is read -/

/-- A number is the digits at the front. -/
theorem exists_of_readNumber {radix maxDigits bound : Nat} {allowZeroPrefix : Bool}
    {s rest : List Char} {n : Nat}
    (h : readNumber radix maxDigits bound allowZeroPrefix s = some (n, rest)) :
    ∃ digits, s = digits ++ rest ∧ digits ≠ [] ∧ ∀ c ∈ digits, (toDigit radix c).isSome = true := by
  unfold readNumber at h
  dsimp only at h
  split at h
  · cases h
  next hdigits =>
  split at h
  · cases h
  · obtain ⟨-, rfl⟩ := Prod.mk.inj (Option.some.inj h)
    refine ⟨s.takeWhile fun c => (toDigit radix c).isSome, ?_, fun hnil => hdigits (.inl hnil),
      fun c hc => List.mem_takeWhile_imp (p := fun c => (toDigit radix c).isSome) hc⟩
    exact (List.prefix_iff_eq_append.mp (List.takeWhile_prefix _)).symm

theorem readSeparator_eq_some {sep : Char} {index : Nat} {s rest : List Char}
    (h : readSeparator sep index s = some rest) :
    ∃ front, s = front ++ rest ∧ ∀ c ∈ front, c = sep := by
  unfold readSeparator at h
  split at h
  · obtain rfl := Option.some.inj h
    exact ⟨[], rfl, by simp⟩
  · split at h
    · next c s' =>
      split at h
      · next hc =>
        obtain rfl := Option.some.inj h
        exact ⟨[c], rfl, by simpa⟩
      · cases h
    · cases h

/-- An IPv4 address is read off digits and dots. -/
theorem exists_of_readIpv4 {s rest : List Char} {octets : UInt8 × UInt8 × UInt8 × UInt8}
    (h : readIpv4 s = some (octets, rest)) :
    ∃ front, s = front ++ rest ∧ ∀ c ∈ front, c = '.' ∨ (toDigit 10 c).isSome = true := by
  have hoctet : ∀ {index : Nat} {s : List Char} {octet : UInt8 × List Char},
      (∃ s', readSeparator '.' index s = some s' ∧ ∃ number,
        readNumber 10 3 256 false s' = some number ∧
          some (UInt8.ofNat number.1, number.2) = some octet) →
      ∃ front, s = front ++ octet.2 ∧ ∀ c ∈ front, c = '.' ∨ (toDigit 10 c).isSome = true := by
    rintro index s _ ⟨s', hsep, ⟨n, rest⟩, hnumber, hoctet⟩
    obtain rfl := Option.some.inj hoctet
    obtain ⟨dot, rfl, hdot⟩ := readSeparator_eq_some hsep
    obtain ⟨digits, rfl, -, hdigits⟩ := exists_of_readNumber hnumber
    refine ⟨dot ++ digits, (List.append_assoc ..).symm, fun c hc => ?_⟩
    rcases List.mem_append.mp hc with hc | hc
    · exact .inl (hdot c hc)
    · exact .inr (hdigits c hc)
  unfold readIpv4 at h
  simp only [Option.bind_eq_bind, Option.pure_def, Option.bind_eq_some_iff] at h
  obtain ⟨⟨a, s₁⟩, ha, ⟨b, s₂⟩, hb, ⟨c, s₃⟩, hc, ⟨d, s₄⟩, hd, heq⟩ := h
  obtain ⟨-, rfl⟩ := Prod.mk.inj (Option.some.inj heq)
  obtain ⟨fronta, rfl, hfronta⟩ := hoctet ha
  obtain ⟨frontb, rfl, hfrontb⟩ := hoctet hb
  obtain ⟨frontc, rfl, hfrontc⟩ := hoctet hc
  obtain ⟨frontd, rfl, hfrontd⟩ := hoctet hd
  refine ⟨fronta ++ frontb ++ frontc ++ frontd, by simp, ?_⟩
  simp only [List.forall_mem_append]
  exact ⟨⟨⟨hfronta, hfrontb⟩, hfrontc⟩, hfrontd⟩

theorem dot_mem_of_readIpv4 {s rest : List Char} {octets : UInt8 × UInt8 × UInt8 × UInt8}
    (h : readIpv4 s = some (octets, rest)) : '.' ∈ s := by
  unfold readIpv4 at h
  simp only [Option.bind_eq_bind, Option.pure_def, Option.bind_eq_some_iff] at h
  obtain ⟨⟨a, s₁⟩, ⟨s', hsep, ⟨n, s₁'⟩, hnumber, heq⟩, ⟨b, s₂⟩, ⟨s₁'', hdot, -⟩, -⟩ := h
  obtain ⟨-, rfl⟩ := Prod.mk.inj (Option.some.inj heq)
  obtain ⟨front, rfl, -⟩ := readSeparator_eq_some hsep
  obtain ⟨digits, rfl, -, -⟩ := exists_of_readNumber hnumber
  refine List.mem_append_right _ (List.mem_append_right _ ?_)
  -- the second octet stands behind a dot
  unfold readSeparator at hdot
  rw [if_neg (by decide)] at hdot
  rcases s₁' with _ | ⟨c, l⟩
  · cases hdot
  · dsimp only at hdot
    split at hdot
    · next hc =>
      rw [hc]
      exact List.mem_cons_self
    · cases hdot

theorem readGroups_of_notMem {groups : List UInt16} (hne : groups ≠ []) {s : List Char}
    (hcolon : ':' ∉ s) (slots : Nat) : readGroups slots groups s = (groups, false, s) := by
  have hsep : readSeparator ':' groups.length s = none := by
    unfold readSeparator
    rw [if_neg (by simpa using hne)]
    rcases s with _ | ⟨c, l⟩
    · rfl
    · exact if_neg fun hc => hcolon (by rw [hc]; exact List.mem_cons_self)
  rcases slots with _ | slots
  · rfl
  · rw [readGroups]
    simp only [hsep, Option.bind_none, ite_self]

theorem colon_mem_of_parseIpv6 {s : String} {segments : List UInt16}
    (h : parseIpv6 s = some segments) : ':' ∈ s.toList := by
  by_contra hcolon
  have hread : readGroups 8 [] s.toList =
      match readIpv4 s.toList with
      | some ((a, b, c, d), rest) => ([ofBe16 a b, ofBe16 c d], true, rest)
      | none =>
        match readNumber 16 4 65536 true s.toList with
        | some (group, rest) => readGroups 7 [UInt16.ofNat group] rest
        | none => ([], false, s.toList) := rfl
  -- fewer than eight groups need a `::` behind them
  have hends : ∀ (head : List UInt16) (rest : List Char), head.length < 8 → ':' ∉ rest →
      readGroups 8 [] s.toList ≠ (head, false, rest) := by
    intro head rest hlength hrest hgroups
    unfold parseIpv6 at h
    rw [hgroups] at h
    dsimp only at h
    rw [if_neg (Nat.ne_of_lt hlength), if_neg Bool.false_ne_true] at h
    split at h
    · simp at hrest
    · cases h
  rcases hipv4 : readIpv4 s.toList with _ | ⟨⟨a, b, c, d⟩, rest⟩
  -- no dotted address in front: at most one group, and no colon behind it
  · rw [hipv4] at hread
    rcases hnumber : readNumber 16 4 65536 true s.toList with _ | ⟨group, rest⟩
    · rw [hnumber] at hread
      exact hends [] s.toList (by decide) hcolon hread
    · rw [hnumber] at hread
      obtain ⟨digits, hdigits, -, -⟩ := exists_of_readNumber hnumber
      have hrest : ':' ∉ rest := fun hmem =>
        hcolon (by rw [hdigits]; exact List.mem_append_right _ hmem)
      dsimp only at hread
      rw [readGroups_of_notMem (List.cons_ne_nil _ _) hrest] at hread
      exact hends _ rest (by rw [List.length_singleton]; decide) hrest hread
  -- a dotted address is no IPv6 address of its own
  · rw [hipv4] at hread
    unfold parseIpv6 at h
    rw [hread] at h
    cases h

/-- The characters of an IPv6 address. -/
def IsIpv6Char (c : Char) : Prop := c = ':' ∨ c = '.' ∨ (toDigit 16 c).isSome = true

instance (c : Char) : Decidable (IsIpv6Char c) := inferInstanceAs (Decidable (_ ∨ _ ∨ _))

theorem isSome_toDigit_of_ten {c : Char} (h : (toDigit 10 c).isSome = true) :
    (toDigit 16 c).isSome = true := by
  unfold toDigit at h ⊢
  obtain ⟨n, hn⟩ := Option.isSome_iff_exists.mp h
  obtain ⟨hdigit, hlt⟩ := Option.filter_eq_some_iff.mp hn
  refine Option.isSome_iff_exists.mpr ⟨n, Option.filter_eq_some_iff.mpr ⟨hdigit, ?_⟩⟩
  rw [decide_eq_true_eq] at hlt ⊢
  omega

theorem exists_of_readGroups (slots : Nat) (groups : List UInt16) (s : List Char) :
    ∃ front, s = front ++ (readGroups slots groups s).2.2 ∧ ∀ c ∈ front, IsIpv6Char c := by
  induction slots generalizing groups s with
  | zero => exact ⟨[], rfl, by simp⟩
  | succ slots ih =>
    have hsep : ∀ {s'}, readSeparator ':' groups.length s = some s' →
        ∃ colon, s = colon ++ s' ∧ ∀ c ∈ colon, IsIpv6Char c := by
      intro s' h
      obtain ⟨colon, hs, hcolon⟩ := readSeparator_eq_some h
      exact ⟨colon, hs, fun c hc => .inl (hcolon c hc)⟩
    rw [readGroups]
    split
    -- an IPv4 address at the end
    · next a b c d rest hipv4 =>
      split at hipv4
      · cases hipv4
      · obtain ⟨s', hsep', hread⟩ := Option.bind_eq_some_iff.mp hipv4
        obtain ⟨colon, rfl, hcolon⟩ := hsep hsep'
        obtain ⟨front, rfl, hfront⟩ := exists_of_readIpv4 hread
        refine ⟨colon ++ front, (List.append_assoc ..).symm, ?_⟩
        rw [List.forall_mem_append]
        exact ⟨hcolon, fun c hc => .inr ((hfront c hc).imp_right isSome_toDigit_of_ten)⟩
    · split
      · next group rest hgroup =>
        obtain ⟨s', hsep', hread⟩ := Option.bind_eq_some_iff.mp hgroup
        obtain ⟨colon, rfl, hcolon⟩ := hsep hsep'
        obtain ⟨digits, rfl, -, hdigits⟩ := exists_of_readNumber hread
        obtain ⟨front, hfront, hmem⟩ := ih (groups ++ [UInt16.ofNat group]) rest
        refine ⟨colon ++ digits ++ front, ?_, ?_⟩
        · conv_lhs => rw [hfront]
          simp
        · simp only [List.forall_mem_append]
          exact ⟨⟨hcolon, fun c hc => .inr (.inr (hdigits c hc))⟩, hmem⟩
      · exact ⟨[], rfl, by simp⟩

theorem mem_of_parseIpv6 {s : String} {segments : List UInt16} (h : parseIpv6 s = some segments) :
    ∀ c ∈ s.toList, IsIpv6Char c := by
  unfold parseIpv6 at h
  obtain ⟨front, hs, hfront⟩ := exists_of_readGroups 8 [] s.toList
  rcases hhead : readGroups 8 [] s.toList with ⟨head, ipv4, rest⟩
  rw [hhead] at h hs
  dsimp only at h hs
  split at h
  · split at h
    · next hrest =>
      rw [hs, hrest, List.append_nil]
      exact hfront
    · cases h
  · split at h
    · cases h
    · split at h
      · next _ rest' =>
        obtain ⟨back, hback, hmem⟩ := exists_of_readGroups (8 - (head.length + 1)) [] rest'
        split at h
        · next hnil =>
          rw [hnil, List.append_nil] at hback
          rw [hs, hback]
          intro c hc
          simp only [List.mem_append, List.mem_cons] at hc
          rcases hc with hc | rfl | rfl | hc
          · exact hfront c hc
          · exact .inl rfl
          · exact .inl rfl
          · exact hmem c hc
        · cases h
      · cases h

theorem notMem_of_parseIpv6 {s : String} {segments : List UInt16}
    (h : parseIpv6 s = some segments) {c : Char} (hc : ¬ IsIpv6Char c) : c ∉ s.toList :=
  fun hmem => hc (mem_of_parseIpv6 h c hmem)

theorem head?_ne_of_parseIpv6 {s : String} {segments : List UInt16}
    (h : parseIpv6 s = some segments) : s.toList.head? ≠ some '[' := fun hhead =>
  notMem_of_parseIpv6 h (by decide) (List.mem_of_mem_head? hhead)

/-- An IPv6 address as it is written, with or without a zone. -/
def IsIpv6Literal (s : String) : Prop :=
  ∃ addr segments, parseIpv6 addr = some segments ∧ (s = addr ∨ ∃ zone, s = addr ++ "%" ++ zone)

theorem IsIpv6Literal.colon_mem {s : String} (h : IsIpv6Literal s) : ':' ∈ s.toList := by
  obtain ⟨addr, segments, hparse, rfl | ⟨zone, rfl⟩⟩ := h
  · exact colon_mem_of_parseIpv6 hparse
  · simp [colon_mem_of_parseIpv6 hparse]

theorem IsIpv6Literal.head?_ne {s : String} (h : IsIpv6Literal s) :
    s.toList.head? ≠ some '[' := by
  obtain ⟨addr, segments, hparse, rfl | ⟨zone, rfl⟩⟩ := h
  · exact head?_ne_of_parseIpv6 hparse
  · have hcolon := colon_mem_of_parseIpv6 hparse
    have hhead := head?_ne_of_parseIpv6 hparse
    rcases haddr : addr.toList with _ | ⟨c, l⟩
    · rw [haddr] at hcolon
      cases hcolon
    · rw [haddr] at hhead
      simpa [haddr] using hhead

end IpAddr
