import Passhrs.Lib.Separators
import Passhrs.Ssh.EscapePump

/-!
# The escape character of `-e`

`-e` takes a character, a control character in caret notation, or `none`. A value that is none of
these is complained about and leaves the default.

* **`escape_chosen_iff`**: the bytes that can be chosen.
* **`escape_disabled_iff`**: the values with which a session takes nothing for an escape sequence,
  whatever is typed.
-/

namespace Passhrs

open Text

/-! ## The option -/

/-- The byte of a character behind a caret. -/
def controlByte (c : UInt8) : Option UInt8 :=
  if c = 0x3f then some 0x7f
  else if c = 0x5e then some 0x5e
  else if 0x61 ≤ c ∧ c ≤ 0x7a then some (c - 0x61 + 1)
  else if 0x41 ≤ c ∧ c ≤ 0x5a then some (c - 0x41 + 1)
  else none

/-- `parse_escape_char`. -/
def parseEscapeChar (printable : Char → Bool) (spec : String) : Except String (Option UInt8) :=
  let s := trim spec
  if toAsciiLowercase s = "none" then .ok none
  else if s = "" then .error "-e: empty escape character (use 'none' to disable)"
  else
    match Text.stripPrefix "^" s with
    | some rest =>
      match utf8 rest with
      | [c] =>
        match controlByte c with
        | some resolved => .ok (some resolved)
        | none => .error ("-e: unsupported control character " ++ debugStr printable s)
      | _ =>
        .error ("-e: '^' must be followed by exactly one character (got " ++
          debugStr printable s ++ ")")
    | none =>
      match utf8 s with
      | [b] => .ok (some b)
      | _ => .error ("-e: escape character must be exactly one byte, got " ++ debugStr printable s)

example (printable : Char → Bool) : (parseEscapeChar printable " None ").toOption = some none ∧
    (parseEscapeChar printable "^A").toOption = some (some 0x01) ∧
    (parseEscapeChar printable "^").toOption = none := ⟨rfl, rfl, rfl⟩

/-- `effective_escape_char`, but for what it prints: `~` where there is no `-e` or a wrong one. -/
def effectiveEscapeChar (printable : Char → Bool) (escapeChar : Option String) : Option UInt8 :=
  match escapeChar with
  | none => some 0x7e
  | some s =>
    match parseEscapeChar printable s with
    | .ok v => v
    | .error _ => some 0x7e

/-! ## The values -/

section Values

variable {printable : Char → Bool}

/-- Trimmed text does not end in white space. -/
theorem trim_ne_of_isWhitespace (spec : String) {c : Char} (hc : isWhitespace c = true) :
    trim spec ≠ .singleton c := by
  intro h
  have hlist : (spec.toList.dropWhile isWhitespace).rdropWhile isWhitespace = [c] := by
    rw [← String.toList_singleton, ← h, trim, String.toList_ofList]
  have hne : (spec.toList.dropWhile isWhitespace).rdropWhile isWhitespace ≠ [] := by
    rw [hlist]
    exact List.cons_ne_nil _ _
  have hlast := List.rdropWhile_last_not isWhitespace _ hne
  simp only [hlist, List.getLast_singleton] at hlast
  exact hlast hc

/-- One byte is one character of ASCII. -/
theorem eq_singleton_of_utf8 {s : String} {b : UInt8} (h : utf8 s = [b]) :
    b < 0x80 ∧ ∃ c, s = .singleton c ∧ String.utf8EncodeChar c = [b] := by
  rcases hs : s.toList with _ | ⟨c, l⟩
  · rw [utf8, hs] at h
    cases h
  rw [utf8, hs, List.flatMap_cons] at h
  have hsize : c.utf8Size + (l.flatMap String.utf8EncodeChar).length = 1 := by
    have hlength := congrArg List.length h
    rwa [List.length_append, String.length_utf8EncodeChar, List.length_singleton] at hlength
  have hpos := c.utf8Size_pos
  have hone : c.utf8Size = 1 := by omega
  have hnil : l.flatMap String.utf8EncodeChar = [] := List.length_eq_zero_iff.mp (by omega)
  have hl : l = [] := by
    have hle := length_le_flatMap (f := String.utf8EncodeChar)
      (fun _ => String.utf8EncodeChar_ne_nil) l
    rw [hnil] at hle
    exact List.length_eq_zero_iff.mp (Nat.le_zero.mp hle)
  subst hl
  rw [List.flatMap_nil, List.append_nil] at h
  refine ⟨?_, c, by rw [← String.toList_inj, hs, String.toList_singleton], h⟩
  rw [String.utf8EncodeChar_eq_singleton hone] at h
  rw [← (List.cons.inj h).1, UInt8.lt_iff_toNat_lt]
  have hval := UInt32.le_iff_toNat_le.mp (Char.utf8Size_eq_one_iff.mp hone)
  rw [UInt32.toNat_toUInt8]
  have h127 : (127 : UInt32).toNat = 127 := rfl
  have h128 : (0x80 : UInt8).toNat = 128 := rfl
  omega

theorem controlByte_lt {c b : UInt8} (h : controlByte c = some b) : b < 0x80 ∧ b ≠ 0x20 := by
  unfold controlByte at h
  split_ifs at h
  all_goals
    cases h
    grind

theorem controlByte_eq_newline_iff {c : UInt8} :
    controlByte c = some newline ↔ c = 0x6a ∨ c = 0x4a := by
  unfold controlByte newline
  grind

theorem length_utf8_of_none {s : String} (h : toAsciiLowercase s = "none") :
    4 ≤ (utf8 s).length := by
  have hlist : s.toList.map Char.toLower = "none".toList := by
    rw [← h, toAsciiLowercase, String.toList_ofList]
  have hlength : s.toList.length = 4 := by
    rw [← List.length_map Char.toLower, hlist]
    rfl
  have hle := length_le_flatMap (f := String.utf8EncodeChar)
    (fun _ => String.utf8EncodeChar_ne_nil) s.toList
  rw [hlength] at hle
  exact hle

/-- What a value consists of that is accepted. -/
theorem parseEscapeChar_eq_some_iff {spec : String} {b : UInt8} :
    parseEscapeChar printable spec = .ok (some b) ↔
      (∃ rest c, trim spec = "^" ++ rest ∧ utf8 rest = [c] ∧ controlByte c = some b) ∨
        (utf8 (trim spec) = [b] ∧ b ≠ 0x5e) := by
  have hcaret : utf8 "^" = [0x5e] := by decide
  unfold parseEscapeChar
  dsimp only
  generalize trim spec = s
  split_ifs with hnone hempty
  -- `none` is longer than either form
  · have hlength := length_utf8_of_none hnone
    refine iff_of_false (by simp) ?_
    rintro (⟨rest, c, rfl, hrest, -⟩ | ⟨h, -⟩)
    · rw [utf8_append, hcaret, hrest] at hlength
      exact absurd hlength (by simp)
    · rw [h] at hlength
      exact absurd hlength (by simp)
  · rw [hempty]
    refine iff_of_false (by simp) ?_
    rintro (⟨rest, c, h, -⟩ | ⟨h, -⟩)
    · have hlist := congrArg String.toList h
      rw [String.toList_append] at hlist
      exact absurd hlist.symm (by simp)
    · cases h
  split
  -- after a caret only the first form is left, and it is about `rest`
  · next rest hrest =>
    obtain rfl := Text.stripPrefix_eq_some_iff.mp hrest
    have hleft : (∃ rest' c, "^" ++ rest = "^" ++ rest' ∧ utf8 rest' = [c] ∧
        controlByte c = some b) ↔ ∃ c, utf8 rest = [c] ∧ controlByte c = some b := by
      constructor
      · rintro ⟨rest', c, h, hc⟩
        obtain rfl := (String.append_right_inj _).mp h
        exact ⟨c, hc⟩
      · exact fun ⟨c, hc⟩ => ⟨rest, c, rfl, hc⟩
    have hright : ¬ (utf8 ("^" ++ rest) = [b] ∧ b ≠ 0x5e) := by
      rintro ⟨h, hb⟩
      rw [utf8_append, hcaret] at h
      exact hb (List.cons.inj h).1.symm
    rw [hleft, or_iff_left hright]
    rcases utf8 rest with _ | ⟨c, _ | ⟨d, more⟩⟩
    · simp
    · cases hc : controlByte c with
      | none => simp [hc]
      | some resolved => simp [hc]
    · simp
  -- without one only the second, and the byte is not a caret
  · next hrest =>
    have hleft : ¬ ∃ rest c, s = "^" ++ rest ∧ utf8 rest = [c] ∧ controlByte c = some b := by
      rintro ⟨rest, c, rfl, -⟩
      rw [Text.stripPrefix_append] at hrest
      cases hrest
    have hne : utf8 s ≠ [0x5e] := by
      intro h
      rw [← hcaret, utf8_inj] at h
      rw [h, show Text.stripPrefix "^" "^" = some "" from by decide] at hrest
      cases hrest
    rw [or_iff_right hleft]
    rcases hs : utf8 s with _ | ⟨c, _ | ⟨d, more⟩⟩
    · simp
    · simp only [Except.ok.injEq, Option.some.injEq, List.cons.injEq, and_true]
      constructor
      · rintro rfl
        exact ⟨rfl, fun hc => hne (by rw [hs, hc])⟩
      · exact fun h => h.1
    · simp

theorem parseEscapeChar_eq_none_iff {spec : String} :
    parseEscapeChar printable spec = .ok none ↔ toAsciiLowercase (trim spec) = "none" := by
  unfold parseEscapeChar
  dsimp only
  split_ifs with hnone hempty
  · simp [hnone]
  · simp [hnone]
  · refine iff_of_false ?_ hnone
    intro h
    split at h
    · split at h
      · split at h <;> cases h
      · cases h
    · split at h <;> cases h

/-- The white space that is one byte of ASCII is no value. -/
theorem utf8_trim_ne {spec : String} {b : UInt8} (hb : b = 0x20 ∨ b = newline) :
    utf8 (trim spec) ≠ [b] := by
  have hspace : utf8 (.singleton ' ') = [0x20] ∧ utf8 (.singleton '\n') = [newline] := by decide
  intro h
  rcases hb with rfl | rfl
  · rw [← hspace.1, utf8_inj] at h
    exact trim_ne_of_isWhitespace spec (by decide) h
  · rw [← hspace.2, utf8_inj] at h
    exact trim_ne_of_isWhitespace spec (by decide) h

/-- A newline is chosen as a control character only. -/
theorem parseEscapeChar_eq_newline_iff {spec : String} :
    parseEscapeChar printable spec = .ok (some newline) ↔ trim spec = "^j" ∨ trim spec = "^J" := by
  have hletters : utf8 "j" = [0x6a] ∧ utf8 "J" = [0x4a] := by decide
  rw [parseEscapeChar_eq_some_iff, or_iff_left (fun h => utf8_trim_ne (.inr rfl) h.1)]
  constructor
  · rintro ⟨rest, c, hspec, hrest, hc⟩
    rcases controlByte_eq_newline_iff.mp hc with rfl | rfl
    · rw [← hletters.1, utf8_inj] at hrest
      exact .inl (hspec.trans (by rw [hrest]; rfl))
    · rw [← hletters.2, utf8_inj] at hrest
      exact .inr (hspec.trans (by rw [hrest]; rfl))
  · rintro (h | h)
    · exact ⟨"j", 0x6a, h, hletters.1, by decide⟩
    · exact ⟨"J", 0x4a, h, hletters.2, by decide⟩

/-! ## What can be chosen -/

/-- A value for each byte. -/
def escapeSpec (b : UInt8) : String :=
  if b = 0x5e then "^^"
  else if 1 ≤ b ∧ b ≤ 26 then "^" ++ .singleton (.ofNat (b.toNat + 0x60))
  else .singleton (.ofNat b.toNat)

theorem parse_escapeSpec : ∀ n < 128, n ≠ 32 →
    (parseEscapeChar (fun _ => true) (escapeSpec (.ofNat n))).toOption =
      some (some (.ofNat n)) := by
  decide +kernel

/-- **The bytes that can be chosen** for the escape character are those of ASCII but the space, the
control characters among them. -/
theorem escape_chosen_iff (b : UInt8) :
    (∃ spec, parseEscapeChar printable spec = .ok (some b)) ↔ b < 0x80 ∧ b ≠ 0x20 := by
  constructor
  · rintro ⟨spec, h⟩
    rcases parseEscapeChar_eq_some_iff.mp h with ⟨rest, c, -, -, hc⟩ | ⟨hbyte, -⟩
    · exact controlByte_lt hc
    · exact ⟨(eq_singleton_of_utf8 hbyte).1, fun hb => utf8_trim_ne (.inl hb) hbyte⟩
  · rintro ⟨hlt, hne⟩
    refine ⟨escapeSpec b, ?_⟩
    have hparse := parse_escapeSpec b.toNat (UInt8.lt_iff_toNat_lt.mp hlt)
      fun h => hne (UInt8.toNat_inj.mp h)
    rw [UInt8.ofNat_toNat] at hparse
    -- what is said of a wrong value makes no difference to the others
    suffices h : parseEscapeChar (fun _ => true) (escapeSpec b) = .ok (some b) from
      parseEscapeChar_eq_some_iff.mpr (parseEscapeChar_eq_some_iff.mp h)
    cases hspec : parseEscapeChar (fun _ => true) (escapeSpec b) with
    | error e =>
      rw [hspec] at hparse
      cases hparse
    | ok v =>
      rw [hspec] at hparse
      exact congrArg Except.ok (Option.some.inj hparse)

/-! ## What is done with it -/

/-- The pump takes nothing for an escape sequence. -/
def Transparent (escapeChar : Option UInt8) : Prop :=
  ∀ reads stream, Splits reads stream → sentToChannel (escapePump escapeChar reads) = stream ∧
    escapeActions (escapePump escapeChar reads) = []

theorem transparent_iff (escapeChar : Option UInt8) :
    Transparent escapeChar ↔ escapeChar = none ∨ escapeChar = some newline := by
  constructor
  · intro h
    rcases escapeChar with _ | esc
    · exact .inl rfl
    · refine .inr (congrArg some ?_)
      by_contra hesc
      have hsplits : Splits [[esc, 0x2e]] [esc, 0x2e] :=
        ⟨rfl, by rintro buf hbuf; rw [List.mem_singleton.mp hbuf]; simp⟩
      obtain ⟨op, hop, haction⟩ := exists_action_mem_scan hesc (.inl rfl) 0
      have hmem : (0, op) ∈ escapePump (some esc) [[esc, 0x2e]] :=
        mem_run_of_mem_firstPass (List.cons_ne_nil esc [0x2e]) hop []
      have hnone := (h _ _ hsplits).2
      rw [escapeActions, List.filter_eq_nil_iff] at hnone
      exact hnone _ hmem haction
  · rintro (rfl | rfl) reads stream hsplits
    · exact escapePump_of_not_hasEscape (fun _ h => by cases h) hsplits
    · refine escapePump_of_not_hasEscape ?_ hsplits
      rintro _ ⟨⟩ ⟨hne, -⟩
      exact hne rfl

/-- **The sessions without escape sequences**: whatever is typed, in whatever reads it comes, a
session forwards it all and does nothing of its own, exactly for `none` in any case and for the
newline, which `-e ^j` chooses. A value that is wrong does not disable the escape character. -/
theorem escape_disabled_iff (escapeChar : Option String) :
    Transparent (effectiveEscapeChar printable escapeChar) ↔
      ∃ spec, escapeChar = some spec ∧
        (toAsciiLowercase (trim spec) = "none" ∨ trim spec = "^j" ∨ trim spec = "^J") := by
  rw [transparent_iff]
  unfold effectiveEscapeChar
  have htilde : ¬ (some (0x7e : UInt8) = none ∨ some (0x7e : UInt8) = some newline) := by decide
  rcases escapeChar with _ | spec
  · exact iff_of_false htilde (by simp)
  have hspec : (∃ spec', some spec = some spec' ∧
      (toAsciiLowercase (trim spec') = "none" ∨ trim spec' = "^j" ∨ trim spec' = "^J")) ↔
      parseEscapeChar printable spec = .ok none ∨
        parseEscapeChar printable spec = .ok (some newline) := by
    rw [parseEscapeChar_eq_none_iff, parseEscapeChar_eq_newline_iff]
    simp
  rw [hspec]
  dsimp only
  cases parseEscapeChar printable spec with
  | error e => exact iff_of_false htilde (by simp)
  | ok v => simp

end Values

end Passhrs
