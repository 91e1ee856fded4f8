import Mathlib.Data.List.DropRight
import Passhrs.Lib.Bytes

/-!
# Text

Strings the way Rust's standard library looks at them: their UTF-8 bytes, white space and
trimming.

* **`ofUtf8_utf8`**, **`utf8_of_ofUtf8`**: text and its bytes determine each other.
* **`fromUtf8Lossy_utf8`**: lossy decoding loses nothing of what is UTF-8.
* **`parseU32_repr`**: a number is read back from its digits.
-/

namespace Text

/-! ## UTF-8 -/

/-- `str::as_bytes`. -/
def utf8 (s : String) : Bytes := s.toList.flatMap String.utf8EncodeChar

/-- `String::from_utf8`. -/
def ofUtf8 (bytes : Bytes) : Option String := String.fromUTF8? bytes.toByteArray

theorem toByteArray_utf8 (s : String) : (utf8 s).toByteArray = s.toByteArray := by
  obtain ⟨l, rfl⟩ := s.exists_eq_ofList
  rw [String.toByteArray_ofList, utf8, String.toList_ofList]
  rfl

theorem ofUtf8_utf8 (s : String) : ofUtf8 (utf8 s) = some s := by
  unfold ofUtf8 String.fromUTF8?
  rw [dif_pos (by rw [toByteArray_utf8]; exact s.isValidUTF8)]
  rw [Option.some_inj, ← String.toByteArray_inj]
  exact toByteArray_utf8 s

theorem utf8_of_ofUtf8 {bytes : Bytes} {s : String} (h : ofUtf8 bytes = some s) :
    utf8 s = bytes := by
  unfold ofUtf8 String.fromUTF8? at h
  split at h
  · next hvalid =>
    obtain rfl := Option.some.inj h
    have harray : (utf8 (.fromUTF8 _ hvalid)).toByteArray = bytes.toByteArray :=
      toByteArray_utf8 _
    rw [← List.toList_data_toByteArray (l := utf8 _), harray, List.toList_data_toByteArray]
  · cases h

theorem utf8_inj {s t : String} : utf8 s = utf8 t ↔ s = t := by
  constructor
  · intro h
    have heq := ofUtf8_utf8 s
    rw [h, ofUtf8_utf8] at heq
    exact (Option.some.inj heq).symm
  · rintro rfl
    rfl

theorem utf8_append (s t : String) : utf8 (s ++ t) = utf8 s ++ utf8 t := by
  unfold utf8
  rw [String.toList_append, List.flatMap_append]

theorem length_utf8_le (s : String) : (utf8 s).length ≤ 4 * s.toList.length := by
  have hchars : ∀ l : List Char, (l.flatMap String.utf8EncodeChar).length ≤ 4 * l.length := by
    intro l
    induction l with
    | nil => exact Nat.le_refl _
    | cons c l ih =>
      have hc := c.utf8Size_le_four
      rw [List.flatMap_cons, List.length_append, String.length_utf8EncodeChar, List.length_cons]
      omega
  exact hchars s.toList

theorem length_le_flatMap {α β : Type} {f : α → List β} (hf : ∀ a, f a ≠ []) (l : List α) :
    l.length ≤ (l.flatMap f).length := by
  induction l with
  | nil => exact Nat.le_refl 0
  | cons a l ih =>
    have hpos := List.length_pos_iff.mpr (hf a)
    rw [List.flatMap_cons, List.length_append, List.length_cons]
    omega

/-! ## Lossy decoding -/

/-- How many of the bytes from `b` on one replacement character stands for, where they begin no
character: those that could begin one, and at least `b` itself. -/
def invalidLength (b : UInt8) (rest : Bytes) : Nat :=
  let isTail (c : UInt8) : Bool := 0x80 ≤ c && c ≤ 0xbf
  let low : UInt8 := if b = 0xe0 then 0xa0 else if b = 0xf0 then 0x90 else 0x80
  let high : UInt8 := if b = 0xed then 0x9f else if b = 0xf4 then 0x8f else 0xbf
  let second := rest.getD 0 0
  if 0xe0 ≤ b && b ≤ 0xf4 && low ≤ second && second ≤ high then
    if 0xf0 ≤ b && isTail (rest.getD 1 0) then 3 else 2
  else 1

/-- The characters behind the first `skip` bytes, which belong to the one before. -/
def lossyChars (skip : Nat) : Bytes → List Char
  | [] => []
  | b :: rest =>
    match skip with
    | skip + 1 => lossyChars skip rest
    | 0 =>
      match (b :: rest).toByteArray.utf8DecodeChar? 0 with
      | some c => c :: lossyChars (c.utf8Size - 1) rest
      | none => '\uFFFD' :: lossyChars (invalidLength b rest - 1) rest

/-- `String::from_utf8_lossy`. -/
def fromUtf8Lossy (bytes : Bytes) : String := .ofList (lossyChars 0 bytes)

example : fromUtf8Lossy [0x6f, 0xe2, 0x82, 0xff, 0xc0, 0x6b] = "o\uFFFD\uFFFD\uFFFDk" := by
  decide +kernel

theorem lossyChars_append (front rest : Bytes) :
    lossyChars front.length (front ++ rest) = lossyChars 0 rest := by
  induction front with
  | nil => rfl
  | cons b front ih => exact ih

/-- A character whose bytes come first is decoded. -/
theorem lossyChars_utf8EncodeChar (c : Char) (rest : Bytes) :
    lossyChars 0 (String.utf8EncodeChar c ++ rest) = c :: lossyChars 0 rest := by
  obtain ⟨b, tail, hbytes⟩ := List.exists_cons_of_ne_nil (String.utf8EncodeChar_ne_nil (c := c))
  have hdecode : (b :: (tail ++ rest)).toByteArray.utf8DecodeChar? 0 = some c := by
    rw [← List.cons_append, ← hbytes, List.toByteArray_append]
    exact ByteArray.utf8DecodeChar?_utf8EncodeChar_append
  have hsize : c.utf8Size - 1 = tail.length := by
    rw [← String.length_utf8EncodeChar, hbytes, List.length_cons, Nat.add_sub_cancel]
  rw [hbytes, List.cons_append, lossyChars, hdecode]
  dsimp only
  rw [hsize, lossyChars_append]

theorem fromUtf8Lossy_ne_empty {bytes : Bytes} (h : bytes ≠ []) : fromUtf8Lossy bytes ≠ "" := by
  obtain ⟨b, rest, rfl⟩ := List.exists_cons_of_ne_nil h
  have hne : lossyChars 0 (b :: rest) ≠ [] := by
    rw [lossyChars]
    split <;> exact List.cons_ne_nil _ _
  rw [fromUtf8Lossy, ne_eq, ← String.toList_inj, String.toList_ofList]
  exact hne

theorem fromUtf8Lossy_append (s : String) (rest : Bytes) :
    fromUtf8Lossy (utf8 s ++ rest) = s ++ fromUtf8Lossy rest := by
  have hchars : ∀ l : List Char, lossyChars 0 (l.flatMap String.utf8EncodeChar ++ rest) =
      l ++ lossyChars 0 rest := by
    intro l
    induction l with
    | nil => rfl
    | cons c l ih =>
      rw [List.flatMap_cons, List.append_assoc, lossyChars_utf8EncodeChar, ih, List.cons_append]
  rw [fromUtf8Lossy, utf8, hchars, String.ofList_append, String.ofList_toList, fromUtf8Lossy]

theorem fromUtf8Lossy_utf8 (s : String) : fromUtf8Lossy (utf8 s) = s := by
  have happend := fromUtf8Lossy_append s []
  rwa [List.append_nil, show fromUtf8Lossy [] = "" from rfl, String.append_empty] at happend

/-- A character outside ASCII is encoded without a byte of ASCII. -/
theorem high_of_mem_utf8EncodeChar {c : Char} (hc : 128 ≤ c.toNat) {b : UInt8}
    (hb : b ∈ String.utf8EncodeChar c) : 128 ≤ b.toNat := by
  have hv : ¬ c.val.toNat ≤ 0x7f := by
    have : c.toNat = c.val.toNat := rfl
    omega
  unfold String.utf8EncodeChar at hb
  dsimp only at hb
  rw [if_neg hv] at hb
  split_ifs at hb <;> simp only [List.mem_cons, List.not_mem_nil, or_false] at hb <;>
    rcases hb with rfl | rfl | rfl | rfl <;> simp only [UInt8.toNat_ofNat'] <;> omega

theorem utf8EncodeChar_of_lt {c : Char} (hc : c.toNat < 128) :
    String.utf8EncodeChar c = [UInt8.ofNat c.toNat] := by
  have hv : c.val.toNat ≤ 0x7f := Nat.le_of_lt_succ hc
  unfold String.utf8EncodeChar
  dsimp only
  rw [if_pos hv]
  rfl

/-- From bytes outside ASCII no character of ASCII is decoded. -/
theorem high_of_mem_lossyChars {bytes : Bytes} (hbytes : ∀ b ∈ bytes, 128 ≤ b.toNat) (skip : Nat)
    {c : Char} (hc : c ∈ lossyChars skip bytes) : 128 ≤ c.toNat := by
  induction bytes generalizing skip with
  | nil => cases hc
  | cons b rest ih =>
    have hrest := ih fun b' hb' => hbytes b' (List.mem_cons_of_mem b hb')
    rcases skip with _ | skip
    · rw [lossyChars] at hc
      split at hc
      · next d hdecode =>
        rcases List.mem_cons.mp hc with rfl | hc
        -- an ASCII character is encoded as itself, and that byte is not here
        · by_contra hlow
          obtain ⟨l, hl⟩ := ByteArray.exists_of_utf8DecodeChar?_eq_some hdecode
          rw [utf8EncodeChar_of_lt (by omega)] at hl
          have hlist := congrArg (fun bytes => bytes.data.toList) hl
          rw [List.toList_data_toByteArray, ByteArray.data_append, Array.toList_append,
            List.toList_data_toByteArray] at hlist
          have hb := hbytes b List.mem_cons_self
          rw [(List.cons.inj hlist).1, UInt8.toNat_ofNat'] at hb
          omega
        · exact hrest _ hc
      · rcases List.mem_cons.mp hc with rfl | hc
        · decide
        · exact hrest _ hc
    · exact hrest _ hc

theorem high_of_mem_fromUtf8Lossy {bytes : Bytes} (hbytes : ∀ b ∈ bytes, 128 ≤ b.toNat) {c : Char}
    (hc : c ∈ (fromUtf8Lossy bytes).toList) : 128 ≤ c.toNat := by
  rw [fromUtf8Lossy, String.toList_ofList] at hc
  exact high_of_mem_lossyChars hbytes 0 hc

/-- A cut through the bytes of a text leaves the characters in front of the cut, and what is left of
the one that it goes through. -/
theorem exists_of_isPrefix_utf8 {bytes : Bytes} {s : String} (h : bytes <+: utf8 s) :
    ∃ front : String, ∃ rest : Bytes, bytes = utf8 front ++ rest ∧ front.toList <+: s.toList ∧
      ∀ b ∈ rest, 128 ≤ b.toNat := by
  have hchars : ∀ (l : List Char) (bytes : Bytes), bytes <+: l.flatMap String.utf8EncodeChar →
      ∃ (front : List Char) (rest : Bytes), bytes = front.flatMap String.utf8EncodeChar ++ rest ∧
        front <+: l ∧ ∀ b ∈ rest, 128 ≤ b.toNat := by
    intro l
    induction l with
    | nil =>
      intro bytes h
      exact ⟨[], [], List.prefix_nil.mp h, List.nil_prefix, by simp⟩
    | cons c l ih =>
      intro bytes h
      rw [List.flatMap_cons] at h
      rcases List.prefix_or_prefix_of_prefix h (List.prefix_append _ _) with hshort | ⟨more, rfl⟩
      -- the prefix ends inside this character, whose bytes are all high if there are several
      · rcases Nat.lt_or_ge c.toNat 128 with hlow | hhigh
        · rw [utf8EncodeChar_of_lt hlow] at hshort
          rcases List.prefix_cons_iff.mp hshort with rfl | ⟨t, rfl, ht⟩
          · exact ⟨[], [], rfl, List.nil_prefix, by simp⟩
          · rw [List.prefix_nil.mp ht]
            exact ⟨[c], [], by simp [utf8EncodeChar_of_lt hlow], by simp, by simp⟩
        · exact ⟨[], bytes, rfl, List.nil_prefix,
            fun b hb => high_of_mem_utf8EncodeChar hhigh (hshort.subset hb)⟩
      · obtain ⟨front, rest, rfl, hfront, hrest⟩ := ih more ((List.prefix_append_right_inj _).mp h)
        exact ⟨c :: front, rest, by simp, List.cons_prefix_cons.mpr ⟨rfl, hfront⟩, hrest⟩
  obtain ⟨front, rest, rfl, hfront, hrest⟩ := hchars s.toList bytes h
  exact ⟨.ofList front, rest, by simp [utf8], by simpa using hfront, hrest⟩

/-! ## Classes of ASCII characters -/

/-- A class of bytes that tells the characters of a class by any of their bytes. -/
def SameClass (p : UInt8 → Bool) (q : Char → Bool) : Prop :=
  ∀ c, ∀ b ∈ String.utf8EncodeChar c, p b = q c

/-- It is enough that the classes agree on ASCII and have nothing else. -/
theorem sameClass_of_ascii {p : UInt8 → Bool} {q : Char → Bool}
    (hlow : ∀ n : Fin 128, p (UInt8.ofNat n) = q (Char.ofNat n))
    (hbytes : ∀ b, p b = true → b.toNat < 128) (hchars : ∀ c, q c = true → c.toNat < 128) :
    SameClass p q := by
  intro c b hb
  rcases Nat.lt_or_ge c.toNat 128 with hc | hc
  · rw [utf8EncodeChar_of_lt hc, List.mem_singleton] at hb
    have hcode := hlow ⟨c.toNat, hc⟩
    rwa [Char.ofNat_toNat, ← hb] at hcode
  · have hp : p b = false := by
      have := high_of_mem_utf8EncodeChar hc hb
      exact Bool.eq_false_iff.mpr fun htrue => absurd (hbytes b htrue) (by omega)
    have hq : q c = false := Bool.eq_false_iff.mpr fun htrue => absurd (hchars c htrue) (by omega)
    rw [hp, hq]

section SameClass

variable {p : UInt8 → Bool} {q : Char → Bool} (h : SameClass p q)
include h

theorem SameClass.exists_lead (c : Char) :
    ∃ b bs, String.utf8EncodeChar c = b :: bs ∧ p b = q c := by
  rcases hbytes : String.utf8EncodeChar c with _ | ⟨b, bs⟩
  · exact absurd hbytes String.utf8EncodeChar_ne_nil
  · exact ⟨b, bs, rfl, h c b (hbytes ▸ List.mem_cons_self)⟩

theorem SameClass.takeWhile_flatMap (l : List Char) :
    (l.flatMap String.utf8EncodeChar).takeWhile p =
      (l.takeWhile q).flatMap String.utf8EncodeChar := by
  induction l with
  | nil => rfl
  | cons c l ih =>
    rw [List.flatMap_cons]
    by_cases hc : q c = true
    · have hall : ∀ b ∈ String.utf8EncodeChar c, p b = true := fun b hb => (h c b hb).trans hc
      rw [List.takeWhile_append_of_pos hall, ih, List.takeWhile_cons_of_pos hc, List.flatMap_cons]
    · obtain ⟨b, bs, heq, hb⟩ := h.exists_lead c
      have hb : ¬ p b = true := by rwa [hb]
      rw [heq, List.cons_append, List.takeWhile_cons_of_neg hb, List.takeWhile_cons_of_neg hc]
      rfl

theorem SameClass.head?_flatMap (l : List Char) :
    (l.flatMap String.utf8EncodeChar).head?.any p = l.head?.any q := by
  cases l with
  | nil => rfl
  | cons c l =>
    obtain ⟨b, bs, heq, hb⟩ := h.exists_lead c
    rw [List.flatMap_cons, heq]
    exact hb

end SameClass

/-! ## White space -/

/-- `char::is_whitespace`: the property `White_Space` of Unicode. -/
def isWhitespace (c : Char) : Bool :=
  let n := c.toNat
  (0x09 ≤ n && n ≤ 0x0d) || n = 0x20 || n = 0x85 || n = 0xa0 || n = 0x1680 ||
    (0x2000 ≤ n && n ≤ 0x200a) || n = 0x2028 || n = 0x2029 || n = 0x202f || n = 0x205f ||
    n = 0x3000

/-- `split_whitespace().next().unwrap_or("")`. -/
def firstWord (s : String) : String :=
  .ofList ((s.toList.dropWhile isWhitespace).takeWhile (!isWhitespace ·))

theorem isWhitespace_of_isDigit {c : Char} (hc : c.isDigit = true) : isWhitespace c = false := by
  obtain ⟨hlow, hhigh⟩ : 0x30 ≤ c.toNat ∧ c.toNat ≤ 0x39 := Char.isDigit_iff_toNat.mp hc
  simp only [isWhitespace, Bool.or_eq_false_iff, Bool.and_eq_false_iff, decide_eq_false_iff_not]
  omega

theorem firstWord_append {s t : String} (ht : ∀ c ∈ t.toList, isWhitespace c = true) :
    firstWord (s ++ t) = firstWord s := by
  have htail : ∀ l : List Char, (l ++ t.toList).takeWhile (!isWhitespace ·)
      = l.takeWhile (!isWhitespace ·) := by
    intro l
    induction l with
    | nil =>
      rw [List.nil_append, List.takeWhile_nil, List.takeWhile_eq_nil_iff]
      intro hpos
      simp [ht _ (List.getElem_mem hpos)]
    | cons c l ih => rw [List.cons_append, List.takeWhile_cons, List.takeWhile_cons, ih]
  have hhead : ∀ l : List Char, ((l ++ t.toList).dropWhile isWhitespace).takeWhile
      (!isWhitespace ·) = (l.dropWhile isWhitespace).takeWhile (!isWhitespace ·) := by
    intro l
    induction l with
    | nil =>
      rw [List.nil_append, List.dropWhile_eq_nil_iff.mpr ht]
      rfl
    | cons c l ih =>
      rw [List.cons_append, List.dropWhile_cons, List.dropWhile_cons]
      split
      · exact ih
      · exact htail (c :: l)
  rw [firstWord, firstWord, String.toList_append, hhead]

/-! ## Trimming -/

/-- `str::trim_end_matches`, for one character. -/
def trimEndMatches (c : Char) (s : String) : String := .ofList (s.toList.rdropWhile (· == c))

theorem trimEndMatches_eq_self_iff {c : Char} {s : String} :
    trimEndMatches c s = s ↔ s.toList.getLast? ≠ some c := by
  have hlist : trimEndMatches c s = s ↔ s.toList.rdropWhile (· == c) = s.toList := by
    rw [← String.toList_inj, trimEndMatches, String.toList_ofList]
  rw [hlist, List.rdropWhile_eq_self_iff]
  constructor
  · intro h hlast
    have hne : s.toList ≠ [] := by
      rintro hnil
      rw [hnil] at hlast
      cases hlast
    rw [List.getLast?_eq_some_getLast hne] at hlast
    exact h hne (beq_iff_eq.mpr (Option.some.inj hlast))
  · intro h hne hc
    exact h (by rw [List.getLast?_eq_some_getLast hne, beq_iff_eq.mp hc])

theorem utf8_trimEndMatches_isPrefix (c : Char) (s : String) :
    utf8 (trimEndMatches c s) <+: utf8 s := by
  obtain ⟨rest, hrest⟩ := List.rdropWhile_prefix (p := (· == c)) (l := s.toList)
  refine ⟨rest.flatMap String.utf8EncodeChar, ?_⟩
  rw [utf8, trimEndMatches, String.toList_ofList, ← List.flatMap_append, hrest, utf8]

/-- What is trimmed is that character, over and over. -/
theorem trimEndMatches_append (c : Char) (s : String) :
    ∃ t : String, s = trimEndMatches c s ++ t ∧ ∀ d ∈ t.toList, d = c := by
  refine ⟨.ofList (s.toList.rtakeWhile (· == c)), ?_, fun d hd => ?_⟩
  · apply String.toList_injective
    rw [String.toList_append, trimEndMatches, String.toList_ofList, String.toList_ofList,
      List.rdropWhile_append_rtakeWhile]
  · rw [String.toList_ofList] at hd
    exact beq_iff_eq.mp (List.mem_rtakeWhile_imp (p := (· == c)) hd)

/-- `str::trim`. -/
def trim (s : String) : String :=
  .ofList ((s.toList.dropWhile isWhitespace).rdropWhile isWhitespace)

/-- `str::trim_start`. -/
def trimStart (s : String) : String := .ofList (s.toList.dropWhile isWhitespace)

/-- `split_once(|c: char| c.is_whitespace())`. -/
def splitOnceWhitespace (s : String) : Option (String × String) :=
  match s.toList.dropWhile (!isWhitespace ·) with
  | [] => none
  | _ :: rest => some (.ofList (s.toList.takeWhile (!isWhitespace ·)), .ofList rest)

/-- `str::to_ascii_lowercase`. -/
def toAsciiLowercase (s : String) : String := .ofList (s.toList.map Char.toLower)

/-- Text without white space at its ends is what is left of it when white space follows. -/
theorem trim_append {s t : String}
    (hhead : ∀ c, s.toList.head? = some c → isWhitespace c = false)
    (hlast : ∀ c, s.toList.getLast? = some c → isWhitespace c = false)
    (ht : ∀ c ∈ t.toList, isWhitespace c = true) : trim (s ++ t) = s := by
  have hdrop : ∀ l : List Char, (∀ c, l.head? = some c → isWhitespace c = false) →
      l.dropWhile isWhitespace = l := by
    intro l hl
    rcases l with _ | ⟨c, l⟩
    · rfl
    · rw [List.dropWhile_cons, hl c rfl, if_neg (by decide)]
  have hfront : (s.toList ++ t.toList).dropWhile isWhitespace = s.toList ++ t.toList ∨
      s.toList = [] := by
    rcases hs : s.toList with _ | ⟨c, l⟩
    · exact .inr rfl
    · refine .inl (hdrop _ fun d hd => hhead d ?_)
      rw [hs]
      exact hd
  rw [trim, String.toList_append]
  rcases hfront with hfront | hempty
  · rw [hfront, List.rdropWhile, List.reverse_append,
      List.dropWhile_append_of_pos fun c hc => ht c (List.mem_reverse.mp hc),
      hdrop _ fun c hc => hlast c (by rw [← List.head?_reverse]; exact hc),
      List.reverse_reverse, String.ofList_toList]
  · rw [hempty, List.nil_append, List.dropWhile_eq_nil_iff.mpr ht]
    exact (String.toList_eq_nil_iff.mp hempty).symm

theorem head?_trim {s : String} {c : Char} (hhead : s.toList.head? = some c)
    (hc : isWhitespace c = false) : (trim s).toList.head? = some c := by
  obtain ⟨l, hl⟩ : ∃ l, s.toList = c :: l := by
    rcases hs : s.toList with _ | ⟨d, l⟩
    · rw [hs] at hhead
      cases hhead
    · rw [hs] at hhead
      exact ⟨l, by rw [Option.some.inj hhead]⟩
  rw [trim, String.toList_ofList, hl, List.dropWhile_cons, hc, if_neg (by decide)]
  -- what is left is a prefix of the whole, and not empty
  have hpre := List.rdropWhile_prefix (p := isWhitespace) (l := c :: l)
  have hne : (c :: l).rdropWhile isWhitespace ≠ [] := fun hnil => by
    have hall := List.rdropWhile_eq_nil_iff.mp hnil c (by simp)
    rw [hc] at hall
    cases hall
  rcases hdrop : (c :: l).rdropWhile isWhitespace with _ | ⟨d, l'⟩
  · exact absurd hdrop hne
  · rw [hdrop] at hpre
    rw [(List.cons_prefix_cons.mp hpre).1]
    rfl

/-- `str::trim_start_matches`, for one character. -/
def trimStartMatches (c : Char) (s : String) : String := .ofList (s.toList.dropWhile (· == c))

/-! ## Debug output -/

/-- A character in `{:?}` of a string. Of the characters beyond ASCII those stand for themselves
that are `printable`, which is up to Unicode. -/
def escapeDebug (printable : Char → Bool) (c : Char) : List Char :=
  if c = '\x00' then ['\\', '0']
  else if c = '\t' then ['\\', 't']
  else if c = '\n' then ['\\', 'n']
  else if c = '\r' then ['\\', 'r']
  else if c = '"' ∨ c = '\\' then ['\\', c]
  else if (if c.toNat < 0x80 then 0x20 ≤ c.toNat && c.toNat < 0x7f else printable c) then [c]
  else "\\u\x7b".toList ++ Nat.toDigits 16 c.toNat ++ ['\x7d']

/-- `{:?}` of a string. -/
def debugStr (printable : Char → Bool) (s : String) : String :=
  .ofList ('"' :: s.toList.flatMap (escapeDebug printable) ++ ['"'])

example : debugStr (fun _ => true) "é\r\x00\x1b" = "\"é\\r\\0\\u\x7b1b\x7d\"" := by decide +kernel

/-! ## Prefixes and numbers -/

/-- `str::strip_prefix`. -/
def stripPrefix (pre s : String) : Option String :=
  if pre.toList <+: s.toList then some (.ofList (s.toList.drop pre.toList.length)) else none

theorem stripPrefix_append (pre s : String) : stripPrefix pre (pre ++ s) = some s := by
  rw [stripPrefix, String.toList_append, if_pos (List.prefix_append _ _), List.drop_left,
    String.ofList_toList]

/-- `str::parse` for an unsigned type with values below `bound`. -/
def parseBelow (bound : Nat) (s : String) : Option Nat :=
  let digits := if s.toList.head? = some '+' then s.toList.tail else s.toList
  let n := Nat.ofDigitChars 10 digits 0
  if digits ≠ [] ∧ digits.all Char.isDigit ∧ n < bound then some n else none

def parseU8 (s : String) : Option UInt8 := (parseBelow (2 ^ 8) s).map UInt8.ofNat
def parseU16 (s : String) : Option UInt16 := (parseBelow (2 ^ 16) s).map UInt16.ofNat
def parseU32 (s : String) : Option UInt32 := (parseBelow (2 ^ 32) s).map UInt32.ofNat

example : parseU32 "+4294967295" = some 4294967295 ∧ parseU32 "4294967296" = none := by decide
example : parseU32 "" = none ∧ parseU32 "+" = none ∧ parseU32 "-1" = none := by decide

theorem parseBelow_eq_none_of_mem {bound : Nat} {s : String} {c : Char} (hc : c ∈ s.toList)
    (hdigit : c.isDigit = false) (hplus : c ≠ '+') : parseBelow bound s = none := by
  unfold parseBelow
  dsimp only
  rw [if_neg]
  rintro ⟨-, hall, -⟩
  have hmem : c ∈ (if s.toList.head? = some '+' then s.toList.tail else s.toList) := by
    split
    · next hhead =>
      obtain ⟨l, hl⟩ := List.head?_eq_some_iff.mp hhead
      rw [hl] at hc ⊢
      exact (List.mem_cons.mp hc).resolve_left hplus
    · exact hc
  rw [List.all_eq_true.mp hall c hmem] at hdigit
  cases hdigit

theorem parseBelow_repr {bound n : Nat} (h : n < bound) :
    parseBelow bound (Nat.repr n) = some n := by
  have hdigits : ∀ c ∈ (Nat.toDigits 10 n), c.isDigit = true := fun c hc =>
    Nat.isDigit_of_mem_toDigits (by decide) (by decide) hc
  have hplus : (Nat.toDigits 10 n).head? ≠ some '+' := by
    intro hhead
    exact absurd (hdigits '+' (List.mem_of_mem_head? hhead)) (by decide)
  unfold parseBelow
  rw [Nat.toList_repr, if_neg hplus]
  dsimp only
  rw [Nat.ofDigitChars_ten_toDigits,
    if_pos ⟨Nat.toDigits_ne_nil, List.all_eq_true.mpr hdigits, h⟩]

theorem parseBelow_repr_eq_none {bound n : Nat} (h : bound ≤ n) :
    parseBelow bound (Nat.repr n) = none := by
  have hplus : (Nat.toDigits 10 n).head? ≠ some '+' := by
    intro hhead
    have hdigit := Nat.isDigit_of_mem_toDigits (by decide) (by decide) (List.mem_of_mem_head? hhead)
    exact absurd hdigit (by decide)
  unfold parseBelow
  rw [Nat.toList_repr, if_neg hplus]
  dsimp only
  rw [Nat.ofDigitChars_ten_toDigits, if_neg fun hparse => Nat.not_lt.mpr h hparse.2.2]

theorem parseU16_repr (n : UInt16) : parseU16 (Nat.repr n.toNat) = some n := by
  rw [parseU16, parseBelow_repr n.toNat_lt, Option.map_some, UInt16.ofNat_toNat]

theorem parseU16_repr_eq_none {n : Nat} (h : 2 ^ 16 ≤ n) : parseU16 (Nat.repr n) = none := by
  rw [parseU16, parseBelow_repr_eq_none h, Option.map_none]

theorem parseU16_eq_none_of_mem {s : String} {c : Char} (hc : c ∈ s.toList)
    (hdigit : c.isDigit = false) (hplus : c ≠ '+') : parseU16 s = none := by
  rw [parseU16, parseBelow_eq_none_of_mem hc hdigit hplus, Option.map_none]

theorem parseU32_repr (n : UInt32) : parseU32 (Nat.repr n.toNat) = some n := by
  rw [parseU32, parseBelow_repr n.toNat_lt, Option.map_some, UInt32.ofNat_toNat]

/-! ## Splitting -/

/-- At most `n` parts, of which the last one is not split. -/
def splitChars (c : Char) : Nat → List Char → List (List Char)
  | 0, _ => []
  | 1, s => [s]
  | n + 2, s =>
    match s.dropWhile (· ≠ c) with
    | [] => [s]
    | _ :: rest => s.takeWhile (· ≠ c) :: splitChars c (n + 1) rest

/-- `str::splitn`. -/
def splitn (n : Nat) (c : Char) (s : String) : List String :=
  (splitChars c n s.toList).map .ofList

/-- `str::rsplitn`: the parts from the end. -/
def rsplitn (n : Nat) (c : Char) (s : String) : List String :=
  (splitChars c n s.toList.reverse).map fun part => .ofList part.reverse

example : splitn 3 ' ' "a b c d" = ["a", "b", "c d"] ∧ rsplitn 2 ':' "::1:80" = ["80", "::1"] := by
  decide

theorem splitChars_of_notMem {c : Char} {s : List Char} (h : c ∉ s) (n : Nat) :
    splitChars c (n + 1) s = [s] := by
  rcases n with _ | n
  · rfl
  · have hall : s.dropWhile (· ≠ c) = [] := by
      rw [List.dropWhile_eq_nil_iff]
      intro d hd
      exact decide_eq_true (ne_of_mem_of_not_mem hd h)
    rw [splitChars, hall]

theorem splitChars_append {c : Char} {part : List Char} (h : c ∉ part) (rest : List Char)
    (n : Nat) : splitChars c (n + 2) (part ++ c :: rest) = part :: splitChars c (n + 1) rest := by
  have hpart : ∀ d ∈ part, decide (d ≠ c) = true := fun d hd =>
    decide_eq_true (ne_of_mem_of_not_mem hd h)
  have hdrop : (part ++ c :: rest).dropWhile (· ≠ c) = c :: rest := by
    rw [List.dropWhile_append_of_pos hpart, List.dropWhile_cons_of_neg (by simp)]
  have htake : (part ++ c :: rest).takeWhile (· ≠ c) = part := by
    rw [List.takeWhile_append_of_pos hpart, List.takeWhile_cons_of_neg (by simp), List.append_nil]
  rw [splitChars, hdrop]
  dsimp only
  rw [htake]

theorem splitn_of_notMem {c : Char} {s : String} (h : c ∉ s.toList) (n : Nat) :
    splitn (n + 1) c s = [s] := by
  rw [splitn, splitChars_of_notMem h, List.map_singleton, String.ofList_toList]

theorem splitn_append {c : Char} {part : String} (h : c ∉ part.toList) (rest : String) (n : Nat) :
    splitn (n + 2) c (part ++ .singleton c ++ rest) = part :: splitn (n + 1) c rest := by
  have hlist : (part ++ .singleton c ++ rest).toList = part.toList ++ c :: rest.toList := by
    simp
  rw [splitn, hlist, splitChars_append h, List.map_cons, String.ofList_toList, splitn]

theorem rsplitn_of_notMem {c : Char} {s : String} (h : c ∉ s.toList) (n : Nat) :
    rsplitn (n + 1) c s = [s] := by
  rw [rsplitn, splitChars_of_notMem (by rwa [List.mem_reverse]), List.map_singleton,
    List.reverse_reverse, String.ofList_toList]

theorem rsplitn_one (c : Char) (s : String) : rsplitn 1 c s = [s] := by
  rw [rsplitn, splitChars, List.map_singleton, List.reverse_reverse, String.ofList_toList]

theorem rsplitn_append {c : Char} {part : String} (h : c ∉ part.toList) (front : String) (n : Nat) :
    rsplitn (n + 2) c (front ++ .singleton c ++ part) = part :: rsplitn (n + 1) c front := by
  have hlist : (front ++ .singleton c ++ part).toList.reverse =
      part.toList.reverse ++ c :: front.toList.reverse := by
    simp
  rw [rsplitn, hlist, splitChars_append (by rwa [List.mem_reverse]), List.map_cons,
    List.reverse_reverse, String.ofList_toList, rsplitn]

/-- Text with a separator in it, cut at the last one. -/
theorem exists_last {c : Char} {s : String} (h : c ∈ s.toList) :
    ∃ front part : String, s = front ++ .singleton c ++ part ∧ c ∉ part.toList := by
  obtain ⟨part, front, heq, hpart⟩ := List.eq_append_cons_of_mem (List.mem_reverse.mpr h)
  refine ⟨.ofList front.reverse, .ofList part.reverse, String.toList_injective ?_, by simpa⟩
  rw [← List.reverse_inj, heq]
  simp

/-- `str::lines().next()`. -/
def firstLine (s : String) : Option String :=
  let line := s.toList.takeWhile (· ≠ '\n')
  if s = "" then none
  else if line.length < s.toList.length ∧ line.getLast? = some '\r' then
    some (.ofList line.dropLast)
  else some (.ofList line)

/-- The lines of what follows `line`, the beginning of the current one. -/
def linesFrom (line : List Char) : List Char → List (List Char)
  | [] => if line = [] then [] else [line]
  | c :: rest =>
    if c = '\n' then
      (if line.getLast? = some '\r' then line.dropLast else line) :: linesFrom [] rest
    else linesFrom (line ++ [c]) rest

/-- `str::lines`. -/
def lines (s : String) : List String := (linesFrom [] s.toList).map .ofList

example : lines "a\r\n\nb\r" = ["a", "", "b\r"] := by decide

end Text
