import Mathlib.Data.List.Basic
import Mathlib.Tactic.Common

/-!
# Two paths in one word

`--push`, `--pull` and `--rsync` take their paths as `left:right`. A left path may begin with a
drive letter, whose colon is not the separator, and only the first three bytes tell that.

* **`parseFileSpec_iff`**: both paths are read back, but for one letter before an absolute path.
-/

namespace Passhrs

/-! ## The reader -/

def normalizeSlashes (s : String) : String :=
  .ofList (s.toList.map fun c => if c = '\\' then '/' else c)

def isSlash (c : Char) : Bool := c = '\\' || c = '/'

/-- The three bytes are characters of their own: all of them are ASCII. -/
def startsWithDriveLetter (s : String) : Bool :=
  match s.toList with
  | letter :: ':' :: slash :: _ => letter.isAlpha && isSlash slash
  | _ => false

/-- Where the separator is, counted in characters. -/
def colonIdx (spec : String) : Option Nat :=
  if startsWithDriveLetter spec then ((spec.toList.drop 3).idxOf? ':').map (3 + ·)
  else spec.toList.idxOf? ':'

def parseFileSpec (spec : String) : Except String (String × String) :=
  match colonIdx spec with
  | none => .error ("invalid file spec: " ++ spec ++ ", expected local:remote")
  | some idx =>
    .ok (normalizeSlashes (.ofList (spec.toList.take idx)),
      normalizeSlashes (.ofList (spec.toList.drop (idx + 1))))

/-! ## What is written -/

/-- A left path: without a colon, or with the one of its drive letter. -/
inductive LeftPath where
  | plain (path : String) (ne_empty : path ≠ "") (colon_notMem : ':' ∉ path.toList)
  | drive (letter slash : Char) (path : String) (isAlpha : letter.isAlpha = true)
      (isSlash : isSlash slash = true) (colon_notMem : ':' ∉ path.toList)

def LeftPath.text : LeftPath → String
  | plain path .. => path
  | drive letter slash path .. => .ofList [letter, ':', slash] ++ path

/-- The word that has both paths in it. -/
def fileSpec (left right : String) : String := left ++ .singleton ':' ++ right

/-- One letter, before a path that begins with a slash. -/
def LooksLikeDrive (left right : String) : Prop :=
  ∃ letter slash, left.toList = [letter] ∧ letter.isAlpha = true ∧
    right.toList.head? = some slash ∧ isSlash slash = true

/-- The separator behind the path is taken for that of a drive letter. -/
def LeftPath.TakenForDrive : LeftPath → String → Prop
  | plain path _ _, right => LooksLikeDrive path right
  | drive .., _ => False

@[simp] theorem toList_fileSpec (left right : String) :
    (fileSpec left right).toList = left.toList ++ ':' :: right.toList := by
  simp [fileSpec]

theorem length_normalizeSlashes (s : String) :
    (normalizeSlashes s).toList.length = s.toList.length := by
  simp [normalizeSlashes]

theorem idxOf?_colon {front : List Char} (h : ':' ∉ front) (back : List Char) :
    (front ++ ':' :: back).idxOf? ':' = some front.length := by
  induction front with
  | nil => rfl
  | cons c front ih =>
    obtain ⟨hc, hfront⟩ := not_or.mp (mt List.mem_cons.mpr h)
    rw [List.cons_append, List.idxOf?_cons, if_neg (by simpa using Ne.symm hc), ih hfront]
    rfl

/-- Where the separator is, the word is cut in two. -/
theorem exists_of_colonIdx {spec : String} {idx : Nat} (h : colonIdx spec = some idx) :
    ∃ left right, spec = fileSpec left right ∧ left.toList.length = idx := by
  have hcolon : spec.toList[idx]? = some ':' := by
    rw [colonIdx] at h
    split_ifs at h
    · obtain ⟨i, hi, rfl⟩ := Option.map_eq_some_iff.mp h
      rw [← List.getElem?_drop]
      obtain ⟨hlt, heq, -⟩ := List.idxOf?_eq_some_iff.mp hi
      rw [List.getElem?_eq_getElem hlt, heq]
    · obtain ⟨hlt, heq, -⟩ := List.idxOf?_eq_some_iff.mp h
      rw [List.getElem?_eq_getElem hlt, heq]
  obtain ⟨hlt, heq⟩ := List.getElem?_eq_some_iff.mp hcolon
  refine ⟨.ofList (spec.toList.take idx), .ofList (spec.toList.drop (idx + 1)), ?_, ?_⟩
  · rw [← String.toList_inj, toList_fileSpec, String.toList_ofList, String.toList_ofList, ← heq,
      ← List.drop_eq_getElem_cons hlt, List.take_append_drop]
  · rw [String.toList_ofList, List.length_take, Nat.min_eq_left (Nat.le_of_lt hlt)]

/-- Both paths are read back when the separator is found behind the left one. -/
theorem parseFileSpec_of_colonIdx {left right : String}
    (h : colonIdx (fileSpec left right) = some left.toList.length) :
    parseFileSpec (fileSpec left right) = .ok (normalizeSlashes left, normalizeSlashes right) := by
  have hdrop : (left.toList ++ ':' :: right.toList).drop (left.toList.length + 1) =
      right.toList := by
    rw [List.drop_append]
    simp
  rw [parseFileSpec, h]
  simp only [toList_fileSpec, List.take_left, hdrop, String.ofList_toList]

/-- What is read is what stands around the separator. -/
theorem parseFileSpec_eq_ok_iff {spec : String} {paths : String × String} :
    parseFileSpec spec = .ok paths ↔
      ∃ left right, spec = fileSpec left right ∧ colonIdx spec = some left.toList.length ∧
        paths = (normalizeSlashes left, normalizeSlashes right) := by
  constructor
  · intro h
    rcases hidx : colonIdx spec with _ | idx
    · rw [parseFileSpec, hidx] at h
      cases h
    · obtain ⟨left, right, rfl, hlength⟩ := exists_of_colonIdx hidx
      rw [parseFileSpec_of_colonIdx (by rw [hidx, hlength])] at h
      exact ⟨left, right, rfl, congrArg some hlength.symm, (Except.ok.inj h).symm⟩
  · rintro ⟨left, right, rfl, hidx, rfl⟩
    exact parseFileSpec_of_colonIdx hidx

/-! ## Drive letters -/

theorem startsWithDriveLetter_fileSpec {left : String} (hne : left ≠ "")
    (hcolon : ':' ∉ left.toList) (right : String) :
    startsWithDriveLetter (fileSpec left right) = true ↔ LooksLikeDrive left right := by
  rw [startsWithDriveLetter, toList_fileSpec, LooksLikeDrive]
  -- only one letter lets the separator be the second character
  rcases hleft : left.toList with _ | ⟨letter, _ | ⟨c, rest⟩⟩
  · exact absurd (String.toList_eq_nil_iff.mp hleft) hne
  · rcases right.toList with _ | ⟨slash, rest⟩
    · simp
    · simp
  · have hc : c ≠ ':' := by
      rintro rfl
      exact hcolon (by simp [hleft])
    constructor
    · intro h
      split at h
      · next heq => exact absurd (List.cons.inj (List.cons.inj heq).2).1 hc
      · cases h
    · rintro ⟨letter', slash, hlist, -⟩
      cases hlist

theorem colonIdx_of_plain {left : String} (hne : left ≠ "") (hcolon : ':' ∉ left.toList)
    {right : String} (h : ¬ LooksLikeDrive left right) :
    colonIdx (fileSpec left right) = some left.toList.length := by
  rw [colonIdx, if_neg (mt (startsWithDriveLetter_fileSpec hne hcolon right).mp h),
    toList_fileSpec, idxOf?_colon hcolon]

theorem colonIdx_of_drive {letter slash : Char} {path : String} (hletter : letter.isAlpha = true)
    (hslash : isSlash slash = true) (hcolon : ':' ∉ path.toList) (right : String) :
    colonIdx (fileSpec (.ofList [letter, ':', slash] ++ path) right) =
      some (String.ofList [letter, ':', slash] ++ path).toList.length := by
  have hspec : (fileSpec (.ofList [letter, ':', slash] ++ path) right).toList =
      letter :: ':' :: slash :: (path.toList ++ ':' :: right.toList) := by
    simp
  have hdrive : startsWithDriveLetter
      (fileSpec (.ofList [letter, ':', slash] ++ path) right) = true := by
    rw [startsWithDriveLetter, hspec]
    simp [hletter, hslash]
  rw [colonIdx, if_pos hdrive, hspec, List.drop_succ_cons, List.drop_succ_cons,
    List.drop_succ_cons, List.drop_zero, idxOf?_colon hcolon, Option.map_some, String.toList_append,
    String.toList_ofList, List.length_append]
  rfl

/-- Read as a drive letter, the one letter is not all that is left of the separator. -/
theorem parseFileSpec_of_looksLikeDrive {left right : String} (h : LooksLikeDrive left right) :
    parseFileSpec (fileSpec left right) ≠
      .ok (normalizeSlashes left, normalizeSlashes right) := by
  intro hparse
  obtain ⟨letter, slash, hleft, hletter, hright, hslash⟩ := h
  obtain ⟨rest, hrest⟩ := List.head?_eq_some_iff.mp hright
  have hdrive : startsWithDriveLetter (fileSpec left right) = true := by
    rw [startsWithDriveLetter, toList_fileSpec, hleft, hrest]
    simp [hletter, hslash]
  obtain ⟨left', right', -, hidx, hpaths⟩ := parseFileSpec_eq_ok_iff.mp hparse
  have hlength : left'.toList.length = 1 := by
    rw [← length_normalizeSlashes, ← (Prod.mk.inj hpaths).1, length_normalizeSlashes, hleft]
    rfl
  -- Behind a drive letter the separator is not looked for before the fourth character.
  rw [colonIdx, if_pos hdrive, hlength] at hidx
  obtain ⟨i, -, hi⟩ := Option.map_eq_some_iff.mp hidx
  omega

/-- **Reading the two paths back**: for a left path with no colon but that of its drive letter and
any right path, `parseFileSpec` returns both if and only if the left one is not a letter in front of
an absolute right path. -/
theorem parseFileSpec_iff (left : LeftPath) (right : String) :
    parseFileSpec (fileSpec left.text right) =
        .ok (normalizeSlashes left.text, normalizeSlashes right) ↔
      ¬ left.TakenForDrive right := by
  cases left with
  | plain path ne_empty colon_notMem =>
    constructor
    · exact fun hparse hdrive => parseFileSpec_of_looksLikeDrive hdrive hparse
    · exact fun h => parseFileSpec_of_colonIdx (colonIdx_of_plain ne_empty colon_notMem h)
  | drive letter slash path isAlpha isSlash colon_notMem =>
    refine iff_of_true ?_ id
    exact parseFileSpec_of_colonIdx (colonIdx_of_drive isAlpha isSlash colon_notMem right)

/-- A file with the name `a`, to be pushed to `/x`. -/
theorem letter_file_rejected :
    "a" ≠ "" ∧ ':' ∉ "a".toList ∧
      parseFileSpec "a:/x" = .error "invalid file spec: a:/x, expected local:remote" ∧
      parseFileSpec (fileSpec "a" "/x") ≠ .ok (normalizeSlashes "a", normalizeSlashes "/x") :=
  ⟨by decide, by decide, by decide +kernel, by decide +kernel⟩

/-- A colon further on is taken for the separator. -/
example : parseFileSpec (fileSpec "a" "/x:y") = .ok ("a:/x", "y") := by decide +kernel

end Passhrs
