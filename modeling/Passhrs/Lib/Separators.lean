import Passhrs.Lib.Text

/-!
# Separators

Text cut at a character: at its first occurrence, at its last one, or behind a run of it at the
front. Each cut is read in both directions, so that a parser built from them accepts what the
pieces put together give, and nothing else.

* **`splitOnce_eq_some_iff`**, **`rsplitOnce_eq_some_iff`**: the cut is the one whose outer part is
  free of the separator.
* **`trim_pad`**: trimming takes back the white space that was put around a text.
-/

namespace Text

/-! ## The first and the last separator -/

/-- `str::split_once`, for one character. -/
def splitOnce (c : Char) (s : String) : Option (String × String) :=
  match s.toList.dropWhile (· ≠ c) with
  | [] => none
  | _ :: rest => some (.ofList (s.toList.takeWhile (· ≠ c)), .ofList rest)

/-- `str::rsplit_once`, for one character. -/
def rsplitOnce (c : Char) (s : String) : Option (String × String) :=
  match s.toList.reverse.dropWhile (· ≠ c) with
  | [] => none
  | _ :: front =>
    some (.ofList front.reverse, .ofList (s.toList.reverse.takeWhile (· ≠ c)).reverse)

/-- `split(c).next()`. -/
def firstField (c : Char) (s : String) : String := .ofList (s.toList.takeWhile (· ≠ c))

example : splitOnce ':' "a:b:c" = some ("a", "b:c") ∧
    rsplitOnce ':' "a:b:c" = some ("a:b", "c") := by decide

theorem splitn_two (c : Char) (s : String) :
    splitn 2 c s = match splitOnce c s with
      | some (front, rest) => [front, rest]
      | none => [s] := by
  rw [splitn, splitChars, splitOnce]
  rcases s.toList.dropWhile (· ≠ c) with _ | ⟨_, rest⟩
  · rw [List.map_singleton, String.ofList_toList]
  · rfl

theorem rsplitn_two (c : Char) (s : String) :
    rsplitn 2 c s = match rsplitOnce c s with
      | some (front, rest) => [rest, front]
      | none => [s] := by
  rw [rsplitn, splitChars, rsplitOnce]
  rcases s.toList.reverse.dropWhile (· ≠ c) with _ | ⟨_, front⟩
  · rw [List.map_singleton, List.reverse_reverse, String.ofList_toList]
  · rfl

variable {c : Char} {s front rest : String}

theorem splitOnce_append (h : c ∉ front.toList) (rest : String) :
    splitOnce c (front ++ .singleton c ++ rest) = some (front, rest) := by
  have hfront : ∀ d ∈ front.toList, decide (d ≠ c) = true := fun d hd =>
    decide_eq_true (ne_of_mem_of_not_mem hd h)
  have hlist : (front ++ .singleton c ++ rest).toList = front.toList ++ c :: rest.toList := by
    simp
  rw [splitOnce, hlist, List.dropWhile_append_of_pos hfront, List.dropWhile_cons_of_neg (by simp),
    List.takeWhile_append_of_pos hfront, List.takeWhile_cons_of_neg (by simp), List.append_nil]
  dsimp only
  rw [String.ofList_toList, String.ofList_toList]

theorem rsplitOnce_append (front : String) (h : c ∉ rest.toList) :
    rsplitOnce c (front ++ .singleton c ++ rest) = some (front, rest) := by
  have hrest : ∀ d ∈ rest.toList.reverse, decide (d ≠ c) = true := fun d hd =>
    decide_eq_true (ne_of_mem_of_not_mem (List.mem_reverse.mp hd) h)
  have hlist : (front ++ .singleton c ++ rest).toList.reverse =
      rest.toList.reverse ++ c :: front.toList.reverse := by
    simp
  rw [rsplitOnce, hlist, List.dropWhile_append_of_pos hrest, List.dropWhile_cons_of_neg (by simp),
    List.takeWhile_append_of_pos hrest, List.takeWhile_cons_of_neg (by simp), List.append_nil]
  dsimp only
  rw [List.reverse_reverse, List.reverse_reverse, String.ofList_toList, String.ofList_toList]

theorem splitOnce_of_notMem (h : c ∉ s.toList) : splitOnce c s = none := by
  have hnil : s.toList.dropWhile (· ≠ c) = [] :=
    List.dropWhile_eq_nil_iff.mpr fun d hd => decide_eq_true (ne_of_mem_of_not_mem hd h)
  rw [splitOnce, hnil]

theorem rsplitOnce_of_notMem (h : c ∉ s.toList) : rsplitOnce c s = none := by
  have hnil : s.toList.reverse.dropWhile (· ≠ c) = [] :=
    List.dropWhile_eq_nil_iff.mpr fun d hd =>
      decide_eq_true (ne_of_mem_of_not_mem (List.mem_reverse.mp hd) h)
  rw [rsplitOnce, hnil]

/-- Text with a separator in it, cut at the first one. -/
theorem exists_first (h : c ∈ s.toList) :
    ∃ front rest : String, s = front ++ .singleton c ++ rest ∧ c ∉ front.toList := by
  obtain ⟨front, rest, heq, hfront⟩ := List.eq_append_cons_of_mem h
  refine ⟨.ofList front, .ofList rest, String.toList_injective ?_, by simpa⟩
  rw [heq]
  simp

theorem splitOnce_eq_some_iff :
    splitOnce c s = some (front, rest) ↔ s = front ++ .singleton c ++ rest ∧ c ∉ front.toList := by
  constructor
  · intro hsplit
    by_cases hmem : c ∈ s.toList
    · obtain ⟨front', rest', rfl, hfront⟩ := exists_first hmem
      rw [splitOnce_append hfront] at hsplit
      obtain ⟨rfl, rfl⟩ := Prod.mk.inj (Option.some.inj hsplit)
      exact ⟨rfl, hfront⟩
    · rw [splitOnce_of_notMem hmem] at hsplit
      cases hsplit
  · rintro ⟨rfl, hfront⟩
    exact splitOnce_append hfront rest

theorem rsplitOnce_eq_some_iff :
    rsplitOnce c s = some (front, rest) ↔ s = front ++ .singleton c ++ rest ∧ c ∉ rest.toList := by
  constructor
  · intro hsplit
    by_cases hmem : c ∈ s.toList
    · obtain ⟨front', rest', rfl, hrest⟩ := exists_last hmem
      rw [rsplitOnce_append front' hrest] at hsplit
      obtain ⟨rfl, rfl⟩ := Prod.mk.inj (Option.some.inj hsplit)
      exact ⟨rfl, hrest⟩
    · rw [rsplitOnce_of_notMem hmem] at hsplit
      cases hsplit
  · rintro ⟨rfl, hrest⟩
    exact rsplitOnce_append front hrest

theorem rsplitOnce_eq_none_iff : rsplitOnce c s = none ↔ c ∉ s.toList := by
  refine ⟨fun hsplit hmem => ?_, rsplitOnce_of_notMem⟩
  obtain ⟨front, rest, rfl, hrest⟩ := exists_last hmem
  rw [rsplitOnce_append front hrest] at hsplit
  cases hsplit

theorem firstField_append (h : c ∉ front.toList) (rest : String) :
    firstField c (front ++ .singleton c ++ rest) = front := by
  have hfront : ∀ d ∈ front.toList, decide (d ≠ c) = true := fun d hd =>
    decide_eq_true (ne_of_mem_of_not_mem hd h)
  have hlist : (front ++ .singleton c ++ rest).toList = front.toList ++ c :: rest.toList := by
    simp
  rw [firstField, hlist, List.takeWhile_append_of_pos hfront,
    List.takeWhile_cons_of_neg (by simp), List.append_nil, String.ofList_toList]

/-- A text is cut at its first separator in one way. -/
theorem append_singleton_inj {front' rest' : String} (h : c ∉ front.toList)
    (h' : c ∉ front'.toList)
    (heq : front ++ .singleton c ++ rest = front' ++ .singleton c ++ rest') :
    front = front' ∧ rest = rest' := by
  have hsplit := splitOnce_append h rest
  rw [heq, splitOnce_append h'] at hsplit
  obtain ⟨hfront, hrest⟩ := Prod.mk.inj (Option.some.inj hsplit)
  exact ⟨hfront.symm, hrest.symm⟩

/-- A text is cut at its last separator in one way. -/
theorem append_singleton_inj_last {front' rest' : String} (h : c ∉ rest.toList)
    (h' : c ∉ rest'.toList)
    (heq : front ++ .singleton c ++ rest = front' ++ .singleton c ++ rest') :
    front = front' ∧ rest = rest' := by
  have hsplit := rsplitOnce_append front h
  rw [heq, rsplitOnce_append front' h'] at hsplit
  obtain ⟨hfront, hrest⟩ := Prod.mk.inj (Option.some.inj hsplit)
  exact ⟨hfront.symm, hrest.symm⟩

/-! ## Prefixes -/

/-- Text without a character does not begin with it, whatever stands behind it. -/
theorem head?_append_ne (hne : front.toList ≠ []) (h : c ∉ front.toList) (rest : String) :
    (front ++ rest).toList.head? ≠ some c := by
  rw [String.toList_append, List.head?_append_of_ne_nil _ hne]
  exact fun hhead => h (List.mem_of_mem_head? hhead)

theorem head?_ne_of_append (h : (front ++ rest).toList.head? ≠ some c) :
    front.toList.head? ≠ some c := by
  intro hhead
  rw [String.toList_append, List.head?_append, hhead] at h
  exact h rfl

theorem stripPrefix_eq_some_iff {pre t : String} : stripPrefix pre s = some t ↔ s = pre ++ t := by
  constructor
  · intro h
    unfold stripPrefix at h
    split at h
    · next hpre =>
      obtain ⟨rest, hrest⟩ := hpre
      obtain rfl := Option.some.inj h
      apply String.toList_injective
      rw [String.toList_append, String.toList_ofList, ← hrest, List.drop_left]
    · cases h
  · rintro rfl
    exact stripPrefix_append pre t

theorem stripPrefix_singleton_eq_none_iff :
    stripPrefix (.singleton c) s = none ↔ s.toList.head? ≠ some c := by
  rw [stripPrefix, ite_eq_right_iff]
  constructor
  · intro h hhead
    obtain ⟨rest, hrest⟩ := List.head?_eq_some_iff.mp hhead
    cases h ⟨rest, by rw [hrest]; simp⟩
  · rintro h ⟨rest, hrest⟩
    refine absurd ?_ h
    rw [← hrest]
    simp

/-! ## Runs of a character -/

/-- `k` times the same character. -/
def copies (k : Nat) (c : Char) : String := .ofList (List.replicate k c)

@[simp] theorem toList_copies (k : Nat) (c : Char) : (copies k c).toList = List.replicate k c :=
  String.toList_ofList

theorem copies_one (c : Char) : copies 1 c = .singleton c := by
  apply String.toList_injective
  simp

theorem trimStartMatches_copies (h : rest.toList.head? ≠ some c) (k : Nat) :
    trimStartMatches c (copies k c ++ rest) = rest := by
  rw [trimStartMatches, String.toList_append, toList_copies,
    List.dropWhile_append_of_pos fun d hd => beq_iff_eq.mpr (List.eq_of_mem_replicate hd)]
  rcases hrest : rest.toList with _ | ⟨d, l⟩
  · exact (String.toList_eq_nil_iff.mp hrest).symm
  · rw [hrest] at h
    rw [List.dropWhile_cons_of_neg (by simpa using h), ← hrest, String.ofList_toList]

/-- What is trimmed from the front is a run of the character, and all of it. -/
theorem exists_trimStartMatches (c : Char) (s : String) :
    ∃ k, s = copies k c ++ trimStartMatches c s ∧ (trimStartMatches c s).toList.head? ≠ some c := by
  refine ⟨(s.toList.takeWhile (· == c)).length, String.toList_injective ?_, ?_⟩
  · rw [String.toList_append, toList_copies, trimStartMatches, String.toList_ofList]
    have hrun : s.toList.takeWhile (· == c) =
        List.replicate (s.toList.takeWhile (· == c)).length c :=
      List.eq_replicate_of_mem fun d hd =>
        beq_iff_eq.mp (List.mem_takeWhile_imp (p := (· == c)) hd)
    rw [← hrun, List.takeWhile_append_dropWhile]
  · rw [trimStartMatches, String.toList_ofList]
    intro hhead
    have hnot := List.head?_dropWhile_not (· == c) s.toList
    rw [hhead] at hnot
    simp at hnot

theorem trimStartMatches_singleton (h : rest.toList.head? ≠ some c) :
    trimStartMatches c (.singleton c ++ rest) = rest := by
  rw [← copies_one]
  exact trimStartMatches_copies h 1

theorem trimEndMatches_singleton (h : front.toList.getLast? ≠ some c) :
    trimEndMatches c (front ++ .singleton c) = front := by
  have hself := trimEndMatches_eq_self_iff.mpr h
  rw [trimEndMatches] at hself ⊢
  rw [String.toList_append, String.toList_singleton,
    List.rdropWhile_concat_pos (· == c) _ _ (beq_self_eq_true c), hself]

/-! ## White space around a text -/

/-- Trimming takes back the white space that was put around a text without any at its ends. -/
theorem trim_pad {pad back : String} (hpad : ∀ d ∈ pad.toList, isWhitespace d = true)
    (hhead : ∀ d, s.toList.head? = some d → isWhitespace d = false)
    (hlast : ∀ d, s.toList.getLast? = some d → isWhitespace d = false)
    (hback : ∀ d ∈ back.toList, isWhitespace d = true) : trim (pad ++ s ++ back) = s := by
  have hdrop : trim (pad ++ s ++ back) = trim (s ++ back) := by
    rw [trim, trim, String.append_assoc, String.toList_append,
      List.dropWhile_append_of_pos hpad]
  rw [hdrop, trim_append hhead hlast hback]

theorem trim_eq_self (hhead : ∀ d, s.toList.head? = some d → isWhitespace d = false)
    (hlast : ∀ d, s.toList.getLast? = some d → isWhitespace d = false) : trim s = s := by
  have happend := trim_append (t := "") hhead hlast (by simp)
  rwa [String.append_empty] at happend

end Text
