import Passhrs.Lib.Text

/-!
# Lines written and read again

* **`lines_join`**: what `lines` reads of lines that are written with a newline each. It takes a
  carriage return for a part of the newline.
* **`join_lines_eq_iff`**: a text that is written like this is its lines, unless a carriage return
  stands before a newline.
-/

namespace Text

/-- A line as it is read before a newline. -/
def stripReturn (line : String) : String :=
  if line.toList.getLast? = some '\r' then .ofList line.toList.dropLast else line

theorem stripReturn_append (front : String) : stripReturn (front ++ "\r") = front := by
  have hlast : (front ++ "\r").toList = front.toList ++ ['\r'] := String.toList_append
  rw [stripReturn, hlast, if_pos List.getLast?_concat, List.dropLast_concat, String.ofList_toList]

/-- The line is the same, or it is one carriage return longer. -/
theorem stripReturn_cases (line : String) :
    (stripReturn line = line ∧ line.toList.getLast? ≠ some '\r') ∨
      line = stripReturn line ++ "\r" := by
  by_cases hlast : line.toList.getLast? = some '\r'
  · obtain ⟨front, hfront⟩ := List.getLast?_eq_some_iff.mp hlast
    right
    have hline : line = .ofList front ++ "\r" := by
      rw [← String.toList_inj, hfront, String.toList_append, String.toList_ofList]
      rfl
    rw [hline, stripReturn_append]
  · exact .inl ⟨if_neg hlast, hlast⟩

theorem stripReturn_eq_self_iff {line : String} :
    stripReturn line = line ↔ line.toList.getLast? ≠ some '\r' := by
  constructor
  · intro hself hlast
    rcases stripReturn_cases line with ⟨-, hne⟩ | hline
    · exact hne hlast
    · rw [hself] at hline
      have hlength := congrArg String.length hline
      rw [String.length_append] at hlength
      exact absurd (Nat.left_eq_add.mp hlength) (by decide)
  · exact fun hne => if_neg hne

theorem length_stripReturn_le (line : String) : (stripReturn line).length ≤ line.length := by
  rcases stripReturn_cases line with ⟨hself, -⟩ | hline
  · rw [hself]
  · rw [congrArg String.length hline, String.length_append]
    exact Nat.le_add_right _ _

/-! ## Reading what was written -/

theorem notMem_newline_of_mem_linesFrom {line text : List Char} (hline : '\n' ∉ line)
    {l : List Char} (h : l ∈ linesFrom line text) : '\n' ∉ l := by
  induction text generalizing line with
  | nil =>
    rw [linesFrom] at h
    split_ifs at h
    · cases h
    · rwa [List.mem_singleton.mp h]
  | cons c rest ih =>
    rw [linesFrom] at h
    split_ifs at h with hc hreturn
    · rcases List.mem_cons.mp h with rfl | hrest
      · exact fun hmem => hline (List.dropLast_subset _ hmem)
      · exact ih List.not_mem_nil hrest
    · rcases List.mem_cons.mp h with rfl | hrest
      · exact hline
      · exact ih List.not_mem_nil hrest
    · refine ih (fun hmem => ?_) h
      rcases List.mem_append.mp hmem with hmem | hmem
      · exact hline hmem
      · exact hc (List.mem_singleton.mp hmem).symm

theorem notMem_newline_of_mem_lines {s l : String} (h : l ∈ lines s) : '\n' ∉ l.toList := by
  obtain ⟨cs, hcs, rfl⟩ := List.mem_map.mp h
  rw [String.toList_ofList]
  exact notMem_newline_of_mem_linesFrom List.not_mem_nil hcs

theorem linesFrom_append {front : List Char} (hfront : '\n' ∉ front) (line rest : List Char) :
    linesFrom line (front ++ rest) = linesFrom (line ++ front) rest := by
  induction front generalizing line with
  | nil => rw [List.nil_append, List.append_nil]
  | cons c front ih =>
    have hc : c ≠ '\n' := fun hc => hfront (hc ▸ List.mem_cons_self)
    rw [List.cons_append, linesFrom, if_neg hc,
      ih (fun hmem => hfront (List.mem_cons_of_mem _ hmem)), List.append_assoc,
      List.singleton_append]

theorem lines_append_newline {line : String} (hline : '\n' ∉ line.toList) (rest : String) :
    lines (line ++ "\n" ++ rest) = stripReturn line :: lines rest := by
  have htext : (line ++ "\n" ++ rest).toList = line.toList ++ '\n' :: rest.toList := by
    rw [String.toList_append, String.toList_append, List.append_assoc]
    rfl
  rw [lines, htext, linesFrom_append hline, linesFrom, if_pos rfl, List.map_cons, List.nil_append,
    ← lines, stripReturn]
  split_ifs
  · rfl
  · rw [String.ofList_toList]

theorem lines_join {ls : List String} (h : ∀ l ∈ ls, '\n' ∉ l.toList) :
    lines (String.join (ls.map (· ++ "\n"))) = ls.map stripReturn := by
  induction ls with
  | nil => rfl
  | cons l ls ih =>
    rw [List.map_cons, String.join_cons, lines_append_newline (h l List.mem_cons_self),
      ih fun l' hl' => h l' (List.mem_cons_of_mem _ hl'), List.map_cons]

/-! ## Writing what was read -/

theorem length_join_stripReturn_le (ls : List String) :
    (String.join ((ls.map stripReturn).map (· ++ "\n"))).length ≤
      (String.join (ls.map (· ++ "\n"))).length := by
  induction ls with
  | nil => exact Nat.le_refl _
  | cons l ls ih =>
    have hl := length_stripReturn_le l
    simp only [List.map_cons, String.join_cons, String.length_append] at ih ⊢
    omega

theorem join_stripReturn_eq_iff {ls : List String} :
    String.join ((ls.map stripReturn).map (· ++ "\n")) = String.join (ls.map (· ++ "\n")) ↔
      ∀ l ∈ ls, stripReturn l = l := by
  induction ls with
  | nil => simp
  | cons l ls ih =>
    rw [List.forall_mem_cons, ← ih]
    simp only [List.map_cons, String.join_cons]
    rcases stripReturn_cases l with ⟨hself, -⟩ | hline
    · rw [hself, String.append_right_inj]
      exact (and_iff_right rfl).symm
    · -- one character is lost, and none comes back
      have hlength : (stripReturn l).length < l.length := by
        rw [congrArg String.length hline, String.length_append]
        exact Nat.lt_add_of_pos_right (by decide)
      have hrest := length_join_stripReturn_le ls
      refine iff_of_false (fun heq => ?_) fun h => absurd (congrArg String.length h.1) hlength.ne
      have hsum := congrArg String.length heq
      simp only [String.length_append] at hsum
      omega

theorem infix_line_iff {r n : Char} (hne : r ≠ n) {line : List Char} (hline : n ∉ line)
    (rest : List Char) :
    [r, n] <:+: line ++ n :: rest ↔ line.getLast? = some r ∨ [r, n] <:+: rest := by
  induction line with
  | nil =>
    rw [List.nil_append, List.infix_cons_iff, List.cons_prefix_cons]
    simp [hne]
  | cons c line ih =>
    rw [List.cons_append, List.infix_cons_iff, List.cons_prefix_cons,
      ih fun hmem => hline (List.mem_cons_of_mem _ hmem)]
    cases line with
    | nil => simp [eq_comm]
    | cons d line =>
      have hd : n ≠ d := fun h => hline (by simp [h])
      rw [List.cons_append, List.cons_prefix_cons, List.getLast?_cons_cons]
      simp [hd]

theorem infix_join_iff {ls : List String} (h : ∀ l ∈ ls, '\n' ∉ l.toList) :
    ['\r', '\n'] <:+: (String.join (ls.map (· ++ "\n"))).toList ↔
      ∃ l ∈ ls, l.toList.getLast? = some '\r' := by
  induction ls with
  | nil => simp
  | cons l ls ih =>
    have htext : (String.join ((l :: ls).map (· ++ "\n"))).toList =
        l.toList ++ '\n' :: (String.join (ls.map (· ++ "\n"))).toList := by
      rw [List.map_cons, String.join_cons, String.toList_append, String.toList_append,
        List.append_assoc]
      rfl
    rw [htext, infix_line_iff (by decide) (h l List.mem_cons_self),
      ih fun l' hl' => h l' (List.mem_cons_of_mem _ hl')]
    simp only [List.mem_cons, exists_eq_or_imp]

theorem join_lines_eq_iff {ls : List String} (h : ∀ l ∈ ls, '\n' ∉ l.toList) :
    String.join ((lines (String.join (ls.map (· ++ "\n")))).map (· ++ "\n")) =
        String.join (ls.map (· ++ "\n")) ↔
      ¬ ['\r', '\n'] <:+: (String.join (ls.map (· ++ "\n"))).toList := by
  rw [lines_join h, join_stripReturn_eq_iff, infix_join_iff h]
  simp only [stripReturn_eq_self_iff, not_exists, not_and, ne_eq]

end Text
