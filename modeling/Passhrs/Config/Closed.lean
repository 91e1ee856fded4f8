import Passhrs.Config.Expansion
import Passhrs.Config.Scope
import Passhrs.Lib.Lines

/-!
# The merged text stands for itself

What is handed to the parser of the configuration. The parser ignores a directive that it does not
know, so an `Include` line that is left in the text would be lost without a word.

* **`preprocessIncludes_closed`**: there is none. The text resolves to its own lines, whatever the
  file system, the user, the host and the depth are then.
* **`preprocessIncludes_listing`**: a resolution does not depend on the order in which directories
  list their entries.
-/

namespace Passhrs

open SlashPath Splice Text

/-! ## Lines that are no includes -/

section Plain

variable {w : ConfigWorld} {host base : String}

theorem not_isInclude_iff {line : String} :
    ¬ IsInclude line ↔ lineKind line = .other ∨ lineKind line = .block := by
  rw [IsInclude]
  cases lineKind line <;> simp

theorem includeLine_plain {nested : String → String → IncludeM String} {seenBlock : Bool}
    {line : String} (h : ¬ IsInclude line) :
    includeLine w host nested base seenBlock line =
      pure (seenBlock || decide (lineKind line = .block), line ++ "\n") := by
  rw [includeLine]
  rcases not_isInclude_iff.mp h with hline | hline
  · rw [hline]
    simp
  · rw [hline]
    simp

/-- The lines from a place on, with `pushed` before them. -/
theorem foldlM_includeLine_plain (w : ConfigWorld) (host base : String)
    (nested : String → String → IncludeM String) {ls : List String}
    (h : ∀ line ∈ ls, ¬ IsInclude line) (seenBlock : Bool) (pushed : String) :
    ∃ seenBlock', ls.foldlM (fun (state : Bool × String) line => do
        let (seenBlock, pushed) ← includeLine w host nested base state.1 line
        pure (seenBlock, state.2 ++ pushed)) (seenBlock, pushed) =
      (pure (seenBlock', pushed ++ unlines ls) : IncludeM (Bool × String)) := by
  induction ls generalizing seenBlock pushed with
  | nil =>
    refine ⟨seenBlock, ?_⟩
    rw [List.foldlM_nil, unlines, List.map_nil, String.join_nil, String.append_empty]
  | cons line ls ih =>
    obtain ⟨seenBlock', hrest⟩ := ih (fun line' hline' => h line' (List.mem_cons_of_mem _ hline'))
      (seenBlock || decide (lineKind line = .block)) (pushed ++ (line ++ "\n"))
    refine ⟨seenBlock', ?_⟩
    rw [List.foldlM_cons, includeLine_plain (h line List.mem_cons_self), pure_bind, pure_bind,
      hrest, unlines, unlines, List.map_cons, String.join_cons, String.append_assoc]

/-- Nothing is looked up for a text without includes. -/
theorem preprocessIncludes_plain {content : String} (h : ∀ line ∈ lines content, ¬ IsInclude line)
    (left : Nat) (v : Visited) :
    (preprocessIncludes w host (left + 1) content base).exec v =
      (.ok (unlines (lines content)), v) := by
  obtain ⟨seenBlock, hlines⟩ :=
    foldlM_includeLine_plain w host base (preprocessIncludes w host left) h false ""
  rw [preprocessIncludes, hlines, pure_bind, String.empty_append, IncludeM.exec_pure]

end Plain

/-! ## A carriage return at the end of a line -/

section Keyword

/-- The keyword of a line whose first character that is no white space begins `text`. -/
def keywordOf (text : List Char) : Option String :=
  if text = [] ∨ text.head? = some '#' then none
  else some (toAsciiLowercase (.ofList (text.takeWhile (!isWhitespace ·))))

theorem map_fst_splitLine (line : String) :
    (splitLine line).map Prod.fst = keywordOf (line.toList.dropWhile isWhitespace) := by
  generalize htext : line.toList.dropWhile isWhitespace = text
  have hnone : (String.ofList text = "" ∨ (String.ofList text).toList.head? = some '#') ↔
      (text = [] ∨ text.head? = some '#') := by
    rw [← String.toList_inj, String.toList_ofList]
    rfl
  rw [splitLine, trimStart, htext, keywordOf]
  by_cases h : text = [] ∨ text.head? = some '#'
  · rw [if_pos (hnone.mpr h), if_pos h]
    rfl
  · rw [if_neg fun h' => h (hnone.mp h'), if_neg h, splitOnceWhitespace, String.toList_ofList]
    rcases hrest : text.dropWhile (!isWhitespace ·) with _ | ⟨c, rest⟩
    · -- the keyword is the whole text
      have hall := List.takeWhile_append_dropWhile (p := (!isWhitespace ·)) (l := text)
      rw [hrest, List.append_nil] at hall
      rw [hall]
      rfl
    · rfl

theorem isInclude_iff {line : String} :
    IsInclude line ↔ (splitLine line).map Prod.fst = some "include" := by
  rw [IsInclude, lineKind]
  rcases splitLine line with _ | ⟨key, _ | value⟩
  · simp
  · by_cases hkey : key = "include" <;> simp [hkey]
  · by_cases hkey : key = "include"
    · subst hkey
      simp
    · by_cases hblock : key = "host" ∨ key = "match" <;> simp [hkey, hblock]

theorem keywordOf_append_return {text : List Char} (hne : text ≠ []) :
    keywordOf (text ++ ['\r']) = keywordOf text := by
  have hhead : (text ++ ['\r']).head? = text.head? := by
    rcases text with _ | ⟨c, text⟩
    · exact absurd rfl hne
    · rfl
  have htake : (text ++ ['\r']).takeWhile (!isWhitespace ·) = text.takeWhile (!isWhitespace ·) := by
    rw [List.takeWhile_append]
    split_ifs with hall
    · rw [List.takeWhile_cons_of_neg (by decide), List.append_nil]
      exact (List.takeWhile_prefix _).eq_of_length hall |>.symm
    · rfl
  rw [keywordOf, keywordOf, hhead, htake]
  simp [hne]

theorem isInclude_append_return {line : String} :
    IsInclude (line ++ "\r") ↔ IsInclude line := by
  have htext : (line ++ "\r").toList = line.toList ++ ['\r'] := String.toList_append
  rw [isInclude_iff, isInclude_iff, map_fst_splitLine, map_fst_splitLine, htext,
    List.dropWhile_append]
  split_ifs with hblank
  · rw [List.isEmpty_iff.mp hblank]
    rfl
  · rw [keywordOf_append_return fun h => hblank (List.isEmpty_iff.mpr h)]

theorem isInclude_stripReturn {line : String} : IsInclude (stripReturn line) ↔ IsInclude line := by
  rcases stripReturn_cases line with ⟨hself, -⟩ | hline
  · rw [hself]
  · rw [← isInclude_append_return, ← hline]

end Keyword

/-! ## The lines of a merged text -/

section Merged

variable {w : ConfigWorld} {host base : String}

theorem text_mem_itemsFrom {scope : Option String} {ls : List String} {t : ConfigText}
    (h : .text t ∈ itemsFrom w host base scope ls) : t.line ∈ ls ∧ ¬ IsInclude t.line := by
  induction ls generalizing scope with
  | nil => cases h
  | cons line ls ih =>
    rw [itemsFrom, List.mem_append] at h
    rcases h with h | h
    · rw [lineItems] at h
      rcases hline : lineKind line with _ | _ | value | _
      · rw [hline] at h
        obtain rfl := Item.text.inj (List.mem_singleton.mp h)
        exact ⟨List.mem_cons_self, not_isInclude_iff.mpr (.inl hline)⟩
      · rw [hline] at h
        obtain rfl := Item.text.inj (List.mem_singleton.mp h)
        exact ⟨List.mem_cons_self, not_isInclude_iff.mpr (.inr hline)⟩
      · rw [hline] at h
        exact absurd h text_notMem_includeItems
      · rw [hline] at h
        cases List.mem_singleton.mp h
    · obtain ⟨hmem, hplain⟩ := ih h
      exact ⟨List.mem_cons_of_mem _ hmem, hplain⟩

/-- Each line of an expansion is a line of one of the files, and no include. -/
theorem Expands.plain {d : Nat} {content : String} {ts : List ConfigText} {ks : List String}
    (h : Expands (includeDocs w host) d (itemsFrom w host base none (lines content)) ts ks) :
    ∀ t ∈ ts, '\n' ∉ t.line.toList ∧ ¬ IsInclude t.line := by
  refine h.forall_text (fun t ht => ?_) fun file items hdoc t ht => ?_
  · obtain ⟨hline, hplain⟩ := text_mem_itemsFrom ht
    exact ⟨notMem_newline_of_mem_lines hline, hplain⟩
  · obtain ⟨content', -, rfl⟩ := includeDocs_doc_eq_ok_iff.mp hdoc
    obtain ⟨hline, hplain⟩ := text_mem_itemsFrom ht
    exact ⟨notMem_newline_of_mem_lines hline, hplain⟩

/-- **The merged text is closed.** No line of it is an `Include`. Resolved again, in any file system
and for any host, it comes to its lines with a newline each, with nothing looked up; and these are
the text itself, unless a line of a file has a carriage return of its own at its end. -/
theorem preprocessIncludes_closed {left : Nat} {content s : String} {v : Visited}
    (h : ((preprocessIncludes w host left content base).exec v).1 = .ok s) :
    (∀ line ∈ lines s, ¬ IsInclude line) ∧
      (∀ w' host' left' base' v', (preprocessIncludes w' host' (left' + 1) s base').exec v' =
        (.ok (unlines (lines s)), v')) ∧
      (unlines (lines s) = s ↔ ¬ ['\r', '\n'] <:+: s.toList) := by
  obtain ⟨d, ts, ks, -, hexpands, -, rfl⟩ := preprocessIncludes_eq_ok_iff.mp h
  have hts := Expands.plain hexpands
  have hnewline : ∀ line ∈ ts.map ConfigText.line, '\n' ∉ line.toList := by
    rw [List.forall_mem_map]
    exact fun t ht => (hts t ht).1
  rw [render_eq_unlines]
  have hplain : ∀ line ∈ lines (unlines (ts.map ConfigText.line)), ¬ IsInclude line := by
    intro line hline
    rw [unlines, lines_join hnewline] at hline
    obtain ⟨line', hline', rfl⟩ := List.mem_map.mp hline
    obtain ⟨t, ht, rfl⟩ := List.mem_map.mp hline'
    rw [isInclude_stripReturn]
    exact (hts t ht).2
  exact ⟨hplain, fun w' host' left' base' v' => preprocessIncludes_plain hplain left' v',
    join_lines_eq_iff hnewline⟩

theorem preprocessIncludes_closed_nested :
    (∀ line ∈ lines "User u\nHost x\nHost y\nUser z\n", ¬ IsInclude line) ∧
      (∀ w' host' left' base' v',
        (preprocessIncludes w' host' (left' + 1) "User u\nHost x\nHost y\nUser z\n" base').exec
          v' = (.ok (unlines (lines "User u\nHost x\nHost y\nUser z\n")), v')) ∧
      (unlines (lines "User u\nHost x\nHost y\nUser z\n") =
          "User u\nHost x\nHost y\nUser z\n" ↔
        ¬ ['\r', '\n'] <:+: "User u\nHost x\nHost y\nUser z\n".toList) := by
  have hmerged : ((preprocessIncludes someFiles "y" 17 "Include a\nHost y\nUser z" "/").exec
      ⟨[], []⟩).1 = .ok "User u\nHost x\nHost y\nUser z\n" := by decide +kernel
  exact preprocessIncludes_closed hmerged

end Merged

/-! ## The order of directory entries -/

section Listing

variable {w w' : ConfigWorld}

/-- The same file system and user, where a directory may list its entries in another order. -/
structure SameFiles (w w' : ConfigWorld) : Prop where
  readToString : w.readToString = w'.readToString
  canonicalize : w.canonicalize = w'.canonicalize
  isDir : w.isDir = w'.isDir
  readDir : ∀ dir, (∃ e e', w.readDir dir = .error e ∧ w'.readDir dir = .error e') ∨
    ∃ names names', w.readDir dir = .ok names ∧ w'.readDir dir = .ok names' ∧ names.Perm names'
  homeDir : w.homeDir = w'.homeDir
  username : w.username = w'.username
  glob : w.glob = w'.glob

theorem insertionSort_perm {names names' : List String} (h : names.Perm names') :
    names.insertionSort (· ≤ ·) = names'.insertionSort (· ≤ ·) :=
  ((List.perm_insertionSort _ names).trans (h.trans (List.perm_insertionSort _ names').symm)
    ).eq_of_pairwise' (List.pairwise_insertionSort _ names) (List.pairwise_insertionSort _ names')

theorem expandGlob_sameFiles (h : SameFiles w w') (pattern : String) :
    expandGlob w pattern = expandGlob w' pattern := by
  rw [expandGlob, expandGlob, h.glob, h.isDir]
  dsimp only
  rcases h.readDir ((parent pattern).getD ".") with
    ⟨e, e', hdir, hdir'⟩ | ⟨names, names', hdir, hdir', hperm⟩
  · rw [hdir, hdir']
  · rw [hdir, hdir']
    simp only [insertionSort_perm (hperm.filter _)]

theorem patternPath_sameFiles (h : SameFiles w w') (host base value : String) :
    patternPath w host base value = patternPath w' host base value := by
  have htokens : ∀ cs, expandTokens w host cs = expandTokens w' host cs := by
    intro cs
    induction cs using expandTokens.induct with
    | case1 => rfl
    | case2 rest ih => simp only [expandTokens, h.homeDir, ih]
    | case3 rest ih => simp only [expandTokens, h.username, ih]
    | case4 rest ih => simp only [expandTokens, ih]
    | case5 rest ih => simp only [expandTokens, ih]
    | case6 c rest hd hu hh hp ih => simp only [expandTokens, ih]
  rw [patternPath, patternPath, htokens, h.homeDir]

/-- **The order of directory entries does not matter**, for the text, for an error, or for what is
read on the way. -/
theorem preprocessIncludes_listing (h : SameFiles w w') (host : String) (left : Nat)
    (content base : String) :
    preprocessIncludes w host left content base = preprocessIncludes w' host left content base := by
  induction left generalizing content base with
  | zero => rfl
  | succ left ih =>
    have hnested : preprocessIncludes w host left = preprocessIncludes w' host left :=
      funext fun content => funext fun base => ih content base
    have hfile : includeFile w = includeFile w' := by
      funext nested base path
      rw [includeFile, includeFile, h.canonicalize, h.readToString]
    have hline : includeLine w host = includeLine w' host := by
      funext nested base seenBlock line
      rw [includeLine, includeLine]
      simp only [patternPath_sameFiles h, expandGlob_sameFiles h, hfile]
    rw [preprocessIncludes, preprocessIncludes, hnested]
    rw [hline]

/-- A directory that lists its files in this order, and all of them match. -/
def confDir (names : List String) : ConfigWorld where
  readToString path :=
    if path = "/conf.d/a" then .ok "User a\n"
    else if path = "/conf.d/b" then .ok "Host b\n"
    else .error "not found"
  canonicalize path := some path
  isDir path := decide (path = "/conf.d")
  readDir _ := .ok names
  homeDir := none
  username := none
  glob _ := some fun _ => true

theorem preprocessIncludes_listing_two :
    preprocessIncludes (confDir ["a", "b"]) "y" 17 "Include conf.d/*" "/" =
      preprocessIncludes (confDir ["b", "a"]) "y" 17 "Include conf.d/*" "/" := by
  have hsame : SameFiles (confDir ["a", "b"]) (confDir ["b", "a"]) :=
    ⟨rfl, rfl, rfl, fun _ => .inr ⟨_, _, rfl, rfl, List.Perm.swap ..⟩, rfl, rfl, rfl⟩
  exact preprocessIncludes_listing hsame "y" 17 "Include conf.d/*" "/"

end Listing

end Passhrs
