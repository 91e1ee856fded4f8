import Passhrs.Config.Include

/-!
# What includes stand for

The files of a configuration and their `Include` lines are a tree that knows no visited set. The
resolution is compared with it.

* **`preprocessIncludes_eq_naive`**: a result is the text of that tree.
* **`mergeIncludes_stops`**: no file is read twice, and a file below itself is an error.
* **`mergeIncludes_ok_iff`**: when a tree that is not too deep has a result. Two places for one file
  are enough for an error, also where nothing includes itself.
-/

namespace Passhrs

open SlashPath Splice Text

/-! ## The tree -/

/-- A line of a configuration: its own text, the files in its place, or nothing that names them. -/
def configLine (w : ConfigWorld) (host base line : String) : List (Item String IncludedFile Unit) :=
  match lineKind line with
  | .other | .block => [.text line]
  | .bareInclude => [.fail ()]
  | .includes value =>
    if value = "" then [.fail ()]
    else
      match expandGlob w (patternPath w host base value) with
      | .error _ => [.fail ()]
      | .ok matched => matched.map fun path => .file (includedFrom base path)

def configItems (w : ConfigWorld) (host base : String) (ls : List String) :
    List (Item String IncludedFile Unit) :=
  ls.flatMap (configLine w host base)

/-- The files, told apart by their canonical paths. -/
def configDocs (w : ConfigWorld) (host : String) : Docs String IncludedFile String Unit where
  key file := (w.canonicalize file.path).getD file.path
  doc file :=
    match w.readToString file.path with
    | .error _ => .error ()
    | .ok content => .ok (configItems w host file.base (lines content))

theorem configDocs_doc_eq_ok_iff {w : ConfigWorld} {host : String} {file : IncludedFile}
    {items : List (Item String IncludedFile Unit)} : (configDocs w host).doc file = .ok items ↔
      ∃ content, w.readToString file.path = .ok content ∧
        items = configItems w host file.base (lines content) := by
  rw [configDocs]
  dsimp only
  rcases w.readToString file.path with e | content
  · simp
  · simp only [Except.ok.injEq, exists_eq_left']
    exact eq_comm

/-- Every line with one newline. -/
def unlines (ls : List String) : String := String.join (ls.map (· ++ "\n"))

/-- The expansion of a configuration: each line that names files is replaced by their expansions, in
order, to whatever depth. -/
def NaiveExpansion (w : ConfigWorld) (host content base s : String) : Prop :=
  ∃ d ts ks, Expands (configDocs w host) d (configItems w host base (lines content)) ts ks ∧
    s = unlines ts

/-- The file `file` stands at a place below a configuration. -/
def Includes (w : ConfigWorld) (host content base : String) (place : List Nat)
    (file : IncludedFile) : Prop :=
  Occurs (configDocs w host) (configItems w host base (lines content)) place file

/-- Four files at the root. Two of them include a third one, the last one includes itself. -/
def someFiles : ConfigWorld where
  readToString path :=
    if path = "/a" ∨ path = "/b" then .ok "User u\nInclude c\n"
    else if path = "/c" then .ok "Host x\n"
    else if path = "/self" then .ok "Include self\n"
    else .error "not found"
  canonicalize path := some path
  isDir _ := false
  readDir _ := .error "not found"
  homeDir := none
  username := none
  glob _ := none

/-! ## The items of the code -/

section Items

variable {w : ConfigWorld} {host base : String}

abbrev ConfigItem.plain : ConfigItem → Item String IncludedFile Unit :=
  Item.map ConfigText.line fun _ => ()

theorem map_plain_matched (matched : List String) :
    (matched.map fun path => (.file (includedFrom base path) : ConfigItem)).map ConfigItem.plain =
      matched.map fun path => .file (includedFrom base path) := by
  rw [List.map_map]
  rfl

/-- Where the code finds nothing wrong with a line, it takes it for what it is. -/
theorem map_plain_lineItems {scope : Option String} {line : String}
    (h : ∀ e, .fail e ∉ lineItems w host base scope line) :
    (lineItems w host base scope line).map ConfigItem.plain = configLine w host base line := by
  rw [lineItems, configLine] at *
  cases hline : lineKind line with
  | other => rfl
  | block => rfl
  | bareInclude => rfl
  | includes value =>
    rw [hline] at h
    dsimp only at h ⊢
    rw [includeItems] at h ⊢
    by_cases hblock : scope.isSome
    · rw [if_pos hblock] at h
      exact absurd (List.mem_singleton_self _) (h _)
    rw [if_neg hblock] at h ⊢
    by_cases hvalue : value = ""
    · rw [if_pos hvalue, if_pos hvalue]
      rfl
    · rw [if_neg hvalue] at h ⊢
      rw [if_neg hvalue]
      rcases hglob : expandGlob w (patternPath w host base value) with e | _ | ⟨path, rest⟩
      -- a pattern that fails or finds nothing is an error, and there is none
      · rw [hglob] at h
        exact absurd (List.mem_singleton_self _) (h _)
      · rw [hglob] at h
        exact absurd (List.mem_singleton_self _) (h _)
      · exact map_plain_matched _

theorem map_plain_itemsFrom {scope : Option String} {ls : List String}
    (h : ∀ e, .fail e ∉ itemsFrom w host base scope ls) :
    (itemsFrom w host base scope ls).map ConfigItem.plain = configItems w host base ls := by
  induction ls generalizing scope with
  | nil => rfl
  | cons line rest ih =>
    simp only [itemsFrom, List.mem_append, not_or] at h
    rw [itemsFrom, List.map_append, map_plain_lineItems fun e => (h e).1, ih fun e => (h e).2,
      configItems, configItems, List.flatMap_cons]

theorem includeDocs_plain (file : IncludedFile) (items : List ConfigItem)
    (hdoc : (includeDocs w host).doc file = .ok items) (hfail : ∀ e, .fail e ∉ items) :
    (configDocs w host).doc file = .ok (items.map ConfigItem.plain) := by
  obtain ⟨content, hread, rfl⟩ := includeDocs_doc_eq_ok_iff.mp hdoc
  exact configDocs_doc_eq_ok_iff.mpr ⟨content, hread, map_plain_itemsFrom hfail⟩

/-- An expansion by the code is one of the tree, with the same keys. -/
theorem expands_plain {d : Nat} {ls : List String} {ts : List ConfigText} {ks : List String}
    (h : Expands (includeDocs w host) d (itemsFrom w host base none ls) ts ks) :
    Expands (configDocs w host) d (configItems w host base ls) (ts.map ConfigText.line) ks := by
  have hkey : ∀ file, (configDocs w host).key file = (includeDocs w host).key file := fun _ => rfl
  have := h.map hkey includeDocs_plain
  rwa [map_plain_itemsFrom h.fail_notMem] at this

end Items

/-! ## The result -/

section Result

variable {w : ConfigWorld} {host content base s : String}

theorem render_eq_unlines (ts : List ConfigText) :
    render ts = unlines (ts.map ConfigText.line) := by
  rw [render, unlines, List.map_map]
  rfl

/-- **A result is the naive expansion**, which is one text, whatever has been met before and however
deep the call is. -/
theorem preprocessIncludes_eq_naive (left : Nat) (v : Visited)
    (h : ((preprocessIncludes w host left content base).exec v).1 = .ok s) (s' : String) :
    NaiveExpansion w host content base s' ↔ s' = s := by
  obtain ⟨d, ts, ks, -, hexpands, -, rfl⟩ := preprocessIncludes_eq_ok_iff.mp h
  have hplain := expands_plain hexpands
  rw [render_eq_unlines]
  constructor
  · rintro ⟨d', ts', ks', hexpands', rfl⟩
    rw [(hexpands'.unique hplain).1]
  · rintro rfl
    exact ⟨d, _, ks, hplain, rfl⟩

theorem nested_files_naive :
    NaiveExpansion someFiles "y" "Include a\nHost y\nUser z" "/"
      "User u\nHost x\nHost y\nUser z\n" :=
  (preprocessIncludes_eq_naive 17 ⟨[], []⟩ (by decide +kernel) _).mpr rfl

/-- **A resolution stops**: it is a recursion on the levels that are left. However it ends, no file
has been read twice, and it ends with an error when a file that is reached is below itself. -/
theorem mergeIncludes_stops (w : ConfigWorld) (host content base : String) :
    (mergeIncludes w host content base).2.reads.Nodup ∧
      ∀ place below file file' content', Includes w host content base place file →
        w.readToString file.path = .ok content' →
        Includes w host content' file.base below file' →
        (configDocs w host).key file' = (configDocs w host).key file →
        ∃ e, (mergeIncludes w host content base).1 = .error e := by
  constructor
  · obtain ⟨ks, hks, hfresh⟩ :=
      preprocessIncludes_visited w host (maxIncludeDepth + 1) content base ⟨[], []⟩
    rw [mergeIncludes, hks]
    exact hfresh.1
  · intro place below file file' content' hfile hread hfile' hkey
    rcases hresult : (mergeIncludes w host content base).1 with e | s
    · exact ⟨e, rfl⟩
    · obtain ⟨d, ts, ks, -, hexpands, hfresh, -⟩ := preprocessIncludes_eq_ok_iff.mp hresult
      have hdoc : (configDocs w host).doc file = .ok _ :=
        configDocs_doc_eq_ok_iff.mpr ⟨content', hread, rfl⟩
      have hone := (nodup_iff_occurs (expands_plain hexpands)).mp hfresh.1 _ _ _ _
        (hfile.append hdoc hfile') hfile hkey
      exact absurd (List.append_right_eq_self.mp hone) hfile'.ne_nil

theorem self_include_stops :
    (mergeIncludes someFiles "y" "Include self" "/").2.reads.Nodup ∧
      ∃ e, (mergeIncludes someFiles "y" "Include self" "/").1 = .error e := by
  have hmain : configItems someFiles "y" "/" (lines "Include self") = [.file ⟨"/self", "/"⟩] := by
    decide +kernel
  have hself : configItems someFiles "y" "/" (lines "Include self\n") = [.file ⟨"/self", "/"⟩] := by
    decide +kernel
  have hplace : Includes someFiles "y" "Include self" "/" [0] ⟨"/self", "/"⟩ := by
    rw [Includes, hmain]
    exact .here
  have hbelow : Includes someFiles "y" "Include self\n" "/" [0] ⟨"/self", "/"⟩ := by
    rw [Includes, hself]
    exact .here
  exact ⟨(mergeIncludes_stops ..).1,
    (mergeIncludes_stops ..).2 _ _ _ _ _ hplace (by decide +kernel) hbelow rfl⟩

end Result

/-! ## When there is a result -/

def IsInclude (line : String) : Prop :=
  lineKind line = .bareInclude ∨ ∃ value, lineKind line = .includes value

def HasPattern (line : String) : Prop :=
  lineKind line ≠ .bareInclude ∧ lineKind line ≠ .includes ""

/-- The `Include` lines of a file are before its blocks, and each pattern matches at least one file
that can be read. -/
structure WellIncluded (w : ConfigWorld) (host base : String) (ls : List String) : Prop where
  first : ls.Pairwise fun a b => lineKind a = .block → ¬ IsInclude b
  matched : ∀ line ∈ ls, ∀ value, lineKind line = .includes value → value ≠ "" →
    ∃ matched, expandGlob w (patternPath w host base value) = .ok matched ∧
      ∃ path ∈ matched, ∃ content, w.readToString path = .ok content

/-- A graph of includes: no place is deeper than `MAX_INCLUDE_DEPTH`, so that there is no cycle
either, and each file is as above. -/
structure IncludeGraph (w : ConfigWorld) (host content base : String) : Prop where
  depth : ∀ place file, Includes w host content base place file → place.length ≤ maxIncludeDepth
  top : WellIncluded w host base (lines content)
  files : ∀ place file content', Includes w host content base place file →
    w.readToString file.path = .ok content' → WellIncluded w host file.base (lines content')

section Graph

variable {w : ConfigWorld} {host content base : String}

theorem fail_notMem_configItems {ls : List String} (h : ∀ e, .fail e ∉ configItems w host base ls) :
    ∀ line ∈ ls, HasPattern line := by
  intro line hline
  have hfail : .fail () ∉ configLine w host base line := fun hmem =>
    h () (List.mem_flatMap.mpr ⟨line, hline, hmem⟩)
  constructor
  · intro hkind
    rw [configLine, hkind] at hfail
    exact hfail (List.mem_singleton_self _)
  · intro hkind
    rw [configLine, hkind] at hfail
    exact hfail (List.mem_singleton_self _)

theorem fail_notMem_lineItems {scope : Option String} {line : String}
    (hscope : scope ≠ none → ¬ IsInclude line) (hpattern : HasPattern line)
    (hmatched : ∀ value, lineKind line = .includes value → value ≠ "" →
      ∃ matched, expandGlob w (patternPath w host base value) = .ok matched ∧
        ∃ path ∈ matched, ∃ content, w.readToString path = .ok content) (e : String) :
    .fail e ∉ lineItems w host base scope line := by
  rw [lineItems]
  cases hline : lineKind line with
  | other => simp
  | block => simp
  | bareInclude => exact absurd hline hpattern.1
  | includes value =>
    have hvalue : value ≠ "" := fun hvalue => hpattern.2 (hline.trans (by rw [hvalue]))
    have hnone : scope.isSome = false := by
      cases scope with
      | none => rfl
      | some block => exact absurd (.inr ⟨value, hline⟩) (hscope (Option.some_ne_none block))
    obtain ⟨matched, hglob, path, hpath, -⟩ := hmatched value hline hvalue
    dsimp only
    rw [includeItems, hnone, if_neg Bool.false_ne_true, if_neg hvalue, hglob]
    cases matched with
    | nil => exact absurd hpath List.not_mem_nil
    | cons path rest => simp

theorem fail_notMem_itemsFrom {scope : Option String} {ls : List String}
    (hscope : scope ≠ none → ∀ line ∈ ls, ¬ IsInclude line)
    (hwell : WellIncluded w host base ls) (hpattern : ∀ line ∈ ls, HasPattern line) (e : String) :
    .fail e ∉ itemsFrom w host base scope ls := by
  induction ls generalizing scope with
  | nil => exact List.not_mem_nil
  | cons line rest ih =>
    obtain ⟨hfirst, hrest⟩ := List.pairwise_cons.mp hwell.first
    rw [itemsFrom, List.mem_append, not_or]
    constructor
    · exact fail_notMem_lineItems (fun h => hscope h line List.mem_cons_self)
        (hpattern line List.mem_cons_self) (hwell.matched line List.mem_cons_self) e
    · refine ih ?_ ⟨hrest, fun line hline => hwell.matched line (List.mem_cons_of_mem _ hline)⟩
        fun line hline => hpattern line (List.mem_cons_of_mem _ hline)
      intro hafter line' hline'
      rw [scopeAfter] at hafter
      split_ifs at hafter with hblock
      · exact hfirst line' hline' hblock
      · exact hscope hafter line' (List.mem_cons_of_mem _ hline')

theorem sound_of_wellIncluded {file : IncludedFile} {content' : String}
    (hread : w.readToString file.path = .ok content')
    (hwell : WellIncluded w host file.base (lines content'))
    (hpattern : ∀ line ∈ lines content', HasPattern line) : Sound (includeDocs w host) file :=
  ⟨_, includeDocs_doc_eq_ok_iff.mpr ⟨content', hread, rfl⟩,
    fail_notMem_itemsFrom (fun h => absurd rfl h) hwell hpattern⟩

/-- The files that the code takes in are those of the tree, where it finds nothing wrong with
these. -/
theorem includes_of_occurs (hfail : ∀ e, .fail e ∉ itemsFrom w host base none (lines content))
    (hsound : ∀ place file, Includes w host content base place file →
      Sound (includeDocs w host) file) {place : List Nat} {file : IncludedFile}
    (h : Occurs (includeDocs w host) (itemsFrom w host base none (lines content)) place file) :
    Includes w host content base place file := by
  rw [Includes, ← map_plain_itemsFrom hfail]
  refine h.map fun place' file' items hplace' hdoc => ?_
  rw [map_plain_itemsFrom hfail] at hplace'
  obtain ⟨items', hdoc', hfail'⟩ := hsound place' file' hplace'
  rw [hdoc] at hdoc'
  obtain rfl := Except.ok.inj hdoc'
  exact includeDocs_plain file' items hdoc hfail'

end Graph

section SomeFiles

/-- Below two of the files there is one more level, which is the third file. -/
theorem occurs_someFiles {names : List String} (hnames : ∀ name ∈ names, name = "/a" ∨ name = "/b")
    {place : List Nat} {file : IncludedFile}
    (h : Occurs (configDocs someFiles "y") (names.map fun name => .file ⟨name, "/"⟩) place file) :
    place.length ≤ 2 ∧ file ∈ [(⟨"/a", "/"⟩ : IncludedFile), ⟨"/b", "/"⟩, ⟨"/c", "/"⟩] := by
  have hdoc : ∀ name, name = "/a" ∨ name = "/b" → (configDocs someFiles "y").doc ⟨name, "/"⟩ =
      .ok [.text "User u", .file ⟨"/c", "/"⟩] := by
    rintro name (rfl | rfl) <;> decide +kernel
  have hthird : (configDocs someFiles "y").doc ⟨"/c", "/"⟩ = .ok [.text "Host x"] := by
    decide +kernel
  have hbelow : ∀ {place file}, Occurs (configDocs someFiles "y")
      [.text "User u", .file ⟨"/c", "/"⟩] place file → place.length = 1 ∧ file = ⟨"/c", "/"⟩ := by
    intro place file h
    obtain ⟨i, q, rfl, hfile⟩ := occurs_text_iff.mp h
    rcases (occurs_cons_iff hthird).mp hfile with ⟨hq, rfl⟩ | ⟨q', -, hin⟩ | ⟨j, q', -, hin⟩
    · obtain ⟨rfl, rfl⟩ := List.cons.inj hq
      exact ⟨rfl, rfl⟩
    · obtain ⟨j, q'', -, hin'⟩ := occurs_text_iff.mp hin
      exact absurd hin' not_occurs_nil
    · exact absurd hin not_occurs_nil
  induction names generalizing place with
  | nil => exact absurd h not_occurs_nil
  | cons name rest ih =>
    have hname := hnames name List.mem_cons_self
    rcases (occurs_cons_iff (hdoc name hname)).mp h with
      ⟨rfl, rfl⟩ | ⟨q, rfl, hin⟩ | ⟨i, q, rfl, hin⟩
    · exact ⟨by simp, by rcases hname with rfl | rfl <;> simp⟩
    · obtain ⟨hq, rfl⟩ := hbelow hin
      exact ⟨by rw [List.length_cons, hq], by simp⟩
    · have := ih (fun name hname => hnames name (List.mem_cons_of_mem _ hname)) hin
      exact this

theorem wellIncluded_someFiles {ls : List String}
    (hls : ∀ line ∈ ls, line = "User u" ∨ line = "Include a" ∨ line = "Include b" ∨
      line = "Include c") : WellIncluded someFiles "y" "/" ls := by
  have hblock : ∀ line ∈ ls, lineKind line ≠ .block := by
    intro line hline
    rcases hls line hline with rfl | rfl | rfl | rfl <;> decide
  refine ⟨List.pairwise_of_forall_mem_list fun a ha b _ h => absurd h (hblock a ha), ?_⟩
  intro line hline value hkind _
  rcases hls line hline with rfl | rfl | rfl | rfl
  · cases (by decide : lineKind "User u" = .other).symm.trans hkind
  · cases (by decide : lineKind "Include a" = .includes "a").symm.trans hkind
    exact ⟨["/a"], by decide +kernel, "/a", by simp, _, rfl⟩
  · cases (by decide : lineKind "Include b" = .includes "b").symm.trans hkind
    exact ⟨["/b"], by decide +kernel, "/b", by simp, _, rfl⟩
  · cases (by decide : lineKind "Include c" = .includes "c").symm.trans hkind
    exact ⟨["/c"], by decide +kernel, "/c", by simp, _, rfl⟩

theorem includeGraph_someFiles {content : String} (names : List String)
    (hls : ∀ line ∈ lines content, line = "Include a" ∨ line = "Include b")
    (hitems : configItems someFiles "y" "/" (lines content) =
      names.map fun name => .file ⟨name, "/"⟩)
    (hnames : ∀ name ∈ names, name = "/a" ∨ name = "/b") :
    IncludeGraph someFiles "y" content "/" := by
  refine ⟨?_, wellIncluded_someFiles fun line hline => ?_, ?_⟩
  · intro place file h
    rw [Includes, hitems] at h
    exact (occurs_someFiles hnames h).1.trans (by decide)
  · exact (hls line hline).elim (fun h => .inr (.inl h)) fun h => .inr (.inr (.inl h))
  · intro place file content' h hread
    rw [Includes, hitems] at h
    have hfile := (occurs_someFiles hnames h).2
    have htwo : lines "User u\nInclude c\n" = ["User u", "Include c"] := by decide
    have hlast : lines "Host x\n" = ["Host x"] := by decide
    simp only [List.mem_cons, List.not_mem_nil, or_false] at hfile
    rcases hfile with rfl | rfl | rfl
    · obtain rfl : "User u\nInclude c\n" = content' := Except.ok.inj hread
      exact wellIncluded_someFiles (by simp [htwo])
    · obtain rfl : "User u\nInclude c\n" = content' := Except.ok.inj hread
      exact wellIncluded_someFiles (by simp [htwo])
    · obtain rfl : "Host x\n" = content' := Except.ok.inj hread
      rw [hlast]
      refine ⟨List.pairwise_singleton .., fun line hline value hkind => ?_⟩
      obtain rfl := List.mem_singleton.mp hline
      cases (by decide : lineKind "Host x" = .block).symm.trans hkind

end SomeFiles

/-- **When a graph of includes has a result**: exactly when each `Include` line has a pattern, each
file that is matched can be read, and no file stands at two places. -/
theorem mergeIncludes_ok_iff {w : ConfigWorld} {host content base : String}
    (hgraph : IncludeGraph w host content base) :
    (∃ s, (mergeIncludes w host content base).1 = .ok s) ↔
      (∀ line ∈ lines content, HasPattern line) ∧
      (∀ place file, Includes w host content base place file →
        ∃ content', w.readToString file.path = .ok content' ∧
          ∀ line ∈ lines content', HasPattern line) ∧
      ∀ place place' file file', Includes w host content base place file →
        Includes w host content base place' file' →
        (configDocs w host).key file = (configDocs w host).key file' → place = place' := by
  constructor
  · rintro ⟨s, hs⟩
    obtain ⟨d, ts, ks, -, hexpands, hfresh, -⟩ := preprocessIncludes_eq_ok_iff.mp hs
    have hplain := expands_plain hexpands
    refine ⟨fail_notMem_configItems hplain.fail_notMem, fun place file hfile => ?_,
      (nodup_iff_occurs hplain).mp hfresh.1⟩
    obtain ⟨-, items, hdoc, hfail⟩ := sound_of_occurs hplain hfile
    obtain ⟨content', hread, rfl⟩ := configDocs_doc_eq_ok_iff.mp hdoc
    exact ⟨content', hread, fail_notMem_configItems hfail⟩
  · rintro ⟨hpattern, hfiles, hone⟩
    have hfail : ∀ e, .fail e ∉ itemsFrom w host base none (lines content) :=
      fail_notMem_itemsFrom (fun h => absurd rfl h) hgraph.top hpattern
    -- every included file can be read, and nothing in it fails
    have hsound : ∀ place file, Includes w host content base place file →
        Sound (includeDocs w host) file := by
      intro place file hfile
      obtain ⟨content', hread, hpattern'⟩ := hfiles place file hfile
      exact sound_of_wellIncluded hread (hgraph.files place file content' hfile hread) hpattern'
    have hoccurs : ∀ place file, Occurs (includeDocs w host)
        (itemsFrom w host base none (lines content)) place file →
          Includes w host content base place file :=
      fun _ _ => includes_of_occurs hfail hsound
    obtain ⟨ts, ks, hexpands⟩ := exists_expands hfail fun place file hplace =>
      ⟨hgraph.depth place file (hoccurs place file hplace),
        hsound place file (hoccurs place file hplace)⟩
    -- no file is met twice, so that no cycle is reported
    have hnodup : ks.Nodup := (nodup_iff_occurs hexpands).mpr fun place place' file file' h h' =>
      hone place place' file file' (hoccurs place file h) (hoccurs place' file' h')
    exact ⟨render ts, preprocessIncludes_eq_ok_iff.mpr
      ⟨maxIncludeDepth, ts, ks, rfl, hexpands, ⟨hnodup, by simp⟩, rfl⟩⟩

theorem includes_in_a_row :
    (mergeIncludes someFiles "y" "Include a\n" "/").1 = .ok "User u\nHost x\n" ∧
      ∀ place place' file file', Includes someFiles "y" "Include a\n" "/" place file →
        Includes someFiles "y" "Include a\n" "/" place' file' →
        (configDocs someFiles "y").key file = (configDocs someFiles "y").key file' →
        place = place' := by
  have hls : lines "Include a\n" = ["Include a"] := by decide
  have hgraph : IncludeGraph someFiles "y" "Include a\n" "/" :=
    includeGraph_someFiles ["/a"] (by simp [hls]) (by decide +kernel) (by simp)
  have hok : (mergeIncludes someFiles "y" "Include a\n" "/").1 = .ok "User u\nHost x\n" := by
    decide +kernel
  exact ⟨hok, ((mergeIncludes_ok_iff hgraph).mp ⟨_, hok⟩).2.2⟩

/-- Two files that include a third one: nothing includes itself, and everything can be read. -/
theorem diamond_is_no_cycle :
    IncludeGraph someFiles "y" "Include a\nInclude b\n" "/" ∧
      (∀ place file, Includes someFiles "y" "Include a\nInclude b\n" "/" place file →
        ∃ content, someFiles.readToString file.path = .ok content) ∧
      (mergeIncludes someFiles "y" "Include a\nInclude b\n" "/").1 =
        .error "Include cycle detected: /c" := by
  have hls : lines "Include a\nInclude b\n" = ["Include a", "Include b"] := by decide
  have hitems : configItems someFiles "y" "/" (lines "Include a\nInclude b\n") =
      ["/a", "/b"].map fun name => .file ⟨name, "/"⟩ := by decide +kernel
  refine ⟨includeGraph_someFiles ["/a", "/b"] (by simp [hls]) hitems (by simp), ?_,
    by decide +kernel⟩
  intro place file h
  rw [Includes, hitems] at h
  have hfile := (occurs_someFiles (by simp) h).2
  simp only [List.mem_cons, List.not_mem_nil, or_false] at hfile
  rcases hfile with rfl | rfl | rfl <;> exact ⟨_, rfl⟩

end Passhrs
