import Passhrs.Lib.SlashPath

/-!
# Parent, file name and join

`Path::parent`, `Path::file_name` and `Path::join` of a slash-separated path, computed the way the
standard library of the source does: repeated slashes and `.` components are passed over, except
a `.` at the very start.

* **`normalize_parent`**: a path denotes its last component entered from its parent.
* **`normalize_join`**: a joined name denotes that name entered from the directory.
-/

namespace SlashPath

/-- A component that is passed over unless the path starts with it. -/
def isTrivial (part : String) : Bool := part = "" || part = "."

/-- The component that marks where the path starts (the root or a leading `.`), if there is one,
and the components after it. -/
def startAndBody (path : String) : List String × List String :=
  match parts path with
  | [] => ([], [])
  | first :: rest =>
    if isAbsolute path || first = "." then ([first], rest) else ([], first :: rest)

/-- The last component that is not passed over, after the components before it. -/
def splitLast (body : List String) : Option (List String × String) :=
  match body.reverse.dropWhile isTrivial with
  | last :: rest => some ((rest.dropWhile isTrivial).reverse, last)
  | [] => none

/-- The path string with these components; the root alone is `"/"`. -/
def ofParts (ps : List String) : String := if ps = [""] then "/" else "/".intercalate ps

/-- `Path::parent`. -/
def parent (path : String) : Option String :=
  match splitLast (startAndBody path).2 with
  | some (dirs, _) => some (ofParts ((startAndBody path).1 ++ dirs))
  | none => if (startAndBody path).1 = ["."] then some "" else none

/-- `Path::file_name`. -/
def fileName (path : String) : Option String :=
  match splitLast (startAndBody path).2 with
  | some (_, last) => if last = ".." then none else some last
  | none => none

/-- `Path::join` with a relative path. -/
def join (dir name : String) : String :=
  if dir = "" then name
  else if dir.toList.getLast? = some '/' then dir ++ name
  else dir ++ "/" ++ name

example : parent "a//b/./" = some "a" ∧ fileName "a//b/./" = some "b" := by decide
example : parent "/b" = some "/" ∧ parent "./b" = some "." ∧ parent "b" = some "" := by decide

/-! ## Components and the strings they make -/

theorem slash_not_mem_of_mem_parts (path : String) {p : String} (h : p ∈ parts path) :
    '/' ∉ p.toList := by
  have hsplit : ∀ (cs : List Char), ∀ q ∈ cs.splitOn '/', '/' ∉ q := by
    intro cs
    induction cs with
    | nil => simp
    | cons c cs ih =>
      rw [List.splitOn_cons_eq_if_modifyHead]
      split
      · simpa using ih
      · next hc =>
        obtain ⟨q, qs, hqs⟩ := List.exists_cons_of_ne_nil (List.splitOn_ne_nil '/' cs)
        rw [hqs] at ih ⊢
        intro r hr
        rcases List.mem_cons.mp hr with rfl | hr
        · have hq := ih q (by simp)
          have hcne : c ≠ '/' := by simpa using hc
          simp [hq, hcne.symm]
        · exact ih r (List.mem_cons_of_mem _ hr)
  obtain ⟨q, hq, rfl⟩ := List.mem_map.mp h
  simpa using hsplit _ q hq

theorem Normal.enter_of_isTrivial {part : String} (h : isTrivial part = true) (x : Normal) :
    x.enter part = x := by
  have hcases : part = "" ∨ part = "." := by simpa [isTrivial] using h
  rcases hcases with rfl | rfl
  · exact enter_empty x
  · simp [enter, isName]

theorem Normal.foldl_enter_of_isTrivial {ps : List String} (h : ∀ p ∈ ps, isTrivial p = true)
    (x : Normal) : ps.foldl enter x = x := by
  induction ps with
  | nil => rfl
  | cons p ps ih =>
    rw [List.foldl_cons, enter_of_isTrivial (h p (by simp))]
    exact ih fun q hq => h q (List.mem_cons_of_mem _ hq)

/-- Components passed over at the end of a body lead nowhere. -/
theorem Normal.foldl_enter_dropWhile (ps : List String) (x : Normal) :
    ((ps.reverse.dropWhile isTrivial).reverse).foldl enter x = ps.foldl enter x := by
  have hsplit : ps = (ps.reverse.dropWhile isTrivial).reverse
      ++ (ps.reverse.takeWhile isTrivial).reverse := by
    rw [← List.reverse_append, List.takeWhile_append_dropWhile, List.reverse_reverse]
  conv_rhs => rw [hsplit, List.foldl_append]
  refine (foldl_enter_of_isTrivial (fun p hp => ?_) _).symm
  exact List.mem_takeWhile_imp (List.mem_reverse.mp hp)

theorem isAbsolute_iff (path : String) (hne : path ≠ "") :
    isAbsolute path = true ↔ (parts path).head? = some "" := by
  have hlist : path.toList ≠ [] := fun h => hne (String.toList_eq_nil_iff.mp h)
  obtain ⟨c, cs, hcs⟩ := List.exists_cons_of_ne_nil hlist
  unfold isAbsolute parts
  rw [hcs, List.splitOn_cons_eq_if_modifyHead]
  by_cases hc : c = '/'
  · simp [hc]
  · obtain ⟨q, qs, hqs⟩ := List.exists_cons_of_ne_nil (List.splitOn_ne_nil '/' cs)
    simp [hc, hqs]

theorem parts_ofParts {ps : List String} (hne : ps ≠ []) (hroot : ps ≠ [""])
    (h : ∀ p ∈ ps, '/' ∉ p.toList) : parts (ofParts ps) = ps := by
  unfold parts ofParts
  rw [if_neg hroot, String.toList_intercalate, show "/".toList = ['/'] from rfl,
    List.splitOn_intercalate]
  · simp
  · intro l hl
    obtain ⟨p, hp, rfl⟩ := List.mem_map.mp hl
    exact h p hp
  · simpa using hne

theorem ofParts_eq_empty {ps : List String} (hps : ofParts ps = "")
    (h : ∀ p ∈ ps, '/' ∉ p.toList) : ps = [] := by
  by_contra hne
  by_cases hroot : ps = [""]
  · simp [ofParts, hroot] at hps
  · have hparts := parts_ofParts hne hroot h
    rw [hps] at hparts
    exact hroot hparts.symm

theorem normalize_ofParts {ps : List String} (h : ∀ p ∈ ps, '/' ∉ p.toList) :
    normalize (ofParts ps) = ps.foldl Normal.enter ⟨ps.head? = some "", 0, []⟩ := by
  by_cases hne : ps = []
  · subst hne
    decide
  by_cases hroot : ps = [""]
  · subst hroot
    decide
  have hparts := parts_ofParts hne hroot h
  have habs := isAbsolute_iff (ofParts ps) (fun he => hne (ofParts_eq_empty he h))
  rw [hparts] at habs
  unfold normalize
  rw [hparts, Bool.eq_iff_iff.mpr (habs.trans decide_eq_true_iff.symm)]

/-! ## The parent and the last component -/

theorem parts_eq_start_append_body (path : String) :
    parts path = (startAndBody path).1 ++ (startAndBody path).2 := by
  unfold startAndBody
  split
  · next h => exact absurd h (parts_ne_nil path)
  · next h =>
    rw [h]
    split <;> rfl

/-- The last component is the first one from behind that is not trivial. -/
theorem exists_of_splitLast {body dirs : List String} {last : String}
    (h : splitLast body = some (dirs, last)) :
    ∃ rest, body.reverse.dropWhile isTrivial = last :: rest ∧
      dirs = (rest.dropWhile isTrivial).reverse := by
  unfold splitLast at h
  split at h
  · next l rest hrest =>
    obtain ⟨rfl, rfl⟩ := Prod.mk.inj (Option.some.inj h)
    exact ⟨rest, hrest, rfl⟩
  · cases h

theorem foldl_enter_splitLast {body dirs : List String} {last : String}
    (h : splitLast body = some (dirs, last)) (x : Normal) :
    body.foldl Normal.enter x = (dirs.foldl Normal.enter x).enter last := by
  obtain ⟨rest, hrest, rfl⟩ := exists_of_splitLast h
  rw [← Normal.foldl_enter_dropWhile body, hrest, List.reverse_cons, List.foldl_append]
  conv_rhs => rw [← List.reverse_reverse rest, Normal.foldl_enter_dropWhile]
  simp

theorem splitLast_eq_some {body dirs : List String} {last : String}
    (h : splitLast body = some (dirs, last)) :
    dirs <+: body ∧ last ∈ body ∧ isTrivial last = false := by
  obtain ⟨rest, hrest, rfl⟩ := exists_of_splitLast h
  have hsuffix : last :: rest <:+ body.reverse := hrest ▸ List.dropWhile_suffix _
  refine ⟨?_, List.mem_reverse.mp (hsuffix.subset (by simp)), ?_⟩
  · rw [← List.reverse_suffix, List.reverse_reverse]
    exact (List.dropWhile_suffix _).trans ((List.suffix_cons _ _).trans hsuffix)
  · have hhead := List.head?_dropWhile_not isTrivial body.reverse
    simpa [hrest] using hhead

theorem splitLast_eq_none {body : List String} (h : splitLast body = none) :
    ∀ p ∈ body, isTrivial p = true := by
  unfold splitLast at h
  split at h
  · cases h
  · next hnil =>
    intro p hp
    exact List.dropWhile_eq_nil_iff.mp hnil p (List.mem_reverse.mpr hp)

theorem isAbsolute_of_start_eq_nil {path : String} (h : (startAndBody path).1 = []) :
    isAbsolute path = false := by
  unfold startAndBody at h
  split at h
  · next hnil => exact absurd hnil (parts_ne_nil path)
  · split at h
    · cases h
    · next hc =>
      simp only [Bool.or_eq_true, not_or, Bool.not_eq_true] at hc
      exact hc.1

/-- A path starts at the root exactly when its kept components do. -/
theorem isAbsolute_eq_head {path : String} {dirs : List String} (hne : path ≠ "")
    (hdirs : dirs <+: (startAndBody path).2) :
    isAbsolute path = decide (((startAndBody path).1 ++ dirs).head? = some "") := by
  have hhead := isAbsolute_iff _ hne
  rw [parts_eq_start_append_body] at hhead
  rcases hstart : (startAndBody path).1 with _ | ⟨first, rest⟩
  · rw [hstart] at hhead
    rcases hdirs with ⟨rest, hrest⟩
    rcases dirs with _ | ⟨d, ds⟩
    · simp [isAbsolute_of_start_eq_nil hstart]
    · rw [Bool.eq_iff_iff, hhead, ← hrest]
      simp
  · rw [Bool.eq_iff_iff, hhead, hstart]
    simp

/-- **Parent and last component.** A path denotes its last component entered from its parent;
that component is the file name, or there is none and it is `..` or `.`. -/
theorem normalize_parent {path dir : String} (h : parent path = some dir) :
    ∃ last, normalize path = (normalize dir).enter last ∧
      (fileName path = some last ∨ fileName path = none ∧ (last = ".." ∨ last = ".")) := by
  have hne : path ≠ "" := by
    rintro rfl
    rw [show parent "" = none by decide] at h
    cases h
  have hslash : ∀ p ∈ (startAndBody path).1 ++ (startAndBody path).2, '/' ∉ p.toList := by
    rw [← parts_eq_start_append_body]
    exact fun p hp => slash_not_mem_of_mem_parts _ hp
  unfold parent at h
  split at h
  · -- the body has a last component that counts
    next dirs last hlast =>
    obtain ⟨hdirs, -, -⟩ := splitLast_eq_some hlast
    refine ⟨last, ?_, ?_⟩
    · rw [← Option.some.inj h, normalize_ofParts, ← isAbsolute_eq_head hne hdirs, List.foldl_append,
        ← foldl_enter_splitLast hlast, ← List.foldl_append, ← parts_eq_start_append_body]
      · rfl
      · intro p hp
        rw [List.mem_append] at hp
        exact hslash p (List.mem_append.mpr (hp.imp_right (hdirs.subset ·)))
    · unfold fileName
      rw [hlast]
      by_cases hup : last = ".."
      · simp [hup]
      · simp [hup]
  · next hnone =>
    split at h
    · -- only the leading `.` is left, and its parent is the empty path
      next hdot =>
      obtain rfl := Option.some.inj h
      refine ⟨".", ?_, .inr ⟨by unfold fileName; rw [hnone], .inr rfl⟩⟩
      have habs : isAbsolute path = false := by
        rw [isAbsolute_eq_head hne (List.nil_prefix), hdot]
        decide
      rw [Normal.enter_of_isTrivial (by decide)]
      unfold normalize
      rw [parts_eq_start_append_body, hdot, habs, List.foldl_append,
        Normal.foldl_enter_of_isTrivial (splitLast_eq_none hnone)]
      rfl
    · cases h

/-- A path without a parent is empty or the root. -/
theorem normalize_of_parent_eq_none {path : String} (hne : path ≠ "") (h : parent path = none) :
    normalize path = ⟨true, 0, []⟩ ∧ fileName path = none := by
  unfold parent at h
  split at h
  · cases h
  · next hnone =>
    refine ⟨?_, by unfold fileName; rw [hnone]⟩
    have hbody := splitLast_eq_none hnone
    -- a relative path has a first part, which would be its `.` or a component
    have habs : isAbsolute path = true := by
      by_contra hrel
      obtain ⟨first, rest, hparts⟩ := List.exists_cons_of_ne_nil (parts_ne_nil path)
      have hfirst : first ≠ "" := by
        rintro rfl
        exact hrel ((isAbsolute_iff _ hne).mpr (by rw [hparts]; rfl))
      by_cases hdot : first = "."
      · simp [startAndBody, hparts, hdot] at h
      · have hmem : first ∈ (startAndBody path).2 := by simp [startAndBody, hparts, hrel, hdot]
        have htrivial := hbody first hmem
        simp [isTrivial, hfirst, hdot] at htrivial
    have hall : ∀ p ∈ parts path, isTrivial p = true := by
      intro p hp
      rw [parts_eq_start_append_body] at hp
      rcases List.mem_append.mp hp with hp | hp
      · obtain ⟨first, rest, hparts⟩ := List.exists_cons_of_ne_nil (parts_ne_nil path)
        have hfirst : first = "" := by simpa [hparts] using (isAbsolute_iff _ hne).mp habs
        have hp : p = "" := by simpa [startAndBody, hparts, habs, hfirst] using hp
        simp [isTrivial, hp]
      · exact hbody p hp
    unfold normalize
    rw [habs, Normal.foldl_enter_of_isTrivial hall]

theorem slash_not_mem_fileName {path name : String} (h : fileName path = some name) :
    '/' ∉ name.toList := by
  unfold fileName at h
  split at h
  · next dirs last hlast =>
    have hname : last = name := by
      split at h
      · cases h
      · exact Option.some.inj h
    apply slash_not_mem_of_mem_parts path
    rw [parts_eq_start_append_body, ← hname]
    exact List.mem_append_right _ (splitLast_eq_some hlast).2.1
  · cases h

/-! ## Joining a name -/

theorem normalize_append_slash (dir : String) (n : FileName) :
    normalize (dir ++ "/" ++ n.str) = (normalize (dir ++ "/")).enter n.str := by
  have hne : dir ++ "/" ≠ "" := fun h => by
    simpa [String.toList_append] using congrArg String.toList h
  have hslash : parts (dir ++ "/") = parts dir ++ [""] := by
    have h := parts_append_slash dir ""
    rwa [String.append_empty] at h
  unfold normalize
  rw [isAbsolute_append hne, parts_append_slash, hslash, parts_of_noSlash n.noSlash,
    List.foldl_append, List.foldl_append]
  simp

theorem normalize_join (dir : String) (n : FileName) :
    normalize (join dir n.str) = (normalize dir).enter n.str := by
  unfold join
  split
  · -- joined to the empty path, the name stands alone
    next hdir =>
    have habs : isAbsolute n.str = false := by
      rw [← Bool.not_eq_true, isAbsolute_iff _ n.ne_empty, parts_of_noSlash n.noSlash]
      simpa using n.ne_empty
    subst hdir
    unfold normalize
    rw [habs, parts_of_noSlash n.noSlash]
    rfl
  · next hdir =>
    split
    · -- the separator is there already
      next hlast =>
      obtain ⟨cs, hcs⟩ := List.getLast?_eq_some_iff.mp hlast
      have hdir : dir = String.ofList cs ++ "/" := by
        apply String.toList_injective
        simpa [String.toList_append] using hcs
      rw [hdir, normalize_append_slash]
    · unfold normalize
      rw [String.append_assoc, isAbsolute_append hdir, ← String.append_assoc, parts_append_slash,
        parts_of_noSlash n.noSlash, List.foldl_append]
      rfl

/-! ## Names that lead down -/

/-- Entered from a directory, this name leads strictly below it: no component is `..`, and not all
of them are passed over. -/
def Descends (name : String) : Prop :=
  ".." ∉ parts name ∧ ∃ part ∈ parts name, isTrivial part = false

instance (name : String) : Decidable (Descends name) := by unfold Descends; infer_instance

theorem FileName.descends (n : FileName) : Descends n.str := by
  unfold Descends
  rw [parts_of_noSlash n.noSlash]
  have hdotdot := n.ne_dotdot
  simp [isTrivial, n.ne_empty, n.ne_dot, hdotdot.symm]

theorem Normal.length_lt_foldl_enter {ps : List String} (hslash : ∀ p ∈ ps, '/' ∉ p.toList)
    (hdotdot : ".." ∉ ps) (hdown : ∃ part ∈ ps, isTrivial part = false) (x : Normal) :
    x.names.length < (ps.foldl enter x).names.length := by
  obtain ⟨part, hmem, htrivial⟩ := hdown
  obtain ⟨as, bs, rfl⟩ := List.append_of_mem hmem
  have hpart : isName part = true := by
    have hne : part ≠ ".." := fun h => hdotdot (h ▸ hmem)
    simp [isTrivial] at htrivial
    simp [isName, htrivial, hne, hslash part hmem]
  -- the components around it never lead back up
  have hbefore := (inside_foldl_enter x as fun h => hdotdot (by simp [h])).2.2.length_le
  have hafter := (inside_foldl_enter ((as.foldl enter x).enter part) bs
    fun h => hdotdot (by simp [h])).2.2.length_le
  have henter := congrArg (fun y : Normal => y.names.length)
    (enter_name (as.foldl enter x) ⟨part, hpart⟩)
  rw [List.foldl_append, List.foldl_cons]
  simp only [List.length_cons] at henter
  omega

theorem splitLast_append (ps : List String) {qs : List String}
    (h : ∃ part ∈ qs, isTrivial part = false) :
    ∃ dirs last, splitLast (ps ++ qs) = some (dirs, last) ∧ last ∈ qs := by
  unfold splitLast
  rw [List.reverse_append, List.dropWhile_append]
  rcases hlast : qs.reverse.dropWhile isTrivial with _ | ⟨last, rest⟩
  · obtain ⟨part, hmem, htrivial⟩ := h
    have hall := List.dropWhile_eq_nil_iff.mp hlast part (List.mem_reverse.mpr hmem)
    rw [htrivial] at hall
    cases hall
  · refine ⟨_, last, by simp; rfl, List.mem_reverse.mp ?_⟩
    exact (List.dropWhile_suffix isTrivial).subset (hlast ▸ List.mem_cons_self)

theorem startAndBody_child (dir name : String) :
    ∃ ps, (startAndBody (child dir name)).2 = ps ++ parts name := by
  obtain ⟨first, rest, hfirst⟩ := List.exists_cons_of_ne_nil (parts_ne_nil (trimEndSlash dir))
  have hparts : parts (child dir name) = first :: (rest ++ parts name) := by
    rw [child, parts_append_slash, hfirst]
    rfl
  unfold startAndBody
  rw [hparts]
  dsimp only
  split
  · exact ⟨rest, rfl⟩
  · exact ⟨first :: rest, rfl⟩

/-- The last component of an entry that leads down is one of the entry's own. -/
theorem fileName_child (dir : String) {name : String} (hname : Descends name) :
    ∃ p, ∃ n : FileName, parent (child dir name) = some p ∧
      fileName (child dir name) = some n.str := by
  obtain ⟨ps, hbody⟩ := startAndBody_child dir name
  obtain ⟨dirs, last, hlast, hmem⟩ := splitLast_append ps hname.2
  rw [← hbody] at hlast
  have hdotdot : last ≠ ".." := fun h => hname.1 (h ▸ hmem)
  have hvalid : isName last = true := by
    have htrivial := (splitLast_eq_some hlast).2.2
    simp [isTrivial] at htrivial
    simp [isName, htrivial, hdotdot, slash_not_mem_of_mem_parts name hmem]
  refine ⟨ofParts ((startAndBody (child dir name)).1 ++ dirs), ⟨last, hvalid⟩, ?_, ?_⟩
  · unfold parent
    rw [hlast]
  · unfold fileName
    rw [hlast]
    exact if_neg hdotdot

/-- The parent of an entry that leads down is in the directory, and so is the entry. -/
theorem parent_child {dir name : String} (hdir : dir ≠ "") (hname : Descends name) :
    ∃ p n, parent (child dir name) = some p ∧ Normal.Inside (normalize dir) (normalize p) ∧
      normalize (child dir name) = { normalize p with names := n :: (normalize p).names } := by
  obtain ⟨p, n, hparent, hfile⟩ := fileName_child dir hname
  obtain ⟨last, henter, hlast⟩ := normalize_parent hparent
  rw [hfile] at hlast
  obtain rfl : n.str = last := by simpa using hlast
  rw [Normal.enter_name] at henter
  refine ⟨p, n, hparent, ?_, henter⟩
  -- the entry is strictly below the directory, so its parent is still inside
  have hslash : ∀ q ∈ parts name, '/' ∉ q.toList := fun q => slash_not_mem_of_mem_parts name
  have hinside := Normal.inside_foldl_enter (normalize dir) (parts name) hname.1
  have hlong := Normal.length_lt_foldl_enter hslash hname.1 hname.2 (normalize dir)
  rw [← normalize_child dir name hdir, henter] at hinside hlong
  refine ⟨hinside.1, hinside.2.1, ?_⟩
  rcases List.suffix_cons_iff.mp hinside.2.2 with heq | hsuffix
  · rw [heq] at hlong
    simp at hlong
  · exact hsuffix

end SlashPath
