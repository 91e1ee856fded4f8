import Mathlib.Data.List.DropRight

/-!
# Slash-separated paths

Path strings as programs build them (`dir + "/" + name`, trailing slashes trimmed) and what they
denote where no symbolic links exist.

* **`FileName`**: one directory entry's name. Its proof field excludes the strings that a path
  cannot carry as an entry (`""`, `"."`, `".."`, anything with a slash).
* **`normalize`**: the lexical normal form of a path string: empty and `.` components dropped,
  `..` cancelling the component before it. Names are kept innermost first, so that the entry
  `n` of directory `p` is `n :: p` and the parent of a location is its tail.
* **`child`**: `trimEndSlash dir ++ "/" ++ name`. `normalize_child` says that the string denotes
  what entering `name` from `dir` denotes; it is the only fact about trimming and joining that
  later modules need.
* **`below`**: iterated `child`; `rel` is the part of such a string that does not depend on the
  root.
-/

namespace SlashPath

/-! ## Components -/

/-- The components of a path string, empty ones included. -/
def parts (s : String) : List String := (s.toList.splitOn '/').map String.ofList

theorem parts_append_slash (a b : String) : parts (a ++ "/" ++ b) = parts a ++ parts b := by
  unfold parts
  rw [String.toList_append, String.toList_append, List.append_assoc,
    show "/".toList ++ b.toList = '/' :: b.toList from rfl, List.splitOn_append_cons_self,
    List.map_append]

theorem parts_of_noSlash {s : String} (h : '/' ∉ s.toList) : parts s = [s] := by
  unfold parts
  rw [List.splitOn_eq_singleton h]
  simp

theorem parts_ne_nil (s : String) : parts s ≠ [] := by
  unfold parts
  simp

/-- `trim_end_matches('/')`. -/
def trimEndSlash (s : String) : String := String.ofList (s.toList.rdropWhile (· = '/'))

/-- The trimmed slashes only contribute empty components at the end. -/
theorem parts_trimEndSlash (s : String) :
    ∃ k, parts s = parts (trimEndSlash s) ++ List.replicate k "" := by
  have hsplit : s.toList.rdropWhile (· = '/') ++ s.toList.rtakeWhile (· = '/') = s.toList :=
    List.rdropWhile_append_rtakeWhile ..
  -- the trimmed tail is a run of slashes
  have htail : s.toList.rtakeWhile (· = '/')
      = List.replicate (s.toList.rtakeWhile (· = '/')).length '/' := by
    apply List.eq_replicate_of_mem
    intro c hc
    simpa using List.mem_rtakeWhile_imp hc
  have hrun : ∀ (l : List Char) (k : Nat),
      (l ++ List.replicate k '/').splitOn '/' = l.splitOn '/' ++ List.replicate k [] := by
    intro l k
    induction k with
    | zero => simp
    | succ k ih =>
      rw [List.replicate_succ', ← List.append_assoc,
        show l ++ List.replicate k '/' ++ ['/'] = (l ++ List.replicate k '/') ++ '/' :: [] from rfl,
        List.splitOn_append_cons_self, ih, List.replicate_succ', List.splitOn_nil,
        List.append_assoc]
  refine ⟨(s.toList.rtakeWhile (· = '/')).length, ?_⟩
  unfold parts trimEndSlash
  rw [String.toList_ofList]
  conv_lhs => rw [← hsplit, htail, hrun]
  simp

/-! ## Names and normal forms -/

/-- `s` can be the name of a directory entry. -/
def isName (s : String) : Bool := s ≠ "" && s ≠ "." && s ≠ ".." && !s.toList.contains '/'

/-- The name of a directory entry. -/
structure FileName where
  str : String
  valid : isName str = true
deriving DecidableEq

theorem FileName.noSlash (n : FileName) : '/' ∉ n.str.toList := by
  have h := n.valid
  simp [isName] at h
  exact h.2

theorem FileName.ne_empty (n : FileName) : n.str ≠ "" := by
  have h := n.valid
  simp [isName] at h
  exact h.1.1.1

theorem FileName.ne_dotdot (n : FileName) : n.str ≠ ".." := by
  have h := n.valid
  simp [isName] at h
  exact h.1.2

theorem FileName.ne_dot (n : FileName) : n.str ≠ "." := by
  have h := n.valid
  simp [isName] at h
  exact h.1.1.2

@[ext] theorem FileName.ext {n m : FileName} (h : n.str = m.str) : n = m := by
  cases n
  cases m
  simpa using h

/-- A location: the names from an entry up to the root, innermost first. -/
abbrev Loc : Type := List FileName

/-- A lexically normalised path: `ups` leading `..` components (relative paths only), then
`names`, innermost first. -/
structure Normal where
  absolute : Bool
  ups : Nat
  names : Loc
deriving DecidableEq

namespace Normal

/-- Continue a normalised path by one component. -/
def enter (x : Normal) (part : String) : Normal :=
  if part = ".." then
    match x.names with
    | _ :: rest => { x with names := rest }
    | [] => if x.absolute then x else { x with ups := x.ups + 1 }
  else if h : isName part = true then { x with names := ⟨part, h⟩ :: x.names }
  else x

/-- The location a normalised path denotes for a process working in `cwd`. -/
def locate (x : Normal) (cwd : Loc) : Loc :=
  if x.absolute then x.names else x.names ++ cwd.drop x.ups

/-- `x` is `root` or an entry somewhere below it. -/
def Inside (root x : Normal) : Prop :=
  x.absolute = root.absolute ∧ x.ups = root.ups ∧ root.names <:+ x.names

instance (root x : Normal) : Decidable (Inside root x) := by unfold Inside; infer_instance

theorem inside_refl (x : Normal) : Inside x x := ⟨rfl, rfl, List.suffix_refl _⟩

theorem inside_cons (x : Normal) (n : FileName) : Inside x { x with names := n :: x.names } :=
  ⟨rfl, rfl, List.suffix_cons _ _⟩

theorem Inside.trans {x y z : Normal} (hxy : Inside x y) (hyz : Inside y z) : Inside x z :=
  ⟨hyz.1.trans hxy.1, hyz.2.1.trans hxy.2.1, hxy.2.2.trans hyz.2.2⟩

@[simp] theorem enter_empty (x : Normal) : x.enter "" = x := by
  simp [enter, isName]

@[simp] theorem enter_name (x : Normal) (n : FileName) :
    x.enter n.str = { x with names := n :: x.names } := by
  unfold enter
  rw [if_neg n.ne_dotdot, dif_pos n.valid]

theorem foldl_enter_replicate_empty (x : Normal) (k : Nat) :
    (List.replicate k "").foldl enter x = x := by
  induction k with
  | zero => rfl
  | succ k ih => simpa [List.replicate_succ] using ih

/-- Entering components none of which is `..` stays inside. -/
theorem inside_foldl_enter (x : Normal) (ps : List String) (h : ".." ∉ ps) :
    Inside x (ps.foldl enter x) := by
  induction ps generalizing x with
  | nil => exact inside_refl x
  | cons part ps ih =>
    have hpart : part ≠ ".." := fun e => h (by simp [e])
    have hstep : Inside x (x.enter part) := by
      unfold enter
      rw [if_neg hpart]
      split
      · exact inside_cons x _
      · exact inside_refl x
    exact hstep.trans (ih _ (fun hm => h (List.mem_cons_of_mem _ hm)))

end Normal

/-- The path string starts at the root. -/
def isAbsolute (s : String) : Bool := s.toList.head? = some '/'

/-- The lexical normal form of a path string. -/
def normalize (s : String) : Normal := (parts s).foldl Normal.enter ⟨isAbsolute s, 0, []⟩

/-- The location a path string denotes for a process working in `cwd`. -/
def walk (cwd : Loc) (s : String) : Loc := (normalize s).locate cwd

/-! ## Joining -/

/-- `format!("{}/{}", dir.trim_end_matches('/'), name)`. -/
def child (dir name : String) : String := trimEndSlash dir ++ "/" ++ name

theorem trimEndSlash_eq_empty_iff (s : String) :
    trimEndSlash s = "" ↔ ∀ c ∈ s.toList, c = '/' := by
  unfold trimEndSlash
  rw [← String.toList_eq_nil_iff, String.toList_ofList, List.rdropWhile_eq_nil_iff]
  simp

theorem isAbsolute_append {a : String} (ha : a ≠ "") (b : String) :
    isAbsolute (a ++ b) = isAbsolute a := by
  obtain ⟨c, cs, hcs⟩ := List.exists_cons_of_ne_nil
    (fun h => ha (String.toList_eq_nil_iff.mp h))
  simp [isAbsolute, String.toList_append, hcs]

theorem isAbsolute_append_slash (dir t : String) (hdir : dir ≠ "") :
    isAbsolute (trimEndSlash dir ++ "/" ++ t) = isAbsolute dir := by
  have hne : dir.toList ≠ [] := fun h => hdir (String.toList_eq_nil_iff.mp h)
  by_cases htrim : trimEndSlash dir = ""
  · -- only slashes: both strings start with one
    have hall := (trimEndSlash_eq_empty_iff dir).mp htrim
    obtain ⟨c, cs, hcs⟩ := List.exists_cons_of_ne_nil hne
    have hc : c = '/' := hall c (by simp [hcs])
    simp [isAbsolute, String.toList_append, htrim, hcs, hc]
  · -- otherwise the first character survives the trimming
    have hpre : (trimEndSlash dir).toList <+: dir.toList := by
      unfold trimEndSlash
      rw [String.toList_ofList]
      exact List.rdropWhile_prefix ..
    obtain ⟨rest, hrest⟩ := hpre
    have hdir : dir = trimEndSlash dir ++ String.ofList rest := by
      apply String.toList_injective
      simpa [String.toList_append] using hrest.symm
    rw [String.append_assoc, isAbsolute_append htrim]
    conv_rhs => rw [hdir, isAbsolute_append htrim]

/-- **What a joined path denotes.** The components of `name` are entered from `dir`. -/
theorem normalize_child (dir name : String) (hdir : dir ≠ "") :
    normalize (child dir name) = (parts name).foldl Normal.enter (normalize dir) := by
  obtain ⟨k, hk⟩ := parts_trimEndSlash dir
  have habs := isAbsolute_append_slash dir name hdir
  unfold normalize child
  rw [habs, parts_append_slash, List.foldl_append]
  conv_rhs => rw [hk, List.foldl_append, Normal.foldl_enter_replicate_empty]

theorem normalize_child_name (dir : String) (n : FileName) (hdir : dir ≠ "") :
    normalize (child dir n.str)
      = { normalize dir with names := n :: (normalize dir).names } := by
  rw [normalize_child dir n.str hdir, parts_of_noSlash n.noSlash]
  simp

theorem Normal.locate_cons (x : Normal) (n : FileName) (cwd : Loc) :
    ({ x with names := n :: x.names } : Normal).locate cwd = n :: x.locate cwd := by
  unfold locate
  split <;> rfl

theorem walk_child_name (cwd : Loc) (dir : String) (n : FileName) (hdir : dir ≠ "") :
    walk cwd (child dir n.str) = n :: walk cwd dir := by
  unfold walk
  rw [normalize_child_name dir n hdir, Normal.locate_cons]

theorem child_ne_empty (dir name : String) : child dir name ≠ "" := by
  intro h
  have := congrArg String.toList h
  simp [child, String.toList_append] at this

/-- A joined path has no trailing slash to trim. -/
theorem trimEndSlash_child (dir : String) (n : FileName) :
    trimEndSlash (child dir n.str) = child dir n.str := by
  have hne : n.str.toList ≠ [] := fun h => n.ne_empty (String.toList_eq_nil_iff.mp h)
  unfold trimEndSlash
  rw [List.rdropWhile_eq_self_iff.mpr, String.ofList_toList]
  intro hl
  have hlast : (child dir n.str).toList.getLast hl = n.str.toList.getLast hne := by
    simp only [child, String.toList_append]
    rw [List.getLast_append_of_ne_nil _ hne]
  rw [hlast]
  intro hslash
  exact n.noSlash ((of_decide_eq_true hslash) ▸ List.getLast_mem hne)

/-! ## Paths below a root -/

/-- The path string of the entry reached from `root` through `names`, outermost first. -/
def below (root : String) (names : List FileName) : String :=
  names.foldl (fun dir n => child dir n.str) root

/-- The path of the entry reached through `names`, relative to the root. -/
def rel : List FileName → String
  | [] => ""
  | n :: names => names.foldl (fun s m => s ++ "/" ++ m.str) n.str

@[simp] theorem below_nil (root : String) : below root [] = root := rfl

theorem below_append (root : String) (names : List FileName) (n : FileName) :
    below root (names ++ [n]) = child (below root names) n.str := by
  simp [below]

theorem below_ne_empty {root : String} (hroot : root ≠ "") (names : List FileName) :
    below root names ≠ "" := by
  rcases List.eq_nil_or_concat names with rfl | ⟨ns, n, rfl⟩
  · exact hroot
  · rw [List.concat_eq_append, below_append]
    exact child_ne_empty _ _

/-- Below the root, a path string is the trimmed root, a slash, and the relative path. -/
theorem below_eq (root : String) {names : List FileName} (hne : names ≠ []) :
    below root names = trimEndSlash root ++ "/" ++ rel names := by
  induction names using List.reverseRecOn with
  | nil => exact absurd rfl hne
  | append_singleton ns n ih =>
    rw [below_append]
    rcases List.eq_nil_or_concat ns with rfl | ⟨ms, m, hms⟩
    · rfl
    · have hns : ns ≠ [] := by simp [hms]
      have hrel : rel (ns ++ [n]) = rel ns ++ "/" ++ n.str := by
        obtain ⟨x, xs, rfl⟩ := List.exists_cons_of_ne_nil hns
        simp [rel]
      have htrim : trimEndSlash (below root ns) = below root ns := by
        rw [hms, List.concat_eq_append, below_append]
        exact trimEndSlash_child _ _
      rw [child, htrim, ih hns, hrel]
      simp only [String.append_assoc]

theorem normalize_below {root : String} (hroot : root ≠ "") (names : List FileName) :
    normalize (below root names)
      = { normalize root with names := names.reverse ++ (normalize root).names } := by
  induction names using List.reverseRecOn with
  | nil => simp
  | append_singleton ns n ih =>
    rw [below_append, normalize_child_name _ _ (below_ne_empty hroot ns), ih]
    simp

theorem walk_below (cwd : Loc) {root : String} (hroot : root ≠ "") (names : List FileName) :
    walk cwd (below root names) = names.reverse ++ walk cwd root := by
  unfold walk
  rw [normalize_below hroot]
  unfold Normal.locate
  split <;> simp_all

/-- Different names below one root give different path strings. -/
theorem below_injective {root : String} (hroot : root ≠ "") {ns ms : List FileName}
    (h : below root ns = below root ms) : ns = ms := by
  have hwalk := congrArg (walk []) h
  rw [walk_below [] hroot, walk_below [] hroot] at hwalk
  exact List.reverse_injective (List.append_cancel_right hwalk)

/-! ## Appending to the last component

Programs that write a sibling of a path append to the path string itself, so the suffix lands on
whatever its last component is. -/

theorem isName_append {last s : String} (hlast : '/' ∉ last.toList) (hs : '/' ∉ s.toList)
    (hlen : 3 ≤ s.length) : isName (last ++ s) = true := by
  have hne : ∀ x : String, x.length < 3 → last ++ s ≠ x := by
    intro x hx h
    have := congrArg String.length h
    rw [String.length_append] at this
    omega
  simp only [isName, Bool.and_eq_true, decide_eq_true_eq, Bool.not_eq_eq_eq_not, Bool.not_true]
  refine ⟨⟨⟨hne "" (by decide), hne "." (by decide)⟩, hne ".." (by decide)⟩, ?_⟩
  simp [String.toList_append, hlast, hs]

/-- A string splits at its last slash, if it has one. -/
theorem eq_append_slash_of_mem {s : String} (h : '/' ∈ s.toList) :
    ∃ dir last, s = dir ++ "/" ++ last ∧ '/' ∉ last.toList := by
  obtain ⟨as, bs, hrev, hnot⟩ := List.eq_append_cons_of_mem (List.mem_reverse.mpr h)
  refine ⟨String.ofList bs.reverse, String.ofList as.reverse, ?_, by simpa using hnot⟩
  apply String.toList_injective
  have hs := congrArg List.reverse hrev
  simpa [String.toList_append] using hs

/-- A path string with `s` appended names an entry of the directory that its last component was
looked up in. -/
theorem normalize_append (path : String) {s : String} (hs : '/' ∉ s.toList)
    (hlen : 3 ≤ s.length) :
    ∃ (x : Normal) (last : String) (n : FileName), n.str = last ++ s ∧
      normalize path = x.enter last ∧
      normalize (path ++ s) = { x with names := n :: x.names } := by
  by_cases hslash : '/' ∈ path.toList
  · obtain ⟨dir, last, rfl, hlast⟩ := eq_append_slash_of_mem hslash
    have hlast' : '/' ∉ (last ++ s).toList := by simp [String.toList_append, hlast, hs]
    have habs : ∀ t : String, isAbsolute (dir ++ "/" ++ t) = isAbsolute (dir ++ "/") :=
      isAbsolute_append fun h => by simpa [String.toList_append] using congrArg String.toList h
    refine ⟨(parts dir).foldl Normal.enter ⟨isAbsolute (dir ++ "/"), 0, []⟩, last,
      ⟨last ++ s, isName_append hlast hs hlen⟩, rfl, ?_, ?_⟩
    · unfold normalize
      rw [habs, parts_append_slash, parts_of_noSlash hlast, List.foldl_append]
      rfl
    · unfold normalize
      rw [String.append_assoc, habs, parts_append_slash, parts_of_noSlash hlast',
        List.foldl_append]
      exact Normal.enter_name _ ⟨last ++ s, _⟩
  · -- without a slash the string is its own last component
    have hslash' : '/' ∉ (path ++ s).toList := by simp [String.toList_append, hslash, hs]
    have habs : ∀ t : String, '/' ∉ t.toList → isAbsolute t = false := by
      intro t ht
      unfold isAbsolute
      rcases htl : t.toList with _ | ⟨c, cs⟩
      · simp
      · have hc : c ≠ '/' := fun e => ht (by simp [htl, e])
        simp [hc]
    refine ⟨⟨false, 0, []⟩, path, ⟨path ++ s, isName_append hslash hs hlen⟩, rfl, ?_, ?_⟩
    · unfold normalize
      rw [habs _ hslash, parts_of_noSlash hslash]
      rfl
    · unfold normalize
      rw [habs _ hslash', parts_of_noSlash hslash']
      exact Normal.enter_name _ ⟨path ++ s, _⟩

/-- Entering two different components from one directory leads to different places, if one of
them is a name. -/
theorem locate_enter_ne (x : Normal) (cwd : Loc) {last : String} {n : FileName}
    (hn : n.str ≠ last) :
    ({ x with names := n :: x.names } : Normal).locate cwd ≠ (x.enter last).locate cwd := by
  intro h
  unfold Normal.enter at h
  split at h
  · -- `..` leads to a shorter location
    rcases x with ⟨abs, ups, _ | ⟨m, names⟩⟩
    · cases abs with
      | true => simp [Normal.locate] at h
      | false =>
        have hlen := congrArg List.length h
        simp only [Normal.locate, Bool.false_eq_true, if_false, List.cons_append,
          List.nil_append, List.length_cons, List.length_drop] at hlen
        omega
    · have hlen := congrArg List.length h
      simp only [Normal.locate] at hlen
      split at hlen
      · simp only [List.length_cons] at hlen
        omega
      · simp only [List.cons_append, List.length_cons, List.length_append] at hlen
        omega
  · split at h
    · -- two different names
      have hhead : n = ⟨last, by assumption⟩ := by
        simp only [Normal.locate] at h
        split at h
        · exact (List.cons.inj h).1
        · exact (List.cons.inj h).1
      exact hn (congrArg FileName.str hhead)
    · -- the component leads nowhere
      have hlen := congrArg List.length h
      simp only [Normal.locate] at hlen
      split at hlen
      · simp only [List.length_cons] at hlen
        omega
      · simp only [List.cons_append, List.length_cons] at hlen
        omega

/-- A path and the path with a suffix denote different locations. -/
theorem walk_append_ne (cwd : Loc) (path : String) {s : String} (hs : '/' ∉ s.toList)
    (hlen : 3 ≤ s.length) : walk cwd (path ++ s) ≠ walk cwd path := by
  obtain ⟨x, last, n, hn, hpath, happ⟩ := normalize_append path hs hlen
  unfold walk
  rw [hpath, happ]
  apply locate_enter_ne
  intro h
  have := congrArg String.length (hn.symm.trans h)
  rw [String.length_append] at this
  omega

end SlashPath
