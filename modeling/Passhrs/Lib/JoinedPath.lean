import Passhrs.Lib.SlashPath

/-!
# Joined paths

Path strings that a program builds below a root, one `child` after the other, from names that
come out of directory listings. Such a name has no slash in it, but may be `..`, `.` or empty.

* **`Loc.enter`**: where one component leads from a location.
* **`walk_child`**: a joined path leads where its last name does from the directory it is joined
  to; **`walk_child_empty`**: joined to the empty path, it starts from the root instead.
* **`Leads`**: a path is joined from names below a root, and leads where the names do from the
  directory that the root denotes. `Leads.refl` and `Leads.child` are its rules, for every root
  but one (`StartsAt`); `Leads.eq_nil` says why not for that one.
-/

namespace SlashPath

/-! ## One component -/

/-- Where `part` leads from `p`: to the parent, to an entry, or nowhere else. -/
def Loc.enter (p : Loc) (part : String) : Loc :=
  if part = ".." then p.tail
  else if h : isName part = true then ⟨part, h⟩ :: p
  else p

@[simp] theorem Loc.enter_empty (p : Loc) : Loc.enter p "" = p := by
  simp [Loc.enter, isName]

@[simp] theorem Loc.enter_name (p : Loc) (n : FileName) : Loc.enter p n.str = n :: p := by
  unfold Loc.enter
  rw [if_neg n.ne_dotdot, dif_pos n.valid]

/-- A normal form goes on by a component as the location it denotes does. -/
theorem Normal.locate_enter (x : Normal) (part : String) (cwd : Loc) :
    (x.enter part).locate cwd = Loc.enter (x.locate cwd) part := by
  unfold Normal.enter Loc.enter
  split
  · rcases x with ⟨absolute, ups, _ | ⟨n, names⟩⟩
    · cases absolute with
      | true => rfl
      | false => simp [Normal.locate, List.tail_drop]
    · cases absolute with
      | true => rfl
      | false => rfl
  · split
    · exact Normal.locate_cons x _ cwd
    · rfl

/-- **A joined path leads where its last name does**, from the directory it is joined to. -/
theorem walk_child (cwd : Loc) {dir name : String} (hdir : dir ≠ "") (hname : '/' ∉ name.toList) :
    walk cwd (child dir name) = Loc.enter (walk cwd dir) name := by
  unfold walk
  rw [normalize_child dir name hdir, parts_of_noSlash hname]
  exact Normal.locate_enter _ name cwd

/-- The empty path and the root are trimmed to the same string. -/
theorem child_empty (name : String) : child "" name = child "/" name := rfl

/-- **Joined to the empty path, a name is looked up in the root**, wherever one works. -/
theorem walk_child_empty (cwd : Loc) {name : String} (hname : '/' ∉ name.toList) :
    walk cwd (child "" name) = Loc.enter [] name := by
  rw [child_empty, walk_child cwd (by decide) hname]
  rfl

/-! ## Several components -/

/-- The path string built from `root` by joining `names`, one after the other. -/
def joined (root : String) (names : List String) : String := names.foldl child root

theorem joined_append_singleton (root : String) (names : List String) (name : String) :
    joined root (names ++ [name]) = child (joined root names) name := by
  simp [joined]

/-- The components of a joined path that are not empty. -/
theorem filter_parts_child (dir : String) {name : String} (hname : '/' ∉ name.toList) :
    (parts (child dir name)).filter (· ≠ "")
      = (parts dir).filter (· ≠ "") ++ [name].filter (· ≠ "") := by
  obtain ⟨k, hk⟩ := parts_trimEndSlash dir
  have htrim : (parts dir).filter (· ≠ "") = (parts (trimEndSlash dir)).filter (· ≠ "") := by
    rw [hk, List.filter_append, List.filter_replicate]
    simp
  rw [child, parts_append_slash, parts_of_noSlash hname, List.filter_append, htrim]

theorem filter_parts_joined (root : String) {names : List String}
    (hnames : ∀ n ∈ names, '/' ∉ n.toList) :
    (parts (joined root names)).filter (· ≠ "")
      = (parts root).filter (· ≠ "") ++ names.filter (· ≠ "") := by
  induction names generalizing root with
  | nil => simp [joined]
  | cons n names ih =>
    have htail := ih (child root n) fun m hm => hnames m (List.mem_cons_of_mem n hm)
    show (parts (joined (child root n) names)).filter (· ≠ "") = _
    rw [htail, filter_parts_child root (hnames n List.mem_cons_self), List.append_assoc,
      ← List.filter_append, List.singleton_append]

/-- Empty components lead nowhere. -/
theorem foldl_enter_filter (p : Loc) (names : List String) :
    (names.filter (· ≠ "")).foldl Loc.enter p = names.foldl Loc.enter p := by
  induction names generalizing p with
  | nil => rfl
  | cons n names ih =>
    by_cases hn : n = ""
    · subst hn
      simpa using ih p
    · simpa [hn] using ih (Loc.enter p n)

/-! ## Where joined paths lead -/

/-- `path` is joined from names below `root`, and leads where these names do from the directory
that `root` denotes. -/
def Leads (cwd : Loc) (root path : String) : Prop :=
  ∃ names : List String, (∀ n ∈ names, '/' ∉ n.toList) ∧ path = joined root names ∧
    walk cwd path = names.foldl Loc.enter (walk cwd root)

/-- Joining to `root` starts at the directory that `root` denotes. -/
def StartsAt (cwd : Loc) (root : String) : Prop := root = "" → cwd = []

namespace Leads

variable {cwd : Loc} {root path : String}

theorem refl (cwd : Loc) (root : String) : Leads cwd root root :=
  ⟨[], fun _ h => absurd h List.not_mem_nil, rfl, rfl⟩

/-- One name more, unless nothing has been joined to the empty root. -/
theorem child_of_ne (h : Leads cwd root path) (hne : path ≠ "") {name : String}
    (hname : '/' ∉ name.toList) : Leads cwd root (SlashPath.child path name) := by
  obtain ⟨names, hnames, rfl, hwalk⟩ := h
  refine ⟨names ++ [name], fun n hn => ?_, (joined_append_singleton root names name).symm, ?_⟩
  · rcases List.mem_append.mp hn with hn | hn
    · exact hnames n hn
    · exact (List.mem_singleton.mp hn) ▸ hname
  · rw [List.foldl_append, ← hwalk]
    exact walk_child cwd hne hname

/-- One name more, from a root that joining starts at. -/
theorem child (hroot : StartsAt cwd root) (h : Leads cwd root path) {name : String}
    (hname : '/' ∉ name.toList) : Leads cwd root (SlashPath.child path name) := by
  by_cases hne : path = ""
  case neg => exact h.child_of_ne hne hname
  subst hne
  -- only the empty root is joined to the empty path, and there the working directory is `/`
  obtain ⟨names, -, hempty, -⟩ := h
  obtain rfl : names = [] := by
    rcases List.eq_nil_or_concat names with hnil | ⟨ns, n, rfl⟩
    · exact hnil
    · rw [List.concat_eq_append, joined_append_singleton] at hempty
      exact absurd hempty.symm (child_ne_empty _ _)
  obtain rfl : "" = root := hempty
  obtain rfl : cwd = [] := hroot rfl
  refine ⟨[name], fun n hn => (List.mem_singleton.mp hn) ▸ hname, rfl, ?_⟩
  exact walk_child_empty [] hname

/-- **Below the empty root, a joined path leads to the entry of the working directory only if that
is the root directory.** -/
theorem eq_nil {n : FileName} (h : Leads cwd "" (SlashPath.child "" n.str)) : cwd = [] := by
  obtain ⟨names, hnames, hpath, hwalk⟩ := h
  have hcwd : walk cwd "" = cwd := rfl
  -- up to empty ones, there is one name
  have hparts : names.filter (· ≠ "") = [n.str] := by
    have hjoined := filter_parts_joined "" hnames
    rw [← hpath, filter_parts_child "" n.noSlash] at hjoined
    simpa [n.ne_empty] using (List.append_cancel_left hjoined).symm
  rw [walk_child_empty cwd n.noSlash, ← foldl_enter_filter, hparts, hcwd, List.foldl_cons,
    List.foldl_nil, Loc.enter_name, Loc.enter_name] at hwalk
  exact (List.cons.inj hwalk).2.symm

end Leads

end SlashPath
