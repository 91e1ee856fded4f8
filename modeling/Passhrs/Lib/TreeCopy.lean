import Mathlib.Data.List.Nodup
import Passhrs.Lib.FileTree

/-!
# Copies of trees

When two subtrees are the same, and what a recursive copy has to do to make them so. Files are
compared through a `view`: what of a file counts.

* **`SameBelow`**: the entries below two locations agree.
* **`Copies`**: the step from `u` to `v` made a copy at `q`, and changed nothing elsewhere.
* **`Copying`**: the state between two rounds of a loop over the entries of a directory.
  `Copying.start`, `Copying.next` and `Copying.finish` are the rules of that loop.
-/

/-- What counts of a node. -/
def Node.map {φ ψ : Type} (view : φ → ψ) : Node φ → Node ψ
  | .file f => .file (view f)
  | .dir => .dir

namespace FileTree

variable {ν φ ψ : Type} [DecidableEq ν]

/-- The names of the entries of a directory are different. -/
theorem nodup_children (t : FileTree ν φ) (p : List ν) : (t.children p).Nodup := by
  refine List.Nodup.filterMap (fun q q' n hq hq' => ?_) t.nodes.keys_nodup
  rw [entryOf_eq_some_iff.mp hq, entryOf_eq_some_iff.mp hq']

theorem get_child_eq_none {t : FileTree ν φ} {p : List ν} (h : t.get p = none) (n : ν) :
    t.get (n :: p) = none := by
  show t.get ([n] ++ p) = none
  exact get_append_eq_none (by simp [h]) (List.cons_ne_nil n [])

/-- The entry that a listing comes to next is there, and was not among those before it. -/
theorem next_child {t : FileTree ν φ} {p done rest : List ν} {n : ν}
    (h : t.children p = done ++ n :: rest) : t.get (n :: p) ≠ none ∧ n ∉ done := by
  have hnodup := nodup_children t p
  rw [h] at hnodup
  refine ⟨mem_children.mp (by simp [h]), fun hmem => ?_⟩
  exact (List.nodup_append.mp hnodup).2.2 n hmem n List.mem_cons_self rfl

/-! ## The same entries -/

/-- Below `p` in `t` and below `q` in `u` are the same entries. -/
def SameBelow (view : φ → ψ) (t : FileTree ν φ) (p : List ν) (u : FileTree ν φ) (q : List ν) :
    Prop :=
  ∀ ns, (t.get (ns ++ p)).map (Node.map view) = (u.get (ns ++ q)).map (Node.map view)

section SameBelow

variable {view : φ → ψ} {t u v : FileTree ν φ} {p q r : List ν}

theorem SameBelow.trans (h : SameBelow view t p u q) (h' : SameBelow view u q v r) :
    SameBelow view t p v r := fun ns => (h ns).trans (h' ns)

theorem SameBelow.get_eq_none_iff (h : SameBelow view t p u q) (ns : List ν) :
    t.get (ns ++ p) = none ↔ u.get (ns ++ q) = none := by
  rw [← Option.map_eq_none_iff (f := Node.map view), h ns, Option.map_eq_none_iff]

theorem SameBelow.dir (h : SameBelow view t p u q) (hp : t.get p = some .dir) :
    u.get q = some .dir := by
  have hnode := h []
  rw [List.nil_append, List.nil_append, hp] at hnode
  obtain ⟨node, hq, hdir⟩ := Option.map_eq_some_iff.mp hnode.symm
  cases node with
  | file g => cases hdir
  | dir => exact hq

theorem SameBelow.congr_right (h : SameBelow view t p u q)
    (hv : ∀ ns, v.get (ns ++ q) = u.get (ns ++ q)) : SameBelow view t p v q := by
  intro ns
  rw [hv, h ns]

/-- Nothing is below what is not there. -/
theorem sameBelow_of_absent (hp : t.get p = none) (hq : u.get q = none) :
    SameBelow view t p u q := by
  intro ns
  by_cases hns : ns = []
  · rw [hns, List.nil_append, List.nil_append, hp, hq]
  · rw [get_append_eq_none (by simp [hp]) hns, get_append_eq_none (by simp [hq]) hns]

theorem sameBelow_of_file {f g : φ} (hp : t.get p = some (.file f)) (hq : u.get q = some (.file g))
    (hview : view g = view f) : SameBelow view t p u q := by
  intro ns
  by_cases hns : ns = []
  · rw [hns, List.nil_append, List.nil_append, hp, hq, Option.map_some, Option.map_some, Node.map,
      Node.map, hview]
  · rw [get_append_eq_none (by simp [hp]) hns, get_append_eq_none (by simp [hq]) hns]

/-- Two directories are the same when their entries are, name by name. -/
theorem sameBelow_of_dir (hp : t.get p = some .dir) (hq : u.get q = some .dir)
    (hentries : ∀ n, SameBelow view t (n :: p) u (n :: q)) : SameBelow view t p u q := by
  intro ns
  rcases List.eq_nil_or_concat ns with rfl | ⟨ms, n, rfl⟩
  · rw [List.nil_append, List.nil_append, hp, hq]
  · have hentry := hentries n ms
    rwa [List.concat_eq_append, List.append_assoc, List.append_assoc, List.singleton_append,
      List.singleton_append]

end SameBelow

/-! ## Making a copy -/

/-- From `u` to `v`, the subtree of `t` at `p` has been copied to `q`. -/
structure Copies (view : φ → ψ) (t : FileTree ν φ) (p : List ν) (u v : FileTree ν φ) (q : List ν) :
    Prop where
  same : SameBelow view t p v q
  frame : ∀ x, ¬ q <:+ x → v.get x = u.get x

/-- The entries `done` of the directory have been copied, and no other entry is there. -/
structure Copying (view : φ → ψ) (t : FileTree ν φ) (p : List ν) (u : FileTree ν φ) (q : List ν)
    (done : List ν) (v : FileTree ν φ) : Prop where
  dir : v.get q = some .dir
  copied : ∀ n ∈ done, SameBelow view t (n :: p) v (n :: q)
  absent : ∀ n, n ∉ done → v.get (n :: q) = none
  frame : ∀ x, ¬ q <:+ x → v.get x = u.get x

omit [DecidableEq ν] in
/-- The entry `m` of a directory is not below another entry. -/
theorem not_suffix_of_ne {n m : ν} (hne : n ≠ m) (ns q : List ν) :
    ¬ (n :: q) <:+ ns ++ m :: q := by
  intro h
  have hlen : (n :: q).length ≤ (m :: q).length := le_rfl
  have heq := (List.suffix_of_suffix_length_le h (List.suffix_append ns (m :: q)) hlen).eq_of_length
    rfl
  exact hne (List.cons.inj heq).1

section Copying

variable {view : φ → ψ} {t u v v' : FileTree ν φ} {p q : List ν} {done : List ν}

theorem copies_of_file {f g : φ} (hp : t.get p = some (.file f)) (hview : view g = view f)
    (hv : ∀ x, v.get x = if x = q then some (.file g) else u.get x) :
    Copies view t p u v q := by
  refine ⟨sameBelow_of_file hp (by rw [hv, if_pos rfl]) hview, fun x hx => ?_⟩
  rw [hv, if_neg]
  rintro rfl
  exact hx (List.suffix_refl x)

/-- A new directory is the start of a copy. -/
theorem Copying.start (habsent : u.get q = none)
    (hv : ∀ x, v.get x = if x = q then some .dir else u.get x) : Copying view t p u q [] v where
  dir := by rw [hv, if_pos rfl]
  copied n hn := by cases hn
  absent n _ := by
    rw [hv, if_neg (by simp), get_child_eq_none habsent]
  frame x hx := by
    rw [hv, if_neg]
    rintro rfl
    exact hx (List.suffix_refl x)

/-- So is any empty directory. -/
theorem Copying.of_empty (hdir : v.get q = some .dir) (hempty : ∀ n, v.get (n :: q) = none) :
    Copying view t p v q [] v :=
  ⟨hdir, fun n hn => (by cases hn), fun n _ => hempty n, fun _ _ => rfl⟩

/-- One more entry has been copied. -/
theorem Copying.next (h : Copying view t p u q done v) {n : ν} (hn : n ∉ done)
    (hcopy : Copies view t (n :: p) v v' (n :: q)) : Copying view t p u q (done ++ [n]) v' where
  dir := by
    rw [hcopy.frame q fun hs => by simpa using hs.length_le, h.dir]
  copied m hm := by
    rcases List.mem_append.mp hm with hm | hm
    · -- the new entry is another one
      have hne : n ≠ m := by
        rintro rfl
        exact hn hm
      exact (h.copied m hm).congr_right fun ns => hcopy.frame _ (not_suffix_of_ne hne ns q)
    · rw [List.mem_singleton.mp hm]
      exact hcopy.same
  absent m hm := by
    rw [List.mem_append, List.mem_singleton, not_or] at hm
    rw [hcopy.frame (m :: q) (not_suffix_of_ne (Ne.symm hm.2) [] q), h.absent m hm.1]
  frame x hx := by
    rw [hcopy.frame x fun hs => hx ((List.suffix_cons n q).trans hs), h.frame x hx]

/-- Once all entries have been copied, so has the directory. -/
theorem Copying.finish (h : Copying view t p u q (t.children p) v) (hp : t.get p = some .dir) :
    Copies view t p u v q := by
  refine ⟨sameBelow_of_dir hp h.dir fun n => ?_, h.frame⟩
  by_cases hn : n ∈ t.children p
  · exact h.copied n hn
  · have hnone : t.get (n :: p) = none := by simpa [mem_children] using hn
    exact sameBelow_of_absent hnone (h.absent n hn)

end Copying

end FileTree
