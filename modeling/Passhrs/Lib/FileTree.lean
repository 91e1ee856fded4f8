import Mathlib.Data.List.AList
import Mathlib.Algebra.Order.BigOperators.Group.List
import Mathlib.Algebra.Order.Group.Nat

/-!
# File trees

A hierarchical store of files: a finite map from locations to nodes, closed under taking the
parent. A location lists names innermost first, so the entry `n` of directory `p` is `n :: p`
and the root is `[]`. The order of the map is the order in which a directory is listed; it is
arbitrary, so a statement about every tree is a statement about every listing order.

`setFile`, `removeFile` and `mkdir` keep the two closure fields themselves: on a location where
the operation makes no sense they return the tree as it is. Each has one `get_` lemma that says
what the tree holds afterwards; later modules use only these.
-/

/-- What a location holds: a file with payload `φ`, or a directory. -/
inductive Node (φ : Type) where
  | file (f : φ)
  | dir
deriving DecidableEq

/-- A finite tree of files over names `ν`. -/
structure FileTree (ν φ : Type) [DecidableEq ν] where
  nodes : AList (fun _ : List ν => Node φ)
  root : nodes.lookup [] = some .dir
  parent : ∀ n p, nodes.lookup (n :: p) ≠ none → nodes.lookup p = some .dir

namespace FileTree

variable {ν φ : Type} [DecidableEq ν]

/-- The node at a location. -/
def get (t : FileTree ν φ) (p : List ν) : Option (Node φ) := t.nodes.lookup p

/-- The file at a location. -/
def fileAt (t : FileTree ν φ) (p : List ν) : Option φ :=
  match t.get p with
  | some (.file f) => some f
  | _ => none

/-- The location holds a directory. -/
def isDir (t : FileTree ν φ) (p : List ν) : Bool :=
  match t.get p with
  | some .dir => true
  | _ => false

theorem fileAt_eq_some_iff {t : FileTree ν φ} {p : List ν} {f : φ} :
    t.fileAt p = some f ↔ t.get p = some (.file f) := by
  unfold fileAt
  split <;> simp_all

theorem fileAt_eq_none {t : FileTree ν φ} {p : List ν} (h : ¬ ∃ f, t.get p = some (.file f)) :
    t.fileAt p = none := by
  rw [Option.eq_none_iff_forall_ne_some]
  exact fun f hf => h ⟨f, fileAt_eq_some_iff.mp hf⟩

theorem fileAt_congr {t u : FileTree ν φ} {p q : List ν} (h : t.get p = u.get q) :
    t.fileAt p = u.fileAt q := by
  unfold fileAt
  rw [h]

theorem isDir_iff {t : FileTree ν φ} {p : List ν} : t.isDir p = true ↔ t.get p = some .dir := by
  unfold isDir
  split <;> simp_all

theorem get_root (t : FileTree ν φ) : t.get [] = some .dir := t.root

theorem get_parent {t : FileTree ν φ} {n : ν} {p : List ν} (h : t.get (n :: p) ≠ none) :
    t.get p = some .dir := t.parent n p h

/-- Every proper ancestor of an existing entry is a directory. -/
theorem get_ancestor {t : FileTree ν φ} {ns p : List ν} (h : t.get (ns ++ p) ≠ none)
    (hns : ns ≠ []) : t.get p = some .dir := by
  induction ns with
  | nil => exact absurd rfl hns
  | cons n ns ih =>
    have hparent : t.get (ns ++ p) = some .dir := get_parent h
    by_cases hnil : ns = []
    · simpa [hnil] using hparent
    · exact ih (by simp [hparent]) hnil

/-- Nothing is below what is not a directory. -/
theorem get_append_eq_none {t : FileTree ν φ} {p : List ν} (h : t.get p ≠ some .dir)
    {ns : List ν} (hns : ns ≠ []) : t.get (ns ++ p) = none := by
  by_contra hne
  exact h (get_ancestor hne hns)

/-! ## Listing a directory -/

/-- The name under which `q` is an entry of `p`, if it is one. -/
def entryOf (p : List ν) : List ν → Option ν
  | n :: q => if q = p then some n else none
  | [] => none

/-- The names of the entries of a directory, in the order of the map. -/
def children (t : FileTree ν φ) (p : List ν) : List ν := t.nodes.keys.filterMap (entryOf p)

theorem entryOf_eq_some_iff {p q : List ν} {n : ν} : entryOf p q = some n ↔ q = n :: p := by
  cases q with
  | nil => simp [entryOf]
  | cons m q =>
    by_cases h : q = p
    · simp [entryOf, h]
    · simp [entryOf, h]

theorem mem_children {t : FileTree ν φ} {p : List ν} {n : ν} :
    n ∈ t.children p ↔ t.get (n :: p) ≠ none := by
  have hkey : n :: p ∈ t.nodes.keys ↔ t.get (n :: p) ≠ none := by
    rw [← AList.mem_keys, ← AList.lookup_isSome, get, Option.isSome_iff_ne_none]
  rw [← hkey, children, List.mem_filterMap]
  constructor
  · rintro ⟨q, hq, hn⟩
    rwa [entryOf_eq_some_iff.mp hn] at hq
  · intro hq
    exact ⟨n :: p, hq, entryOf_eq_some_iff.mpr rfl⟩

/-- The length of the longest location. -/
def depth (t : FileTree ν φ) : Nat := (t.nodes.keys.map List.length).foldr Nat.max 0

theorem length_le_depth {t : FileTree ν φ} {p : List ν} (hp : t.get p ≠ none) :
    p.length ≤ t.depth := by
  have hkey : p ∈ t.nodes.keys := by
    rwa [← AList.mem_keys, ← AList.lookup_isSome, Option.isSome_iff_ne_none]
  have hle : ∀ l : List Nat, ∀ k ∈ l, k ≤ l.foldr Nat.max 0 := by
    intro l
    induction l with
    | nil => simp
    | cons m l ih =>
      intro k hk
      rcases List.mem_cons.mp hk with rfl | hk
      · exact Nat.le_max_left k _
      · exact (ih k hk).trans (Nat.le_max_right m _)
  exact hle _ _ (List.mem_map_of_mem hkey)

/-- The tree is finite, so its depth is bounded. -/
theorem exists_depth (t : FileTree ν φ) : ∃ k, ∀ p, t.get p ≠ none → p.length ≤ k :=
  ⟨t.depth, fun _ => length_le_depth⟩

/-! ## Changing a tree -/

/-- A file may be created or replaced at the location: its parent is a directory and it is not
one itself. -/
def writable (t : FileTree ν φ) : List ν → Bool
  | [] => false
  | n :: p => t.isDir p && !t.isDir (n :: p)

theorem writable_cons_iff {t : FileTree ν φ} {n : ν} {p : List ν} :
    t.writable (n :: p) = true ↔ t.get p = some .dir ∧ t.get (n :: p) ≠ some .dir := by
  simp [writable, ← isDir_iff]

theorem get_ne_dir_of_writable {t : FileTree ν φ} {p : List ν} (h : t.writable p = true) :
    t.get p ≠ some .dir := by
  cases p with
  | nil => cases h
  | cons n p => exact (writable_cons_iff.mp h).2

/-- Whoever holds a file is writable. -/
theorem writable_of_file {t : FileTree ν φ} {p : List ν} {f : φ}
    (h : t.get p = some (.file f)) : t.writable p = true := by
  cases p with
  | nil => simp [get_root] at h
  | cons n p =>
    rw [writable_cons_iff]
    exact ⟨get_parent (n := n) (by simp [h]), by simp [h]⟩

/-- Where a file may go depends on the directories only. -/
theorem writable_congr {t u : FileTree ν φ} (h : ∀ q, t.get q = some .dir ↔ u.get q = some .dir)
    (p : List ν) : t.writable p = u.writable p := by
  cases p with
  | nil => rfl
  | cons n p =>
    rw [Bool.eq_iff_iff, writable_cons_iff, writable_cons_iff, h, ne_eq, ne_eq, h]

/-- Create or replace the file at a writable location. -/
def setFile (t : FileTree ν φ) (p : List ν) (f : φ) : FileTree ν φ :=
  if h : t.writable p = true then
    { nodes := t.nodes.insert p (.file f)
      root := by
        cases p with
        | nil => simp [writable] at h
        | cons n p => rw [AList.lookup_insert_ne (by simp)]; exact t.root
      parent := by
        intro m q hq
        cases p with
        | nil => simp [writable] at h
        | cons n p =>
          obtain ⟨hdir, hnot⟩ := writable_cons_iff.mp h
          by_cases hmq : m :: q = n :: p
          · obtain ⟨-, rfl⟩ := List.cons.inj hmq
            rw [AList.lookup_insert_ne (by simp)]
            exact hdir
          · rw [AList.lookup_insert_ne hmq] at hq
            -- the new file is no one's directory: nothing could be below it before
            have hqdir := t.parent m q hq
            have hqp : q ≠ n :: p := by
              rintro rfl
              exact hnot hqdir
            rw [AList.lookup_insert_ne hqp]
            exact hqdir }
  else t

theorem lookup_insert_eq_ite (nodes : AList (fun _ : List ν => Node φ)) (p : List ν) (node : Node φ)
    (q : List ν) :
    (nodes.insert p node).lookup q = if q = p then some node else nodes.lookup q := by
  by_cases hq : q = p
  · subst hq
    rw [if_pos rfl]
    exact AList.lookup_insert _
  · rw [if_neg hq]
    exact AList.lookup_insert_ne hq

theorem get_setFile {t : FileTree ν φ} {p : List ν} (h : t.writable p = true) (f : φ)
    (q : List ν) : (t.setFile p f).get q = if q = p then some (.file f) else t.get q := by
  unfold setFile
  rw [dif_pos h]
  exact lookup_insert_eq_ite _ _ _ q

/-- Remove the file at a location. Directories are not removed. -/
def removeFile (t : FileTree ν φ) (p : List ν) : FileTree ν φ :=
  if h : (t.fileAt p).isSome = true then
    { nodes := t.nodes.erase p
      root := by
        obtain ⟨f, hf⟩ := Option.isSome_iff_exists.mp h
        have hp : ([] : List ν) ≠ p := by
          rintro rfl
          simp [fileAt, get_root] at hf
        rw [AList.lookup_erase_ne hp]
        exact t.root
      parent := by
        intro m q hq
        obtain ⟨f, hf⟩ := Option.isSome_iff_exists.mp h
        have hfile : t.nodes.lookup p = some (.file f) := fileAt_eq_some_iff.mp hf
        have hmq : m :: q ≠ p := by
          rintro rfl
          simp at hq
        rw [AList.lookup_erase_ne hmq] at hq
        -- what goes was a file, so nothing hangs below it
        have hqdir := t.parent m q hq
        have hqp : q ≠ p := by
          rintro rfl
          simp [hqdir] at hfile
        rw [AList.lookup_erase_ne hqp]
        exact hqdir }
  else t

theorem get_removeFile {t : FileTree ν φ} {p : List ν} {f : φ} (h : t.get p = some (.file f))
    (q : List ν) : (t.removeFile p).get q = if q = p then none else t.get q := by
  unfold removeFile
  rw [dif_pos (by rw [fileAt_eq_some_iff.mpr h]; rfl)]
  by_cases hq : q = p
  · subst hq
    rw [if_pos rfl]
    exact AList.lookup_erase _ _
  · rw [if_neg hq]
    exact AList.lookup_erase_ne hq

/-- Create a directory where nothing is and the parent is a directory. -/
def mkdir (t : FileTree ν φ) : List ν → FileTree ν φ
  | [] => t
  | n :: p =>
    if h : t.isDir p = true ∧ (t.get (n :: p)).isNone = true then
      { nodes := t.nodes.insert (n :: p) .dir
        root := by rw [AList.lookup_insert_ne (by simp)]; exact t.root
        parent := by
          intro m q hq
          by_cases hmq : m :: q = n :: p
          · obtain ⟨-, rfl⟩ := List.cons.inj hmq
            rw [AList.lookup_insert_ne (by simp)]
            exact isDir_iff.mp h.1
          · rw [AList.lookup_insert_ne hmq] at hq
            have hqdir := t.parent m q hq
            by_cases hqp : q = n :: p
            · subst hqp
              exact AList.lookup_insert _
            · rw [AList.lookup_insert_ne hqp]
              exact hqdir }
    else t

theorem get_mkdir {t : FileTree ν φ} {n : ν} {p : List ν} (hdir : t.get p = some .dir)
    (hnone : t.get (n :: p) = none) (q : List ν) :
    (t.mkdir (n :: p)).get q = if q = n :: p then some .dir else t.get q := by
  rw [mkdir, dif_pos ⟨isDir_iff.mpr hdir, by simp [hnone]⟩]
  exact lookup_insert_eq_ite _ _ _ q

/-- Making a directory touches no file. -/
theorem fileAt_mkdir (t : FileTree ν φ) (p q : List ν) : (t.mkdir p).fileAt q = t.fileAt q := by
  cases p with
  | nil => rfl
  | cons n p =>
    by_cases h : t.isDir p = true ∧ (t.get (n :: p)).isNone = true
    · have hnone : t.get (n :: p) = none := by simpa using h.2
      unfold fileAt
      rw [get_mkdir (isDir_iff.mp h.1) hnone]
      by_cases hq : q = n :: p
      · simp [hq, hnone]
      · rw [if_neg hq]
    · rw [mkdir, dif_neg h]

/-- The tree with an empty root directory. -/
def empty : FileTree ν φ where
  nodes := AList.singleton [] .dir
  root := AList.lookup_insert (∅ : AList fun _ : List ν => Node φ)
  parent := by
    intro n p h
    exact absurd (AList.lookup_insert_ne (s := ∅) (List.cons_ne_nil n p)) h

end FileTree
