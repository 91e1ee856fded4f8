import Passhrs.Lib.Text
import Passhrs.Sftp.AtomicWrite

/-!
# `pull_path`

Recursive download. The names of the local files come from the server's directory listings, so
the question is where they can lead. It is asked of every server: an operation is answered by an
arbitrary handler, and only the names in the listings are constrained.

* **`pullPath_confined`**: when every listed name leads strictly down and the pull starts at a
  directory, each local path that is created, written, renamed or removed is inside the local
  root.
* **`pullPath_escapes`**: one name with `..` in it is enough to write elsewhere.
-/

namespace Passhrs

open Effects SlashPath

def applyLocalMode (path : String) (srcMode : UInt32) : FileM Unit :=
  withContext s!"cannot set local mode on {path}" (fsSetPermissions path (srcMode &&& 0o7777))

/-- `pull_path`. The message of the last case has the error's own text at its end. -/
def pullPath (printable : Char → Bool) : Nat → String → String → FileM Unit
  | 0, _, _ => throw ⟨[], .outOfFuel⟩
  | fuel + 1, remote, localPath => do
    match ← attempt (metadata remote) with
    | .ok stat =>
      if stat.isDir then
        withContext s!"cannot create local directory: {localPath}" (fsCreateDirAll localPath)
        let entries ← withContext s!"cannot read remote directory: {remote}" (readDir remote)
        forM entries fun name => pullPath printable fuel (child remote name) (child localPath name)
      else
        let data ← withContext s!"failed to read remote file: {remote}" (read remote)
        match parent localPath with
        | some dir =>
          withContext ("cannot create parent directory: " ++ Text.debugStr printable dir)
            (fsCreateDirAll dir)
        | none => pure ()
        atomicWriteLocal localPath data
        match stat.permissions with
        | some perms => ignore (applyLocalMode localPath perms)
        | none => pure ()
    | .error e => throw ⟨[s!"cannot access remote path {remote}"], e⟩

/-! ## Local paths of an operation -/

/-- The local paths that an operation creates, writes, renames or removes. Writes through an open
file are covered by its open. -/
def FileOp.localTargets : FileOp → List String
  | .fsOpenCreateNew path | .fsRemoveFile path | .fsCreateDirAll path
  | .fsSetPermissions path _ => [path]
  | .fsRename oldPath newPath => [oldPath, newPath]
  | _ => []

def Confined (root : String) (op : FileOp) : Prop :=
  ∀ path ∈ op.localTargets, Normal.Inside (normalize root) (normalize path)

/-- Directory listings with names that lead strictly down; any other answer. -/
def ListsDescending : (op : FileOp) → FileOp.Res op → Prop
  | .readDir _, r => ∀ names, r = .ok names → ∀ name ∈ names, Descends name
  | _, _ => True

/-- Such a program stays inside `root`, as long as the server lists names that lead down. -/
abbrev StaysIn {ε α : Type} (root : String) (x : Action FileOp FileOp.Res ε α) : Prop :=
  Emits ListsDescending (Confined root) (fun _ => True) x

section Confinement

variable {printable : Char → Bool} {root : String}

theorem confined_nil {op : FileOp} (h : op.localTargets = []) : Confined root op := by
  intro path hpath
  rw [h] at hpath
  cases hpath

theorem confined_one {op : FileOp} {path : String} (h : op.localTargets = [path])
    (hpath : Normal.Inside (normalize root) (normalize path)) : Confined root op := by
  intro target htarget
  rw [h, List.mem_singleton] at htarget
  exact htarget ▸ hpath

theorem staysIn_atomicWriteLocal {path : String} (data : Bytes)
    (hpath : Normal.Inside (normalize root) (normalize path))
    (hparent : Normal.Inside (normalize root) (normalize ((parent path).getD "."))) :
    StaysIn root (atomicWriteLocal path data) := by
  refine emits_atomicWriteLocal (confined_nil rfl) (fun hash => ?_) data
  -- the temp file is a sibling of the target
  have htmp : Normal.Inside (normalize root) (normalize (localTmp path (tmpSuffix hash))) := by
    obtain ⟨n, -, hn⟩ := normalize_localTmp path hash
    rw [hn]
    exact hparent.trans (Normal.inside_cons _ n)
  refine ⟨confined_one rfl htmp, fun _ _ => confined_nil rfl, fun _ => confined_nil rfl,
    fun _ => confined_nil rfl, fun q hq => ?_, confined_one rfl htmp⟩
  rcases List.mem_pair.mp hq with rfl | rfl
  · exact htmp
  · exact hpath

/-- A pull to an entry of a directory inside the root. -/
theorem staysIn_pullPath (fuel : Nat) (remote : String) {dir name : String} (hdir : dir ≠ "")
    (hname : Descends name) (hinside : Normal.Inside (normalize root) (normalize dir)) :
    StaysIn root (pullPath printable fuel remote (child dir name)) := by
  induction fuel generalizing remote dir name with
  | zero => exact emits_throw _
  | succ fuel ih =>
    obtain ⟨p, n, hparent, hp, hchild⟩ := parent_child hdir hname
    have hp := hinside.trans hp
    have hchild : Normal.Inside (normalize root) (normalize (child dir name)) := by
      rw [hchild]
      exact hp.trans ⟨rfl, rfl, List.suffix_cons _ _⟩
    refine emits_bind (emits_attempt (Q := fun _ => True)
      ⟨confined_nil rfl, fun _ _ _ _ => trivial⟩) fun r _ => ?_
    rcases r with e | stat
    · exact emits_throw _
    dsimp only
    split
    · -- a directory: every entry is again a descending name below a place inside
      refine emits_bind
        (emits_mapError ⟨confined_one rfl hchild, fun _ _ _ _ => trivial⟩) fun _ _ => ?_
      refine emits_bind (Q := fun entries => ∀ name ∈ entries, Descends name)
        (emits_mapError ⟨confined_nil rfl, fun _ h => h⟩) fun entries hentries => ?_
      exact emits_forM fun entry hentry =>
        ih (child remote entry) (child_ne_empty dir name) (hentries entry hentry) hchild
    · refine emits_bind (emits_mapError ⟨confined_nil rfl, fun _ _ _ _ => trivial⟩) fun data _ => ?_
      rw [hparent]
      refine emits_bind (emits_mapError ⟨confined_one rfl hp, fun _ _ _ _ => trivial⟩) fun _ _ => ?_
      refine emits_bind (staysIn_atomicWriteLocal data hchild (by rw [hparent]; exact hp))
        fun _ _ => ?_
      split
      · exact emits_ignore (emits_mapError (Q := fun _ => True)
          ⟨confined_one rfl hchild, fun _ _ _ _ => trivial⟩)
      · exact emits_pure trivial

end Confinement

section Pull

variable {printable : Char → Bool} {σ : Type} {h : Handler FileOp FileOp.Res σ}

/-- **A pull of a directory writes only inside the local root**, when every name the server lists
leads strictly down. -/
theorem pullPath_confined {remote localRoot : String} {s : σ} (hroot : localRoot ≠ "")
    (hnames : ∀ path s names, (h (.readDir path) s).1 = .ok names → ∀ name ∈ names, Descends name)
    (hdir : ∀ stat, (h (.metadata remote) s).1 = .ok stat → stat.isDir = true) (fuel : Nat) :
    ∀ e ∈ execLog h (pullPath printable fuel remote localRoot) s, ∀ path ∈ e.1.localTargets,
      Normal.Inside (normalize localRoot) (normalize path) := by
  have hanswers : ∀ op s, ListsDescending op (h op s).1 := by
    rintro ⟨⟩ s <;> first | exact hnames _ s | trivial
  rcases fuel with _ | fuel
  · intro e he
    cases he
  intro e he
  rw [pullPath, execLog_attempt_bind] at he
  rcases List.mem_append.mp he with he | he
  · -- the first stat
    have hstat : execLog h (metadata remote) s
        = [⟨.metadata remote, (h (.metadata remote) s).1⟩] := rfl
    rw [hstat, List.mem_singleton] at he
    rw [he]
    exact confined_nil rfl
  have hstat : exec h (metadata remote) s = h (.metadata remote) s := rfl
  rw [hstat] at he
  rcases hr : (h (.metadata remote) s).1 with err | stat
  · rw [hr] at he
    cases he
  · rw [hr] at he
    dsimp only at he
    rw [if_pos (hdir stat hr)] at he
    refine Emits.of_mem_execLog (P := Confined localRoot) (Q := fun _ => True) hanswers ?_ _ e he
    refine emits_bind (emits_mapError ⟨?_, fun _ _ _ _ => trivial⟩) fun _ _ => ?_
    · intro path hpath
      rw [List.mem_singleton.mp hpath]
      exact Normal.inside_refl _
    · refine emits_bind (Q := fun entries => ∀ name ∈ entries, Descends name)
        (emits_mapError ⟨confined_nil rfl, fun _ h => h⟩) fun entries hentries => ?_
      exact emits_forM fun entry hentry => staysIn_pullPath fuel (child remote entry) hroot
        (hentries entry hentry) (Normal.inside_refl _)

/-- A server that lists its own files lists names that lead down. -/
theorem step_readDir_descends (env : Env) (path : String) (w : World) (names : List String)
    (h : (step env (.readDir path) w).1 = .ok names) : ∀ name ∈ names, Descends name := by
  have hexec : exec (step env) (readDir path) w = (.ok names, (step env (.readDir path) w).2) :=
    Prod.ext h rfl
  obtain ⟨-, rfl, -⟩ := exec_readDir_eq_ok hexec
  intro name hname
  obtain ⟨n, -, rfl⟩ := List.mem_map.mp hname
  exact n.descends

theorem pullPath_confined_one_file :
    let w := World.start (Tree.dirWith ⟨"r", by decide⟩ [(⟨"f", by decide⟩, [1])]) FileTree.empty
    ∀ e ∈ execLog (step .reliable) (pullPath (fun _ => true) 2 "/r" "/l") w,
      ∀ path ∈ e.1.localTargets, Normal.Inside (normalize "/l") (normalize path) :=
  pullPath_confined (by decide) (step_readDir_descends .reliable)
    (fun stat h => by
      obtain rfl : dirMetadata 0o755 = stat := Except.ok.inj h
      decide) 2

end Pull

/-! ## A server that lists `../evil` -/

/-- The server of `env`, except that it lists `/r` with this one name. -/
def Env.lists (env : Env) (name : String) : Handler FileOp FileOp.Res World
  | .readDir path, w => if path = "/r" then (.ok [name], w.next) else step env (.readDir path) w
  | op, w => step env op w

/-- The pulled directory is `/l`, and the file arrives at `/evil`. -/
theorem pullPath_escapes :
    let w := World.start ((Tree.dirWith ⟨"r", by decide⟩ []).setFile [⟨"evil", by decide⟩]
      ⟨[1], 0o644, 0, 0⟩) FileTree.empty
    let pull : FileM Unit := pullPath (fun _ => true) 2 "/r" "/l"
    (∃ e ∈ execLog (Env.reliable.lists "../evil") pull w, ∃ path ∈ e.1.localTargets,
      ¬ Normal.Inside (normalize "/l") (normalize path)) ∧
    (exec (Env.reliable.lists "../evil") pull w).2.disk.contentOf [⟨"evil", by decide⟩]
      = some [1] := by
  decide +kernel

end Passhrs
