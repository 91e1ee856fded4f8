import Passhrs.Sftp.Pull
import Passhrs.Sftp.Push
import Passhrs.Lib.JoinedPath
import Passhrs.Run.FileSpec

/-!
# Child paths

`push_path`, `pull_path`, `list_remote_files` and `list_local_files` name an entry by its
directory's path, trailing slashes trimmed, a slash, and the entry's name. Such a path should lead
to that entry, at every depth and for every root that `--push`, `--pull` and `--rsync` can be
given. It does, but below an empty root: trimming leaves nothing, so that a relative path turns
into an absolute one.

* **`step_findsEntries`**: what is asked of the answers holds of every server and disk.
* **`childPaths_lead_iff`**: each of the four leads where it should exactly when it joins nothing
  to an empty root, or the directory that this stands for is the root directory.
* **`pushPath_leaves_login_directory`**: a push to the login directory arrives elsewhere.
-/

namespace Passhrs

open Effects SlashPath

/-! ## The paths of a run -/

/-- No name has a slash in it. -/
def EntryNames (names : List String) : Prop := ∀ name ∈ names, '/' ∉ name.toList

/-- A directory has entries with names, and nothing is found at the empty local path (as
`fs::metadata` and `fs::read_dir` have it). Any other answer may be given. -/
def FindsEntries : (op : FileOp) → FileOp.Res op → Prop
  | .readDir _, r => ∀ names, r = .ok names → EntryNames names
  | .fsReadDir path, r => ∀ names, r = .ok names → path ≠ "" ∧ EntryNames names
  | .fsMetadata path, r => ∀ stat, r = .ok stat → path ≠ ""
  | _, _ => True

theorem entryNames_children (ns : List FileName) : EntryNames (ns.map FileName.str) := by
  intro name hname
  obtain ⟨n, -, rfl⟩ := List.mem_map.mp hname
  exact n.noSlash

/-- A server and a disk with files on them answer so. -/
theorem step_findsEntries (env : Env) (op : FileOp) (w : World) :
    FindsEntries op (step env op w).1 := by
  cases op with
  | readDir path =>
    intro names hnames
    have hexec : exec (step env) (readDir path) w = (.ok names, (step env (.readDir path) w).2) :=
      Prod.ext hnames rfl
    obtain ⟨-, rfl, -⟩ := exec_readDir_eq_ok hexec
    exact entryNames_children _
  | fsReadDir path =>
    intro names hnames
    have hexec : exec (step env) (fsReadDir path) w
        = (.ok names, (step env (.fsReadDir path) w).2) := Prod.ext hnames rfl
    obtain ⟨p, hp, -, rfl, -⟩ := exec_fsReadDir_eq_ok hexec
    exact ⟨Env.ne_empty_of_diskLoc hp, entryNames_children _⟩
  | fsMetadata path =>
    intro stat hstat
    have hexec : exec (step env) (fsMetadata path) w
        = (.ok stat, (step env (.fsMetadata path) w).2) := Prod.ext hstat rfl
    obtain ⟨p, -, hp, -⟩ := exec_fsMetadata_eq_ok hexec
    exact Env.ne_empty_of_diskLoc hp
  | _ => trivial

/-- A temp path that a write on the server stages one of the paths in `S` at. -/
def StagesRemote (S : String → Prop) (tmp : String) : Prop :=
  ∃ path hash, S path ∧ tmp = path ++ ".tmp." ++ tmpSuffix hash

/-- A temp path that a local write stages one of the paths in `D` at. -/
def StagesLocal (D : String → Prop) (tmp : String) : Prop :=
  ∃ path hash, D path ∧ tmp = localTmp path (tmpSuffix hash)

/-- The server's paths that `op` names are in `S` and the local ones in `D`, but for temp paths of
theirs and local directories above them, which are created if missing. -/
def FileOp.PathsIn (S D : String → Prop) : FileOp → Prop
  | .metadata path | .readDir path | .createDir path | .read path | .setMetadata path _ => S path
  | .openWithFlags tmp => StagesRemote S tmp
  | .removeFile path => S path ∨ StagesRemote S path
  | .rename tmp path => StagesRemote S tmp ∧ S path
  | .fsMetadata path | .fsReadDir path | .fsNextEntry path | .fsFileType path _
  | .fsEntryMetadata path _ | .fsRead path | .fsSetPermissions path _ => D path
  | .fsOpenCreateNew tmp | .fsRemoveFile tmp => StagesLocal D tmp
  | .fsRename tmp path => StagesLocal D tmp ∧ D path
  | .fsCreateDirAll dir => D dir ∨ ∃ path, D path ∧ parent path = some dir
  | .writeAll _ _ | .flush _ | .syncAll _ | .close _ | .fsWriteAll _ _ | .fsFlush _ | .fsSyncAll _
  | .suffixHash => True

/-- Every run of `x` in which directories have entries keeps to paths that lead where the joined
names do from the two roots, and so does what it returns. -/
def RunsLead (env : Env) (localRoot remoteRoot : String) {α : Type} (returned : α → Prop)
    (x : FileM α) : Prop :=
  ∀ (σ : Type) (h : Handler FileOp FileOp.Res σ), (∀ op s, FindsEntries op (h op s).1) → ∀ s,
    (∀ e ∈ execLog h x s, e.1.PathsIn (Leads env.home remoteRoot) (Leads env.cwd localRoot)) ∧
      ∀ a s', exec h x s = (.ok a, s') → returned a

/-- The paths of the listed files. -/
def FileMap.KeysIn (S : String → Prop) (files : FileMap) : Prop :=
  ∀ key i, files.lookup key = some i → S key

/-! ## The four programs -/

section Programs

variable {S D : String → Prop}

/-- With a directory, its entries are in `S`. -/
def EntryClosed (S : String → Prop) (dir : String) : Prop :=
  S dir → ∀ name, '/' ∉ name.toList → S (child dir name)

/-- Such a program keeps to `S` and `D` while directories have entries, and ends in `Q`. -/
abbrev Keeps {ε α : Type} (S D : String → Prop) (Q : α → Prop)
    (x : Action FileOp FileOp.Res ε α) : Prop :=
  Emits FindsEntries (FileOp.PathsIn S D) Q x

theorem keeps_atomicWriteRemote {path : String} (hpath : S path) (data : Bytes) :
    Keeps S D (fun _ => True) (atomicWriteRemote path data) := by
  refine emits_atomicWriteRemote trivial (fun hash => ?_) data
  have htmp : StagesRemote S (path ++ ".tmp." ++ tmpSuffix hash) := ⟨path, hash, hpath, rfl⟩
  exact ⟨htmp, fun _ _ => trivial, fun _ => trivial, fun _ => trivial, fun _ => trivial,
    .inl hpath, ⟨htmp, hpath⟩, .inr htmp⟩

theorem keeps_setRemoteMode {path : String} (hpath : S path) (mode : UInt32) :
    Keeps S D (fun _ => True) (setRemoteMode path mode) := by
  refine emits_bind (emits_mapError ⟨hpath, fun _ _ _ _ => trivial⟩) fun cur _ => ?_
  exact emits_mapError ⟨hpath, fun _ _ _ _ => trivial⟩

theorem keeps_atomicWriteLocal {path : String} (hpath : D path) (data : Bytes) :
    Keeps S D (fun _ => True) (atomicWriteLocal path data) := by
  refine emits_atomicWriteLocal trivial (fun hash => ?_) data
  have htmp : StagesLocal D (localTmp path (tmpSuffix hash)) := ⟨path, hash, hpath, rfl⟩
  exact ⟨htmp, fun _ _ => trivial, fun _ => trivial, fun _ => trivial, ⟨htmp, hpath⟩, htmp⟩

/-- The local path of a directory is not empty, so `D` need not be closed there. -/
theorem keeps_pushPath (hS : ∀ dir, EntryClosed S dir) (hD : ∀ dir, dir ≠ "" → EntryClosed D dir)
    (fuel : Nat) {localPath remote : String} (hlocal : D localPath) (hremote : S remote) :
    Keeps S D (fun _ => True) (pushPath fuel localPath remote) := by
  induction fuel generalizing localPath remote with
  | zero => exact emits_throw _
  | succ fuel ih =>
    refine emits_bind (Q := fun _ => localPath ≠ "")
      (emits_mapError ⟨hlocal, fun _ h => h⟩) fun stat hne => ?_
    split
    · -- a directory: both paths of an entry are children of paths that are in the sets
      refine emits_bind (emits_ignore (Q := fun _ => True)
        ⟨hremote, fun _ _ _ _ => trivial⟩) fun _ _ => ?_
      refine emits_bind (Q := EntryNames) (emits_mapError
        ⟨hlocal, fun _ h names hnames => (h names hnames).2⟩) fun dir hdir => ?_
      refine emits_bind (emits_forM fun name hname => ?_) fun _ _ =>
        emits_mapError ⟨hlocal, fun _ _ _ _ => trivial⟩
      exact emits_bind (emits_mapError ⟨hlocal, fun _ _ _ _ => trivial⟩) fun _ _ =>
        ih (hD _ hne hlocal name (hdir name hname)) (hS _ hremote name (hdir name hname))
    · refine emits_bind (emits_mapError ⟨hlocal, fun _ _ _ _ => trivial⟩) fun content _ => ?_
      exact emits_bind (keeps_atomicWriteRemote hremote content) fun _ _ =>
        emits_ignore (keeps_setRemoteMode hremote stat.mode)

/-- A push from the empty path finds nothing. -/
theorem keeps_pushPath_empty (fuel : Nat) (remote : String) (hempty : D "") :
    Keeps S D (fun _ => True) (pushPath fuel "" remote) := by
  cases fuel with
  | zero => exact emits_throw _
  | succ fuel =>
    exact emits_bind (Q := fun _ => False)
      (emits_mapError ⟨hempty, fun _ h stat hstat => h stat hstat rfl⟩) fun _ h => h.elim

theorem keeps_pullPath {printable : Char → Bool} (hS : ∀ dir, EntryClosed S dir)
    (hD : ∀ dir, EntryClosed D dir) (fuel : Nat) {remote localPath : String} (hremote : S remote)
    (hlocal : D localPath) :
    Keeps S D (fun _ => True) (pullPath printable fuel remote localPath) := by
  induction fuel generalizing remote localPath with
  | zero => exact emits_throw _
  | succ fuel ih =>
    refine emits_bind (emits_attempt (Q := fun _ => True)
      ⟨hremote, fun _ _ _ _ => trivial⟩) fun r _ => ?_
    rcases r with e | stat
    · exact emits_throw _
    dsimp only
    split
    · -- a directory is created under its own path
      refine emits_bind
        (emits_mapError ⟨.inl hlocal, fun _ _ _ _ => trivial⟩) fun _ _ => ?_
      refine emits_bind (Q := EntryNames)
        (emits_mapError ⟨hremote, fun _ h => h⟩) fun entries hentries => ?_
      exact emits_forM fun name hname =>
        ih (hS _ hremote name (hentries name hname)) (hD _ hlocal name (hentries name hname))
    · refine emits_bind (emits_mapError ⟨hremote, fun _ _ _ _ => trivial⟩) fun data _ => ?_
      have hmode : ∀ perms : UInt32, Keeps S D (fun _ => True)
          (ignore (applyLocalMode localPath perms) : FileM Unit) := fun perms =>
        emits_ignore (emits_mapError (Q := fun _ => True) ⟨hlocal, fun _ _ _ _ => trivial⟩)
      -- a file has its parent created, if its path has one
      split
      · next dir hparent =>
        refine emits_bind (emits_mapError ⟨.inr ⟨localPath, hlocal, hparent⟩,
          fun _ _ _ _ => trivial⟩) fun _ _ => ?_
        refine emits_bind (keeps_atomicWriteLocal hlocal data) fun _ _ => ?_
        split
        · exact hmode _
        · exact emits_pure trivial
      · refine emits_bind (keeps_atomicWriteLocal hlocal data) fun _ _ => ?_
        split
        · exact hmode _
        · exact emits_pure trivial

theorem keysIn_empty : FileMap.KeysIn S ∅ := fun _ _ h => by simp at h

theorem FileMap.KeysIn.insert {files : FileMap} (h : files.KeysIn S) {path : String}
    (hpath : S path) (i : RemoteFileInfo) : FileMap.KeysIn S (AList.insert path i files) := by
  intro key j hj
  by_cases hkey : key = path
  · exact hkey ▸ hpath
  · rw [AList.lookup_insert_ne hkey] at hj
    exact h key j hj

theorem FileMap.KeysIn.extend {files sub : FileMap} (h : files.KeysIn S) (hsub : sub.KeysIn S) :
    (files.extend sub).KeysIn S :=
  fun key i hi => (FileMap.lookup_extend hi).elim (hsub key i) (h key i)

theorem keeps_listRemoteFiles (hS : ∀ dir, EntryClosed S dir) (fuel : Nat) {path : String}
    (hpath : S path) : Keeps S D (FileMap.KeysIn S) (listRemoteFiles fuel path) := by
  induction fuel generalizing path with
  | zero => exact emits_throw _
  | succ fuel ih =>
    refine emits_bind (Q := EntryNames)
      (emits_mapError ⟨hpath, fun _ h => h⟩) fun entries hentries => ?_
    refine emits_foldlM_of_rounds (fun files hfiles name hname => ?_) keysIn_empty
    have hfull : S (child path name) := hS _ hpath name (hentries name hname)
    refine emits_bind (emits_mapError ⟨hfull, fun _ _ _ _ => trivial⟩) fun stat _ => ?_
    -- what a subdirectory adds to the map is below an entry
    split
    · exact emits_bind (ih hfull) fun sub hsub => emits_pure (hfiles.extend hsub)
    · exact emits_pure (hfiles.insert hfull _)

/-- What is left to read and what has been found. -/
def InState (D : String → Prop) (state : List String × FileMap) : Prop :=
  (∀ dir ∈ state.1, D dir) ∧ state.2.KeysIn D

theorem keeps_listLocalEntry {dir name : String} (hD : EntryClosed D dir) (hdir : D dir)
    (hname : '/' ∉ name.toList) {state : List String × FileMap} (hstate : InState D state) :
    Keeps S D (InState D) (listLocalEntry dir state name) := by
  have hfull : D (child dir name) := hD hdir name hname
  refine emits_bind (emits_mapError ⟨hdir, fun _ _ _ _ => trivial⟩) fun _ _ => ?_
  refine emits_bind (emits_mapError ⟨hdir, fun _ _ _ _ => trivial⟩) fun isDir _ => ?_
  split
  · exact emits_pure ⟨List.forall_mem_cons.mpr ⟨hfull, hstate.1⟩, hstate.2⟩
  · exact emits_bind (emits_mapError ⟨hdir, fun _ _ _ _ => trivial⟩) fun attrs _ =>
      emits_pure ⟨hstate.1, hstate.2.insert hfull _⟩

theorem keeps_listLocalFiles (hD : ∀ dir, dir ≠ "" → EntryClosed D dir) (fuel : Nat)
    {path : String} (hpath : D path) : Keeps S D (FileMap.KeysIn D) (listLocalFiles fuel path) := by
  suffices h : ∀ stack files, InState D (stack, files) →
      Keeps S D (FileMap.KeysIn D) (listLocalStack fuel stack files) from
    h [path] ∅ ⟨List.forall_mem_singleton.mpr hpath, keysIn_empty⟩
  induction fuel with
  | zero =>
    rintro (_ | ⟨dir, stack⟩) files hstate
    · exact emits_pure hstate.2
    · exact emits_throw _
  | succ fuel ih =>
    rintro (_ | ⟨dir, stack⟩) files ⟨hstack, hfiles⟩
    · exact emits_pure hfiles
    · -- one directory comes off the stack, and its subdirectories go onto it
      obtain ⟨hdir, hstack⟩ := List.forall_mem_cons.mp hstack
      refine emits_bind (Q := InState D) ?_ fun state hstate => ih _ _ hstate
      refine emits_bind (Q := fun rd => dir ≠ "" ∧ EntryNames rd)
        (emits_mapError ⟨hdir, fun _ h => h⟩) fun rd hrd => ?_
      refine emits_bind (emits_foldlM_of_rounds (fun state hstate name hname =>
        keeps_listLocalEntry (hD dir hrd.1) hdir (hrd.2 name hname) hstate) ⟨hstack, hfiles⟩)
        fun state hstate => ?_
      exact emits_bind (emits_mapError ⟨hdir, fun _ _ _ _ => trivial⟩) fun _ _ =>
        emits_pure hstate

end Programs

/-! ## Two roots with one file -/

/-- The answers of a server and a disk whose roots are directories with one file `x` in them, the
local ones for the paths in `found`. `root` says that nothing has been looked at yet. -/
def FileOp.oneFile (found : String → Bool) (root : Bool) : (op : FileOp) → FileOp.Res op
  | .metadata _ => if root then .ok (dirMetadata 0o755) else .ok (fileMetadata ⟨[], 0o644, 0, 0⟩)
  | .readDir _ => .ok ["x"]
  | .read _ | .fsRead _ => .ok []
  | .openWithFlags _ | .fsOpenCreateNew _ => .ok ⟨[], 0⟩
  | .fsMetadata path => if found path then .ok ⟨root, 0, 0, 0o755⟩ else .error .noSuchFile
  | .fsReadDir path => if found path then .ok ["x"] else .error .noSuchFile
  | .fsFileType _ _ => .ok root
  | .fsEntryMetadata _ _ => .ok ⟨false, 0, 0, 0o644⟩
  | .createDir _ | .writeAll _ _ | .flush _ | .syncAll _ | .close _ | .removeFile _ | .rename _ _
  | .setMetadata _ _ | .fsNextEntry _ | .fsWriteAll _ _ | .fsFlush _ | .fsSyncAll _
  | .fsRename _ _ | .fsRemoveFile _ | .fsCreateDirAll _ | .fsSetPermissions _ _ => .ok ()
  | .suffixHash => 0

def oneFileAt (found : String → Bool) : Handler FileOp FileOp.Res Bool :=
  fun op root => (op.oneFile found root, false)

/-- Only the empty local path is not found. -/
def oneFile : Handler FileOp FileOp.Res Bool := oneFileAt fun path => path ≠ ""

theorem oneFile_findsEntries (op : FileOp) (root : Bool) : FindsEntries op (oneFile op root).1 := by
  have hx : EntryNames ["x"] := by
    intro name hname
    rw [List.mem_singleton.mp hname]
    decide
  cases op with
  | readDir path => exact fun names hnames => Except.ok.inj hnames ▸ hx
  | fsReadDir path =>
    intro names hnames
    change (if decide (path ≠ "") = true then Except.ok ["x"] else .error IoError.noSuchFile)
      = .ok names at hnames
    split at hnames
    · next hne => exact ⟨of_decide_eq_true hne, Except.ok.inj hnames ▸ hx⟩
    · cases hnames
  | fsMetadata path =>
    intro stat hstat
    change (if decide (path ≠ "") = true then Except.ok (⟨root, 0, 0, 0o755⟩ : LocalMetadata)
      else .error IoError.noSuchFile) = .ok stat at hstat
    split at hstat
    · next hne => exact of_decide_eq_true hne
    · cases hstat
  | _ => trivial

/-- A program that asks for no empty local path runs as if everything were found. -/
theorem execLog_oneFile {α : Type} {Q : α → Prop} {x : FileM α}
    (hx : Keeps (fun _ => True) (· ≠ "") Q x) (root : Bool) :
    execLog (oneFileAt fun _ => true) x root = execLog oneFile x root := by
  have hview : ∀ (op : FileOp) (root : Bool), op.PathsIn (fun _ => True) (· ≠ "") →
      FindsEntries op (oneFile op root).1 ∧
        oneFileAt (fun _ => true) op (id root) = ((oneFile op root).1, id (oneFile op root).2) := by
    intro op root hop
    refine ⟨oneFile_findsEntries op root, ?_⟩
    cases op with
    | fsMetadata path =>
      have hfound : decide (path ≠ "") = true := decide_eq_true hop
      show _ = (if decide (path ≠ "") = true then _ else _, _)
      rw [if_pos hfound]
      rfl
    | fsReadDir path =>
      have hfound : decide (path ≠ "") = true := decide_eq_true hop
      show _ = (if decide (path ≠ "") = true then _ else _, _)
      rw [if_pos hfound]
      rfl
    | _ => rfl
  exact (hx.exec_view hview root).2

theorem entryClosed_ne_empty (dir : String) : EntryClosed (· ≠ "") dir :=
  fun _ name _ => child_ne_empty dir name

/-- A push renames the temp file to where the file is to be. -/
theorem push_oneFile {localRoot : String} (hlocal : localRoot ≠ "") (remoteRoot : String) :
    ∃ tmp, FileOp.rename tmp (child remoteRoot "x") ∈
      (execLog oneFile (pushPath 2 localRoot remoteRoot) true).map Sigma.fst := by
  rw [← execLog_oneFile (keeps_pushPath (fun _ _ _ _ => trivial)
    (fun dir _ => entryClosed_ne_empty dir) 2 hlocal trivial)]
  exact ⟨_, List.mem_of_getElem? (i := 13) rfl⟩

/-- A pull looks at the file. -/
theorem pull_oneFile_server (printable : Char → Bool) (remoteRoot localRoot : String) :
    FileOp.metadata (child remoteRoot "x") ∈
      (execLog oneFile (pullPath printable 2 remoteRoot localRoot) true).map Sigma.fst :=
  List.mem_of_getElem? (i := 3) rfl

/-- It renames the temp file below the local root, the empty one here. -/
theorem pull_oneFile_disk (printable : Char → Bool) (remoteRoot : String) :
    ∃ tmp, FileOp.fsRename tmp (child "" "x") ∈
      (execLog oneFile (pullPath printable 2 remoteRoot "") true).map Sigma.fst :=
  ⟨_, List.mem_of_getElem? (i := 11) rfl⟩

theorem listRemoteFiles_oneFile (remoteRoot : String) :
    FileOp.metadata (child remoteRoot "x") ∈
      (execLog oneFile (listRemoteFiles 1 remoteRoot) true).map Sigma.fst :=
  List.mem_of_getElem? (i := 1) rfl

/-! ## Where the paths lead -/

section Roots

variable {printable : Char → Bool} {env : Env} {localRoot remoteRoot : String}

theorem entryClosed_leads {cwd : Loc} {root : String} (hroot : StartsAt cwd root) (dir : String) :
    EntryClosed (Leads cwd root) dir :=
  fun hdir _ hname => hdir.child hroot hname

theorem startsAt_of_leads {cwd : Loc} {root : String} (h : Leads cwd root (child root "x")) :
    StartsAt cwd root := by
  rintro rfl
  exact Leads.eq_nil (n := ⟨"x", by decide⟩) h

theorem runsLead_of_keeps {α : Type} {Q : α → Prop} {x : FileM α}
    (hx : Keeps (Leads env.home remoteRoot) (Leads env.cwd localRoot) Q x) :
    RunsLead env localRoot remoteRoot Q x :=
  fun _ _ hanswers s =>
    ⟨hx.of_mem_execLog hanswers s, fun _ _ hrun => hx.of_exec_ok hanswers hrun⟩

/-- What a run on two roots with one file names. -/
theorem RunsLead.of_oneFile {α : Type} {Q : α → Prop} {x : FileM α} {op : FileOp}
    (hx : RunsLead env localRoot remoteRoot Q x)
    (hop : op ∈ (execLog oneFile x true).map Sigma.fst) :
    op.PathsIn (Leads env.home remoteRoot) (Leads env.cwd localRoot) := by
  obtain ⟨e, he, rfl⟩ := List.mem_map.mp hop
  exact (hx Bool oneFile oneFile_findsEntries true).1 e he

theorem pushPath_leads_iff :
    (∀ fuel, RunsLead env localRoot remoteRoot (fun _ => True)
      (pushPath fuel localRoot remoteRoot)) ↔ localRoot = "" ∨ StartsAt env.home remoteRoot := by
  constructor
  · intro h
    by_cases hlocal : localRoot = ""
    · exact .inl hlocal
    · obtain ⟨tmp, hserver⟩ := push_oneFile hlocal remoteRoot
      exact .inr (startsAt_of_leads ((h 2).of_oneFile hserver).2)
  · rintro (rfl | hremote) fuel
    · exact runsLead_of_keeps (keeps_pushPath_empty fuel remoteRoot (Leads.refl env.cwd ""))
    · exact runsLead_of_keeps (keeps_pushPath (entryClosed_leads hremote)
        (fun dir hne hdir _ hname => hdir.child_of_ne hne hname) fuel
        (Leads.refl env.cwd localRoot) (Leads.refl env.home remoteRoot))

theorem pullPath_leads_iff :
    (∀ fuel, RunsLead env localRoot remoteRoot (fun _ => True)
      (pullPath printable fuel remoteRoot localRoot)) ↔
      StartsAt env.cwd localRoot ∧ StartsAt env.home remoteRoot := by
  constructor
  · intro h
    refine ⟨?_, startsAt_of_leads
      ((h 2).of_oneFile (pull_oneFile_server printable remoteRoot localRoot))⟩
    rintro rfl
    obtain ⟨tmp, hdisk⟩ := pull_oneFile_disk printable remoteRoot
    exact startsAt_of_leads ((h 2).of_oneFile hdisk).2 rfl
  · rintro ⟨hlocal, hremote⟩ fuel
    exact runsLead_of_keeps (keeps_pullPath (entryClosed_leads hremote) (entryClosed_leads hlocal)
      fuel (Leads.refl env.home remoteRoot) (Leads.refl env.cwd localRoot))

theorem listRemoteFiles_leads_iff :
    (∀ fuel, RunsLead env localRoot remoteRoot (FileMap.KeysIn (Leads env.home remoteRoot))
      (listRemoteFiles fuel remoteRoot)) ↔ StartsAt env.home remoteRoot := by
  constructor
  · intro h
    exact startsAt_of_leads ((h 1).of_oneFile (listRemoteFiles_oneFile remoteRoot))
  · intro hremote fuel
    exact runsLead_of_keeps (keeps_listRemoteFiles (entryClosed_leads hremote) fuel
      (Leads.refl env.home remoteRoot))

/-- The empty root is not found, so no other condition is needed. -/
theorem listLocalFiles_leads (fuel : Nat) :
    RunsLead env localRoot remoteRoot (FileMap.KeysIn (Leads env.cwd localRoot))
      (listLocalFiles fuel localRoot) :=
  runsLead_of_keeps (keeps_listLocalFiles
    (fun _ hne hdir _ hname => hdir.child_of_ne hne hname) fuel (Leads.refl env.cwd localRoot))

end Roots

/-- **Child paths lead to their entries exactly when they are not joined to an empty root** that
stands for some other directory than `/`: for all roots, however deep the run goes, whatever the
server and the disk answer, as long as the names they list have no slash. A push joins nothing
when its local root is empty, and `list_local_files` never does. -/
theorem childPaths_lead_iff (printable : Char → Bool) (env : Env) (localRoot remoteRoot : String) :
    ((∀ fuel, RunsLead env localRoot remoteRoot (fun _ => True)
        (pushPath fuel localRoot remoteRoot)) ↔
      localRoot = "" ∨ StartsAt env.home remoteRoot) ∧
    ((∀ fuel, RunsLead env localRoot remoteRoot (fun _ => True)
        (pullPath printable fuel remoteRoot localRoot)) ↔
      StartsAt env.cwd localRoot ∧ StartsAt env.home remoteRoot) ∧
    ((∀ fuel, RunsLead env localRoot remoteRoot (FileMap.KeysIn (Leads env.home remoteRoot))
        (listRemoteFiles fuel remoteRoot)) ↔ StartsAt env.home remoteRoot) ∧
    ∀ fuel, RunsLead env localRoot remoteRoot (FileMap.KeysIn (Leads env.cwd localRoot))
      (listLocalFiles fuel localRoot) :=
  ⟨pushPath_leads_iff, pullPath_leads_iff, listRemoteFiles_leads_iff, listLocalFiles_leads⟩

/-- A push of `/site` to the login directory `/alice`, as `/site:` asks for, puts its file into
`/`. -/
theorem pushPath_leaves_login_directory :
    let env : Env := { Env.reliable with home := [⟨"alice", by decide⟩] }
    let w := World.start (FileTree.mkdir FileTree.empty [⟨"alice", by decide⟩])
      (Tree.dirWith ⟨"site", by decide⟩ [(⟨"index", by decide⟩, [1])])
    let push : FileM Unit := pushPath 2 "/site" ""
    parseFileSpec "/site:" = .ok ("/site", "") ∧
      (exec (step env) push w).1 = .ok () ∧
      (exec (step env) push w).2.remote.contentOf [⟨"index", by decide⟩] = some [1] ∧
      (exec (step env) push w).2.remote.contentOf
        [⟨"index", by decide⟩, ⟨"alice", by decide⟩] = none ∧
      ¬ ∀ fuel, RunsLead env "/site" "" (fun _ => True) (pushPath fuel "/site" "") := by
  refine ⟨rfl, ?_, ?_, ?_, fun hlead => ?_⟩
  · decide +kernel
  · decide +kernel
  · decide +kernel
  · rcases pushPath_leads_iff.mp hlead with hempty | hhome
    · exact absurd hempty (by decide)
    · exact absurd (hhome rfl) (List.cons_ne_nil _ _)

end Passhrs
