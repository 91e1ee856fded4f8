import Passhrs.Sftp.Rsync

/-!
# One tree, listed twice

`list_local_files` asks `DirEntry::file_type` and `DirEntry::metadata`, which say what a symbolic
link is; `list_remote_files` asks the server's `stat`, which says what it leads to. The two programs
are run here over trees with links.

* **`listings_agree_iff`**: the two listings of a tree agree exactly when each link that is reached
  through directories leads to a file of the link's own size.
-/

namespace Passhrs

open Effects SlashPath

/-! ## Trees with links -/

/-- A symbolic link: the path that it holds, and its own modification time. -/
structure Link where
  target : String
  mtime : Nat
deriving DecidableEq

/-- `lstat` says how long the path is. -/
def Link.size (l : Link) : Nat := l.target.utf8ByteSize

/-- A directory tree. A link comes with what it leads to, so links make no cycle. -/
inductive LinkTree where
  | file (f : File)
  | link (l : Link) (leadsTo : LinkTree)
  | dir (names : List FileName) (entry : FileName → LinkTree)

/-- `S_IFLNK`. -/
def sIflnk : UInt32 := 0o120000

namespace LinkTree

/-- What a link leads to in the end. -/
def follow : LinkTree → LinkTree
  | file f => file f
  | link _ t => t.follow
  | dir names entry => dir names entry

/-- A directory itself, and no link to one. -/
def isDir : LinkTree → Bool
  | dir _ _ => true
  | _ => false

/-- The answer to a `stat`. -/
def stat (dirMode : UInt32) : LinkTree → Metadata
  | file f => fileMetadata f
  | link _ t => t.stat dirMode
  | dir _ _ => dirMetadata dirMode

/-- The answer to an `lstat`. -/
def lstat (dirMode : UInt32) : LinkTree → LocalMetadata
  | file f => localMetadata dirMode (.file f)
  | link l _ => ⟨false, l.size, l.mtime, sIflnk ||| 0o777⟩
  | dir _ _ => localMetadata dirMode .dir

/-- The names in a directory, or in one that a link leads to. -/
def list : LinkTree → Except IoError (List String)
  | file _ => .error .notADirectory
  | link _ t => t.list
  | dir names _ => .ok (names.map FileName.str)

/-- One step down, through a link if need be. -/
def entryAt : LinkTree → FileName → Option LinkTree
  | file _, _ => none
  | link _ t, n => t.entryAt n
  | dir names entry, n => if n ∈ names then some (entry n) else none

def find (t : LinkTree) (names : List FileName) : Option LinkTree :=
  names.foldl (fun u n => u.bind fun u => u.entryAt n) (some t)

end LinkTree

/-- What a path of the server names. A `..` is taken lexically. -/
def remoteFind (env : Env) (server : LinkTree) (path : String) : Option LinkTree :=
  server.find (env.remoteLoc path).reverse

/-- What a local path names. -/
def diskFind (env : Env) (disk : LinkTree) (path : String) : Option LinkTree :=
  (env.diskLoc path).bind fun p => disk.find p.reverse

/-- The operations of the listings. The others are not theirs. -/
def linkStep (env : Env) (server disk : LinkTree) : Handler FileOp FileOp.Res Unit
  | .metadata path, s =>
    ((remoteFind env server path).elim (.error .noSuchFile) fun t => .ok (t.stat env.dirMode), s)
  | .readDir path, s => ((remoteFind env server path).elim (.error .noSuchFile) LinkTree.list, s)
  | .fsReadDir path, s => ((diskFind env disk path).elim (.error .noSuchFile) LinkTree.list, s)
  | .fsNextEntry _, s => (.ok (), s)
  | .fsFileType dir name, s =>
    ((diskFind env disk (child dir name)).elim (.error .noSuchFile)
      fun t => .ok (t.lstat env.dirMode).isDir, s)
  | .fsEntryMetadata dir name, s =>
    ((diskFind env disk (child dir name)).elim (.error .noSuchFile)
      fun t => .ok (t.lstat env.dirMode), s)
  | .createDir _, s | .read _, s | .openWithFlags _, s | .writeAll _ _, s | .flush _, s
  | .syncAll _, s | .close _, s | .removeFile _, s | .rename _ _, s | .setMetadata _ _, s
  | .fsMetadata _, s | .fsRead _, s | .fsOpenCreateNew _, s | .fsWriteAll _ _, s | .fsFlush _, s
  | .fsSyncAll _, s | .fsRename _ _, s | .fsRemoveFile _, s | .fsCreateDirAll _, s
  | .fsSetPermissions _ _, s => (.error .failure, s)
  | .suffixHash, s => (0, s)

namespace LinkTree

/-! ## What the two sides see -/

/-- What `list_remote_files` is to record of a path. -/
def seenRemotely : LinkTree → List FileName → Option RemoteFileInfo
  | file f, [] => some (remoteInfo f)
  | file _, _ :: _ => none
  | link _ t, names => t.seenRemotely names
  | dir _ _, [] => none
  | dir ns entry, n :: names => if n ∈ ns then (entry n).seenRemotely names else none

/-- What `list_local_files` is to record of a path. -/
def seenLocally : LinkTree → List FileName → Option RemoteFileInfo
  | file f, [] => some (localInfo f)
  | link l _, [] => some ⟨l.size, l.mtime, some (sIflnk ||| 0o777)⟩
  | file _, _ :: _ | link _ _, _ :: _ | dir _ _, [] => none
  | dir ns entry, n :: names => if n ∈ ns then (entry n).seenLocally names else none

/-- The depth of the recursion of `list_remote_files`. -/
def depth : LinkTree → Nat
  | file _ => 0
  | link _ t => t.depth
  | dir ns entry => (ns.map fun n => (entry n).depth).foldr max 0 + 1

/-- The rounds of the outer loop of `list_local_files`. -/
def rounds : LinkTree → Nat
  | file _ => 0
  | link _ _ => 0
  | dir ns entry => (ns.map fun n => (entry n).rounds).sum + 1

/-- Each link that is reached through directories leads to a file of the link's own size. -/
def LinksMatch : LinkTree → Prop
  | file _ => True
  | link l t => ∃ f, t.follow = file f ∧ f.content.length = l.size
  | dir ns entry => ∀ n ∈ ns, (entry n).LinksMatch

theorem follow_cases (t : LinkTree) :
    (∃ f, t.follow = file f) ∨ ∃ names entry, t.follow = dir names entry := by
  induction t with
  | file f => exact .inl ⟨f, rfl⟩
  | link l t ih => exact ih
  | dir names entry => exact .inr ⟨names, entry, rfl⟩

theorem seenRemotely_follow (t : LinkTree) : t.follow.seenRemotely = t.seenRemotely := by
  induction t with
  | file | dir => rfl
  | link l t ih => exact ih

theorem stat_follow (dirMode : UInt32) (t : LinkTree) : t.follow.stat dirMode = t.stat dirMode := by
  induction t with
  | file | dir => rfl
  | link l t ih => exact ih

theorem follow_of_isDir {t : LinkTree} (ht : t.isDir = true) : t.follow = t := by
  cases t with
  | file | link => cases ht
  | dir => rfl

/-- What is no directory takes no round. -/
theorem rounds_of_not_isDir {t : LinkTree} (ht : t.isDir = false) : t.rounds = 0 := by
  cases t with
  | file | link => rfl
  | dir => cases ht

theorem list_follow (t : LinkTree) : t.follow.list = t.list := by
  induction t with
  | file | dir => rfl
  | link l t ih => exact ih

theorem entryAt_follow (t : LinkTree) : t.follow.entryAt = t.entryAt := by
  induction t with
  | file | dir => rfl
  | link l t ih => exact ih

/-- From a directory, or a link to one, to an entry. -/
theorem find_entry {t u : LinkTree} {names : List FileName} (h : t.find names = some u)
    {ns : List FileName} {entry : FileName → LinkTree} (hu : u.follow = dir ns entry) {n : FileName}
    (hn : n ∈ ns) : t.find (names ++ [n]) = some (entry n) := by
  have hentry : t.find (names ++ [n]) = u.entryAt n := by
    unfold find at h ⊢
    rw [List.foldl_append, h]
    rfl
  rw [hentry, ← entryAt_follow, hu]
  exact if_pos hn

/-- The two sides see the same sizes exactly when the links match. -/
theorem sizes_agree_iff (t : LinkTree) :
    (∀ names, (t.seenLocally names).map RemoteFileInfo.size
      = (t.seenRemotely names).map RemoteFileInfo.size) ↔ t.LinksMatch := by
  induction t with
  | file f =>
    refine iff_of_true (fun names => ?_) trivial
    cases names <;> rfl
  | link l t =>
    constructor
    · intro hall
      -- at the link itself, the remote side sees a file
      have hroot := hall []
      show ∃ f, t.follow = file f ∧ _
      rw [show (link l t).seenRemotely = t.follow.seenRemotely from (seenRemotely_follow t).symm]
        at hroot
      rcases follow_cases t with ⟨f, hf⟩ | ⟨names, entry, hd⟩
      · rw [hf] at hroot
        exact ⟨f, hf, (Option.some.inj hroot).symm⟩
      · rw [hd] at hroot
        cases hroot
    · rintro ⟨f, hf, hsize⟩ names
      rw [show (link l t).seenRemotely = t.follow.seenRemotely from (seenRemotely_follow t).symm,
        hf]
      cases names with
      | nil => exact congrArg some hsize.symm
      | cons n names => rfl
  | dir ns entry ih =>
    have hchild : ∀ n ∈ ns, ∀ names, (dir ns entry).seenLocally (n :: names)
        = (entry n).seenLocally names ∧ (dir ns entry).seenRemotely (n :: names)
        = (entry n).seenRemotely names := fun n hn names => ⟨if_pos hn, if_pos hn⟩
    constructor
    · intro hall n hn
      refine (ih n).mp fun names => ?_
      rw [← (hchild n hn names).1, ← (hchild n hn names).2]
      exact hall (n :: names)
    · intro hmatch names
      rcases names with _ | ⟨n, names⟩
      · rfl
      · by_cases hn : n ∈ ns
        · rw [(hchild n hn names).1, (hchild n hn names).2]
          exact (ih n).mpr (hmatch n hn) names
        · rw [seenLocally, seenRemotely, if_neg hn, if_neg hn]

end LinkTree

/-! ## What a loop over a directory has dealt with -/

/-- The path goes from `dirs` into one of the entries `ms`, and that entry is as `q` says. -/
def Enters (dirs ms : List FileName) (q : FileName → Prop) (names : List FileName) : Prop :=
  ∃ n rest, names = dirs ++ n :: rest ∧ n ∈ ms ∧ q n

section Enters

variable {dirs ms names : List FileName} {m n : FileName} {q : FileName → Prop}

theorem not_enters_nil : ¬ Enters dirs [] q names := by
  rintro ⟨n, rest, -, hn, -⟩
  cases hn

theorem Enters.of_append_singleton (h : Enters dirs (ms ++ [n]) q names) :
    Enters dirs ms q names ∨ ∃ rest, names = dirs ++ n :: rest ∧ q n := by
  obtain ⟨n', rest, rfl, hmem, hq⟩ := h
  rcases List.mem_append.mp hmem with hmem | hmem
  · exact .inl ⟨n', rest, rfl, hmem, hq⟩
  · obtain rfl := List.mem_singleton.mp hmem
    exact .inr ⟨rest, rfl, hq⟩

theorem Enters.of_cons (h : Enters dirs (m :: ms) q names) :
    (∃ rest, names = dirs ++ m :: rest) ∨ Enters dirs ms q names := by
  obtain ⟨n, rest, rfl, hmem, hq⟩ := h
  rcases List.mem_cons.mp hmem with rfl | hmem
  · exact .inl ⟨rest, rfl⟩
  · exact .inr ⟨n, rest, rfl, hmem, hq⟩

end Enters

/-! ## `list_remote_files` -/

section Listings

variable {env : Env} {server disk : LinkTree} {t u : LinkTree} {path : String}

theorem exec_readDir_link (h : remoteFind env server path = some u)
    {names : List FileName} {entry : FileName → LinkTree} (hu : u.follow = .dir names entry)
    (msg : String) :
    exec (linkStep env server disk) (withContext msg (readDir path)) ()
      = (.ok (names.map FileName.str), ()) := by
  refine exec_mapError_ok _ ?_
  show (Option.elim _ _ _, ()) = _
  rw [h, Option.elim_some, ← LinkTree.list_follow, hu]
  rfl

theorem exec_metadata_link (h : remoteFind env server path = some u) (msg : String) :
    exec (linkStep env server disk) (withContext msg (metadata path)) ()
      = (.ok (u.stat env.dirMode), ()) := by
  refine exec_mapError_ok _ ?_
  show (Option.elim _ _ _, ()) = _
  rw [h, Option.elim_some]

theorem depth_entry_le {ns : List FileName} {entry : FileName → LinkTree} {n : FileName}
    (hn : n ∈ ns) : (entry n).depth ≤ (ns.map fun n => (entry n).depth).foldr max 0 := by
  induction ns with
  | nil => cases hn
  | cons m ns ih =>
    rw [List.map_cons, List.foldr_cons]
    rcases List.mem_cons.mp hn with rfl | hn
    · exact le_max_left ..
    · exact (ih hn).trans (le_max_right ..)

theorem LinkTree.enters_of_seenRemotely {ns names : List FileName} {entry : FileName → LinkTree}
    (h : ((LinkTree.dir ns entry).seenRemotely names).isSome) :
    Enters [] ns (fun _ => True) names := by
  rcases names with _ | ⟨n, rest⟩
  · cases h
  · refine ⟨n, rest, rfl, by_contra fun hn => ?_, trivial⟩
    rw [seenRemotely, if_neg hn] at h
    cases h

/-- With fuel for the depth of the tree, the listing follows every link. -/
theorem listRemoteFiles_link (env : Env) (server disk t : LinkTree) {fuel : Nat}
    (hfuel : t.depth ≤ fuel) {path : String} (hpath : path ≠ "") {u : LinkTree}
    (hfind : remoteFind env server path = some u) (hu : u.follow = t.follow)
    {names : List FileName} {entry : FileName → LinkTree} (hdir : t.follow = .dir names entry) :
    ∃ m, exec (linkStep env server disk) (listRemoteFiles fuel path) () = (.ok m, ()) ∧
      Records t.seenRemotely path (fun _ => True) m := by
  induction t generalizing fuel path u names entry with
  | file f => cases hdir
  | link l t ih => exact ih hfuel hpath hfind hu hdir
  | dir ns e ih =>
    obtain ⟨k, rfl⟩ : ∃ k, fuel = k + 1 := Nat.exists_eq_succ_of_ne_zero (by
      rintro rfl
      simp [LinkTree.depth] at hfuel)
    have hentry : ∀ n ∈ ns, remoteFind env server (child path n.str) = some (e n) := by
      intro n hn
      have hloc : env.remoteLoc (child path n.str) = n :: env.remoteLoc path :=
        walk_child_name _ _ _ hpath
      rw [remoteFind, hloc, List.reverse_cons, LinkTree.find_entry hfind hu hn]
    have hseen : ∀ n ∈ ns, ∀ rest, (LinkTree.dir ns e).seenRemotely (n :: rest)
        = (e n).seenRemotely rest := fun n hn rest => if_pos hn
    rw [listRemoteFiles, exec_bind_ok (exec_readDir_link hfind hu _)]
    -- after the loop, every entry is done
    have hend : ∀ m, (∃ ms : List FileName, ns.map FileName.str = ms.map FileName.str ∧
          Records (LinkTree.dir ns e).seenRemotely path (Enters [] ms fun _ => True) m) →
        Records (LinkTree.dir ns e).seenRemotely path (fun _ => True) m := by
      rintro m ⟨ms, hms, hrecords⟩
      obtain rfl : ns = ms := List.map_injective_iff.mpr (fun _ _ => FileName.ext) hms
      exact hrecords.mono fun names i _ hi =>
        LinkTree.enters_of_seenRemotely (Option.isSome_iff_exists.mpr ⟨i, hi⟩)
    refine (exec_foldlM_ok (I := fun done files _ => ∃ ms : List FileName,
      done = ms.map FileName.str ∧
        Records (LinkTree.dir ns e).seenRemotely path (Enters [] ms fun _ => True) files) ?_
      ⟨[], rfl, Records.empty.mono fun _ _ h _ => not_enters_nil h⟩).imp
      fun m hloop => hloop.elim fun _ h => ⟨h.1, hend m h.2⟩
    rintro done name rest files ⟨⟩ hsplit ⟨ms, rfl, hrecords⟩
    obtain ⟨n, hn, rfl⟩ : ∃ n ∈ ns, n.str = name := List.mem_map.mp (hsplit ▸ by simp)
    have hfollow := LinkTree.seenRemotely_follow (e n)
    rw [exec_bind_ok (exec_metadata_link (hentry n hn) _), ← LinkTree.stat_follow]
    rcases LinkTree.follow_cases (e n) with ⟨f, hf⟩ | ⟨names', entry', hd⟩
    · -- a file, or a link to one
      rw [hf] at hfollow ⊢
      have hfile : (LinkTree.dir ns e).seenRemotely [n] = some (remoteInfo f) := by
        rw [hseen n hn, ← hfollow]
        rfl
      refine ⟨files.insert (child path n.str) (remoteInfo f), (), ?_, ms ++ [n], by simp,
        (hrecords.insert [n] hfile).mono fun names i hnames hi => ?_⟩
      · rw [show (LinkTree.file f).stat env.dirMode = fileMetadata f from rfl, isDir_fileMetadata,
          if_neg (by decide)]
        rfl
      · refine hnames.of_append_singleton.imp_right ?_
        rintro ⟨rest, rfl, -⟩
        rw [List.nil_append, hseen n hn, ← hfollow] at hi
        cases rest with
        | nil => rfl
        | cons => cases hi
    · -- a directory, or a link to one
      obtain ⟨sub, hsub, hrecords'⟩ := ih n
        ((depth_entry_le hn).trans (Nat.le_of_succ_le_succ hfuel)) (child_ne_empty path n.str)
        (hentry n hn) rfl hd
      refine ⟨files.extend sub, (), ?_, ms ++ [n], by simp,
        (hrecords.extend hrecords' (hseen n hn)).mono fun names i hnames _ =>
          hnames.of_append_singleton.imp_right fun h => h.imp fun _ h => h.1⟩
      rw [hd, show (LinkTree.dir names' entry').stat env.dirMode = dirMetadata env.dirMode from rfl,
        isDir_dirMetadata, if_pos rfl, exec_bind_ok hsub]
      rfl

/-! ## `list_local_files` -/

theorem exec_fsReadDir_link (h : diskFind env disk path = some u) {names : List FileName}
    {entry : FileName → LinkTree} (hu : u.follow = .dir names entry) (msg : String) :
    exec (linkStep env server disk) (withContext msg (fsReadDir path)) ()
      = (.ok (names.map FileName.str), ()) := by
  refine exec_mapError_ok _ ?_
  show (Option.elim _ _ _, ()) = _
  rw [h, Option.elim_some, ← LinkTree.list_follow, hu]
  rfl

theorem exec_fsFileType {σ : Type} (h : Handler FileOp FileOp.Res σ) (dir name : String) (s : σ) :
    exec h (fsFileType dir name) s = h (.fsFileType dir name) s := rfl

theorem exec_fsEntryMetadata {σ : Type} (h : Handler FileOp FileOp.Res σ) (dir name : String)
    (s : σ) : exec h (fsEntryMetadata dir name) s = h (.fsEntryMetadata dir name) s := rfl

/-- A real directory goes onto the stack; a file, or a link to anything, goes into the map. -/
theorem exec_listLocalEntry_link {dir name : String}
    (h : diskFind env disk (child dir name) = some u) (state : List String × FileMap) :
    exec (linkStep env server disk) (listLocalEntry dir state name) () =
      (.ok (if (u.lstat env.dirMode).isDir then (child dir name :: state.1, state.2)
        else (state.1, state.2.insert (child dir name) ⟨(u.lstat env.dirMode).len,
          (u.lstat env.dirMode).modified, some (u.lstat env.dirMode).mode⟩)), ()) := by
  have htype : exec (linkStep env server disk) (propagate (fsFileType dir name)) ()
      = (.ok (u.lstat env.dirMode).isDir, ()) := by
    refine exec_mapError_ok _ ?_
    rw [exec_fsFileType, linkStep, h, Option.elim_some]
  have hattrs : exec (linkStep env server disk) (propagate (fsEntryMetadata dir name)) ()
      = (.ok (u.lstat env.dirMode), ()) := by
    refine exec_mapError_ok _ ?_
    rw [exec_fsEntryMetadata, linkStep, h, Option.elim_some]
  rw [listLocalEntry, exec_bind_ok (show exec (linkStep env server disk)
    (propagate (fsNextEntry dir)) () = (.ok (), ()) from rfl), exec_bind_ok htype]
  split
  · rfl
  · rw [exec_bind_ok hattrs]
    rfl

/-- The real directories among the entries of `dirs`, last first: what a round pushes. -/
def pushedDirs (entry : FileName → LinkTree) (ns : List FileName) : List FileName :=
  (ns.filter fun n => (entry n).isDir).reverse

theorem isDir_lstat (dirMode : UInt32) (t : LinkTree) : (t.lstat dirMode).isDir = t.isDir := by
  cases t <;> rfl

/-- Outside a real directory, the local side sees what `lstat` says. -/
theorem seenLocally_of_lstat (dirMode : UInt32) {t : LinkTree} (ht : t.isDir = false)
    (names : List FileName) :
    t.seenLocally names = if names = [] then some ⟨(t.lstat dirMode).len,
      (t.lstat dirMode).modified, some (t.lstat dirMode).mode⟩ else none := by
  cases t with
  | dir => cases ht
  | file | link => cases names <;> rfl

variable {root : String} {p : Loc} {dirs : List FileName}
  {what : List FileName → Option RemoteFileInfo} {done : List FileName → Prop}
  {stack : List String} {files : FileMap}

theorem diskFind_below (hp : env.diskLoc root = some p) (names : List FileName) :
    diskFind env disk (below root names) = disk.find (p.reverse ++ names) := by
  rw [diskFind, diskLoc_below hp, Option.bind_some, List.reverse_append, List.reverse_reverse]

/-- What a round on `dirs` has got when it has dealt with the entries `ms`. -/
structure RoundState (what : List FileName → Option RemoteFileInfo) (root : String)
    (done : List FileName → Prop) (dirs : List FileName) (entry : FileName → LinkTree)
    (stack : List String) (ms : List FileName) (state : List String × FileMap) : Prop where
  pushed : state.1 = (pushedDirs entry ms).map (fun n => below root (dirs ++ [n])) ++ stack
  records : Records what root (fun names => done names ∨
    Enters dirs ms (fun n => (entry n).isDir = false) names) state.2

theorem RoundState.start (entry : FileName → LinkTree) (stack : List String)
    (hrecords : Records what root done files) :
    RoundState what root done dirs entry stack [] (stack, files) :=
  ⟨rfl, hrecords.mono fun _ _ h _ => h.resolve_right not_enters_nil⟩

/-- The entry `n` is pushed if it is a directory itself, and recorded if not. -/
theorem RoundState.entry {entry : FileName → LinkTree} {ms : List FileName}
    {state : List String × FileMap} (h : RoundState what root done dirs entry stack ms state)
    {n : FileName} (hwhat : ∀ rest, what (dirs ++ n :: rest) = (entry n).seenLocally rest)
    (dirMode : UInt32) :
    RoundState what root done dirs entry stack (ms ++ [n])
      (if ((entry n).lstat dirMode).isDir then
        (child (below root dirs) n.str :: state.1, state.2)
      else (state.1, state.2.insert (child (below root dirs) n.str)
        ⟨((entry n).lstat dirMode).len, ((entry n).lstat dirMode).modified,
          some ((entry n).lstat dirMode).mode⟩)) := by
  rw [isDir_lstat]
  rcases hdir : (entry n).isDir with _ | _
  · -- the entry is recorded
    rw [if_neg (by decide)]
    have hown := seenLocally_of_lstat dirMode hdir
    constructor
    · rw [pushedDirs, List.filter_append, List.filter_singleton, hdir]
      simpa [pushedDirs] using h.pushed
    · rw [← below_append]
      refine (h.records.insert (dirs ++ [n]) ((hwhat []).trans (hown []))).mono ?_
      rintro names i (hdone | hseen) hi
      · exact .inl (.inl hdone)
      · rcases hseen.of_append_singleton with hold | ⟨rest, rfl, -⟩
        · exact .inl (.inr hold)
        · rw [hwhat, hown] at hi
          split at hi
          · next hrest => exact .inr (by rw [hrest])
          · cases hi
  · -- the entry is left for a later round
    rw [if_pos rfl]
    constructor
    · rw [pushedDirs, List.filter_append, List.filter_singleton, hdir]
      simpa [pushedDirs, below_append] using h.pushed
    · refine h.records.mono ?_
      rintro names i (hdone | hseen) -
      · exact .inl hdone
      · rcases hseen.of_append_singleton with hold | ⟨rest, -, hfile⟩
        · exact .inr hold
        · rw [hdir] at hfile
          cases hfile

variable (server) in
/-- One round on a directory. -/
theorem listLocalDir_link (hp : env.diskLoc root = some p)
    (hfind : disk.find (p.reverse ++ dirs) = some u) {ns : List FileName}
    {entry : FileName → LinkTree} (hu : u.follow = .dir ns entry)
    (hwhat : ∀ n ∈ ns, ∀ rest, what (dirs ++ n :: rest) = (entry n).seenLocally rest)
    (hrecords : Records what root done files) (stack : List String) :
    ∃ state, exec (linkStep env server disk) (listLocalDir (below root dirs) stack files) () =
        (.ok state, ()) ∧ RoundState what root done dirs entry stack ns state := by
  have hentry : ∀ n ∈ ns, diskFind env disk (child (below root dirs) n.str) = some (entry n) := by
    intro n hn
    rw [← below_append, diskFind_below hp, ← List.append_assoc, LinkTree.find_entry hfind hu hn]
  -- the fold goes through the entries one by one, and records what each shows
  have hloop := exec_foldlM_ok (h := linkStep env server disk)
    (f := listLocalEntry (below root dirs)) (s := ()) (b := (stack, files))
    (l := ns.map FileName.str)
    (I := fun seen state _ => ∃ ms : List FileName, seen = ms.map FileName.str ∧
      RoundState what root done dirs entry stack ms state)
    ?_ ⟨[], rfl, .start entry stack hrecords⟩
  · obtain ⟨state, _, hrun, ms, hms, hstate⟩ := hloop
    obtain rfl : ns = ms := List.map_injective_iff.mpr (fun _ _ => FileName.ext) hms
    refine ⟨state, ?_, hstate⟩
    rw [listLocalDir, exec_bind_ok (exec_fsReadDir_link (by rwa [diskFind_below hp]) hu _),
      exec_bind_ok hrun, exec_bind_ok (show exec (linkStep env server disk)
        (propagate (fsNextEntry (below root dirs))) () = (.ok (), ()) from rfl), exec_pure]
  · rintro seen name rest state ⟨⟩ hsplit ⟨ms, rfl, hstate⟩
    obtain ⟨n, hn, rfl⟩ : ∃ n ∈ ns, n.str = name := List.mem_map.mp (hsplit ▸ by simp)
    exact ⟨_, (), exec_listLocalEntry_link (hentry n hn) _, ms ++ [n], by simp,
      hstate.entry (hwhat n hn) env.dirMode⟩

/-- The rounds of a directory that is pushed are those of its tree. -/
theorem sum_rounds_pushedDirs (entry : FileName → LinkTree) (ns : List FileName) :
    ((pushedDirs entry ns).map fun n => (entry n).rounds).sum
      = (ns.map fun n => (entry n).rounds).sum := by
  rw [pushedDirs, List.map_reverse, List.sum_reverse]
  induction ns with
  | nil => rfl
  | cons n ns ih =>
    rw [List.filter_cons]
    rcases hdir : (entry n).isDir with _ | _
    · rw [if_neg (by decide), ih, List.map_cons, List.sum_cons,
        LinkTree.rounds_of_not_isDir hdir, Nat.zero_add]
    · rw [if_pos rfl, List.map_cons, List.map_cons, List.sum_cons, List.sum_cons, ih]

/-- The paths on top of the stack are dealt with in `rounds` rounds, and then all of `region` is
recorded. -/
def Covers (env : Env) (server disk : LinkTree) (what : List FileName → Option RemoteFileInfo)
    (root : String) (region : List FileName → Prop) (tops : List String) (rounds : Nat) : Prop :=
  ∀ done files fuel stack, Records what root done files → ∃ files',
    exec (linkStep env server disk) (listLocalStack (fuel + rounds) (tops ++ stack) files) ()
      = exec (linkStep env server disk) (listLocalStack fuel stack files') () ∧
    Records what root (fun names => done names ∨ region names) files'

theorem covers_nil : Covers env server disk what root (fun _ => False) [] 0 :=
  fun _ files _ _ hrecords => ⟨files, rfl, hrecords.mono fun _ _ h _ => h.resolve_right id⟩

theorem covers_cons {region region' : List FileName → Prop} {top : String} {tops : List String}
    {a b : Nat} (htop : Covers env server disk what root region [top] a)
    (htops : Covers env server disk what root region' tops b) :
    Covers env server disk what root (fun names => region names ∨ region' names) (top :: tops)
      (b + a) := by
  intro done files fuel stack hrecords
  obtain ⟨files₁, hrun₁, hrecords₁⟩ := htop done files (fuel + b) (tops ++ stack) hrecords
  obtain ⟨files₂, hrun₂, hrecords₂⟩ := htops _ files₁ fuel stack hrecords₁
  refine ⟨files₂, ?_, hrecords₂.mono fun names i h _ => or_assoc.mpr h⟩
  rw [← hrun₂, ← hrun₁, ← Nat.add_assoc]
  rfl

variable (dirs) in
theorem covers_entries (entry : FileName → LinkTree) (ms : List FileName)
    (hms : ∀ n ∈ ms, Covers env server disk what root
      (fun names => ∃ rest, names = dirs ++ n :: rest) [below root (dirs ++ [n])]
      (entry n).rounds) :
    Covers env server disk what root (Enters dirs ms fun _ => True)
      (ms.map fun n => below root (dirs ++ [n])) (ms.map fun n => (entry n).rounds).sum := by
  induction ms with
  | nil =>
    intro done files fuel stack hrecords
    obtain ⟨files', hrun, hrecords'⟩ := covers_nil done files fuel stack hrecords
    exact ⟨files', hrun, hrecords'.mono fun names i h _ => h.imp_right not_enters_nil⟩
  | cons m ms ih =>
    intro done files fuel stack hrecords
    rw [List.map_cons, List.map_cons, List.sum_cons, Nat.add_comm (entry m).rounds]
    obtain ⟨files', hrun, hrecords'⟩ := covers_cons (hms m List.mem_cons_self)
      (ih fun n hn => hms n (List.mem_cons_of_mem m hn)) done files fuel stack hrecords
    exact ⟨files', hrun, hrecords'.mono fun names i h _ => h.imp_right Enters.of_cons⟩

variable (server dirs) in
/-- A directory on top of the stack is dealt with in its own rounds, and all that the local side
sees below it is then recorded. -/
theorem covers_dir (hp : env.diskLoc root = some p) (t : LinkTree) (ht : t.isDir = true)
    (hfind : disk.find (p.reverse ++ dirs) = some u) (hu : u.follow = t)
    (hwhat : ∀ names, what (dirs ++ names) = t.seenLocally names) :
    Covers env server disk what root (fun names => ∃ rest, names = dirs ++ rest)
      [below root dirs] t.rounds := by
  induction t generalizing dirs u with
  | file | link => cases ht
  | dir ns entry ih =>
    intro done files fuel stack hrecords
    have hentry : ∀ n ∈ ns, ∀ rest, what (dirs ++ n :: rest) = (entry n).seenLocally rest :=
      fun n hn rest => (hwhat (n :: rest)).trans (if_pos hn)
    obtain ⟨⟨_, files₁⟩, hround, rfl, hrecords₁⟩ := listLocalDir_link server hp hfind hu hentry
      hrecords stack
    -- the directories that the round has pushed, one after the other
    have hpushed : ∀ n ∈ pushedDirs entry ns, n ∈ ns ∧ (entry n).isDir = true := fun n hn =>
      List.mem_filter.mp (List.mem_reverse.mp hn)
    obtain ⟨files₂, hrun, hrecords₂⟩ := covers_entries dirs entry (pushedDirs entry ns)
      (fun n hn => by
        obtain ⟨hmem, hdir⟩ := hpushed n hn
        have hchild : disk.find (p.reverse ++ (dirs ++ [n])) = some (entry n) := by
          rw [← List.append_assoc, LinkTree.find_entry hfind hu hmem]
        have hfollow := LinkTree.follow_of_isDir hdir
        have hcovers := ih n (dirs ++ [n]) hdir hchild hfollow fun names => by
          rw [List.append_assoc]
          exact hentry n hmem names
        simpa only [List.append_assoc, List.singleton_append] using hcovers)
      _ files₁ fuel stack hrecords₁
    refine ⟨files₂, ?_, hrecords₂.mono ?_⟩
    · rw [← hrun, sum_rounds_pushedDirs]
      exact exec_bind_ok hround _
    · rintro names i (hdone | ⟨rest, rfl⟩) hi
      · exact .inl (.inl hdone)
      rw [hwhat] at hi
      rcases rest with _ | ⟨n, rest⟩
      · cases hi
      have hn : n ∈ ns := by_contra fun hn => by
        rw [LinkTree.seenLocally, if_neg hn] at hi
        cases hi
      rcases hdir : (entry n).isDir with _ | _
      · exact .inl (.inr ⟨n, rest, rfl, hn, hdir⟩)
      · exact .inr ⟨n, rest, rfl, List.mem_reverse.mpr (List.mem_filter.mpr ⟨hn, hdir⟩), trivial⟩

variable (server) in
theorem listLocalFiles_link (hp : env.diskLoc root = some p) (hfind : disk.find p.reverse = some u)
    {ns : List FileName} {entry : FileName → LinkTree} (hu : u.follow = .dir ns entry) {fuel : Nat}
    (hfuel : u.follow.rounds ≤ fuel) :
    ∃ m, exec (linkStep env server disk) (listLocalFiles fuel root) () = (.ok m, ()) ∧
      Records u.follow.seenLocally root (fun _ => True) m := by
  obtain ⟨extra, rfl⟩ := Nat.exists_eq_add_of_le' hfuel
  obtain ⟨m, hrun, hrecords⟩ := covers_dir server [] hp u.follow
    (by rw [hu]; rfl) (by rwa [List.append_nil]) rfl (fun _ => rfl) (fun _ => False) ∅ extra []
    Records.empty
  refine ⟨m, hrun.trans ?_, hrecords.mono fun names _ _ _ => .inr ⟨names, rfl⟩⟩
  cases extra <;> rfl

/-! ## The two maps -/

/-- The map has an entry of this size at this path relative to the root. -/
def Listed (root : String) (m : FileMap) (r : String) (size : Nat) : Prop :=
  ∃ key i, m.lookup key = some i ∧ relPath (trimEndSlash root) key = r ∧ i.size = size

theorem listed_iff {m : FileMap} (hroot : root ≠ "")
    (hrecords : Records what root (fun _ => True) m) (hnil : what [] = none) (r : String)
    (size : Nat) :
    Listed root m r size ↔
      ∃ names, names ≠ [] ∧ rel names = r ∧ (what names).map RemoteFileInfo.size = some size := by
  constructor
  · rintro ⟨key, i, hkey, rfl, rfl⟩
    obtain ⟨names, rfl, hi⟩ := hrecords.sound key i hkey
    have hne : names ≠ [] := by
      rintro rfl
      rw [hnil] at hi
      cases hi
    exact ⟨names, hne, (relPath_below root hne).symm, by rw [hi, Option.map_some]⟩
  · rintro ⟨names, hne, rfl, hsize⟩
    obtain ⟨i, hi, rfl⟩ := Option.map_eq_some_iff.mp hsize
    exact ⟨below root names, i, (hrecords.lookup_below hroot names).trans hi,
      relPath_below root hne, rfl⟩

theorem rel_injective {ns ms : List FileName} (hns : ns ≠ []) (hms : ms ≠ [])
    (h : rel ns = rel ms) : ns = ms :=
  below_injective (show "/" ≠ "" by decide) (by rw [below_eq _ hns, below_eq _ hms, h])

/-- With enough fuel both listings return, with the same relative paths and the same sizes. -/
def ListingsAgree (env : Env) (server disk : LinkTree) (localRoot remoteRoot : String) : Prop :=
  ∃ enough, ∀ fuel, enough ≤ fuel → ∃ localFiles remoteFiles,
    exec (linkStep env server disk) (listLocalFiles fuel localRoot) () = (.ok localFiles, ()) ∧
    exec (linkStep env server disk) (listRemoteFiles fuel remoteRoot) () = (.ok remoteFiles, ()) ∧
    ∀ r size, Listed localRoot localFiles r size ↔ Listed remoteRoot remoteFiles r size

/-- **The two listings of a directory agree exactly when** each link that is reached from it through
directories leads to a file, and that file is as large as the link itself. -/
theorem listings_agree_iff {localRoot remoteRoot : String} {v : LinkTree} {ns : List FileName}
    {entry : FileName → LinkTree} (hremote : remoteRoot ≠ "")
    (hdisk : diskFind env disk localRoot = some u) (hu : u.follow = .dir ns entry)
    (hserver : remoteFind env server remoteRoot = some v) (hv : v.follow = .dir ns entry) :
    ListingsAgree env server disk localRoot remoteRoot ↔ (LinkTree.dir ns entry).LinksMatch := by
  obtain ⟨p, hp, hfind⟩ := Option.bind_eq_some_iff.mp hdisk
  have hlocal : localRoot ≠ "" := Env.ne_empty_of_diskLoc hp
  -- what either listing returns
  have hruns : ∀ fuel, (LinkTree.dir ns entry).rounds ≤ fuel → v.depth ≤ fuel →
      ∃ localFiles remoteFiles,
        exec (linkStep env server disk) (listLocalFiles fuel localRoot) () =
          (.ok localFiles, ()) ∧
        exec (linkStep env server disk) (listRemoteFiles fuel remoteRoot) () =
          (.ok remoteFiles, ()) ∧
        ((∀ r size, Listed localRoot localFiles r size ↔ Listed remoteRoot remoteFiles r size) ↔
          (LinkTree.dir ns entry).LinksMatch) := by
    intro fuel hrounds hdepth
    rw [← hu] at hrounds
    obtain ⟨localFiles, hrunLocal, hrecords⟩ :=
      listLocalFiles_link server hp hfind hu hrounds
    obtain ⟨remoteFiles, hrunRemote, hrecords'⟩ :=
      listRemoteFiles_link env server disk v hdepth hremote hserver rfl hv
    rw [hu] at hrecords
    rw [← LinkTree.seenRemotely_follow, hv] at hrecords'
    refine ⟨localFiles, remoteFiles, hrunLocal, hrunRemote, ?_⟩
    rw [← LinkTree.sizes_agree_iff]
    simp only [listed_iff hlocal hrecords rfl, listed_iff hremote hrecords' rfl]
    constructor
    · intro hall names
      by_cases hne : names = []
      · rw [hne]
        rfl
      refine Option.ext fun size => ?_
      constructor
      · intro hsize
        obtain ⟨names', hne', hrel, hsize'⟩ := (hall (rel names) size).mp ⟨names, hne, rfl, hsize⟩
        rwa [rel_injective hne' hne hrel] at hsize'
      · intro hsize
        obtain ⟨names', hne', hrel, hsize'⟩ :=
          (hall (rel names) size).mpr ⟨names, hne, rfl, hsize⟩
        rwa [rel_injective hne' hne hrel] at hsize'
    · intro hall r size
      simp only [hall]
  constructor
  · rintro ⟨enough, hagree⟩
    obtain ⟨localFiles, remoteFiles, hrunLocal, hrunRemote, hiff⟩ :=
      hruns (max enough (max (LinkTree.dir ns entry).rounds v.depth)) (by omega) (by omega)
    obtain ⟨localFiles', remoteFiles', hrunLocal', hrunRemote', hsame⟩ :=
      hagree (max enough (max (LinkTree.dir ns entry).rounds v.depth)) (le_max_left ..)
    obtain rfl := Except.ok.inj (congrArg Prod.fst (hrunLocal.symm.trans hrunLocal'))
    obtain rfl := Except.ok.inj (congrArg Prod.fst (hrunRemote.symm.trans hrunRemote'))
    exact hiff.mp hsame
  · intro hmatch
    refine ⟨max (LinkTree.dir ns entry).rounds v.depth, fun fuel hfuel => ?_⟩
    obtain ⟨localFiles, remoteFiles, hrunLocal, hrunRemote, hiff⟩ :=
      hruns fuel (by omega) (by omega)
    exact ⟨localFiles, remoteFiles, hrunLocal, hrunRemote, hiff.mpr hmatch⟩

end Listings

/-! ## A link to a directory -/

namespace LinkTree

/-- A version of a site, with its page `index`. -/
def version : LinkTree :=
  dir [⟨"index", by decide⟩] fun _ => file ⟨[1, 2, 3], 0o644, 0, 0⟩

/-- The versions: `v1`, and `latest`, a link to it. -/
def siteNames : List FileName := [⟨"v1", by decide⟩, ⟨"latest", by decide⟩]

def siteEntry (n : FileName) : LinkTree :=
  if n.str = "latest" then link ⟨"v1", 0⟩ version else version

/-- The tree with the site at `/site`. -/
def withSite : LinkTree := dir [⟨"site", by decide⟩] fun _ => dir siteNames siteEntry

end LinkTree

theorem listings_agree_iff_site :
    ListingsAgree .reliable .withSite .withSite "/site" "/site/" ↔
      (LinkTree.dir LinkTree.siteNames LinkTree.siteEntry).LinksMatch :=
  listings_agree_iff (show "/site/" ≠ "" by decide) rfl rfl rfl rfl

/-- `/site/latest` is a file of two bytes to the local side and a directory to the server. -/
theorem listings_of_site :
    (exec (linkStep .reliable .withSite .withSite) (listLocalFiles 4 "/site") ()).1.map
        (fun m => m.entries.map fun e => (e.1, e.2.size)) =
      .ok [("/site/v1/index", 3), ("/site/latest", 2)] ∧
    (exec (linkStep .reliable .withSite .withSite) (listRemoteFiles 4 "/site/") ()).1.map
        (fun m => m.entries.map fun e => (e.1, e.2.size)) =
      .ok [("/site/latest/index", 3), ("/site/v1/index", 3)] := by
  decide +kernel

end Passhrs
