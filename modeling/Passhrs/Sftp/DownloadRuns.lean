import Passhrs.Sftp.Download

/-!
# Whole downloads

* **`rsyncDownload_exact`**: what a run of `rsync_download` that returns `Ok` leaves on the local
  disk, file by file, for every option set without `dry-run`.
* **`rsyncDownload_into_empty`**: into an empty directory a run does return `Ok`, for remote trees
  of any depth.
-/

namespace Passhrs

open Effects SlashPath

section Runs

variable {env : Env} {copia : Copia} {localOrder remoteOrder : IterOrder} {fuel : Nat}
  {localRoot remoteRoot : String} {opts : List String} {o : RsyncOpts} {p : Loc} {w w' : World}
  {localFiles remoteFiles : FileMap}

/-! ## The two loops -/

/-- The loop body on a listed path: the local path is the same names below the local root. -/
theorem downloadFile_below (copia : Copia) (o : RsyncOpts) (localRoot remoteRoot : String)
    (localFiles : FileMap) {names : List FileName} (hne : names ≠ []) (info : RemoteFileInfo) :
    downloadFile copia o (trimEndSlash localRoot) (trimEndSlash remoteRoot) localFiles
        (below remoteRoot names) info =
      if isExcluded o (rel names) (below remoteRoot names) then pure ()
      else downloadIfChanged copia o localFiles (below remoteRoot names) (below localRoot names)
        info := by
  rw [downloadFile, relPath_below remoteRoot hne, ← below_eq localRoot hne]

theorem deleteLocalFile_below (o : RsyncOpts) (localRoot remoteRoot : String)
    (remoteFiles : FileMap) {names : List FileName} (hne : names ≠ []) :
    deleteLocalFile o (trimEndSlash localRoot) (trimEndSlash remoteRoot) remoteFiles
        (below localRoot names) =
      if (remoteFiles.lookup (below remoteRoot names)).isSome then pure ()
      else if o.dryRun then pure ()
      else ignore (fsRemoveFile (below localRoot names)) := by
  rw [deleteLocalFile, relPath_below localRoot hne, ← below_eq remoteRoot hne]

/-- What the download loop leaves at the local path of the remote file `f`. -/
def Fetched (o : RsyncOpts) (remoteRoot : String) (names : List FileName) (before : Option File)
    (f : File) (after : Option File) : Prop :=
  if isExcluded o (rel names) (below remoteRoot names) then after = before
  else ∃ g, after = some g ∧ Landed o before f g

/-- The download loop, if it returns `Ok`. -/
theorem downloads_eq_ok (hok : env.NoFailure) (hcopia : copia.Lawful) (hdry : o.dryRun = false)
    (hremote : remoteRoot ≠ "") (hp : env.diskLoc localRoot = some p)
    (hrdir : w.remote.get (env.remoteLoc remoteRoot) = some .dir)
    (hlists : Lists localInfo w.disk p localRoot (fun _ => True) localFiles)
    (hrlists : Lists remoteInfo w.remote (env.remoteLoc remoteRoot) remoteRoot (fun _ => True)
      remoteFiles)
    (hrun : exec (step env) (forM (remoteOrder.order remoteFiles.items) fun (remotePath, info) =>
      downloadFile copia o (trimEndSlash localRoot) (trimEndSlash remoteRoot) localFiles remotePath
        info) w = (.ok (), w')) :
    w'.remote = w.remote ∧
      (∀ (names : List FileName) f,
        w.remote.get (names.reverse ++ env.remoteLoc remoteRoot) = some (.file f) →
        Fetched o remoteRoot names (w.disk.fileAt (names.reverse ++ p)) f
          (w'.disk.fileAt (names.reverse ++ p))) ∧
      ∀ x, (∀ names : List FileName,
        (w.remote.fileAt (names.reverse ++ env.remoteLoc remoteRoot)).isSome →
          x ≠ names.reverse ++ p) → w'.disk.fileAt x = w.disk.fileAt x := by
  have hroot : localRoot ≠ "" := Env.ne_empty_of_diskLoc hp
  obtain ⟨xs, hxs, hnodup, hne, hmem⟩ := hrlists.exists_entries hrdir hremote remoteOrder
  rw [hxs, forM_map] at hrun
  -- each round writes one location, and no two rounds the same one
  have hsweep := exec_forM_sweep (fun s : World => s.disk.fileAt)
    (fun e : List FileName × File => e.1.reverse ++ p)
    (fun e after => Fetched o remoteRoot e.1 (w.disk.fileAt (e.1.reverse ++ p)) e.2 after)
    (K := fun s => s.remote = w.remote) (nodup_locs hnodup p) ?_ rfl hrun
  · obtain ⟨hsame, hswept⟩ := hsweep
    refine ⟨hsame, fun names f hf => hswept.visited (names, f) ((hmem names f).mpr hf),
      fun x hx => hswept.other x fun hkey => ?_⟩
    obtain ⟨e, he, rfl⟩ := List.mem_map.mp hkey
    refine hx e.1 ?_ rfl
    rw [FileTree.fileAt_eq_some_iff.mpr ((hmem e.1 e.2).mp he)]
    rfl
  -- one round: its file is still as the server had it at the start
  rintro ⟨names, f⟩ he s s' hK hview hround
  have hf : s.remote.get (env.remoteLoc (below remoteRoot names)) = some (.file f) := by
    rw [hK, remoteLoc_below env hremote]
    exact (hmem names f).mp he
  have hround : exec (step env) (downloadFile copia o (trimEndSlash localRoot)
      (trimEndSlash remoteRoot) localFiles (below remoteRoot names) (remoteInfo f)) s
        = (.ok (), s') := hround
  rw [downloadFile_below _ _ _ _ _ (hne _ he)] at hround
  unfold Fetched
  split at hround
  · next hexcluded =>
    cases hround
    exact ⟨hK, by rw [if_pos hexcluded]; exact hview, fun _ _ => rfl⟩
  · next hkept =>
    have hp' : env.diskLoc (below localRoot names) = some (names.reverse ++ p) :=
      diskLoc_below hp names
    obtain ⟨g, hlanded, hplaced⟩ := exec_downloadIfChanged_eq_ok hok hcopia hdry hp' hf
      (by rw [hlists.lookup_below hroot, hview]) hround
    rw [hview] at hlanded
    exact ⟨hplaced.remote.trans hK, by rw [if_neg hkept]; exact ⟨g, hplaced.file, hlanded⟩,
      fun k hk => hplaced.other k hk⟩

/-- Removing a local file, where nothing fails: afterwards no file is there. -/
theorem exec_fsRemoveFile_fileAt (hok : env.NoFailure) {path : String} {q : Loc}
    (hq : env.diskLoc path = some q) (w : World) :
    (exec (step env) (fsRemoveFile path) w).2.remote = w.remote ∧
      ∀ x, (exec (step env) (fsRemoveFile path) w).2.disk.fileAt x
        = if x = q then none else w.disk.fileAt x := by
  obtain ⟨hstep, -⟩ := exec_fsRemoveFile w hq
  refine ⟨hstep.remote, fun x => ?_⟩
  have hget := hstep.get x
  split
  · next hx =>
    subst hx
    rcases hfile : w.disk.fileAt x with _ | f
    · rw [hfile, if_neg (by simp)] at hget
      rw [FileTree.fileAt_congr hget, hfile]
    · rw [hfile, if_pos ⟨rfl, hok _, rfl⟩] at hget
      unfold FileTree.fileAt
      rw [hget]
  · next hx =>
    rw [if_neg fun h => hx h.1] at hget
    exact FileTree.fileAt_congr hget

/-- The delete pass: of the files that were listed, those that the server does not have are gone,
and nothing else has changed. Without `delete` there is no such pass. -/
theorem localDeletes_eq_ok {d t : Tree} (hok : env.NoFailure) (hdry : o.dryRun = false)
    (hremote : remoteRoot ≠ "") (hp : env.diskLoc localRoot = some p)
    (hdir : d.get p = some .dir)
    (hlists : Lists localInfo d p localRoot (fun _ => True) localFiles)
    (hrlists : Lists remoteInfo t (env.remoteLoc remoteRoot) remoteRoot (fun _ => True) remoteFiles)
    (hrun : if o.deleteExtra then
        exec (step env) (forM (localOrder.order localFiles.items) fun (localPath, _) =>
          deleteLocalFile o (trimEndSlash localRoot) (trimEndSlash remoteRoot) remoteFiles
            localPath) w = (.ok (), w')
      else w' = w) :
    w'.remote = w.remote ∧
      (o.deleteExtra = true → ∀ names : List FileName, (d.fileAt (names.reverse ++ p)).isSome →
        t.fileAt (names.reverse ++ env.remoteLoc remoteRoot) = none →
          w'.disk.fileAt (names.reverse ++ p) = none) ∧
      ∀ x, (o.deleteExtra = true → ∀ names : List FileName,
        (d.fileAt (names.reverse ++ p)).isSome →
        t.fileAt (names.reverse ++ env.remoteLoc remoteRoot) = none → x ≠ names.reverse ++ p) →
          w'.disk.fileAt x = w.disk.fileAt x := by
  split at hrun
  swap
  · next hdelete =>
    subst hrun
    exact ⟨rfl, fun h => absurd h hdelete, fun _ _ => rfl⟩
  next hdelete =>
  have hroot : localRoot ≠ "" := Env.ne_empty_of_diskLoc hp
  obtain ⟨xs, hxs, hnodup, hne, hmem⟩ := hlists.exists_entries hdir hroot localOrder
  have hlisted : ∀ names : List FileName, (d.fileAt (names.reverse ++ p)).isSome →
      ∃ f, (names, f) ∈ xs := fun names h => by
    obtain ⟨f, hf⟩ := Option.isSome_iff_exists.mp h
    exact ⟨f, (hmem names f).mpr (FileTree.fileAt_eq_some_iff.mp hf)⟩
  rw [hxs, forM_map] at hrun
  have hsweep := exec_forM_sweep (fun s : World => s.disk.fileAt)
    (fun e : List FileName × File => e.1.reverse ++ p)
    (fun e after => after =
      if (t.fileAt (e.1.reverse ++ env.remoteLoc remoteRoot)).isSome
      then w.disk.fileAt (e.1.reverse ++ p) else none)
    (K := fun s => s.remote = w.remote) (nodup_locs hnodup p) ?_ rfl hrun
  · obtain ⟨hsame, hswept⟩ := hsweep
    refine ⟨hsame, fun _ names hd hnone => ?_, fun x hx => ?_⟩
    · obtain ⟨f, hf⟩ := hlisted names hd
      have hgone := hswept.visited _ hf
      rwa [if_neg (by simp [hnone])] at hgone
    · by_cases hkey : x ∈ xs.map fun e => e.1.reverse ++ p
      · -- it was listed, so the server has it
        obtain ⟨e, he, rfl⟩ := List.mem_map.mp hkey
        have hkept := hswept.visited e he
        have hfile := FileTree.fileAt_eq_some_iff.mpr ((hmem e.1 e.2).mp he)
        refine hkept.trans (if_pos ?_)
        rw [← Option.ne_none_iff_isSome]
        exact fun hnone => hx hdelete e.1 (by rw [hfile]; rfl) hnone rfl
      · exact hswept.other x hkey
  rintro ⟨names, f⟩ he s s' hK hview hround
  have hround : exec (step env) (deleteLocalFile o (trimEndSlash localRoot)
      (trimEndSlash remoteRoot) remoteFiles (below localRoot names)) s = (.ok (), s') := hround
  rw [deleteLocalFile_below _ _ _ _ (hne _ he), hrlists.lookup_below hremote,
    Option.isSome_map] at hround
  dsimp only at hview ⊢
  split at hround
  · next hhas =>
    cases hround
    exact ⟨hK, by rw [if_pos hhas]; exact hview, fun _ _ => rfl⟩
  · next hhas =>
    rw [hdry, if_neg (by decide), exec_ignore] at hround
    obtain rfl := (Prod.mk.inj hround).2
    obtain ⟨hsame, hfiles⟩ := exec_fsRemoveFile_fileAt hok (diskLoc_below hp names) s
    refine ⟨hsame.trans hK, ?_, fun k hk => ?_⟩
    · rw [if_neg hhas, hfiles, if_pos rfl]
    · rw [hfiles, if_neg hk]

/-! ## The whole run -/

/-- What a run that returns `Ok` went through. -/
theorem rsyncDownload_eq_ok (hremote : remoteRoot ≠ "")
    (hrun : exec (step env) (rsyncDownload copia localOrder remoteOrder fuel remoteRoot localRoot
      opts) w = (.ok (), w')) :
    ∃ p localFiles remoteFiles w₁ w₂, env.diskLoc localRoot = some p ∧
      w.disk.get p = some .dir ∧ w.remote.get (env.remoteLoc remoteRoot) = some .dir ∧
      SameTrees w w₁ ∧ Lists localInfo w.disk p localRoot (fun _ => True) localFiles ∧
      Lists remoteInfo w.remote (env.remoteLoc remoteRoot) remoteRoot (fun _ => True)
        remoteFiles ∧
      exec (step env) (forM (remoteOrder.order remoteFiles.items) fun (remotePath, info) =>
        downloadFile copia (parseRsyncOpts opts) (trimEndSlash localRoot) (trimEndSlash remoteRoot)
          localFiles remotePath info) w₁ = (.ok (), w₂) ∧
      if (parseRsyncOpts opts).deleteExtra then
        exec (step env) (forM (localOrder.order localFiles.items) fun (localPath, _) =>
          deleteLocalFile (parseRsyncOpts opts) (trimEndSlash localRoot) (trimEndSlash remoteRoot)
            remoteFiles localPath) w₂ = (.ok (), w')
      else w' = w₂ := by
  rw [rsyncDownload] at hrun
  obtain ⟨localFiles, w₁, hlocal, hrun⟩ := exec_bind_eq_ok hrun
  obtain ⟨remoteFiles, w₂, hlist, hrun⟩ := exec_bind_eq_ok hrun
  obtain ⟨_, w₃, hdownloads, hrun⟩ := exec_bind_eq_ok hrun
  obtain ⟨p, hp, hdir, hsame, hlists⟩ := listLocalFiles_lists hlocal
  obtain ⟨hsame', hrdir, hrlists⟩ := listRemoteFiles_lists hremote hlist
  rw [hsame.remote] at hrdir hrlists
  refine ⟨p, localFiles, remoteFiles, w₂, w₃, hp, hdir, hrdir, hsame.trans hsame', hlists, hrlists,
    hdownloads, ?_⟩
  split at hrun
  · next hdelete =>
    rw [if_pos hdelete]
    exact hrun
  · next hdelete =>
    rw [if_neg hdelete]
    cases hrun
    rfl

/-- What a download leaves on the local disk, at each path: what came from the server where the
server has a file that is not excluded; what was there where it has none, unless `delete` takes it
away; and what was there where the file is excluded. -/
structure Downloaded (env : Env) (o : RsyncOpts) (remoteRoot : String) (p : Loc) (w w' : World) :
    Prop where
  remote : w'.remote = w.remote
  fetched : ∀ (names : List FileName) f,
    w.remote.get (names.reverse ++ env.remoteLoc remoteRoot) = some (.file f) →
      Fetched o remoteRoot names (w.disk.fileAt (names.reverse ++ p)) f
        (w'.disk.fileAt (names.reverse ++ p))
  other : ∀ x, (∀ names : List FileName,
      (w.remote.fileAt (names.reverse ++ env.remoteLoc remoteRoot)).isSome →
        x ≠ names.reverse ++ p) →
    w'.disk.fileAt x = if o.deleteExtra ∧ p <:+ x then none else w.disk.fileAt x

theorem rsyncDownload_downloaded (hok : env.NoFailure) (hcopia : copia.Lawful)
    (hremote : remoteRoot ≠ "") (hdry : (parseRsyncOpts opts).dryRun = false)
    (hrun : exec (step env) (rsyncDownload copia localOrder remoteOrder fuel remoteRoot localRoot
      opts) w = (.ok (), w')) :
    ∃ p, env.diskLoc localRoot = some p ∧
      Downloaded env (parseRsyncOpts opts) remoteRoot p w w' := by
  obtain ⟨p, localFiles, remoteFiles, w₁, w₂, hp, hdir, hrdir, hsame, hlists, hrlists, hdownloads,
    hdeletes⟩ := rsyncDownload_eq_ok hremote hrun
  obtain ⟨hremote₂, hfetched, hother⟩ := downloads_eq_ok hok hcopia hdry hremote hp
    (hsame.remote ▸ hrdir) (hsame.disk ▸ hlists) (hsame.remote ▸ hrlists) hdownloads
  rw [hsame.remote] at hremote₂ hfetched hother
  rw [hsame.disk] at hfetched hother
  obtain ⟨hremote₃, hgone, hkept⟩ := localDeletes_eq_ok hok hdry hremote hp hdir hlists hrlists
    hdeletes
  refine ⟨p, hp, hremote₃.trans hremote₂, fun names f hf => ?_, fun x hx => ?_⟩
  · -- a file that the server has is not deleted
    rw [hkept _ fun _ names' _ hnone heq => ?_]
    · exact hfetched names f hf
    · obtain rfl := List.reverse_injective (List.append_cancel_right heq)
      rw [FileTree.fileAt_eq_some_iff.mpr hf] at hnone
      cases hnone
  by_cases hbelow : (parseRsyncOpts opts).deleteExtra = true ∧ p <:+ x
  · rw [if_pos hbelow]
    obtain ⟨hdelete, ns, rfl⟩ := hbelow
    have hnone : w.remote.fileAt (ns.reverse.reverse ++ env.remoteLoc remoteRoot) = none := by
      rw [← Option.not_isSome_iff_eq_none]
      exact fun h => hx _ h (by simp)
    by_cases hfile : (w.disk.fileAt (ns ++ p)).isSome
    · -- it was listed
      have hgone := hgone hdelete ns.reverse (by simpa using hfile) hnone
      simpa using hgone
    · -- nothing was there
      rw [hkept _ fun _ names hlist _ heq => hfile (by rwa [heq]), hother _ hx]
      simpa using hfile
  · rw [if_neg hbelow, hkept _ fun hdelete names _ _ heq => ?_, hother x hx]
    exact hbelow ⟨hdelete, heq ▸ List.suffix_append _ _⟩

/-- **What `Ok` means for a download**, for all trees, iteration orders and options without
`dry-run`: the server is as it was, and the local disk holds exactly what `Downloaded` says. -/
theorem rsyncDownload_exact (hok : env.NoFailure) (hcopia : copia.Lawful)
    (hremote : remoteRoot ≠ "") (hdry : "dry-run" ∉ opts ∧ "dry_run" ∉ opts)
    (hrun : exec (step env) (rsyncDownload copia localOrder remoteOrder fuel remoteRoot localRoot
      opts) w = (.ok (), w')) :
    ∃ p, env.diskLoc localRoot = some p ∧
      Downloaded env (parseRsyncOpts opts) remoteRoot p w w' := by
  exact rsyncDownload_downloaded hok hcopia hremote (by simp [parseRsyncOpts_eq, hdry]) hrun

/-- One file is replaced, one excluded, and one removed. -/
theorem rsyncDownload_exact_three_files :
    let w := World.start (Tree.dirWith ⟨"r", by decide⟩ [(⟨"a", by decide⟩, [1, 2]),
      (⟨"b.o", by decide⟩, [3])]) (Tree.dirWith ⟨"l", by decide⟩ [(⟨"a", by decide⟩, [1]),
      (⟨"c", by decide⟩, [4])])
    let opts := ["delete", "exclude=.o"]
    let w' := (exec (step .reliable) (rsyncDownload .prefixOnly .asListed .asListed 3 "/r/" "/l"
      opts) w).2
    ∃ p, Env.reliable.diskLoc "/l" = some p ∧
      Downloaded .reliable (parseRsyncOpts opts) "/r/" p w w' :=
  rsyncDownload_exact (fun _ => rfl) Copia.prefixOnly_lawful (by decide) (by decide)
    (exec_eq_ok_of_isOk (by decide +kernel))

/-! ## Into an empty directory -/

/-- The directory part of a path below a root leads where the path without its last name does. -/
theorem parent_below {root : String} (hroot : root ≠ "") (init : List FileName) (n : FileName) :
    ∃ dir, parent (below root (init ++ [n])) = some dir ∧
      normalize dir = normalize (below root init) := by
  have hinit : below root init ≠ "" := below_ne_empty hroot init
  obtain ⟨dir, m, hparent, -, hnorm⟩ := parent_child hinit n.descends
  refine ⟨dir, by rw [below_append]; exact hparent, ?_⟩
  rw [normalize_child_name _ _ hinit] at hnorm
  rcases hi : normalize (below root init) with ⟨abs, ups, names⟩
  rcases hd : normalize dir with ⟨abs', ups', names'⟩
  rw [hi, hd] at hnorm
  simp only [Normal.mk.injEq, List.cons.injEq] at hnorm
  obtain ⟨rfl, rfl, -, rfl⟩ := hnorm
  rfl

/-- Whatever is below `p` is below `q` in the other tree, a file as a file and a directory as a
directory. -/
structure Shadows (t : Tree) (q : Loc) (u : Tree) (p : Loc) : Prop where
  root : u.get p = some .dir
  dirs : ∀ ns, u.get (ns ++ p) = some .dir → t.get (ns ++ q) = some .dir
  files : ∀ ns, (u.fileAt (ns ++ p)).isSome → (t.fileAt (ns ++ q)).isSome

section Shadow

variable {t u : Tree} {q p : Loc} {init : Loc} {n : FileName} {f : File}

/-- No file is on the way to where a file of the other tree goes. -/
theorem Shadows.clear (h : Shadows t q u p) (hf : t.get (n :: (init ++ q)) = some (.file f)) :
    ∀ x, x <:+ init ++ p → u.fileAt x = none := by
  intro x hx
  rw [← Option.not_isSome_iff_eq_none]
  intro hfile
  obtain ⟨g, hg⟩ := Option.isSome_iff_exists.mp hfile
  have hx' := FileTree.fileAt_eq_some_iff.mp hg
  rcases List.suffix_or_suffix_of_suffix hx (List.suffix_append init p) with hup | ⟨ns, rfl⟩
  · -- at or above `p` there are directories only
    obtain ⟨ns, hns⟩ := hup
    by_cases hnil : ns = []
    · rw [hnil, List.nil_append] at hns
      rw [hns, h.root] at hx'
      cases hx'
    · have hdir := FileTree.get_ancestor (t := u) (p := x)
        (by rw [hns, h.root]; simp) hnil
      rw [hdir] at hx'
      cases hx'
  · -- the other tree has a directory there
    obtain ⟨ms, hms⟩ := hx
    have hinit : ms ++ ns = init := by
      rw [← List.append_assoc] at hms
      exact List.append_cancel_right hms
    obtain ⟨g', hg'⟩ := Option.isSome_iff_exists.mp (h.files ns hfile)
    have hdir := FileTree.get_ancestor (t := t) (p := ns ++ q)
      (show t.get ((n :: ms) ++ (ns ++ q)) ≠ none by
        rw [List.cons_append, ← List.append_assoc, hinit, hf]; simp) (by simp)
    rw [FileTree.fileAt_eq_some_iff, hdir] at hg'
    cases hg'

/-- Adding a file of the other tree, with the directories on the way to it. -/
theorem Shadows.add (h : Shadows t q u p) (hf : t.get (n :: (init ++ q)) = some (.file f))
    {v : Tree} {g : File} (hget : ∀ x, v.get x = if x = n :: (init ++ p) then some (.file g)
      else if x <:+ init ++ p then some .dir else u.get x) : Shadows t q v p := by
  have hne : ∀ x, x <:+ init ++ p → x ≠ n :: (init ++ p) := by
    rintro x hx rfl
    exact absurd hx.length_le (by simp)
  refine ⟨?_, fun ns hdir => ?_, fun ns hfile => ?_⟩
  · rw [hget, if_neg (hne _ (List.suffix_append _ _)), if_pos (List.suffix_append _ _)]
  · rw [hget] at hdir
    split at hdir
    · cases hdir
    split at hdir
    -- a new directory is above the new file, and so is the server's
    · next hx =>
      obtain ⟨ms, hms⟩ := hx
      have hinit : ms ++ ns = init := by
        rw [← List.append_assoc] at hms
        exact List.append_cancel_right hms
      exact FileTree.get_ancestor (show t.get ((n :: ms) ++ (ns ++ q)) ≠ none by
        rw [List.cons_append, ← List.append_assoc, hinit, hf]; simp) (by simp)
    · exact h.dirs ns hdir
  · unfold FileTree.fileAt at hfile
    rw [hget] at hfile
    split at hfile
    · next hx =>
      split at hx
      · next heq =>
        have hns : ns = n :: init := by
          rw [← List.cons_append] at heq
          exact List.append_cancel_right heq
        rw [hns, List.cons_append, FileTree.fileAt_eq_some_iff.mpr hf]
        rfl
      · split at hx
        · cases hx
        · refine h.files ns ?_
          rw [FileTree.fileAt_eq_some_iff.mpr hx]
          rfl
    · cases hfile

end Shadow

/-- The directories on the way to an entry are made, where no file is in the way. -/
theorem exec_createParents_ok (hok : env.NoFailure) (hp : env.diskLoc localRoot = some p)
    (hdir : w.disk.get p = some .dir) (init : List FileName) (n : FileName)
    (hclear : ∀ x, x <:+ init.reverse ++ p → w.disk.fileAt x = none) :
    ∃ w₁, exec (step env) (createParents (below localRoot (init ++ [n]))) w = (.ok (), w₁) ∧
      w₁.remote = w.remote ∧ ∀ x, w₁.disk.get x =
        if x <:+ init.reverse ++ p then some .dir else w.disk.get x := by
  have hroot : localRoot ≠ "" := Env.ne_empty_of_diskLoc hp
  obtain ⟨dir, hparent, hnorm⟩ := parent_below hroot init n
  have hinit := diskLoc_below hp init
  unfold createParents
  rw [hparent]
  dsimp only
  rw [exec_propagate]
  have hexec : exec (step env) (fsCreateDirAll dir) w = if dir = "" then
      env.unlessFault w (.ok (), w.next) else env.changeDisk w dir w.disk.makeDirAll := rfl
  rw [hexec]
  split
  · next hempty =>
    -- the working directory itself, which is there
    rw [Env.unlessFault_of_none (hok _)]
    refine ⟨w.next, rfl, rfl, fun x => ?_⟩
    have hnil : init = [] := by
      rw [hempty, normalize_below hroot] at hnorm
      have hnames := congrArg Normal.names hnorm
      have hnone : (normalize "").names = [] := by decide
      rw [hnone] at hnames
      simpa using (List.append_eq_nil_iff.mp hnames.symm).1
    split
    · next hx =>
      rw [hnil, List.reverse_nil, List.nil_append] at hx
      obtain ⟨ns, hns⟩ := hx
      by_cases hns' : ns = []
      · rw [hns', List.nil_append] at hns
        rw [hns]
        exact hdir
      · exact FileTree.get_ancestor (by rw [hns, World.next_disk, hdir]; simp) hns'
    · rfl
  · next hne =>
    have hloc : env.diskLoc dir = some (init.reverse ++ p) := by
      rw [← hinit]
      unfold Env.diskLoc walk
      rw [if_neg hne, if_neg (below_ne_empty hroot init), hnorm]
    obtain ⟨hmade, hget⟩ := Tree.makeDirAll_of_clear hclear
    rw [changeDisk_of_none (hok _) hloc, hmade]
    exact ⟨_, rfl, rfl, hget⟩

/-- The names of the tree below `q` do not look like temp names of this run. -/
def NoTempNames (env : Env) (t : Tree) (q : Loc) : Prop :=
  ∀ ns : Loc, FreshSuffixes env t (ns ++ q)

theorem noTempNames_of_short {env : Env} {t : Tree} {q : Loc}
    (h : ∀ x ∈ t.nodes.keys, ∀ n ∈ x, n.str.length < 11) : NoTempNames env t q := by
  refine fun ns => freshSuffixes_of_short fun n hn => ?_
  have hget := FileTree.mem_children.mp hn
  refine h (n :: (ns ++ q)) ?_ n List.mem_cons_self
  rwa [← AList.mem_keys, ← AList.lookup_isSome, Option.isSome_iff_ne_none]

/-- A local atomic write below a root succeeds, where its directory is there, no directory is at
its place, and the temp name is free. -/
theorem atomicWriteLocal_ok (hok : env.NoFailure) (hp : env.diskLoc localRoot = some p)
    (init : List FileName) (n : FileName) (hdir : w.disk.get (init.reverse ++ p) = some .dir)
    (hplace : w.disk.get (n :: (init.reverse ++ p)) ≠ some .dir)
    (hfree : ∀ (m : FileName) k base, m.str = base ++ ".tmp." ++ tmpSuffix (env.hash k) →
      w.disk.get (m :: (init.reverse ++ p)) = none) (data : Bytes) :
    ∃ w₁, exec (step env) (atomicWriteLocal (below localRoot (init ++ [n])) data) w
      = (.ok (), w₁) := by
  have hroot : localRoot ≠ "" := Env.ne_empty_of_diskLoc hp
  have hloc : env.diskLoc (below localRoot (init ++ [n])) = some (n :: (init.reverse ++ p)) := by
    rw [diskLoc_below hp]
    simp
  obtain ⟨dir, hparent, hnorm⟩ := parent_below hroot init n
  obtain ⟨m, hm, htmp⟩ := normalize_localTmp (below localRoot (init ++ [n])) (env.hash w.tick)
  -- the temp file's place is in the same directory
  have htmpLoc : walk env.cwd (localTmp (below localRoot (init ++ [n]))
      (tmpSuffix (env.hash w.tick))) = m :: (init.reverse ++ p) := by
    unfold walk
    rw [htmp, hparent, Option.getD_some, Normal.locate_cons, hnorm]
    have hinit := diskLoc_below hp init
    unfold Env.diskLoc at hinit
    rw [if_neg (below_ne_empty hroot init)] at hinit
    exact congrArg _ (Option.some.inj hinit)
  have hnone : w.disk.get (m :: (init.reverse ++ p)) = none := hfree m _ _ hm
  rcases exec_writeLocalTemp (w := w.next) data (diskLoc_localTmp env _ _)
      (diskLoc_ne_localTmp env (below localRoot (init ++ [n])) (env.hash w.tick)) with
    ⟨-, f, q, w₁, hexec, -⟩ | ⟨hnot, -⟩
  · exact ⟨w₁, exec_atomicWriteLocal_of_ok hexec⟩
  · refine absurd ⟨⟨hok _, ?_, ?_⟩, by rw [hok]; rfl, hok _, hok _, _, hloc, ?_⟩ hnot
    · rw [htmpLoc]
      exact hnone
    · rw [htmpLoc, FileTree.writable_cons_iff]
      exact ⟨hdir, by rw [World.next_disk, hnone]; simp⟩
    · rw [FileTree.writable_cons_iff]
      exact ⟨hdir, hplace⟩

/-- One file of a remote tree, fetched into a shadow of that tree. -/
theorem exec_downloadWhole_ok (hok : env.NoFailure) (hdry : o.dryRun = false)
    (hremote : remoteRoot ≠ "") (hp : env.diskLoc localRoot = some p)
    (hfresh : NoTempNames env w.remote (env.remoteLoc remoteRoot))
    (hshadow : Shadows w.remote (env.remoteLoc remoteRoot) w.disk p) {names : List FileName}
    {f : File} (hne : names ≠ [])
    (hf : w.remote.get (names.reverse ++ env.remoteLoc remoteRoot) = some (.file f)) :
    ∃ w₁, exec (step env) (downloadWhole o (below remoteRoot names) (below localRoot names)
        (remoteInfo f)) w = (.ok (), w₁) ∧
      Shadows w.remote (env.remoteLoc remoteRoot) w₁.disk p := by
  obtain ⟨init, n, rfl⟩ : ∃ init n, names = init ++ [n] := by
    rcases List.eq_nil_or_concat names with rfl | ⟨init, n, h⟩
    · exact absurd rfl hne
    · exact ⟨init, n, by rw [h, List.concat_eq_append]⟩
  have hrev : ∀ q : Loc, (init ++ [n]).reverse ++ q = n :: (init.reverse ++ q) := by simp
  rw [hrev] at hf
  have hloc := diskLoc_below hp (init ++ [n])
  rw [hrev] at hloc
  have hread : exec (step env) (propagate (read (below remoteRoot (init ++ [n])))) w
      = (.ok f.content, w.next) := by
    rw [exec_propagate_eq_ok]
    refine exec_read_ok (hok _) ?_
    rw [remoteLoc_below env hremote, hrev, hf]
  obtain ⟨w₂, hparents, hremote₂, hget₂⟩ := exec_createParents_ok (w := w.next) hok hp
    hshadow.root init n (hshadow.clear hf)
  have hlong : ∀ m, ¬ m :: (init.reverse ++ p) <:+ init.reverse ++ p := fun m h =>
    absurd h.length_le (by simp)
  have hbelow : ∀ m, w₂.disk.get (m :: (init.reverse ++ p))
      = w.disk.get (m :: (init.reverse ++ p)) := fun m => by
    rw [hget₂, if_neg (hlong m), World.next_disk]
  -- what is in the way at the target or at the temp name would be in the remote tree too
  have hwritten := atomicWriteLocal_ok (w := w₂) hok hp init n
    (by rw [hget₂, if_pos (List.suffix_refl _)]) (fun hdir => ?_) (fun m k base hm => ?_) f.content
  · obtain ⟨w₃, hwrite⟩ := hwritten
    obtain ⟨-, g, -, hget₃⟩ := atomicWriteLocal_eq_ok hok hloc hwrite
    obtain ⟨w₄, hmode, -, hget₄⟩ := exec_keepMode hok hloc (by rw [hget₃, if_pos rfl])
      (sIfreg ||| (f.perm &&& 0o7777))
    refine ⟨w₄, ?_, hshadow.add hf (g := { g with
      perm := ((sIfreg ||| (f.perm &&& 0o7777)) &&& 0o7777) &&& 0o7777 }) fun x => ?_⟩
    · rw [downloadWhole, hdry, if_neg (by decide), exec_bind_ok hread, exec_bind_ok hparents,
        exec_bind_ok hwrite]
      exact hmode
    · rw [hget₄, hget₃, hget₂]
      split <;> rfl
  · rw [hbelow] at hdir
    have hdir' := hshadow.dirs (n :: init.reverse) hdir
    rw [List.cons_append, hf] at hdir'
    cases hdir'
  · rw [hbelow]
    by_contra hsome
    refine hfresh init.reverse k m base ?_ hm
    obtain ⟨node, hnode⟩ := Option.ne_none_iff_exists'.mp hsome
    rcases node with g | _
    · obtain ⟨g', hg'⟩ := Option.isSome_iff_exists.mp (hshadow.files (m :: init.reverse) (by
        rw [List.cons_append, FileTree.fileAt_eq_some_iff.mpr hnode]
        rfl))
      rw [FileTree.fileAt_eq_some_iff] at hg'
      rw [← List.cons_append, hg']
      simp
    · have hdir := hshadow.dirs (m :: init.reverse) hnode
      rw [← List.cons_append, hdir]
      simp

/-- Into a directory with nothing in it, no round of the download loop fails. -/
theorem downloads_ok (copia : Copia) (remoteOrder : IterOrder) (hok : env.NoFailure)
    (hdry : o.dryRun = false) (hremote : remoteRoot ≠ "") (hp : env.diskLoc localRoot = some p)
    (hrdir : w.remote.get (env.remoteLoc remoteRoot) = some .dir)
    (hfresh : NoTempNames env w.remote (env.remoteLoc remoteRoot))
    (hshadow : Shadows w.remote (env.remoteLoc remoteRoot) w.disk p)
    (hnone : ∀ names : List FileName, localFiles.lookup (below localRoot names) = none)
    (hrlists : Lists remoteInfo w.remote (env.remoteLoc remoteRoot) remoteRoot (fun _ => True)
      remoteFiles) :
    ∃ w', exec (step env) (forM (remoteOrder.order remoteFiles.items) fun (remotePath, info) =>
      downloadFile copia o (trimEndSlash localRoot) (trimEndSlash remoteRoot) localFiles remotePath
        info) w = (.ok (), w') := by
  obtain ⟨xs, hxs, -, hne, hmem⟩ := hrlists.exists_entries hrdir hremote remoteOrder
  rw [hxs, forM_map]
  have hloop := exec_forM_ok (h := step env) (s := w) (l := xs)
    (f := fun e => downloadFile copia o (trimEndSlash localRoot) (trimEndSlash remoteRoot)
      localFiles (below remoteRoot e.1) (remoteInfo e.2))
    (I := fun _ s => s.remote = w.remote ∧
      Shadows w.remote (env.remoteLoc remoteRoot) s.disk p) ?_ ⟨rfl, hshadow⟩
  · obtain ⟨w', hrun, -⟩ := hloop
    exact ⟨w', hrun⟩
  -- no local file is known, so that each round downloads the whole file
  rintro done ⟨names, f⟩ rest s hsplit ⟨hsame, hshadow⟩
  have he : (names, f) ∈ xs := hsplit ▸ by simp
  have hf := (hmem names f).mp he
  rw [downloadFile_below _ _ _ _ _ (hne _ he)]
  split
  · exact ⟨s, rfl, hsame, hshadow⟩
  rw [downloadIfChanged, hnone]
  rw [← hsame] at hfresh hshadow hf
  obtain ⟨s', hrun, hshadow'⟩ :=
    exec_downloadWhole_ok hok hdry hremote hp hfresh hshadow (hne _ he) hf
  obtain ⟨g, -, hplaced⟩ := exec_downloadWhole_eq_ok hok hdry (diskLoc_below hp names)
    (by rw [remoteLoc_below env hremote, hf]) hrun
  exact ⟨s', hrun, hplaced.remote.trans hsame, hsame ▸ hshadow'⟩

theorem deleteLocalFile_ok (env : Env) (o : RsyncOpts) (localPrefix remotePrefix : String)
    (remoteFiles : FileMap) (localPath : String) (w : World) :
    ∃ w', exec (step env) (deleteLocalFile o localPrefix remotePrefix remoteFiles localPath) w
      = (.ok (), w') := by
  unfold deleteLocalFile
  dsimp only
  split
  · exact ⟨w, rfl⟩
  · split
    · exact ⟨w, rfl⟩
    · exact ⟨_, exec_ignore _ _ _⟩

/-- **A download into an empty directory works for trees of any depth**: with enough fuel it
returns `Ok`, and the local directory has the files of the server, with content and permission
bits, and no others. -/
theorem rsyncDownload_into_empty (hok : env.NoFailure) (hcopia : copia.Lawful)
    (hp : env.diskLoc localRoot = some p) (hdir : w.disk.get p = some .dir)
    (hempty : ∀ n, w.disk.get (n :: p) = none) (hremote : remoteRoot ≠ "")
    (hrdir : w.remote.get (env.remoteLoc remoteRoot) = some .dir)
    (hfresh : NoTempNames env w.remote (env.remoteLoc remoteRoot))
    (hdry : "dry-run" ∉ opts ∧ "dry_run" ∉ opts) (hexcludes : ∀ pat, "exclude=" ++ pat ∉ opts) :
    ∃ enough, ∀ fuel, enough ≤ fuel → ∃ w', exec (step env) (rsyncDownload copia localOrder
        remoteOrder fuel remoteRoot localRoot opts) w = (.ok (), w') ∧
      w'.remote = w.remote ∧
      (∀ names : List FileName, (w'.disk.fileAt (names.reverse ++ p)).map File.kept
        = (w.remote.fileAt (names.reverse ++ env.remoteLoc remoteRoot)).map File.kept) ∧
      ∀ x, ¬ p <:+ x → w'.disk.fileAt x = w.disk.fileAt x := by
  have hnoFile : ∀ names : List FileName, w.disk.fileAt (names.reverse ++ p) = none := by
    intro names
    unfold FileTree.fileAt
    by_cases hnil : names = []
    · simp [hnil, hdir]
    · rw [get_below_empty hempty hnil]
  have hroot : localRoot ≠ "" := Env.ne_empty_of_diskLoc hp
  obtain ⟨rounds, hlocal⟩ := listLocalFiles_ok hok hp hdir
  obtain ⟨depth, hdepth⟩ := FileTree.exists_depth w.remote
  refine ⟨max rounds (depth + 1), fun fuel hfuel => ?_⟩
  obtain ⟨localFiles, w₁, hlocal⟩ := hlocal fuel (le_of_max_le_left hfuel) w rfl
  obtain ⟨p', hp', -, hsame₁, hlists⟩ := listLocalFiles_lists hlocal
  obtain rfl : p' = p := Option.some.inj (hp'.symm.trans hp)
  obtain ⟨remoteFiles, w₂, hlist, hsame₂⟩ := listRemoteFiles_ok hok hdepth fuel
    hsame₁.remote hremote hrdir (by omega)
  obtain ⟨-, -, hrlists⟩ := listRemoteFiles_lists hremote hlist
  have hsame := hsame₁.trans hsame₂
  rw [hsame₁.remote, ← hsame.remote] at hrlists
  have hdryRun : (parseRsyncOpts opts).dryRun = false := by simp [parseRsyncOpts_eq, hdry]
  have hshadow : Shadows w.remote (env.remoteLoc remoteRoot) w.disk p' := by
    refine ⟨hdir, fun ns hns => ?_, fun ns hns => ?_⟩
    · by_cases hnil : ns = []
      · rw [hnil]
        exact hrdir
      · have hnone := get_below_empty hempty (show ns.reverse ≠ [] by simpa using hnil)
        rw [List.reverse_reverse, hns] at hnone
        cases hnone
    · have hnone := hnoFile ns.reverse
      rw [List.reverse_reverse] at hnone
      rw [hnone] at hns
      cases hns
  obtain ⟨w₃, hdownloads⟩ := downloads_ok copia remoteOrder hok hdryRun hremote hp
    (hsame.remote ▸ hrdir) (hsame.remote ▸ hfresh)
    (by rw [hsame.remote, hsame.disk]; exact hshadow)
    (fun names => by rw [hlists.lookup_below hroot, hnoFile]; rfl) hrlists
  obtain ⟨w', hrun⟩ : ∃ w', exec (step env) (rsyncDownload copia localOrder remoteOrder fuel
      remoteRoot localRoot opts) w = (.ok (), w') := by
    rw [rsyncDownload, exec_bind_ok hlocal, exec_bind_ok hlist, exec_bind_ok hdownloads]
    split
    · -- the delete pass passes over its failures
      obtain ⟨w', hrun, -⟩ := exec_forM_ok (h := step env) (s := w₃) (I := fun _ _ => True)
        (l := localOrder.order localFiles.items)
        (f := fun (localPath, _) => deleteLocalFile (parseRsyncOpts opts) (trimEndSlash localRoot)
          (trimEndSlash remoteRoot) remoteFiles localPath)
        (fun _ e _ s _ _ => (deleteLocalFile_ok env _ _ _ remoteFiles e.1 s).imp
          fun _ h => ⟨h, trivial⟩)
        trivial
      exact ⟨w', hrun⟩
    · exact ⟨w₃, rfl⟩
  obtain ⟨p'', hp'', hdone⟩ := rsyncDownload_downloaded hok hcopia hremote hdryRun hrun
  obtain rfl : p'' = p' := Option.some.inj (hp''.symm.trans hp)
  refine ⟨w', hrun, hdone.remote, fun names => ?_, fun x hx => ?_⟩
  · rcases hfile : w.remote.fileAt (names.reverse ++ env.remoteLoc remoteRoot) with _ | f
    · rw [hdone.other _ fun names' hsome heq => ?_, hnoFile, ite_self]
      obtain rfl := List.reverse_injective (List.append_cancel_right heq)
      rw [hfile] at hsome
      cases hsome
    · have hfetched := hdone.fetched names f (FileTree.fileAt_eq_some_iff.mp hfile)
      unfold Fetched at hfetched
      rw [if_neg (by simp [isExcluded, parseRsyncOpts_excludes_eq_nil hexcludes]), hnoFile]
        at hfetched
      obtain ⟨g, hg, ⟨hnone, -⟩ | ⟨hkept, -⟩⟩ := hfetched
      · cases hnone
      · rw [hg, Option.map_some, Option.map_some, hkept]
  · rw [hdone.other x fun names _ heq => hx (heq ▸ List.suffix_append _ _),
      if_neg fun h => hx h.2]

/-- The file `/r/d/x` arrives at `/l/d/x`. -/
theorem rsyncDownload_into_empty_nested :
    let w := World.start (Tree.nested ⟨"r", by decide⟩ ⟨"d", by decide⟩ ⟨"x", by decide⟩ [1])
      (Tree.dirWith ⟨"l", by decide⟩ [])
    ∃ enough, ∀ fuel, enough ≤ fuel → ∃ w', exec (step .reliable) (rsyncDownload .prefixOnly
        .asListed .asListed fuel "/r" "/l" ["delete"]) w = (.ok (), w') ∧
      w'.remote = w.remote ∧
      (∀ names : List FileName,
        (w'.disk.fileAt (names.reverse ++ [⟨"l", by decide⟩])).map File.kept
          = (w.remote.fileAt (names.reverse ++ Env.reliable.remoteLoc "/r")).map File.kept) ∧
      ∀ x, ¬ [⟨"l", by decide⟩] <:+ x → w'.disk.fileAt x = w.disk.fileAt x :=
  rsyncDownload_into_empty (fun _ => rfl) Copia.prefixOnly_lawful (by decide +kernel)
    (by decide +kernel) (get_eq_none_of_children (by decide +kernel)) (by decide)
    (by decide +kernel) (noTempNames_of_short (by decide +kernel)) (by decide)
    (exclude_not_mem (by decide))

end Runs

end Passhrs
