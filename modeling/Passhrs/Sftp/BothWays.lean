import Passhrs.Sftp.DownloadRuns

/-!
# Runs with nothing to do

* **`exec_keeps_dirs`**: no program over the operations of `sftp.rs` loses a directory.
* **`Fresh.issues_rsyncDownload`**: a download that has nothing to do only looks.
* **`rsyncDownload_idempotent`**: a second download has nothing to do.
* **`rsyncDownload_then_upload`**, **`rsyncUpload_then_download`**: neither has the other
  direction, after a run that compares contents and deletes.
-/

namespace Passhrs

open Effects SlashPath

/-! ## Directories stay -/

namespace Tree

variable {t t' : Tree} {x : Loc}

/-- Every directory of `t` is one of `t'`. -/
def KeepsDirs (t t' : Tree) : Prop := ∀ x, t.get x = some .dir → t'.get x = some .dir

theorem KeepsDirs.refl (t : Tree) : KeepsDirs t t := fun _ h => h

theorem KeepsDirs.trans {t'' : Tree} (h : KeepsDirs t t') (h' : KeepsDirs t' t'') :
    KeepsDirs t t'' := fun x hx => h' x (h x hx)

theorem keepsDirs_setFile (t : Tree) (p : Loc) (f : File) : KeepsDirs t (t.setFile p f) := by
  intro x hx
  by_cases hw : t.writable p = true
  · rw [FileTree.get_setFile hw, if_neg, hx]
    rintro rfl
    exact FileTree.get_ne_dir_of_writable hw hx
  · rwa [FileTree.setFile, dif_neg hw]

theorem keepsDirs_removeFile (t : Tree) (p : Loc) : KeepsDirs t (t.removeFile p) := by
  intro x hx
  rcases hfile : t.fileAt p with _ | f
  · rwa [FileTree.removeFile, dif_neg (by simp [hfile])]
  · rw [FileTree.fileAt_eq_some_iff] at hfile
    rw [FileTree.get_removeFile hfile, if_neg, hx]
    rintro rfl
    rw [hx] at hfile
    cases hfile

theorem keepsDirs_mkdir (t : Tree) (p : Loc) : KeepsDirs t (t.mkdir p) := by
  intro x hx
  cases p with
  | nil => exact hx
  | cons n p =>
    by_cases h : t.isDir p = true ∧ (t.get (n :: p)).isNone = true
    · rw [FileTree.get_mkdir (FileTree.isDir_iff.mp h.1) (by simpa using h.2), hx, ite_self]
    · rwa [FileTree.mkdir, dif_neg h]

theorem keepsDirs_makeDirAll (t : Tree) (p : Loc) : KeepsDirs t (t.makeDirAll p).2 := by
  induction p with
  | nil => exact .refl t
  | cons n p ih =>
    rw [makeDirAll]
    rcases hrec : t.makeDirAll p with ⟨e | ⟨⟩, t'⟩
    · rw [hrec] at ih
      exact ih
    · rw [hrec] at ih
      simp only
      split
      · exact ih
      · exact ih
      · exact ih.trans (keepsDirs_mkdir t' _)

theorem keepsDirs_createNew (t : Tree) (p : Loc) (perm : UInt32) (mtime ino : Nat) :
    KeepsDirs t (t.createNew p perm mtime ino).2 := by
  unfold createNew
  split
  · exact .refl t
  · split
    · exact keepsDirs_setFile t p _
    · exact .refl t

theorem keepsDirs_append (t : Tree) (h : FileHandle) (data : Bytes) (mtime : Nat) :
    KeepsDirs t (t.append h data mtime) := by
  unfold append
  split
  · split
    · exact keepsDirs_setFile t _ _
    · exact .refl t
  · exact .refl t

theorem keepsDirs_unlink (t : Tree) (p : Loc) : KeepsDirs t (t.unlink p).2 := by
  unfold unlink
  split
  · exact .refl t
  · exact .refl t
  · exact keepsDirs_removeFile t p

theorem keepsDirs_move (t : Tree) (replaces : Bool) (p q : Loc) :
    KeepsDirs t (t.move replaces p q).2 := by
  unfold move
  split
  · exact .refl t
  · split
    · exact (keepsDirs_removeFile t p).trans (keepsDirs_setFile _ q _)
    · exact .refl t

theorem keepsDirs_chmod (t : Tree) (p : Loc) (mode : UInt32) :
    KeepsDirs t (t.chmod p mode).2 := by
  unfold chmod
  split
  · exact .refl t
  · exact .refl t
  · exact keepsDirs_setFile t p _

theorem keepsDirs_makeDir (t : Tree) (p : Loc) : KeepsDirs t (t.makeDir p).2 := by
  unfold makeDir
  split
  · split
    · exact keepsDirs_mkdir t _
    · exact .refl t
  · exact .refl t

end Tree

/-- Every directory of either side is still one. -/
structure World.KeepsDirs (w w' : World) : Prop where
  remote : w.remote.KeepsDirs w'.remote
  disk : w.disk.KeepsDirs w'.disk

theorem World.KeepsDirs.refl (w : World) : w.KeepsDirs w := ⟨.refl _, .refl _⟩

theorem World.KeepsDirs.trans {w w' w'' : World} (h : w.KeepsDirs w') (h' : w'.KeepsDirs w'') :
    w.KeepsDirs w'' := ⟨h.remote.trans h'.remote, h.disk.trans h'.disk⟩

open Passhrs.Tree in
/-- No operation removes a directory. -/
theorem step_keeps_dirs (env : Env) (op : FileOp) (w : World) :
    w.KeepsDirs (step env op w).2 := by
  have hstays : ∀ {α : Type} (r : Except IoError α × World), w.KeepsDirs r.2 →
      w.KeepsDirs (env.unlessFault w r).2 := fun r hr =>
    Env.unlessFault_rule (P := fun t => w.KeepsDirs t) ⟨.refl _, .refl _⟩ hr
  have hdisk : ∀ (path : String) {α : Type} (r : Loc → Except IoError α × Tree),
      (∀ p, w.disk.KeepsDirs (r p).2) → w.KeepsDirs (env.changeDisk w path r).2 := by
    intro path α r hr
    unfold Env.changeDisk
    split
    -- the new path is empty, and nothing moves
    · exact hstays _ ⟨.refl _, .refl _⟩
    · exact hstays _ ⟨.refl _, hr _⟩
  cases op with
  | createDir path => exact hstays _ ⟨keepsDirs_makeDir _ _, .refl _⟩
  | openWithFlags path => exact hstays _ ⟨keepsDirs_createNew _ _ _ _ _, .refl _⟩
  | writeAll h data =>
    exact World.writeBehind_rule (P := fun t => w.KeepsDirs t) _ h data ⟨.refl _, .refl _⟩
      fun _ => ⟨⟨keepsDirs_append _ _ _ _, .refl _⟩, fun _ => ⟨keepsDirs_append _ _ _ _, .refl _⟩⟩
  | removeFile path => exact hstays _ ⟨keepsDirs_unlink _ _, .refl _⟩
  | rename old new => exact hstays _ ⟨keepsDirs_move _ _ _ _, .refl _⟩
  | setMetadata path attrs =>
    refine hstays _ ⟨?_, .refl _⟩
    dsimp only
    split
    · exact keepsDirs_chmod _ _ _
    · exact .refl _
  | fsOpenCreateNew path => exact hdisk _ _ fun p => keepsDirs_createNew _ _ _ _ _
  | fsWriteAll h data =>
    exact World.writeBehind_rule (P := fun t => w.KeepsDirs t) _ h data ⟨.refl _, .refl _⟩
      fun _ => ⟨⟨.refl _, keepsDirs_append _ _ _ _⟩, fun _ => ⟨.refl _, keepsDirs_append _ _ _ _⟩⟩
  | flush h | close h | fsFlush h =>
    exact Env.awaitWrites_rule (P := fun t => w.KeepsDirs t) env h fun _ => ⟨.refl _, .refl _⟩
  | fsRename old new =>
    simp only [step]
    split
    · exact hstays _ ⟨.refl _, .refl _⟩
    · exact hdisk _ _ fun p => keepsDirs_move _ _ _ _
  | fsRemoveFile path => exact hdisk _ _ fun p => keepsDirs_unlink _ _
  | fsCreateDirAll path =>
    simp only [step]
    split
    · exact hstays _ ⟨.refl _, .refl _⟩
    · exact hdisk _ _ fun p => keepsDirs_makeDirAll _ _
  | fsSetPermissions path mode => exact hdisk _ _ fun p => keepsDirs_chmod _ _ _
  | suffixHash => exact ⟨.refl _, .refl _⟩
  | _ => exact hstays _ ⟨.refl _, .refl _⟩

/-- No program over these operations loses a directory, whatever fails. -/
theorem exec_keeps_dirs {ε α : Type} (env : Env) (x : Action FileOp FileOp.Res ε α) (w : World) :
    w.KeepsDirs (exec (step env) x w).2 :=
  (emits_true x).exec_invariant (I := w.KeepsDirs)
    (fun op s _ hs => ⟨trivial, hs.trans (step_keeps_dirs env op s)⟩) (.refl w)

/-! ## A download with nothing to do -/

section Idle

variable {env : Env} {copia : Copia} {localOrder remoteOrder : IterOrder} {fuel : Nat}
  {localRoot remoteRoot : String} {opts : List String} {o : RsyncOpts} {p : Loc} {w w' : World}

/-- Nothing to do: what would be fetched is there, and what would be deleted is not. -/
structure Fresh (env : Env) (o : RsyncOpts) (remoteRoot localRoot : String) (p : Loc) (w : World) :
    Prop where
  loc : env.diskLoc localRoot = some p
  fetched : ∀ (names : List FileName) f,
    w.remote.get (names.reverse ++ env.remoteLoc remoteRoot) = some (.file f) →
    isExcluded o (rel names) (below remoteRoot names) = false → ∃ g, UpToDate o f g ∧
      w.disk.fileAt (names.reverse ++ p) = some g
  trimmed : o.deleteExtra = true → ∀ names : List FileName,
    (w.disk.fileAt (names.reverse ++ p)).isSome →
      (w.remote.fileAt (names.reverse ++ env.remoteLoc remoteRoot)).isSome

/-- A round on a file that is up to date reads the two files at most. -/
theorem UpToDate.issues_downloadIfChanged {f g : File} (hdate : UpToDate o f g)
    {remotePath localPath : String} {localFiles : FileMap} (hp : env.diskLoc localPath = some p)
    (hlookup : localFiles.lookup localPath = some (localInfo g))
    (hg : w.disk.get p = some (.file g))
    (hf : w.remote.get (env.remoteLoc remotePath) = some (.file f)) :
    Issues (step env) (fun op _ => op.ReadOnly)
      (downloadIfChanged copia o localFiles remotePath localPath (remoteInfo f)) w := by
  unfold downloadIfChanged
  simp only [hlookup]
  split
  · exact issues_pure
  next hquick =>
  -- past the quick check only equal contents are left, and the two reads show them
  have hdata : g.content = f.content :=
    hdate.resolve_right fun h => hquick (by simpa [QuickCheck] using h)
  rw [if_pos (by simp [remoteInfo, localInfo, hdata])]
  refine issues_bind ((looksOnly_propagate_fsRead _).issues w) fun localData w₁ hlocal => ?_
  rw [exec_propagate_eq_ok] at hlocal
  obtain ⟨⟨q, g', hq, hg', rfl⟩, rfl⟩ := exec_fsRead_eq_ok hlocal
  obtain rfl := Option.some.inj (hq.symm.trans hp)
  obtain rfl : g = g' := Node.file.inj (Option.some.inj (hg.symm.trans hg'))
  refine issues_bind ((looksOnly_propagate_read _).issues _) fun remoteData w₂ hremote => ?_
  rw [exec_propagate_eq_ok] at hremote
  obtain ⟨⟨f', hf', rfl⟩, rfl⟩ := exec_read_eq_ok hremote
  obtain rfl : f = f' := Node.file.inj (Option.some.inj (hf.symm.trans hf'))
  rw [if_pos hdata]
  exact issues_pure

/-- A download that starts with nothing to do only looks, whatever fails. -/
theorem Fresh.issues_rsyncDownload (copia : Copia) (localOrder remoteOrder : IterOrder)
    (fuel : Nat) (hremote : remoteRoot ≠ "")
    (h : Fresh env (parseRsyncOpts opts) remoteRoot localRoot p w) :
    Issues (step env) (fun op _ => op.ReadOnly) (rsyncDownload copia localOrder remoteOrder fuel
      remoteRoot localRoot opts) w := by
  have hroot : localRoot ≠ "" := Env.ne_empty_of_diskLoc h.loc
  rw [rsyncDownload]
  refine issues_bind ((looksOnly_listLocalFiles fuel localRoot).issues _)
    fun localFiles w₁ hlocal => ?_
  refine issues_bind ((looksOnly_listRemoteFiles fuel remoteRoot).issues _)
    fun remoteFiles w₂ hlist => ?_
  obtain ⟨p', hp', hdir, hsame₁, hlists⟩ := listLocalFiles_lists hlocal
  obtain rfl : p' = p := Option.some.inj (hp'.symm.trans h.loc)
  obtain ⟨hsame₂, hrdir, hrlists⟩ := listRemoteFiles_lists hremote hlist
  rw [hsame₁.remote] at hrdir hrlists
  -- each file that is fetched is up to date
  have hdownloads : Issues (step env) (fun op _ => op.ReadOnly)
      (forM (remoteOrder.order remoteFiles.items) fun e =>
        downloadFile copia (parseRsyncOpts opts) (trimEndSlash localRoot) (trimEndSlash remoteRoot)
          localFiles e.1 e.2) w₂ := by
    obtain ⟨xs, hxs, -, hne, hmem⟩ := hrlists.exists_entries hrdir hremote remoteOrder
    rw [hxs, forM_map]
    refine issues_forM (I := SameTrees w) ?_ (sameTrees_step w) (hsame₁.trans hsame₂)
    rintro ⟨names, f⟩ he s hs
    have hf := (hmem names f).mp he
    show Issues _ _ (downloadFile _ _ _ _ _ (below remoteRoot names) (remoteInfo f)) s
    rw [downloadFile_below _ _ _ _ _ (hne _ he)]
    split
    · exact issues_pure
    next hkept =>
    obtain ⟨g, hdate, hg⟩ := h.fetched names f hf (by simpa using hkept)
    refine hdate.issues_downloadIfChanged (diskLoc_below h.loc names) ?_ ?_ ?_
    · rw [hlists.lookup_below hroot, hg]
      rfl
    · rw [hs.disk]
      exact FileTree.fileAt_eq_some_iff.mp hg
    · rw [remoteLoc_below env hremote, hs.remote, hf]
  refine issues_bind hdownloads fun _ w₃ hexec => ?_
  split
  swap
  · exact issues_pure
  -- each local file has a remote one, so there is nothing to delete
  next hdelete =>
  have hsame₃ : SameTrees w w₃ := by
    have hend := hdownloads.exec_invariant (sameTrees_step w) (hsame₁.trans hsame₂)
    rwa [hexec] at hend
  obtain ⟨xs, hxs, -, hne, hmem⟩ := hlists.exists_entries hdir hroot localOrder
  rw [hxs, forM_map]
  refine issues_forM (I := SameTrees w) ?_ (sameTrees_step w) hsame₃
  rintro ⟨names, g⟩ he s hs
  have hlocal := h.trimmed hdelete names (by
    rw [FileTree.fileAt_eq_some_iff.mpr ((hmem names g).mp he)]
    rfl)
  show Issues _ _ (deleteLocalFile _ _ _ _ (below localRoot names)) s
  rw [deleteLocalFile_below _ _ _ _ (hne _ he), hrlists.lookup_below hremote, Option.isSome_map,
    if_pos hlocal]
  exact issues_pure

theorem Fresh.congr {env' : Env} {w'' : World} (h : Fresh env o remoteRoot localRoot p w)
    (hhome : env'.home = env.home) (hcwd : env'.cwd = env.cwd) (hsame : SameTrees w w'') :
    Fresh env' o remoteRoot localRoot p w'' := by
  have hremoteLoc := Env.remoteLoc_congr hhome
  have hdiskLoc := Env.diskLoc_congr hcwd
  refine ⟨hdiskLoc ▸ h.loc, ?_, ?_⟩
  · rw [hremoteLoc, hsame.disk, hsame.remote]
    exact h.fetched
  · rw [hremoteLoc, hsame.disk, hsame.remote]
    exact h.trimmed

/-- What a download leaves gives a second one nothing to do. -/
theorem Downloaded.fresh (h : Downloaded env o remoteRoot p w w')
    (hp : env.diskLoc localRoot = some p) : Fresh env o remoteRoot localRoot p w' := by
  refine ⟨hp, fun names f hf hkept => ?_, fun hdelete names hfile => ?_⟩
  · rw [h.remote] at hf
    have hfetched := h.fetched names f hf
    unfold Fetched at hfetched
    rw [if_neg (by simp [hkept])] at hfetched
    obtain ⟨g, hg, hlanded⟩ := hfetched
    exact ⟨g, hlanded.upToDate, hg⟩
  · -- a file without a remote one was deleted
    by_contra hnone
    rw [h.remote] at hnone
    rw [h.other _ fun names' hsome heq => ?_, if_pos ⟨hdelete, List.suffix_append _ _⟩] at hfile
    · cases hfile
    · obtain rfl := List.reverse_injective (List.append_cancel_right heq)
      exact hnone hsome

/-- **A second download writes and removes nothing.** After a run without failures that returns
`Ok`, a run with the same arguments on the same trees, at any time, in any order and with any
failures, issues no operation that changes a file. -/
theorem rsyncDownload_idempotent (hok : env.NoFailure) (hcopia : copia.Lawful)
    (hremote : remoteRoot ≠ "") (hdry : "dry-run" ∉ opts ∧ "dry_run" ∉ opts)
    (hrun : exec (step env) (rsyncDownload copia localOrder remoteOrder fuel remoteRoot localRoot
      opts) w = (.ok (), w'))
    {env' : Env} (hhome : env'.home = env.home) (hcwd : env'.cwd = env.cwd) {w'' : World}
    (hsame : SameTrees w' w'') (localOrder' remoteOrder' : IterOrder) (fuel' : Nat) :
    let again := rsyncDownload copia localOrder' remoteOrder' fuel' remoteRoot localRoot opts
    (∀ e ∈ execLog (step env') again w'', e.1.ReadOnly) ∧
      SameTrees w'' (exec (step env') again w'').2 := by
  intro again
  obtain ⟨p, hp, hdone⟩ := rsyncDownload_downloaded hok hcopia hremote
    (by simp [parseRsyncOpts_eq, hdry]) hrun
  have hissues := ((hdone.fresh hp).congr hhome hcwd hsame).issues_rsyncDownload copia
    localOrder' remoteOrder' fuel' hremote
  exact ⟨hissues, hissues.exec_invariant (sameTrees_step w'') (.refl w'')⟩

/-- Two files to fetch, one to delete. -/
theorem rsyncDownload_idempotent_three_files :
    let w := World.start (Tree.dirWith ⟨"r", by decide⟩ [(⟨"a", by decide⟩, [1]),
      (⟨"b", by decide⟩, [3])]) (Tree.dirWith ⟨"l", by decide⟩ [(⟨"a", by decide⟩, [2]),
      (⟨"c", by decide⟩, [4])])
    let download := rsyncDownload .prefixOnly .asListed .asListed 3 "/r" "/l/" ["delete"]
    let w' := (exec (step .reliable) download w).2
    (∀ e ∈ execLog (step .reliable) download w', e.1.ReadOnly) ∧
      SameTrees w' (exec (step .reliable) download w').2 := by
  intro w download w'
  have hrun : exec (step .reliable) download w = (.ok (), w') :=
    exec_eq_ok_of_isOk (by decide +kernel)
  exact rsyncDownload_idempotent (fun _ => rfl) Copia.prefixOnly_lawful (by decide) (by decide) hrun
    rfl rfl (.refl w') .asListed .asListed 3

/-! ## The other direction -/

/-- The two roots hold the same files with the same contents. -/
structure Mirrored (env : Env) (localRoot remoteRoot : String) (p : Loc) (w : World) : Prop where
  loc : env.diskLoc localRoot = some p
  localDir : w.disk.get p = some .dir
  remoteDir : w.remote.get (env.remoteLoc remoteRoot) = some .dir
  content : ∀ names : List FileName, (w.disk.fileAt (names.reverse ++ p)).map File.content
    = (w.remote.fileAt (names.reverse ++ env.remoteLoc remoteRoot)).map File.content

theorem Mirrored.congr {env' : Env} {w'' : World} (h : Mirrored env localRoot remoteRoot p w)
    (hhome : env'.home = env.home) (hcwd : env'.cwd = env.cwd) (hsame : SameTrees w w'') :
    Mirrored env' localRoot remoteRoot p w'' := by
  have hremoteLoc := Env.remoteLoc_congr hhome
  have hdiskLoc := Env.diskLoc_congr hcwd
  refine ⟨hdiskLoc ▸ h.loc, hsame.disk ▸ h.localDir, ?_, ?_⟩
  · rw [hremoteLoc, hsame.remote, h.remoteDir]
  · rw [hremoteLoc, hsame.disk, hsame.remote]
    exact h.content

/-- Between mirrored roots a download has nothing to do, whatever its options. -/
theorem Mirrored.fresh (h : Mirrored env localRoot remoteRoot p w) (o : RsyncOpts) :
    Fresh env o remoteRoot localRoot p w := by
  refine ⟨h.loc, fun names f hf _ => ?_, fun _ names hfile => ?_⟩
  · have hcontent := h.content names
    rw [FileTree.fileAt_eq_some_iff.mpr hf] at hcontent
    obtain ⟨g, hg, hdata⟩ := Option.map_eq_some_iff.mp hcontent
    exact ⟨g, .inl hdata, hg⟩
  · have hsome := congrArg Option.isSome (h.content names)
    rw [Option.isSome_map, Option.isSome_map, hfile] at hsome
    exact hsome.symm

/-- Neither has an upload. -/
theorem Mirrored.synced (h : Mirrored env localRoot remoteRoot p w) (o : RsyncOpts) :
    Synced env o localRoot remoteRoot p w := by
  refine ⟨h.loc, h.localDir, h.remoteDir, fun names f hf _ => ?_, fun _ names hfile => ?_⟩
  · have hcontent := h.content names
    rw [FileTree.fileAt_eq_some_iff.mpr hf] at hcontent
    obtain ⟨g, hg, hdata⟩ := Option.map_eq_some_iff.mp hcontent.symm
    exact ⟨g, .inl hdata, FileTree.fileAt_eq_some_iff.mp hg⟩
  · have hsome := congrArg Option.isSome (h.content names)
    rw [Option.isSome_map, Option.isSome_map, hfile] at hsome
    exact hsome

/-- A download that compares contents and deletes mirrors the server. -/
theorem rsyncDownload_mirrored (hok : env.NoFailure) (hcopia : copia.Lawful)
    (hremote : remoteRoot ≠ "") (hchecksum : "checksum" ∈ opts) (hdelete : "delete" ∈ opts)
    (hdry : "dry-run" ∉ opts ∧ "dry_run" ∉ opts) (hexcludes : ∀ pat, "exclude=" ++ pat ∉ opts)
    (hrun : exec (step env) (rsyncDownload copia localOrder remoteOrder fuel remoteRoot localRoot
      opts) w = (.ok (), w')) :
    ∃ p, Mirrored env localRoot remoteRoot p w' := by
  obtain ⟨p, -, -, -, -, hp, hdir, hrdir, -⟩ := rsyncDownload_eq_ok hremote hrun
  obtain ⟨p', hp', hdone⟩ := rsyncDownload_downloaded hok hcopia hremote
    (by simp [parseRsyncOpts_eq, hdry]) hrun
  obtain rfl : p' = p := Option.some.inj (hp'.symm.trans hp)
  have hdirs := exec_keeps_dirs env (rsyncDownload copia localOrder remoteOrder fuel remoteRoot
    localRoot opts) w
  rw [hrun] at hdirs
  refine ⟨p', hp, hdirs.disk _ hdir, hdirs.remote _ hrdir, fun names => ?_⟩
  rw [hdone.remote]
  rcases hfile : w.remote.fileAt (names.reverse ++ env.remoteLoc remoteRoot) with _ | f
  -- nothing on the server: a local file there is deleted
  · rw [hdone.other _ fun names' hsome heq => ?_, if_pos]
    · exact ⟨by simp [parseRsyncOpts_eq, hdelete], List.suffix_append _ _⟩
    · obtain rfl := List.reverse_injective (List.append_cancel_right heq)
      rw [hfile] at hsome
      cases hsome
  -- a file there: with checksum no other content passes for up to date
  · have hfetched := hdone.fetched names f (FileTree.fileAt_eq_some_iff.mp hfile)
    unfold Fetched at hfetched
    rw [if_neg (by simp [isExcluded, parseRsyncOpts_excludes_eq_nil hexcludes])] at hfetched
    obtain ⟨g, hg, hlanded⟩ := hfetched
    have hdata : g.content = f.content := hlanded.upToDate.resolve_right fun h => by
      simp [parseRsyncOpts_eq, hchecksum, QuickCheck] at h
    rw [hg, Option.map_some, Option.map_some, hdata]

/-- An upload that compares contents and deletes mirrors the local side. -/
theorem rsyncUpload_mirrored (hok : env.NoFailure) (hcopia : copia.Lawful)
    (hremote : remoteRoot ≠ "") (hchecksum : "checksum" ∈ opts) (hdelete : "delete" ∈ opts)
    (hdry : "dry-run" ∉ opts ∧ "dry_run" ∉ opts) (hexcludes : ∀ pat, "exclude=" ++ pat ∉ opts)
    (hrun : exec (step env) (rsyncUpload copia localOrder remoteOrder fuel localRoot remoteRoot
      opts) w = (.ok (), w')) :
    ∃ p, Mirrored env localRoot remoteRoot p w' := by
  obtain ⟨p, hsync⟩ := rsyncUpload_synced hok hcopia hremote
    (by simp [parseRsyncOpts_eq, hdry]) hrun
  refine ⟨p, hsync.loc, hsync.localDir, hsync.remoteDir, fun names => ?_⟩
  rcases hfile : w'.disk.fileAt (names.reverse ++ p) with _ | f
  · -- nothing else is left on the server
    have hnone : ¬ (w'.remote.fileAt (names.reverse ++ env.remoteLoc remoteRoot)).isSome := by
      intro hsome
      have hlocal := hsync.trimmed (by simp [parseRsyncOpts_eq, hdelete]) names hsome
      rw [hfile] at hlocal
      cases hlocal
    rw [Option.not_isSome_iff_eq_none.mp hnone]
  · obtain ⟨g, hpair, hg⟩ := hsync.sent names f (FileTree.fileAt_eq_some_iff.mp hfile)
      (by simp [isExcluded, parseRsyncOpts_excludes_eq_nil hexcludes])
    have hdata : g.content = f.content := hpair.resolve_right fun h => by
      simp [parseRsyncOpts_eq, hchecksum, QuickCheck] at h
    rw [FileTree.fileAt_eq_some_iff.mpr hg, Option.map_some, Option.map_some, hdata]

/-- **Downloading and then uploading changes nothing**: after a download without failures that
compares contents, deletes and returns `Ok`, an upload between the same roots, with any options, at
any time, in any order and with any failures, issues no operation that changes a file. -/
theorem rsyncDownload_then_upload (hok : env.NoFailure) (hcopia : copia.Lawful)
    (hremote : remoteRoot ≠ "") (hchecksum : "checksum" ∈ opts) (hdelete : "delete" ∈ opts)
    (hdry : "dry-run" ∉ opts ∧ "dry_run" ∉ opts) (hexcludes : ∀ pat, "exclude=" ++ pat ∉ opts)
    (hrun : exec (step env) (rsyncDownload copia localOrder remoteOrder fuel remoteRoot localRoot
      opts) w = (.ok (), w'))
    {env' : Env} (hhome : env'.home = env.home) (hcwd : env'.cwd = env.cwd) {w'' : World}
    (hsame : SameTrees w' w'') (copia' : Copia) (localOrder' remoteOrder' : IterOrder)
    (fuel' : Nat) (opts' : List String) :
    let back := rsyncUpload copia' localOrder' remoteOrder' fuel' localRoot remoteRoot opts'
    (∀ e ∈ execLog (step env') back w'', e.1.Harmless remoteRoot) ∧
      SameTrees w'' (exec (step env') back w'').2 := by
  intro back
  obtain ⟨p, hmirror⟩ :=
    rsyncDownload_mirrored hok hcopia hremote hchecksum hdelete hdry hexcludes hrun
  replace hmirror := hmirror.congr hhome hcwd hsame
  have hissues := (hmirror.synced (parseRsyncOpts opts')).issues_rsyncUpload copia' localOrder'
    remoteOrder' fuel' hremote
  refine ⟨hissues, hissues.exec_invariant (I := SameTrees w'') (fun op s hop hs => ?_) (.refl w'')⟩
  rcases hop with hop | rfl
  · exact hs.trans (step_readOnly env' hop s)
  · -- the root is there, so making it changes nothing
    obtain ⟨hdisk, -, hremote'⟩ := exec_createDir env' s remoteRoot
    refine hs.trans ⟨hremote' ?_, hdisk⟩
    rw [hs.remote, hmirror.remoteDir]
    simp

/-- One file to fetch, one to delete, and a careless upload back. -/
theorem rsyncDownload_then_upload_two_files :
    let w := World.start (Tree.dirWith ⟨"r", by decide⟩ [(⟨"a", by decide⟩, [1])])
      (Tree.dirWith ⟨"l", by decide⟩ [(⟨"b", by decide⟩, [2])])
    let w' := (exec (step .reliable) (rsyncDownload .prefixOnly .asListed .asListed 3 "/r" "/l"
      ["checksum", "delete"]) w).2
    let back := rsyncUpload .prefixOnly .asListed .asListed 3 "/l" "/r" ["delete"]
    (∀ e ∈ execLog (step .reliable) back w', e.1.Harmless "/r") ∧
      SameTrees w' (exec (step .reliable) back w').2 := by
  intro w w' back
  have hrun : exec (step .reliable) (rsyncDownload .prefixOnly .asListed .asListed 3 "/r" "/l"
      ["checksum", "delete"]) w = (.ok (), w') := exec_eq_ok_of_isOk (by decide +kernel)
  exact rsyncDownload_then_upload (fun _ => rfl) Copia.prefixOnly_lawful (by decide) (by decide)
    (by decide) (by decide) (exclude_not_mem (by decide)) hrun rfl rfl (.refl w') _ .asListed
    .asListed 3 ["delete"]

/-- **Uploading and then downloading changes nothing**, in the same sense. -/
theorem rsyncUpload_then_download (hok : env.NoFailure) (hcopia : copia.Lawful)
    (hremote : remoteRoot ≠ "") (hchecksum : "checksum" ∈ opts) (hdelete : "delete" ∈ opts)
    (hdry : "dry-run" ∉ opts ∧ "dry_run" ∉ opts) (hexcludes : ∀ pat, "exclude=" ++ pat ∉ opts)
    (hrun : exec (step env) (rsyncUpload copia localOrder remoteOrder fuel localRoot remoteRoot
      opts) w = (.ok (), w'))
    {env' : Env} (hhome : env'.home = env.home) (hcwd : env'.cwd = env.cwd) {w'' : World}
    (hsame : SameTrees w' w'') (copia' : Copia) (localOrder' remoteOrder' : IterOrder)
    (fuel' : Nat) (opts' : List String) :
    let back := rsyncDownload copia' localOrder' remoteOrder' fuel' remoteRoot localRoot opts'
    (∀ e ∈ execLog (step env') back w'', e.1.ReadOnly) ∧
      SameTrees w'' (exec (step env') back w'').2 := by
  intro back
  obtain ⟨p, hmirror⟩ :=
    rsyncUpload_mirrored hok hcopia hremote hchecksum hdelete hdry hexcludes hrun
  have hissues := ((hmirror.congr hhome hcwd hsame).fresh (parseRsyncOpts opts')
    ).issues_rsyncDownload copia' localOrder' remoteOrder' fuel' hremote
  exact ⟨hissues, hissues.exec_invariant (sameTrees_step w'') (.refl w'')⟩

/-- One file to send, one to delete, and a careless download back. -/
theorem rsyncUpload_then_download_two_files :
    let w := World.start (Tree.dirWith ⟨"r", by decide⟩ [(⟨"b", by decide⟩, [2])])
      (Tree.dirWith ⟨"l", by decide⟩ [(⟨"a", by decide⟩, [1])])
    let w' := (exec (step .reliable) (rsyncUpload .prefixOnly .asListed .asListed 3 "/l" "/r"
      ["checksum", "delete"]) w).2
    let back := rsyncDownload .prefixOnly .asListed .asListed 3 "/r" "/l" ["delete"]
    (∀ e ∈ execLog (step .reliable) back w', e.1.ReadOnly) ∧
      SameTrees w' (exec (step .reliable) back w').2 := by
  intro w w' back
  have hrun : exec (step .reliable) (rsyncUpload .prefixOnly .asListed .asListed 3 "/l" "/r"
      ["checksum", "delete"]) w = (.ok (), w') := exec_eq_ok_of_isOk (by decide +kernel)
  exact rsyncUpload_then_download (fun _ => rfl) Copia.prefixOnly_lawful (by decide) (by decide)
    (by decide) (by decide) (exclude_not_mem (by decide)) hrun rfl rfl (.refl w') _ .asListed
    .asListed 3 ["delete"]

end Idle

end Passhrs
