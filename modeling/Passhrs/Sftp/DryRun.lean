import Passhrs.Sftp.Rsync

/-!
# Uploads under `dry-run`

A dry run lists and compares like any other, and is to stop short of every write. One branch does
not: a file that is patched from a delta is written before `dry_run` is looked at.

* **`TakesDelta`**: some pair of files goes down that branch.
* **`rsyncUpload_dryRun_keeps_iff`**: a dry run leaves every remote file alone, whatever fails,
  exactly when no pair does.
-/

namespace Passhrs

open Effects SlashPath

/-! ## Listings only look -/

/-- The operations that answer and change no file. -/
def FileOp.ReadOnly : FileOp → Prop
  | .metadata _ | .readDir _ | .read _ | .fsReadDir _ | .fsNextEntry _ | .fsFileType _ _
  | .fsEntryMetadata _ _ | .fsRead _ => True
  | _ => False

theorem step_readOnly (env : Env) {op : FileOp} (hop : op.ReadOnly) (w : World) :
    SameTrees w (step env op w).2 := by
  have hunless : ∀ {α : Type} (r : Except IoError α),
      SameTrees w (env.unlessFault w (r, w.next)).2 := fun _ =>
    Env.unlessFault_rule (P := fun t => SameTrees w t) ⟨rfl, rfl⟩ ⟨rfl, rfl⟩
  cases op <;> first | exact hop.elim | exact hunless _

/-- A program that only looks. -/
abbrev LooksOnly {ε α : Type} (x : Action FileOp FileOp.Res ε α) : Prop :=
  Emits (fun _ _ => True) FileOp.ReadOnly (fun _ => True) x

theorem LooksOnly.sameTrees {ε α : Type} {x : Action FileOp FileOp.Res ε α} (hx : LooksOnly x)
    (env : Env) (w : World) : SameTrees w (exec (step env) x w).2 :=
  Emits.exec_invariant (I := SameTrees w) hx
    (fun _ s hop hs => ⟨trivial, hs.trans (step_readOnly env hop s)⟩) (SameTrees.refl w)

theorem looksOnly_propagate_fsRead (path : String) : LooksOnly (propagate (fsRead path)) :=
  emits_mapError ⟨trivial, fun _ _ _ _ => trivial⟩

theorem looksOnly_propagate_read (path : String) : LooksOnly (propagate (read path)) :=
  emits_mapError ⟨trivial, fun _ _ _ _ => trivial⟩

theorem looksOnly_listRemoteFiles (fuel : Nat) (path : String) :
    LooksOnly (listRemoteFiles fuel path) := by
  induction fuel generalizing path with
  | zero => exact emits_throw _
  | succ fuel ih =>
    refine emits_bind (emits_mapError ⟨trivial, fun _ _ _ _ => trivial⟩) fun entries _ =>
      emits_foldlM (fun files name _ => ?_) _
    refine emits_bind (emits_mapError ⟨trivial, fun _ _ _ _ => trivial⟩) fun stat _ => ?_
    split
    · exact emits_bind (ih _) fun _ _ => emits_pure trivial
    · exact emits_pure trivial

theorem looksOnly_listLocalEntry (dir : String) (state : List String × FileMap) (name : String) :
    LooksOnly (listLocalEntry dir state name) := by
  refine emits_bind (emits_mapError ⟨trivial, fun _ _ _ _ => trivial⟩) fun _ _ => ?_
  refine emits_bind (emits_mapError ⟨trivial, fun _ _ _ _ => trivial⟩) fun isDir _ => ?_
  split
  · exact emits_pure trivial
  · exact emits_bind (emits_mapError ⟨trivial, fun _ _ _ _ => trivial⟩) fun _ _ =>
      emits_pure trivial

theorem looksOnly_listLocalFiles (fuel : Nat) (path : String) :
    LooksOnly (listLocalFiles fuel path) := by
  suffices h : ∀ stack files, LooksOnly (listLocalStack fuel stack files) from h _ _
  induction fuel with
  | zero =>
    rintro (_ | ⟨dir, stack⟩) files
    · exact emits_pure trivial
    · exact emits_throw _
  | succ fuel ih =>
    rintro (_ | ⟨dir, stack⟩) files
    · exact emits_pure trivial
    · refine emits_bind (Q := fun _ => True) ?_ fun state _ => ih _ _
      refine emits_bind (emits_mapError ⟨trivial, fun _ _ _ _ => trivial⟩) fun rd _ => ?_
      refine emits_bind (emits_foldlM (fun state name _ => looksOnly_listLocalEntry _ _ _) _)
        fun state _ => ?_
      exact emits_bind (emits_mapError ⟨trivial, fun _ _ _ _ => trivial⟩) fun _ _ =>
        emits_pure trivial

/-! ## The branch that writes -/

/-- A local file and a remote one, listed with these attributes, take the delta branch: same size,
not skipped, different bytes, and a delta shorter than the file. -/
structure Patches (copia : Copia) (o : RsyncOpts) (info ri : RemoteFileInfo)
    (localData remoteData : Bytes) : Prop where
  size : ri.size = info.size
  noSkip : o.useChecksum = true ∨ ri.mtime ≠ info.mtime
  differ : localData ≠ remoteData
  shorter : ∃ sig delta, copia.signature remoteData = .ok sig ∧
    copia.delta localData sig = .ok delta ∧ deltaSize copia delta < localData.length

section Round

variable {env : Env} {copia : Copia} {o : RsyncOpts} {localRoot remotePath : String} {p : Loc}
  {names : List FileName} {f : File} {info : RemoteFileInfo} {remoteFiles : FileMap} {w : World}

/-- What the branch does once both files are read. -/
theorem uploadIfChanged_patches (hcopia : copia.Lawful) {ri : RemoteFileInfo} {g : File}
    (hri : remoteFiles.lookup remotePath = some ri) {localPath : String} {w₁ w₂ : World}
    (hlocal : exec (step env) (propagate (fsRead localPath)) w = (.ok f.content, w₁))
    (hread : exec (step env) (propagate (read remotePath)) w₁ = (.ok g.content, w₂))
    (hpatches : Patches copia o info ri f.content g.content) :
    exec (step env) (uploadIfChanged copia o remoteFiles localPath remotePath info) w
      = exec (step env) (do
          atomicWriteRemote remotePath f.content
          preserveMode remotePath info.mode) w₂ := by
  obtain ⟨sig, delta, hsig, hdelta, hshorter⟩ := hpatches.shorter
  obtain ⟨sig', delta', hsig', hdelta', hpatch⟩ := hcopia.exists_delta g.content f.content
  obtain rfl := Except.ok.inj (hsig.symm.trans hsig')
  obtain rfl := Except.ok.inj (hdelta.symm.trans hdelta')
  unfold uploadIfChanged
  simp only [hri]
  rw [if_neg, if_pos hpatches.size, exec_bind_ok hlocal, exec_bind_ok hread,
    if_neg hpatches.differ, exec_bind_ok (by rw [exec_propagate, exec_ofResult, hsig]; rfl),
    exec_bind_ok (by rw [exec_propagate, exec_ofResult, hdelta]; rfl), if_pos hshorter,
    exec_bind_ok (by rw [exec_propagate, exec_ofResult, hpatch]; rfl)]
  rcases hpatches.noSkip with h | h <;> simp [h]

/-- One file in a dry run: either nothing happens, or the branch is taken. -/
theorem exec_uploadIfChanged_dry (remoteFiles : FileMap) (remotePath : String)
    (info : RemoteFileInfo) (hcopia : copia.Lawful) (hdry : o.dryRun = true)
    (hentry : Entry env w localRoot p names f) :
    SameTrees w (exec (step env) (uploadIfChanged copia o remoteFiles (below localRoot names)
      remotePath info) w).2 ∨
    ∃ ri g, remoteFiles.lookup remotePath = some ri ∧
      w.remote.get (env.remoteLoc remotePath) = some (.file g) ∧
      Patches copia o info ri f.content g.content ∧
      exec (step env) (uploadIfChanged copia o remoteFiles (below localRoot names) remotePath info)
        w = exec (step env) (do
          atomicWriteRemote remotePath f.content
          preserveMode remotePath info.mode) w.next.next := by
  have hwhole : ∀ w : World, SameTrees w (exec (step env) (uploadWhole o (below localRoot names)
      remotePath info) w).2 := by
    intro w
    rw [uploadWhole, if_pos hdry]
    exact .refl w
  obtain ⟨out, hout⟩ : ∃ out, exec (step env) (uploadIfChanged copia o remoteFiles
      (below localRoot names) remotePath info) w = out := ⟨_, rfl⟩
  rw [hout]
  unfold uploadIfChanged at hout
  split at hout
  case h_2 => exact .inl (hout ▸ hwhole w)
  -- from here on the remote file is listed; each test that fails leaves the trees alone
  next ri hri =>
  split at hout
  · exact .inl (hout ▸ .refl w)
  next hskip =>
  split at hout
  case isFalse => exact .inl (hout ▸ hwhole w)
  next hsize =>
  rcases hlocal : exec (step env) (propagate (fsRead (below localRoot names))) w
    with ⟨e | localData, w₁⟩
  · rw [exec_bind_error hlocal] at hout
    have hsame := (looksOnly_propagate_fsRead (below localRoot names)).sameTrees env w
    rw [hlocal] at hsame
    exact .inl (hout ▸ hsame)
  rw [exec_bind_ok hlocal] at hout
  obtain ⟨rfl, rfl⟩ := hentry.content_eq hlocal
  rcases hread : exec (step env) (propagate (read remotePath)) w.next with ⟨e | remoteData, w₂⟩
  · rw [exec_bind_error hread] at hout
    have hsame := (looksOnly_propagate_read remotePath).sameTrees env w.next
    rw [hread] at hsame
    exact .inl (hout ▸ (SameTrees.refl w).next.trans hsame)
  rw [exec_bind_ok hread] at hout
  rw [exec_propagate_eq_ok] at hread
  obtain ⟨⟨g, hg, rfl⟩, rfl⟩ := exec_read_eq_ok hread
  split at hout
  · exact .inl (hout ▸ .next (.next (.refl w)))
  next hdiffer =>
  -- same size, read on both sides, and different: the delta decides
  obtain ⟨sig, delta, hsig, hdelta, hpatch⟩ := hcopia.exists_delta g.content f.content
  rw [exec_bind_ok (by rw [exec_propagate, exec_ofResult, hsig]; rfl),
    exec_bind_ok (by rw [exec_propagate, exec_ofResult, hdelta]; rfl)] at hout
  split at hout
  · next hshorter =>
    rw [exec_bind_ok (by rw [exec_propagate, exec_ofResult, hpatch]; rfl)] at hout
    refine .inr ⟨ri, g, hri, hg, ⟨hsize, ?_, hdiffer, sig, delta, hsig, hdelta, hshorter⟩,
      hout.symm⟩
    by_contra hnone
    rw [not_or, not_not] at hnone
    exact hskip (by simp [hsize, hnone])
  · left
    rw [← hout]
    exact (SameTrees.refl w).next.next.trans (hwhole w.next.next)

end Round

/-! ## Whole runs -/

/-- The files at `names` below the two roots take the delta branch, and for some suffix the temp
file would not be a directory. -/
structure DeltaPair (env : Env) (copia : Copia) (localRoot remoteRoot : String)
    (opts : List String) (w : World) (names : List FileName) (f g : File) : Prop where
  ne_nil : names ≠ []
  sender : ∃ p, env.diskLoc localRoot = some p ∧
    w.disk.get (names.reverse ++ p) = some (.file f)
  receiver : w.remote.get (names.reverse ++ env.remoteLoc remoteRoot) = some (.file g)
  included : isExcluded (parseRsyncOpts opts) (rel names) (below localRoot names) = false
  patches : Patches copia (parseRsyncOpts opts) (localInfo f) (remoteInfo g) f.content g.content
  staged : ∃ hash, w.remote.get
    (env.remoteLoc (below remoteRoot names ++ ".tmp." ++ tmpSuffix hash)) ≠ some .dir

def TakesDelta (env : Env) (copia : Copia) (localRoot remoteRoot : String) (opts : List String)
    (w : World) : Prop :=
  ∃ names f g, DeltaPair env copia localRoot remoteRoot opts w names f g

section Runs

variable {env : Env} {copia : Copia} {localOrder remoteOrder : IterOrder} {fuel : Nat}
  {localRoot remoteRoot : String} {opts : List String} {w w₁ w₂ : World}
  {localFiles remoteFiles : FileMap}

/-- After the listings, a dry run is its upload loop. -/
theorem exec_rsyncUpload_dry (copia : Copia) (localOrder remoteOrder : IterOrder)
    (hdry : (parseRsyncOpts opts).dryRun = true)
    (hlocal : exec (step env) (listLocalFiles fuel localRoot)
      (exec (step env) (createDir remoteRoot) w).2 = (.ok localFiles, w₁))
    (hlist : exec (step env) (listRemoteFiles fuel remoteRoot) w₁ = (.ok remoteFiles, w₂)) :
    (exec (step env) (rsyncUpload copia localOrder remoteOrder fuel localRoot remoteRoot opts) w).2
      = (exec (step env) (forM (localOrder.order localFiles.items) fun (localPath, info) =>
          uploadFile copia (parseRsyncOpts opts) (trimEndSlash localRoot)
            (trimEndSlash remoteRoot) remoteFiles localPath info) w₂).2 := by
  rw [rsyncUpload, exec_ignore_bind, exec_bind_ok hlocal, exec_bind_ok hlist]
  rcases huploads : exec (step env) (forM (localOrder.order localFiles.items)
    fun (localPath, info) => uploadFile copia (parseRsyncOpts opts) (trimEndSlash localRoot)
      (trimEndSlash remoteRoot) remoteFiles localPath info) w₂ with ⟨e | ⟨⟩, w₃⟩
  · rw [exec_bind_error huploads, huploads]
  rw [exec_bind_ok huploads, huploads]
  split
  swap
  · rfl
  -- in the delete pass, `dry_run` is tested first
  have hpure : ∀ remotePath, deleteFile (parseRsyncOpts opts) (trimEndSlash localRoot)
      (trimEndSlash remoteRoot) localFiles remotePath = pure () := by
    intro remotePath
    unfold deleteFile
    simp [hdry]
  refine exec_forM_invariant (I := (· = w₃)) ?_ rfl
  rintro ⟨remotePath, i⟩ - s rfl
  show (exec (step env) (deleteFile ..) s).2 = s
  rw [hpure]
  rfl

/-- A round on a pair that does not take the branch, or cannot open its temp file, leaves the
server alone. -/
theorem exec_uploadFile_keeps (hcopia : copia.Lawful) (hremote : remoteRoot ≠ "")
    (hdry : (parseRsyncOpts opts).dryRun = true)
    (hnot : ¬ TakesDelta env copia localRoot remoteRoot opts w) {p : Loc} {names : List FileName}
    {f : File} (hentry : Entry env w localRoot p names f)
    (hlists : Lists remoteInfo w.remote (env.remoteLoc remoteRoot) remoteRoot (fun _ => True)
      remoteFiles) {s : World} (hdisk : s.disk = w.disk)
    (hget : ∀ x, s.remote.get x = w.remote.get x) :
    let s' := (exec (step env) (uploadFile copia (parseRsyncOpts opts) (trimEndSlash localRoot)
      (trimEndSlash remoteRoot) remoteFiles (below localRoot names) (localInfo f)) s).2
    s'.disk = w.disk ∧ ∀ x, s'.remote.get x = w.remote.get x := by
  intro s'
  have hloc := remoteLoc_below env hremote names
  rcases hexcluded : isExcluded (parseRsyncOpts opts) (rel names) (below localRoot names) with _ | _
  swap
  · have hs' : s' = s := by
      simp only [s']
      rw [uploadFile_below _ _ _ _ _ hentry.ne_nil, if_pos hexcluded]
      rfl
    rw [hs']
    exact ⟨hdisk, hget⟩
  have hs' : s' = (exec (step env) (uploadIfChanged copia (parseRsyncOpts opts) remoteFiles
      (below localRoot names) (below remoteRoot names) (localInfo f)) s).2 := by
    simp only [s']
    rw [uploadFile_below _ _ _ _ _ hentry.ne_nil, if_neg (by simp [hexcluded])]
  rw [hs']
  rcases exec_uploadIfChanged_dry remoteFiles (below remoteRoot names) (localInfo f) hcopia hdry
    (hentry.congr hdisk)
    with hsame | ⟨ri, g, hri, hg, hpatches, hexec⟩
  · exact ⟨hsame.disk.trans hdisk, fun x => by rw [hsame.remote, hget]⟩
  rw [hloc, hget] at hg
  rw [hlists.lookup_below hremote, FileTree.fileAt_eq_some_iff.mpr hg] at hri
  obtain rfl := Option.some.inj hri
  -- whatever the suffix, the temp path is a directory
  have htmp : ∀ hash, w.remote.get
      (env.remoteLoc (below remoteRoot names ++ ".tmp." ++ tmpSuffix hash)) = some .dir := by
    intro hash
    by_contra hne
    exact hnot ⟨names, f, g, hentry.ne_nil, ⟨p, hentry.loc, hentry.file⟩, hg, hexcluded, hpatches,
      hash, hne⟩
  have htaken : s.next.next.remote.get (env.remoteLoc (remoteTmp env s.next.next
      (below remoteRoot names))) = some .dir := by
    rw [World.next_remote, World.next_remote, hget]
    exact htmp _
  obtain ⟨e, s₁, hwrite, hdisk₁, hget₁⟩ :=
    atomicWriteRemote_of_taken env s.next.next (below remoteRoot names) (by rw [htaken]; simp)
      f.content
  rw [hexec, exec_bind_error hwrite]
  refine ⟨hdisk₁.trans hdisk, fun x => ?_⟩
  rw [hget₁, if_neg]
  · exact hget x
  · rintro ⟨-, -, hfile⟩
    rw [FileTree.fileAt, htaken] at hfile
    cases hfile

theorem rsyncUpload_dryRun_keeps (hcopia : copia.Lawful) (hremote : remoteRoot ≠ "")
    (hdry : (parseRsyncOpts opts).dryRun = true)
    (hnot : ¬ TakesDelta env copia localRoot remoteRoot opts w) (x : Loc) :
    (exec (step env) (rsyncUpload copia localOrder remoteOrder fuel localRoot remoteRoot opts)
      w).2.remote.fileAt x = w.remote.fileAt x := by
  obtain ⟨hdisk₀, hfiles₀, hroot₀⟩ := exec_createDir env w remoteRoot
  rcases hlocal : exec (step env) (listLocalFiles fuel localRoot)
    (exec (step env) (createDir remoteRoot) w).2 with ⟨e | localFiles, w₁⟩
  · have hsame := (looksOnly_listLocalFiles fuel localRoot).sameTrees env
      (exec (step env) (createDir remoteRoot) w).2
    rw [hlocal] at hsame
    rw [rsyncUpload, exec_ignore_bind, exec_bind_error hlocal]
    exact hsame.remote ▸ hfiles₀ x
  obtain ⟨p, hp, hdir, hsame₁, hlists⟩ := listLocalFiles_lists hlocal
  rcases hlist : exec (step env) (listRemoteFiles fuel remoteRoot) w₁ with ⟨e | remoteFiles, w₂⟩
  · have hsame := (looksOnly_listRemoteFiles fuel remoteRoot).sameTrees env w₁
    rw [hlist] at hsame
    rw [rsyncUpload, exec_ignore_bind, exec_bind_ok hlocal, exec_bind_error hlist]
    exact (hsame₁.trans hsame).remote ▸ hfiles₀ x
  obtain ⟨hsame₂, -, hrlists⟩ := listRemoteFiles_lists hremote hlist
  have hsame := hsame₁.trans hsame₂
  rw [exec_rsyncUpload_dry _ _ _ hdry hlocal hlist]
  -- the pairs of files are still those of the start
  have hnot₂ : ¬ TakesDelta env copia localRoot remoteRoot opts w₂ := by
    rintro ⟨names, f, g, hpair⟩
    have hg : w.remote.get (names.reverse ++ env.remoteLoc remoteRoot) = some (.file g) := by
      rw [← FileTree.fileAt_eq_some_iff, ← hfiles₀, ← hsame.remote]
      exact FileTree.fileAt_eq_some_iff.mpr hpair.receiver
    have hroot := FileTree.get_ancestor (by rw [hg]; simp)
      (List.reverse_ne_nil_iff.mpr hpair.ne_nil)
    have hremote₂ : w₂.remote = w.remote := hsame.remote.trans (hroot₀ (by rw [hroot]; simp))
    have hdisk₂ : w₂.disk = w.disk := hsame.disk.trans hdisk₀
    exact hnot ⟨names, f, g, hpair.ne_nil, hdisk₂ ▸ hpair.sender, hg, hpair.included,
      hpair.patches, hremote₂ ▸ hpair.staged⟩
  have hloop := exec_forM_invariant (h := step env) (s := w₂)
    (l := localOrder.order localFiles.items) (f := fun (localPath, info) => uploadFile copia
      (parseRsyncOpts opts) (trimEndSlash localRoot) (trimEndSlash remoteRoot) remoteFiles
      localPath info)
    (I := fun s => s.disk = w₂.disk ∧ ∀ x, s.remote.get x = w₂.remote.get x) ?_
    ⟨rfl, fun _ => rfl⟩
  · rw [FileTree.fileAt_congr (hloop.2 x), hsame.remote, hfiles₀]
  · rintro ⟨key, i⟩ he s ⟨hdisk, hget⟩
    rw [← hsame.disk] at hlists hdir
    obtain ⟨names, f, rfl, rfl, hentry⟩ := hlists.entry hp hdir (mem_order_lookup localOrder he)
    exact exec_uploadFile_keeps hcopia hremote hdry hnot₂ hentry (hsame₂.remote ▸ hrlists) hdisk
      hget

/-! ## Runs that write -/

/-- The round on a pair that takes the branch, when nothing fails: the file is overwritten, or the
file in the way of its temp file is unlinked. -/
theorem exec_uploadFile_writes (hok : env.NoFailure) (hcopia : copia.Lawful)
    (hremote : remoteRoot ≠ "") {names : List FileName} {f g : File}
    (hpair : DeltaPair env copia localRoot remoteRoot opts w names f g)
    (hlookup : remoteFiles.lookup (below remoteRoot names) = some (remoteInfo g))
    (hdir : w.remote.get (env.remoteLoc (remoteTmp env w.next.next (below remoteRoot names)))
      ≠ some .dir) :
    let tmp := env.remoteLoc (remoteTmp env w.next.next (below remoteRoot names))
    let run := exec (step env) (uploadFile copia (parseRsyncOpts opts) (trimEndSlash localRoot)
      (trimEndSlash remoteRoot) remoteFiles (below localRoot names) (localInfo f)) w
    (∃ w', run = (.ok (), w') ∧
      Wrote w w' (names.reverse ++ env.remoteLoc remoteRoot) f.content) ∨
    (w.remote.fileAt tmp).isSome ∧ ∃ e w', run = (.error e, w') ∧ w'.remote.get tmp = none := by
  intro tmp run
  obtain ⟨p, hp, hf⟩ := hpair.sender
  have hloc := remoteLoc_below env hremote names
  have hrun : run = exec (step env) (do
      atomicWriteRemote (below remoteRoot names) f.content
      preserveMode (below remoteRoot names) (localInfo f).mode) w.next.next := by
    simp only [run]
    rw [uploadFile_below _ _ _ _ _ hpair.ne_nil, if_neg (by simp [hpair.included])]
    have hlocal : exec (step env) (propagate (fsRead (below localRoot names))) w
        = (.ok f.content, w.next) := by
      rw [exec_propagate_eq_ok]
      exact exec_fsRead_ok (hok _) (diskLoc_below hp names) hf
    have hread : exec (step env) (propagate (read (below remoteRoot names))) w.next
        = (.ok g.content, w.next.next) := by
      rw [exec_propagate_eq_ok]
      exact exec_read_ok (hok _) (by rw [hloc]; exact hpair.receiver)
    exact uploadIfChanged_patches hcopia hlookup hlocal hread hpair.patches
  rw [hrun]
  rcases htmp : w.remote.get tmp with _ | ⟨h | _⟩
  · -- the temp file can be staged
    left
    obtain ⟨dirs, n, hnames⟩ := List.eq_nil_or_concat names |>.resolve_left hpair.ne_nil
    rw [List.concat_eq_append] at hnames
    subst hnames
    have hreceiver : w.remote.get (n :: (dirs.reverse ++ env.remoteLoc remoteRoot))
        = some (.file g) := by simpa using hpair.receiver
    have hcompletes : Completes env w.next.next (below remoteRoot (dirs ++ [n])) :=
      completes_below hok hremote dirs n (FileTree.get_parent (n := n) (by
        rw [World.next_remote, World.next_remote, hreceiver]
        simp)) (by
        rw [World.next_remote, World.next_remote, hreceiver]
        simp) htmp
    obtain ⟨w₁, hwrite⟩ := atomicWriteRemote_ok hcompletes f.content
    obtain ⟨-, f', -, hget⟩ := atomicWriteRemote_eq_ok hwrite
    have hf' : w₁.remote.get (env.remoteLoc (below remoteRoot (dirs ++ [n])))
        = some (.file f') := by
      rw [hget, if_pos rfl]
    obtain ⟨w₂, perm, hmode, -, -⟩ := exec_preserveMode env (localInfo f).mode hf'
    have hboth := (exec_bind_ok hwrite fun _ => preserveMode (below remoteRoot (dirs ++ [n]))
      (localInfo f).mode).trans hmode
    refine ⟨w₂, hboth, ?_⟩
    rw [← hloc]
    exact (exec_write_preserve_eq_ok hok hboth : Wrote w.next.next w₂ _ _)
  · -- a file is in the way: the open fails, and the cleanup unlinks it
    right
    obtain ⟨e, w₁, hwrite, -, hget⟩ := atomicWriteRemote_of_taken env w.next.next
      (below remoteRoot names) (by
        rw [World.next_remote, World.next_remote, htmp]
        simp) f.content
    have hfile : (w.remote.fileAt tmp).isSome := by
      rw [FileTree.fileAt_eq_some_iff.mpr htmp]
      rfl
    refine ⟨hfile, e, w₁, exec_bind_error hwrite _, ?_⟩
    rw [hget, if_pos ⟨rfl, hok _, hfile⟩]
  · exact absurd htmp hdir

/-- A later round never brings the old bytes back. -/
theorem exec_uploadFile_stays (hok : env.NoFailure) (hcopia : copia.Lawful)
    (hremote : remoteRoot ≠ "") (hdry : (parseRsyncOpts opts).dryRun = true) {p : Loc}
    {names names' : List FileName} {f f' : File} (hentry : Entry env w localRoot p names f)
    (hentry' : Entry env w localRoot p names' f')
    (hstored : w.remote.contentOf (names.reverse ++ env.remoteLoc remoteRoot) = some f.content)
    {r : Except Error Unit} {w' : World}
    (hrun : exec (step env) (uploadFile copia (parseRsyncOpts opts) (trimEndSlash localRoot)
      (trimEndSlash remoteRoot) remoteFiles (below localRoot names') (localInfo f')) w
        = (r, w')) :
    w'.disk = w.disk ∧
      (w'.remote.contentOf (names.reverse ++ env.remoteLoc remoteRoot) = some f.content ∨
        r ≠ .ok () ∧
          w'.remote.contentOf (names.reverse ++ env.remoteLoc remoteRoot) = none) := by
  set loc := names.reverse ++ env.remoteLoc remoteRoot with hloc
  rw [uploadFile_below _ _ _ _ _ hentry'.ne_nil] at hrun
  split at hrun
  · cases hrun
    exact ⟨rfl, .inl hstored⟩
  have hloc' := remoteLoc_below env hremote names'
  rcases exec_uploadIfChanged_dry remoteFiles (below remoteRoot names') (localInfo f') hcopia hdry
    hentry' with hsame | ⟨-, -, -, -, -, hexec⟩
  · rw [hrun] at hsame
    exact ⟨hsame.disk, .inl (hsame.remote ▸ hstored)⟩
  rw [hrun] at hexec
  rcases hwrite : exec (step env) (atomicWriteRemote (below remoteRoot names') f'.content)
    w.next.next with ⟨e | ⟨⟩, w₁⟩
  · rw [exec_bind_error hwrite] at hexec
    obtain ⟨rfl, rfl⟩ := Prod.mk.inj hexec
    by_cases htmp : loc = env.remoteLoc (remoteTmp env w.next.next (below remoteRoot names'))
    · -- the stored file was in the way of another one's temp file
      have hfile : (w.remote.fileAt loc).isSome := by
        rw [← Option.isSome_map, ← Tree.contentOf, hstored]
        rfl
      obtain ⟨e', w₂, hwrite', hdisk, hget⟩ := atomicWriteRemote_of_taken env
        w.next.next (below remoteRoot names') (by
          rw [← htmp]
          intro hnone
          simp [FileTree.fileAt, show w.remote.get loc = none from hnone] at hfile) f'.content
      rw [hwrite] at hwrite'
      obtain ⟨-, rfl⟩ := Prod.mk.inj hwrite'
      refine ⟨hdisk, .inr ⟨by simp, Tree.contentOf_of_none ?_⟩⟩
      rw [hget, if_pos ⟨htmp, hok _, htmp ▸ hfile⟩]
    · have hout := exec_atomicWriteRemote env w.next.next (below remoteRoot names') f'.content
      rw [hwrite] at hout
      cases hout with
      | kept _ _ hdisk hget =>
        exact ⟨hdisk, .inl ((Tree.contentOf_congr (hget _ htmp)).trans hstored)⟩
      | lost hlost => exact absurd (hok _) hlost.failsRename
  · obtain ⟨hdisk, h, hh, hget⟩ := atomicWriteRemote_eq_ok_of_noFailure hok hwrite
    have hf' : w₁.remote.get (env.remoteLoc (below remoteRoot names')) = some (.file h) := by
      rw [hget, if_pos rfl]
    obtain ⟨w₂, perm, hmode, hdisk₂, hget₂⟩ := exec_preserveMode env (localInfo f').mode hf'
    rw [exec_bind_ok hwrite, hmode] at hexec
    obtain ⟨rfl, rfl⟩ := Prod.mk.inj hexec
    refine ⟨hdisk₂.trans hdisk, .inl ?_⟩
    by_cases hsame : loc = env.remoteLoc (below remoteRoot names')
    · -- the same file once more
      rw [Tree.contentOf_of_file (by rw [hget₂, if_pos hsame]), hh]
      rw [hloc, hloc'] at hsame
      obtain rfl := List.reverse_injective (List.append_cancel_right hsame)
      have hf := hentry.file.symm.trans hentry'.file
      cases hf
      rfl
    · rw [← hstored]
      exact Tree.contentOf_congr (by rw [hget₂, if_neg hsame, hget, if_neg hsame]; rfl)

/-- Iterate this entry first. -/
def IterOrder.first (e : String × RemoteFileInfo) : IterOrder where
  order entries := if e ∈ entries then e :: entries.erase e else entries
  perm entries := by
    split
    · next he => exact (List.perm_cons_erase he).symm
    · exact .refl _

/-- A pair that takes the branch, iterated first, makes a dry run without failures change the
bytes of a remote file. -/
theorem exists_dryRun_changes (hcopia : copia.Lawful) (hremote : remoteRoot ≠ "")
    (hdry : (parseRsyncOpts opts).dryRun = true)
    (htakes : TakesDelta env copia localRoot remoteRoot opts w) :
    ∃ env' localOrder fuel x, env'.NoFailure ∧ env'.home = env.home ∧ env'.cwd = env.cwd ∧
      (exec (step env') (rsyncUpload copia localOrder .asListed fuel localRoot remoteRoot opts)
        w).2.remote.contentOf x ≠ w.remote.contentOf x := by
  obtain ⟨names, f, g, hpair⟩ := htakes
  obtain ⟨hash, hhash⟩ := hpair.staged
  set env' : Env := { Env.reliable with home := env.home, cwd := env.cwd, hash := fun _ => hash }
  have hok : env'.NoFailure := fun _ => rfl
  have hpair : DeltaPair env' copia localRoot remoteRoot opts w names f g :=
    ⟨hpair.ne_nil, hpair.sender, hpair.receiver, hpair.included, hpair.patches, hpair.staged⟩
  obtain ⟨p, hp, hf⟩ := hpair.sender
  have hroot : localRoot ≠ "" := Env.ne_empty_of_diskLoc hp
  have hnames := List.reverse_ne_nil_iff.mpr hpair.ne_nil
  have hdir : w.disk.get p = some .dir := FileTree.get_ancestor (by rw [hf]; simp) hnames
  have hrdir : w.remote.get (env'.remoteLoc remoteRoot) = some .dir :=
    FileTree.get_ancestor (by rw [hpair.receiver]; simp) hnames
  obtain ⟨fuel, hlistings⟩ := listings_ok hok hp hdir hremote hrdir
  obtain ⟨localFiles, remoteFiles, w₁, w₂, hlocal, hlist, hsame, hlists, hrlists⟩ :=
    hlistings fuel le_rfl
  rw [← hsame.disk] at hdir hf
  -- the pair comes first
  set first := (below localRoot names, localInfo f) with hfirst
  have hmem : first ∈ localFiles.items := by
    rw [FileMap.mem_items, hlists.lookup_below hroot, FileTree.fileAt_eq_some_iff.mpr hf]
    rfl
  have horder : (IterOrder.first first).order localFiles.items
      = first :: localFiles.items.erase first := if_pos hmem
  have hpair₂ : DeltaPair env' copia localRoot remoteRoot opts w₂ names f g :=
    ⟨hpair.ne_nil, ⟨p, hp, hf⟩, hsame.remote ▸ hpair.receiver, hpair.included, hpair.patches,
      hsame.remote ▸ hpair.staged⟩
  have hlookup : remoteFiles.lookup (below remoteRoot names) = some (remoteInfo g) := by
    rw [hrlists.lookup_below hremote, FileTree.fileAt_eq_some_iff.mpr hpair₂.receiver]
    rfl
  have hrun := exec_rsyncUpload_dry copia (.first first) .asListed hdry hlocal hlist
  rw [horder, List.forM_cons] at hrun
  rcases exec_uploadFile_writes hok hcopia hremote hpair₂ hlookup (hsame.remote ▸ hhash)
    with ⟨w₃, hround, hdisk₃, h, hh, hget⟩ | ⟨hfile, e, w₃, hround, hgone⟩
  · refine ⟨env', .first first, fuel, names.reverse ++ env'.remoteLoc remoteRoot, hok, rfl, rfl, ?_⟩
    rw [exec_bind_ok hround] at hrun
    have hentry : ∀ e ∈ localFiles.items.erase first, ∃ names' f', e.1 = below localRoot names' ∧
        e.2 = localInfo f' ∧ Entry env' w₂ localRoot p names' f' := fun e he =>
      hlists.entry hp hdir (FileMap.mem_items.mp (List.mem_of_mem_erase he))
    have hown : Entry env' w₂ localRoot p names f := ⟨hpair.ne_nil, hp, hf⟩
    have hrest := exec_forM_until (h := step env') (s := w₃) (l := localFiles.items.erase first)
      (f := fun (localPath, info) => uploadFile copia (parseRsyncOpts opts)
        (trimEndSlash localRoot) (trimEndSlash remoteRoot) remoteFiles localPath info)
      (I := fun s => s.disk = w₂.disk ∧
        s.remote.contentOf (names.reverse ++ env'.remoteLoc remoteRoot) = some f.content)
      (Q := fun s =>
        s.remote.contentOf (names.reverse ++ env'.remoteLoc remoteRoot) = some f.content ∨
          s.remote.contentOf (names.reverse ++ env'.remoteLoc remoteRoot) = none) ?_ ?_
      (fun _ hs => .inl hs.2) ⟨hdisk₃, by rw [← hh]; exact Tree.contentOf_of_file (by
        rw [hget]; exact if_pos rfl)⟩
    · rw [hrun, Tree.contentOf_of_file hpair.receiver]
      rcases hrest with hrest | hrest
      · rw [hrest]
        exact fun heq => hpair.patches.differ (Option.some.inj heq)
      · rw [hrest]
        simp
    · rintro ⟨key, i⟩ he s s' ⟨hdisk, hstored⟩ hrun
      obtain ⟨names', f', rfl, rfl, hentry'⟩ := hentry _ he
      have hstep := exec_uploadFile_stays hok hcopia hremote hdry (hown.congr hdisk)
        (hentry'.congr hdisk) hstored hrun
      exact ⟨hstep.1.trans hdisk, hstep.2.resolve_right fun h => h.1 rfl⟩
    · rintro ⟨key, i⟩ he s s' e ⟨hdisk, hstored⟩ hrun
      obtain ⟨names', f', rfl, rfl, hentry'⟩ := hentry _ he
      have hstep := exec_uploadFile_stays hok hcopia hremote hdry (hown.congr hdisk)
        (hentry'.congr hdisk) hstored hrun
      exact hstep.2.imp_right fun h => h.2
  · refine ⟨env', .first first, fuel, env'.remoteLoc (remoteTmp env' w₂.next.next
      (below remoteRoot names)), hok, rfl, rfl, ?_⟩
    rw [hrun, exec_bind_error hround, Tree.contentOf_of_none hgone, ← hsame.remote, Tree.contentOf]
    intro heq
    rw [← Option.isSome_map (f := File.content), ← heq] at hfile
    cases hfile

/-- **A dry run leaves every remote file alone exactly when no pair of files takes the delta
branch**, over all failures, orders, clocks and suffixes. -/
theorem rsyncUpload_dryRun_keeps_iff (env : Env) (hcopia : copia.Lawful)
    (hremote : remoteRoot ≠ "") (hdry : "dry-run" ∈ opts ∨ "dry_run" ∈ opts) (w : World) :
    (∀ env' localOrder remoteOrder fuel, env'.home = env.home → env'.cwd = env.cwd →
      let w' := (exec (step env') (rsyncUpload copia localOrder remoteOrder fuel localRoot
        remoteRoot opts) w).2
      ∀ x, (w'.remote.fileAt x).map (fun f => (f.content, f.perm))
        = (w.remote.fileAt x).map (fun f => (f.content, f.perm))) ↔
      ¬ TakesDelta env copia localRoot remoteRoot opts w := by
  have hdryRun : (parseRsyncOpts opts).dryRun = true := by simpa [parseRsyncOpts_eq] using hdry
  constructor
  · intro hkeeps htakes
    obtain ⟨env', localOrder, fuel, x, -, hhome, hcwd, hne⟩ :=
      exists_dryRun_changes hcopia hremote hdryRun htakes
    refine hne ?_
    have hx := congrArg (Option.map Prod.fst) (hkeeps env' localOrder .asListed fuel hhome hcwd x)
    simpa [Tree.contentOf, Function.comp_def] using hx
  · -- whether a pair takes the branch depends on where the paths lead, and on nothing else
    intro hnot env' localOrder remoteOrder fuel hhome hcwd w' x
    have hnot' : ¬ TakesDelta env' copia localRoot remoteRoot opts w := by
      rintro ⟨names, f, g, hpair⟩
      have hremoteLoc := Env.remoteLoc_congr hhome
      have hdiskLoc := Env.diskLoc_congr hcwd
      exact hnot ⟨names, f, g, hpair.ne_nil, hdiskLoc ▸ hpair.sender, hremoteLoc ▸ hpair.receiver,
        hpair.included, hpair.patches, hremoteLoc ▸ hpair.staged⟩
    exact congrArg _ (rsyncUpload_dryRun_keeps hcopia hremote hdryRun hnot' x)

/-- Two files of two blocks each, of which the first agrees. -/
def World.twoBlocks : World :=
  World.start
    (Tree.dirWith ⟨"r", by decide⟩ [(⟨"f", by decide⟩, .replicate 4096 0 ++ .replicate 4096 2)])
    (Tree.dirWith ⟨"l", by decide⟩ [(⟨"f", by decide⟩, .replicate 4096 0 ++ .replicate 4096 1)])

theorem takesDelta_twoBlocks :
    TakesDelta .reliable .prefixOnly "/l" "/r" ["dry-run", "checksum"] .twoBlocks := by
  refine ⟨[⟨"f", by decide⟩], ⟨.replicate 4096 0 ++ .replicate 4096 1, 0o644, 0, 0⟩,
    ⟨.replicate 4096 0 ++ .replicate 4096 2, 0o644, 0, 0⟩, by simp,
    ⟨[⟨"l", by decide⟩], rfl, rfl⟩, rfl, rfl, ⟨?_, .inl rfl, ?_, ?_⟩, 0, ?_⟩
  · simp only [remoteInfo, localInfo, List.length_append, List.length_replicate]
  · intro heq
    have hblock := List.append_cancel_left heq
    rw [List.replicate_inj] at hblock
    exact absurd hblock.2 (by decide)
  · refine ⟨_, _, rfl, rfl, ?_⟩
    have hagree : commonPrefix (.replicate 4096 0 ++ .replicate 4096 2)
        (.replicate 4096 0 ++ .replicate 4096 1) = 4096 := by
      rw [commonPrefix_append, List.length_replicate]
      rfl
    rw [hagree]
    simp only [deltaSize, Copia.prefixOnly, List.map_cons, List.map_nil, List.sum_cons,
      List.sum_nil, List.length_drop, List.length_append, List.length_replicate]
    omega
  · decide +kernel

/-- The patch of `/r/f` is written in spite of `dry-run`. -/
theorem rsyncUpload_dryRun_writes :
    ∃ env localOrder fuel x, env.NoFailure ∧
      (exec (step env) (rsyncUpload .prefixOnly localOrder .asListed fuel "/l" "/r"
        ["dry-run", "checksum"]) .twoBlocks).2.remote.contentOf x
          ≠ World.twoBlocks.remote.contentOf x := by
  obtain ⟨env, localOrder, fuel, x, hok, -, -, hne⟩ := exists_dryRun_changes
    Copia.prefixOnly_lawful (by decide) (by decide) takesDelta_twoBlocks
  exact ⟨env, localOrder, fuel, x, hok, hne⟩

theorem rsyncUpload_dryRun_keeps_twoBlocks :
    (∀ env' localOrder remoteOrder fuel, env'.home = [] → env'.cwd = [] →
      let w' := (exec (step env') (rsyncUpload .prefixOnly localOrder remoteOrder fuel "/l" "/r"
        ["dry-run"]) .twoBlocks).2
      ∀ x, (w'.remote.fileAt x).map (fun f => (f.content, f.perm))
        = (World.twoBlocks.remote.fileAt x).map (fun f => (f.content, f.perm))) ↔
      ¬ TakesDelta .reliable .prefixOnly "/l" "/r" ["dry-run"] .twoBlocks :=
  rsyncUpload_dryRun_keeps_iff .reliable Copia.prefixOnly_lawful (by decide) (by decide) _

end Runs

end Passhrs
