import Passhrs.Sftp.DryRun
import Passhrs.Sftp.Mirror

/-!
# Uploading again

A second run of `rsync_upload` sees other modification times than the first: an upload leaves the
server's clock on the remote file. The comparison of sizes and contents has to catch what the quick
check lets through.

* **`Synced`**: what a run has nothing left to do on: each local file that is sent has a remote one
  that is skipped, and with `delete` there is no other file below the remote root.
* **`rsyncUpload_synced`**: a run that returns `Ok` ends in such a state.
* **`Synced.issues_rsyncUpload`**: a run that starts in such a state only looks.
* **`rsyncUpload_idempotent`**: the two together.
-/

namespace Passhrs

open Effects SlashPath

/-- The two files have the same content, or the quick check does not tell them apart. -/
def InSync (o : RsyncOpts) (f g : File) : Prop :=
  g.content = f.content ∨ QuickCheck o (localInfo f) (remoteInfo g)

/-- Nothing to do: what would be sent is there, and what would be deleted is not. -/
structure Synced (env : Env) (o : RsyncOpts) (localRoot remoteRoot : String) (p : Loc) (w : World) :
    Prop where
  loc : env.diskLoc localRoot = some p
  localDir : w.disk.get p = some .dir
  remoteDir : w.remote.get (env.remoteLoc remoteRoot) = some .dir
  sent : ∀ (names : List FileName) f, w.disk.get (names.reverse ++ p) = some (.file f) →
    isExcluded o (rel names) (below localRoot names) = false → ∃ g, InSync o f g ∧
      w.remote.get (names.reverse ++ env.remoteLoc remoteRoot) = some (.file g)
  trimmed : o.deleteExtra = true → ∀ names : List FileName,
    (w.remote.fileAt (names.reverse ++ env.remoteLoc remoteRoot)).isSome →
      (w.disk.fileAt (names.reverse ++ p)).isSome

/-! ## One file -/

section Round

variable {env : Env} {copia : Copia} {o : RsyncOpts} {localRoot remotePath : String} {p : Loc}
  {names : List FileName} {f g : File} {remoteFiles : FileMap} {w w' : World}

/-- A round that returns `Ok` leaves the pair in sync. -/
theorem exec_uploadIfChanged_inSync (hok : env.NoFailure) (hcopia : copia.Lawful)
    (hdry : o.dryRun = false)
    (hentry : Entry env w localRoot p names f)
    (hlookup : remoteFiles.lookup remotePath
      = (w.remote.fileAt (env.remoteLoc remotePath)).map remoteInfo)
    (hrun : exec (step env) (uploadIfChanged copia o remoteFiles (below localRoot names) remotePath
      (localInfo f)) w = (.ok (), w')) :
    w'.disk = w.disk ∧ ∃ g, InSync o f g ∧ ∀ x, w'.remote.get x =
      if x = env.remoteLoc remotePath then some (.file g) else w.remote.get x := by
  by_cases hquick : ∃ g, w.remote.fileAt (env.remoteLoc remotePath) = some g ∧
      QuickCheck o (localInfo f) (remoteInfo g)
  · -- the quick check skips the file
    obtain ⟨g, hg, hquick⟩ := hquick
    have hskip : uploadIfChanged copia o remoteFiles (below localRoot names) remotePath
        (localInfo f) = pure () := by
      unfold uploadIfChanged
      rw [hlookup, hg]
      exact if_pos (by simpa [QuickCheck] using hquick)
    rw [hskip] at hrun
    cases hrun
    refine ⟨rfl, g, .inr hquick, fun x => ?_⟩
    split
    · next hx => rw [hx, FileTree.fileAt_eq_some_iff.mp hg]
    · rfl
  · -- the content is compared or sent
    have hwrote : Wrote w w' (env.remoteLoc remotePath) f.content := by
      refine exec_uploadIfChanged_eq_ok hok hdry hentry (fun ri hri => ⟨hcopia, fun h => ?_⟩) hrun
      rw [hlookup] at hri
      obtain ⟨g, hg, rfl⟩ := Option.map_eq_some_iff.mp hri
      exact hquick ⟨g, hg, h⟩
    obtain ⟨hdisk, g, hdata, hget⟩ := hwrote
    exact ⟨hdisk, g, .inl hdata, hget⟩

/-- A round on a pair in sync reads the two files at most. -/
theorem InSync.issues_uploadIfChanged (hsync : InSync o f g)
    (hentry : Entry env w localRoot p names f)
    (hlookup : remoteFiles.lookup remotePath = some (remoteInfo g))
    (hg : w.remote.get (env.remoteLoc remotePath) = some (.file g)) :
    Issues (step env) (fun op _ => op.ReadOnly) (uploadIfChanged copia o remoteFiles
      (below localRoot names) remotePath (localInfo f)) w := by
  unfold uploadIfChanged
  simp only [hlookup]
  split
  · exact issues_pure
  next hquick =>
  have hdata : g.content = f.content :=
    hsync.resolve_right fun h => hquick (by simpa [QuickCheck] using h)
  rw [if_pos (by simp [remoteInfo, localInfo, hdata])]
  refine issues_bind ((looksOnly_propagate_fsRead _).issues w) fun localData w₁ hlocal => ?_
  obtain ⟨rfl, rfl⟩ := hentry.content_eq hlocal
  refine issues_bind ((looksOnly_propagate_read _).issues _) fun remoteData w₂ hremote => ?_
  rw [exec_propagate_eq_ok] at hremote
  obtain ⟨⟨g', hg', rfl⟩, rfl⟩ := exec_read_eq_ok hremote
  rw [World.next_remote, hg] at hg'
  cases hg'
  rw [if_pos hdata.symm]
  exact issues_pure

end Round

/-! ## Whole runs -/

section Runs

variable {env : Env} {copia : Copia} {localOrder remoteOrder : IterOrder} {fuel : Nat}
  {localRoot remoteRoot : String} {opts : List String} {p : Loc} {w w' : World}

/-- A run without failures that returns `Ok` leaves nothing to do. -/
theorem rsyncUpload_synced (hok : env.NoFailure) (hcopia : copia.Lawful) (hremote : remoteRoot ≠ "")
    (hdry : (parseRsyncOpts opts).dryRun = false)
    (hrun : exec (step env) (rsyncUpload copia localOrder remoteOrder fuel localRoot remoteRoot
      opts) w = (.ok (), w')) :
    ∃ p, Synced env (parseRsyncOpts opts) localRoot remoteRoot p w' := by
  obtain ⟨p, localFiles, remoteFiles, w₁, w₂, hp, hdir, hdisk₁, -, hlists, hrlists, hrdir,
    huploads, hdeletes⟩ := rsyncUpload_eq_ok hremote hrun
  refine ⟨p, ?_⟩
  have hroot : localRoot ≠ "" := Env.ne_empty_of_diskLoc hp
  rw [← hdisk₁] at hdir
  obtain ⟨hdisk₂, hsent, hother⟩ := uploadPass_sends (InSync (parseRsyncOpts opts)) localOrder hp
    hdir hlists (fun names f s s' hentry hsame hexec => by
      rw [← remoteLoc_below env hremote] at hsame ⊢
      refine exec_uploadIfChanged_inSync hok hcopia hdry hentry ?_ hexec
      rw [hrlists.lookup_below hremote, ← remoteLoc_below env hremote, FileTree.fileAt_congr hsame])
    huploads
  obtain ⟨hdisk₃, hgone, hother₃⟩ := deletePass_eq_ok remoteOrder hok hremote hroot hdry hrdir
    hlists hrlists hdeletes
  have hdisk : w'.disk = w₁.disk := hdisk₃.trans hdisk₂
  refine ⟨hp, hdisk ▸ hdir, ?_, fun names f hf hkept => ?_, fun hdelete names hfile => ?_⟩
  · -- the root is not below itself, so neither loop touches it
    rw [hother₃ _ fun _ names hlist _ heq => ?_, hother _ fun names hlist heq => ?_, hrdir]
    · obtain rfl : names = [] := by simpa using heq
      simp [FileTree.fileAt, hdir] at hlist
    · rw [← heq] at hlist
      simp [FileTree.fileAt, hrdir] at hlist
  · -- the delete pass keeps what the local side has
    obtain ⟨g, hsync, hg⟩ := hsent names f (hdisk ▸ hf) hkept
    refine ⟨g, hsync, ?_⟩
    rw [hother₃ _ fun _ names' _ hnone heq => ?_, hg]
    obtain rfl := List.reverse_injective (List.append_cancel_right heq)
    rw [← hdisk, FileTree.fileAt_eq_some_iff.mpr hf] at hnone
    cases hnone
  · -- a remote file that the local side lacks was listed, and is gone
    by_contra hlocal
    rw [hdisk, Option.not_isSome_iff_eq_none] at hlocal
    by_cases hlist : (w₁.remote.fileAt (names.reverse ++ env.remoteLoc remoteRoot)).isSome
    · rw [hgone hdelete names hlist hlocal] at hfile
      cases hfile
    · have hsame : w'.remote.get (names.reverse ++ env.remoteLoc remoteRoot)
          = w₁.remote.get (names.reverse ++ env.remoteLoc remoteRoot) := by
        rw [hother₃ _ fun _ names' hlist' _ heq => ?_, hother _ fun names' hfile' heq => ?_]
        · obtain rfl := List.reverse_injective (List.append_cancel_right heq)
          rw [hlocal] at hfile'
          cases hfile'
        · exact hlist (heq ▸ hlist')
      exact hlist (FileTree.fileAt_congr hsame ▸ hfile)

/-- What looking leaves alone. -/
theorem sameTrees_step (w : World) (op : FileOp) (s : World) (hop : op.ReadOnly)
    (hs : SameTrees w s) : SameTrees w (step env op s).2 := hs.trans (step_readOnly env hop s)

/-- With nothing to do, the upload loop only looks. -/
theorem Synced.issues_uploads (copia : Copia) (localOrder : IterOrder) (hremote : remoteRoot ≠ "")
    {o : RsyncOpts} (h : Synced env o localRoot remoteRoot p w) {localFiles remoteFiles : FileMap}
    (hlists : Lists localInfo w.disk p localRoot (fun _ => True) localFiles)
    (hrlists : Lists remoteInfo w.remote (env.remoteLoc remoteRoot) remoteRoot (fun _ => True)
      remoteFiles) {s : World} (hs : SameTrees w s) :
    Issues (step env) (fun op _ => op.ReadOnly)
      (forM (localOrder.order localFiles.items) fun (localPath, info) =>
        uploadFile copia o (trimEndSlash localRoot) (trimEndSlash remoteRoot) remoteFiles localPath
          info) s := by
  refine issues_forM (I := SameTrees w) ?_ (sameTrees_step w) hs
  rintro ⟨key, i⟩ he s hs
  obtain ⟨names, f, rfl, rfl, hentry⟩ :=
    hlists.entry h.loc h.localDir (mem_order_lookup localOrder he)
  show Issues _ _ (uploadFile ..) s
  rw [uploadFile_below _ _ _ _ _ hentry.ne_nil]
  split
  · exact issues_pure
  next hkept =>
  obtain ⟨g, hsync, hg⟩ := h.sent names f hentry.file (by simpa using hkept)
  refine hsync.issues_uploadIfChanged ⟨hentry.ne_nil, h.loc, hs.disk ▸ hentry.file⟩ ?_ ?_
  · rw [hrlists.lookup_below hremote, FileTree.fileAt_eq_some_iff.mpr hg]
    rfl
  · rw [remoteLoc_below env hremote, hs.remote, hg]

/-- What a second run may issue: it looks, and asks for the root to be made. -/
def FileOp.Harmless (remoteRoot : String) (op : FileOp) : Prop :=
  op.ReadOnly ∨ op = .createDir remoteRoot

/-- A run that starts with nothing to do only looks, whatever fails. -/
theorem Synced.issues_rsyncUpload (copia : Copia) (localOrder remoteOrder : IterOrder) (fuel : Nat)
    (hremote : remoteRoot ≠ "")
    (h : Synced env (parseRsyncOpts opts) localRoot remoteRoot p w) :
    Issues (step env) (fun op _ => op.Harmless remoteRoot) (rsyncUpload copia localOrder
      remoteOrder fuel localRoot remoteRoot opts) w := by
  rw [rsyncUpload]
  refine issues_bind (issues_ignore.mpr (issues_call.mpr (.inr rfl))) fun _ w₀ hcreate => ?_
  -- the root is there, so asking for it changes nothing
  have hsame₀ : SameTrees w w₀ := by
    rw [exec_ignore] at hcreate
    obtain rfl := (Prod.mk.inj hcreate).2
    obtain ⟨hdisk, -, hremote₀⟩ := exec_createDir env w remoteRoot
    exact ⟨hremote₀ (by simp [h.remoteDir]), hdisk⟩
  refine Issues.mono (P := fun op _ => op.ReadOnly) ?_ fun _ _ => .inl
  refine issues_bind ((looksOnly_listLocalFiles fuel localRoot).issues _)
    fun localFiles w₁ hlocal => ?_
  refine issues_bind ((looksOnly_listRemoteFiles fuel remoteRoot).issues _)
    fun remoteFiles w₂ hlist => ?_
  obtain ⟨p', hp', -, hsame₁, hlists⟩ := listLocalFiles_lists hlocal
  obtain rfl : p' = p := Option.some.inj (hp'.symm.trans h.loc)
  obtain ⟨hsame₂, -, hrlists⟩ := listRemoteFiles_lists hremote hlist
  rw [hsame₀.disk] at hlists
  rw [(hsame₀.trans hsame₁).remote] at hrlists
  have huploads := h.issues_uploads copia localOrder hremote hlists hrlists
    ((hsame₀.trans hsame₁).trans hsame₂)
  refine issues_bind huploads fun _ w₃ hexec => ?_
  split
  swap
  · exact issues_pure
  -- each remote file has a local one, so there is nothing to delete
  next hdelete =>
  have hsame₃ : SameTrees w w₃ := by
    have hend := huploads.exec_invariant (sameTrees_step w) ((hsame₀.trans hsame₁).trans hsame₂)
    rwa [hexec] at hend
  refine issues_forM (I := SameTrees w) ?_ (sameTrees_step w) hsame₃
  rintro ⟨key, i⟩ he s hs
  obtain ⟨names, f, rfl, hf, -⟩ := hrlists.sound key i (mem_order_lookup remoteOrder he)
  have hne : names ≠ [] := by
    rintro rfl
    simp [h.remoteDir] at hf
  have hlocal : (localFiles.lookup (below localRoot names)).isSome := by
    rw [hlists.lookup_below (by rintro rfl; cases h.loc), Option.isSome_map]
    refine h.trimmed hdelete names ?_
    rw [FileTree.fileAt_eq_some_iff.mpr hf]
    rfl
  show Issues _ _ (deleteFile ..) s
  rw [deleteFile_below _ _ _ _ hne, if_pos hlocal]
  exact issues_pure

/-- **A second run writes and removes nothing.** After a run without failures that returns `Ok`, a
run with the same arguments on the same trees, at any time, in any order and with any failures,
issues no operation that changes a file, and leaves both trees as they are. -/
theorem rsyncUpload_idempotent (hok : env.NoFailure) (hcopia : copia.Lawful)
    (hremote : remoteRoot ≠ "") (hdry : "dry-run" ∉ opts ∧ "dry_run" ∉ opts)
    (hrun : exec (step env) (rsyncUpload copia localOrder remoteOrder fuel localRoot remoteRoot
      opts) w = (.ok (), w'))
    {env' : Env} (hhome : env'.home = env.home) (hcwd : env'.cwd = env.cwd) {w'' : World}
    (hsame : SameTrees w' w'') (localOrder' remoteOrder' : IterOrder) (fuel' : Nat) :
    let again := rsyncUpload copia localOrder' remoteOrder' fuel' localRoot remoteRoot opts
    (∀ e ∈ execLog (step env') again w'', e.1.Harmless remoteRoot) ∧
      SameTrees w'' (exec (step env') again w'').2 := by
  intro again
  obtain ⟨p, hsync⟩ := rsyncUpload_synced hok hcopia hremote
    (by simp [parseRsyncOpts_eq, hdry]) hrun
  have hremoteLoc := Env.remoteLoc_congr hhome
  have hdiskLoc := Env.diskLoc_congr hcwd
  -- the second run starts in sync, where it sends and deletes nothing
  have hsync' : Synced env' (parseRsyncOpts opts) localRoot remoteRoot p w'' := by
    constructor
    · rw [hdiskLoc, hsync.loc]
    · rw [hsame.disk, hsync.localDir]
    · rw [hremoteLoc, hsame.remote, hsync.remoteDir]
    · rw [hremoteLoc, hsame.disk, hsame.remote]
      exact hsync.sent
    · rw [hremoteLoc, hsame.disk, hsame.remote]
      exact hsync.trimmed
  have hissues := hsync'.issues_rsyncUpload copia localOrder' remoteOrder' fuel' hremote
  refine ⟨hissues, hissues.exec_invariant (I := SameTrees w'') (fun op s hop hs => ?_) (.refl w'')⟩
  rcases hop with hop | rfl
  · exact hs.trans (step_readOnly env' hop s)
  -- the root is there, and making it again changes nothing
  · obtain ⟨hdisk, -, hremote'⟩ := exec_createDir env' s remoteRoot
    refine hs.trans ⟨hremote' ?_, hdisk⟩
    rw [hs.remote, hsync'.remoteDir]
    simp

/-- One file to replace, and one to delete. -/
theorem rsyncUpload_idempotent_two_files :
    let w := World.start (Tree.dirWith ⟨"r", by decide⟩ [(⟨"a", by decide⟩, [1]),
      (⟨"b", by decide⟩, [3])]) (Tree.dirWith ⟨"l", by decide⟩ [(⟨"a", by decide⟩, [2])])
    let upload := rsyncUpload .prefixOnly .asListed .asListed 3 "/l" "/r/" ["delete"]
    let w' := (exec (step .reliable) upload w).2
    (∀ e ∈ execLog (step .reliable) upload w', e.1.Harmless "/r/") ∧
      SameTrees w' (exec (step .reliable) upload w').2 := by
  intro w upload w'
  have hrun : exec (step .reliable) upload w = (.ok (), w') :=
    exec_eq_ok_of_isOk (by decide +kernel)
  exact rsyncUpload_idempotent (fun _ => rfl) Copia.prefixOnly_lawful (by decide) (by decide) hrun
    rfl rfl (.refl w') .asListed .asListed 3

end Runs

end Passhrs
