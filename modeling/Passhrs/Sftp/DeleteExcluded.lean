import Passhrs.Lib.Attempts
import Passhrs.Sftp.Sending

/-!
# Excluded files and the delete pass

The exclude patterns are looked at in the upload loop only. The delete loop goes over everything
that was listed on the server.

* **`takes_rsyncUpload_iff`**: a run takes away a file that matches an exclude pattern exactly when
  it stages an upload at its place or comes to delete it.
* **`MayStage`**, **`MayDelete`**: what leads to that in the trees and the options.
* **`rsyncUpload_spares_iff`**: no run takes away a file that matches an exclude pattern, whatever
  fails and whatever suffixes are drawn, exactly when neither is the case for any.
-/

namespace Passhrs

open Effects SlashPath

/-! ## Operations and one file -/

/-- The operation takes away what is at `y`. -/
def FileOp.Takes (env : Env) (y : Loc) : FileOp → Prop
  | .removeFile path => env.remoteLoc path = y
  | .rename old _ => env.remoteLoc old = y
  | _ => False

/-- The operation opens a new file at `y`. -/
def FileOp.Stages (env : Env) (y : Loc) : FileOp → Prop
  | .openWithFlags path => env.remoteLoc path = y
  | _ => False

namespace Tree

variable {t : Tree} {p q y : Loc}

theorem isSome_fileAt_setFile (h : (t.fileAt y).isSome) (p : Loc) (f : File) :
    ((t.setFile p f : Tree).fileAt y).isSome := by
  by_cases hw : t.writable p = true
  · by_cases hy : y = p
    · have hfile : (t.setFile p f).get y = some (.file f) := by
        rw [FileTree.get_setFile hw, if_pos hy]
      rw [FileTree.fileAt_eq_some_iff.mpr hfile]
      rfl
    · rwa [FileTree.fileAt_congr (u := t) (q := y)]
      rw [FileTree.get_setFile hw, if_neg hy]
  · unfold FileTree.setFile
    rwa [dif_neg hw]

theorem isSome_fileAt_createNew (h : (t.fileAt y).isSome) (p : Loc) (perm : UInt32)
    (mtime ino : Nat) : ((t.createNew p perm mtime ino).2.fileAt y).isSome := by
  unfold createNew
  split
  · exact h
  · split
    · exact isSome_fileAt_setFile h ..
    · exact h

theorem isSome_fileAt_append (h : (t.fileAt y).isSome) (file : FileHandle) (data : Bytes)
    (mtime : Nat) : ((t.append file data mtime).fileAt y).isSome := by
  unfold append
  split
  · split
    · exact isSome_fileAt_setFile h ..
    · exact h
  · exact h

theorem isSome_fileAt_chmod (h : (t.fileAt y).isSome) (p : Loc) (mode : UInt32) :
    ((t.chmod p mode).2.fileAt y).isSome := by
  unfold chmod
  split
  · exact h
  · exact h
  · exact isSome_fileAt_setFile h ..

theorem isSome_fileAt_unlink (h : (t.fileAt y).isSome) (hne : p ≠ y) :
    ((t.unlink p).2.fileAt y).isSome := by
  rwa [FileTree.fileAt_congr (u := t) (q := y)]
  rw [get_unlink, if_neg fun hy => hne hy.1.symm]

theorem isSome_fileAt_move (h : (t.fileAt y).isSome) (hne : p ≠ y) (replaces : Bool) (q : Loc) :
    ((t.move replaces p q).2.fileAt y).isSome := by
  unfold move
  split
  · exact h
  · next f hf =>
    split
    · refine isSome_fileAt_setFile ?_ ..
      rwa [FileTree.fileAt_congr (u := t) (q := y)]
      rw [FileTree.get_removeFile (FileTree.fileAt_eq_some_iff.mp hf), if_neg hne.symm]
    · exact h

end Tree

section Operations

variable {env : Env} {w : World} {y : Loc}

/-- A file of the server is there until it is taken away. -/
theorem step_keeps_file {op : FileOp} (hop : ¬ op.Takes env y) (h : (w.remote.fileAt y).isSome) :
    ((step env op w).2.remote.fileAt y).isSome := by
  have hrule : ∀ {α : Type} {r : Except IoError α × World}, (r.2.remote.fileAt y).isSome →
      ((env.unlessFault w r).2.remote.fileAt y).isSome :=
    fun hr => Env.unlessFault_rule (P := fun t => (t.remote.fileAt y).isSome = true) h hr
  have hdisk : ∀ {α : Type} (path : String) (r : Loc → Except IoError α × Tree),
      ((env.changeDisk w path r).2.remote.fileAt y).isSome := fun path r => by
    rwa [Env.changeDisk_remote]
  cases op with
  | createDir path => exact hrule (by rwa [Tree.fileAt_makeDir])
  | openWithFlags path => exact hrule (Tree.isSome_fileAt_createNew h ..)
  | writeAll file data =>
    exact World.writeBehind_rule (P := fun t => (t.remote.fileAt y).isSome = true) _ file data h
      fun _ => ⟨Tree.isSome_fileAt_append h .., fun _ => Tree.isSome_fileAt_append h ..⟩
  | removeFile path => exact hrule (Tree.isSome_fileAt_unlink h hop)
  | rename old new => exact hrule (Tree.isSome_fileAt_move h hop ..)
  | setMetadata path attrs =>
    refine hrule ?_
    dsimp only
    split
    · exact Tree.isSome_fileAt_chmod h ..
    · exact h
  | fsWriteAll file data =>
    exact World.writeBehind_rule (P := fun t => (t.remote.fileAt y).isSome = true) _ file data h
      fun _ => ⟨h, fun _ => h⟩
  | flush file | close file | fsFlush file =>
    exact Env.awaitWrites_rule (P := fun t => (t.remote.fileAt y).isSome = true) env file fun _ => h
  | fsRename old new =>
    simp only [step]
    split
    · exact hrule h
    · exact hdisk ..
  | fsCreateDirAll path =>
    simp only [step]
    split
    · exact hrule h
    · exact hdisk ..
  | fsOpenCreateNew path => exact hdisk ..
  | fsRemoveFile path => exact hdisk ..
  | fsSetPermissions path mode => exact hdisk ..
  | suffixHash => exact h
  | _ => exact hrule h

end Operations

/-! ## Programs and one file -/

section Programs

variable {env : Env} {w w' : World} {y : Loc} {α β : Type}

/-- The operation neither takes away nor makes what is at `y`. -/
def FileOp.Leaves (env : Env) (y : Loc) (op : FileOp) : Prop := ¬ op.Takes env y ∧ ¬ op.Stages env y

/-- A run that starts in `w`, where `y` is a file, takes it away exactly when it tries to stage
something there. -/
def Balanced (env : Env) (y : Loc) {α : Type} (x : FileM α) (w : World) : Prop :=
  (w.remote.fileAt y).isSome → ((∃ e ∈ execLog (step env) x w, e.1.Takes env y) ↔
    ∃ e ∈ execLog (step env) x w, e.1.Stages env y)

theorem leaves_of_readOnly {op : FileOp} (hop : op.ReadOnly) : op.Leaves env y := by
  cases op <;> first | exact hop.elim | exact ⟨id, id⟩

theorem balanced_of_issues {x : FileM α}
    (hx : Issues (step env) (fun op _ => op.Leaves env y) x w) : Balanced env y x w := fun _ =>
  iff_of_false (fun ⟨e, he, htakes⟩ => (hx e he).1 htakes) fun ⟨e, he, hstages⟩ =>
    (hx e he).2 hstages

theorem balanced_of_emits {Q : α → Prop} {x : FileM α}
    (hx : Emits (fun _ _ => True) (FileOp.Leaves env y) Q x) : Balanced env y x w :=
  balanced_of_issues (hx.issues w)

theorem balanced_pure (a : α) : Balanced env y (pure a) w :=
  balanced_of_emits (Q := fun _ => True) (emits_pure trivial)

theorem balanced_of_looksOnly {x : FileM α} (hx : LooksOnly x) : Balanced env y x w :=
  balanced_of_issues ((hx.issues w).mono fun _ _ => leaves_of_readOnly)

/-- The file is there as long as nothing takes it away. -/
theorem file_kept {x : FileM α} (hfile : (w.remote.fileAt y).isSome)
    (hkept : ¬ ∃ e ∈ execLog (step env) x w, e.1.Takes env y) :
    ((exec (step env) x w).2.remote.fileAt y).isSome := by
  have hissues : Issues (step env) (fun op _ => ¬ op.Takes env y) x w :=
    fun e he htakes => hkept ⟨e, he, htakes⟩
  exact hissues.exec_invariant (I := fun t => (t.remote.fileAt y).isSome = true)
    (fun _ _ hop hs => step_keeps_file hop hs) hfile

theorem balanced_bind {x : FileM α} {g : α → FileM β} (hx : Balanced env y x w)
    (hg : ∀ a w', exec (step env) x w = (.ok a, w') → Balanced env y (g a) w') :
    Balanced env y (x >>= g) w := by
  intro hfile
  rcases hrun : exec (step env) x w with ⟨e | a, w'⟩
  · rw [execLog_bind_error hrun]
    exact hx hfile
  rw [execLog_bind_ok hrun]
  simp only [List.mem_append, or_and_right, exists_or]
  by_cases htakes : ∃ e ∈ execLog (step env) x w, e.1.Takes env y
  · exact iff_of_true (.inl htakes) (.inl ((hx hfile).mp htakes))
  · have hfile' := file_kept hfile htakes
    rw [hrun] at hfile'
    rw [or_iff_right htakes, or_iff_right (mt (hx hfile).mpr htakes)]
    exact hg a w' hrun hfile'

theorem balanced_forM {γ : Type} {f : γ → FileM PUnit} {xs : List γ}
    (hf : ∀ x ∈ xs, ∀ w, Balanced env y (f x) w) (w : World) : Balanced env y (forM xs f) w := by
  induction xs generalizing w with
  | nil => exact balanced_pure _
  | cons x xs ih =>
    rw [List.forM_cons]
    exact balanced_bind (hf x List.mem_cons_self w) fun _ w' _ =>
      ih (fun x hx => hf x (List.mem_cons_of_mem _ hx)) w'

/-! ### The programs of an upload -/

variable (env y) in
theorem emits_quiet {ε : Type} (op : FileOp) (hop : op.Leaves env y)
    (k : FileOp.Res op → Except ε α) :
    Emits (fun _ _ => True) (FileOp.Leaves env y) (fun _ => True)
      (call op k : Action FileOp FileOp.Res ε α) := ⟨hop, fun _ _ _ _ => trivial⟩

theorem writesRemote_leaves {tmp path : String} (htmp : env.remoteLoc tmp ≠ y)
    (hpath : env.remoteLoc path ≠ y) : WritesRemote (FileOp.Leaves env y) tmp path :=
  ⟨⟨id, htmp⟩, fun _ _ => ⟨id, id⟩, fun _ => ⟨id, id⟩, fun _ => ⟨id, id⟩, fun _ => ⟨id, id⟩,
    ⟨hpath, id⟩, ⟨htmp, id⟩, ⟨htmp, id⟩⟩

/-- An atomic write elsewhere goes for `y` only where it draws the place of `y` for its temp
file. -/
theorem balanced_atomicWriteRemote {path : String} (hpath : env.remoteLoc path ≠ y) (data : Bytes) :
    Balanced env y (atomicWriteRemote path data) w := by
  by_cases htmp : env.remoteLoc (remoteTmp env w path) = y
  case neg =>
    refine balanced_of_issues (issues_bind ?_ fun suffix w' hsuffix => ?_)
    · exact (emits_quiet env y _ ⟨id, id⟩ _).issues w
    obtain rfl : tmpSuffix (env.hash w.tick) = suffix := by
      rw [exec_randomTmpSuffix] at hsuffix
      exact Except.ok.inj (congrArg Prod.fst hsuffix)
    refine Emits.issues (Q := fun _ => True)
      (emits_bind (emits_attempt
        (emits_writeRemoteTemp (writesRemote_leaves htmp hpath) data)) fun r _ => ?_) w'
    rcases r with e | ⟨⟩
    · exact emits_bind (emits_ignore (emits_quiet env y (.removeFile (remoteTmp env w path))
        ⟨htmp, id⟩ _)) fun _ _ => emits_throw e
    · exact emits_pure trivial
  intro hfile
  -- the temp file is there already, so it cannot be opened, and the cleanup unlinks it
  obtain ⟨e, hopen⟩ : ∃ e, exec (step env) (openWithFlags (remoteTmp env w path)) w.next =
      (.error e, w.next.next) := exec_openWithFlags_error fun h => by
    rw [htmp, World.next_remote] at h
    simp [FileTree.fileAt, h.2.1] at hfile
  have hexec : exec (step env) (writeRemoteTemp (remoteTmp env w path) path data) w.next =
      (.error ⟨[s!"failed to open remote temp file: {remoteTmp env w path}"], e⟩, w.next.next) :=
    exec_bind_error (by rw [exec_withContext, hopen]; rfl) _
  have hlog : execLog (step env) (writeRemoteTemp (remoteTmp env w path) path data) w.next =
      [⟨.openWithFlags (remoteTmp env w path), .error e⟩] := by
    rw [writeRemoteTemp, execLog_bind_error (by rw [exec_withContext, hopen]; rfl)]
    show [(⟨.openWithFlags (remoteTmp env w path), (exec (step env)
      (openWithFlags (remoteTmp env w path)) w.next).1⟩ : (f : FileOp) × FileOp.Res f)] = _
    rw [hopen]
  have hrun : execLog (step env) (atomicWriteRemote path data) w =
      ⟨.suffixHash, env.hash w.tick⟩ :: ⟨.openWithFlags (remoteTmp env w path), .error e⟩ ::
        execLog (step env) (removeFile (remoteTmp env w path)) w.next.next := by
    rw [atomicWriteRemote, execLog_bind_ok (exec_randomTmpSuffix env w)]
    show _ :: execLog (step env)
      (attempt (writeRemoteTemp (remoteTmp env w path) path data) >>= _) w.next = _
    rw [execLog_attempt_bind, hlog, hexec]
    show _ :: _ :: execLog (step env)
      (ignore (removeFile (remoteTmp env w path)) >>= fun _ => throw _) w.next.next = _
    rw [execLog_ignore_bind]
    exact congrArg _ (congrArg _ (List.append_nil _))
  rw [hrun]
  refine iff_of_true ⟨_, List.mem_cons_of_mem _ (List.mem_cons_of_mem _ List.mem_cons_self), ?_⟩
    ⟨_, List.mem_cons_of_mem _ List.mem_cons_self, ?_⟩
  · exact htmp
  · exact htmp

theorem balanced_preserveMode (path : String) (mode : Option UInt32) :
    Balanced env y (preserveMode path mode) w := by
  cases mode with
  | none => exact balanced_pure _
  | some m =>
    refine balanced_of_emits (emits_ignore (Q := fun _ => True) ?_)
    exact emits_bind (emits_mapError (emits_quiet env y _ ⟨id, id⟩ _)) fun _ _ =>
      emits_mapError (emits_quiet env y _ ⟨id, id⟩ _)

theorem balanced_uploadWhole (o : RsyncOpts) (localPath : String) {remotePath : String}
    (hpath : env.remoteLoc remotePath ≠ y) (info : RemoteFileInfo) (w : World) :
    Balanced env y (uploadWhole o localPath remotePath info) w := by
  unfold uploadWhole
  split
  · exact balanced_pure _
  refine balanced_bind (balanced_of_looksOnly (looksOnly_propagate_fsRead _)) fun _ _ _ => ?_
  exact balanced_bind (balanced_atomicWriteRemote hpath _) fun _ _ _ => balanced_preserveMode _ _

theorem balanced_uploadIfChanged (copia : Copia) (o : RsyncOpts) (remoteFiles : FileMap)
    (localPath : String) {remotePath : String} (hpath : env.remoteLoc remotePath ≠ y)
    (info : RemoteFileInfo) :
    Balanced env y (uploadIfChanged copia o remoteFiles localPath remotePath info) w := by
  have hresult : ∀ {γ : Type} (r : Except IoError γ) w, Balanced env y (propagate (ofResult r)) w :=
    fun r w => balanced_of_emits (Q := fun _ => True)
      (emits_mapError (emits_ofResult fun _ _ => trivial))
  unfold uploadIfChanged
  split
  case h_2 => exact balanced_uploadWhole o localPath hpath info w
  next ri _ =>
  split
  · exact balanced_pure _
  split
  swap
  · exact balanced_uploadWhole o localPath hpath info w
  refine balanced_bind (balanced_of_looksOnly (looksOnly_propagate_fsRead _)) fun _ _ _ => ?_
  refine balanced_bind (balanced_of_looksOnly (looksOnly_propagate_read _)) fun _ _ _ => ?_
  split
  · exact balanced_pure _
  refine balanced_bind (hresult _ _) fun _ _ _ => balanced_bind (hresult _ _) fun _ _ _ => ?_
  split
  · refine balanced_bind (hresult _ _) fun _ _ _ => ?_
    exact balanced_bind (balanced_atomicWriteRemote hpath _) fun _ _ _ => balanced_preserveMode _ _
  · exact balanced_uploadWhole o localPath hpath info _

end Programs

/-! ## The two halves of a run -/

/-- `rsync_upload` up to its delete loop. -/
def uploadPart (copia : Copia) (localOrder : IterOrder) (fuel : Nat) (localRoot remoteRoot : String)
    (o : RsyncOpts) : FileM (FileMap × FileMap) := do
  ignore (createDir remoteRoot)
  let localFiles ← listLocalFiles fuel localRoot
  let remoteFiles ← listRemoteFiles fuel remoteRoot
  forM (localOrder.order localFiles.items) fun (localPath, info) =>
    uploadFile copia o (trimEndSlash localRoot) (trimEndSlash remoteRoot) remoteFiles localPath info
  pure (localFiles, remoteFiles)

/-- The delete loop, on what was listed. -/
def deletePart (remoteOrder : IterOrder) (localRoot remoteRoot : String) (o : RsyncOpts)
    (files : FileMap × FileMap) : FileM Unit :=
  if o.deleteExtra then
    forM (remoteOrder.order files.2.items) fun (remotePath, _) =>
      deleteFile o (trimEndSlash localRoot) (trimEndSlash remoteRoot) files.1 remotePath
  else pure ()

theorem rsyncUpload_eq_bind (copia : Copia) (localOrder remoteOrder : IterOrder) (fuel : Nat)
    (localRoot remoteRoot : String) (opts : List String) :
    rsyncUpload copia localOrder remoteOrder fuel localRoot remoteRoot opts =
      uploadPart copia localOrder fuel localRoot remoteRoot (parseRsyncOpts opts) >>=
        deletePart remoteOrder localRoot remoteRoot (parseRsyncOpts opts) := by
  simp only [rsyncUpload, uploadPart, bind_assoc, pure_bind]
  rfl

/-- The relative path contains one of the patterns. -/
def MatchesExclude (o : RsyncOpts) (names : List FileName) : Prop :=
  ∃ pat ∈ o.excludes, contains (rel names) pat = true

theorem MatchesExclude.isExcluded {o : RsyncOpts} {names : List FileName}
    (h : MatchesExclude o names) (localPath : String) :
    isExcluded o (rel names) localPath = true := by
  obtain ⟨pat, hpat, hcontains⟩ := h
  exact List.any_eq_true.mpr ⟨pat, hpat, by simp [hcontains]⟩

section Runs

variable {env : Env} {copia : Copia} {localOrder remoteOrder : IterOrder} {fuel : Nat}
  {localRoot remoteRoot : String} {o : RsyncOpts} {opts : List String} {w w' : World}
  {names : List FileName} {localFiles remoteFiles : FileMap}

theorem balanced_uploadPart (hremote : remoteRoot ≠ "") (hmatches : MatchesExclude o names) :
    Balanced env (names.reverse ++ env.remoteLoc remoteRoot)
      (uploadPart copia localOrder fuel localRoot remoteRoot o) w := by
  unfold uploadPart
  refine balanced_bind (balanced_of_emits (emits_ignore (emits_quiet env _ _ ⟨id, id⟩ _)))
    fun _ w₀ _ => ?_
  refine balanced_bind (balanced_of_looksOnly (looksOnly_listLocalFiles _ _))
    fun localFiles w₁ hlocal => ?_
  refine balanced_bind (balanced_of_looksOnly (looksOnly_listRemoteFiles _ _))
    fun remoteFiles w₂ _ => ?_
  refine balanced_bind (balanced_forM ?_ w₂) fun _ _ _ => balanced_pure _
  rintro ⟨key, i⟩ he s
  obtain ⟨p, hp, hdir, -, hlists⟩ := listLocalFiles_lists hlocal
  obtain ⟨names', f, rfl, rfl, hentry⟩ := hlists.entry hp hdir (mem_order_lookup localOrder he)
  show Balanced env _ (uploadFile ..) s
  rw [uploadFile_below _ _ _ _ _ hentry.ne_nil]
  split
  · exact balanced_pure _
  next hkept =>
  -- a file that is sent does not match, so its target is another one
  refine balanced_uploadIfChanged _ _ _ _ (fun heq => hkept ?_) _
  rw [remoteLoc_below env hremote] at heq
  obtain rfl := List.reverse_injective (List.append_cancel_right heq)
  exact hmatches.isExcluded _

theorem takes_deleteFile_iff (hremote : remoteRoot ≠ "") {names' : List FileName}
    (hne : names' ≠ []) (w : World) :
    (∃ e ∈ execLog (step env) (deleteFile o (trimEndSlash localRoot) (trimEndSlash remoteRoot)
        localFiles (below remoteRoot names')) w,
        e.1.Takes env (names.reverse ++ env.remoteLoc remoteRoot)) ↔
      o.dryRun = false ∧ localFiles.lookup (below localRoot names') = none ∧ names' = names := by
  have hnothing : ∀ s, ¬ ∃ e ∈ execLog (step env) (pure () : FileM Unit) s,
      e.1.Takes env (names.reverse ++ env.remoteLoc remoteRoot) := by
    rintro s ⟨e, he, -⟩
    cases he
  rw [deleteFile_below _ _ _ _ hne]
  split
  · next hlocal =>
    refine iff_of_false (hnothing w) ?_
    rintro ⟨-, hnone, -⟩
    simp [hnone] at hlocal
  next hlocal =>
  rw [Option.not_isSome_iff_eq_none] at hlocal
  split
  · next hdry => exact iff_of_false (hnothing w) fun h => absurd h.1 (by simp [hdry])
  next hdry =>
  rw [execLog_ignore]
  -- the round is this one removal, whatever it answers
  show (∃ e ∈ [(⟨.removeFile (below remoteRoot names'), _⟩ : (f : FileOp) × FileOp.Res f)], _) ↔ _
  simp only [List.mem_singleton, exists_eq_left]
  show env.remoteLoc (below remoteRoot names') = _ ↔ _
  rw [remoteLoc_below env hremote, List.append_left_inj, List.reverse_inj]
  simp [hlocal, hdry]

/-- The delete loop takes away the files of the list that the local side does not have. -/
theorem takes_deleteLoop_iff (hremote : remoteRoot ≠ "") {xs : List (String × RemoteFileInfo)}
    (hxs : ∀ e ∈ xs, ∃ names, names ≠ [] ∧ e.1 = below remoteRoot names) (w : World) :
    (∃ e ∈ execLog (step env) (forM xs fun (remotePath, _) => deleteFile o (trimEndSlash localRoot)
        (trimEndSlash remoteRoot) localFiles remotePath) w,
        e.1.Takes env (names.reverse ++ env.remoteLoc remoteRoot)) ↔
      o.dryRun = false ∧ localFiles.lookup (below localRoot names) = none ∧
        below remoteRoot names ∈ xs.map Prod.fst := by
  induction xs generalizing w with
  | nil => simp [show ∀ s, execLog (step env) (pure () : FileM PUnit) s = [] from fun _ => rfl]
  | cons x xs ih =>
    obtain ⟨names', hne, hkey⟩ := hxs x List.mem_cons_self
    -- a round never fails, so that the log of the loop is that of its rounds
    obtain ⟨w', hexec⟩ := deleteFile_ok env o (trimEndSlash localRoot)
      (trimEndSlash remoteRoot) localFiles x.1 w
    rw [List.forM_cons, execLog_bind_ok (show exec (step env) _ w = _ from hexec)]
    simp only [List.mem_append, or_and_right, exists_or]
    rw [ih (fun e he => hxs e (List.mem_cons_of_mem x he)), List.map_cons, List.mem_cons]
    have hround : (∃ e ∈ execLog (step env) (deleteFile o (trimEndSlash localRoot)
          (trimEndSlash remoteRoot) localFiles x.1) w,
          e.1.Takes env (names.reverse ++ env.remoteLoc remoteRoot)) ↔
        o.dryRun = false ∧ localFiles.lookup (below localRoot names') = none ∧ names' = names := by
      rw [hkey]
      exact takes_deleteFile_iff hremote hne w
    rw [hround]
    have hfirst : below remoteRoot names = x.1 ↔ names' = names := by
      rw [hkey]
      exact ⟨fun h => (below_injective hremote h).symm, fun h => h ▸ rfl⟩
    rw [hfirst]
    constructor
    · rintro (⟨hdry, hnone, rfl⟩ | ⟨hdry, hnone, hmem⟩)
      · exact ⟨hdry, hnone, .inl rfl⟩
      · exact ⟨hdry, hnone, .inr hmem⟩
    · rintro ⟨hdry, hnone, rfl | hmem⟩
      · exact .inl ⟨hdry, hnone, rfl⟩
      · exact .inr ⟨hdry, hnone, hmem⟩

theorem not_stages_deletePart (remoteOrder : IterOrder) (localRoot remoteRoot : String)
    (o : RsyncOpts) (files : FileMap × FileMap) (w : World) {y : Loc} :
    ¬ ∃ e ∈ execLog (step env) (deletePart remoteOrder localRoot remoteRoot o files) w,
      e.1.Stages env y := by
  have hemits : Emits (fun _ _ => True) (fun op => ¬ op.Stages env y) (fun _ => True)
      (deletePart remoteOrder localRoot remoteRoot o files) := by
    unfold deletePart
    split
    swap
    · exact emits_pure trivial
    refine emits_forM fun e _ => ?_
    show Emits _ _ _ (deleteFile ..)
    unfold deleteFile
    dsimp only
    split
    · exact emits_pure trivial
    · split
      · exact emits_pure trivial
      · exact emits_ignore (Q := fun _ => True) ⟨id, fun _ _ _ _ => trivial⟩
  rintro ⟨e, he, hstages⟩
  exact hemits.issues w e he hstages

/-- A run comes to the delete loop with a remote file that the local side does not have. -/
structure DeletesOrphan (env : Env) (copia : Copia) (localOrder : IterOrder) (fuel : Nat)
    (localRoot remoteRoot : String) (o : RsyncOpts) (w : World) (names : List FileName) : Prop where
  delete : o.deleteExtra = true
  wet : o.dryRun = false
  uploaded : ∃ files w', exec (step env)
    (uploadPart copia localOrder fuel localRoot remoteRoot o) w = (.ok files, w')
  orphan : ∃ p, env.diskLoc localRoot = some p ∧ w.disk.fileAt (names.reverse ++ p) = none

/-- What the first half of a run has listed. -/
theorem uploadPart_listed (hremote : remoteRoot ≠ "") {files : FileMap × FileMap}
    (hrun : exec (step env) (uploadPart copia localOrder fuel localRoot remoteRoot o) w
      = (.ok files, w')) :
    ∃ p t, env.diskLoc localRoot = some p ∧ (∀ x, t.fileAt x = w.remote.fileAt x) ∧
      t.get (env.remoteLoc remoteRoot) = some .dir ∧
      Lists localInfo w.disk p localRoot (fun _ => True) files.1 ∧
      Lists remoteInfo t (env.remoteLoc remoteRoot) remoteRoot (fun _ => True) files.2 := by
  rw [uploadPart, exec_ignore_bind] at hrun
  obtain ⟨hdisk₀, hfiles₀, -⟩ := exec_createDir env w remoteRoot
  obtain ⟨localFiles, w₁, hlocal, hrun⟩ := exec_bind_eq_ok hrun
  obtain ⟨remoteFiles, w₂, hlist, hrun⟩ := exec_bind_eq_ok hrun
  obtain ⟨_, w₃, -, hrun⟩ := exec_bind_eq_ok hrun
  cases hrun
  obtain ⟨p, hp, -, hsame, hlists⟩ := listLocalFiles_lists hlocal
  obtain ⟨-, hrdir, hrlists⟩ := listRemoteFiles_lists hremote hlist
  exact ⟨p, w₁.remote, hp, fun x => by rw [hsame.remote, hfiles₀], hrdir, hdisk₀ ▸ hlists, hrlists⟩

/-- A run takes away an excluded file exactly when it tries to stage something there, or comes to
delete it. -/
theorem takes_rsyncUpload_iff (hremote : remoteRoot ≠ "")
    (hmatches : MatchesExclude (parseRsyncOpts opts) names)
    (hfile : (w.remote.fileAt (names.reverse ++ env.remoteLoc remoteRoot)).isSome) :
    let log := execLog (step env)
      (rsyncUpload copia localOrder remoteOrder fuel localRoot remoteRoot opts) w
    (∃ e ∈ log, e.1.Takes env (names.reverse ++ env.remoteLoc remoteRoot)) ↔
      (∃ e ∈ log, e.1.Stages env (names.reverse ++ env.remoteLoc remoteRoot)) ∨
        DeletesOrphan env copia localOrder fuel localRoot remoteRoot (parseRsyncOpts opts) w
          names := by
  intro log
  have hbalanced : Balanced env (names.reverse ++ env.remoteLoc remoteRoot) (uploadPart copia
      localOrder fuel localRoot remoteRoot (parseRsyncOpts opts)) w :=
    balanced_uploadPart hremote hmatches
  simp only [log, rsyncUpload_eq_bind]
  rcases hrun : exec (step env) (uploadPart copia localOrder fuel localRoot remoteRoot
    (parseRsyncOpts opts)) w with ⟨e | files, w'⟩
  · rw [execLog_bind_error hrun, hbalanced hfile, or_iff_left]
    rintro ⟨-, -, ⟨files, w'', huploaded⟩, -⟩
    rw [hrun] at huploaded
    cases huploaded
  rw [execLog_bind_ok hrun]
  simp only [List.mem_append, or_and_right, exists_or]
  -- nothing is staged in the delete loop
  rw [hbalanced hfile, or_iff_left (b := ∃ e ∈ execLog (step env) (deletePart ..) w', _)
    (not_stages_deletePart remoteOrder localRoot remoteRoot _ files w')]
  refine or_congr_right ?_
  unfold deletePart
  split
  swap
  · next hkeep =>
    refine iff_of_false ?_ fun h => hkeep h.delete
    rintro ⟨e, he, -⟩
    cases he
  next hdelete =>
  obtain ⟨p, t, hp, hfiles, hrdir, hlists, hrlists⟩ := uploadPart_listed hremote hrun
  rw [takes_deleteLoop_iff hremote (hrlists.key_below hrdir remoteOrder), mem_order_keys,
    hrlists.lookup_below hremote, Option.isSome_map, hfiles,
    hlists.lookup_below (Env.ne_empty_of_diskLoc hp), Option.map_eq_none_iff]
  constructor
  · rintro ⟨hwet, hnone, -⟩
    exact ⟨hdelete, hwet, ⟨files, w', hrun⟩, p, hp, hnone⟩
  · rintro ⟨-, hwet, -, p', hp', hnone⟩
    obtain rfl := Option.some.inj (hp'.symm.trans hp)
    exact ⟨hwet, hnone, hfile⟩

end Runs

/-! ## What may happen -/

/-- Some upload may draw the place of the remote file at `names` for its temp file. -/
def MayStage (env : Env) (copia : Copia) (localRoot remoteRoot : String) (o : RsyncOpts) (w : World)
    (names : List FileName) : Prop :=
  ∃ p names' f hash, Entry env w localRoot p names' f ∧
    Sends env copia o localRoot remoteRoot w names' f ∧
    env.remoteLoc (below remoteRoot names' ++ ".tmp." ++ tmpSuffix hash)
      = names.reverse ++ env.remoteLoc remoteRoot

/-- A run may come to the delete loop and find no local file at `names`: both roots can be listed,
and there is room for everything that is sent before. -/
structure MayDelete (env : Env) (copia : Copia) (localRoot remoteRoot : String) (o : RsyncOpts)
    (w : World) (names : List FileName) : Prop where
  delete : o.deleteExtra = true
  wet : o.dryRun = false
  receiver : w.remote.get (env.remoteLoc remoteRoot) = some .dir
  orphan : ∃ p, env.diskLoc localRoot = some p ∧ w.disk.get p = some .dir ∧
    w.disk.fileAt (names.reverse ++ p) = none
  room : ∀ p names' f, Entry env w localRoot p names' f →
    Sends env copia o localRoot remoteRoot w names' f → Room env w (below remoteRoot names')

section May

variable {env env' : Env} {copia : Copia} {localRoot remoteRoot : String} {o : RsyncOpts}
  {opts : List String} {localOrder remoteOrder : IterOrder} {fuel : Nat} {p : Loc} {w : World}
  {names : List FileName} {f : File} {y : Loc}

/-! ### Nothing else does -/

/-- A write stages its data under a temp name of its target, and nowhere else. -/
theorem stages_sendTo {remotePath : String} {e : (op : FileOp) × op.Res}
    (he : e ∈ execLog (step env) (sendTo remotePath f) w) (hstages : e.1.Stages env y) :
    ∃ hash, env.remoteLoc (remotePath ++ ".tmp." ++ tmpSuffix hash) = y := by
  have hemits : Emits (fun _ _ => True) (fun op => op.Stages env y →
      ∃ hash, env.remoteLoc (remotePath ++ ".tmp." ++ tmpSuffix hash) = y) (fun _ => True)
      (sendTo remotePath f) := by
    refine emits_bind (emits_atomicWriteRemote nofun (fun hash => ?_) _) fun _ _ => ?_
    · exact ⟨fun h => ⟨hash, h⟩, nofun, nofun, nofun, nofun, nofun, nofun, nofun⟩
    · refine emits_ignore (Q := fun _ => True) (emits_bind (Q := fun _ => True) ?_ fun _ _ => ?_)
      · exact emits_mapError ⟨nofun, fun _ _ _ _ => trivial⟩
      · exact emits_mapError ⟨nofun, fun _ _ _ _ => trivial⟩
  exact hemits.issues w e he hstages

/-- A remote file is below a directory, or is the root itself. -/
theorem root_exists (hfile : (w.remote.fileAt (names.reverse ++ env.remoteLoc remoteRoot)).isSome) :
    w.remote.get (env.remoteLoc remoteRoot) ≠ none := by
  obtain ⟨f, hf⟩ := Option.isSome_iff_exists.mp hfile
  rw [FileTree.fileAt_eq_some_iff] at hf
  by_cases hne : names.reverse = []
  · rw [hne, List.nil_append] at hf
    rw [hf]
    exact Option.some_ne_none _
  · rw [FileTree.get_ancestor (by rw [hf]; exact Option.some_ne_none _) hne]
    exact Option.some_ne_none _

theorem mayStage_of_stages (hcopia : copia.Lawful) (hremote : remoteRoot ≠ "")
    (hfile : (w.remote.fileAt (names.reverse ++ env.remoteLoc remoteRoot)).isSome)
    (hstages : ∃ e ∈ execLog (step env) (uploadPart copia localOrder fuel localRoot remoteRoot o) w,
      e.1.Stages env (names.reverse ++ env.remoteLoc remoteRoot)) :
    MayStage env copia localRoot remoteRoot o w names := by
  obtain ⟨e, he, hstages⟩ := hstages
  have hlooks : ∀ {ε α : Type} {x : Action FileOp FileOp.Res ε α} {s : World}, Looks env x s →
      e ∉ execLog (step env) x s := fun hx he => (leaves_of_readOnly (hx e he)).2 hstages
  rw [uploadPart] at he
  rcases mem_execLog_bind he with he | ⟨_, w₀, hcreate, he⟩
  · rw [execLog_ignore] at he
    obtain rfl := List.mem_singleton.mp he
    exact hstages.elim
  rw [exec_ignore] at hcreate
  obtain rfl := (Prod.mk.inj hcreate).2
  rcases mem_execLog_bind he with he | ⟨localFiles, w₁, hlocal, he⟩
  · exact absurd he (hlooks ((looksOnly_listLocalFiles _ _).issues _))
  rcases mem_execLog_bind he with he | ⟨remoteFiles, w₂, hlist, he⟩
  · exact absurd he (hlooks ((looksOnly_listRemoteFiles _ _).issues _))
  obtain ⟨hsame, -, p, -, -, -, hb⟩ := batch_of_listings hremote (root_exists hfile) hlocal hlist
  rcases mem_execLog_bind he with he | ⟨_, _, -, he⟩
  swap
  · cases he
  -- it is staged in some round
  obtain ⟨done, ⟨key, i⟩, rest, s, hsplit, hdone, he⟩ := mem_execLog_forM he
  have hb := hb localOrder
  rw [hsplit] at hb
  obtain ⟨names', f, heq, hentry⟩ := hb.entries (key, i) (by simp)
  cases heq
  have hs := (uploads_room hb hcopia hsame hdone).1
  replace he : e ∈ execLog (step env) (uploadFile ..) s := he
  rw [uploadFile_below _ _ _ _ _ hentry.ne_nil] at he
  split at he
  · cases he
  next hkept =>
  cases hs.round hb hcopia (o := o) hentry hb.not_mem_done with
  | idle _ hround => exact absurd he (hlooks hround)
  | unread _ hround => exact absurd he (hlooks hround)
  | sends hsend s₁ _ hcomes =>
    obtain hlook | hsent := hcomes.mem_or he
    · exact ((leaves_of_readOnly hlook).2 hstages).elim
    obtain ⟨hash, hloc⟩ := stages_sendTo hsent hstages
    exact ⟨p, names', f, hash, hentry, ⟨Bool.eq_false_iff.mpr hkept, hsend⟩, hloc⟩

theorem mayDelete_of_deletesOrphan (hcopia : copia.Lawful) (hremote : remoteRoot ≠ "")
    (hfile : (w.remote.fileAt (names.reverse ++ env.remoteLoc remoteRoot)).isSome)
    (h : DeletesOrphan env copia localOrder fuel localRoot remoteRoot o w names) :
    MayDelete env copia localRoot remoteRoot o w names := by
  obtain ⟨files, w', hrun⟩ := h.uploaded
  rw [uploadPart, exec_ignore_bind] at hrun
  obtain ⟨localFiles, w₁, hlocal, hrun⟩ := exec_bind_eq_ok hrun
  obtain ⟨remoteFiles, w₂, hlist, hrun⟩ := exec_bind_eq_ok hrun
  obtain ⟨_, w₃, huploads, -⟩ := exec_bind_eq_ok hrun
  obtain ⟨hsame, hrdir, p, hp, hdir, hlists, hb⟩ :=
    batch_of_listings hremote (root_exists hfile) hlocal hlist
  have hb := hb localOrder
  rw [← List.append_nil (localOrder.order _)] at hb
  obtain ⟨q, hq, horphan⟩ := h.orphan
  obtain rfl := Option.some.inj (hq.symm.trans hp)
  refine ⟨h.delete, h.wet, hrdir, ⟨q, hq, hdir, horphan⟩, fun p' names' f hentry => ?_⟩
  obtain rfl := Option.some.inj (hq.symm.trans hentry.loc)
  refine (uploads_room hb hcopia hsame huploads).2 names' f hentry ?_
  -- the entry has been listed
  rw [mem_order_keys, hlists.lookup_below (Env.ne_empty_of_diskLoc hp),
    FileTree.fileAt_eq_some_iff.mpr hentry.file]
  rfl

/-! ### Both do happen -/

variable (env) in
/-- The same places, and no failures. -/
def Env.unfailing : Env := { Env.reliable with home := env.home, cwd := env.cwd }

/-- A write stages its data under the temp name it draws. -/
theorem exists_stages_sendTo (env : Env) (f : File) (w : World) (remotePath : String) :
    ∃ e ∈ execLog (step env) (sendTo remotePath f) w,
      e.1 = .openWithFlags (remoteTmp env w remotePath) := by
  set tmp := remoteTmp env w remotePath
  refine ⟨⟨.openWithFlags tmp, (exec (step env) (openWithFlags tmp) w.next).1⟩,
    mem_execLog_bind_left ?_, rfl⟩
  rw [atomicWriteRemote, execLog_bind_ok (exec_randomTmpSuffix env w)]
  refine List.mem_append_right _ ?_
  rw [execLog_attempt_bind]
  refine List.mem_append_left _ ?_
  rw [writeRemoteTemp]
  exact mem_execLog_bind_left List.mem_cons_self

/-- The shortest paths first. -/
def IterOrder.shortest : IterOrder where
  order entries := entries.mergeSort fun e e' => decide (e.1.length ≤ e'.1.length)
  perm entries := List.mergeSort_perm entries _

theorem pairwise_shortest (entries : List (String × RemoteFileInfo)) :
    (IterOrder.shortest.order entries).Pairwise fun e e' => e.1.length ≤ e'.1.length := by
  refine (List.pairwise_mergeSort (fun a b c hab hbc => ?_) (fun a b => ?_) entries).imp
    of_decide_eq_true
  · exact decide_eq_true ((of_decide_eq_true hab).trans (of_decide_eq_true hbc))
  · simpa using Nat.le_total _ _

/-- A temp file is below the root that its target is below. -/
theorem ne_nil_of_tmp {names' : List FileName} {hash : UInt64} (hremote : remoteRoot ≠ "")
    (hne : names' ≠ []) (hloc : env.remoteLoc (below remoteRoot names' ++ ".tmp." ++ tmpSuffix hash)
      = names.reverse ++ env.remoteLoc remoteRoot) : names ≠ [] := by
  rintro rfl
  obtain ⟨dirs, n, rfl⟩ := (List.eq_nil_or_concat names').resolve_left hne
  obtain ⟨n', -, hpath⟩ := exists_tmp_below dirs n hash
  rw [List.concat_eq_append, hpath, remoteLoc_below env hremote] at hloc
  have hlen := congrArg List.length hloc
  simp at hlen
  omega

/-- Iterate the file first, and draw the suffix. -/
theorem exists_stages_of_mayStage (hcopia : copia.Lawful) (hremote : remoteRoot ≠ "")
    (hfile : (w.remote.fileAt (names.reverse ++ env.remoteLoc remoteRoot)).isSome)
    (h : MayStage env copia localRoot remoteRoot o w names) :
    ∃ env' localOrder fuel, env'.home = env.home ∧ env'.cwd = env.cwd ∧
      ∃ e ∈ execLog (step env') (uploadPart copia localOrder fuel localRoot remoteRoot o) w,
        e.1.Stages env' (names.reverse ++ env'.remoteLoc remoteRoot) := by
  obtain ⟨p, names', f, hash, hentry, ⟨hkept, hsend⟩, hloc⟩ := h
  set env' := env.unfailing.drawing fun _ => hash
  have hentry' : Entry env' w localRoot p names' f := ⟨hentry.ne_nil, hentry.loc, hentry.file⟩
  have hok : env'.NoFailure := fun _ => rfl
  have hroot : w.remote.get (env'.remoteLoc remoteRoot) ≠ none := root_exists hfile
  have hdir : w.disk.get p = some .dir := FileTree.get_ancestor
    (by rw [hentry.file]; exact Option.some_ne_none _) (List.reverse_ne_nil_iff.mpr hentry.ne_nil)
  have hrdir : w.remote.get (env'.remoteLoc remoteRoot) = some .dir := by
    obtain ⟨g, hg⟩ := Option.isSome_iff_exists.mp hfile
    rw [FileTree.fileAt_eq_some_iff] at hg
    have hsome : w.remote.get (names.reverse ++ env'.remoteLoc remoteRoot) ≠ none := fun hnone =>
      nomatch hg.symm.trans hnone
    exact FileTree.get_ancestor hsome
      (List.reverse_ne_nil_iff.mpr (ne_nil_of_tmp hremote hentry.ne_nil hloc))
  obtain ⟨fuel, hlistings⟩ := listings_ok hok hentry'.loc hdir hremote hrdir
  obtain ⟨localFiles, remoteFiles, w₁, w₂, hlocal, hlist, -⟩ := hlistings fuel le_rfl
  set first := (below localRoot names', localInfo f)
  refine ⟨env', .first first, fuel, rfl, rfl, ?_⟩
  obtain ⟨hsame, -, q, hq, -, hlists, hb⟩ := batch_of_listings hremote hroot hlocal hlist
  obtain rfl := Option.some.inj (hq.symm.trans hentry'.loc)
  have hmem : first ∈ localFiles.items := by
    rw [FileMap.mem_items, hlists.lookup_below (Env.ne_empty_of_diskLoc hq),
      FileTree.fileAt_eq_some_iff.mpr hentry.file]
    rfl
  have hb : Batch env' localRoot remoteRoot q w remoteFiles
      ([] ++ first :: localFiles.items.erase first) := by
    have hfirst := hb (.first first)
    rwa [show (IterOrder.first first).order _ = _ from if_pos hmem] at hfirst
  -- the first round is on the file, and comes to write it
  obtain ⟨e, he, hopens⟩ : ∃ e ∈ execLog (step env') (uploadFile copia o (trimEndSlash localRoot)
      (trimEndSlash remoteRoot) remoteFiles (below localRoot names') (localInfo f)) w₂,
      e.1 = .openWithFlags (below remoteRoot names' ++ ".tmp." ++ tmpSuffix hash) := by
    rw [uploadFile_below _ _ _ _ _ hentry.ne_nil, if_neg (by simp [hkept])]
    cases hsame.uploading.round hb hcopia (o := o) hentry' (by simp) with
    | idle hidle => exact absurd hsend hidle
    | unread hfails => exact absurd hok hfails
    | sends _ s₁ _ hcomes =>
      obtain ⟨e, he, hopens⟩ := exists_stages_sendTo env' f s₁ (below remoteRoot names')
      exact ⟨e, hcomes.mem he, hopens⟩
  refine ⟨e, ?_, ?_⟩
  · rw [uploadPart, execLog_ignore_bind, execLog_bind_ok hlocal, execLog_bind_ok hlist]
    refine List.mem_append_right _ (List.mem_append_right _ (List.mem_append_right _
      (mem_execLog_bind_left ?_)))
    rw [show (IterOrder.first first).order _ = _ from if_pos hmem, List.forM_cons]
    exact mem_execLog_bind_left he
  · rw [hopens]
    exact hloc

/-- Iterate short paths first, and draw suffixes that are free. -/
theorem exists_deletesOrphan_of_mayDelete (hcopia : copia.Lawful) (hremote : remoteRoot ≠ "")
    (h : MayDelete env copia localRoot remoteRoot o w names) :
    ∃ env' localOrder fuel, env'.home = env.home ∧ env'.cwd = env.cwd ∧
      DeletesOrphan env' copia localOrder fuel localRoot remoteRoot o w names := by
  obtain ⟨p, hp, hdir, horphan⟩ := h.orphan
  have hok : env.unfailing.NoFailure := fun _ => rfl
  have hp' : env.unfailing.diskLoc localRoot = some p := hp
  have hroot : w.remote.get (env.unfailing.remoteLoc remoteRoot) ≠ none := fun hnone =>
    nomatch h.receiver.symm.trans hnone
  obtain ⟨fuel, hlistings⟩ := listings_ok hok hp' hdir hremote h.receiver
  obtain ⟨localFiles, remoteFiles, w₁, w₂, hlocal, hlist, -⟩ := hlistings fuel le_rfl
  obtain ⟨hsame, -, q, hq, -, hlists, hb⟩ := batch_of_listings hremote hroot hlocal hlist
  obtain rfl := Option.some.inj (hq.symm.trans hp')
  have huploads := exists_uploads_ok (o := o) hok hcopia hsame.uploading
    (hb .shortest) (pairwise_shortest localFiles.items) fun names' f hentry hsends => by
      obtain ⟨hplace, htemp⟩ := h.room q names' f ⟨hentry.ne_nil, hentry.loc, hentry.file⟩ hsends
      exact ⟨hplace, htemp⟩
  -- the listings draw no hashes, and return as they did
  obtain ⟨hash, files, t, hrun⟩ : ∃ hash files t, exec (step (env.unfailing.drawing hash))
      (uploadPart copia .shortest fuel localRoot remoteRoot o) w = (.ok files, t) := by
    refine exists_drawing_bind (exec_ignore (step (env.unfailing.drawing fun n => UInt64.ofNat n))
      (createDir remoteRoot) w) ?_
    refine exists_drawing_bind hlocal (exists_drawing_bind hlist ?_)
    obtain ⟨hash, ⟨⟩, t, huploads⟩ := huploads
    exact exists_drawing_bind huploads ⟨hash, _, t, rfl⟩
  exact ⟨env.unfailing.drawing hash, .shortest, fuel, rfl, rfl, h.delete, h.wet, ⟨files, t, hrun⟩,
    q, hp, horphan⟩

/-! ### The claims of two environments with the same places -/

theorem Entry.relocate (hentry : Entry env' w localRoot p names f) (hcwd : env'.cwd = env.cwd) :
    Entry env w localRoot p names f :=
  ⟨hentry.ne_nil, Env.diskLoc_congr hcwd ▸ hentry.loc, hentry.file⟩

theorem MayStage.relocate (h : MayStage env' copia localRoot remoteRoot o w names)
    (hhome : env'.home = env.home) (hcwd : env'.cwd = env.cwd) :
    MayStage env copia localRoot remoteRoot o w names := by
  obtain ⟨p, names', f, hash, hentry, hsends, hloc⟩ := h
  unfold Sends at hsends
  rw [Env.remoteLoc_congr hhome] at hsends hloc
  exact ⟨p, names', f, hash, hentry.relocate hcwd, hsends, hloc⟩

theorem MayDelete.relocate (h : MayDelete env' copia localRoot remoteRoot o w names)
    (hhome : env'.home = env.home) (hcwd : env'.cwd = env.cwd) :
    MayDelete env copia localRoot remoteRoot o w names := by
  have hloc := Env.remoteLoc_congr hhome
  refine ⟨h.delete, h.wet, hloc ▸ h.receiver, Env.diskLoc_congr hcwd ▸ h.orphan,
    fun p names' f hentry hsends => ?_⟩
  unfold Sends at hsends
  rw [← hloc] at hsends
  obtain ⟨hplace, htemp⟩ := h.room p names' f (hentry.relocate hcwd.symm) hsends
  exact ⟨hloc ▸ hplace, hloc ▸ htemp⟩

/-- A run that takes away an excluded file has staged an upload in its place, or has come to delete
it. -/
theorem may_of_takes (hcopia : copia.Lawful) (hremote : remoteRoot ≠ "")
    (hmatches : MatchesExclude (parseRsyncOpts opts) names)
    (hfile : (w.remote.fileAt (names.reverse ++ env.remoteLoc remoteRoot)).isSome)
    (htakes : ∃ e ∈ execLog (step env)
      (rsyncUpload copia localOrder remoteOrder fuel localRoot remoteRoot opts) w,
      e.1.Takes env (names.reverse ++ env.remoteLoc remoteRoot)) :
    MayStage env copia localRoot remoteRoot (parseRsyncOpts opts) w names ∨
      MayDelete env copia localRoot remoteRoot (parseRsyncOpts opts) w names := by
  rcases (takes_rsyncUpload_iff hremote hmatches hfile).mp htakes with ⟨e, he, hstages⟩ | hdeletes
  · left
    rw [rsyncUpload_eq_bind] at he
    rcases mem_execLog_bind he with he | ⟨files, w', -, he⟩
    · exact mayStage_of_stages hcopia hremote hfile ⟨e, he, hstages⟩
    · exact (not_stages_deletePart remoteOrder localRoot remoteRoot _ files w'
        ⟨e, he, hstages⟩).elim
  · exact .inr (mayDelete_of_deletesOrphan hcopia hremote hfile hdeletes)

/-- Where either may happen, some run takes the file away. -/
theorem exists_takes_of_may (hcopia : copia.Lawful) (hremote : remoteRoot ≠ "")
    (hmatches : MatchesExclude (parseRsyncOpts opts) names)
    (hfile : (w.remote.fileAt (names.reverse ++ env.remoteLoc remoteRoot)).isSome)
    (hmay : MayStage env copia localRoot remoteRoot (parseRsyncOpts opts) w names ∨
      MayDelete env copia localRoot remoteRoot (parseRsyncOpts opts) w names) :
    ∃ env' localOrder fuel, env'.home = env.home ∧ env'.cwd = env.cwd ∧
      ∃ e ∈ execLog (step env')
        (rsyncUpload copia localOrder .asListed fuel localRoot remoteRoot opts) w,
        e.1.Takes env' (names.reverse ++ env'.remoteLoc remoteRoot) := by
  rcases hmay with hstage | hdelete
  · obtain ⟨env', localOrder, fuel, hhome, hcwd, e, he, hstages⟩ :=
      exists_stages_of_mayStage hcopia hremote hfile hstage
    refine ⟨env', localOrder, fuel, hhome, hcwd, ?_⟩
    rw [← Env.remoteLoc_congr hhome] at hfile
    refine (takes_rsyncUpload_iff hremote hmatches hfile).mpr (.inl ⟨e, ?_, hstages⟩)
    rw [rsyncUpload_eq_bind]
    exact mem_execLog_bind_left he
  · obtain ⟨env', localOrder, fuel, hhome, hcwd, hdeletes⟩ :=
      exists_deletesOrphan_of_mayDelete hcopia hremote hdelete
    rw [← Env.remoteLoc_congr hhome] at hfile
    exact ⟨env', localOrder, fuel, hhome, hcwd,
      (takes_rsyncUpload_iff hremote hmatches hfile).mpr (.inr hdeletes)⟩

/-- **No run takes away a file that matches an exclude pattern, whatever fails and whatever suffixes
are drawn, exactly when**, for each of them, no upload may draw its name for a temp file, and no run
may come to delete it. -/
theorem rsyncUpload_spares_iff (env : Env) (hcopia : copia.Lawful) (hremote : remoteRoot ≠ "")
    (w : World) :
    (∀ env' localOrder remoteOrder fuel, env'.home = env.home → env'.cwd = env.cwd →
      ∀ names, MatchesExclude (parseRsyncOpts opts) names →
        (w.remote.fileAt (names.reverse ++ env.remoteLoc remoteRoot)).isSome →
        ∀ e ∈ execLog (step env')
            (rsyncUpload copia localOrder remoteOrder fuel localRoot remoteRoot opts) w,
          ¬ e.1.Takes env' (names.reverse ++ env.remoteLoc remoteRoot)) ↔
      ∀ names, MatchesExclude (parseRsyncOpts opts) names →
        (w.remote.fileAt (names.reverse ++ env.remoteLoc remoteRoot)).isSome →
        ¬ MayStage env copia localRoot remoteRoot (parseRsyncOpts opts) w names ∧
          ¬ MayDelete env copia localRoot remoteRoot (parseRsyncOpts opts) w names := by
  constructor
  · intro hspares names hmatches hfile
    rw [← not_or]
    intro hmay
    -- where a file may be taken, some run takes it
    obtain ⟨env', localOrder, fuel, hhome, hcwd, e, he, htakes⟩ :=
      exists_takes_of_may hcopia hremote hmatches hfile hmay
    rw [Env.remoteLoc_congr hhome] at htakes
    exact hspares env' localOrder .asListed fuel hhome hcwd names hmatches hfile e he htakes
  · intro hnot env' localOrder remoteOrder fuel hhome hcwd names hmatches hfile e he htakes
    obtain ⟨hstage, hdelete⟩ := hnot names hmatches hfile
    rw [← Env.remoteLoc_congr hhome] at hfile htakes
    rcases may_of_takes hcopia hremote hmatches hfile ⟨e, he, htakes⟩ with hmay | hmay
    · exact hstage (hmay.relocate hhome hcwd)
    · exact hdelete (hmay.relocate hhome hcwd)

/-- What no run may take away is there at the end of every run. -/
theorem rsyncUpload_keeps (hcopia : copia.Lawful) (hremote : remoteRoot ≠ "")
    (hmatches : MatchesExclude (parseRsyncOpts opts) names)
    (hfile : (w.remote.fileAt (names.reverse ++ env.remoteLoc remoteRoot)).isSome)
    (hstage : ¬ MayStage env copia localRoot remoteRoot (parseRsyncOpts opts) w names)
    (hdelete : ¬ MayDelete env copia localRoot remoteRoot (parseRsyncOpts opts) w names) :
    ((exec (step env) (rsyncUpload copia localOrder remoteOrder fuel localRoot remoteRoot opts)
      w).2.remote.fileAt (names.reverse ++ env.remoteLoc remoteRoot)).isSome := by
  refine file_kept hfile fun htakes => ?_
  exact (may_of_takes hcopia hremote hmatches hfile htakes).elim hstage hdelete

end May

/-- An empty local directory, and a log file on the server. -/
def World.withLog : World :=
  .start (Tree.dirWith ⟨"vault", by decide⟩ [(⟨"audit.log", by decide⟩, [6])])
    (Tree.dirWith ⟨"docs", by decide⟩ [])

theorem rsyncUpload_spares_iff_vault :
    let opts := ["delete", "exclude=.log"]
    (∀ env' localOrder remoteOrder fuel, env'.home = [] → env'.cwd = [] →
      ∀ names, MatchesExclude (parseRsyncOpts opts) names →
        (World.withLog.remote.fileAt (names.reverse ++ Env.reliable.remoteLoc "/vault")).isSome →
        ∀ e ∈ execLog (step env')
            (rsyncUpload .prefixOnly localOrder remoteOrder fuel "/docs" "/vault" opts) .withLog,
          ¬ e.1.Takes env' (names.reverse ++ Env.reliable.remoteLoc "/vault")) ↔
      ∀ names, MatchesExclude (parseRsyncOpts opts) names →
        (World.withLog.remote.fileAt (names.reverse ++ Env.reliable.remoteLoc "/vault")).isSome →
        ¬ MayStage .reliable .prefixOnly "/docs" "/vault" (parseRsyncOpts opts) .withLog names ∧
          ¬ MayDelete .reliable .prefixOnly "/docs" "/vault" (parseRsyncOpts opts) .withLog names :=
  rsyncUpload_spares_iff .reliable Copia.prefixOnly_lawful (by decide) _

/-- The excluded log file is not on the local side, and is deleted. -/
theorem rsyncUpload_deletes_excluded :
    let run := exec (step .reliable) (rsyncUpload .prefixOnly .asListed .asListed 2 "/docs"
      "/vault" ["delete", "exclude=.log"]) .withLog
    let audit : Loc := [⟨"audit.log", by decide⟩, ⟨"vault", by decide⟩]
    (parseRsyncOpts ["delete", "exclude=.log"]).excludes = [".log"] ∧
      contains (rel [⟨"audit.log", by decide⟩]) ".log" = true ∧
      World.withLog.remote.contentOf audit = some [6] ∧
      run.1.toOption = some () ∧ run.2.remote.contentOf audit = none := by
  decide +kernel

end Passhrs
