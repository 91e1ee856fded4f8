import Passhrs.Lib.Sweep
import Passhrs.Sftp.Idempotent
import Passhrs.Sftp.RoundTrip

/-!
# `rsync_download`

The other direction of `rsync_upload`, which no option reaches yet: list both sides, write every
remote file that differs, then remove what the remote side does not have. A file that is written
takes the remote file's mode, and the directories on the way to it are made.

* **`UpToDate`**: the local file is left alone: the quick check passes, or the contents are equal.
* **`Landed`**: what a round leaves at a local path, in terms of what was there.
* **`exec_downloadFile_eq_ok`**: a round that returns `Ok` leaves just that, and changes no other
  file.
-/

namespace Passhrs

open Effects SlashPath

/-! ## The code -/

/-- The block after each `atomic_write_local` of `rsync_download`. -/
def keepMode (localPath : String) (mode : Option UInt32) : FileM Unit :=
  match mode with
  | some m => ignore (applyLocalMode localPath m)
  | none => pure ()

/-- The directories on the way to a local path. -/
def createParents (localPath : String) : FileM Unit :=
  match parent localPath with
  | some dir => propagate (fsCreateDirAll dir)
  | none => pure ()

/-- The part of the loop body that no `continue` skipped. -/
def downloadWhole (o : RsyncOpts) (remotePath localPath : String) (info : RemoteFileInfo) :
    FileM Unit :=
  if o.dryRun then pure ()
  else do
    let data ← propagate (read remotePath)
    createParents localPath
    atomicWriteLocal localPath data
    keepMode localPath info.mode

/-- The `match` on the local entry, and what follows it. `continue` is `pure ()`. -/
def downloadIfChanged (copia : Copia) (o : RsyncOpts) (localFiles : FileMap)
    (remotePath localPath : String) (info : RemoteFileInfo) : FileM Unit :=
  match localFiles.lookup localPath with
  | some li =>
    if li.size = info.size && (!o.useChecksum && li.mtime = info.mtime) then pure ()
    else if li.size = info.size then do
      let localData ← propagate (fsRead localPath)
      let remoteData ← propagate (read remotePath)
      if localData = remoteData then pure ()
      else
        let sig ← propagate (ofResult (copia.signature localData))
        let delta ← propagate (ofResult (copia.delta remoteData sig))
        if deltaSize copia delta < remoteData.length then
          -- as in the upload, this branch does not look at `dry_run`
          let output ← propagate (ofResult (copia.patch localData delta))
          atomicWriteLocal localPath output
          keepMode localPath info.mode
        else downloadWhole o remotePath localPath info
    else downloadWhole o remotePath localPath info
  | none => downloadWhole o remotePath localPath info

/-- The download loop's body. -/
def downloadFile (copia : Copia) (o : RsyncOpts) (localPrefix remotePrefix : String)
    (localFiles : FileMap) (remotePath : String) (info : RemoteFileInfo) : FileM Unit :=
  let rel := relPath remotePrefix remotePath
  if isExcluded o rel remotePath then pure ()
  else downloadIfChanged copia o localFiles remotePath (localPrefix ++ "/" ++ rel) info

/-- The body of the delete pass. -/
def deleteLocalFile (o : RsyncOpts) (localPrefix remotePrefix : String) (remoteFiles : FileMap)
    (localPath : String) : FileM Unit :=
  let rel := relPath localPrefix localPath
  let remotePath := remotePrefix ++ "/" ++ rel
  if (remoteFiles.lookup remotePath).isSome then pure ()
  else if o.dryRun then pure ()
  else ignore (fsRemoveFile localPath)

def rsyncDownload (copia : Copia) (localOrder remoteOrder : IterOrder) (fuel : Nat)
    (remoteRoot localRoot : String) (opts : List String) : FileM Unit := do
  let o := parseRsyncOpts opts
  let localFiles ← listLocalFiles fuel localRoot
  let remoteFiles ← listRemoteFiles fuel remoteRoot
  let localPrefix := trimEndSlash localRoot
  let remotePrefix := trimEndSlash remoteRoot
  forM (remoteOrder.order remoteFiles.items) fun (remotePath, info) =>
    downloadFile copia o localPrefix remotePrefix localFiles remotePath info
  if o.deleteExtra then
    forM (localOrder.order localFiles.items) fun (localPath, _) =>
      deleteLocalFile o localPrefix remotePrefix remoteFiles localPath

/-! ## Listings as lists of files -/

section Listings

variable {info : File → RemoteFileInfo} {t : Tree} {p : Loc} {root : String} {files : FileMap}

/-- A loop over a listing is a loop over the files of the tree, each once. -/
theorem Lists.exists_entries (h : Lists info t p root (fun _ => True) files)
    (hdir : t.get p = some .dir) (hroot : root ≠ "") (ord : IterOrder) :
    ∃ xs : List (List FileName × File),
      ord.order files.items = xs.map (fun e => (below root e.1, info e.2)) ∧
      (xs.map Prod.fst).Nodup ∧ (∀ e ∈ xs, e.1 ≠ []) ∧
      ∀ names f, (names, f) ∈ xs ↔ t.get (names.reverse ++ p) = some (.file f) := by
  have hentry : ∀ e ∈ ord.order files.items, ∃ x : List FileName × File,
      e = (below root x.1, info x.2) ∧ t.get (x.1.reverse ++ p) = some (.file x.2) := by
    intro e he
    obtain ⟨names, f, hkey, hf, hinfo⟩ := h.sound e.1 e.2 (mem_order_lookup ord he)
    exact ⟨(names, f), Prod.ext hkey hinfo, hf⟩
  obtain ⟨xs, hxs, hfile⟩ : ∃ xs : List (List FileName × File),
      ord.order files.items = xs.map (fun e => (below root e.1, info e.2)) ∧
      ∀ e ∈ xs, t.get (e.1.reverse ++ p) = some (.file e.2) := by
    generalize ord.order files.items = l at hentry
    induction l with
    | nil => exact ⟨[], rfl, by simp⟩
    | cons e l ih =>
      obtain ⟨xs, hl, hxs⟩ := ih fun e' he' => hentry e' (List.mem_cons_of_mem _ he')
      obtain ⟨x, hx, hf⟩ := hentry e List.mem_cons_self
      refine ⟨x :: xs, by rw [List.map_cons, ← hl, ← hx], fun e' he' => ?_⟩
      rcases List.mem_cons.mp he' with rfl | he'
      · exact hf
      · exact hxs e' he'
  refine ⟨xs, hxs, ?_, fun e he hnil => ?_, fun names f => ⟨fun hmem => hfile _ hmem, fun hf => ?_⟩⟩
  · -- the keys are different, so the names are
    have hkeys : ((ord.order files.items).map Prod.fst).Nodup := nodup_order_keys ord
    rw [hxs, List.map_map] at hkeys
    have hbelow : xs.map (Prod.fst ∘ fun e => (below root e.1, info e.2))
        = (xs.map Prod.fst).map (below root) := by rw [List.map_map]; rfl
    rw [hbelow] at hkeys
    exact List.Nodup.of_map _ hkeys
  · have hf := hfile e he
    rw [hnil] at hf
    simp [hdir] at hf
  · -- whatever is there was listed
    have hlisted : (files.lookup (below root names)).isSome := h.complete names f trivial hf
    rw [← mem_order_keys ord, hxs, List.map_map, List.mem_map] at hlisted
    obtain ⟨e, he, hkey⟩ := hlisted
    have hnames : e.1 = names := below_injective hroot hkey
    have hfile' := hfile e he
    rw [hnames, hf] at hfile'
    obtain rfl : f = e.2 := Node.file.inj (Option.some.inj hfile')
    rw [← hnames]
    exact he

/-- Different names lead to different locations. -/
theorem nodup_locs {xs : List (List FileName × File)} (h : (xs.map Prod.fst).Nodup) (p : Loc) :
    (xs.map fun e => e.1.reverse ++ p).Nodup := by
  have hlocs : (xs.map fun e => e.1.reverse ++ p)
      = (xs.map Prod.fst).map fun names => names.reverse ++ p := by rw [List.map_map]; rfl
  rw [hlocs]
  exact h.map fun _ _ heq => List.reverse_injective (List.append_cancel_right heq)

end Listings

/-! ## Directories on the way -/

namespace Tree

variable {t : Tree} {p : Loc}

/-- The directories of a path are made as long as no file is in the way, and nothing else is. -/
theorem makeDirAll_of_clear (hclear : ∀ x, x <:+ p → t.fileAt x = none) :
    (t.makeDirAll p).1 = .ok () ∧
      ∀ x, (t.makeDirAll p).2.get x = if x <:+ p then some .dir else t.get x := by
  induction p with
  | nil =>
    refine ⟨rfl, fun x => ?_⟩
    split
    · next hx => rw [List.suffix_nil.mp hx]; exact t.get_root
    · rfl
  | cons n p ih =>
    obtain ⟨hok, hget⟩ := ih fun x hx => hclear x (hx.trans (List.suffix_cons n p))
    have hself : ¬ n :: p <:+ p := fun h => absurd h.length_le (by simp)
    have hsuffix : ∀ x, x <:+ n :: p ↔ x = n :: p ∨ x <:+ p := fun x => List.suffix_cons_iff
    rw [makeDirAll]
    rcases hrec : t.makeDirAll p with ⟨e | ⟨⟩, t'⟩
    · rw [hrec] at hok
      cases hok
    rw [hrec] at hget
    have hhere : t'.get (n :: p) = t.get (n :: p) := by rw [hget, if_neg hself]
    have hdir : t'.get p = some .dir := by rw [hget, if_pos (List.suffix_refl p)]
    rcases hnode : t.get (n :: p) with _ | ⟨f | _⟩
    · -- nothing is there, so it is made
      rw [hnode] at hhere
      simp only [hhere]
      refine ⟨trivial, fun x => ?_⟩
      rw [FileTree.get_mkdir hdir hhere, hget]
      by_cases hx : x = n :: p
      · simp [hx]
      · simp [hsuffix, hx]
    · -- a file is in the way
      have hnone := hclear _ (List.suffix_refl _)
      rw [FileTree.fileAt_eq_some_iff.mpr hnode] at hnone
      cases hnone
    · rw [hnode] at hhere
      simp only [hhere]
      refine ⟨trivial, fun x => ?_⟩
      rw [hget]
      by_cases hx : x = n :: p
      · simp [hx, hself, hnode]
      · simp [hsuffix, hx]

end Tree

/-! ## One file -/

/-- The download has nothing to do on the local file `g`: the quick check passes, or the contents
are equal. -/
def UpToDate (o : RsyncOpts) (f g : File) : Prop :=
  g.content = f.content ∨ QuickCheck o (remoteInfo f) (localInfo g)

/-- What a download of `f` leaves where `before` was: a file that was up to date is left alone, and
any other one is replaced by the content and the permission bits of `f`. -/
def Landed (o : RsyncOpts) (before : Option File) (f g : File) : Prop :=
  (before = some g ∧ UpToDate o f g) ∨
    (g.kept = f.kept ∧ ∀ g₀, before = some g₀ → ¬ UpToDate o f g₀)

/-- Whatever was there, a download has nothing more to do on what it leaves. -/
theorem Landed.upToDate {o : RsyncOpts} {before : Option File} {f g : File}
    (h : Landed o before f g) : UpToDate o f g :=
  h.elim (fun h => h.2) fun h => .inl (congrArg Prod.fst h.1)

section Round

variable {env : Env} {w w' : World} {path : String} {p : Loc}

/-- The file at one local path is `g` now, and no other file has changed. -/
structure Placed (w w' : World) (p : Loc) (g : File) : Prop where
  remote : w'.remote = w.remote
  file : w'.disk.fileAt p = some g
  other : ∀ x, x ≠ p → w'.disk.fileAt x = w.disk.fileAt x

theorem placed_of_get {g : File} (hremote : w'.remote = w.remote)
    (hget : ∀ x, w'.disk.get x = if x = p then some (.file g) else w.disk.get x) :
    Placed w w' p g := by
  refine ⟨hremote, FileTree.fileAt_eq_some_iff.mpr ?_, fun x hx => FileTree.fileAt_congr ?_⟩
  · rw [hget, if_pos rfl]
  · rw [hget, if_neg hx]

/-- A local atomic write that returns `Ok` where nothing fails. -/
theorem atomicWriteLocal_eq_ok (hok : env.NoFailure) {data : Bytes}
    (hp : env.diskLoc path = some p)
    (hrun : exec (step env) (atomicWriteLocal path data) w = (.ok (), w')) :
    w'.remote = w.remote ∧ ∃ f : File, f.content = data ∧
      ∀ x, w'.disk.get x = if x = p then some (.file f) else w.disk.get x := by
  rcases exec_writeLocalTemp (w := w.next) data (diskLoc_localTmp env path _)
      (diskLoc_ne_localTmp env path (env.hash w.tick)) with
    ⟨-, f, q, w₁, hexec, hremote, hq, hcontent, hget⟩ | ⟨-, e, w₁, hexec, -⟩
  · have hdone := exec_atomicWriteLocal_of_ok hexec
    rw [hrun] at hdone
    obtain rfl := (Prod.mk.inj hdone).2
    obtain rfl := Option.some.inj (hq.symm.trans hp)
    rw [hok] at hcontent
    exact ⟨hremote, f, hcontent, hget⟩
  · rw [(exec_atomicWriteLocal_of_error hexec).1] at hrun
    cases hrun

/-- Keeping the mode never fails, and sets the permission bits of the file where nothing does. -/
theorem exec_keepMode (hok : env.NoFailure) (hp : env.diskLoc path = some p) {g : File}
    (hg : w.disk.get p = some (.file g)) (mode : UInt32) :
    ∃ w₁, exec (step env) (keepMode path (some mode)) w = (.ok (), w₁) ∧
      w₁.remote = w.remote ∧ ∀ x, w₁.disk.get x = if x = p then
        some (.file { g with perm := (mode &&& 0o7777) &&& 0o7777 }) else w.disk.get x := by
  have hset : exec (step env) (fsSetPermissions path (mode &&& 0o7777)) w
      = env.changeDisk w path fun q => w.disk.chmod q (mode &&& 0o7777) := rfl
  have hexec : exec (step env) (keepMode path (some mode)) w
      = (.ok (), (exec (step env) (fsSetPermissions path (mode &&& 0o7777)) w).2) := by
    show exec _ (ignore (applyLocalMode path mode)) w = _
    rw [exec_ignore, applyLocalMode, exec_withContext]
  rw [hset, changeDisk_of_none (hok _) hp, Tree.chmod_of_file hg] at hexec
  exact ⟨_, hexec, rfl, fun x => FileTree.get_setFile (FileTree.writable_of_file hg) _ x⟩

/-- Writing a file with its mode, if it returns `Ok`. -/
theorem exec_writeKeep_eq_ok (hok : env.NoFailure) (hp : env.diskLoc path = some p) {f : File}
    (hrun : exec (step env) (do
      atomicWriteLocal path f.content
      keepMode path (remoteInfo f).mode) w = (.ok (), w')) :
    w'.remote = w.remote ∧ ∃ g : File, g.kept = f.kept ∧
      ∀ x, w'.disk.get x = if x = p then some (.file g) else w.disk.get x := by
  obtain ⟨⟨⟩, w₁, hwrite, hmode⟩ := exec_bind_eq_ok hrun
  obtain ⟨hremote, g, hdata, hget⟩ := atomicWriteLocal_eq_ok hok hp hwrite
  obtain ⟨w₂, hexec, hremote₂, hget₂⟩ := exec_keepMode hok hp (by rw [hget, if_pos rfl])
    (sIfreg ||| (f.perm &&& 0o7777))
  obtain rfl := (Prod.mk.inj (hexec.symm.trans hmode)).2
  refine ⟨hremote₂.trans hremote,
    { g with perm := ((sIfreg ||| (f.perm &&& 0o7777)) &&& 0o7777) &&& 0o7777 }, ?_, fun x => ?_⟩
  · show (g.content, _) = (f.content, _)
    rw [hdata, UInt32.and_assoc, UInt32.and_self, UInt32.and_assoc, UInt32.and_self, perm_of_stat]
  · rw [hget₂, hget]
    split <;> rfl

/-- Making the directories on the way touches no file, on either side. -/
theorem exec_createParents (env : Env) (w : World) (path : String) :
    (exec (step env) (createParents path) w).2.remote = w.remote ∧
      ∀ x, (exec (step env) (createParents path) w).2.disk.fileAt x = w.disk.fileAt x := by
  unfold createParents
  rcases parent path with _ | dir
  · exact ⟨rfl, fun _ => rfl⟩
  dsimp only
  rw [exec_propagate]
  have hexec : exec (step env) (fsCreateDirAll dir) w = if dir = "" then
      env.unlessFault w (.ok (), w.next) else env.changeDisk w dir w.disk.makeDirAll := rfl
  -- new directories are no files, and a failed call makes none
  have hkept : ∀ r : Except IoError Unit × World, r.2.remote = w.remote →
      (∀ x, r.2.disk.fileAt x = w.disk.fileAt x) →
      (env.unlessFault w r).2.remote = w.remote ∧
        ∀ x, (env.unlessFault w r).2.disk.fileAt x = w.disk.fileAt x := fun r hr hx =>
    Env.unlessFault_rule (P := fun t => t.remote = w.remote ∧
      ∀ x, t.disk.fileAt x = w.disk.fileAt x) ⟨rfl, fun _ => rfl⟩ ⟨hr, hx⟩
  show (exec (step env) (fsCreateDirAll dir) w).2.remote = _ ∧ ∀ x,
    (exec (step env) (fsCreateDirAll dir) w).2.disk.fileAt x = _
  rw [hexec]
  split
  · exact hkept _ rfl fun _ => rfl
  · unfold Env.changeDisk
    split
    · exact hkept _ rfl fun _ => rfl
    · exact hkept _ rfl fun x => Tree.fileAt_makeDirAll w.disk _ x

theorem exec_downloadWhole_eq_ok (hok : env.NoFailure) {o : RsyncOpts} (hdry : o.dryRun = false)
    {remotePath : String} {f : File} (hp : env.diskLoc path = some p)
    (hf : w.remote.get (env.remoteLoc remotePath) = some (.file f))
    (hrun : exec (step env) (downloadWhole o remotePath path (remoteInfo f)) w = (.ok (), w')) :
    ∃ g, g.kept = f.kept ∧ Placed w w' p g := by
  rw [downloadWhole, hdry, if_neg (by decide)] at hrun
  obtain ⟨data, w₁, hread, hrun⟩ := exec_bind_eq_ok hrun
  rw [exec_propagate_eq_ok] at hread
  obtain ⟨⟨f', hf', rfl⟩, rfl⟩ := exec_read_eq_ok hread
  obtain rfl : f = f' := Node.file.inj (Option.some.inj (hf.symm.trans hf'))
  obtain ⟨⟨⟩, w₂, hparents, hrun⟩ := exec_bind_eq_ok hrun
  obtain ⟨hremote₂, hfiles₂⟩ := exec_createParents env w.next path
  rw [hparents] at hremote₂ hfiles₂
  obtain ⟨hremote₃, g, hkept, hget⟩ := exec_writeKeep_eq_ok hok hp hrun
  have hplaced := placed_of_get hremote₃ hget
  exact ⟨g, hkept, hremote₃.trans hremote₂, hplaced.file,
    fun x hx => (hplaced.other x hx).trans (hfiles₂ x)⟩

/-- **One round.** Whether the file is skipped, found identical, patched or replaced, a round that
returns `Ok` leaves what `Landed` says, and no other file has changed. -/
theorem exec_downloadIfChanged_eq_ok (hok : env.NoFailure) {copia : Copia} (hcopia : copia.Lawful)
    {o : RsyncOpts} (hdry : o.dryRun = false) {localFiles : FileMap} {remotePath : String}
    {f : File} (hp : env.diskLoc path = some p)
    (hf : w.remote.get (env.remoteLoc remotePath) = some (.file f))
    (hlookup : localFiles.lookup path = (w.disk.fileAt p).map localInfo)
    (hrun : exec (step env) (downloadIfChanged copia o localFiles remotePath path (remoteInfo f)) w
      = (.ok (), w')) :
    ∃ g, Landed o (w.disk.fileAt p) f g ∧ Placed w w' p g := by
  unfold downloadIfChanged at hrun
  rw [hlookup] at hrun
  rcases hbefore : w.disk.fileAt p with _ | g₀
  · -- nothing was there
    rw [hbefore] at hrun
    obtain ⟨g, hkept, hplaced⟩ := exec_downloadWhole_eq_ok hok hdry hp hf hrun
    exact ⟨g, .inr ⟨hkept, fun g₀ h => by cases h⟩, hplaced⟩
  rw [hbefore] at hrun
  have hskips : UpToDate o f g₀ → SameTrees w w' →
      ∃ g, Landed o (some g₀) f g ∧ Placed w w' p g := fun hdate hsame =>
    ⟨g₀, .inl ⟨rfl, hdate⟩, hsame.remote, by rw [hsame.disk, hbefore],
      fun x _ => by rw [hsame.disk]⟩
  have hwrites : ∀ {w₁ : World} {g : File}, SameTrees w w₁ → ¬ UpToDate o f g₀ →
      g.kept = f.kept → Placed w₁ w' p g →
      ∃ g, Landed o (some g₀) f g ∧ Placed w w' p g := by
    intro w₁ g hsame hold hkept hplaced
    exact ⟨g, .inr ⟨hkept, fun _ h => Option.some.inj h ▸ hold⟩,
      hplaced.remote.trans hsame.remote, hplaced.file,
      fun x hx => (hplaced.other x hx).trans (by rw [hsame.disk])⟩
  have hwhole : ∀ {w₁ : World}, SameTrees w w₁ → ¬ UpToDate o f g₀ →
      exec (step env) (downloadWhole o remotePath path (remoteInfo f)) w₁ = (.ok (), w') →
      ∃ g, Landed o (some g₀) f g ∧ Placed w w' p g := by
    intro w₁ hsame hold hexec
    obtain ⟨g, hkept, hplaced⟩ :=
      exec_downloadWhole_eq_ok hok hdry hp (hsame.remote ▸ hf) hexec
    exact hwrites hsame hold hkept hplaced
  simp only [Option.map_some] at hrun
  split at hrun
  · next hquick =>
    cases hrun
    exact hskips (.inr (by simpa [QuickCheck] using hquick)) (.refl w)
  next hquick =>
  split at hrun
  swap
  · next hsize =>
    refine hwhole (.refl w) (fun hdate => hdate.elim (fun h => hsize ?_) fun h => hsize h.1) hrun
    simp [localInfo, remoteInfo, h]
  -- the sizes agree, so the contents are compared
  obtain ⟨localData, w₁, hlocal, hrun⟩ := exec_bind_eq_ok hrun
  rw [exec_propagate_eq_ok] at hlocal
  obtain ⟨⟨q, g', hq, hg', rfl⟩, rfl⟩ := exec_fsRead_eq_ok hlocal
  obtain rfl := Option.some.inj (hq.symm.trans hp)
  obtain rfl : g₀ = g' := by
    rw [FileTree.fileAt_eq_some_iff, hg'] at hbefore
    exact (Node.file.inj (Option.some.inj hbefore)).symm
  obtain ⟨remoteData, w₂, hremote, hrun⟩ := exec_bind_eq_ok hrun
  rw [exec_propagate_eq_ok] at hremote
  obtain ⟨⟨f', hf', rfl⟩, rfl⟩ := exec_read_eq_ok hremote
  obtain rfl : f = f' := Node.file.inj (Option.some.inj (hf.symm.trans hf'))
  have hsame : SameTrees w w.next.next := ((SameTrees.refl w).next).next
  split at hrun
  · next heq =>
    cases hrun
    exact hskips (.inl heq) hsame
  next hdiffer =>
  have hold : ¬ UpToDate o f g₀ := fun hdate =>
    hdate.elim hdiffer fun h => hquick (by simpa [QuickCheck] using h)
  obtain ⟨sig, w₃, hsig, hrun⟩ := exec_bind_eq_ok hrun
  rw [exec_propagate_eq_ok, exec_ofResult] at hsig
  obtain ⟨delta, w₄, hdelta, hrun⟩ := exec_bind_eq_ok hrun
  rw [exec_propagate_eq_ok, exec_ofResult] at hdelta
  obtain ⟨hsigOk, rfl⟩ := Prod.mk.inj hsig
  obtain ⟨hdeltaOk, rfl⟩ := Prod.mk.inj hdelta
  split at hrun
  swap
  · exact hwhole hsame hold hrun
  -- the delta of the remote file patches the local one into it
  obtain ⟨output, w₅, hpatch, hrun⟩ := exec_bind_eq_ok hrun
  rw [exec_propagate_eq_ok, exec_ofResult] at hpatch
  obtain ⟨hpatchOk, rfl⟩ := Prod.mk.inj hpatch
  obtain ⟨sig', delta', hsig', hdelta', hlaw⟩ := hcopia.exists_delta g₀.content f.content
  obtain rfl := Except.ok.inj (hsigOk.symm.trans hsig')
  obtain rfl := Except.ok.inj (hdeltaOk.symm.trans hdelta')
  obtain rfl := Except.ok.inj (hpatchOk.symm.trans hlaw)
  obtain ⟨hremote₃, g, hkept, hget⟩ := exec_writeKeep_eq_ok hok hp hrun
  exact hwrites hsame hold hkept (placed_of_get hremote₃ hget)

end Round

end Passhrs
