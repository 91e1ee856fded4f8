import Passhrs.Sftp.Rsync

/-!
# What an upload leaves behind

Whole runs of `rsync_upload` in which no operation fails.

* **`rsyncUpload_mirrors`**: with `checksum`, a run that returns `Ok` has made the remote files
  the local ones, for every pair of trees and every iteration order.
* **`rsyncUpload_ok_iff_flat`**: into an empty directory, a run returns `Ok` with everything
  there exactly when no local file is in a subdirectory.
-/

namespace Passhrs

open Effects SlashPath

/-! ## Small trees -/

/-- The directory `/dir` with one file, in its subdirectory `sub`. -/
def Tree.nested (dir sub file : FileName) (content : Bytes) : Tree :=
  (FileTree.mkdir (Tree.dirWith dir []) [sub, dir]).setFile [file, sub, dir]
    ⟨content, 0o644, 0, 0⟩

theorem get_eq_none_of_children {t : Tree} {p : Loc} (h : t.children p = []) (n : FileName) :
    t.get (n :: p) = none := by
  by_contra hn
  have hmem := FileTree.mem_children.mpr hn
  rw [h] at hmem
  cases hmem

/-! ## What `Ok` means -/

section Runs

variable {env : Env} {copia : Copia} {localOrder remoteOrder : IterOrder} {fuel : Nat}
  {localRoot remoteRoot : String} {opts : List String} {w w' : World}

/-- What a run that returns `Ok` went through, up to the two loops. -/
theorem rsyncUpload_eq_ok (hremote : remoteRoot ≠ "")
    (hrun : exec (step env) (rsyncUpload copia localOrder remoteOrder fuel localRoot remoteRoot
      opts) w = (.ok (), w')) :
    ∃ p localFiles remoteFiles w₁ w₂, env.diskLoc localRoot = some p ∧
      w.disk.get p = some .dir ∧ w₁.disk = w.disk ∧
      w₁.remote = (exec (step env) (createDir remoteRoot) w).2.remote ∧
      Lists localInfo w₁.disk p localRoot (fun _ => True) localFiles ∧
      Lists remoteInfo w₁.remote (env.remoteLoc remoteRoot) remoteRoot (fun _ => True)
        remoteFiles ∧
      w₁.remote.get (env.remoteLoc remoteRoot) = some .dir ∧
      exec (step env) (forM (localOrder.order localFiles.items) fun (localPath, info) =>
        uploadFile copia (parseRsyncOpts opts) (trimEndSlash localRoot) (trimEndSlash remoteRoot)
          remoteFiles localPath info) w₁ = (.ok (), w₂) ∧
      if (parseRsyncOpts opts).deleteExtra then
        exec (step env) (forM (remoteOrder.order remoteFiles.items) fun (remotePath, _) =>
          deleteFile (parseRsyncOpts opts) (trimEndSlash localRoot) (trimEndSlash remoteRoot)
            localFiles remotePath) w₂ = (.ok (), w')
      else w' = w₂ := by
  rw [rsyncUpload, exec_ignore_bind] at hrun
  obtain ⟨hdisk₀, -, -⟩ := exec_createDir env w remoteRoot
  set w₀ := (exec (step env) (createDir remoteRoot) w).2
  obtain ⟨localFiles, w₁, hlocal, hrun⟩ := exec_bind_eq_ok hrun
  obtain ⟨remoteFiles, w₂, hlist, hrun⟩ := exec_bind_eq_ok hrun
  obtain ⟨_, w₃, huploads, hrun⟩ := exec_bind_eq_ok hrun
  obtain ⟨p, hp, hdir, hsame, hlists⟩ := listLocalFiles_lists hlocal
  obtain ⟨hsame', hrdir, hrlists⟩ := listRemoteFiles_lists hremote hlist
  -- creating the root leaves the disk alone, and the listings change nothing
  refine ⟨p, localFiles, remoteFiles, w₂, w₃, hp, hdisk₀ ▸ hdir,
    hsame'.disk.trans (hsame.disk.trans hdisk₀), hsame'.remote.trans hsame.remote, ?_, ?_, ?_,
    huploads, ?_⟩
  · rw [hsame'.disk, hsame.disk]
    exact hlists
  · rw [hsame'.remote]
    exact hrlists
  · rw [hsame'.remote]
    exact hrdir
  · split at hrun
    · next hdelete =>
      rw [if_pos hdelete]
      exact hrun
    · next hdelete =>
      rw [if_neg hdelete]
      cases hrun
      rfl

/-- Every local file is on the server with its content. -/
def AllSent (env : Env) (w w' : World) (p : Loc) (remoteRoot : String) : Prop :=
  ∀ (names : List FileName) f, w.disk.get (names.reverse ++ p) = some (.file f) →
    ∃ g : File, g.content = f.content ∧
      w'.remote.get (names.reverse ++ env.remoteLoc remoteRoot) = some (.file g)

/-- **With `checksum`, `Ok` means mirrored.** Every local file is on the server with its content.
Everywhere else the server's files are as they were, except that `delete` leaves no other file
below the remote root. -/
theorem rsyncUpload_mirrors (hok : env.NoFailure) (hcopia : copia.Lawful)
    (hremote : remoteRoot ≠ "") (hchecksum : "checksum" ∈ opts)
    (hdry : "dry-run" ∉ opts ∧ "dry_run" ∉ opts)
    (hexcludes : ∀ pat, "exclude=" ++ pat ∉ opts)
    (hrun : exec (step env) (rsyncUpload copia localOrder remoteOrder fuel localRoot remoteRoot
      opts) w = (.ok (), w')) :
    ∃ p, env.diskLoc localRoot = some p ∧
      AllSent env w w' p remoteRoot ∧
      ∀ x, (∀ names : List FileName, (w.disk.fileAt (names.reverse ++ p)).isSome →
          x ≠ names.reverse ++ env.remoteLoc remoteRoot) →
        w'.remote.fileAt x =
          if "delete" ∈ opts ∧ env.remoteLoc remoteRoot <:+ x then none
          else w.remote.fileAt x := by
  obtain ⟨p, localFiles, remoteFiles, w₁, w₂, hp, hdir, hdisk, hremote₁, hlists, hrlists, hrdir,
    huploads, hdeletes⟩ := rsyncUpload_eq_ok hremote hrun
  have hroot : localRoot ≠ "" := Env.ne_empty_of_diskLoc hp
  have hopts := parseRsyncOpts_eq opts
  have hdryRun : (parseRsyncOpts opts).dryRun = false := by simp [hopts, hdry]
  have hnoExcludes := parseRsyncOpts_excludes_eq_nil hexcludes
  have hfiles : ∀ x, w₁.remote.fileAt x = w.remote.fileAt x := by
    rw [hremote₁]
    exact (exec_createDir env w remoteRoot).2.1
  unfold AllSent
  rw [← hdisk] at hdir ⊢
  obtain ⟨hdisk₂, hsent, hother⟩ := uploadPass_eq_ok hok localOrder hremote hp hdir hlists hdryRun
    hnoExcludes (.inl ⟨by simp [hopts, hchecksum], hcopia⟩) huploads
  obtain ⟨-, hgone, hother₃⟩ := deletePass_eq_ok remoteOrder hok hremote hroot hdryRun hrdir hlists
    hrlists hdeletes
  have hkept : ∀ x, (∀ names : List FileName, (w₁.disk.fileAt (names.reverse ++ p)).isSome →
      x ≠ names.reverse ++ env.remoteLoc remoteRoot) → w₂.remote.fileAt x = w.remote.fileAt x :=
    fun x hx => (FileTree.fileAt_congr (hother x hx)).trans (hfiles x)
  have hdelete : (parseRsyncOpts opts).deleteExtra = true ↔ "delete" ∈ opts := by simp [hopts]
  refine ⟨p, hp, fun names f hf => ?_, fun x hx => ?_⟩
  · -- a file of the local side is not deleted
    obtain ⟨g, hdata, hg⟩ := hsent names f hf
    refine ⟨g, hdata, ?_⟩
    rw [hother₃ _ fun _ names' _ hnone heq => ?_, hg]
    obtain rfl := List.reverse_injective (List.append_cancel_right heq)
    rw [FileTree.fileAt_eq_some_iff.mpr hf] at hnone
    cases hnone
  by_cases hbelow : "delete" ∈ opts ∧ env.remoteLoc remoteRoot <:+ x
  · rw [if_pos hbelow]
    obtain ⟨hdel, ns, rfl⟩ := hbelow
    have hlocal : w₁.disk.fileAt (ns.reverse.reverse ++ p) = none := by
      rw [← Option.not_isSome_iff_eq_none]
      exact fun h => hx _ h (by simp)
    by_cases hfile : (w₁.remote.fileAt (ns ++ env.remoteLoc remoteRoot)).isSome
    · -- it was listed
      have hgone := hgone (hdelete.mpr hdel) ns.reverse (by simpa using hfile) hlocal
      simpa using hgone
    · -- nothing was there
      rw [FileTree.fileAt_congr (hother₃ _ fun _ names' hlist _ heq => ?_), hkept _ hx, ← hfiles]
      · simpa using hfile
      · exact hfile (heq ▸ hlist)
  · rw [if_neg hbelow, FileTree.fileAt_congr (hother₃ _ fun hdel names' _ _ heq => ?_), hkept x hx]
    exact hbelow ⟨hdelete.mp hdel, heq ▸ List.suffix_append _ _⟩

theorem rsyncUpload_mirrors_one_file :
    let env := Env.reliable
    let w := World.start (Tree.dirWith ⟨"r", by decide⟩ [(⟨"a", by decide⟩, [1]),
      (⟨"b", by decide⟩, [3])]) (Tree.dirWith ⟨"l", by decide⟩ [(⟨"a", by decide⟩, [1, 2])])
    let w' := (exec (step env) (rsyncUpload .prefixOnly .asListed .asListed 3 "/l" "/r/"
      ["checksum", "delete"]) w).2
    ∃ p, env.diskLoc "/l" = some p ∧ AllSent env w w' p "/r/" ∧
      ∀ x, (∀ names : List FileName, (w.disk.fileAt (names.reverse ++ p)).isSome →
          x ≠ names.reverse ++ env.remoteLoc "/r/") →
        w'.remote.fileAt x =
          if "delete" ∈ ["checksum", "delete"] ∧ env.remoteLoc "/r/" <:+ x then none
          else w.remote.fileAt x :=
  rsyncUpload_mirrors (fun _ => rfl) Copia.prefixOnly_lawful (by decide) (by decide)
    (by decide) (exclude_not_mem (by decide)) (exec_eq_ok_of_isOk (by decide +kernel))

/-! ## Into an empty directory -/

/-- No entry of the directory looks like a temp file of this run. -/
def FreshSuffixes (env : Env) (t : Tree) (p : Loc) : Prop :=
  ∀ k (n : FileName) base, t.get (n :: p) ≠ none →
    n.str ≠ base ++ ".tmp." ++ tmpSuffix (env.hash k)

theorem freshSuffixes_of_short {env : Env} {t : Tree} {p : Loc}
    (h : ∀ n ∈ t.children p, n.str.length < 11) : FreshSuffixes env t p := by
  rintro k n base hn hname
  have hshort := h n (FileTree.mem_children.mpr hn)
  have hlen := congrArg String.length hname
  rw [String.append_assoc, String.length_append, length_tmpSuffix] at hlen
  omega

theorem get_below_empty {t : Tree} {q : Loc} (hempty : ∀ n, t.get (n :: q) = none)
    {names : List FileName} (hne : names ≠ []) : t.get (names.reverse ++ q) = none := by
  obtain ⟨n, rest, rfl⟩ := List.exists_cons_of_ne_nil hne
  rw [List.reverse_cons, List.append_assoc]
  by_cases hrest : rest = []
  · simpa [hrest] using hempty n
  · exact FileTree.get_append_eq_none (p := n :: q) (by simp [hempty])
      (List.reverse_ne_nil_iff.mpr hrest)

theorem deleteFile_ok (env : Env) (o : RsyncOpts) (localPrefix remotePrefix : String)
    (localFiles : FileMap) (remotePath : String) (w : World) :
    ∃ w', exec (step env) (deleteFile o localPrefix remotePrefix localFiles remotePath) w
      = (.ok (), w') := by
  unfold deleteFile
  dsimp only
  split
  · exact ⟨w, rfl⟩
  · split
    · exact ⟨w, rfl⟩
    · exact ⟨_, exec_ignore _ _ _⟩

/-- Sending a file into a directory that exists succeeds: neither its temp name nor its own name
is in the way. -/
theorem uploadWhole_ok (hok : env.NoFailure) {o : RsyncOpts} (hdry : o.dryRun = false)
    (hremote : remoteRoot ≠ "") {p : Loc} {n : FileName} {f : File} (info : RemoteFileInfo)
    (hp : env.diskLoc localRoot = some p) (hfile : w.disk.get (n :: p) = some (.file f))
    (hrdir : w.remote.get (env.remoteLoc remoteRoot) = some .dir)
    (htarget : w.remote.get (n :: env.remoteLoc remoteRoot) ≠ some .dir)
    (hfresh : ∀ (n' : FileName) k, n'.str = n.str ++ ".tmp." ++ tmpSuffix (env.hash k) →
      w.remote.get (n' :: env.remoteLoc remoteRoot) = none) :
    ∃ w', exec (step env) (uploadWhole o (below localRoot [n]) (below remoteRoot [n]) info) w
      = (.ok (), w') := by
  -- the temp name is free, and no directory is in the target's place
  have hcompletes : Completes env w.next (below remoteRoot [n]) := by
    refine completes_below hok hremote [] n (by simpa using hrdir)
      (by simpa using htarget) ?_
    obtain ⟨n', hn', htmp⟩ := remoteTmp_below env w.next hremote [] n
    rw [List.nil_append] at htmp ⊢
    rw [htmp]
    exact hfresh n' _ hn'
  obtain ⟨w₁, hwrite⟩ := atomicWriteRemote_ok hcompletes f.content
  obtain ⟨-, g, -, hget⟩ := atomicWriteRemote_eq_ok hwrite
  have hf : w₁.remote.get (env.remoteLoc (below remoteRoot [n])) = some (.file g) := by
    rw [hget, if_pos rfl]
  obtain ⟨w₂, perm, hmode, -, -⟩ := exec_preserveMode env info.mode hf
  refine ⟨w₂, ?_⟩
  rw [uploadWhole, hdry, if_neg (by decide), exec_bind_ok (by
    rw [exec_propagate_eq_ok]
    exact exec_fsRead_ok (hok _) (diskLoc_below hp [n]) hfile), exec_bind_ok hwrite, hmode]

/-- What holds at the server between two rounds of a flat upload: the root, and below it files that
the local tree has too. -/
structure FlatRound (env : Env) (remoteRoot : String) (p : Loc) (w s : World) : Prop where
  disk : s.disk = w.disk
  root : s.remote.get (env.remoteLoc remoteRoot) = some .dir
  entries : ∀ n node, s.remote.get (n :: env.remoteLoc remoteRoot) = some node →
    node ≠ .dir ∧ w.disk.get (n :: p) ≠ none

/-- One round of a flat upload succeeds, and adds one file. -/
theorem FlatRound.upload {s : World} {p : Loc} (h : FlatRound env remoteRoot p w s)
    (hok : env.NoFailure) {o : RsyncOpts} (hdry : o.dryRun = false) (hexcludes : o.excludes = [])
    (hremote : remoteRoot ≠ "") (hp : env.diskLoc localRoot = some p)
    (hfresh : FreshSuffixes env w.disk p) {n : FileName} {f : File}
    (hfile : w.disk.get (n :: p) = some (.file f)) {remoteFiles : FileMap}
    (hnone : remoteFiles.lookup (below remoteRoot [n]) = none) :
    ∃ s', exec (step env) (uploadFile copia o (trimEndSlash localRoot) (trimEndSlash remoteRoot)
        remoteFiles (below localRoot [n]) (localInfo f)) s = (.ok (), s') ∧
      FlatRound env remoteRoot p w s' := by
  have hfile' : s.disk.get (n :: p) = some (.file f) := h.disk ▸ hfile
  -- a temp name that is taken would be a local name too
  have hfree : ∀ (n' : FileName) k, n'.str = n.str ++ ".tmp." ++ tmpSuffix (env.hash k) →
      s.remote.get (n' :: env.remoteLoc remoteRoot) = none := by
    intro n' k hn'
    by_contra hne
    obtain ⟨node, hnode⟩ := Option.ne_none_iff_exists'.mp hne
    exact hfresh k n' n.str (h.entries n' node hnode).2 hn'
  obtain ⟨s', hs'⟩ := uploadWhole_ok hok hdry hremote (localInfo f) hp hfile' h.root
    (fun hdir => (h.entries n .dir hdir).1 rfl) hfree
  obtain ⟨hdisk', g, -, hget⟩ := exec_uploadWhole_eq_ok hok hdry
    ⟨List.cons_ne_nil n [], hp, hfile'⟩ hs'
  rw [remoteLoc_below env hremote] at hget
  refine ⟨s', ?_, ⟨hdisk'.trans h.disk, ?_, fun m node hm => ?_⟩⟩
  · rw [uploadFile_below _ _ _ _ _ (List.cons_ne_nil n []),
      if_neg (by simp [isExcluded, hexcludes]), uploadIfChanged, hnone]
    exact hs'
  · rw [hget, if_neg (by simp), h.root]
  · rw [hget] at hm
    split at hm
    · next heq =>
      obtain rfl : m = n := by simpa using heq
      obtain rfl := Option.some.inj hm
      exact ⟨by simp, by simp [hfile]⟩
    · exact h.entries m node hm

/-- Into an empty directory, with files only at the top level, no round of the upload loop fails. -/
theorem uploads_ok (copia : Copia) (localOrder : IterOrder) (hok : env.NoFailure) {o : RsyncOpts}
    (hdry : o.dryRun = false) (hexcludes : o.excludes = []) (hremote : remoteRoot ≠ "") {p : Loc}
    (hp : env.diskLoc localRoot = some p) (hdir : w.disk.get p = some .dir)
    (hrdir : w.remote.get (env.remoteLoc remoteRoot) = some .dir)
    (hempty : ∀ n, w.remote.get (n :: env.remoteLoc remoteRoot) = none)
    (hfresh : FreshSuffixes env w.disk p)
    (hflat : ∀ (names : List FileName) f, w.disk.get (names.reverse ++ p) = some (.file f) →
      names.length ≤ 1)
    {localFiles remoteFiles : FileMap}
    (hlists : Lists localInfo w.disk p localRoot (fun _ => True) localFiles)
    (hnone : ∀ names, names ≠ [] → remoteFiles.lookup (below remoteRoot names) = none) :
    ∃ w', exec (step env) (forM (localOrder.order localFiles.items) fun (localPath, info) =>
      uploadFile copia o (trimEndSlash localRoot) (trimEndSlash remoteRoot) remoteFiles localPath
        info) w = (.ok (), w') := by
  have hloop := exec_forM_ok (h := step env) (s := w) (l := localOrder.order localFiles.items)
    (f := fun (localPath, info) => uploadFile copia o (trimEndSlash localRoot)
      (trimEndSlash remoteRoot) remoteFiles localPath info)
    (I := fun _ s => FlatRound env remoteRoot p w s)
    ?_ ⟨rfl, hrdir, fun n node h => by simp [hempty] at h⟩
  · exact hloop.imp fun _ h => h.1
  · rintro done ⟨key, i⟩ rest s hsplit hround
    obtain ⟨names, f, rfl, rfl, hentry⟩ := hlists.entry hp hdir
      (mem_order_lookup localOrder (e := (key, i)) (hsplit ▸ by simp))
    -- an entry of the listing that is not the root has one name
    obtain ⟨n, rfl⟩ : ∃ n, names = [n] := by
      rw [← List.length_eq_one_iff]
      have hlen := hflat names f hentry.file
      have hpos := List.length_pos_of_ne_nil hentry.ne_nil
      omega
    exact hround.upload hok hdry hexcludes hremote hp hfresh hentry.file
      (hnone _ hentry.ne_nil)

/-- What an upload that empties nothing and finds nothing leaves: all files, and no directory. -/
theorem rsyncUpload_into_empty (hok : env.NoFailure) {p : Loc} (hp : env.diskLoc localRoot = some p)
    (hdir : w.disk.get p = some .dir) (hremote : remoteRoot ≠ "")
    (hrdir : w.remote.get (env.remoteLoc remoteRoot) = some .dir)
    (hempty : ∀ n, w.remote.get (n :: env.remoteLoc remoteRoot) = none)
    (hdry : (parseRsyncOpts opts).dryRun = false) (hexcludes : (parseRsyncOpts opts).excludes = [])
    (hrun : exec (step env) (rsyncUpload copia localOrder remoteOrder fuel localRoot remoteRoot
      opts) w = (.ok (), w')) :
    AllSent env w w' p remoteRoot ∧ ∀ names : List FileName, names ≠ [] →
      w'.remote.get (names.reverse ++ env.remoteLoc remoteRoot) ≠ some .dir := by
  obtain ⟨p', localFiles, remoteFiles, w₁, w₂, hp', -, hdisk, hremote₁, hlists, hrlists, -,
    huploads, hdeletes⟩ := rsyncUpload_eq_ok hremote hrun
  obtain rfl : p' = p := Option.some.inj (hp'.symm.trans hp)
  -- the remote root exists, so the first call changed nothing, and the listing was empty
  rw [(exec_createDir env w remoteRoot).2.2 (by simp [hrdir])] at hremote₁
  have hnone : ∀ names, names ≠ [] → remoteFiles.lookup (below remoteRoot names) = none := by
    intro names hne
    rw [hrlists.lookup_below hremote, Option.map_eq_none_iff, hremote₁]
    simp [FileTree.fileAt, get_below_empty hempty hne]
  obtain ⟨-, huploaded, hother⟩ := uploadPass_eq_ok hok localOrder hremote hp (hdisk ▸ hdir) hlists
    hdry hexcludes (.inr hnone) huploads
  have hlast : ∀ x, w'.remote.get x = w₂.remote.get x := by
    split at hdeletes
    · have hnil : ∀ e ∈ remoteOrder.order remoteFiles.items, False := by
        intro e he
        have hkey := mem_order_lookup remoteOrder he
        obtain ⟨names, f, hbelow, hf, -⟩ := hrlists.sound e.1 e.2 hkey
        by_cases hne : names = []
        · subst hne
          rw [hremote₁] at hf
          simp [hrdir] at hf
        · rw [hbelow, hnone names hne] at hkey
          cases hkey
      rw [List.eq_nil_iff_forall_not_mem.mpr hnil] at hdeletes
      cases hdeletes
      exact fun _ => rfl
    · exact fun _ => by rw [hdeletes]
  refine ⟨fun names f hf => ?_, fun names hne hget => ?_⟩
  · rw [hlast]
    exact huploaded names f (hdisk ▸ hf)
  · by_cases hfile : (w₁.disk.fileAt (names.reverse ++ p')).isSome
    · -- a file was sent there
      obtain ⟨f, hf⟩ := Option.isSome_iff_exists.mp hfile
      obtain ⟨g, -, hg⟩ := huploaded names f (FileTree.fileAt_eq_some_iff.mp hf)
      rw [hlast, hg] at hget
      cases hget
    · rw [hlast, hother _ fun names' hmem heq => ?_, hremote₁, get_below_empty hempty hne] at hget
      · cases hget
      · obtain rfl := List.reverse_injective (List.append_cancel_right heq)
        exact hfile hmem

/-- Into an empty directory, with files only at the top level, a run with enough fuel returns
`Ok`. -/
theorem rsyncUpload_ok_of_flat (copia : Copia) (localOrder remoteOrder : IterOrder)
    (hok : env.NoFailure) {p : Loc}
    (hp : env.diskLoc localRoot = some p) (hdir : w.disk.get p = some .dir)
    (hremote : remoteRoot ≠ "") (hrdir : w.remote.get (env.remoteLoc remoteRoot) = some .dir)
    (hempty : ∀ n, w.remote.get (n :: env.remoteLoc remoteRoot) = none)
    (hdry : (parseRsyncOpts opts).dryRun = false) (hexcludes : (parseRsyncOpts opts).excludes = [])
    (hfresh : FreshSuffixes env w.disk p)
    (hflat : ∀ (names : List FileName) f, w.disk.get (names.reverse ++ p) = some (.file f) →
      names.length ≤ 1) :
    ∃ enough, ∀ fuel, enough ≤ fuel → ∃ w', exec (step env) (rsyncUpload copia localOrder
      remoteOrder fuel localRoot remoteRoot opts) w = (.ok (), w') := by
  obtain ⟨enough, hlistings⟩ := listings_ok hok hp hdir hremote hrdir
  refine ⟨enough, fun fuel hfuel => ?_⟩
  obtain ⟨localFiles, remoteFiles, w₁, w₂, hlocal, hlist, hsame, hlists, hrlists⟩ :=
    hlistings fuel hfuel
  have hnone : ∀ names, names ≠ [] → remoteFiles.lookup (below remoteRoot names) = none := by
    intro names hne
    rw [hrlists.lookup_below hremote, Option.map_eq_none_iff, hsame.remote]
    simp [FileTree.fileAt, get_below_empty hempty hne]
  obtain ⟨w₃, huploads⟩ := uploads_ok copia localOrder hok hdry
    hexcludes hremote hp (hsame.disk ▸ hdir) (hsame.remote ▸ hrdir) (hsame.remote ▸ hempty)
    (hsame.disk ▸ hfresh) (hsame.disk ▸ hflat) hlists hnone
  rw [rsyncUpload, exec_ignore_bind, exec_bind_ok hlocal, exec_bind_ok hlist,
    exec_bind_ok huploads]
  split
  · -- the delete pass passes over its failures
    obtain ⟨w', hrun, -⟩ := exec_forM_ok (h := step env) (s := w₃) (I := fun _ _ => True)
      (l := remoteOrder.order remoteFiles.items)
      (f := fun (remotePath, _) => deleteFile (parseRsyncOpts opts) (trimEndSlash localRoot)
        (trimEndSlash remoteRoot) localFiles remotePath)
      (fun _ e _ s _ _ => (deleteFile_ok env _ _ _ localFiles e.1 s).imp fun _ h => ⟨h, trivial⟩)
      trivial
    exact ⟨w', hrun⟩
  · exact ⟨w₃, rfl⟩

/-- **An upload into an empty directory works for flat trees only.** Nothing makes the remote
directories that a file in a subdirectory needs. -/
theorem rsyncUpload_ok_iff_flat (hok : env.NoFailure) {p : Loc}
    (hp : env.diskLoc localRoot = some p) (hdir : w.disk.get p = some .dir)
    (hremote : remoteRoot ≠ "") (hrdir : w.remote.get (env.remoteLoc remoteRoot) = some .dir)
    (hempty : ∀ n, w.remote.get (n :: env.remoteLoc remoteRoot) = none)
    (hdry : "dry-run" ∉ opts ∧ "dry_run" ∉ opts) (hexcludes : ∀ pat, "exclude=" ++ pat ∉ opts)
    (hfresh : FreshSuffixes env w.disk p) :
    (∃ enough, ∀ fuel, enough ≤ fuel → ∃ w', exec (step env) (rsyncUpload copia localOrder
      remoteOrder fuel localRoot remoteRoot opts) w = (.ok (), w') ∧
        AllSent env w w' p remoteRoot) ↔
      ∀ (names : List FileName) f, w.disk.get (names.reverse ++ p) = some (.file f) →
        names.length ≤ 1 := by
  have hdryRun : (parseRsyncOpts opts).dryRun = false := by simp [parseRsyncOpts_eq, hdry]
  have hnoExcludes := parseRsyncOpts_excludes_eq_nil hexcludes
  constructor
  · rintro ⟨enough, hall⟩ names f hf
    obtain ⟨w', hrun, hsent⟩ := hall enough le_rfl
    obtain ⟨-, hnodir⟩ :=
      rsyncUpload_into_empty hok hp hdir hremote hrdir hempty hdryRun hnoExcludes hrun
    rcases List.eq_nil_or_concat names with rfl | ⟨init, last, rfl⟩
    · simp
    · -- the file's directory would have to be there
      obtain ⟨g, -, hg⟩ := hsent _ f hf
      rw [List.concat_eq_append, List.reverse_append] at hg
      have hparent := FileTree.get_parent (t := w'.remote) (n := last)
        (p := init.reverse ++ env.remoteLoc remoteRoot) (by simpa using hg ▸ Option.some_ne_none _)
      by_contra hlong
      refine hnodir init ?_ hparent
      rintro rfl
      simp at hlong
  · intro hflat
    obtain ⟨enough, hrun⟩ := rsyncUpload_ok_of_flat copia localOrder remoteOrder hok hp
      hdir hremote hrdir hempty hdryRun hnoExcludes hfresh hflat
    refine ⟨enough, fun fuel hfuel => (hrun fuel hfuel).imp fun w' hrun => ⟨hrun, ?_⟩⟩
    exact (rsyncUpload_into_empty hok hp hdir hremote hrdir hempty hdryRun hnoExcludes hrun).1

/-- The file `/l/d/x` is not sent to the empty directory `/r`: its temp file cannot be opened. -/
theorem rsyncUpload_misses_subdirectory :
    let env := Env.reliable
    let w := World.start (Tree.dirWith ⟨"r", by decide⟩ [])
      (Tree.nested ⟨"l", by decide⟩ ⟨"d", by decide⟩ ⟨"x", by decide⟩ [1])
    let run := fun fuel => exec (step env) (rsyncUpload .prefixOnly .asListed .asListed fuel "/l"
      "/r" []) w
    env.NoFailure ∧ FreshSuffixes env w.disk [⟨"l", by decide⟩] ∧
      (∀ n, w.remote.get (n :: env.remoteLoc "/r") = none) ∧
      (∀ fuel w', run fuel ≠ (.ok (), w')) ∧
      (run 10).1 = .error ⟨["failed to open remote temp file: /r/d/x.tmp.maaaaa"], .noSuchFile⟩
    := by
  intro env w run
  have hempty : ∀ n, w.remote.get (n :: env.remoteLoc "/r") = none :=
    get_eq_none_of_children (by decide +kernel)
  refine ⟨fun _ => rfl, freshSuffixes_of_short (by decide +kernel), hempty, fun fuel w' hrun => ?_,
    by decide +kernel⟩
  obtain ⟨hsent, hnodir⟩ := rsyncUpload_into_empty (fun _ => rfl) (p := [⟨"l", by decide⟩])
    (by decide +kernel) (by decide +kernel) (by decide) (by decide +kernel) hempty (by decide)
    (by decide) hrun
  -- `/r/d` would have to be a directory
  obtain ⟨g, -, hg⟩ := hsent [⟨"d", by decide⟩, ⟨"x", by decide⟩] ⟨[1], 0o644, 0, 0⟩
    (by decide +kernel)
  refine hnodir [⟨"d", by decide⟩] (by simp) (FileTree.get_parent (n := ⟨"x", by decide⟩) ?_)
  rw [List.reverse_cons, List.reverse_cons, List.reverse_nil] at hg
  exact hg ▸ Option.some_ne_none _

theorem rsyncUpload_ok_one_file :
    let env := Env.reliable
    let w := World.start (Tree.dirWith ⟨"r", by decide⟩ [])
      (Tree.dirWith ⟨"l", by decide⟩ [(⟨"a", by decide⟩, [1, 2])])
    (∃ enough, ∀ fuel, enough ≤ fuel → ∃ w', exec (step env) (rsyncUpload .prefixOnly .asListed
      .asListed fuel "/l" "/r" ["delete"]) w = (.ok (), w') ∧
        AllSent env w w' [⟨"l", by decide⟩] "/r") ↔
      ∀ (names : List FileName) f,
        w.disk.get (names.reverse ++ [⟨"l", by decide⟩]) = some (.file f) → names.length ≤ 1 :=
  rsyncUpload_ok_iff_flat (fun _ => rfl) (by decide +kernel) (by decide +kernel) (by decide)
    (by decide +kernel) (get_eq_none_of_children (by decide +kernel)) (by decide)
    (exclude_not_mem (by decide)) (freshSuffixes_of_short (by decide +kernel))

end Runs

end Passhrs
