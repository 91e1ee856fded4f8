import Passhrs.Sftp.Idempotent

/-!
# What an upload decides

`rsync_upload` skips or sends each local file, and deletes or keeps each other remote file. Its
exclude rule also matches the absolute local path, so the plan depends on where the local root is.

* **`rsyncUpload_follows`**: a run that returns `Ok` has done what it decided for every path.
* **`decisions_agree_iff`**: two roots with the same tree lead to the same decisions exactly when
  the excludes do not tell their files apart, except for files that are in sync anyway.
-/

namespace Passhrs

open Effects SlashPath

/-- What is done about a relative path. -/
inductive Decision where
  | skip
  | upload
  | delete
  | keep
deriving DecidableEq

instance (o : RsyncOpts) (f g : File) : Decidable (InSync o f g) :=
  inferInstanceAs (Decidable (g.content = f.content ∨
    (remoteInfo g).size = (localInfo f).size ∧ o.useChecksum = false ∧
      (remoteInfo g).mtime = (localInfo f).mtime))

/-- The upload loop on a local file, with the remote file if there is one. -/
def uploadDecision (o : RsyncOpts) (localRoot : String) (names : List FileName) (f : File)
    (remote : Option File) : Decision :=
  if isExcluded o (rel names) (below localRoot names) then .skip
  else remote.elim .upload fun g => if InSync o f g then .skip else .upload

/-- The delete loop on a remote file without a local one. -/
def deleteDecision (o : RsyncOpts) : Decision := if o.deleteExtra then .delete else .keep

/-- The decision about a relative path, where there is a file on either side. -/
def decision (env : Env) (o : RsyncOpts) (localRoot remoteRoot : String) (p : Loc) (w : World)
    (names : List FileName) : Option Decision :=
  let remote := w.remote.fileAt (names.reverse ++ env.remoteLoc remoteRoot)
  (w.disk.fileAt (names.reverse ++ p)).elim (remote.map fun _ => deleteDecision o)
    fun f => some (uploadDecision o localRoot names f remote)

/-! ## Runs follow their decisions -/

/-- What a decision makes of the remote file. -/
def Decision.Outcome (localFile before after : Option File) : Decision → Prop
  | .skip | .keep => after = before
  | .upload => ∃ f g, localFile = some f ∧ after = some g ∧ g.content = f.content
  | .delete => after = none

section Runs

variable {env : Env} {copia : Copia} {localOrder remoteOrder : IterOrder} {fuel : Nat}
  {localRoot remoteRoot : String} {opts : List String} {p : Loc} {w w' : World}

/-- One round of the upload loop. -/
theorem exec_uploadFile_follows (hok : env.NoFailure) {o : RsyncOpts} {remoteFiles : FileMap}
    (hcopia : copia.Lawful)
    (hdry : o.dryRun = false) (hremote : remoteRoot ≠ "") {names : List FileName} {f : File}
    (hentry : Entry env w localRoot p names f)
    (hlookup : remoteFiles.lookup (below remoteRoot names)
      = (w.remote.fileAt (names.reverse ++ env.remoteLoc remoteRoot)).map remoteInfo)
    (hrun : exec (step env) (uploadFile copia o (trimEndSlash localRoot) (trimEndSlash remoteRoot)
      remoteFiles (below localRoot names) (localInfo f)) w = (.ok (), w')) :
    w'.disk = w.disk ∧
      (uploadDecision o localRoot names f
          (w.remote.fileAt (names.reverse ++ env.remoteLoc remoteRoot))).Outcome (some f)
        (w.remote.fileAt (names.reverse ++ env.remoteLoc remoteRoot))
        (w'.remote.fileAt (names.reverse ++ env.remoteLoc remoteRoot)) ∧
      ∀ x, x ≠ names.reverse ++ env.remoteLoc remoteRoot → w'.remote.get x = w.remote.get x := by
  rw [uploadFile_below _ _ _ _ _ hentry.ne_nil] at hrun
  unfold uploadDecision
  split at hrun
  · next hexcluded =>
    cases hrun
    rw [if_pos hexcluded]
    exact ⟨rfl, rfl, fun _ _ => rfl⟩
  next hkept =>
  rw [if_neg hkept]
  by_cases hsync : ∃ g, w.remote.fileAt (names.reverse ++ env.remoteLoc remoteRoot) = some g ∧
      InSync o f g
  · -- the two files are read at most
    obtain ⟨g, hg, hsync⟩ := hsync
    have hsame : SameTrees w (exec (step env) (uploadIfChanged copia o remoteFiles
        (below localRoot names) (below remoteRoot names) (localInfo f)) w).2 :=
      (hsync.issues_uploadIfChanged hentry (hlookup.trans (by rw [hg]; rfl))
        (by rw [remoteLoc_below env hremote]; exact FileTree.fileAt_eq_some_iff.mp hg)
        ).exec_invariant (sameTrees_step w) (SameTrees.refl w)
    rw [hrun] at hsame
    rw [hg, Option.elim_some, if_pos hsync, hsame.remote]
    exact ⟨hsame.disk, hg, fun _ _ => rfl⟩
  · have hwrote : Wrote w w' (env.remoteLoc (below remoteRoot names)) f.content := by
      refine exec_uploadIfChanged_eq_ok hok hdry hentry (fun ri hri => ⟨hcopia, fun h => ?_⟩) hrun
      rw [hlookup] at hri
      obtain ⟨g, hg, rfl⟩ := Option.map_eq_some_iff.mp hri
      exact hsync ⟨g, hg, .inr h⟩
    obtain ⟨hdisk, g, hdata, hget⟩ := hwrote
    rw [remoteLoc_below env hremote] at hget
    refine ⟨hdisk, ?_, fun x hx => by rw [hget, if_neg hx]⟩
    have hafter : w'.remote.fileAt (names.reverse ++ env.remoteLoc remoteRoot) = some g :=
      FileTree.fileAt_eq_some_iff.mpr (by rw [hget, if_pos rfl])
    have hupload : (w.remote.fileAt (names.reverse ++ env.remoteLoc remoteRoot)).elim
        Decision.upload (fun g => if InSync o f g then .skip else .upload) = .upload := by
      rcases hg : w.remote.fileAt (names.reverse ++ env.remoteLoc remoteRoot) with _ | g'
      · rfl
      · exact if_neg fun h => hsync ⟨g', hg, h⟩
    rw [hupload]
    exact ⟨f, g, rfl, hafter, hdata⟩

/-- **A run without failures that returns `Ok` has done what it decided.** -/
theorem rsyncUpload_follows (hok : env.NoFailure) (hcopia : copia.Lawful)
    (hremote : remoteRoot ≠ "") (hdry : (parseRsyncOpts opts).dryRun = false)
    (hrun : exec (step env) (rsyncUpload copia localOrder remoteOrder fuel localRoot remoteRoot
      opts) w = (.ok (), w')) :
    ∃ p, env.diskLoc localRoot = some p ∧ ∀ names d,
      decision env (parseRsyncOpts opts) localRoot remoteRoot p w names = some d →
        d.Outcome (w.disk.fileAt (names.reverse ++ p))
          (w.remote.fileAt (names.reverse ++ env.remoteLoc remoteRoot))
          (w'.remote.fileAt (names.reverse ++ env.remoteLoc remoteRoot)) := by
  obtain ⟨p, localFiles, remoteFiles, w₁, w₂, hp, hdir, hdisk₁, hremote₁, hlists, hrlists, hrdir,
    huploads, hdeletes⟩ := rsyncUpload_eq_ok hremote hrun
  refine ⟨p, hp, ?_⟩
  have hroot : localRoot ≠ "" := Env.ne_empty_of_diskLoc hp
  have hfiles : ∀ x, w₁.remote.fileAt x = w.remote.fileAt x := by
    rw [hremote₁]
    exact (exec_createDir env w remoteRoot).2.1
  rw [← hdisk₁] at hdir
  obtain ⟨-, hdone, hother⟩ := uploadPass_rule (fun names f after =>
    (uploadDecision (parseRsyncOpts opts) localRoot names f
      (w.remote.fileAt (names.reverse ++ env.remoteLoc remoteRoot))).Outcome (some f)
        (w.remote.fileAt (names.reverse ++ env.remoteLoc remoteRoot)) after)
    localOrder hp hdir hlists (fun names f s s' hentry hsame hexec => by
      have hbefore := (FileTree.fileAt_congr hsame).trans (hfiles _)
      rw [← hbefore]
      refine exec_uploadFile_follows hok hcopia hdry hremote hentry ?_ hexec
      rw [hrlists.lookup_below hremote, FileTree.fileAt_congr hsame]) huploads
  obtain ⟨-, hgone, hother₃⟩ := deletePass_eq_ok remoteOrder hok hremote hroot hdry hrdir hlists
    hrlists hdeletes
  intro names d hd
  rw [hdisk₁] at hdone hother hgone hother₃
  unfold decision at hd
  rcases hf : w.disk.fileAt (names.reverse ++ p) with _ | f
  · -- the upload loop does not get to the path
    have hsame : w₂.remote.fileAt (names.reverse ++ env.remoteLoc remoteRoot)
        = w.remote.fileAt (names.reverse ++ env.remoteLoc remoteRoot) := by
      rw [FileTree.fileAt_congr (hother _ fun names' hlocal heq => ?_), hfiles]
      obtain rfl := List.reverse_injective (List.append_cancel_right heq)
      rw [hf] at hlocal
      cases hlocal
    rw [hf, Option.elim_none, Option.map_eq_some_iff] at hd
    obtain ⟨g, hg, rfl⟩ := hd
    unfold deleteDecision
    split
    · next hdelete =>
      exact hgone hdelete names (by rw [hfiles, hg]; rfl) hf
    · next hkeep =>
      show w'.remote.fileAt _ = _
      rw [FileTree.fileAt_congr (hother₃ _ fun hdelete => absurd hdelete hkeep), hsame]
  · rw [hf, Option.elim_some] at hd
    obtain rfl := Option.some.inj hd
    rw [FileTree.fileAt_congr (hother₃ _ fun _ names' _ hnone heq => ?_)]
    · exact hdone names f (FileTree.fileAt_eq_some_iff.mp hf)
    · obtain rfl := List.reverse_injective (List.append_cancel_right heq)
      rw [hf] at hnone
      cases hnone

end Runs

/-! ## Two roots -/

/-- The relative path is part of the listed one, so the rule comes down to the listed path. -/
theorem isExcluded_below_iff (o : RsyncOpts) (root : String) (names : List FileName) :
    isExcluded o (rel names) (below root names) = true ↔
      ∃ pat ∈ o.excludes, contains (below root names) pat = true := by
  have hsuffix : (rel names).toList <:+ (below root names).toList := by
    by_cases hne : names = []
    · rw [hne]
      exact List.nil_suffix
    · rw [below_eq root hne, String.toList_append]
      exact List.suffix_append ..
  simp only [isExcluded, List.any_eq_true, Bool.or_eq_true]
  refine exists_congr fun pat => and_congr_right fun _ => ⟨?_, .inr⟩
  rintro ((hcontains | hends) | hcontains)
  · exact decide_eq_true ((of_decide_eq_true hcontains).trans hsuffix.isInfix)
  · exact decide_eq_true ((of_decide_eq_true hends).isInfix.trans hsuffix.isInfix)
  · exact hcontains

section Roots

variable {env : Env} {o : RsyncOpts} {root₁ root₂ remoteRoot : String} {p₁ p₂ : Loc} {w₁ w₂ : World}

theorem uploadDecision_eq_iff (names : List FileName) (f : File) (remote : Option File) :
    uploadDecision o root₁ names f remote = uploadDecision o root₂ names f remote ↔
      ((∀ g, remote = some g → ¬ InSync o f g) →
        ((∃ pat ∈ o.excludes, contains (below root₁ names) pat = true) ↔
          ∃ pat ∈ o.excludes, contains (below root₂ names) pat = true)) := by
  rw [← isExcluded_below_iff, ← isExcluded_below_iff]
  unfold uploadDecision
  by_cases hsync : ∃ g, remote = some g ∧ InSync o f g
  · -- skipped either way
    obtain ⟨g, rfl, hsync⟩ := hsync
    rw [Option.elim_some, if_pos hsync, ite_self, ite_self]
    exact iff_of_true rfl fun h => absurd hsync (h g rfl)
  have hsends : (remote.elim Decision.upload fun g => if InSync o f g then .skip else .upload)
      = .upload := by
    cases remote with
    | none => rfl
    | some g => exact if_neg fun h => hsync ⟨g, rfl, h⟩
  rw [hsends, imp_iff_right fun g hg h => hsync ⟨g, hg, h⟩]
  rcases isExcluded o (rel names) (below root₁ names) <;>
    rcases isExcluded o (rel names) (below root₂ names) <;> simp

/-- **Two local roots with the same tree lead to the same decisions exactly when**, for every local
file that is not in sync, an exclude pattern occurs in its path below the one root if one occurs in
its path below the other. -/
theorem decisions_agree_iff
    (htree : ∀ ns, w₁.disk.get (ns ++ p₁) = w₂.disk.get (ns ++ p₂))
    (hremote : w₁.remote = w₂.remote) :
    (∀ names, decision env o root₁ remoteRoot p₁ w₁ names
        = decision env o root₂ remoteRoot p₂ w₂ names) ↔
      ∀ names f, w₁.disk.fileAt (names.reverse ++ p₁) = some f →
        (∀ g, w₁.remote.fileAt (names.reverse ++ env.remoteLoc remoteRoot) = some g →
          ¬ InSync o f g) →
        ((∃ pat ∈ o.excludes, contains (below root₁ names) pat = true) ↔
          ∃ pat ∈ o.excludes, contains (below root₂ names) pat = true) := by
  refine forall_congr' fun names => ?_
  unfold decision
  rw [← hremote, ← FileTree.fileAt_congr (htree names.reverse)]
  rcases w₁.disk.fileAt (names.reverse ++ p₁) with _ | f
  · exact iff_of_true rfl (by simp)
  · rw [Option.elim_some, Option.elim_some, Option.some.injEq, uploadDecision_eq_iff]
    simp

/-- Two runs that decide the same leave the same contents on the server. -/
theorem contents_agree {copia₁ copia₂ : Copia} {localOrder₁ localOrder₂ remoteOrder₁ remoteOrder₂ :
      IterOrder} {fuel₁ fuel₂ : Nat} {opts : List String} {w₁' w₂' : World} (hok : env.NoFailure)
    (hcopia₁ : copia₁.Lawful) (hcopia₂ : copia₂.Lawful) (hroot : remoteRoot ≠ "")
    (hdry : (parseRsyncOpts opts).dryRun = false)
    (hp₁ : env.diskLoc root₁ = some p₁) (hp₂ : env.diskLoc root₂ = some p₂)
    (htree : ∀ ns, w₁.disk.get (ns ++ p₁) = w₂.disk.get (ns ++ p₂))
    (hremote : w₁.remote = w₂.remote)
    (hdecisions : ∀ names, decision env (parseRsyncOpts opts) root₁ remoteRoot p₁ w₁ names
      = decision env (parseRsyncOpts opts) root₂ remoteRoot p₂ w₂ names)
    (hrun₁ : exec (step env) (rsyncUpload copia₁ localOrder₁ remoteOrder₁ fuel₁ root₁ remoteRoot
      opts) w₁ = (.ok (), w₁'))
    (hrun₂ : exec (step env) (rsyncUpload copia₂ localOrder₂ remoteOrder₂ fuel₂ root₂ remoteRoot
      opts) w₂ = (.ok (), w₂'))
    {names : List FileName}
    (hdecided : decision env (parseRsyncOpts opts) root₁ remoteRoot p₁ w₁ names ≠ none) :
    (w₁'.remote.fileAt (names.reverse ++ env.remoteLoc remoteRoot)).map File.content
      = (w₂'.remote.fileAt (names.reverse ++ env.remoteLoc remoteRoot)).map File.content := by
  obtain ⟨q₁, hq₁, hfollows₁⟩ := rsyncUpload_follows hok hcopia₁ hroot hdry hrun₁
  obtain ⟨q₂, hq₂, hfollows₂⟩ := rsyncUpload_follows hok hcopia₂ hroot hdry hrun₂
  obtain rfl := Option.some.inj (hq₁.symm.trans hp₁)
  obtain rfl := Option.some.inj (hq₂.symm.trans hp₂)
  obtain ⟨d, hd⟩ := Option.ne_none_iff_exists'.mp hdecided
  have houtcome₁ := hfollows₁ names d hd
  have houtcome₂ := hfollows₂ names d (hdecisions names ▸ hd)
  rw [← FileTree.fileAt_congr (htree names.reverse), ← hremote] at houtcome₂
  cases d with
  | skip | keep => exact congrArg _ (Eq.trans houtcome₁ houtcome₂.symm)
  -- both uploads send the file of the one tree
  | upload =>
    obtain ⟨f₁, g₁, hf₁, hg₁, hdata₁⟩ := houtcome₁
    obtain ⟨f₂, g₂, hf₂, hg₂, hdata₂⟩ := houtcome₂
    obtain rfl := Option.some.inj (hf₁.symm.trans hf₂)
    rw [hg₁, hg₂, Option.map_some, Option.map_some, hdata₁, hdata₂]
  | delete => exact congrArg _ (Eq.trans houtcome₁ (Eq.symm houtcome₂))

end Roots

/-! ## A root in `/tmp` -/

/-- What is below a directory with one file in it does not depend on its name. -/
theorem get_dirWith_below (dir n : FileName) (content : Bytes) (ns : Loc) :
    (Tree.dirWith dir [(n, content)]).get (ns ++ [dir]) =
      if ns = [n] then some (.file ⟨content, 0o644, 0, 0⟩)
      else if ns = [] then some .dir else none := by
  have hmkdir : ∀ x, (FileTree.mkdir FileTree.empty [dir] : Tree).get x =
      if x = [dir] then some .dir else (FileTree.empty : Tree).get x :=
    FileTree.get_mkdir rfl rfl
  have hplace : (FileTree.mkdir FileTree.empty [dir] : Tree).writable [n, dir] = true := by
    rw [FileTree.writable_cons_iff, hmkdir, hmkdir, if_pos rfl, if_neg (by simp)]
    exact ⟨rfl, by rintro ⟨⟩⟩
  have hempty : (FileTree.empty : Tree).get (ns ++ [dir]) = none := by
    by_contra hne
    rcases List.eq_nil_or_concat ns with rfl | ⟨ms, m, rfl⟩
    · exact hne rfl
    · have hroot := FileTree.get_ancestor hne (by simp)
      cases hroot
  have hchild : ns ++ [dir] = [n, dir] ↔ ns = [n] := by
    show ns ++ [dir] = [n] ++ [dir] ↔ _
    rw [List.append_left_inj]
  rw [Tree.dirWith, List.foldl_cons, List.foldl_nil, FileTree.get_setFile hplace, hmkdir, hempty]
  simp [hchild]

/-- The directory `/home` or `/tmp` with the file `report` in it, and the empty server that it is
sent to. -/
def World.withReport (dir : FileName) : World :=
  .start (Tree.dirWith ⟨"backup", by decide⟩ [])
    (Tree.dirWith dir [(⟨"report", by decide⟩, [4, 2])])

theorem get_withReport (dir : FileName) (ns : Loc) :
    (World.withReport dir).disk.get (ns ++ [dir]) =
      if ns = [⟨"report", by decide⟩] then some (.file ⟨[4, 2], 0o644, 0, 0⟩)
      else if ns = [] then some .dir else none :=
  get_dirWith_below dir ⟨"report", by decide⟩ [4, 2] ns

theorem decisions_agree_iff_tmp :
    ¬ ∀ names, decision .reliable (parseRsyncOpts ["exclude=tmp"]) "/home" "/backup"
        [⟨"home", by decide⟩] (.withReport ⟨"home", by decide⟩) names
      = decision .reliable (parseRsyncOpts ["exclude=tmp"]) "/tmp" "/backup"
        [⟨"tmp", by decide⟩] (.withReport ⟨"tmp", by decide⟩) names := by
  intro hagree
  refine absurd ((decisions_agree_iff ?_ ?_).mp hagree [⟨"report", by decide⟩]
    ⟨[4, 2], 0o644, 0, 0⟩ ?_ ?_) ?_
  · exact fun ns => (get_withReport ..).trans (get_withReport ..).symm
  · rfl
  · decide +kernel
  · rintro g ⟨⟩
  · decide +kernel

/-- Both runs return `Ok`. Below `/tmp`, the pattern `tmp` excludes every file. -/
theorem rsyncUpload_from_tmp :
    let run (root : String) (dir : FileName) := exec (step .reliable) (rsyncUpload .prefixOnly
      .asListed .asListed 3 root "/backup" ["exclude=tmp"]) (.withReport dir)
    let home := run "/home" ⟨"home", by decide⟩
    let tmp := run "/tmp" ⟨"tmp", by decide⟩
    let report : Loc := [⟨"report", by decide⟩, ⟨"backup", by decide⟩]
    (∀ ns, (World.withReport ⟨"home", by decide⟩).disk.get (ns ++ [⟨"home", by decide⟩])
      = (World.withReport ⟨"tmp", by decide⟩).disk.get (ns ++ [⟨"tmp", by decide⟩])) ∧
    home.1.toOption = some () ∧ home.2.remote.contentOf report = some [4, 2] ∧
      tmp.1.toOption = some () ∧ tmp.2.remote.contentOf report = none := by
  refine ⟨fun ns => (get_withReport ..).trans (get_withReport ..).symm, ?_⟩
  decide +kernel

end Passhrs
