import Passhrs.Sftp.Idempotent
import Passhrs.Sftp.DryRun

/-!
# What an upload sends

Which local files a run of `rsync_upload` writes to the server is settled by the two trees, the
options and the delta engine. What happens to such a write is not: it may fail, and its temp file
may have any suffix.

* **`MustSend`**: the pair of files that a round of the upload loop does not skip.
* **`Round`**, **`uploadIfChanged_round`**: what a round comes to, in any environment.
* **`uploads_room`**: a loop that gets through has found room for everything it had to send.
* **`exists_uploads_ok`**: where there is room, some suffixes get a loop through.
-/

namespace Passhrs

open Effects SlashPath

/-- A round has this file to send: it is not in sync with the remote one, and a dry run would patch
it all the same. -/
structure MustSend (copia : Copia) (o : RsyncOpts) (f : File) (remote : Option File) : Prop where
  differs : ∀ g, remote = some g → ¬ InSync o f g
  dry : o.dryRun = true → ∃ g, remote = some g ∧
    Patches copia o (localInfo f) (remoteInfo g) f.content g.content

/-! ## One round -/

/-- Reading is all that is done. -/
abbrev Looks {ε α : Type} (env : Env) (x : Action FileOp FileOp.Res ε α) (w : World) : Prop :=
  Issues (step env) (fun op _ => op.ReadOnly) x w

/-- The write that a round ends with. -/
def sendTo (remotePath : String) (f : File) : FileM Unit := do
  atomicWriteRemote remotePath f.content
  preserveMode remotePath (localInfo f).mode

/-- What a round `x` on a local file comes to. -/
inductive Round (env : Env) (copia : Copia) (o : RsyncOpts) (f : File) (remote : Option File)
    (remotePath : String) (x : FileM Unit) (w : World) : Prop where
  | idle (hidle : ¬ MustSend copia o f remote) (hlooks : Looks env x w)
      (hok : ∃ w', exec (step env) x w = (.ok (), w'))
  | unread (hfails : ¬ env.NoFailure) (hlooks : Looks env x w)
      (herror : ∃ e w', exec (step env) x w = (.error e, w'))
  | sends (hsend : MustSend copia o f remote) (w' : World) (hsame : SameTrees w w')
      (hcomes : ComesTo (step env) (fun op _ => op.ReadOnly) x w (sendTo remotePath f) w')

section Round

variable {env : Env} {copia : Copia} {o : RsyncOpts} {f : File} {remote : Option File}
  {localRoot remotePath : String} {p : Loc} {names : List FileName} {remoteFiles : FileMap}
  {w w' : World}

theorem Round.skip (hidle : ¬ MustSend copia o f remote) :
    Round env copia o f remote remotePath (pure ()) w :=
  .idle hidle issues_pure ⟨w, rfl⟩

theorem Round.after {α : Type} {x : FileM α} {g : α → FileM Unit} {a : α}
    (hround : Round env copia o f remote remotePath (g a) w') (hlooks : LooksOnly x)
    (hrun : exec (step env) x w = (.ok a, w')) :
    Round env copia o f remote remotePath (x >>= g) w := by
  have hx : Looks env x w := hlooks.issues w
  have hsame := hlooks.sameTrees env w
  rw [hrun] at hsame
  have hboth : Looks env (g a) w' → Looks env (x >>= g) w := fun hg =>
    issues_bind hx fun b s hb => by
      obtain ⟨hab, rfl⟩ := Prod.mk.inj (hb.symm.trans hrun)
      exact Except.ok.inj hab ▸ hg
  cases hround with
  | idle hidle hg hok => exact .idle hidle (hboth hg) (by rwa [exec_bind_ok hrun])
  | unread hfails hg herror => exact .unread hfails (hboth hg) (by rwa [exec_bind_ok hrun])
  | sends hsend t ht hcomes => exact .sends hsend t (hsame.trans ht) (hcomes.after hrun hx)

theorem Round.stops {α : Type} {x : FileM α} {g : α → FileM Unit} {e : Error}
    (hfails : ¬ env.NoFailure) (hlooks : LooksOnly x)
    (hrun : exec (step env) x w = (.error e, w')) :
    Round env copia o f remote remotePath (x >>= g) w := by
  refine .unread hfails (issues_bind (hlooks.issues w) fun a s ha => ?_)
    ⟨e, w', exec_bind_error hrun g⟩
  rw [hrun] at ha
  cases ha

/-- Reading the local file of an entry, before what is done with its content. -/
theorem Round.read_local {g : Bytes → FileM Unit} (hentry : Entry env w localRoot p names f)
    (hround : Round env copia o f remote remotePath (g f.content) w.next) :
    Round env copia o f remote remotePath
      (propagate (fsRead (below localRoot names)) >>= g) w := by
  rcases hrun : exec (step env) (propagate (fsRead (below localRoot names))) w
    with ⟨e | data, w'⟩
  · refine .stops (fun hok => ?_) (looksOnly_propagate_fsRead _) hrun
    rw [exec_propagate, exec_fsRead_ok (hok _) (diskLoc_below hentry.loc names) hentry.file] at hrun
    cases hrun
  · obtain ⟨rfl, rfl⟩ := hentry.content_eq hrun
    exact hround.after (looksOnly_propagate_fsRead _) hrun

/-- Reading the remote file, before what is done with its content. -/
theorem Round.read_remote {g : Bytes → FileM Unit} {h : File}
    (hh : w.remote.get (env.remoteLoc remotePath) = some (.file h))
    (hround : Round env copia o f remote remotePath (g h.content) w.next) :
    Round env copia o f remote remotePath (propagate (read remotePath) >>= g) w := by
  rcases hrun : exec (step env) (propagate (read remotePath)) w with ⟨e | data, w'⟩
  · refine .stops (fun hok => ?_) (looksOnly_propagate_read _) hrun
    rw [exec_propagate, exec_read_ok (hok _) hh] at hrun
    cases hrun
  · rw [exec_propagate_eq_ok] at hrun
    obtain ⟨⟨h', hh', rfl⟩, rfl⟩ := exec_read_eq_ok hrun
    obtain rfl : h = h' := by simpa [hh] using hh'
    exact hround.after (looksOnly_propagate_read _) (exec_propagate_eq_ok.mpr hrun)

/-- A step of the delta engine that does not fail. -/
theorem Round.engine {α : Type} {r : Except IoError α} {g : α → FileM Unit} {a : α}
    (hr : r = .ok a) (hround : Round env copia o f remote remotePath (g a) w) :
    Round env copia o f remote remotePath (propagate (ofResult r) >>= g) w := by
  refine hround.after (emits_mapError (emits_ofResult fun _ _ => trivial)) ?_
  rw [exec_propagate, exec_ofResult, hr]
  rfl

theorem Round.whole (hentry : Entry env w localRoot p names f)
    (hdry : o.dryRun = true → ¬ MustSend copia o f remote)
    (hwet : o.dryRun = false → MustSend copia o f remote) :
    Round env copia o f remote remotePath
      (uploadWhole o (below localRoot names) remotePath (localInfo f)) w := by
  unfold uploadWhole
  split
  · next h => exact .skip (hdry h)
  · next h =>
    exact .read_local hentry (.sends (hwet (Bool.eq_false_iff.mpr h)) w.next (.refl _)
      (comesTo_refl _ _))

/-- **A round skips its file, fails to read, or comes to write the whole local content**, and the
two files and the options tell which, short of a failure. -/
theorem uploadIfChanged_round (hcopia : copia.Lawful) (hentry : Entry env w localRoot p names f)
    (hlookup : remoteFiles.lookup remotePath = remote.map remoteInfo)
    (hremote : w.remote.fileAt (env.remoteLoc remotePath) = remote) :
    Round env copia o f remote remotePath (uploadIfChanged copia o remoteFiles
      (below localRoot names) remotePath (localInfo f)) w := by
  unfold uploadIfChanged
  rcases remote with _ | g
  · -- nothing is listed, so there is nothing to patch either
    rw [hlookup, Option.map_none]
    refine .whole hentry (fun hdry hsend => ?_) fun hdry => ⟨nofun, fun h => ?_⟩
    · obtain ⟨g, hg, -⟩ := hsend.dry hdry
      cases hg
    · rw [hdry] at h
      cases h
  rw [hlookup, Option.map_some]
  dsimp only
  rw [FileTree.fileAt_eq_some_iff] at hremote
  split
  · next hquick =>
    refine .skip fun hsend => hsend.differs g rfl (.inr ?_)
    simpa [QuickCheck] using hquick
  next hquick =>
  have hnot : ¬ QuickCheck o (localInfo f) (remoteInfo g) := by simpa [QuickCheck] using hquick
  split
  swap
  · -- files of different sizes differ
    next hsize =>
    refine .whole hentry (fun hdry hsend => ?_) fun hdry => ⟨?_, fun h => ?_⟩
    · obtain ⟨_, ⟨⟩, hpatches⟩ := hsend.dry hdry
      exact hsize hpatches.size
    · rintro _ ⟨⟩ (heq | hq)
      · exact hsize (by rw [remoteInfo, localInfo, heq])
      · exact hnot hq
    · rw [hdry] at h
      cases h
  next hsize =>
  refine .read_local hentry (.read_remote hremote ?_)
  split
  · next heq => exact .skip fun hsend => hsend.differs g rfl (.inl heq.symm)
  next hdiffer =>
  have hsync : ∀ h, some g = some h → ¬ InSync o f h := by
    rintro _ ⟨⟩ (heq | hq)
    · exact hdiffer heq.symm
    · exact hnot hq
  obtain ⟨sig, delta, hsig, hdelta, hpatch⟩ := hcopia.exists_delta g.content f.content
  refine .engine hsig (.engine hdelta ?_)
  split
  · next hshorter =>
    refine .engine hpatch (.sends ⟨hsync, fun _ => ⟨g, rfl, hsize, ?_, hdiffer, sig, delta, hsig,
      hdelta, hshorter⟩⟩ _ (.refl _) (comesTo_refl _ _))
    by_contra hnone
    rw [not_or, not_not, Bool.not_eq_true] at hnone
    exact hnot ⟨hsize, hnone⟩
  · next hlonger =>
    refine .whole (hentry.congr rfl) (fun hdry hsend => ?_) fun hdry => ⟨hsync, fun h => ?_⟩
    · obtain ⟨_, ⟨⟩, hpatches⟩ := hsend.dry hdry
      obtain ⟨sig', delta', hsig', hdelta', hshorter⟩ := hpatches.shorter
      obtain rfl := Except.ok.inj (hsig.symm.trans hsig')
      obtain rfl := Except.ok.inj (hdelta.symm.trans hdelta')
      exact hlonger hshorter
    · rw [hdry] at h
      cases h

end Round

/-! ## Room for a file -/

/-- There is room for a file at a remote path: its directory is there, no directory is in its place,
and the name of a temp file is free. -/
structure Room (env : Env) (w : World) (remotePath : String) : Prop where
  place : w.remote.writable (env.remoteLoc remotePath) = true
  temp : ∃ hash, w.remote.get (env.remoteLoc (remotePath ++ ".tmp." ++ tmpSuffix hash)) = none

section Room

variable {env : Env} {f : File} {remoteRoot remotePath : String} {names : List FileName}
  {w w' : World}

/-- A write that returns `Ok` has found room, and changes its target only. -/
theorem sendTo_eq_ok (hrun : exec (step env) (sendTo remotePath f) w = (.ok (), w')) :
    Room env w remotePath ∧ w'.disk = w.disk ∧ ∃ g : File, ∀ x, w'.remote.get x =
      if x = env.remoteLoc remotePath then some (.file g) else w.remote.get x := by
  obtain ⟨_, w₁, hwrite, hmode⟩ := exec_bind_eq_ok hrun
  have hcompletes := completes_of_ok hwrite
  obtain ⟨hdisk, g, -, hget⟩ := atomicWriteRemote_eq_ok hwrite
  obtain ⟨w₂, perm, hexec, hdisk₂, hget₂⟩ :=
    exec_preserveMode env (localInfo f).mode ((hget _).trans (if_pos rfl))
  rw [hexec] at hmode
  obtain rfl := (Prod.mk.inj hmode).2
  refine ⟨⟨hcompletes.place, env.hash w.tick, hcompletes.staged.2.2.1⟩, hdisk₂.trans hdisk,
    { g with perm := perm }, fun x => ?_⟩
  rw [hget₂, hget]
  split <;> rfl

/-- Where there is room, a write without failures returns `Ok` if it draws a suffix that is free. -/
theorem sendTo_ok (hok : env.NoFailure) (hremote : remoteRoot ≠ "") (hne : names ≠ [])
    (hplace : w.remote.writable (env.remoteLoc (below remoteRoot names)) = true)
    (htemp : w.remote.get (env.remoteLoc (remoteTmp env w (below remoteRoot names))) = none) :
    ∃ w', exec (step env) (sendTo (below remoteRoot names) f) w = (.ok (), w') := by
  obtain ⟨dirs, n, rfl⟩ := (List.eq_nil_or_concat names).resolve_left hne
  rw [List.concat_eq_append] at hplace htemp ⊢
  have hloc : env.remoteLoc (below remoteRoot (dirs ++ [n]))
      = n :: (dirs.reverse ++ env.remoteLoc remoteRoot) := by
    rw [remoteLoc_below env hremote]
    simp
  rw [hloc, FileTree.writable_cons_iff] at hplace
  have hcompletes := completes_below hok hremote dirs n hplace.1 hplace.2 htemp
  obtain ⟨w₁, hwrite⟩ := atomicWriteRemote_ok hcompletes f.content
  obtain ⟨-, g, -, hget⟩ := atomicWriteRemote_eq_ok hwrite
  obtain ⟨w₂, perm, hmode, -, -⟩ :=
    exec_preserveMode env (localInfo f).mode ((hget _).trans (if_pos rfl))
  exact ⟨w₂, by rw [sendTo, exec_bind_ok hwrite, hmode]⟩

end Room

/-! ## The loop -/

/-- An upload loop over files that are on the local disk, with what was listed on the server. -/
structure Batch (env : Env) (localRoot remoteRoot : String) (p : Loc) (w : World)
    (remoteFiles : FileMap) (xs : List (String × RemoteFileInfo)) : Prop where
  root : remoteRoot ≠ ""
  entries : ∀ e ∈ xs, ∃ names f, e = (below localRoot names, localInfo f) ∧
    Entry env w localRoot p names f
  nodup : (xs.map Prod.fst).Nodup
  listed : ∀ names, remoteFiles.lookup (below remoteRoot names)
    = (w.remote.fileAt (names.reverse ++ env.remoteLoc remoteRoot)).map remoteInfo

/-- A loop that started in `w` is at `s`: it has put files in the places of these paths, at most. -/
structure Uploading (env : Env) (localRoot remoteRoot : String) (w : World) (done : List String)
    (s : World) : Prop where
  disk : s.disk = w.disk
  remote : ∀ x, s.remote.get x = w.remote.get x ∨ ∃ names g, below localRoot names ∈ done ∧
    x = names.reverse ++ env.remoteLoc remoteRoot ∧ s.remote.get x = some (.file g)

/-- A run has the local file at these names to send. -/
def Sends (env : Env) (copia : Copia) (o : RsyncOpts) (localRoot remoteRoot : String) (w : World)
    (names : List FileName) (f : File) : Prop :=
  isExcluded o (rel names) (below localRoot names) = false ∧
    MustSend copia o f (w.remote.fileAt (names.reverse ++ env.remoteLoc remoteRoot))

section Loop

variable {env : Env} {copia : Copia} {o : RsyncOpts} {localRoot remoteRoot : String} {p : Loc}
  {remoteFiles : FileMap} {xs done rest : List (String × RemoteFileInfo)} {names : List FileName}
  {f : File} {w s s' : World}

theorem SameTrees.uploading (hsame : SameTrees w s) :
    Uploading env localRoot remoteRoot w (([] : List (String × RemoteFileInfo)).map Prod.fst) s :=
  ⟨hsame.disk, fun _ => .inl (by rw [hsame.remote])⟩

/-- What has not been visited is as it was. -/
theorem Uploading.get_target (hs : Uploading env localRoot remoteRoot w (done.map Prod.fst) s)
    (hnew : below localRoot names ∉ done.map Prod.fst) :
    s.remote.get (names.reverse ++ env.remoteLoc remoteRoot)
      = w.remote.get (names.reverse ++ env.remoteLoc remoteRoot) := by
  rcases hs.remote (names.reverse ++ env.remoteLoc remoteRoot)
    with hsame | ⟨names', g, hmem, heq, -⟩
  · exact hsame
  · obtain rfl := List.reverse_injective (List.append_cancel_right heq)
    exact absurd hmem hnew

/-- The files that were visited are on the local disk, so the directory of another one is as it was
on the server too. -/
theorem Uploading.writable_eq (hs : Uploading env localRoot remoteRoot w (done.map Prod.fst) s)
    (hb : Batch env localRoot remoteRoot p w remoteFiles (done ++ rest))
    (hentry : Entry env w localRoot p names f)
    (hnew : below localRoot names ∉ done.map Prod.fst) :
    s.remote.writable (names.reverse ++ env.remoteLoc remoteRoot)
      = w.remote.writable (names.reverse ++ env.remoteLoc remoteRoot) := by
  have htarget := hs.get_target hnew
  obtain ⟨dirs, n, rfl⟩ := (List.eq_nil_or_concat names).resolve_left hentry.ne_nil
  rw [List.concat_eq_append] at htarget hentry ⊢
  have hparent : s.remote.get (dirs.reverse ++ env.remoteLoc remoteRoot)
      = w.remote.get (dirs.reverse ++ env.remoteLoc remoteRoot) := by
    refine hs.get_target fun hmem => ?_
    obtain ⟨e, he, hkey⟩ := List.mem_map.mp hmem
    obtain ⟨names', f', rfl, hentry'⟩ := hb.entries e (List.mem_append_left _ he)
    obtain rfl := below_injective (Env.ne_empty_of_diskLoc hentry.loc) hkey
    -- a file of that name would have the entry below it
    have hfile := hentry.file
    rw [show (names' ++ [n]).reverse ++ p = n :: (names'.reverse ++ p) by simp] at hfile
    have hdir := FileTree.get_parent (show w.disk.get (n :: (names'.reverse ++ p)) ≠ none by
      simp [hfile])
    rw [hentry'.file] at hdir
    cases hdir
  have hsplit : (dirs ++ [n]).reverse ++ env.remoteLoc remoteRoot
      = n :: (dirs.reverse ++ env.remoteLoc remoteRoot) := by simp
  rw [hsplit] at htarget ⊢
  rw [Bool.eq_iff_iff, FileTree.writable_cons_iff, FileTree.writable_cons_iff, htarget, hparent]

/-- A temp name that is free was free at the start: nothing has been taken away. -/
theorem Uploading.get_eq_none (hs : Uploading env localRoot remoteRoot w (done.map Prod.fst) s)
    {x : Loc} (hx : s.remote.get x = none) : w.remote.get x = none := by
  rcases hs.remote x with hsame | ⟨_, g, -, -, hfile⟩
  · rwa [hsame] at hx
  · rw [hfile] at hx
    cases hx

/-- It stays free as long as the loop goes from short paths to longer ones: a local file of that
name comes later. -/
theorem Uploading.temp_free (hs : Uploading env localRoot remoteRoot w (done.map Prod.fst) s)
    (hremote : remoteRoot ≠ "") (hne : names ≠ [])
    (hshort : ∀ e ∈ done, e.1.length ≤ (below localRoot names).length) {hash : UInt64}
    (hfree : w.remote.get (env.remoteLoc (below remoteRoot names ++ ".tmp." ++ tmpSuffix hash))
      = none) :
    s.remote.get (env.remoteLoc (below remoteRoot names ++ ".tmp." ++ tmpSuffix hash)) = none := by
  obtain ⟨dirs, n, rfl⟩ := (List.eq_nil_or_concat names).resolve_left hne
  rw [List.concat_eq_append] at hshort hfree ⊢
  obtain ⟨n', -, hpath⟩ := exists_tmp_below dirs n hash
  rw [hpath, remoteLoc_below env hremote] at hfree ⊢
  rw [hs.get_target ?_, hfree]
  intro hmem
  obtain ⟨e, he, hkey⟩ := List.mem_map.mp hmem
  have hlen := hshort e he
  rw [hkey, ← hpath, String.append_assoc, String.length_append, length_tmpSuffix] at hlen
  omega

/-- What the next round comes to, by what the trees were at the start. -/
theorem Uploading.round (hs : Uploading env localRoot remoteRoot w (done.map Prod.fst) s)
    (hb : Batch env localRoot remoteRoot p w remoteFiles xs) (hcopia : copia.Lawful)
    (hentry : Entry env w localRoot p names f) (hnew : below localRoot names ∉ done.map Prod.fst) :
    Round env copia o f (w.remote.fileAt (names.reverse ++ env.remoteLoc remoteRoot))
      (below remoteRoot names) (uploadIfChanged copia o remoteFiles (below localRoot names)
        (below remoteRoot names) (localInfo f)) s := by
  refine uploadIfChanged_round hcopia (hentry.congr hs.disk) (hb.listed names) ?_
  rw [remoteLoc_below env hb.root]
  exact FileTree.fileAt_congr (hs.get_target hnew)

theorem Uploading.of_sameTrees (hs : Uploading env localRoot remoteRoot w (done.map Prod.fst) s)
    (hsame : SameTrees s s') : Uploading env localRoot remoteRoot w (done.map Prod.fst) s' :=
  ⟨hsame.disk.trans hs.disk, hsame.remote ▸ hs.remote⟩

theorem Uploading.grow (hs : Uploading env localRoot remoteRoot w (done.map Prod.fst) s)
    (e : String × RemoteFileInfo) :
    Uploading env localRoot remoteRoot w ((done ++ [e]).map Prod.fst) s := by
  refine ⟨hs.disk, fun x => (hs.remote x).imp_right ?_⟩
  rintro ⟨names, g, hmem, hrest⟩
  exact ⟨names, g, by rw [List.map_append]; exact List.mem_append_left _ hmem, hrest⟩

/-- A round that returns `Ok` has found room, if it had something to send. -/
theorem Uploading.step (hs : Uploading env localRoot remoteRoot w (done.map Prod.fst) s)
    (hb : Batch env localRoot remoteRoot p w remoteFiles (done ++ rest)) (hcopia : copia.Lawful)
    (hentry : Entry env w localRoot p names f) (hnew : below localRoot names ∉ done.map Prod.fst)
    (hrun : exec (step env) (uploadFile copia o (trimEndSlash localRoot) (trimEndSlash remoteRoot)
      remoteFiles (below localRoot names) (localInfo f)) s = (.ok (), s')) :
    Uploading env localRoot remoteRoot w
        ((done ++ [(below localRoot names, localInfo f)]).map Prod.fst) s' ∧
      (Sends env copia o localRoot remoteRoot w names f →
        Room env w (below remoteRoot names)) := by
  rw [uploadFile_below _ _ _ _ _ hentry.ne_nil] at hrun
  split at hrun
  · next hexcluded =>
    cases hrun
    exact ⟨hs.grow _, fun hsends => absurd hexcluded (by simp [hsends.1])⟩
  have hloc := remoteLoc_below env hb.root names
  cases hs.round hb hcopia (o := o) hentry hnew with
  | idle hidle hlooks hok =>
    have hsame := hlooks.exec_invariant (sameTrees_step s) (SameTrees.refl s)
    rw [hrun] at hsame
    exact ⟨(hs.of_sameTrees hsame).grow _, fun hsends => absurd hsends.2 hidle⟩
  -- a local read that fails ends the run, which this one did not
  | unread hfails hlooks herror =>
    obtain ⟨e, s₁, herror⟩ := herror
    rw [hrun] at herror
    cases herror
  | sends hsend s₁ hsame hcomes =>
    -- what the write has needed was there at the start already
    obtain ⟨hroom, hdisk, g, hget⟩ := sendTo_eq_ok (hcomes.exec_eq.symm.trans hrun)
    have hs₁ := hs.of_sameTrees hsame
    rw [hloc] at hget
    refine ⟨⟨hdisk.trans hs₁.disk, fun x => ?_⟩, fun _ => ⟨?_, ?_⟩⟩
    · rw [hget]
      split
      · next hx => exact .inr ⟨names, g, by simp, hx, rfl⟩
      · exact (hs₁.grow (below localRoot names, localInfo f)).remote x
    · rw [hloc, ← hs₁.writable_eq hb hentry hnew, ← hloc]
      exact hroom.place
    · obtain ⟨hash, hfree⟩ := hroom.temp
      exact ⟨hash, hs₁.get_eq_none hfree⟩

/-- The path of a round has not been visited before. -/
theorem Batch.not_mem_done {key : String} {i : RemoteFileInfo}
    (hb : Batch env localRoot remoteRoot p w remoteFiles (done ++ (key, i) :: rest)) :
    key ∉ done.map Prod.fst := by
  have hnodup := hb.nodup
  rw [List.map_append, List.map_cons] at hnodup
  exact fun hmem => (List.nodup_append.mp hnodup).2.2 _ hmem _ List.mem_cons_self rfl

/-- **A loop that gets through has found room for everything it had to send.** -/
theorem uploads_room (hb : Batch env localRoot remoteRoot p w remoteFiles (xs ++ rest))
    (hcopia : copia.Lawful) (hsame : SameTrees w s)
    (hrun : exec (step env) (forM xs fun (localPath, info) => uploadFile copia o
      (trimEndSlash localRoot) (trimEndSlash remoteRoot) remoteFiles localPath info) s
        = (.ok (), s')) :
    Uploading env localRoot remoteRoot w (xs.map Prod.fst) s' ∧
      ∀ names f, Entry env w localRoot p names f → below localRoot names ∈ xs.map Prod.fst →
        Sends env copia o localRoot remoteRoot w names f →
          Room env w (below remoteRoot names) := by
  refine exec_forM_eq_ok (I := fun done s =>
    Uploading env localRoot remoteRoot w (done.map Prod.fst) s ∧
      ∀ names f, Entry env w localRoot p names f → below localRoot names ∈ done.map Prod.fst →
        Sends env copia o localRoot remoteRoot w names f → Room env w (below remoteRoot names))
    ?_ ⟨hsame.uploading, by simp⟩ hrun
  rintro done ⟨key, i⟩ later s s' rfl ⟨hs, hrooms⟩ hround
  rw [List.append_assoc, List.cons_append] at hb
  obtain ⟨names, f, heq, hentry⟩ := hb.entries (key, i) (by simp)
  cases heq
  obtain ⟨hs', hroom⟩ := hs.step hb hcopia hentry hb.not_mem_done hround
  refine ⟨hs', fun names' f' hentry' hmem hsends => ?_⟩
  rw [List.map_append, List.mem_append] at hmem
  -- an earlier entry, or the one of this round
  rcases hmem with hmem | hmem
  · exact hrooms names' f' hentry' hmem hsends
  · obtain rfl := below_injective (Env.ne_empty_of_diskLoc hentry.loc) (List.mem_singleton.mp hmem)
    obtain rfl : f' = f := by simpa using hentry'.file.symm.trans hentry.file
    exact hroom hsends

/-- The upload loop of a run, after both listings. -/
theorem batch_of_listings {fuel : Nat} {localFiles : FileMap} {w₁ w₂ : World}
    (hremote : remoteRoot ≠ "") (hroot : w.remote.get (env.remoteLoc remoteRoot) ≠ none)
    (hlocal : exec (step env) (listLocalFiles fuel localRoot)
      (exec (step env) (createDir remoteRoot) w).2 = (.ok localFiles, w₁))
    (hlist : exec (step env) (listRemoteFiles fuel remoteRoot) w₁ = (.ok remoteFiles, w₂)) :
    SameTrees w w₂ ∧ w.remote.get (env.remoteLoc remoteRoot) = some .dir ∧
      ∃ p, env.diskLoc localRoot = some p ∧ w.disk.get p = some .dir ∧
        Lists localInfo w.disk p localRoot (fun _ => True) localFiles ∧
        ∀ localOrder : IterOrder, Batch env localRoot remoteRoot p w remoteFiles
          (localOrder.order localFiles.items) := by
  -- the root exists, so creating it changes nothing
  obtain ⟨hdisk₀, -, hremote₀⟩ := exec_createDir env w remoteRoot
  obtain ⟨p, hp, hdir, hsame₁, hlists⟩ := listLocalFiles_lists hlocal
  obtain ⟨hsame₂, hrdir, hrlists⟩ := listRemoteFiles_lists hremote hlist
  rw [hsame₁.remote, hremote₀ hroot] at hrdir hrlists
  rw [hdisk₀] at hdir hlists
  refine ⟨⟨hsame₂.remote.trans (hsame₁.remote.trans (hremote₀ hroot)),
    hsame₂.disk.trans (hsame₁.disk.trans hdisk₀)⟩, hrdir, p, hp, hdir, hlists, fun localOrder =>
    ⟨hremote, fun e he => ?_, nodup_order_keys localOrder, hrlists.lookup_below hremote⟩⟩
  obtain ⟨names, f, hkey, hinfo, hentry⟩ := hlists.entry hp hdir (mem_order_lookup localOrder he)
  exact ⟨names, f, Prod.ext hkey hinfo, hentry⟩

end Loop

/-! ## Suffixes

The hashes behind the suffixes are not under the control of a run, so any may be drawn. Where each
part of a program can return with some hashes, the whole can return with the hashes of the parts. -/

/-- The environment in which these hashes are drawn. -/
def Env.drawing (env : Env) (hash : Nat → UInt64) : Env := { env with hash := hash }

section Drawing

variable {env : Env} {α β : Type} {hash hash' : Nat → UInt64} {s s' : World}

theorem step_drawing (op : FileOp) (w : World) (h : hash' w.tick = hash w.tick) :
    step (env.drawing hash') op w = step (env.drawing hash) op w := by
  cases op with
  | suffixHash => exact congrArg (·, w.next) h
  | _ => rfl

theorem exec_drawing_congr {x : FileM α}
    (h : ∀ n, s.tick ≤ n → n < (exec (step (env.drawing hash)) x s).2.tick → hash' n = hash n) :
    exec (step (env.drawing hash')) x s = exec (step (env.drawing hash)) x s :=
  exec_congr World.tick (fun op t => step_tick _ op t)
    fun op t hfrom hto => step_drawing op t (h t.tick hfrom hto)

/-- Draw the hashes of the first part until it is over, and those of the second part from there. -/
theorem exists_drawing_bind {x : FileM α} {g : α → FileM β} {a : α}
    (hx : exec (step (env.drawing hash)) x s = (.ok a, s'))
    (hg : ∃ hash b t, exec (step (env.drawing hash)) (g a) s' = (.ok b, t)) :
    ∃ hash b t, exec (step (env.drawing hash)) (x >>= g) s = (.ok b, t) := by
  obtain ⟨later, b, t, hg⟩ := hg
  set both : Nat → UInt64 := fun n => if n < s'.tick then hash n else later n
  have hfirst : exec (step (env.drawing both)) x s = (.ok a, s') := by
    rw [← hx]
    refine exec_drawing_congr fun n _ hn => if_pos ?_
    rwa [hx] at hn
  have hsecond : exec (step (env.drawing both)) (g a) s' = (.ok b, t) := by
    rw [← hg]
    exact exec_drawing_congr fun n hn _ => if_neg (by omega)
  exact ⟨both, b, t, (exec_bind_ok hfirst g).trans hsecond⟩

end Drawing

section Room

variable {env : Env} {copia : Copia} {o : RsyncOpts} {localRoot remoteRoot : String} {p : Loc}
  {remoteFiles : FileMap} {xs done rest : List (String × RemoteFileInfo)} {names : List FileName}
  {f : File} {w s : World}

theorem Entry.drawing (hentry : Entry env w localRoot p names f) (hash : Nat → UInt64) :
    Entry (env.drawing hash) w localRoot p names f := ⟨hentry.ne_nil, hentry.loc, hentry.file⟩

theorem Batch.drawing (hb : Batch env localRoot remoteRoot p w remoteFiles xs)
    (hash : Nat → UInt64) : Batch (env.drawing hash) localRoot remoteRoot p w remoteFiles xs := by
  refine ⟨hb.root, fun e he => ?_, hb.nodup, hb.listed⟩
  obtain ⟨names, f, rfl, hentry⟩ := hb.entries e he
  exact ⟨names, f, rfl, hentry.drawing hash⟩

theorem Uploading.drawing {keys : List String}
    (hs : Uploading env localRoot remoteRoot w keys s) (hash : Nat → UInt64) :
    Uploading (env.drawing hash) localRoot remoteRoot w keys s := ⟨hs.disk, hs.remote⟩

theorem Uploading.of_drawing {keys : List String} {hash : Nat → UInt64}
    (hs : Uploading (env.drawing hash) localRoot remoteRoot w keys s) :
    Uploading env localRoot remoteRoot w keys s := ⟨hs.disk, hs.remote⟩

/-- A round without failures returns `Ok` with some suffix, if there is room for what it sends. -/
theorem exists_round_ok (hok : env.NoFailure)
    (hs : Uploading env localRoot remoteRoot w (done.map Prod.fst) s)
    (hb : Batch env localRoot remoteRoot p w remoteFiles (done ++ rest)) (hcopia : copia.Lawful)
    (hentry : Entry env w localRoot p names f) (hnew : below localRoot names ∉ done.map Prod.fst)
    (hshort : ∀ e ∈ done, e.1.length ≤ (below localRoot names).length)
    (hroom : Sends env copia o localRoot remoteRoot w names f →
      Room env w (below remoteRoot names)) :
    ∃ hash s', exec (step (env.drawing hash)) (uploadFile copia o (trimEndSlash localRoot)
      (trimEndSlash remoteRoot) remoteFiles (below localRoot names) (localInfo f)) s
        = (.ok (), s') := by
  rw [uploadFile_below _ _ _ _ _ hentry.ne_nil]
  split
  · exact ⟨env.hash, s, rfl⟩
  next hkept =>
  by_cases hsend : MustSend copia o f
      (w.remote.fileAt (names.reverse ++ env.remoteLoc remoteRoot))
  case neg =>
    cases hs.round hb hcopia (o := o) hentry hnew with
    | idle _ _ hok' => exact ⟨env.hash, hok'⟩
    | unread hfails => exact absurd hok hfails
    | sends hsend' => exact absurd hsend' hsend
  -- draw the suffix whose temp name was free at the start
  obtain ⟨hplace, hash, hfree⟩ := hroom ⟨Bool.eq_false_iff.mpr hkept, hsend⟩
  refine ⟨fun _ => hash, ?_⟩
  cases (hs.drawing fun _ => hash).round (hb.drawing _) hcopia (o := o) (hentry.drawing _) hnew with
  | idle hidle => exact absurd hsend hidle
  | unread hfails => exact absurd (fun n => hok n) hfails
  | sends _ s₁ hsame hcomes =>
    have hs₁ := hs.of_sameTrees hsame
    rw [hcomes.exec_eq]
    refine sendTo_ok (fun n => hok n) hb.root hentry.ne_nil ?_
      (hs₁.temp_free hb.root hentry.ne_nil hshort hfree)
    rw [remoteLoc_below env hb.root] at hplace
    rw [remoteLoc_below _ hb.root]
    exact (hs₁.writable_eq hb hentry hnew).trans hplace

/-- **Where there is room for everything that is to be sent, some suffixes get the loop through**,
if it goes from short paths to longer ones. -/
theorem exists_uploads_ok (hok : env.NoFailure) (hcopia : copia.Lawful)
    (hs : Uploading env localRoot remoteRoot w (done.map Prod.fst) s)
    (hb : Batch env localRoot remoteRoot p w remoteFiles (done ++ rest))
    (hsorted : (done ++ rest).Pairwise fun e e' => e.1.length ≤ e'.1.length)
    (hroom : ∀ names f, Entry env w localRoot p names f →
      Sends env copia o localRoot remoteRoot w names f → Room env w (below remoteRoot names)) :
    ∃ hash b t, exec (step (env.drawing hash)) (forM rest fun (localPath, info) => uploadFile copia
      o (trimEndSlash localRoot) (trimEndSlash remoteRoot) remoteFiles localPath info) s
        = (.ok b, t) := by
  induction rest generalizing done s with
  | nil => exact ⟨env.hash, (), s, rfl⟩
  | cons e rest ih =>
    obtain ⟨names, f, rfl, hentry⟩ := hb.entries e (by simp)
    have hnew := hb.not_mem_done
    have hshort : ∀ e ∈ done, e.1.length ≤ (below localRoot names).length := fun e he =>
      (List.pairwise_append.mp hsorted).2.2 e he _ List.mem_cons_self
    obtain ⟨hash, s', hround⟩ := exists_round_ok (o := o) hok hs hb hcopia hentry hnew hshort
      (hroom names f hentry)
    have hs' := ((hs.drawing hash).step (hb.drawing hash) hcopia (hentry.drawing hash) hnew
      hround).1.of_drawing
    rw [List.append_cons] at hb hsorted
    rw [List.forM_cons]
    exact exists_drawing_bind hround (ih hs' hb hsorted)

end Room

end Passhrs
