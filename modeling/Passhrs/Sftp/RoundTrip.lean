import Passhrs.Sftp.Pull
import Passhrs.Sftp.Push

/-!
# Push, then pull

* **`pullPath_copies`**: a pull in which no operation fails makes a copy of the remote subtree.
* **`push_pull`**: what is pulled back is what was pushed.
-/

namespace Passhrs

open Effects SlashPath FileTree

/-! ## Writing one local file -/

section Write

variable {env : Env} {w w' : World}

theorem sound_atomicWriteLocal (path : String) (data : Bytes) :
    Sound (atomicWriteLocal path data) := by
  refine succeeds_bind (Q := fun _ => True) (sound_call fun _ _ => rfl) fun suffix _ => ?_
  refine succeeds_bind (succeeds_attempt (Q := fun _ => True) ?_) ?_
  · refine succeeds_bind (sound_withContext (sound_call fun _ h => h)) fun file _ => ?_
    refine succeeds_bind (sound_withContext (sound_call fun _ h => h)) fun _ _ => ?_
    refine succeeds_bind (succeeds_ignore _) fun _ _ => ?_
    refine succeeds_bind (sound_withContext (sound_call fun _ h => h)) fun _ _ => ?_
    exact sound_withContext (sound_call fun _ h => h)
  · rintro _ ⟨⟨⟩, rfl, -⟩
    exact succeeds_pure trivial

/-- When no operation fails, not even a `flush`, all data reaches the target. -/
theorem exec_atomicWriteLocal {path : String} {data : Bytes} {p : Loc}
    (hp : env.diskLoc path = some p) (hlog : Unfailing env (atomicWriteLocal path data) w) :
    ∃ w' f, exec (step env) (atomicWriteLocal path data) w = (.ok (), w') ∧
      w'.remote = w.remote ∧ f.content = data ∧
      ∀ x, w'.disk.get x = if x = p then some (.file f) else w.disk.get x := by
  obtain ⟨⟨⟩, w', hrun⟩ := exec_ok_of_unfailing hlog (sound_atomicWriteLocal path data)
  set tmp := localTmp path (tmpSuffix (env.hash w.tick)) with htmp
  have htmpLoc : env.diskLoc tmp = some (walk env.cwd tmp) := diskLoc_localTmp env path _
  have hne : env.diskLoc path ≠ some (walk env.cwd tmp) := diskLoc_ne_localTmp env path _
  rcases exec_writeLocalTemp (w := w.next) data htmpLoc hne with
    ⟨hd, f, q, w₁, hexec, hremote, hq, hcontent, hget⟩ | ⟨-, e, w₁, hexec, -⟩
  · obtain rfl := Option.some.inj (hq.symm.trans hp)
    refine ⟨w₁, f, exec_atomicWriteLocal_of_ok hexec, hremote, ?_, hget⟩
    by_contra hshort
    rw [hcontent] at hshort
    -- the log has the flush of the short write
    unfold atomicWriteLocal at hlog
    have hblock : Unfailing env (writeLocalTemp tmp path data) w.next :=
      issues_attempt.mp (hlog.right (exec_randomTmpSuffix env w)).left
    unfold writeLocalTemp at hblock
    obtain ⟨w₂, hopen, hstep⟩ :=
      exec_fsOpenCreateNew hd.opens.1 htmpLoc hd.opens.2.1 hd.opens.2.2
    replace hblock := hblock.right (by rw [exec_withContext, hopen]; rfl)
    obtain ⟨⟨⟩, w₃, hwrite⟩ :=
      exec_ok_of_unfailing hblock.left (sound_withContext (sound_call fun _ h => h))
    have hflush := issues_call.mp (issues_ignore.mp (hblock.right hwrite).left)
    rw [exec_withContext_eq_ok] at hwrite
    obtain rfl : (exec (step env) (fsWriteAll ⟨walk env.cwd tmp, w.next.tick⟩ data) w₂).2 = w₃ := by
      rw [hwrite]
    have hquiet : (env.fault w₂.tick).onDisk.reported = false := by
      rw [hstep.tick]
      exact hd.writes
    have hlost : (env.fault w₂.tick).onDisk.wrote data ≠ data := by rwa [hstep.tick]
    have hfails := Env.awaitWrites_of_lost env w₂ ⟨walk env.cwd tmp, w.next.tick⟩
      (fun bytes => { w₂.next with
        disk := w₂.disk.append ⟨walk env.cwd tmp, w.next.tick⟩ bytes (env.clock w₂.tick) })
      hquiet hlost
    rw [show step env (.fsFlush _) _ = env.awaitWrites _ _ from rfl,
      show exec (step env) (fsWriteAll _ data) w₂ = env.diskWriteAll w₂ _ data from rfl,
      Env.diskWriteAll, hfails] at hflush
    cases hflush
  · rw [(exec_atomicWriteLocal_of_error hexec).1] at hrun
    cases hrun

end Write

/-! ## The recursion of `pull_path` -/

/-- With this fuel, a pull of an existing entry into a directory that has no entry of that name,
and in which no operation fails, makes a copy. -/
def PullCopies (printable : Char → Bool) (env : Env) (fuel : Nat) : Prop :=
  ∀ (remote dir : String) (n : FileName) (d : Loc) (w : World),
    remote ≠ "" → env.diskLoc dir = some d → w.disk.get d = some .dir →
    w.disk.get (n :: d) = none → w.remote.get (env.remoteLoc remote) ≠ none →
    (∀ ns, w.remote.get (ns ++ env.remoteLoc remote) ≠ none → ns.length < fuel) →
    Unfailing env (pullPath printable fuel remote (child dir n.str)) w →
    ∃ w', exec (step env) (pullPath printable fuel remote (child dir n.str)) w = (.ok (), w') ∧
      w'.remote = w.remote ∧
      Copies File.kept w.remote (env.remoteLoc remote) w.disk w'.disk (n :: d)

section Pull

variable {printable : Char → Bool} {env : Env} {fuel : Nat} {remote localPath : String} {p : Loc}
  {w : World}

/-- The entries of a directory, pulled into an empty one. -/
theorem PullCopies.entries (h : PullCopies printable env fuel) (hremote : remote ≠ "")
    (hp : env.diskLoc localPath = some p) {u : Tree}
    (hstart : Copying File.kept w.remote (env.remoteLoc remote) u p [] w.disk)
    (hfuel : ∀ ns, w.remote.get (ns ++ env.remoteLoc remote) ≠ none → ns.length < fuel + 1)
    (hlog : Unfailing env (do
      let entries ← withContext s!"cannot read remote directory: {remote}" (readDir remote)
      forM entries fun name =>
        pullPath printable fuel (child remote name) (child localPath name)) w) :
    ∃ w', exec (step env) (do
      let entries ← withContext s!"cannot read remote directory: {remote}" (readDir remote)
      forM entries fun name =>
        pullPath printable fuel (child remote name) (child localPath name)) w
        = (.ok (), w') ∧ w'.remote = w.remote ∧
      Copies File.kept w.remote (env.remoteLoc remote) u w'.disk p := by
  obtain ⟨names, w₁, hread, hrun, hlog⟩ :=
    Unfailing.withContext_bind hlog (sound_call fun _ h => h)
  rw [hrun]
  obtain ⟨hdir, rfl, rfl⟩ := exec_readDir_eq_ok hread
  rw [forM_map] at hlog ⊢
  have hcopy := exec_forM_ok_of_issues
    (I := fun done s => s.remote = w.remote ∧ Copying File.kept w.remote (env.remoteLoc remote) u p
      done s.disk) ?_ ⟨rfl, hstart⟩ hlog
  · obtain ⟨w', hloop, hsame, hcopying⟩ := hcopy
    exact ⟨w', hloop, hsame, hcopying.finish hdir⟩
  -- the next child: its place is still empty, and one level of fuel is left for it
  · rintro done n rest s hsplit ⟨hsame, hcopying⟩ hround
    obtain ⟨hmem, hn⟩ := next_child hsplit
    have hloc : env.remoteLoc (child remote n.str) = n :: env.remoteLoc remote :=
      walk_child_name _ _ _ hremote
    have hfuel' : ∀ ns, s.remote.get (ns ++ n :: env.remoteLoc remote) ≠ none →
        ns.length < fuel := by
      intro ns hns
      rw [hsame] at hns
      have hlen := hfuel (ns ++ [n]) (by simpa using hns)
      simpa using hlen
    obtain ⟨s', hexec, hsame', hcopies⟩ := h (child remote n.str) localPath n p s
      (child_ne_empty remote n.str) hp hcopying.dir (hcopying.absent n hn)
      (by rwa [hloc, hsame]) (by rwa [hloc]) hround
    rw [hloc, hsame] at hcopies
    exact ⟨s', hexec, hsame'.trans hsame, hcopying.next hn hcopies⟩

/-- A directory is pulled entry by entry, once the local directory has been made. -/
theorem PullCopies.pullDir (h : PullCopies printable env fuel) (hremote : remote ≠ "")
    (hp : env.diskLoc localPath = some p)
    (hrdir : w.remote.get (env.remoteLoc remote) = some .dir) {u : Tree}
    (hstart : (w.disk.makeDirAll p).1 = .ok () → Copying File.kept w.remote (env.remoteLoc remote) u
      p [] (w.disk.makeDirAll p).2)
    (hfuel : ∀ ns, w.remote.get (ns ++ env.remoteLoc remote) ≠ none → ns.length < fuel + 1)
    (hlog : Unfailing env (pullPath printable (fuel + 1) remote localPath) w) :
    ∃ w', exec (step env) (pullPath printable (fuel + 1) remote localPath) w = (.ok (), w') ∧
      w'.remote = w.remote ∧ Copies File.kept w.remote (env.remoteLoc remote) u w'.disk p := by
  rw [pullPath] at hlog ⊢
  obtain ⟨stat, w₁, hstat, hrun, hlog⟩ := Unfailing.attempt_bind hlog (sound_call fun _ h => h)
  rw [hrun]
  obtain ⟨⟨-, rfl⟩ | ⟨f, hf, -⟩, rfl⟩ := exec_metadata_eq_ok hstat
  swap
  · rw [hrdir] at hf
    cases hf
  dsimp only at hlog ⊢
  rw [isDir_dirMetadata, if_pos rfl] at hlog ⊢
  -- the local directory is made before the remote one is read
  obtain ⟨⟨⟩, w₂, hmake, hrun, hlog⟩ :=
    Unfailing.withContext_bind hlog (sound_call fun _ h => h)
  rw [hrun]
  obtain ⟨hmade, hremote₂, hdisk₂⟩ := exec_fsCreateDirAll_eq_ok hp hmake
  rw [World.next_remote] at hremote₂
  rw [← hremote₂] at hfuel hstart ⊢
  refine h.entries hremote hp ?_ hfuel hlog
  rw [hdisk₂]
  exact hstart hmade

/-- Writing one pulled file, and giving it its mode. -/
theorem exec_writePulled {path : String} {p : Loc} {f : File} (hp : env.diskLoc path = some p)
    (hlog : Unfailing env (do
      atomicWriteLocal path f.content
      ignore (applyLocalMode path (sIfreg ||| (f.perm &&& 0o7777)))) w) {u : Tree} {q : Loc}
    (hf : u.get q = some (.file f)) :
    ∃ w', exec (step env) (do
      atomicWriteLocal path f.content
      ignore (applyLocalMode path (sIfreg ||| (f.perm &&& 0o7777)))) w = (.ok (), w') ∧
      w'.remote = w.remote ∧ Copies File.kept u q w.disk w'.disk p := by
  obtain ⟨w₁, g, hwrite, hremote₁, hdata, hget₁⟩ := exec_atomicWriteLocal hp hlog.left
  replace hlog := hlog.right hwrite
  rw [exec_bind_ok hwrite, exec_ignore]
  obtain ⟨⟨⟩, w₂, hmode⟩ := exec_ok_of_unfailing (issues_ignore.mp hlog)
    (sound_withContext (sound_call fun _ h => h))
  rw [hmode]
  unfold applyLocalMode at hmode
  rw [exec_withContext_eq_ok] at hmode
  obtain ⟨hremote₂, hget₂⟩ := exec_fsSetPermissions_eq_ok hp (by rw [hget₁, if_pos rfl]) hmode
  have hget : ∀ x, w₂.disk.get x = if x = p then some (.file { g with
      perm := ((sIfreg ||| (f.perm &&& 0o7777)) &&& 0o7777) &&& 0o7777 }) else w.disk.get x := by
    intro x
    rw [hget₂, hget₁]
    split <;> rfl
  refine ⟨w₂, rfl, hremote₂.trans hremote₁, copies_of_file hf ?_ hget⟩
  -- masked three times over, the bits are still those of the source
  show (g.content, _) = (f.content, _)
  rw [hdata, UInt32.and_assoc, UInt32.and_self, UInt32.and_assoc, UInt32.and_self, perm_of_stat]

theorem pullCopies (printable : Char → Bool) (env : Env) (fuel : Nat) :
    PullCopies printable env fuel := by
  induction fuel with
  | zero =>
    intro remote dir n d w _ _ _ _ hnode hfuel
    exact absurd (hfuel [] hnode) (by simp)
  | succ fuel ih =>
    intro remote dir n d w hremote hdir hd hfresh hnode hfuel hlog
    have hloc : env.diskLoc (child dir n.str) = some (n :: d) := diskLoc_below hdir [n]
    obtain ⟨node, hnode⟩ := Option.ne_none_iff_exists'.mp hnode
    cases node with
    | dir =>
      exact ih.pullDir hremote hloc hnode
        (fun _ => Copying.start hfresh (Tree.get_makeDirAll hd hfresh)) hfuel hlog
    | file f =>
      rw [pullPath] at hlog ⊢
      obtain ⟨stat, w₁, hstat, hrun, hlog⟩ :=
        Unfailing.attempt_bind hlog (sound_call fun _ h => h)
      rw [hrun]
      obtain ⟨⟨hdir', -⟩ | ⟨f', hf, rfl⟩, rfl⟩ := exec_metadata_eq_ok hstat
      · rw [hnode] at hdir'
        cases hdir'
      dsimp only at hlog ⊢
      rw [isDir_fileMetadata, if_neg Bool.false_ne_true] at hlog ⊢
      obtain ⟨data, w₂, hread, hrun, hlog⟩ :=
        Unfailing.withContext_bind hlog (sound_call fun _ h => h)
      rw [hrun]
      obtain ⟨⟨f', hf', rfl⟩, rfl⟩ := exec_read_eq_ok hread
      rw [World.next_remote, hf] at hf'
      cases hf'
      have hdirNe : dir ≠ "" := by
        rintro rfl
        cases hdir
      obtain ⟨parentPath, n', hparent, -, hnorm⟩ := parent_child hdirNe n.descends
      rw [hparent] at hlog ⊢
      obtain ⟨⟨⟩, w₃, hmake, hrun, hlog⟩ :=
        Unfailing.withContext_bind hlog (sound_call fun _ h => h)
      rw [hrun]
      have hsame := exec_fsCreateDirAll_of_dir (fun q hq => ?_) hmake
      · obtain ⟨w', hexec, hremote', hcopies⟩ := exec_writePulled hloc hlog hf
        rw [hsame.disk] at hcopies
        exact ⟨w', hexec, hremote'.trans hsame.remote, hcopies⟩
      · -- the parent is the directory itself, which is there
        unfold Env.diskLoc at hq hloc
        rw [if_neg (child_ne_empty dir n.str), walk, hnorm, Normal.locate_cons] at hloc
        split at hq
        · cases hq
        · obtain rfl := Option.some.inj hq
          obtain ⟨-, rfl⟩ := List.cons.inj (Option.some.inj hloc)
          exact hd

end Pull

/-! ## The round trip -/

/-- **Push then pull is the identity.** A directory that is pushed to a fresh remote path and
pulled from there to a fresh local path, without a failing operation, arrives with the same
directories and files, and each file with its content and its permission bits. The two runs may
spell the remote path in two ways. -/
theorem push_pull {printable : Char → Bool} {env : Env} {w : World}
    {localRoot remoteRoot remoteRoot' pulledRoot : String} {p p' : Loc} {fuel : Nat}
    (hp : env.diskLoc localRoot = some p) (hdir : w.disk.get p = some .dir)
    (hremote : remoteRoot ≠ "") (hfresh : w.remote.get (env.remoteLoc remoteRoot) = none)
    (hremote' : remoteRoot' ≠ "")
    (hsame : env.remoteLoc remoteRoot' = env.remoteLoc remoteRoot)
    (hp' : env.diskLoc pulledRoot = some p') (hfresh' : w.disk.get p' = none)
    (hfuel : w.disk.depth < fuel)
    (hpush : Unfailing env (pushPath fuel localRoot remoteRoot) w)
    (hpull : Unfailing env (pullPath printable fuel remoteRoot' pulledRoot)
      (exec (step env) (pushPath fuel localRoot remoteRoot) w).2) :
    ∃ w₁ w₂, exec (step env) (pushPath fuel localRoot remoteRoot) w = (.ok (), w₁) ∧
      exec (step env) (pullPath printable fuel remoteRoot' pulledRoot) w₁ = (.ok (), w₂) ∧
      SameBelow File.kept w.disk p w₂.disk p' := by
  have hlength : ∀ ns, w.disk.get (ns ++ p) ≠ none → ns.length < fuel := by
    intro ns hns
    have hlen := length_le_depth hns
    rw [List.length_append] at hlen
    omega
  obtain ⟨w₁, hexec, hdisk, hcopies⟩ :=
    pushPath_copies fuel hp hremote (by simp [hdir]) hlength hfresh hpush
  rw [← hsame] at hcopies
  rw [hexec] at hpull
  replace hpull : Unfailing env (pullPath printable fuel remoteRoot' pulledRoot) w₁ := hpull
  -- the pulled directory starts empty, whatever ancestors had to be made
  have hstart : (w₁.disk.makeDirAll p').1 = .ok () → Copying File.kept w₁.remote
      (env.remoteLoc remoteRoot') (w₁.disk.makeDirAll p').2 p' [] (w₁.disk.makeDirAll p').2 := by
    intro hmade
    obtain ⟨hdir', hbelow⟩ := Tree.makeDirAll_eq_ok hmade
    refine Copying.of_empty hdir' fun n => ?_
    rw [← List.singleton_append, hbelow [n] (List.cons_ne_nil n []), hdisk]
    exact get_child_eq_none hfresh' n
  have hlength' : ∀ ns, w₁.remote.get (ns ++ env.remoteLoc remoteRoot') ≠ none →
      ns.length < fuel := fun ns hns =>
    hlength ns fun hnone => hns ((hcopies.same.get_eq_none_iff ns).mp hnone)
  obtain ⟨fuel, rfl⟩ := Nat.exists_eq_succ_of_ne_zero (Nat.ne_zero_of_lt hfuel)
  obtain ⟨w₂, hexec₂, -, hcopies₂⟩ := (pullCopies printable env fuel).pullDir hremote' hp'
    (hcopies.same.dir hdir) hstart hlength' hpull
  exact ⟨w₁, w₂, hexec, hexec₂, hcopies.same.trans hcopies₂.same⟩

/-- An empty directory, and a file that its owner alone may read and run. -/
theorem push_pull_two_entries :
    let w := World.start FileTree.empty ((FileTree.mkdir (Tree.dirWith ⟨"l", by decide⟩ [])
      [⟨"d", by decide⟩, ⟨"l", by decide⟩]).setFile [⟨"f", by decide⟩, ⟨"l", by decide⟩]
        ⟨[1, 2], 0o4500, 0, 0⟩)
    ∃ w₁ w₂, exec (step .reliable) (pushPath 9 "/l/" "/r") w = (.ok (), w₁) ∧
      exec (step .reliable) (pullPath (fun _ => true) 9 "/r//" "/new/m/") w₁ = (.ok (), w₂) ∧
      SameBelow File.kept w.disk [⟨"l", by decide⟩] w₂.disk
        [⟨"m", by decide⟩, ⟨"new", by decide⟩] := by
  apply push_pull
  all_goals decide +kernel

end Passhrs
