import Passhrs.Sftp.Rsync
import Passhrs.Lib.TreeCopy

/-!
# `push_path`

Recursive upload. Each file is written through a temp file and then given the mode of its source.

* **`pushPath_copies`**: a push to a fresh remote path in which no operation fails makes a copy of
  the local subtree there, and changes nothing else.
-/

namespace Passhrs

open Effects SlashPath FileTree

/-- `push_path`. A failure to keep the mode is only logged. -/
def pushPath : Nat → String → String → FileM Unit
  | 0, _, _ => throw ⟨[], .outOfFuel⟩
  | fuel + 1, localPath, remote => do
    let stat ← withContext s!"cannot stat local path: {localPath}" (fsMetadata localPath)
    if stat.isDir then
      ignore (createDir remote)
      let dir ← withContext s!"cannot read local directory: {localPath}" (fsReadDir localPath)
      forM dir fun name => do
        propagate (fsNextEntry localPath)
        pushPath fuel (child localPath name) (child remote name)
      -- the call that finds no further entry
      propagate (fsNextEntry localPath)
    else
      let content ← withContext s!"cannot read local file: {localPath}" (fsRead localPath)
      atomicWriteRemote remote content
      ignore (setRemoteMode remote stat.mode)

/-! ## What a copy keeps of a file -/

/-- The content and the permission bits (`mode & 0o7777`). -/
def File.kept (f : File) : Bytes × UInt32 := (f.content, f.perm &&& 0o7777)

/-- Putting permission bits into a mode and taking them out again. -/
theorem perm_of_mode (kind mode : UInt32) :
    ((kind &&& sIfmt) ||| (mode &&& 0o7777)) &&& 0o7777 = mode &&& 0o7777 := by
  rw [UInt32.or_comm, or_and_of_disjoint _ kind (by decide), UInt32.and_assoc, UInt32.and_self]

/-- What `stat` says of a file's permission bits is what they are. -/
theorem perm_of_stat (perm : UInt32) :
    (sIfreg ||| (perm &&& 0o7777)) &&& 0o7777 = perm &&& 0o7777 :=
  perm_of_mode sIfreg perm

section Steps

variable {env : Env} {w : World}

theorem sound_atomicWriteRemote (path : String) (data : Bytes) :
    Sound (atomicWriteRemote path data) := by
  refine succeeds_bind (Q := fun _ => True) (sound_call fun _ _ => rfl) fun suffix _ => ?_
  refine succeeds_bind (succeeds_attempt (Q := fun _ => True) ?_) ?_
  · refine succeeds_bind (sound_withContext (sound_call fun _ h => h)) fun file _ => ?_
    refine succeeds_bind (sound_withContext (sound_call fun _ h => h)) fun _ _ => ?_
    refine succeeds_bind (succeeds_ignore _) fun _ _ => succeeds_bind (succeeds_ignore _)
      fun _ _ => succeeds_bind (succeeds_ignore _) fun _ _ => succeeds_bind (succeeds_ignore _)
      fun _ _ => ?_
    exact sound_withContext (sound_call fun _ h => h)
  · rintro _ ⟨⟨⟩, rfl, -⟩
    exact succeeds_pure trivial

/-- When no operation fails, not even a `flush`, all data reaches the target. -/
theorem exec_atomicWriteRemote_of_unfailing {path : String} {data : Bytes}
    (hlog : Unfailing env (atomicWriteRemote path data) w) :
    ∃ w' f, exec (step env) (atomicWriteRemote path data) w = (.ok (), w') ∧ w'.disk = w.disk ∧
      f.content = data ∧
      ∀ x, w'.remote.get x = if x = env.remoteLoc path then some (.file f) else w.remote.get x := by
  obtain ⟨⟨⟩, w', hrun⟩ := exec_ok_of_unfailing hlog (sound_atomicWriteRemote path data)
  obtain ⟨hdisk, f, hcontent, hget⟩ := atomicWriteRemote_eq_ok hrun
  refine ⟨w', f, hrun, hdisk, ?_, hget⟩
  by_contra hshort
  obtain ⟨hopens, hwrites, hfree, hplace⟩ := (completes_of_ok hrun).staged
  rw [hcontent] at hshort
  -- the log has the flush of the short write
  unfold atomicWriteRemote at hlog
  have hblock : Unfailing env (writeRemoteTemp (remoteTmp env w path) path data) w.next :=
    issues_attempt.mp (hlog.right (exec_randomTmpSuffix env w)).left
  unfold writeRemoteTemp at hblock
  obtain ⟨w₂, hopen, hstep⟩ := exec_openWithFlags hopens hfree hplace
  replace hblock := hblock.right (by rw [exec_withContext, hopen]; rfl)
  obtain ⟨⟨⟩, w₃, hwrite⟩ :=
    exec_ok_of_unfailing hblock.left (sound_withContext (sound_call fun _ h => h))
  have hflush := issues_call.mp (issues_ignore.mp (hblock.right hwrite).left)
  rw [exec_withContext_eq_ok] at hwrite
  obtain rfl : (env.remoteWriteAll w₂ ⟨env.remoteLoc (remoteTmp env w path), w.next.tick⟩ data).2
      = w₃ := congrArg Prod.snd hwrite
  have hquiet : (env.fault w₂.tick).reported = false := by rwa [hstep.tick]
  have hlost : (env.fault w₂.tick).wrote data ≠ data := by rwa [hstep.tick]
  have hfails := Env.awaitWrites_of_lost env w₂
    ⟨env.remoteLoc (remoteTmp env w path), w.next.tick⟩ (fun bytes => { w₂.next with
      remote := w₂.remote.append ⟨env.remoteLoc (remoteTmp env w path), w.next.tick⟩ bytes
        (env.clock w₂.tick) }) hquiet hlost
  rw [show step env (.flush _) _ = env.awaitWrites _ _ from rfl, Env.remoteWriteAll, hfails]
    at hflush
  cases hflush

/-- Once the mode has been set without an error, its permission bits are the file's. -/
theorem exec_setRemoteMode {path : String} {f : File} {mode : UInt32}
    (hf : w.remote.get (env.remoteLoc path) = some (.file f))
    (hlog : Unfailing env (setRemoteMode path mode) w) :
    let w' := (exec (step env) (setRemoteMode path mode) w).2
    w'.disk = w.disk ∧ ∀ x, w'.remote.get x =
      if x = env.remoteLoc path then some (.file { f with perm := mode &&& 0o7777 })
      else w.remote.get x := by
  unfold setRemoteMode at hlog ⊢
  obtain ⟨cur, w₁, hstat, hrun, hlog⟩ :=
    Unfailing.withContext_bind hlog (sound_call fun _ h => h)
  rw [hrun]
  dsimp only at hlog ⊢
  obtain ⟨hcur, rfl⟩ := exec_metadata_eq_ok hstat
  obtain ⟨⟨⟩, w₂, hset⟩ := exec_ok_of_unfailing hlog (sound_withContext (sound_call fun _ h => h))
  rw [hset]
  rw [exec_withContext_eq_ok] at hset
  obtain ⟨hdisk, hget⟩ := exec_setMetadata_eq_ok (w := w.next) hf hset
  refine ⟨hdisk, fun x => ?_⟩
  rw [hget, perm_of_mode]
  rfl

end Steps

/-! ## The recursion -/

/-- **A push makes a copy.** When no operation fails and the remote path is fresh, the subtree at
`p` is there afterwards, with contents and permission bits, and nothing else has changed. -/
theorem pushPath_copies {env : Env} (fuel : Nat) {localPath remote : String} {p : Loc} {w : World}
    (hp : env.diskLoc localPath = some p) (hremote : remote ≠ "") (hnode : w.disk.get p ≠ none)
    (hfuel : ∀ ns, w.disk.get (ns ++ p) ≠ none → ns.length < fuel)
    (hfresh : w.remote.get (env.remoteLoc remote) = none)
    (hlog : Unfailing env (pushPath fuel localPath remote) w) :
    ∃ w', exec (step env) (pushPath fuel localPath remote) w = (.ok (), w') ∧ w'.disk = w.disk ∧
      Copies File.kept w.disk p w.remote w'.remote (env.remoteLoc remote) := by
  induction fuel generalizing localPath remote p w with
  | zero => exact absurd (hfuel [] hnode) (by simp)
  | succ fuel ih =>
    rw [pushPath] at hlog ⊢
    obtain ⟨stat, w₁, hstat, hrun, hlog⟩ :=
      Unfailing.withContext_bind hlog (sound_call fun _ h => h)
    rw [hrun]
    obtain ⟨p', node, hp', hnode', rfl, rfl⟩ := exec_fsMetadata_eq_ok hstat
    obtain rfl := Option.some.inj (hp'.symm.trans hp)
    cases node with
    | file f =>
      have hfile : ¬ (localMetadata env.dirMode (.file f)).isDir = true := Bool.false_ne_true
      rw [if_neg hfile] at hlog ⊢
      obtain ⟨content, w₁, hread, hrun, hlog⟩ :=
        Unfailing.withContext_bind hlog (sound_call fun _ h => h)
      rw [hrun]
      obtain ⟨⟨q, f', hq, hf', rfl⟩, rfl⟩ := exec_fsRead_eq_ok hread
      obtain rfl := Option.some.inj (hq.symm.trans hp)
      rw [World.next_disk, hnode'] at hf'
      cases hf'
      obtain ⟨w₂, g, hwrite, hdisk, hdata, hget⟩ :=
        exec_atomicWriteRemote_of_unfailing hlog.left
      replace hlog := hlog.right hwrite
      rw [exec_bind_ok hwrite, exec_ignore]
      obtain ⟨hdisk', hget'⟩ :=
        exec_setRemoteMode (by rw [hget, if_pos rfl]) (issues_ignore.mp hlog)
      have hcopied : ∀ x, (exec (step env) (setRemoteMode remote
          (localMetadata env.dirMode (.file f)).mode) w₂).2.remote.get x
          = if x = env.remoteLoc remote then some (.file { g with
              perm := (localMetadata env.dirMode (.file f)).mode &&& 0o7777 })
            else w.remote.get x := by
        intro x
        rw [hget', hget]
        split <;> rfl
      refine ⟨_, rfl, hdisk'.trans hdisk, copies_of_file hnode' ?_ hcopied⟩
      show (g.content, _) = (f.content, _)
      rw [hdata, UInt32.and_assoc, UInt32.and_self]
      exact congrArg _ (perm_of_stat f.perm)
    | dir =>
      have hdir : (localMetadata env.dirMode .dir).isDir = true := rfl
      rw [if_pos hdir] at hlog ⊢
      obtain ⟨⟨⟩, w₁, hcreate, hrun, hlog⟩ :=
        Unfailing.ignore_bind hlog (sound_call fun _ h => h)
      rw [hrun]
      obtain ⟨hdisk₁, -, hget₁⟩ := exec_createDir_eq_ok hcreate
      rw [World.next_disk] at hdisk₁
      obtain ⟨names, w₂, hread, hrun, hlog⟩ :=
        Unfailing.withContext_bind hlog (sound_call fun _ h => h)
      rw [hrun]
      obtain ⟨q, hq, -, rfl, rfl⟩ := exec_fsReadDir_eq_ok hread
      obtain rfl := Option.some.inj (hq.symm.trans hp)
      rw [hdisk₁, forM_map] at hlog ⊢
      -- the loop copies one entry after the other
      have hcopy := exec_forM_ok_of_issues
        (I := fun done s => s.disk = w.disk ∧ Copying File.kept w.disk q w.remote
          (env.remoteLoc remote) done s.remote) ?_ ⟨hdisk₁, Copying.start hfresh hget₁⟩ hlog.left
      · obtain ⟨w₃, hloop, hdisk₃, hcopying⟩ := hcopy
        replace hlog := hlog.right hloop
        rw [exec_bind_ok hloop]
        obtain ⟨⟨⟩, w₄, hend⟩ :=
          exec_ok_of_unfailing hlog (sound_propagate (sound_call fun _ h => h))
        rw [hend]
        rw [exec_propagate_eq_ok] at hend
        obtain rfl := exec_fsNextEntry_eq_ok hend
        exact ⟨w₃.next, rfl, hdisk₃, hcopying.finish hnode'⟩
      · rintro done n rest s hsplit ⟨hdisk, hcopying⟩ hround
        obtain ⟨hmem, hn⟩ := next_child hsplit
        obtain ⟨⟨⟩, s₁, hnext, hrun, hround⟩ :=
          Unfailing.propagate_bind hround (sound_call fun _ h => h)
        rw [hrun]
        obtain rfl := exec_fsNextEntry_eq_ok hnext
        have hloc : env.remoteLoc (child remote n.str) = n :: env.remoteLoc remote :=
          walk_child_name _ _ _ hremote
        have hfuel' : ∀ ns, s.next.disk.get (ns ++ n :: q) ≠ none → ns.length < fuel := by
          intro ns hns
          rw [World.next_disk, hdisk] at hns
          have hlen := hfuel (ns ++ [n]) (by simpa using hns)
          simpa using hlen
        obtain ⟨s', hexec, hdisk', hcopies⟩ := ih (w := s.next) (diskLoc_below hp [n])
          (child_ne_empty remote n.str) (by rwa [World.next_disk, hdisk]) hfuel'
          (by rw [hloc]; exact hcopying.absent n hn) hround
        rw [World.next_disk, hdisk, hloc] at hcopies
        exact ⟨s', hexec, hdisk'.trans hdisk, hcopying.next hn hcopies⟩

end Passhrs
