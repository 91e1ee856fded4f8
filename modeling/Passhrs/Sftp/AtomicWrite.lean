import Passhrs.Sftp.Steps
import Passhrs.Lib.PathComponents

/-!
# Atomic writes

`atomic_write_remote` and `atomic_write_local`: stage the data in a sibling temp file, then rename
it over the target. Log output is left out.
-/

namespace Passhrs

open Effects SlashPath

/-! ## Temp names -/

/-- `ALPHABET` of `random_tmp_suffix`. -/
def alphabet : List Char :=
  "abcdefghijklmnopqrstuvwxyzABCDEFGHIJKLMNOPQRSTUVWXYZ0123456789".toList

/-- The six characters that `random_tmp_suffix` draws from its hash, ten bits apart. -/
def tmpSuffix (hash : UInt64) : String :=
  String.ofList ((List.range 6).map fun i =>
    let shift := i * 10
    alphabet.get ⟨(hash >>> UInt64.ofNat shift).toNat % alphabet.length,
      Nat.mod_lt _ (by decide)⟩)

def randomTmpSuffix : FileM String := do
  let hash ← suffixHash
  pure (tmpSuffix hash)

theorem exec_randomTmpSuffix (env : Env) (w : World) :
    exec (step env) randomTmpSuffix w = (.ok (tmpSuffix (env.hash w.tick)), w.next) := rfl

theorem slash_not_mem_tmpSuffix (hash : UInt64) : '/' ∉ (".tmp." ++ tmpSuffix hash).toList := by
  have halphabet : '/' ∉ alphabet := by decide
  rw [String.toList_append, List.mem_append, tmpSuffix]
  rintro (h | h)
  · exact absurd h (by decide)
  · rw [String.toList_ofList] at h
    obtain ⟨i, -, hi⟩ := List.mem_map.mp h
    exact halphabet (hi ▸ List.get_mem ..)

theorem length_tmpSuffix (hash : UInt64) : (".tmp." ++ tmpSuffix hash).length = 11 := by
  have hsuffix : (tmpSuffix hash).length = 6 := by simp [tmpSuffix]
  rw [String.length_append, hsuffix]
  rfl

/-! ## `atomic_write_remote` -/

/-- The `async` block of `atomic_write_remote`: everything before the cleanup. -/
def writeRemoteTemp (tmp path : String) (data : Bytes) : FileM Unit := do
  let file ← withContext s!"failed to open remote temp file: {tmp}" (openWithFlags tmp)
  withContext s!"failed to write remote temp file: {tmp}" (writeAll file data)
  ignore (flush file)
  ignore (syncAll file)
  ignore (close file)
  ignore (removeFile path)
  withContext s!"failed to rename {tmp} -> {path}" (rename tmp path)

def atomicWriteRemote (path : String) (data : Bytes) : FileM Unit := do
  let suffix ← randomTmpSuffix
  let tmp := path ++ ".tmp." ++ suffix
  let writeRes ← attempt (writeRemoteTemp tmp path data)
  match writeRes with
  | .error e =>
    ignore (removeFile tmp)
    throw e
  | .ok () => pure ()

/-- The temp path that a call starting in `w` stages its data at. -/
def remoteTmp (env : Env) (w : World) (path : String) : String :=
  path ++ ".tmp." ++ tmpSuffix (env.hash w.tick)

/-- The temp file and the target are different places. -/
theorem remoteTmp_ne (env : Env) (w : World) (path : String) :
    env.remoteLoc (remoteTmp env w path) ≠ env.remoteLoc path := by
  unfold remoteTmp Env.remoteLoc
  rw [String.append_assoc]
  exact walk_append_ne _ _ (slash_not_mem_tmpSuffix _) (by rw [length_tmpSuffix]; decide)

section Remote

variable {env : Env} {w : World} {tmp : String} (path : String) (data : Bytes)

/-- From `w` on, the data goes to the temp file: it can be created, and neither the open nor
`write_all` returns an error. -/
def Staged (env : Env) (w : World) (tmp : String) : Prop :=
  env.fault w.tick = .none ∧ (env.fault (w.tick + 1)).reported = false ∧
    w.remote.get (env.remoteLoc tmp) = none ∧ w.remote.writable (env.remoteLoc tmp) = true

instance (env : Env) (w : World) (tmp : String) : Decidable (Staged env w tmp) := by
  unfold Staged; infer_instance

/-- The state has `w`'s node at the target. -/
def KeepsTarget (env : Env) (w : World) (path : String) (t : World) : Prop :=
  t.remote.get (env.remoteLoc path) = w.remote.get (env.remoteLoc path)

/-- Once staged, only the rename is left, and the target may have been unlinked. Up to there, the
target was left alone. -/
theorem exec_writeRemoteTemp_of_staged (hs : Staged env w tmp)
    (hne : env.remoteLoc tmp ≠ env.remoteLoc path) :
    ∃ w' f, f.content = (env.fault (w.tick + 1)).wrote data ∧ f.perm = env.newFileMode ∧
      w'.tick = w.tick + 6 ∧ w'.disk = w.disk ∧
      (∀ x, w'.remote.get x =
        if x = env.remoteLoc tmp then some (.file f)
        else if x = env.remoteLoc path ∧ env.fault (w.tick + 5) = .none ∧
          (w.remote.fileAt (env.remoteLoc path)).isSome then none
        else w.remote.get x) ∧
      exec (step env) (writeRemoteTemp tmp path data) w
        = exec (step env) (withContext s!"failed to rename {tmp} -> {path}" (rename tmp path)) w' ∧
      ∀ P : World → Prop, (∀ t, KeepsTarget env w path t → P t) →
        (Passes (step env) P (writeRemoteTemp tmp path data) w ↔
          Passes (step env) P (rename tmp path) w') := by
  obtain ⟨hopen, hwrite, habsent, hwritable⟩ := hs
  obtain ⟨w₁, hexec₁, hstep₁⟩ := exec_openWithFlags hopen habsent hwritable
  set file : FileHandle := ⟨env.remoteLoc tmp, w.tick⟩
  obtain ⟨w₂, m, hexec₂, hstep₂⟩ := exec_writeAll env (w := w₁) (h := file)
    (by rw [hstep₁.get, if_pos rfl]) rfl data
  rw [hstep₁.tick] at hexec₂ hstep₂
  rw [hwrite] at hexec₂
  -- the flush and the close wait for what is in flight; their results are dropped
  have hstep₃ := exec_flush env w₂ file
  set w₃ := (exec (step env) (flush file) w₂).2 with hw₃
  have hstep₅ := exec_close env w₃.next file
  set w₅ := (exec (step env) (close file) w₃.next).2 with hw₅
  have hremote : ∀ x, w₅.remote.get x = w₂.remote.get x := fun x => by
    rw [hstep₅.get, World.next_remote, hstep₃.get]
  have hget : ∀ x, w₅.remote.get x =
      if x = env.remoteLoc tmp then
        some (.file ⟨(env.fault (w.tick + 1)).wrote data, env.newFileMode, m, w.tick⟩)
      else w.remote.get x := by
    intro x
    rw [hremote, hstep₂.get, hstep₁.get]
    split <;> rfl
  have htick : w₅.tick = w.tick + 5 := by
    rw [hstep₅.tick, World.next_tick, hstep₃.tick, hstep₂.tick, hstep₁.tick]
  have htarget : w₅.remote.fileAt (env.remoteLoc path) = w.remote.fileAt (env.remoteLoc path) :=
    FileTree.fileAt_congr (by rw [hget, if_neg hne.symm])
  have hstep₆ := exec_removeFile env w₅ path
  refine ⟨(exec (step env) (removeFile path) w₅).2,
    ⟨(env.fault (w.tick + 1)).wrote data, env.newFileMode, m, w.tick⟩, rfl, rfl, ?_, ?_,
    fun x => ?_, ?_, fun P hkept => ?_⟩
  · rw [hstep₆.tick, htick]
  · rw [hstep₆.disk, hstep₅.disk, World.next_disk, hstep₃.disk, hstep₂.disk, hstep₁.disk]
  · rw [hstep₆.get]
    simp only [htick, htarget, hget]
    by_cases hx : x = env.remoteLoc tmp
    · simp [hx, hne]
    · simp [hx]
  · unfold writeRemoteTemp
    rw [exec_bind_ok (by rw [exec_withContext, hexec₁]; rfl),
      exec_bind_ok (by rw [exec_withContext, hexec₂]; rfl)]
    simp only [exec_ignore_bind, exec_syncAll, Env.onRemote_world, ← hw₃, ← hw₅]
  · have hsame : ∀ t, (∀ x, t.remote.get x = w₂.remote.get x) → KeepsTarget env w path t := by
      intro t ht
      rw [KeepsTarget, ht, ← hremote, hget, if_neg hne.symm]
    have hopens : Passes (step env) P (openWithFlags tmp) w := by
      refine passes_call.mpr ⟨hkept w rfl, hkept _ ?_⟩
      rw [show step env (.openWithFlags tmp) w = _ from hexec₁, KeepsTarget, hstep₁.get,
        if_neg hne.symm]
    have hwrites : Passes (step env) P (writeAll file data) w₁ := by
      refine passes_call.mpr ⟨hkept _ ?_, hkept _ ?_⟩
      · rw [KeepsTarget, hstep₁.get, if_neg hne.symm]
      · rw [show step env (.writeAll _ data) w₁ = _ from hexec₂]
        exact hsame _ fun _ => rfl
    have hflush : Passes (step env) P (flush file) w₂ :=
      passes_call.mpr ⟨hkept _ (hsame _ fun _ => rfl), hkept _ (hsame _ hstep₃.get)⟩
    have hsync : Passes (step env) P (syncAll file) w₃ := by
      refine passes_call.mpr ⟨hkept _ (hsame _ hstep₃.get), hkept _ ?_⟩
      rw [show (step env (.syncAll file) w₃).2 = w₃.next from Env.onRemote_world _ _ _]
      exact hsame _ hstep₃.get
    have hclose : Passes (step env) P (close file) w₃.next :=
      passes_call.mpr ⟨hkept _ (hsame _ hstep₃.get), hkept _ (hsame _ hremote)⟩
    unfold writeRemoteTemp
    rw [passes_bind_ok (by rw [exec_withContext, hexec₁]; rfl),
      passes_bind_ok (by rw [exec_withContext, hexec₂]; rfl), passes_bind_ok (exec_ignore _ _ _),
      passes_bind_ok (exec_ignore _ _ _), passes_bind_ok (exec_ignore _ _ _),
      passes_bind_ok (exec_ignore _ _ _)]
    simp only [withContext, passes_mapError, passes_ignore, exec_syncAll, Env.onRemote_world,
      ← hw₃, ← hw₅]
    refine ⟨fun hall => hall.2.2.2.2.2.2, fun hrename => ?_⟩
    -- the unlink starts where the close ends, and ends where the rename starts
    exact ⟨hopens, hwrites, hflush, hsync, hclose,
      passes_call.mpr ⟨hkept _ (hsame _ hremote), hrename.start⟩, hrename⟩

/-- Short of that, the block fails and nothing outside the temp file has changed. -/
theorem exec_writeRemoteTemp_of_not_staged (hs : ¬ Staged env w tmp)
    (hne : env.remoteLoc tmp ≠ env.remoteLoc path) :
    ∃ e w', exec (step env) (writeRemoteTemp tmp path data) w = (.error e, w') ∧
      w'.disk = w.disk ∧ (∀ x, x ≠ env.remoteLoc tmp → w'.remote.get x = w.remote.get x) ∧
      Passes (step env) (KeepsTarget env w path) (writeRemoteTemp tmp path data) w := by
  unfold writeRemoteTemp
  by_cases hopen : env.fault w.tick = .none ∧ w.remote.get (env.remoteLoc tmp) = none ∧
      w.remote.writable (env.remoteLoc tmp) = true
  · obtain ⟨w₁, hexec₁, hstep₁⟩ := exec_openWithFlags hopen.1 hopen.2.1 hopen.2.2
    obtain ⟨w₂, m, hexec₂, hstep₂⟩ := exec_writeAll env (w := w₁)
      (h := ⟨env.remoteLoc tmp, w.tick⟩) (by rw [hstep₁.get, if_pos rfl]) rfl data
    -- the temp file is open, so it is the write that must have failed
    have hwrite : (env.fault w₁.tick).reported = true := by
      rw [hstep₁.tick]
      exact Bool.not_eq_false _ ▸ fun hwrite => hs ⟨hopen.1, hwrite, hopen.2⟩
    rw [if_pos hwrite] at hexec₂
    have hget : ∀ x, x ≠ env.remoteLoc tmp → w₂.remote.get x = w.remote.get x := fun x hx => by
      rw [hstep₂.get, if_neg hx, hstep₁.get, if_neg hx]
    refine ⟨⟨[s!"failed to write remote temp file: {tmp}"], .failure⟩, w₂, ?_,
      hstep₂.disk.trans hstep₁.disk, hget, ?_⟩
    · rw [exec_bind_ok (by rw [exec_withContext, hexec₁]; rfl),
        exec_bind_error (by rw [exec_withContext, hexec₂]; rfl)]
    · rw [passes_bind_ok (by rw [exec_withContext, hexec₁]; rfl),
        passes_bind_error (by rw [exec_withContext, hexec₂]; rfl), withContext,
        withContext, passes_mapError, passes_mapError]
      have hsame₁ : KeepsTarget env w path w₁ := by
        rw [KeepsTarget, hstep₁.get, if_neg hne.symm]
      refine ⟨passes_call.mpr ⟨rfl, ?_⟩, passes_call.mpr ⟨hsame₁, ?_⟩⟩
      · rwa [show step env (.openWithFlags tmp) w = _ from hexec₁]
      · rw [show step env (.writeAll _ data) w₁ = _ from hexec₂]
        exact hget _ hne.symm
  · obtain ⟨e, he⟩ := exec_openWithFlags_error hopen
    refine ⟨_, w.next, exec_bind_error (by rw [exec_withContext, he]; rfl) _, rfl,
      fun _ _ => rfl, ?_⟩
    rw [passes_bind_error (by rw [exec_withContext, he]; rfl), withContext, passes_mapError]
    refine passes_call.mpr ⟨rfl, ?_⟩
    rw [show step env (.openWithFlags tmp) w = _ from he]
    rfl

/-! ### The three outcomes -/

/-- A call starting in `w` goes through: `write_all` returns no error, and the rename succeeds. -/
structure Completes (env : Env) (w : World) (path : String) : Prop where
  staged : Staged env w.next (remoteTmp env w path)
  renames : env.fault (w.tick + 7) = .none
  place : w.remote.writable (env.remoteLoc path) = true
  free : env.renameReplaces = true ∨ env.fault (w.tick + 6) = .none ∨
    w.remote.fileAt (env.remoteLoc path) = none

/-- The target of a call starting in `w` is lost: it is a file, the data was staged, the old
file was unlinked, and the rename that follows goes wrong. -/
structure TargetLost (env : Env) (w : World) (path : String) : Prop where
  staged : Staged env w.next (remoteTmp env w path)
  target : (w.remote.fileAt (env.remoteLoc path)).isSome
  unlinks : env.fault (w.tick + 6) = .none
  failsRename : env.fault (w.tick + 7) ≠ .none

/-- What a call of `atomic_write_remote` leaves on the server. -/
inductive RemoteOutcome (env : Env) (w : World) (path : String) (data : Bytes) :
    Except Error Unit × World → Prop
  /-- It fails, and everything but the temp file is as before. -/
  | kept {e w'} (hfails : ¬ Completes env w path) (hlost : ¬ TargetLost env w path)
      (hdisk : w'.disk = w.disk)
      (hget : ∀ x, x ≠ env.remoteLoc (remoteTmp env w path) →
        w'.remote.get x = w.remote.get x) :
      RemoteOutcome env w path data (.error e, w')
  /-- It fails after the old file was unlinked. -/
  | lost {e w'} (hlost : TargetLost env w path) (hdisk : w'.disk = w.disk)
      (hget : w'.remote.get (env.remoteLoc path) = none) :
      RemoteOutcome env w path data (.error e, w')
  /-- It succeeds: the target is a file with what arrived of the data, and nothing else has
  changed. -/
  | written {f : File} {w'} (hcompletes : Completes env w path) (hdisk : w'.disk = w.disk)
      (hdata : f.content = (env.fault (w.tick + 2)).wrote data)
      (hget : ∀ x, w'.remote.get x =
        if x = env.remoteLoc path then some (.file f) else w.remote.get x) :
      RemoteOutcome env w path data (.ok (), w')

theorem exec_atomicWriteRemote_of_block {env : Env} {w w' : World} {path : String} {data : Bytes}
    (h : exec (step env) (writeRemoteTemp (remoteTmp env w path) path data) w.next = (.ok (), w')) :
    exec (step env) (atomicWriteRemote path data) w = (.ok (), w') := by
  rw [atomicWriteRemote, exec_bind_ok (exec_randomTmpSuffix env w)]
  show exec (step env)
    (attempt (writeRemoteTemp (remoteTmp env w path) path data) >>= _) w.next = _
  rw [exec_attempt_bind, h]
  rfl

theorem exec_atomicWriteRemote (env : Env) (w : World) (path : String) (data : Bytes) :
    RemoteOutcome env w path data (exec (step env) (atomicWriteRemote path data) w) := by
  set tmp := remoteTmp env w path with htmp
  have hne : env.remoteLoc tmp ≠ env.remoteLoc path := remoteTmp_ne env w path
  have herror : ∀ {e w'},
      exec (step env) (writeRemoteTemp tmp path data) w.next = (.error e, w') →
      exec (step env) (atomicWriteRemote path data) w
        = (.error e, (exec (step env) (removeFile tmp) w').2) := by
    intro e w' h
    rw [atomicWriteRemote, exec_bind_ok (exec_randomTmpSuffix env w)]
    show exec (step env) (attempt (writeRemoteTemp tmp path data) >>= _) w.next = _
    rw [exec_attempt_bind, h]
    exact exec_ignore_bind _ _ _ _
  by_cases hs : Staged env w.next tmp
  case neg =>
    obtain ⟨e, w', hexec, hdisk, hget, -⟩ :=
      exec_writeRemoteTemp_of_not_staged path data hs hne
    rw [herror hexec]
    have hclean := exec_removeFile env w' tmp
    refine .kept (fun h => hs h.staged) (fun h => hs h.staged) (hclean.disk.trans hdisk)
      fun x hx => ?_
    rw [hclean.get, if_neg (fun h => hx h.1), hget x hx]
    rfl
  obtain ⟨w', f, hdata, -, htick, hdisk, hget, hexec, -⟩ :=
    exec_writeRemoteTemp_of_staged path data hs hne
  have hfile : w'.remote.get (env.remoteLoc tmp) = some (.file f) := by rw [hget, if_pos rfl]
  have htick : w'.tick = w.tick + 7 := htick
  have hgetTarget : w'.remote.get (env.remoteLoc path) =
      if env.fault (w.tick + 6) = .none ∧ (w.remote.fileAt (env.remoteLoc path)).isSome then none
      else w.remote.get (env.remoteLoc path) := by
    rw [hget, if_neg hne.symm]
    simp [World.next, add_assoc]
  -- neither the staged file nor the unlinked one is a directory
  have hwritable : w'.remote.writable (env.remoteLoc path)
      = w.remote.writable (env.remoteLoc path) := by
    refine FileTree.writable_congr (fun y => ?_) _
    rw [hget]
    split
    · next hy =>
      have hnone : w.remote.get (env.remoteLoc tmp) = none := hs.2.2.1
      simp [hy, hnone]
    · split
      · next hy =>
        obtain ⟨g, hg⟩ := Option.isSome_iff_exists.mp hy.2.2
        have hg : w.remote.get (env.remoteLoc path) = some (.file g) :=
          FileTree.fileAt_eq_some_iff.mp hg
        simp [hy.1, hg]
      · rfl
  have hfree : (env.renameReplaces = true ∨ w'.remote.fileAt (env.remoteLoc path) = none) ↔
      (env.renameReplaces = true ∨ env.fault (w.tick + 6) = .none ∨
        w.remote.fileAt (env.remoteLoc path) = none) := by
    by_cases hunlink : env.fault (w.tick + 6) = .none ∧
        (w.remote.fileAt (env.remoteLoc path)).isSome
    · rw [if_pos hunlink] at hgetTarget
      simp [FileTree.fileAt, hgetTarget, hunlink.1]
    · rw [if_neg hunlink] at hgetTarget
      rw [FileTree.fileAt_congr hgetTarget]
      by_cases hfault : env.fault (w.tick + 6) = .none
      · have hnone : w.remote.fileAt (env.remoteLoc path) = none := by simpa [hfault] using hunlink
        simp [hnone]
      · simp [hfault]
  rw [exec_withContext] at hexec
  rcases exec_rename hfile hne with ⟨hfault, hw, hrep, w'', hren, hstep⟩ | ⟨hnot, hren⟩
  · -- the rename went through
    rw [hren] at hexec
    rw [exec_atomicWriteRemote_of_block hexec]
    refine .written ⟨hs, htick ▸ hfault, hwritable ▸ hw, hfree.mp hrep⟩
      (hstep.disk.trans hdisk) hdata fun x => ?_
    rw [hstep.get]
    by_cases hx : x = env.remoteLoc path
    · simp [hx]
    · by_cases hxt : x = env.remoteLoc tmp
      · simpa [hxt, hne] using hs.2.2.1.symm
      · simp [hx, hxt, hget]
  · rw [hren] at hexec
    rw [herror hexec]
    have hfails : ¬ Completes env w path := fun h =>
      hnot ⟨by rw [htick, h.renames], hwritable ▸ h.place, hfree.mpr h.free⟩
    have hclean := exec_removeFile env w'.next tmp
    by_cases hlost : TargetLost env w path
    · refine .lost hlost (hclean.disk.trans hdisk) ?_
      rw [hclean.get, if_neg (fun h => hne h.1.symm), World.next_remote, hgetTarget,
        if_pos ⟨hlost.unlinks, hlost.target⟩]
    · refine .kept hfails hlost (hclean.disk.trans hdisk) fun x hx => ?_
      rw [hclean.get, if_neg (fun h => hx h.1), World.next_remote, hget, if_neg hx, if_neg]
      · rfl
      · -- had the old file been unlinked, the rename could not have failed by itself
        rintro ⟨rfl, hunlink, htarget⟩
        obtain ⟨g, hg⟩ := Option.isSome_iff_exists.mp htarget
        refine hfails ⟨hs, ?_, ?_, .inr (.inl hunlink)⟩
        · by_contra hfault
          exact hlost ⟨hs, htarget, hunlink, hfault⟩
        · exact FileTree.writable_of_file (FileTree.fileAt_eq_some_iff.mp hg)

theorem atomicWriteRemote_ok {env : Env} {w : World} {path : String}
    (h : Completes env w path) (data : Bytes) :
    ∃ w', exec (step env) (atomicWriteRemote path data) w = (.ok (), w') := by
  have hout := exec_atomicWriteRemote env w path data
  generalize exec (step env) (atomicWriteRemote path data) w = out at hout
  cases hout with
  | kept hfails => exact absurd h hfails
  | lost hlost => exact absurd h.renames hlost.failsRename
  | @written f w' => exact ⟨w', rfl⟩

theorem completes_of_ok {env : Env} {w w' : World} {path : String} {data : Bytes}
    (h : exec (step env) (atomicWriteRemote path data) w = (.ok (), w')) :
    Completes env w path := by
  have hout := exec_atomicWriteRemote env w path data
  rw [h] at hout
  cases hout with
  | written hcompletes => exact hcompletes

theorem atomicWriteRemote_eq_ok {env : Env} {w w' : World} {path : String} {data : Bytes}
    (h : exec (step env) (atomicWriteRemote path data) w = (.ok (), w')) :
    w'.disk = w.disk ∧ ∃ f : File, f.content = (env.fault (w.tick + 2)).wrote data ∧
      ∀ x, w'.remote.get x =
        if x = env.remoteLoc path then some (.file f) else w.remote.get x := by
  have hout := exec_atomicWriteRemote env w path data
  rw [h] at hout
  cases hout with
  | @written f _ hcompletes hdisk hdata hget => exact ⟨hdisk, f, hdata, hget⟩

/-- Without failures all of the data arrives. -/
theorem atomicWriteRemote_eq_ok_of_noFailure {env : Env} (hok : env.NoFailure) {w w' : World}
    {path : String} {data : Bytes}
    (h : exec (step env) (atomicWriteRemote path data) w = (.ok (), w')) :
    w'.disk = w.disk ∧ ∃ f : File, f.content = data ∧ ∀ x, w'.remote.get x =
      if x = env.remoteLoc path then some (.file f) else w.remote.get x := by
  obtain ⟨hdisk, f, hdata, hget⟩ := atomicWriteRemote_eq_ok h
  rw [hok] at hdata
  exact ⟨hdisk, f, hdata, hget⟩

/-- When the temp file cannot be opened, the cleanup still unlinks whatever file is there. -/
theorem atomicWriteRemote_of_taken (env : Env) (w : World) (path : String)
    (h : w.remote.get (env.remoteLoc (remoteTmp env w path)) ≠ none) (data : Bytes) :
    ∃ e w', exec (step env) (atomicWriteRemote path data) w = (.error e, w') ∧
      w'.disk = w.disk ∧ ∀ x, w'.remote.get x =
        if x = env.remoteLoc (remoteTmp env w path) ∧ env.fault (w.tick + 2) = .none ∧
          (w.remote.fileAt (env.remoteLoc (remoteTmp env w path))).isSome then none
        else w.remote.get x := by
  set tmp := remoteTmp env w path
  have htaken : ¬ (env.fault w.next.tick = .none ∧ w.next.remote.get (env.remoteLoc tmp) = none ∧
      w.next.remote.writable (env.remoteLoc tmp) = true) := fun hfree => h hfree.2.1
  obtain ⟨e, hopen⟩ := exec_openWithFlags_error htaken
  have hclean := exec_removeFile env w.next.next tmp
  refine ⟨⟨[s!"failed to open remote temp file: {tmp}"], e⟩, _, ?_, hclean.disk, hclean.get⟩
  rw [atomicWriteRemote, exec_bind_ok (exec_randomTmpSuffix env w)]
  show exec (step env) (attempt (writeRemoteTemp tmp path data) >>= _) w.next = _
  rw [exec_attempt_bind, writeRemoteTemp,
    exec_bind_error (by rw [exec_withContext, hopen]; rfl)]
  exact exec_ignore_bind _ _ _ _

/-- The temp path of a file below a directory is that of a sibling of the file. -/
theorem exists_tmp_below (dirs : List FileName) (n : FileName) (hash : UInt64) :
    ∃ n' : FileName, n'.str = n.str ++ ".tmp." ++ tmpSuffix hash ∧ ∀ root,
      below root (dirs ++ [n]) ++ ".tmp." ++ tmpSuffix hash = below root (dirs ++ [n']) := by
  have hvalid := isName_append n.noSlash (slash_not_mem_tmpSuffix hash)
    (by rw [length_tmpSuffix]; decide)
  rw [← String.append_assoc] at hvalid
  refine ⟨⟨_, hvalid⟩, rfl, fun root => ?_⟩
  rw [below_append, below_append]
  simp [child, String.append_assoc]

theorem remoteTmp_below (env : Env) (w : World) {root : String} (hroot : root ≠ "")
    (dirs : List FileName) (n : FileName) :
    ∃ n' : FileName, n'.str = n.str ++ ".tmp." ++ tmpSuffix (env.hash w.tick) ∧
      env.remoteLoc (remoteTmp env w (below root (dirs ++ [n])))
        = n' :: (dirs.reverse ++ env.remoteLoc root) := by
  obtain ⟨n', hn', hpath⟩ := exists_tmp_below dirs n (env.hash w.tick)
  have hloc : env.remoteLoc (below root (dirs ++ [n']))
      = (dirs ++ [n']).reverse ++ env.remoteLoc root := walk_below _ hroot _
  refine ⟨n', hn', ?_⟩
  rw [remoteTmp, hpath, hloc]
  simp

/-- Without failures, a file below a directory that exists can be written when neither its name
nor its temp name is in the way. -/
theorem completes_below {env : Env} (hok : env.NoFailure) {w : World} {root : String}
    (hroot : root ≠ "") (dirs : List FileName) (n : FileName)
    (hdir : w.remote.get (dirs.reverse ++ env.remoteLoc root) = some .dir)
    (htarget : w.remote.get (n :: (dirs.reverse ++ env.remoteLoc root)) ≠ some .dir)
    (htmp : w.remote.get (env.remoteLoc (remoteTmp env w (below root (dirs ++ [n])))) = none) :
    Completes env w (below root (dirs ++ [n])) := by
  obtain ⟨n', -, hloc⟩ := remoteTmp_below env w hroot dirs n
  have hwritable : ∀ m : FileName, w.remote.get (m :: (dirs.reverse ++ env.remoteLoc root))
      ≠ some .dir → w.remote.writable (m :: (dirs.reverse ++ env.remoteLoc root)) = true :=
    fun m hm => FileTree.writable_cons_iff.mpr ⟨hdir, hm⟩
  refine ⟨⟨hok _, by rw [hok]; rfl, htmp, ?_⟩, hok _, ?_, .inr (.inl (hok _))⟩
  · rw [hloc] at htmp ⊢
    exact hwritable n' (fun h => by simp [htmp] at h)
  · have hpath : env.remoteLoc (below root (dirs ++ [n]))
        = (dirs ++ [n]).reverse ++ env.remoteLoc root := walk_below _ hroot _
    rw [hpath]
    simpa using hwritable n htarget

/-- The bytes stored at a location, if a file is there. -/
def Tree.contentOf (t : Tree) (p : Loc) : Option Bytes := (t.fileAt p).map File.content

theorem Tree.contentOf_of_file {t : Tree} {p : Loc} {f : File} (h : t.get p = some (.file f)) :
    t.contentOf p = some f.content := by
  rw [contentOf, FileTree.fileAt_eq_some_iff.mpr h, Option.map_some]

theorem Tree.contentOf_of_none {t : Tree} {p : Loc} (h : t.get p = none) :
    t.contentOf p = none := by
  rw [contentOf, FileTree.fileAt, h, Option.map_none]

theorem Tree.contentOf_congr {t u : Tree} {p : Loc} (h : t.get p = u.get p) :
    t.contentOf p = u.contentOf p := by
  rw [contentOf, contentOf, FileTree.fileAt_congr h]

/-- **A failed remote write keeps the old bytes, unless the rename fails after the unlink.** -/
theorem atomicWriteRemote_keeps_content_iff (env : Env) (w : World) (path : String)
    (data : Bytes) :
    (∀ e, (exec (step env) (atomicWriteRemote path data) w).1 = .error e →
      (exec (step env) (atomicWriteRemote path data) w).2.remote.contentOf (env.remoteLoc path)
        = w.remote.contentOf (env.remoteLoc path)) ↔
      ¬ TargetLost env w path := by
  have hout := exec_atomicWriteRemote env w path data
  generalize exec (step env) (atomicWriteRemote path data) w = out at hout
  cases hout with
  | kept hfails hlost hdisk hget =>
    -- the call touched the temp file only, which is not the target
    refine iff_of_true (fun _ _ => ?_) hlost
    rw [Tree.contentOf, Tree.contentOf,
      FileTree.fileAt_congr (hget _ (remoteTmp_ne env w path).symm)]
  | @lost e w' hlost hdisk hget =>
    -- the unlinked target had content, and now has none
    refine iff_of_false (fun h => ?_) (not_not.mpr hlost)
    obtain ⟨f, hf⟩ := Option.isSome_iff_exists.mp hlost.target
    have hbefore : w.remote.contentOf (env.remoteLoc path) = some f.content := by
      simp [Tree.contentOf, hf]
    have hafter : w'.remote.contentOf (env.remoteLoc path) = none := by
      simp [Tree.contentOf, FileTree.fileAt, hget]
    have hcontent := (h e rfl).symm.trans hafter
    rw [hbefore] at hcontent
    cases hcontent
  | written hcompletes hdisk hdata hget =>
    exact iff_of_true (fun _ h => by cases h) fun hlost => hlost.failsRename hcompletes.renames

end Remote

/-- A directory tree with one file in its root. -/
def Tree.single (name : FileName) (content : Bytes) : Tree :=
  FileTree.setFile FileTree.empty [name] ⟨content, 0o644, 0, 0⟩

/-- The eighth operation, the rename, fails: `f` held `[1]` and is gone. -/
theorem atomicWriteRemote_loses_content :
    let env := { Env.reliable with fault := fun n => if n = 7 then .fail else .none }
    let w := World.start (Tree.single ⟨"f", by decide⟩ [1]) FileTree.empty
    let out := exec (step env) (atomicWriteRemote "f" [2]) w
    out.1 = .error ⟨["failed to rename f.tmp.aaaaaa -> f"], .failure⟩ ∧
      w.remote.contentOf (env.remoteLoc "f") = some [1] ∧
      out.2.remote.contentOf (env.remoteLoc "f") = none := by
  refine ⟨rfl, rfl, rfl⟩

/-! ## `atomic_write_local` -/

/-- The `async` block of `atomic_write_local`: everything before the cleanup. -/
def writeLocalTemp (tmp path : String) (data : Bytes) : FileM Unit := do
  let f ← withContext s!"failed to open local temp file: {tmp}" (fsOpenCreateNew tmp)
  withContext s!"failed to write local temp file: {tmp}" (fsWriteAll f data)
  ignore (fsFlush f)
  withContext s!"failed to fsync local temp file: {tmp}" (fsSyncAll f)
  withContext s!"failed to rename {tmp} -> {path}" (fsRename tmp path)

/-- The temp path for `path`: a sibling of its last component. -/
def localTmp (path suffix : String) : String :=
  let dir := (parent path).getD "."
  let name := (fileName path).getD "passhrs.tmp"
  join dir (name ++ ".tmp." ++ suffix)

def atomicWriteLocal (path : String) (data : Bytes) : FileM Unit := do
  let suffix ← randomTmpSuffix
  let tmp := localTmp path suffix
  let writeRes ← attempt (writeLocalTemp tmp path data)
  match writeRes with
  | .error e =>
    ignore (fsRemoveFile tmp)
    throw e
  | .ok () => pure ()

/-! ## The operations of a write -/

section Operations

variable {A : (op : FileOp) → FileOp.Res op → Prop} {P : FileOp → Prop} {tmp path : String}

/-- Everything that a write on the server may do satisfies `P`. -/
structure WritesRemote (P : FileOp → Prop) (tmp path : String) : Prop where
  create : P (.openWithFlags tmp)
  write : ∀ file data, P (.writeAll file data)
  flush : ∀ file, P (.flush file)
  sync : ∀ file, P (.syncAll file)
  close : ∀ file, P (.close file)
  unlink : P (.removeFile path)
  publish : P (.rename tmp path)
  cleanup : P (.removeFile tmp)

/-- Everything that a local write may do satisfies `P`. -/
structure WritesLocal (P : FileOp → Prop) (tmp path : String) : Prop where
  create : P (.fsOpenCreateNew tmp)
  write : ∀ file data, P (.fsWriteAll file data)
  flush : ∀ file, P (.fsFlush file)
  sync : ∀ file, P (.fsSyncAll file)
  publish : P (.fsRename tmp path)
  cleanup : P (.fsRemoveFile tmp)

theorem emits_writeRemoteTemp (h : WritesRemote P tmp path) (data : Bytes) :
    Emits A P (fun _ => True) (writeRemoteTemp tmp path data) := by
  refine emits_bind (emits_mapError ⟨h.create, fun _ _ _ _ => trivial⟩) fun file _ => ?_
  refine emits_bind (emits_mapError ⟨h.write file data, fun _ _ _ _ => trivial⟩) fun _ _ => ?_
  refine emits_bind (emits_ignore (Q := fun _ => True)
    ⟨h.flush file, fun _ _ _ _ => trivial⟩) fun _ _ => ?_
  refine emits_bind (emits_ignore (Q := fun _ => True)
    ⟨h.sync file, fun _ _ _ _ => trivial⟩) fun _ _ => ?_
  refine emits_bind (emits_ignore (Q := fun _ => True)
    ⟨h.close file, fun _ _ _ _ => trivial⟩) fun _ _ => ?_
  refine emits_bind (emits_ignore (Q := fun _ => True)
    ⟨h.unlink, fun _ _ _ _ => trivial⟩) fun _ _ => ?_
  exact emits_mapError ⟨h.publish, fun _ _ _ _ => trivial⟩

theorem emits_writeLocalTemp (h : WritesLocal P tmp path) (data : Bytes) :
    Emits A P (fun _ => True) (writeLocalTemp tmp path data) := by
  refine emits_bind (emits_mapError ⟨h.create, fun _ _ _ _ => trivial⟩) fun f _ => ?_
  refine emits_bind (emits_mapError ⟨h.write f data, fun _ _ _ _ => trivial⟩) fun _ _ => ?_
  refine emits_bind (emits_ignore (Q := fun _ => True)
    ⟨h.flush f, fun _ _ _ _ => trivial⟩) fun _ _ => ?_
  refine emits_bind (emits_mapError ⟨h.sync f, fun _ _ _ _ => trivial⟩) fun _ _ => ?_
  exact emits_mapError ⟨h.publish, fun _ _ _ _ => trivial⟩

/-- The suffix comes from some hash. -/
theorem emits_randomTmpSuffix (hhash : P .suffixHash) :
    Emits A P (fun suffix => ∃ hash, suffix = tmpSuffix hash) randomTmpSuffix :=
  ⟨hhash, fun hash _ _ h => ⟨hash, (Except.ok.inj h).symm⟩⟩

theorem emits_atomicWriteRemote (hhash : P .suffixHash)
    (h : ∀ hash, WritesRemote P (path ++ ".tmp." ++ tmpSuffix hash) path) (data : Bytes) :
    Emits A P (fun _ => True) (atomicWriteRemote path data) := by
  refine emits_bind (emits_randomTmpSuffix hhash) ?_
  rintro _ ⟨hash, rfl⟩
  refine emits_bind (emits_attempt (emits_writeRemoteTemp (h hash) data)) fun r _ => ?_
  rcases r with e | ⟨⟩
  · exact emits_bind (emits_ignore (Q := fun _ => True)
      ⟨(h hash).cleanup, fun _ _ _ _ => trivial⟩) fun _ _ => emits_throw e
  · exact emits_pure trivial

theorem emits_atomicWriteLocal (hhash : P .suffixHash)
    (h : ∀ hash, WritesLocal P (localTmp path (tmpSuffix hash)) path) (data : Bytes) :
    Emits A P (fun _ => True) (atomicWriteLocal path data) := by
  refine emits_bind (emits_randomTmpSuffix hhash) ?_
  rintro _ ⟨hash, rfl⟩
  refine emits_bind (emits_attempt (emits_writeLocalTemp (h hash) data)) fun r _ => ?_
  rcases r with e | ⟨⟩
  · exact emits_bind (emits_ignore (Q := fun _ => True)
      ⟨(h hash).cleanup, fun _ _ _ _ => trivial⟩) fun _ _ => emits_throw e
  · exact emits_pure trivial

end Operations

/-! ## The temp path of a local write -/

/-- The temp path is an entry of the target's parent, under a name that is not the target's. -/
theorem normalize_localTmp (path : String) (hash : UInt64) :
    ∃ n : FileName, n.str = (fileName path).getD "passhrs.tmp" ++ ".tmp." ++ tmpSuffix hash ∧
      normalize (localTmp path (tmpSuffix hash))
        = { normalize ((parent path).getD ".") with
            names := n :: (normalize ((parent path).getD ".")).names } := by
  have hslash : '/' ∉ ((fileName path).getD "passhrs.tmp").toList := by
    rcases hname : fileName path with _ | name
    · decide
    · exact slash_not_mem_fileName hname
  have hvalid : isName ((fileName path).getD "passhrs.tmp" ++ (".tmp." ++ tmpSuffix hash)) :=
    isName_append hslash (slash_not_mem_tmpSuffix hash) (by rw [length_tmpSuffix]; decide)
  rw [← String.append_assoc] at hvalid
  refine ⟨⟨_, hvalid⟩, rfl, ?_⟩
  rw [← Normal.enter_name]
  exact normalize_join _ ⟨_, hvalid⟩

theorem localTmp_ne_empty (path : String) (hash : UInt64) :
    localTmp path (tmpSuffix hash) ≠ "" := by
  obtain ⟨n, -, h⟩ := normalize_localTmp path hash
  intro hempty
  rw [hempty] at h
  cases congrArg Normal.names h

theorem walk_localTmp_ne (cwd : Loc) {path : String} (hpath : path ≠ "") (hash : UInt64) :
    walk cwd (localTmp path (tmpSuffix hash)) ≠ walk cwd path := by
  obtain ⟨n, hn, htmp⟩ := normalize_localTmp path hash
  unfold walk
  rw [htmp]
  rcases hparent : parent path with _ | dir
  · rw [(normalize_of_parent_eq_none hpath hparent).1]
    simp only [Normal.locate, if_true]
    split <;> simp
  · obtain ⟨last, hlast, hfile⟩ := normalize_parent hparent
    rw [hlast, Option.getD_some]
    apply locate_enter_ne
    rcases hfile with hfile | ⟨-, rfl | rfl⟩
    · -- the temp name is the file name with more after it
      intro h
      have hlen := congrArg String.length (hn.symm.trans h)
      rw [hfile, Option.getD_some, String.append_assoc, String.length_append,
        length_tmpSuffix] at hlen
      omega
    · exact n.ne_dotdot
    · exact n.ne_dot

theorem diskLoc_localTmp (env : Env) (path : String) (hash : UInt64) :
    env.diskLoc (localTmp path (tmpSuffix hash))
      = some (walk env.cwd (localTmp path (tmpSuffix hash))) := by
  unfold Env.diskLoc
  rw [if_neg (localTmp_ne_empty _ _)]

/-- The temp file and the target are different places. -/
theorem diskLoc_ne_localTmp (env : Env) (path : String) (hash : UInt64) :
    env.diskLoc path ≠ some (walk env.cwd (localTmp path (tmpSuffix hash))) := by
  unfold Env.diskLoc
  split
  · simp
  · next hpath =>
    intro h
    exact walk_localTmp_ne env.cwd hpath _ (Option.some.inj h).symm

section Local

variable {env : Env} {w : World} {tmp path : String} (data : Bytes) {p : Loc}

/-- From `w` on, the data goes through to the target: the temp file can be created, `write_all`
does not report an error, and neither the fsync nor the rename goes wrong. -/
structure Delivered (env : Env) (w : World) (p : Loc) (path : String) : Prop where
  opens : env.fault w.tick = .none ∧ w.disk.get p = none ∧ w.disk.writable p = true
  writes : (env.fault (w.tick + 1)).onDisk.reported = false
  syncs : env.fault (w.tick + 3) = .none
  renames : env.fault (w.tick + 4) = .none ∧
    ∃ q, env.diskLoc path = some q ∧ w.disk.writable q = true

theorem exec_writeLocalTemp (hp : env.diskLoc tmp = some p) (hne : env.diskLoc path ≠ some p) :
    (Delivered env w p path ∧ ∃ f q w', exec (step env) (writeLocalTemp tmp path data) w
        = (.ok (), w') ∧ w'.remote = w.remote ∧ env.diskLoc path = some q ∧
      f.content = (env.fault (w.tick + 1)).onDisk.wrote data ∧
      ∀ x, w'.disk.get x = if x = q then some (.file f) else w.disk.get x) ∨
    (¬ Delivered env w p path ∧ ∃ e w', exec (step env) (writeLocalTemp tmp path data) w
        = (.error e, w') ∧ w'.remote = w.remote ∧
      ∀ x, x ≠ p → w'.disk.get x = w.disk.get x) := by
  unfold writeLocalTemp
  by_cases hopen : env.fault w.tick = .none ∧ w.disk.get p = none ∧ w.disk.writable p = true
  case neg =>
    obtain ⟨e, he⟩ := exec_fsOpenCreateNew_error hp hopen
    refine .inr ⟨fun h => hopen h.opens, ⟨[s!"failed to open local temp file: {tmp}"], e⟩, w.next,
      ?_, rfl, fun _ _ => rfl⟩
    exact exec_bind_error (by rw [exec_withContext, he]; rfl) _
  obtain ⟨w₁, hexec₁, hstep₁⟩ := exec_fsOpenCreateNew hopen.1 hp hopen.2.1 hopen.2.2
  obtain ⟨w₂, m, hexec₂, hstep₂⟩ := exec_fsWriteAll env (w := w₁) (h := ⟨p, w.tick⟩)
    (by rw [hstep₁.get, if_pos rfl]) rfl data
  rw [hstep₁.tick] at hexec₂ hstep₂
  have hget₂ : ∀ x, w₂.disk.get x = if x = p then
      some (.file ⟨(env.fault (w.tick + 1)).onDisk.wrote data, env.newFileMode, m, w.tick⟩)
      else w.disk.get x := by
    intro x
    rw [hstep₂.get, hstep₁.get]
    split <;> rfl
  have hremote₂ : w₂.remote = w.remote := hstep₂.remote.trans hstep₁.remote
  rw [exec_bind_ok (by rw [exec_withContext, hexec₁]; rfl)]
  by_cases hwrite : (env.fault (w.tick + 1)).onDisk.reported = false
  case neg =>
    refine .inr ⟨fun h => hwrite h.writes,
      ⟨[s!"failed to write local temp file: {tmp}"], .failure⟩, w₂, ?_, hremote₂, fun x hx => ?_⟩
    · refine exec_bind_error ?_ _
      rw [exec_withContext, hexec₂, if_pos (by simpa using hwrite)]
      rfl
    · rw [hget₂, if_neg hx]
  -- the flush waits for the write; its result is dropped
  have hstep₃ := exec_fsFlush env w₂ ⟨p, w.tick⟩
  set w₃ := (exec (step env) (fsFlush ⟨p, w.tick⟩) w₂).2 with hw₃
  have htick₃ : w₃.tick = w.tick + 3 := by
    rw [hstep₃.tick, hstep₂.tick, hstep₁.tick]
  rw [hwrite] at hexec₂
  rw [exec_bind_ok (by rw [exec_withContext, hexec₂]; rfl), exec_ignore_bind, ← hw₃]
  by_cases hsync : env.fault (w.tick + 3) = .none
  case neg =>
    refine .inr ⟨fun h => hsync h.syncs, ⟨[s!"failed to fsync local temp file: {tmp}"], .failure⟩,
      w₃.next, ?_, hstep₃.remote.trans hremote₂, fun x hx => ?_⟩
    · refine exec_bind_error ?_ _
      rw [exec_withContext, exec_fsSyncAll, htick₃, if_neg hsync]
      rfl
    · rw [World.next_disk, hstep₃.get, hget₂, if_neg hx]
  rw [exec_bind_ok (by rw [exec_withContext, exec_fsSyncAll, htick₃, if_pos hsync]; rfl),
    exec_withContext]
  have hfile : w₃.next.disk.get p = some
      (.file ⟨(env.fault (w.tick + 1)).onDisk.wrote data, env.newFileMode, m, w.tick⟩) := by
    rw [World.next_disk, hstep₃.get, hget₂, if_pos rfl]
  -- the staged file changes no directory
  have hwritable : ∀ q, w₃.next.disk.writable q = w.disk.writable q := by
    refine FileTree.writable_congr fun y => ?_
    rw [World.next_disk, hstep₃.get, hget₂]
    split
    · next hy => simp [hy, hopen.2.1]
    · rfl
  have htick : w₃.next.tick = w.tick + 4 := by rw [World.next_tick, htick₃]
  rcases exec_fsRename hp hfile hne with ⟨hfault, q, w', hq, hw, hren, hstep⟩ | ⟨hnot, e, hren⟩
  · rw [htick] at hfault
    rw [hwritable] at hw
    refine .inl ⟨⟨hopen, hwrite, hsync, hfault, q, hq, hw⟩,
      ⟨(env.fault (w.tick + 1)).onDisk.wrote data, env.newFileMode, m, w.tick⟩, q, w',
      by rw [hren]; rfl,
      hstep.remote.trans (hstep₃.remote.trans hremote₂), hq, rfl, fun x => ?_⟩
    rw [hstep.get]
    by_cases hx : x = p
    · simp [hx, hopen.2.1]
    · simp [hx, hstep₃.get, hget₂]
  · refine .inr ⟨fun h => hnot ?_, _, w₃.next.next, by rw [hren]; rfl,
      hstep₃.remote.trans hremote₂, fun x hx => ?_⟩
    · obtain ⟨hfault, q, hq, hw⟩ := h.renames
      exact ⟨by rw [htick, hfault], q, hq, by rw [hwritable, hw]⟩
    · rw [World.next_disk, World.next_disk, hstep₃.get, hget₂, if_neg hx]

/-- The call returns `Ok` when the block does. -/
theorem exec_atomicWriteLocal_of_ok {path : String} {data : Bytes} {w w' : World}
    (h : exec (step env) (writeLocalTemp (localTmp path (tmpSuffix (env.hash w.tick))) path data)
      w.next = (.ok (), w')) :
    exec (step env) (atomicWriteLocal path data) w = (.ok (), w') := by
  rw [atomicWriteLocal, exec_bind_ok (exec_randomTmpSuffix env w)]
  show exec (step env) (attempt (writeLocalTemp _ path data) >>= _) w.next = _
  rw [exec_attempt_bind, h]
  rfl

/-- When the block fails, the cleanup is the last operation. -/
theorem exec_atomicWriteLocal_of_error {path : String} {data : Bytes} {w w' : World} {e : Error}
    (h : exec (step env) (writeLocalTemp (localTmp path (tmpSuffix (env.hash w.tick))) path data)
      w.next = (.error e, w')) :
    let cleanup := fsRemoveFile (localTmp path (tmpSuffix (env.hash w.tick)))
    exec (step env) (atomicWriteLocal path data) w
        = (.error e, (exec (step env) cleanup w').2) ∧
      ⟨.fsRemoveFile (localTmp path (tmpSuffix (env.hash w.tick))),
          (exec (step env) cleanup w').1⟩ ∈
        execLog (step env) (atomicWriteLocal path data) w := by
  intro cleanup
  rw [atomicWriteLocal, exec_bind_ok (exec_randomTmpSuffix env w),
    execLog_bind_ok (exec_randomTmpSuffix env w)]
  constructor
  · show exec (step env) (attempt (writeLocalTemp _ path data) >>= _) w.next = _
    rw [exec_attempt_bind, h]
    show exec (step env) (ignore cleanup >>= fun _ => throw e) w' = _
    rw [exec_ignore_bind]
    rfl
  · -- the cleanup's entry follows those of the suffix and of the block
    refine List.mem_append_right _ ?_
    show _ ∈ execLog (step env) (attempt (writeLocalTemp _ path data) >>= _) w.next
    rw [execLog_attempt_bind, h]
    refine List.mem_append_right _ ?_
    show _ ∈ execLog (step env) (ignore cleanup >>= fun _ => throw e) w'
    rw [execLog_ignore_bind, execLog_fsRemoveFile, List.singleton_append]
    exact List.mem_cons_self

/-- What a local path holds. -/
def World.diskNode (w : World) (env : Env) (path : String) : Option (Node File) :=
  (env.diskLoc path).bind w.disk.get

/-- What a call of `atomic_write_local` that starts in `w` is to do. On success the target holds
the data and the temp file is gone; on failure the target is as before, and the temp file is
gone unless the log shows that removing it failed. -/
def AllOrNothing (env : Env) (w : World) (path : String) (data : Bytes) : Prop :=
  let tmp := localTmp path (tmpSuffix (env.hash w.tick))
  match exec (step env) (atomicWriteLocal path data) w with
  | (.ok (), w') =>
    (∃ f, w'.diskNode env path = some (.file f) ∧ f.content = data) ∧ w'.diskNode env tmp = none
  | (.error _, w') =>
    w'.diskNode env path = w.diskNode env path ∧
      (w'.diskNode env tmp = none ∨
        ∃ e, ⟨.fsRemoveFile tmp, .error e⟩ ∈
          execLog (step env) (atomicWriteLocal path data) w)

/-- The write of the last chunk fails while in flight, and everything else goes through. -/
def Truncated (env : Env) (w : World) (path : String) (data : Bytes) : Prop :=
  let p := walk env.cwd (localTmp path (tmpSuffix (env.hash w.tick)))
  Delivered env w.next p path ∧
    ∃ k, env.fault (w.tick + 2) = .inFlight k ∧ k < data.length

/-- **A local write is all-or-nothing, unless a write in flight fails.** The error that `flush`
reports is dropped, so the file that is renamed over the target can be short. -/
theorem atomicWriteLocal_allOrNothing_iff (env : Env) (w : World) (path : String)
    (data : Bytes) : AllOrNothing env w path data ↔ ¬ Truncated env w path data := by
  set tmp := localTmp path (tmpSuffix (env.hash w.tick)) with htmp
  set p := walk env.cwd tmp with hpdef
  have hp : env.diskLoc tmp = some p := diskLoc_localTmp env path _
  have hne : env.diskLoc path ≠ some p := diskLoc_ne_localTmp env path _
  unfold AllOrNothing Truncated
  rcases exec_writeLocalTemp (w := w.next) data hp hne with
    ⟨hd, f, q, w', hexec, -, hq, hcontent, hget⟩ | ⟨hd, e, w', hexec, -, hget⟩
  · have hrun := exec_atomicWriteLocal_of_ok hexec
    have htarget : w'.diskNode env path = some (.file f) := by simp [World.diskNode, hq, hget]
    have hgone : w'.diskNode env tmp = none := by
      have hpq : p ≠ q := fun h => hne (by rw [hq, h])
      simpa [World.diskNode, hp, hget, hpq] using hd.opens.2.1
    -- what was staged is short exactly when the write in flight fails
    have hdata : f.content = data ↔
        ¬ ∃ k, env.fault (w.tick + 2) = .inFlight k ∧ k < data.length := by
      have hwrote := Fault.onDisk_wrote_ne_iff hd.writes data
      rw [World.next_tick, add_assoc] at hwrote
      rw [hcontent, World.next_tick, add_assoc, ← hwrote, not_not]
    rw [hrun]
    simp only [htarget, hgone, ← htmp, ← hpdef, hd, true_and, and_true, ← hdata]
    simp
  · obtain ⟨hrun, hlog⟩ := exec_atomicWriteLocal_of_error hexec
    rw [← htmp] at hrun hlog
    obtain ⟨hclean, hgone⟩ := exec_fsRemoveFile w' hp
    rw [hrun]
    -- an error is never a truncated delivery, so both sides hold
    refine iff_of_true ⟨?_, ?_⟩ fun h => hd h.1
    · unfold World.diskNode
      rcases hq : env.diskLoc path with _ | q
      · rw [Option.bind_none, Option.bind_none]
      · have hqp : q ≠ p := fun h => hne (by rw [hq, h])
        simp [hclean.get, hqp, hget q hqp]
    · rcases hres : (exec (step env) (fsRemoveFile tmp) w').1 with e' | _
      · rw [hres] at hlog
        exact .inr ⟨e', hlog⟩
      · left
        unfold World.diskNode
        rw [hp, Option.bind_some]
        exact hgone hres

end Local

/-- The write of `[1, 2]` fails in flight after one byte: `Ok`, and `f` holds `[1]`. -/
theorem atomicWriteLocal_reports_truncated :
    let env := { Env.reliable with fault := fun n => if n = 2 then .inFlight 1 else .none }
    let w := World.start FileTree.empty FileTree.empty
    let out := exec (step env) (atomicWriteLocal "f" [1, 2]) w
    out.1 = .ok () ∧ (env.diskLoc "f").bind out.2.disk.contentOf = some [1] :=
  ⟨rfl, rfl⟩

end Passhrs
