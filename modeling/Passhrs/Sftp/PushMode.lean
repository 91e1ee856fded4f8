import Passhrs.Sftp.Crash
import Passhrs.Sftp.Push

/-!
# The mode of a pushed file

`push_path` renames the new content into place and sets its mode afterwards, so in between the
target has the mode that the server gives to new files.

* **`pushPath_mode_iff`**: the new content never stands under another mode than its source's,
  wherever the run may stop, exactly when it is not published, or that mode is the source's.
-/

namespace Passhrs

open Effects SlashPath

/-- The push of a file with this content, starting in `w`, gets all of it into place. -/
structure Publishes (env : Env) (w : World) (remote : String) (content : Bytes) : Prop where
  stats : env.fault w.tick = .none
  reads : env.fault (w.tick + 1) = .none
  completes : Completes env w.next.next remote
  arrives : (env.fault (w.tick + 4)).wrote content = content

/-- If the target holds the content of `f`, it has the permission bits of `f`. -/
def RightMode (env : Env) (remote : String) (f : File) (t : World) : Prop :=
  ∀ g, t.remote.get (env.remoteLoc remote) = some (.file g) → g.content = f.content →
    g.perm &&& 0o7777 = f.perm &&& 0o7777

section States

variable {env : Env} {w t : World} {localPath remote : String} {p : Loc} {f : File}

theorem rightMode_of_content (h : t.remote.contentOf (env.remoteLoc remote) ≠ some f.content) :
    RightMode env remote f t := by
  intro g hg hcontent
  exact absurd (by rw [Tree.contentOf_of_file hg, hcontent]) h

/-! ## The write -/

variable (env remote) in
/-- Wherever the write may stop, the new content has the mode of new files. -/
theorem passes_atomicWriteRemote_newMode {data : Bytes}
    (hold : w.remote.contentOf (env.remoteLoc remote) ≠ some data) :
    Effects.Passes (step env)
      (fun t => ∀ g, t.remote.get (env.remoteLoc remote) = some (.file g) → g.content = data →
        (Completes env w remote ∧ (env.fault (w.tick + 2)).wrote data = data) ∧
          g.perm = env.newFileMode)
      (atomicWriteRemote remote data) w := by
  refine passes_atomicWriteRemote_of_file (fun t hkept g hg hdata => ?_)
    (fun hcompletes t g' hg' hcontent hperm g hg hdata => ?_) fun _ t hgone g hg _ => ?_
  · refine absurd ?_ hold
    rw [← Tree.contentOf_congr hkept, Tree.contentOf_of_file hg, hdata]
  · rw [hg'] at hg
    cases hg
    exact ⟨⟨hcompletes, hcontent.symm.trans hdata⟩, hperm⟩
  · rw [hgone] at hg
    cases hg

/-! ## Setting the mode -/

/-- From a file with the right mode, or with other content, setting it goes through no other. -/
theorem passes_setRemoteMode {g : File} {mode : UInt32}
    (hmode : mode &&& 0o7777 = f.perm &&& 0o7777)
    (hg : t.remote.get (env.remoteLoc remote) = some (.file g))
    (hright : g.content = f.content → g.perm &&& 0o7777 = f.perm &&& 0o7777) :
    Effects.Passes (step env) (RightMode env remote f) (setRemoteMode remote mode) t := by
  have hstart : ∀ t' : World, t'.remote = t.remote → RightMode env remote f t' := by
    intro t' ht' g' hg' hcontent
    rw [ht', hg] at hg'
    cases hg'
    exact hright hcontent
  have hlooks : Effects.Passes (step env) (RightMode env remote f)
      (withContext s!"cannot stat remote after write: {remote}" (metadata remote)) t := by
    rw [withContext, passes_mapError]
    refine passes_call.mpr ⟨hstart t rfl, hstart _ ?_⟩
    rw [show (step env (.metadata remote) t).2 = t.next from Env.onRemote_world _ _ _]
    rfl
  unfold setRemoteMode
  rcases hstat : exec (step env) (metadata remote) t with ⟨e | cur, t'⟩
  · rwa [passes_bind_error (by rw [exec_withContext, hstat]; rfl)]
  · have ht' : t.next = t' :=
      (Env.onRemote_world env t _).symm.trans (congrArg Prod.snd hstat)
    subst ht'
    rw [passes_bind_ok (by rw [exec_withContext, hstat]; rfl), withContext, passes_mapError]
    refine ⟨hlooks, passes_call.mpr ⟨hstart t.next rfl, ?_⟩⟩
    -- the permission bits are the old ones, or those of the source
    by_cases hfault : env.fault t.next.tick = .none
    · rw [show step env (.setMetadata remote _) t.next = _ from
        Env.changeRemote_of_none hfault _]
      intro g' hg' _
      replace hg' : (t.remote.chmod (env.remoteLoc remote) _).2.get (env.remoteLoc remote)
        = some (.file g') := hg'
      rw [Tree.chmod_of_file hg, FileTree.get_setFile (FileTree.writable_of_file hg),
        if_pos rfl] at hg'
      cases hg'
      rw [perm_of_mode, UInt32.and_assoc, UInt32.and_self, hmode]
    · rw [show step env (.setMetadata remote _) t.next = _ from
        Env.changeRemote_of_fault hfault _]
      exact hstart _ rfl

/-! ## The push -/

/-- Looking at the local disk keeps what depends on the server alone. -/
theorem passes_look {P : World → Prop} {op : FileOp} (hnext : (step env op w).2 = w.next)
    (hP : ∀ t : World, t.remote = w.remote → P t) {α : Type} {k : op.Res → Except IoError α}
    (msg : String) :
    Effects.Passes (step env) P (withContext msg (call op k : FileCall α)) w := by
  rw [withContext, passes_mapError, passes_call, hnext]
  exact ⟨hP w rfl, hP w.next rfl⟩

/-- **The new content never stands under another mode than its source's exactly when** it is not
published, or the server gives new files that mode. -/
theorem pushPath_mode_iff (fuel : Nat) (hp : env.diskLoc localPath = some p)
    (hf : w.disk.get p = some (.file f))
    (hold : w.remote.contentOf (env.remoteLoc remote) ≠ some f.content) :
    (∀ t ∈ (pushPath (fuel + 1) localPath remote).run.states (step env) w,
        RightMode env remote f t) ↔
      (Publishes env w remote f.content → env.newFileMode &&& 0o7777 = f.perm &&& 0o7777) := by
  have hkeeps : ∀ t : World, t.remote = w.remote → RightMode env remote f t :=
    fun t ht => rightMode_of_content (by rwa [ht])
  have hfile : ¬ (localMetadata env.dirMode (.file f)).isDir = true := Bool.false_ne_true
  show Effects.Passes (step env) (RightMode env remote f) _ w ↔ _
  rw [pushPath]
  -- the file is stated and read, with the server as it was
  have hstats : Effects.Passes (step env) (RightMode env remote f)
      (withContext s!"cannot stat local path: {localPath}" (fsMetadata localPath)) w :=
    passes_look (show (step env (.fsMetadata localPath) w).2 = _ from Env.onDisk_world ..) hkeeps _
  have hreads : Effects.Passes (step env) (RightMode env remote f)
      (withContext s!"cannot read local file: {localPath}" (fsRead localPath)) w.next :=
    passes_look (show (step env (.fsRead localPath) w.next).2 = _ from Env.onDisk_world ..) hkeeps _
  by_cases hstat : env.fault w.tick = .none
  case neg =>
    have hexec : exec (step env) (fsMetadata localPath) w = (.error .failure, w.next) :=
      Env.onDisk_of_fault hstat ..
    rw [passes_bind_error (by rw [exec_withContext, hexec]; rfl)]
    exact iff_of_true hstats fun h => absurd h.stats hstat
  have hexec₁ := exec_fsMetadata_of_file hstat hp hf
  rw [passes_bind_ok (by rw [exec_withContext, hexec₁]; rfl), if_neg hfile, and_iff_right hstats]
  by_cases hread : env.fault w.next.tick = .none
  case neg =>
    have hexec : exec (step env) (fsRead localPath) w.next = (.error .failure, w.next.next) :=
      Env.onDisk_of_fault hread ..
    rw [passes_bind_error (by rw [exec_withContext, hexec]; rfl)]
    exact iff_of_true hreads fun h => absurd h.reads hread
  have hexec₂ := exec_fsRead_ok (w := w.next) hread hp hf
  rw [passes_bind_ok (by rw [exec_withContext, hexec₂]; rfl), and_iff_right hreads]
  have hwrites := passes_atomicWriteRemote_newMode env remote (w := w.next.next) hold
  constructor
  · rintro hall hpublishes
    obtain ⟨w', hwrite⟩ := atomicWriteRemote_ok hpublishes.completes f.content
    obtain ⟨-, g, hwrote, hget⟩ := atomicWriteRemote_eq_ok hwrite
    have hg : w'.remote.get (env.remoteLoc remote) = some (.file g) := by rw [hget, if_pos rfl]
    have hdata : g.content = f.content := hwrote.trans hpublishes.arrives
    have hlast := hwrites.last
    rw [hwrite] at hlast
    rw [passes_bind_ok hwrite] at hall
    -- the state between the rename and the stat
    rw [← (hlast g hg hdata).2]
    exact hall.2.start g hg hdata
  · intro hmode
    have hright : Effects.Passes (step env) (RightMode env remote f)
        (atomicWriteRemote remote f.content) w.next.next := by
      intro t ht g hg hdata
      obtain ⟨⟨hcompletes, harrives⟩, hperm⟩ := hwrites t ht g hg hdata
      rw [hperm]
      exact hmode ⟨hstat, hread, hcompletes, harrives⟩
    rcases hwrite : exec (step env) (atomicWriteRemote remote f.content) w.next.next
      with ⟨e | ⟨⟩, w'⟩
    · rwa [passes_bind_error hwrite]
    · obtain ⟨-, g, -, hget⟩ := atomicWriteRemote_eq_ok hwrite
      have hg : w'.remote.get (env.remoteLoc remote) = some (.file g) := by rw [hget, if_pos rfl]
      have hlast := hright.last
      rw [hwrite] at hlast
      rw [passes_bind_ok hwrite, passes_ignore]
      refine ⟨hright, passes_setRemoteMode ?_ hg (hlast g hg)⟩
      exact perm_of_stat f.perm

end States

/-- A private key with mode `0600`, to be pushed to an empty server. -/
def World.keyToPush : World :=
  .start FileTree.empty (FileTree.setFile FileTree.empty [⟨"id_rsa", by decide⟩] ⟨[7], 0o600, 0, 0⟩)

theorem pushPath_mode_iff_key :
    (∀ t ∈ (pushPath 1 "id_rsa" "backup").run.states (step .reliable) .keyToPush,
        RightMode .reliable "backup" ⟨[7], 0o600, 0, 0⟩ t) ↔
      (Publishes .reliable .keyToPush "backup" [7] →
        (0o644 : UInt32) &&& 0o7777 = 0o600 &&& 0o7777) :=
  pushPath_mode_iff 0 (p := [⟨"id_rsa", by decide⟩]) (by decide +kernel) (by decide +kernel)
    (by decide +kernel)

/-- Nothing fails, and after the rename anyone may read the key. -/
theorem pushPath_exposes_key :
    ¬ ∀ (env : Env) (w : World) (fuel : Nat) (localPath remote : String) (p : Loc) (f : File),
      env.diskLoc localPath = some p → w.disk.get p = some (.file f) →
      w.remote.contentOf (env.remoteLoc remote) ≠ some f.content →
      ∀ t ∈ (pushPath (fuel + 1) localPath remote).run.states (step env) w,
        RightMode env remote f t := by
  intro hall
  have hexposed : ∃ t ∈ (pushPath 1 "id_rsa" "backup").run.states (step .reliable) .keyToPush,
      t.remote.get (Env.reliable.remoteLoc "backup") = some (.file ⟨[7], 0o644, 4, 3⟩) := by
    decide +kernel
  obtain ⟨t, ht, hget⟩ := hexposed
  have hmode := hall .reliable .keyToPush 0 "id_rsa" "backup" [⟨"id_rsa", by decide⟩]
    ⟨[7], 0o600, 0, 0⟩ (by decide +kernel) (by decide +kernel) (by decide +kernel) t ht _ hget rfl
  exact absurd hmode (by decide)

end Passhrs
