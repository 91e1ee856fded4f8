import Passhrs.Sftp.AtomicWrite

/-!
# What a reader sees

`atomic_write_remote` seen from outside, after any of its operations: by a concurrent reader, or
when the process, the connection or the server stops there.

* **`atomicWriteRemote_oldOrNew_iff`**: the target is complete in every state exactly when the
  function neither comes to unlink it nor renames a temp file over it that lacks some of the data.
-/

namespace Passhrs

open Effects SlashPath

/-- A call starting in `w` unlinks the target: it is a file, the data is staged, and the unlink does
not fail. -/
structure Unlinks (env : Env) (w : World) (path : String) : Prop where
  staged : Staged env w.next (remoteTmp env w path)
  target : (w.remote.fileAt (env.remoteLoc path)).isSome
  unlinks : env.fault (w.tick + 6) = .none

/-- A call starting in `w` puts a part of the data in place: not all of it arrives, the rename goes
through all the same, and what arrives is not what the target holds anyway. -/
structure PublishesPart (env : Env) (w : World) (path : String) (data : Bytes) : Prop where
  completes : Completes env w path
  part : (env.fault (w.tick + 2)).wrote data ≠ data
  changes : w.remote.contentOf (env.remoteLoc path) ≠ some ((env.fault (w.tick + 2)).wrote data)

/-- The target is complete: it is what it was in `w`, or it holds the new data. -/
def OldOrNew (env : Env) (w : World) (path : String) (data : Bytes) (t : World) : Prop :=
  t.remote.contentOf (env.remoteLoc path) = w.remote.contentOf (env.remoteLoc path) ∨
    t.remote.contentOf (env.remoteLoc path) = some data

section States

variable {env : Env} {w w' : World} {path : String} {data : Bytes} {P : World → Prop}

theorem passes_atomicWriteRemote_iff {r : Except Error Unit}
    (h : exec (step env) (writeRemoteTemp (remoteTmp env w path) path data) w.next = (r, w')) :
    Passes (step env) P (atomicWriteRemote path data) w ↔
      P w ∧ Passes (step env) P (writeRemoteTemp (remoteTmp env w path) path data) w.next ∧
        ∀ e, r = .error e → P (exec (step env) (removeFile (remoteTmp env w path)) w').2 := by
  have hhash : exec (step env) suffixHash w = (.ok (env.hash w.tick), w.next) := rfl
  have hsuffix : Passes (step env) P randomTmpSuffix w ↔ P w ∧ P w.next := by
    rw [randomTmpSuffix, passes_bind_ok hhash, passes_pure]
    show Passes (step env) P (call .suffixHash .ok : FileM UInt64) w ∧ _ ↔ _
    rw [passes_call]
    exact and_iff_left_of_imp And.right
  unfold atomicWriteRemote
  rw [passes_bind_ok (exec_randomTmpSuffix env w), hsuffix]
  show (P w ∧ P w.next) ∧ Passes (step env) P
    (attempt (writeRemoteTemp (remoteTmp env w path) path data) >>= _) w.next ↔ _
  rw [passes_bind_ok (exec_attempt _ _ _), passes_attempt, h]
  have hend : Passes (step env) P (writeRemoteTemp (remoteTmp env w path) path data) w.next →
      P w' := fun hinner => by
    have hlast := hinner.last
    rwa [h] at hlast
  have hstart : Passes (step env) P (writeRemoteTemp (remoteTmp env w path) path data) w.next →
      P w.next := Passes.start
  rcases r with e | ⟨⟩
  -- an error is followed by the cleanup, and its state is the last one
  · show _ ∧ _ ∧ Passes (step env) P
      (ignore (removeFile (remoteTmp env w path)) >>= fun _ => throw e) w' ↔ _
    have hclean : Passes (step env) P (removeFile (remoteTmp env w path)) w' ↔
        P w' ∧ P (exec (step env) (removeFile (remoteTmp env w path)) w').2 := passes_call
    rw [passes_bind_ok (exec_ignore _ _ _), passes_ignore, passes_throw, hclean]
    constructor
    · rintro ⟨⟨hw, -⟩, hinner, -, hlast⟩
      exact ⟨hw, hinner, fun _ _ => hlast⟩
    · rintro ⟨hw, hinner, hlast⟩
      exact ⟨⟨hw, hstart hinner⟩, hinner, ⟨hend hinner, hlast e rfl⟩, hlast e rfl⟩
  -- nothing follows an `Ok`
  · show _ ∧ _ ∧ Passes (step env) P (pure ()) w' ↔ _
    rw [passes_pure]
    constructor
    · rintro ⟨⟨hw, -⟩, hinner, -⟩
      exact ⟨hw, hinner, fun e he => by cases he⟩
    · rintro ⟨hw, hinner, -⟩
      exact ⟨⟨hw, hstart hinner⟩, hinner, hend hinner⟩

/-- What the states of a call are like: the target is kept, or a new file with the data that arrived
once the call goes through, or gone once the call has unlinked it. -/
theorem passes_atomicWriteRemote_of_file (hkept : ∀ t, KeepsTarget env w path t → P t)
    (hnew : Completes env w path → ∀ t f, t.remote.get (env.remoteLoc path) = some (.file f) →
      f.content = (env.fault (w.tick + 2)).wrote data → f.perm = env.newFileMode → P t)
    (hgone : Unlinks env w path → ∀ t, t.remote.get (env.remoteLoc path) = none → P t) :
    Passes (step env) P (atomicWriteRemote path data) w := by
  set tmp := remoteTmp env w path with htmp
  have hne : env.remoteLoc tmp ≠ env.remoteLoc path := remoteTmp_ne env w path
  -- the cleanup is about the temp file
  have hclean : ∀ t, (exec (step env) (removeFile tmp) t).2.remote.get (env.remoteLoc path)
      = t.remote.get (env.remoteLoc path) := fun t => by
    rw [(exec_removeFile env t tmp).get, if_neg fun h => hne h.1.symm]
  by_cases hs : Staged env w.next tmp
  case neg =>
    obtain ⟨e, w', hexec, -, hget, hinner⟩ :=
      exec_writeRemoteTemp_of_not_staged path data hs hne
    rw [passes_atomicWriteRemote_iff hexec]
    refine ⟨hkept w rfl, fun t ht => hkept t (hinner t ht), fun _ _ => hkept _ ?_⟩
    exact (hclean w').trans (hget _ hne.symm)
  obtain ⟨w', f, hdata, hperm, htick, hdisk, hget, hexec, hpasses⟩ :=
    exec_writeRemoteTemp_of_staged path data hs hne
  have hfile : w'.remote.get (env.remoteLoc tmp) = some (.file f) := by rw [hget, if_pos rfl]
  -- before the rename, and after it if it fails
  have hbefore : ∀ t, t.remote.get (env.remoteLoc path) = w'.remote.get (env.remoteLoc path) →
      P t := by
    intro t ht
    rw [hget, if_neg hne.symm] at ht
    split at ht
    · next hunlinks =>
      refine hgone ⟨hs, hunlinks.2.2, ?_⟩ t ht
      have hfault := hunlinks.2.1
      rwa [World.next_tick, add_assoc] at hfault
    · exact hkept t ht
  rw [exec_withContext] at hexec
  rcases exec_rename hfile hne with ⟨-, -, -, w'', hren, hstep⟩ | ⟨-, hren⟩
  · rw [hren] at hexec
    rw [passes_atomicWriteRemote_iff hexec, hpasses P hkept]
    have htarget : w''.remote.get (env.remoteLoc path) = some (.file f) := by
      rw [hstep.get, if_pos rfl]
    have hcompletes := completes_of_ok (exec_atomicWriteRemote_of_block hexec)
    refine ⟨hkept w rfl, passes_call.mpr ⟨hbefore w' rfl, hnew hcompletes _ f ?_ hdata hperm⟩,
      fun e he => by cases he⟩
    rwa [show step env (.rename tmp path) w' = _ from hren]
  · rw [hren] at hexec
    rw [passes_atomicWriteRemote_iff hexec, hpasses P hkept]
    refine ⟨hkept w rfl, passes_call.mpr ⟨hbefore w' rfl, hbefore _ ?_⟩,
      fun _ _ => hbefore _ (hclean _)⟩
    rw [show step env (.rename tmp path) w' = _ from hren]
    rfl

variable (data) in
/-- A call that unlinks the target goes through a state without it. -/
theorem not_passes_of_unlinks (h : Unlinks env w path) :
    ¬ Passes (step env) (fun t => t.remote.get (env.remoteLoc path) ≠ none)
      (atomicWriteRemote path data) w := by
  intro hpasses
  have hne := remoteTmp_ne env w path
  obtain ⟨w', f, -, -, -, -, hget, -, hiff⟩ :=
    exec_writeRemoteTemp_of_staged path data h.staged hne
  have hinner := ((passes_atomicWriteRemote_iff rfl).mp hpasses).2.1
  have hkept : ∀ t, KeepsTarget env w path t → t.remote.get (env.remoteLoc path) ≠ none := by
    intro t ht hnone
    have htarget := h.target
    rw [KeepsTarget, hnone] at ht
    rw [FileTree.fileAt, ← ht] at htarget
    cases htarget
  have hrename := (hiff _ hkept).mp hinner
  -- the rename starts without the target
  refine hrename.start ?_
  rw [hget, if_neg hne.symm, if_pos ⟨rfl, h.unlinks, h.target⟩]

/-- After a call that puts a part of the data in place, the target is neither the old file nor the
new one. -/
theorem not_oldOrNew_of_publishesPart (h : PublishesPart env w path data) :
    ¬ OldOrNew env w path data (exec (step env) (atomicWriteRemote path data) w).2 := by
  obtain ⟨w', hrun⟩ := atomicWriteRemote_ok h.completes data
  obtain ⟨-, f, hdata, hget⟩ := atomicWriteRemote_eq_ok hrun
  have hcontent : w'.remote.contentOf (env.remoteLoc path)
      = some ((env.fault (w.tick + 2)).wrote data) := by
    rw [Tree.contentOf_of_file ((hget _).trans (if_pos rfl)), hdata]
  rw [hrun, OldOrNew, hcontent]
  rintro (hkept | hnew)
  · exact h.changes hkept.symm
  · exact h.part (Option.some.inj hnew)

/-- **After any of its operations the target of a remote write is complete, unless the write comes
to unlink it or to rename a part of the data over it.** -/
theorem atomicWriteRemote_oldOrNew_iff (env : Env) (w : World) (path : String) (data : Bytes) :
    (∀ t ∈ (atomicWriteRemote path data).run.states (step env) w, OldOrNew env w path data t) ↔
      ¬ Unlinks env w path ∧ ¬ PublishesPart env w path data := by
  constructor
  · intro hall
    refine ⟨fun hunlinks => not_passes_of_unlinks data hunlinks fun t ht hnone => ?_,
      fun hpart => not_oldOrNew_of_publishesPart hpart (Passes.last hall)⟩
    -- neither the old content nor the new one is there
    have hgone : t.remote.contentOf (env.remoteLoc path) = none := Tree.contentOf_of_none hnone
    obtain ⟨f, hf⟩ := Option.isSome_iff_exists.mp hunlinks.target
    rcases hall t ht with hold | hnew
    · rw [hgone, Tree.contentOf, hf] at hold
      cases hold
    · rw [hgone] at hnew
      cases hnew
  · rintro ⟨hkeeps, hwhole⟩
    refine passes_atomicWriteRemote_of_file (fun _ ht => .inl (Tree.contentOf_congr ht))
      (fun hcompletes t f hget hcontent _ => ?_) fun hunlinks => absurd hunlinks hkeeps
    rw [OldOrNew, Tree.contentOf_of_file hget, hcontent]
    by_cases hcut : (env.fault (w.tick + 2)).wrote data = data
    · exact .inr (congrArg some hcut)
    · -- what arrived is what the target holds anyway
      by_contra hnew
      exact hwhole ⟨hcompletes, hcut, fun hold => hnew (.inl hold.symm)⟩

end States

/-- Nothing fails, and between the unlink and the rename `f` is gone. -/
theorem atomicWriteRemote_absent :
    ¬ ∀ (env : Env) (w : World) (path : String) (data : Bytes),
      ∀ t ∈ (atomicWriteRemote path data).run.states (step env) w, OldOrNew env w path data t := by
  intro hall
  obtain ⟨w, htarget, hunlinks⟩ : ∃ w : World,
      w.remote.contentOf (Env.reliable.remoteLoc "f") = some [1] ∧ Unlinks .reliable w "f" :=
    ⟨.start (Tree.single ⟨"f", by decide⟩ [1]) FileTree.empty, rfl,
      ⟨rfl, rfl, by decide +kernel, by decide +kernel⟩, rfl, rfl⟩
  refine not_passes_of_unlinks [2] hunlinks fun t ht hnone => ?_
  rcases hall .reliable w "f" [2] t ht with hold | hnew
  · rw [Tree.contentOf_of_none hnone, htarget] at hold
    cases hold
  · rw [Tree.contentOf_of_none hnone] at hnew
    cases hnew

end Passhrs
