import Passhrs.Lib.Threads
import Passhrs.Sftp.AtomicWrite

/-!
# Stages of an atomic write

`atomic_write_remote` and `atomic_write_local` as parties to one protocol: a call is followed by the
stage it is at (`Stage`), and `Move` says what an operation at a stage can do to the file tree.
Both functions make such moves only, whatever others do to the tree in between
(`Side.atomicWrite_follows`).
-/

namespace Passhrs

open Effects SlashPath

variable {ι : Type} [DecidableEq ι]

/-! ## The calls and what they share -/

/-- The file systems, and the temp files that each call has created. -/
structure Shared (ι : Type) where
  world : World
  created : ι → List FileHandle

/-- The file that an operation has created. -/
def FileOp.opened : (op : FileOp) → op.Res → Option FileHandle
  | .openWithFlags _, .ok h => some h
  | .fsOpenCreateNew _, .ok h => some h
  | _, _ => none

/-- An operation of call `c`. -/
def Shared.step (env : ι → Env) (c : ι) : Handler FileOp FileOp.Res (Shared ι) := fun op s =>
  let out := Passhrs.step (env c) op s.world
  (out.1, ⟨out.2, Function.update s.created c ((op.opened out.1).toList ++ s.created c)⟩)

/-- Which of the two functions the calls run. -/
inductive Side where
  | remote
  | disk

def Side.tree : Side → World → Tree
  | .remote, w => w.remote
  | .disk, w => w.disk

def Side.loc : Side → Env → String → Option Loc
  | .remote, env, path => some (env.remoteLoc path)
  | .disk, env, path => env.diskLoc path

def Side.atomicWrite : Side → String → Bytes → FileM Unit
  | .remote => atomicWriteRemote
  | .disk => atomicWriteLocal

/-- The fault of a `write_all` on this side. -/
def Side.fault : Side → Fault → Fault
  | .remote => id
  | .disk => Fault.onDisk

def Side.write : Side → FileHandle → Bytes → FileOp
  | .remote => .writeAll
  | .disk => .fsWriteAll

def Side.remove : Side → String → FileOp
  | .remote => .removeFile
  | .disk => .fsRemoveFile

def Side.rename : Side → String → String → FileOp
  | .remote => .rename
  | .disk => .fsRename

/-! ## Stages of a call -/

/-- How far a call has come. -/
inductive Stage where
  | unnamed
  | opening (p : Loc)
  /-- The open failed; the cleanup is to come. -/
  | refused (p : Loc)
  | opened (h : FileHandle)
  /-- The data is written. -/
  | staged (h : FileHandle)
  /-- The target has been unlinked; only the rename is left. -/
  | cleared (h : FileHandle)
  /-- Something went wrong after the open; the cleanup is to come. -/
  | failing (h : FileHandle)
  | ended (r : Except Error Unit)

/-- What a cleanup at this stage would remove. -/
def Stage.residue : Stage → Option Loc
  | .refused p => some p
  | .failing h => some h.loc
  | _ => none

/-- At most the file at `p` is gone. -/
def Tree.Without (t t' : Tree) (p : Loc) : Prop :=
  ∀ x, t'.get x = t.get x ∨ x = p ∧ (t.fileAt p).isSome ∧ t'.get p = none

theorem Tree.without_of_same {t t' : Tree} (h : t'.get = t.get) (p : Loc) : t.Without t' p :=
  fun x => .inl (congrFun h x)

/-- What a cleanup or an unlink at `p` leaves, where `P` says that it is not made to fail. -/
theorem Tree.same_or_without {t t' : Tree} {p : Loc} {P : Prop} [Decidable P]
    (hget : ∀ x, t'.get x = if x = p ∧ P ∧ (t.fileAt p).isSome then none else t.get x) :
    t'.get = t.get ∨ P ∧ t.Without t' p := by
  by_cases hP : P
  · refine .inr ⟨hP, fun x => ?_⟩
    rw [hget x]
    split
    · next hx => exact .inr ⟨hx.1, hx.2.2, by rw [hget, if_pos ⟨rfl, hx.2⟩]⟩
    · exact .inl rfl
  · refine .inl (funext fun x => ?_)
    rw [hget x, if_neg fun hx => hP hx.2.1]

/-- The moves of a call: what an operation in state `w` makes of the stage and of the file tree, and
which files it creates. -/
inductive Move (side : Side) (env : Env) (path : String) (data : Bytes) (op : FileOp) (w : World) :
    Stage → Stage → Tree → List FileHandle → Prop
  | name {p t'} (hp : side.loc env path ≠ some p) (hget : t'.get = (side.tree w).get) :
      Move side env path data op w .unnamed (.opening p) t' []
  | create {p f t'} (hfree : (side.tree w).get p = none) (hino : f.ino = w.tick)
      (hempty : f.content = [])
      (hget : ∀ x, t'.get x = if x = p then some (.file f) else (side.tree w).get x) :
      Move side env path data op w (.opening p) (.opened ⟨p, w.tick⟩) t' [⟨p, w.tick⟩]
  | refuse {p t'} (hget : t'.get = (side.tree w).get) :
      Move side env path data op w (.opening p) (.refused p) t' []
  /-- What arrives of the data reaches the file. -/
  | write {h mtime t'} (hop : op = side.write h data)
      (hquiet : (side.fault (env.fault w.tick)).reported = false)
      (ht : t' = (side.tree w).append h ((side.fault (env.fault w.tick)).wrote data) mtime) :
      Move side env path data op w (.opened h) (.staged h) t' []
  | failWrite {h t'}
      (ht : t'.get = (side.tree w).get ∨ ∃ bytes mtime, t' = (side.tree w).append h bytes mtime) :
      Move side env path data op w (.opened h) (.failing h) t' []
  | wait {h t'} (hget : t'.get = (side.tree w).get) :
      Move side env path data op w (.staged h) (.staged h) t' []
  | fail {h t'} (hget : t'.get = (side.tree w).get) :
      Move side env path data op w (.staged h) (.failing h) t' []
  | clear {h q t'} (hq : side.loc env path = some q)
      (hget : (side.tree w).Without t' q) :
      Move side env path data op w (.staged h) (.cleared h) t' []
  | publish {st h f q t'} (hst : st = .staged h ∨ st = .cleared h)
      (hq : side.loc env path = some q) (hwritable : (side.tree w).writable q = true)
      (hf : (side.tree w).get h.loc = some (.file f))
      (hget : ∀ x, t'.get x =
        if x = q then some (.file f) else if x = h.loc then none else (side.tree w).get x) :
      Move side env path data op w st (.ended (.ok ())) t' []
  /-- A rename to a missing target fails only when it is made to. -/
  | drop {h tmp t'} (hop : op = side.rename tmp path) (hget : t'.get = (side.tree w).get)
      (hfault : env.fault w.tick = .none → ∀ q f, side.loc env path = some q → q ≠ h.loc →
        (side.tree w).get h.loc = some (.file f) → (side.tree w).writable q = true →
        (side.tree w).get q ≠ none) :
      Move side env path data op w (.cleared h) (.failing h) t' []
  /-- The cleanup is by name, whether or not the call has created the file. -/
  | clean {st p tmp e t'} (hst : st.residue = some p) (hop : op = side.remove tmp)
      (hp : side.loc env tmp = some p)
      (hget : t'.get = (side.tree w).get ∨ env.fault w.tick = .none ∧ (side.tree w).Without t' p) :
      Move side env path data op w st (.ended (.error e)) t' []

/-- The protocol of call `c`: moves of its own, each recorded. -/
def Protocol (side : Side) (env : ι → Env) (path : ι → String) (data : ι → Bytes) (c : ι)
    (op : FileOp) (st : Stage) (s : Shared ι) (st' : Stage) (s' : Shared ι) : Prop :=
  ∃ made, Move side (env c) (path c) (data c) op s.world st st' (side.tree s'.world) made ∧
    s'.world.tick = s.world.tick + 1 ∧
    s'.created = Function.update s.created c (made ++ s.created c)

/-- The result is the one of the stage in which the call ended. -/
def EndsIn (st : Stage) (r : Except Error Unit) : Prop := st = .ended r

/-- What a fallible part of a call leaves: an answer and the stage that goes with it, or an error
and something to clean up at `p`. -/
def Leaves {ε α : Type} (p : Loc) (next : α → Stage → Prop) (st : Stage) : Except ε α → Prop
  | .ok a => next a st
  | .error _ => st.residue = some p

section Follows

variable {side : Side} {env : ι → Env} {path : ι → String} {data : ι → Bytes} {c : ι}

theorem follows_op {ε α : Type} {E : Stage → Except ε α → Prop} {x : Action FileOp FileOp.Res ε α}
    {st : Stage} (op : FileOp) (k : op.Res → Except ε α) (hx : x = call op k)
    (hop : ∀ w, ∃ st', Move side (env c) (path c) (data c) op w st st'
      (side.tree (step (env c) op w).2) (op.opened (step (env c) op w).1).toList ∧
      E st' (k (step (env c) op w).1)) :
    Follows (Shared.step env c) (Protocol side env path data c) E x st := by
  subst hx
  refine follows_call fun s => ?_
  obtain ⟨st', hmove, hE⟩ := hop s.world
  exact ⟨st', ⟨_, hmove, step_tick _ _ _, rfl⟩, hE⟩

theorem follows_withContext {α : Type} {x : FileCall α} {msg : String} {p : Loc}
    {next : α → Stage → Prop} {st : Stage}
    (hx : Follows (Shared.step env c) (Protocol side env path data c) (Leaves p next) x st) :
    Follows (Shared.step env c) (Protocol side env path data c) (Leaves p next)
      (withContext msg x) st := by
  refine follows_mapError (hx.mono fun st' r hr => ?_)
  cases r with
  | ok a => exact hr
  | error e => exact hr

/-! ### What both functions do -/

/-- A write, where `wrote` appends bytes to the side's tree. -/
theorem move_writeBehind (env : Env) (path : String) {data : Bytes} {op : FileOp} {w : World}
    {h : FileHandle} {wrote : Bytes → World} {mtime : Nat} (hop : op = side.write h data)
    (hwrote : ∀ bytes, side.tree (wrote bytes) = (side.tree w).append h bytes mtime) :
    ∃ st', Move side env path data op w (.opened h) st'
        (side.tree (w.writeBehind (side.fault (env.fault w.tick)) h data wrote).2) [] ∧
      Leaves h.loc (fun _ st => st = .staged h) st'
        (w.writeBehind (side.fault (env.fault w.tick)) h data wrote).1 := by
  have hdefer : ∀ t inos, side.tree { t with deferred := inos } = side.tree t := by
    cases side <;> exact fun _ _ => rfl
  have hnext : side.tree w.next = side.tree w := by cases side <;> rfl
  obtain ⟨w', hrun, hcases⟩ := w.writeBehind_cases (side.fault (env.fault w.tick)) h data wrote
  rw [hrun]
  rcases hcases with ⟨hreported, rfl, -⟩ | ⟨inos, rfl⟩
  · rw [if_pos hreported]
    exact ⟨_, .failWrite (.inl (congrArg _ hnext)), rfl⟩
  · have happend := (hdefer _ inos).trans (hwrote ((side.fault (env.fault w.tick)).wrote data))
    cases hquiet : (side.fault (env.fault w.tick)).reported with
    | true => exact ⟨_, .failWrite (.inr ⟨_, _, happend⟩), rfl⟩
    | false => exact ⟨_, .write hop hquiet happend, rfl⟩

/-! ### `atomic_write_remote` -/

section Remote

variable (env : Env) (path : String) (data : Bytes) (w : World)

theorem move_openWithFlags (tmp : String) :
    ∃ st', Move .remote env path data (.openWithFlags tmp) w (.opening (env.remoteLoc tmp)) st'
        (step env (.openWithFlags tmp) w).2.remote
        (FileOp.opened _ (step env (.openWithFlags tmp) w).1).toList ∧
      Leaves (env.remoteLoc tmp) (fun h st => h.loc = env.remoteLoc tmp ∧ st = .opened h) st'
        (step env (.openWithFlags tmp) w).1 := by
  by_cases hopens : env.fault w.tick = .none ∧ w.remote.get (env.remoteLoc tmp) = none ∧
      w.remote.writable (env.remoteLoc tmp) = true
  · obtain ⟨w', hexec, hstep⟩ := exec_openWithFlags hopens.1 hopens.2.1 hopens.2.2
    rw [show step env (.openWithFlags tmp) w = _ from hexec]
    exact ⟨_, .create hopens.2.1 rfl rfl hstep.get, rfl, rfl⟩
  · obtain ⟨e, hexec⟩ := exec_openWithFlags_error hopens
    rw [show step env (.openWithFlags tmp) w = _ from hexec]
    exact ⟨_, .refuse rfl, rfl⟩

theorem move_removeTarget (h : FileHandle) :
    Move .remote env path data (.removeFile path) w (.staged h) (.cleared h)
      (step env (.removeFile path) w).2.remote [] := by
  refine .clear rfl ?_
  rcases Tree.same_or_without (exec_removeFile env w path).get with hsame | ⟨-, hget⟩
  · exact Tree.without_of_same hsame _
  · exact hget

theorem move_rename {tmp : String} {h : FileHandle} (hloc : env.remoteLoc tmp = h.loc)
    (hne : env.remoteLoc path ≠ h.loc) :
    ∃ st', Move .remote env path data (.rename tmp path) w (.cleared h) st'
        (step env (.rename tmp path) w).2.remote [] ∧
      Leaves h.loc (fun _ st => st = .ended (.ok ())) st' (step env (.rename tmp path) w).1 := by
  by_cases hf : ∃ f, w.remote.get h.loc = some (.file f)
  · obtain ⟨f, hf⟩ := hf
    rcases exec_rename (hloc ▸ hf) (hloc ▸ hne.symm) with
      ⟨-, hw, -, w', hexec, hstep⟩ | ⟨hnot, hexec⟩
    · rw [show step env (.rename tmp path) w = _ from hexec]
      exact ⟨_, .publish (.inr rfl) rfl hw hf (hloc ▸ hstep.get), rfl⟩
    · rw [show step env (.rename tmp path) w = _ from hexec]
      refine ⟨_, .drop rfl rfl fun hfault q g hq _ _ hw hnone => hnot ?_, rfl⟩
      obtain rfl := Option.some.inj hq
      exact ⟨hfault, hw, .inr (by simp [FileTree.fileAt, show w.remote.get _ = none from hnone])⟩
  · -- without the temp file there is nothing to rename
    have hmissing : w.remote.fileAt (env.remoteLoc tmp) = none :=
      FileTree.fileAt_eq_none (hloc ▸ hf)
    obtain ⟨e, w', hexec, hsame⟩ := exec_rename_of_missing hmissing path
    rw [show step env (.rename tmp path) w = _ from hexec]
    exact ⟨_, .drop rfl (congrArg _ hsame.remote) fun _ _ f _ _ hat => absurd ⟨f, hat⟩ hf, rfl⟩

theorem move_cleanup {tmp : String} {st : Stage} (hst : st.residue = some (env.remoteLoc tmp))
    (e : Error) :
    Move .remote env path data (.removeFile tmp) w st (.ended (.error e))
      (step env (.removeFile tmp) w).2.remote [] :=
  .clean hst rfl rfl (Tree.same_or_without (exec_removeFile env w tmp).get)

end Remote

theorem follows_quiet {ε α : Type} {x : Action FileOp FileOp.Res ε α} {h : FileHandle}
    (op : FileOp) (k : op.Res → Except ε α) (hx : x = call op k)
    (hopened : ∀ r, op.opened r = none)
    (hget : ∀ w, (side.tree (step (env c) op w).2).get = (side.tree w).get) :
    Follows (Shared.step env c) (Protocol side env path data c) (fun st _ => st = .staged h) x
      (.staged h) := by
  refine follows_op op k hx fun w => ⟨.staged h, ?_, rfl⟩
  rw [hopened]
  exact .wait (hget w)

/-- The end of both functions: after an error the temp path is removed by name. -/
theorem follows_cleanup {block : FileM Unit} {cleanup : FileCall Unit}
    {g : Except Error Unit → FileM Unit} {p : Loc} {st : Stage}
    (hblock : Follows (Shared.step env c) (Protocol side env path data c)
      (Leaves p fun _ st => st = .ended (.ok ())) block st)
    (hclean : ∀ st e, st.residue = some p → Follows (Shared.step env c)
      (Protocol side env path data c) (fun st _ => st = .ended (.error e)) cleanup st)
    (hok : g (.ok ()) = pure ())
    (herror : ∀ e, g (.error e) = ignore cleanup >>= fun _ => throw e) :
    Follows (Shared.step env c) (Protocol side env path data c) EndsIn
      (attempt block >>= g) st := by
  have hattempt : Follows (Shared.step env c) (Protocol side env path data c)
      (fun st (r : Except Error (Except Error Unit)) => ∃ r', r = .ok r' ∧
        Leaves p (fun _ st => st = .ended (.ok ())) st r') (attempt block) st :=
    follows_attempt (hblock.mono fun _ r hr => ⟨r, rfl, hr⟩)
  refine follows_bind hattempt ?_ ?_
  · rintro st' r ⟨_, ⟨⟩, hr⟩
    cases r with
    | ok a =>
      rw [hok]
      exact follows_pure hr
    -- the error that is returned is the block's, whatever the cleanup answers
    | error e =>
      rw [herror]
      exact follows_ignore_bind (hclean st' e hr) (follows_throw rfl)
  · rintro _ _ ⟨_, ⟨⟩, -⟩

theorem writeRemoteTemp_follows {tmp : String}
    (hne : (env c).remoteLoc (path c) ≠ (env c).remoteLoc tmp) :
    Follows (Shared.step env c) (Protocol .remote env path data c)
      (Leaves ((env c).remoteLoc tmp) fun _ st => st = .ended (.ok ()))
      (writeRemoteTemp tmp (path c) (data c)) (.opening ((env c).remoteLoc tmp)) := by
  unfold writeRemoteTemp
  refine follows_bind (follows_withContext (follows_op (.openWithFlags tmp) id rfl
    fun w => move_openWithFlags (env c) (path c) (data c) w tmp)) ?_ fun _ _ => id
  rintro _ h ⟨hloc, rfl⟩
  rw [← hloc] at hne ⊢
  refine follows_bind (follows_withContext (follows_op (.writeAll h (data c)) id rfl
    fun w => move_writeBehind (env c) (path c) rfl fun _ => rfl)) ?_ fun _ _ => id
  rintro _ ⟨⟩ rfl
  -- three ignored calls, then the unlink
  refine follows_ignore_bind (follows_quiet (.flush h) id rfl (fun _ => rfl)
    fun w => funext (exec_flush (env c) w h).get) ?_
  refine follows_ignore_bind (follows_quiet (.syncAll h) id rfl (fun _ => rfl)
    fun w => by rw [show (step (env c) (.syncAll h) w).2 = _ from Env.onRemote_world ..]; rfl) ?_
  refine follows_ignore_bind (follows_quiet (.close h) id rfl (fun _ => rfl)
    fun w => funext (exec_close (env c) w h).get) ?_
  refine follows_ignore_bind (follows_op (.removeFile (path c)) id rfl
    fun w => ⟨_, move_removeTarget (env c) (path c) (data c) w h, rfl⟩) ?_
  exact follows_withContext (follows_op (.rename tmp (path c)) id rfl
    fun w => move_rename (env c) (path c) (data c) w hloc.symm hne)

theorem atomicWriteRemote_follows :
    Follows (Shared.step env c) (Protocol .remote env path data c) EndsIn
      (atomicWriteRemote (path c) (data c)) .unnamed := by
  have hsuffix : Follows (Shared.step env c) (Protocol .remote env path data c)
      (fun st r => ∃ suffix, r = .ok suffix ∧
        st = .opening ((env c).remoteLoc (path c ++ ".tmp." ++ suffix)) ∧
        (env c).remoteLoc (path c) ≠ (env c).remoteLoc (path c ++ ".tmp." ++ suffix))
      randomTmpSuffix .unnamed := by
    refine follows_op .suffixHash (fun hash => .ok (tmpSuffix hash)) rfl fun w => ?_
    have hne := (remoteTmp_ne (env c) w (path c)).symm
    exact ⟨_, .name (fun h => hne (Option.some.inj h)) rfl, _, rfl, rfl, hne⟩
  unfold atomicWriteRemote
  refine follows_bind hsuffix ?_ ?_
  · rintro _ suffix ⟨_, ⟨⟩, rfl, hne⟩
    refine follows_cleanup (writeRemoteTemp_follows hne) (fun st e hst => ?_) rfl fun _ => rfl
    exact follows_op (.removeFile (path c ++ ".tmp." ++ suffix)) id rfl
      fun w => ⟨_, move_cleanup (env c) (path c) (data c) w hst e, rfl⟩
  · rintro _ e ⟨_, ⟨⟩, -⟩

/-! ### `atomic_write_local` -/

section Local

variable (env : Env) (path : String) (data : Bytes) (w : World)

theorem move_fsOpenCreateNew {tmp : String} {p : Loc} (hp : env.diskLoc tmp = some p) :
    ∃ st', Move .disk env path data (.fsOpenCreateNew tmp) w (.opening p) st'
        (step env (.fsOpenCreateNew tmp) w).2.disk
        (FileOp.opened _ (step env (.fsOpenCreateNew tmp) w).1).toList ∧
      Leaves p (fun h st => h.loc = p ∧ st = .opened h) st'
        (step env (.fsOpenCreateNew tmp) w).1 := by
  by_cases hopens : env.fault w.tick = .none ∧ w.disk.get p = none ∧ w.disk.writable p = true
  · obtain ⟨w', hexec, hstep⟩ := exec_fsOpenCreateNew hopens.1 hp hopens.2.1 hopens.2.2
    rw [show step env (.fsOpenCreateNew tmp) w = _ from hexec]
    exact ⟨_, .create hopens.2.1 rfl rfl hstep.get, rfl, rfl⟩
  · obtain ⟨e, hexec⟩ := exec_fsOpenCreateNew_error hp hopens
    rw [show step env (.fsOpenCreateNew tmp) w = _ from hexec]
    exact ⟨_, .refuse rfl, rfl⟩

theorem move_fsSyncAll (h : FileHandle) :
    ∃ st', Move .disk env path data (.fsSyncAll h) w (.staged h) st'
        (step env (.fsSyncAll h) w).2.disk [] ∧
      Leaves h.loc (fun _ st => st = .staged h) st' (step env (.fsSyncAll h) w).1 := by
  rw [show step env (.fsSyncAll h) w = _ from exec_fsSyncAll env w h]
  by_cases hfault : env.fault w.tick = .none
  · rw [if_pos hfault]
    exact ⟨_, .wait rfl, rfl⟩
  · rw [if_neg hfault]
    exact ⟨_, .fail rfl, rfl⟩

theorem move_fsRename {tmp : String} {h : FileHandle} (hloc : env.diskLoc tmp = some h.loc)
    (hne : env.diskLoc path ≠ some h.loc) :
    ∃ st', Move .disk env path data (.fsRename tmp path) w (.staged h) st'
        (step env (.fsRename tmp path) w).2.disk [] ∧
      Leaves h.loc (fun _ st => st = .ended (.ok ())) st' (step env (.fsRename tmp path) w).1 := by
  by_cases hf : ∃ f, w.disk.get h.loc = some (.file f)
  · obtain ⟨f, hf⟩ := hf
    rcases exec_fsRename hloc hf hne with ⟨-, q, w', hq, hw, hexec, hstep⟩ | ⟨-, e, hexec⟩
    · rw [show step env (.fsRename tmp path) w = _ from hexec]
      exact ⟨_, .publish (.inl rfl) hq hw hf hstep.get, rfl⟩
    · rw [show step env (.fsRename tmp path) w = _ from hexec]
      exact ⟨_, .fail rfl, rfl⟩
  · obtain ⟨e, w', hexec, hsame⟩ :=
      exec_fsRename_of_missing hloc (FileTree.fileAt_eq_none hf) path
    rw [show step env (.fsRename tmp path) w = _ from hexec]
    exact ⟨_, .fail (congrArg _ hsame.disk), rfl⟩

theorem move_fsRemoveFile {tmp : String} {p : Loc} (hp : env.diskLoc tmp = some p) {st : Stage}
    (hst : st.residue = some p) (e : Error) :
    Move .disk env path data (.fsRemoveFile tmp) w st (.ended (.error e))
      (step env (.fsRemoveFile tmp) w).2.disk [] :=
  .clean hst rfl hp (Tree.same_or_without (exec_fsRemoveFile w hp).1.get)

end Local

theorem writeLocalTemp_follows {tmp : String} {p : Loc} (hp : (env c).diskLoc tmp = some p)
    (hne : (env c).diskLoc (path c) ≠ some p) :
    Follows (Shared.step env c) (Protocol .disk env path data c)
      (Leaves p fun _ st => st = .ended (.ok ()))
      (writeLocalTemp tmp (path c) (data c)) (.opening p) := by
  unfold writeLocalTemp
  refine follows_bind (follows_withContext (follows_op (.fsOpenCreateNew tmp) id rfl
    fun w => move_fsOpenCreateNew (env c) (path c) (data c) w hp)) ?_ fun _ _ => id
  rintro _ h ⟨rfl, rfl⟩
  refine follows_bind (follows_withContext (follows_op (.fsWriteAll h (data c)) id rfl
    fun w => move_writeBehind (env c) (path c) rfl fun _ => rfl)) ?_ fun _ _ => id
  rintro _ ⟨⟩ rfl
  refine follows_ignore_bind (follows_quiet (.fsFlush h) id rfl (fun _ => rfl)
    fun w => funext (exec_fsFlush (env c) w h).get) ?_
  refine follows_bind (follows_withContext (follows_op (.fsSyncAll h) id rfl
    fun w => move_fsSyncAll (env c) (path c) (data c) w h)) ?_ fun _ _ => id
  rintro _ ⟨⟩ rfl
  exact follows_withContext (follows_op (.fsRename tmp (path c)) id rfl
    fun w => move_fsRename (env c) (path c) (data c) w hp hne)

theorem atomicWriteLocal_follows :
    Follows (Shared.step env c) (Protocol .disk env path data c) EndsIn
      (atomicWriteLocal (path c) (data c)) .unnamed := by
  have hsuffix : Follows (Shared.step env c) (Protocol .disk env path data c)
      (fun st r => ∃ suffix p, r = .ok suffix ∧ st = .opening p ∧
        (env c).diskLoc (localTmp (path c) suffix) = some p ∧
        (env c).diskLoc (path c) ≠ some p)
      randomTmpSuffix .unnamed := by
    refine follows_op .suffixHash (fun hash => .ok (tmpSuffix hash)) rfl fun w => ?_
    have hne := diskLoc_ne_localTmp (env c) (path c) ((env c).hash w.tick)
    exact ⟨_, .name hne rfl, _, _, rfl, rfl, diskLoc_localTmp _ _ _, hne⟩
  unfold atomicWriteLocal
  refine follows_bind hsuffix ?_ ?_
  · rintro _ suffix ⟨_, p, ⟨⟩, rfl, hp, hne⟩
    refine follows_cleanup (writeLocalTemp_follows hp hne) (fun st e hst => ?_) rfl fun _ => rfl
    exact follows_op (.fsRemoveFile (localTmp (path c) suffix)) id rfl
      fun w => ⟨_, move_fsRemoveFile (env c) (path c) (data c) w hp hst e, rfl⟩
  · rintro _ e ⟨_, _, ⟨⟩, -⟩

end Follows

theorem Side.atomicWrite_follows (side : Side) (env : ι → Env) (path : ι → String)
    (data : ι → Bytes) (c : ι) :
    Follows (Shared.step env c) (Protocol side env path data c) EndsIn
      (side.atomicWrite (path c) (data c)) .unnamed := by
  cases side with
  | remote => exact atomicWriteRemote_follows
  | disk => exact atomicWriteLocal_follows

end Passhrs
