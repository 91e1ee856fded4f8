import Passhrs.Sftp.World

/-!
# What one operation does

The rules by which later modules follow a program through its operations: one group for the tree
functions (`get_…`: what the tree holds afterwards), one for a single operation under a fault or
without one (`…_of_none`, `…_of_fault`), and `exec_…` for each call.
-/

namespace Passhrs

open Effects SlashPath

/-! ## Tree functions -/

namespace Tree

variable {t t' : Tree} {p q : Loc}

theorem createNew_of_absent (hnone : t.get p = none) (hw : t.writable p = true) (perm : UInt32)
    (mtime ino : Nat) :
    t.createNew p perm mtime ino = (.ok ⟨p, ino⟩, t.setFile p ⟨[], perm, mtime, ino⟩) := by
  simp [createNew, hnone, hw]

/-- A file is created only where nothing was; otherwise the tree stays as it is. -/
theorem createNew_cases (t : Tree) (p : Loc) (perm : UInt32) (mtime ino : Nat) :
    (t.get p = none ∧ t.writable p = true) ∨
      ∃ e, t.createNew p perm mtime ino = (.error e, t) := by
  unfold createNew
  split
  · exact .inr ⟨_, rfl⟩
  · next hnone =>
    by_cases hw : t.writable p = true
    · exact .inl ⟨hnone, hw⟩
    · exact .inr ⟨.noSuchFile, by rw [if_neg hw]⟩

theorem get_append {h : FileHandle} {f : File} (hf : t.get h.loc = some (.file f))
    (hino : f.ino = h.ino) (data : Bytes) (mtime : Nat) (x : Loc) :
    (t.append h data mtime).get x =
      if x = h.loc then some (.file { f with content := f.content ++ data, mtime := mtime })
      else t.get x := by
  unfold append
  rw [FileTree.fileAt_eq_some_iff.mpr hf]
  simp only [hino, if_true]
  exact FileTree.get_setFile (FileTree.writable_of_file hf) _ x

theorem unlink_of_file {f : File} (hf : t.get p = some (.file f)) :
    t.unlink p = (.ok (), t.removeFile p) := by
  simp [unlink, hf]

theorem get_unlink (t : Tree) (p x : Loc) :
    (t.unlink p).2.get x = if x = p ∧ (t.fileAt p).isSome then none else t.get x := by
  rcases hp : t.get p with _ | ⟨f | _⟩
  · have hfile : t.fileAt p = none := by simp [FileTree.fileAt, hp]
    simp [unlink, hp, hfile]
  · have hfile : t.fileAt p = some f := FileTree.fileAt_eq_some_iff.mpr hp
    rw [unlink_of_file hp, FileTree.get_removeFile hp]
    simp [hfile]
  · have hfile : t.fileAt p = none := by simp [FileTree.fileAt, hp]
    simp [unlink, hp, hfile]

theorem chmod_of_file {f : File} (hf : t.get p = some (.file f)) (mode : UInt32) :
    t.chmod p mode = (.ok (), t.setFile p { f with perm := mode &&& 0o7777 }) := by
  simp [chmod, hf]

theorem get_makeDir_of_exists {node : Node File} (hp : t.get p = some node) :
    t.makeDir p = (.error .failure, t) := by
  unfold makeDir
  split
  · next h => simp [h] at hp
  · rfl

theorem fileAt_makeDir (t : Tree) (p x : Loc) : (t.makeDir p).2.fileAt x = t.fileAt x := by
  unfold makeDir
  split
  · split
    · exact FileTree.fileAt_mkdir t _ x
    · rfl
  · rfl

/-- A directory is made where nothing was. -/
theorem makeDir_eq_ok (h : (t.makeDir p).1 = .ok ()) :
    t.get p = none ∧ ∀ x, (t.makeDir p).2.get x = if x = p then some .dir else t.get x := by
  unfold makeDir at h ⊢
  split at h
  · next n q hnone =>
    split at h
    · next hdir =>
      rw [if_pos hdir]
      exact ⟨hnone, FileTree.get_mkdir (FileTree.isDir_iff.mp hdir) hnone⟩
    · cases h
  · cases h

/-- Where a directory is, there is nothing to make. -/
theorem makeDirAll_of_dir (h : t.get p = some .dir) : t.makeDirAll p = (.ok (), t) := by
  induction p with
  | nil => rfl
  | cons n p ih => simp [makeDirAll, ih (FileTree.get_parent (n := n) (by simp [h])), h]

/-- Making a directory below one that exists makes no other. -/
theorem get_makeDirAll {n : FileName} (hdir : t.get p = some .dir) (hnone : t.get (n :: p) = none)
    (x : Loc) :
    (t.makeDirAll (n :: p)).2.get x = if x = n :: p then some .dir else t.get x := by
  rw [makeDirAll, makeDirAll_of_dir hdir]
  simp only [hnone]
  exact FileTree.get_mkdir hdir hnone x

/-- Making directories touches no file, however it ends. -/
theorem fileAt_makeDirAll (t : Tree) (p x : Loc) :
    (t.makeDirAll p).2.fileAt x = t.fileAt x := by
  induction p with
  | nil => rfl
  | cons n p ih =>
    rw [makeDirAll]
    rcases hrec : t.makeDirAll p with ⟨e | ⟨⟩, t'⟩
    · rw [hrec] at ih
      exact ih
    · rw [hrec] at ih
      simp only
      split
      · exact ih
      · exact ih
      · exact (FileTree.fileAt_mkdir t' _ x).trans ih

/-- Whatever ancestors are made on the way, what is below the directory is as it was. -/
theorem makeDirAll_eq_ok (h : (t.makeDirAll p).1 = .ok ()) :
    (t.makeDirAll p).2.get p = some .dir ∧
      ∀ ns, ns ≠ [] → (t.makeDirAll p).2.get (ns ++ p) = t.get (ns ++ p) := by
  induction p with
  | nil => exact ⟨t.get_root, fun _ _ => rfl⟩
  | cons n p ih =>
    rw [makeDirAll] at h ⊢
    rcases hrec : t.makeDirAll p with ⟨e | ⟨⟩, t'⟩
    · simp [hrec] at h
    rw [hrec] at ih
    simp only [hrec] at h ⊢
    obtain ⟨hdir, hbelow⟩ := ih rfl
    have hbelow' : ∀ ns : Loc, t'.get (ns ++ n :: p) = t.get (ns ++ n :: p) := by
      intro ns
      have hns := hbelow (ns ++ [n]) (by simp)
      rwa [List.append_assoc, List.singleton_append] at hns
    split at h
    · next hnode => exact ⟨hnode, fun ns _ => hbelow' ns⟩
    · cases h
    · next hnone =>
      have hget := FileTree.get_mkdir hdir hnone
      refine ⟨by rw [hget, if_pos rfl], fun ns hns => ?_⟩
      rw [hget, if_neg (by simpa using hns), hbelow']

/-- A rename that succeeds moves the file and nothing else. -/
theorem move_cases (t : Tree) (replaces : Bool) {f : File} (hf : t.get p = some (.file f))
    (hpq : p ≠ q) :
    (t.writable q = true ∧ (replaces = true ∨ t.fileAt q = none) ∧
      (t.move replaces p q).1 = .ok () ∧
      ∀ x, (t.move replaces p q).2.get x =
        if x = q then some (.file f) else if x = p then none else t.get x) ∨
    (¬ (t.writable q = true ∧ (replaces = true ∨ t.fileAt q = none)) ∧
      t.move replaces p q = (.error .failure, t)) := by
  have hfile : t.fileAt p = some f := FileTree.fileAt_eq_some_iff.mpr hf
  by_cases hc : t.writable q = true ∧ (replaces = true ∨ t.fileAt q = none)
  · refine .inl ⟨hc.1, hc.2, by simp [move, hfile, hc.1, hc.2], fun x => ?_⟩
    -- taking the file away does not close the place it goes to: its parent is no file
    have hw : (t.removeFile p).writable q = true := by
      obtain _ | ⟨n, d⟩ := q
      · simp [FileTree.writable] at hc
      · obtain ⟨hdir, hnot⟩ := FileTree.writable_cons_iff.mp hc.1
        have hdp : d ≠ p := fun e => by simp [← e, hdir] at hf
        rw [FileTree.writable_cons_iff, FileTree.get_removeFile hf, FileTree.get_removeFile hf,
          if_neg hdp, if_neg (Ne.symm hpq)]
        exact ⟨hdir, hnot⟩
    have hmove : (t.move replaces p q).2 = (t.removeFile p).setFile q f := by
      simp [move, hfile, hc.1, hc.2]
    rw [hmove, FileTree.get_setFile hw, FileTree.get_removeFile hf]
  · refine .inr ⟨hc, ?_⟩
    have hb : (t.writable q && (replaces || (t.fileAt q).isNone)) = false := by
      rw [← Bool.not_eq_true]
      simpa using hc
    simp [move, hfile, hb]

theorem move_of_missing (hp : t.fileAt p = none) (replaces : Bool) (q : Loc) :
    t.move replaces p q = (.error .noSuchFile, t) := by
  simp [move, hp]

end Tree

/-! ## One operation -/

section Operation

variable {env : Env} {w : World} {α : Type}

@[simp] theorem World.next_remote (w : World) : w.next.remote = w.remote := rfl
@[simp] theorem World.next_disk (w : World) : w.next.disk = w.disk := rfl
@[simp] theorem World.next_tick (w : World) : w.next.tick = w.tick + 1 := rfl

theorem Env.unlessFault_of_none (h : env.fault w.tick = .none) (r : Except IoError α × World) :
    env.unlessFault w r = r := by
  simp [unlessFault, h]

theorem Env.unlessFault_of_fault (h : env.fault w.tick ≠ .none)
    (r : Except IoError α × World) : env.unlessFault w r = (.error .failure, w.next) := by
  unfold unlessFault
  split
  · next hnone => exact absurd hnone h
  · rfl

/-- What holds of either outcome holds of the outcome. -/
theorem Env.unlessFault_rule {P : World → Prop} {r : Except IoError α × World} (hnext : P w.next)
    (hr : P r.2) : P (env.unlessFault w r).2 := by
  by_cases h : env.fault w.tick = .none
  · rwa [unlessFault_of_none h]
  · rwa [unlessFault_of_fault h]

@[simp] theorem Env.onRemote_world (env : Env) (w : World) (r : Except IoError α) :
    (env.onRemote w r).2 = w.next :=
  unlessFault_rule (P := fun t => t = w.next) rfl rfl

theorem Env.onDisk_world (env : Env) (w : World) (path : String) (r : Loc → Except IoError α) :
    (env.onDisk w path r).2 = w.next :=
  unlessFault_rule (P := fun t => t = w.next) rfl rfl

theorem Env.onDisk_of_fault (h : env.fault w.tick ≠ .none) (path : String)
    (r : Loc → Except IoError α) : env.onDisk w path r = (.error .failure, w.next) :=
  unlessFault_of_fault h _

theorem Env.changeDisk_remote (env : Env) (w : World) (path : String)
    (r : Loc → Except IoError α × Tree) : (env.changeDisk w path r).2.remote = w.remote := by
  unfold changeDisk
  split
  · exact unlessFault_rule (P := fun t => t.remote = w.remote) rfl rfl
  · exact unlessFault_rule (P := fun t => t.remote = w.remote) rfl rfl

theorem Env.changeRemote_of_none (h : env.fault w.tick = .none) (r : Except IoError α × Tree) :
    env.changeRemote w r = (r.1, { w.next with remote := r.2 }) := unlessFault_of_none h _

theorem Env.changeRemote_of_fault (h : env.fault w.tick ≠ .none)
    (r : Except IoError α × Tree) : env.changeRemote w r = (.error .failure, w.next) :=
  unlessFault_of_fault h _

end Operation

/-! ### The tick -/

theorem Env.unlessFault_tick (env : Env) {w : World} {α : Type} {r : Except IoError α × World}
    (hr : r.2.tick = w.tick + 1) : (env.unlessFault w r).2.tick = w.tick + 1 :=
  unlessFault_rule (P := fun t => t.tick = w.tick + 1) rfl hr

theorem Env.changeDisk_tick (env : Env) (w : World) (path : String) {α : Type}
    (r : Loc → Except IoError α × Tree) : (env.changeDisk w path r).2.tick = w.tick + 1 := by
  unfold changeDisk
  split
  · exact unlessFault_tick env rfl
  · exact unlessFault_tick env rfl

/-- What holds when nothing is written, and whatever is, with any errors left for later. -/
theorem World.writeBehind_rule {P : World → Prop} {w : World} (fault : Fault) (h : FileHandle)
    (data : Bytes) {wrote : Bytes → World} (hnext : P w.next)
    (hwrote : ∀ bytes, P (wrote bytes) ∧
      ∀ inos, P { wrote bytes with deferred := inos }) :
    P (w.writeBehind fault h data wrote).2 := by
  unfold writeBehind
  cases fault with
  | none | short _ => exact (hwrote _).1
  | fail => exact hnext
  | inFlight _ | refused _ =>
    dsimp only
    split
    · exact (hwrote _).2 _
    · exact (hwrote _).1

theorem Env.awaitWrites_rule {P : World → Prop} (env : Env) {w : World} (h : FileHandle)
    (hnext : ∀ inos, P { w.next with deferred := inos }) : P (env.awaitWrites w h).2 := by
  unfold awaitWrites
  split
  · exact hnext _
  · exact unlessFault_rule (P := P) (hnext w.deferred) (hnext w.deferred)

/-- Every operation takes one tick. -/
theorem step_tick (env : Env) (op : FileOp) (w : World) : (step env op w).2.tick = w.tick + 1 := by
  cases op with
  | writeAll h data | fsWriteAll h data =>
    exact World.writeBehind_rule (P := fun t => t.tick = w.tick + 1) _ h data rfl
      fun _ => ⟨rfl, fun _ => rfl⟩
  | flush h | close h | fsFlush h =>
    exact Env.awaitWrites_rule (P := fun t => t.tick = w.tick + 1) env h fun _ => rfl
  | suffixHash => rfl
  | fsRename old new =>
    simp only [step]
    split
    · exact Env.unlessFault_tick env rfl
    · exact Env.changeDisk_tick env w _ _
  | fsCreateDirAll path =>
    simp only [step]
    split
    · exact Env.unlessFault_tick env rfl
    · exact Env.changeDisk_tick env w _ _
  | fsOpenCreateNew path => exact Env.changeDisk_tick env w _ _
  | fsRemoveFile path => exact Env.changeDisk_tick env w _ _
  | fsSetPermissions path mode => exact Env.changeDisk_tick env w _ _
  | _ => exact Env.unlessFault_tick env rfl

/-! ## Calls -/

section Calls

variable (env : Env) (w : World) {α β : Type}

@[simp] theorem exec_withContext (msg : String) (x : FileCall α) :
    exec (step env) (withContext msg x) w
      = ((exec (step env) x w).1.mapError (⟨[msg], ·⟩), (exec (step env) x w).2) :=
  exec_mapError _ _ _ _

@[simp] theorem exec_propagate (x : FileCall α) :
    exec (step env) (propagate x) w
      = ((exec (step env) x w).1.mapError (⟨[], ·⟩), (exec (step env) x w).2) :=
  exec_mapError _ _ _ _

@[simp] theorem exec_syncAll (file : FileHandle) :
    exec (step env) (syncAll file) w = env.onRemote w (.ok ()) := rfl

theorem execLog_fsRemoveFile (path : String) :
    execLog (step env) (fsRemoveFile path) w
      = [⟨.fsRemoveFile path, (exec (step env) (fsRemoveFile path) w).1⟩] := rfl

end Calls

/-! ## Calls that only read

A read that succeeds met no fault and told the truth. -/

/-- Both file trees are as they were. -/
structure SameTrees (w w' : World) : Prop where
  remote : w'.remote = w.remote
  disk : w'.disk = w.disk

theorem SameTrees.refl (w : World) : SameTrees w w := ⟨rfl, rfl⟩

theorem SameTrees.trans {w w' w'' : World} (h : SameTrees w w') (h' : SameTrees w' w'') :
    SameTrees w w'' := ⟨h'.remote.trans h.remote, h'.disk.trans h.disk⟩

theorem SameTrees.next {w w' : World} (h : SameTrees w w') : SameTrees w w'.next :=
  ⟨h.remote, h.disk⟩

section Reads

variable {env : Env} {w w' : World} {α : Type} {a : α}

theorem exec_withContext_eq_ok {msg : String} {x : FileCall α} :
    exec (step env) (withContext msg x) w = (.ok a, w') ↔
      exec (step env) x w = (.ok a, w') := by
  rw [exec_withContext]
  rcases exec (step env) x w with ⟨e | b, w₁⟩
  · exact iff_of_false (by rintro ⟨⟩) (by rintro ⟨⟩)
  · constructor <;> (rintro ⟨⟩; rfl)

theorem exec_propagate_eq_ok {x : FileCall α} :
    exec (step env) (propagate x) w = (.ok a, w') ↔ exec (step env) x w = (.ok a, w') := by
  rw [exec_propagate]
  rcases exec (step env) x w with ⟨e | b, w₁⟩
  · exact iff_of_false (by rintro ⟨⟩) (by rintro ⟨⟩)
  · constructor <;> (rintro ⟨⟩; rfl)

theorem Env.unlessFault_eq_ok {r : Except IoError α × World}
    (h : env.unlessFault w r = (.ok a, w')) : r.1 = .ok a ∧ w' = r.2 := by
  by_cases hfault : env.fault w.tick = .none
  · rw [unlessFault_of_none hfault] at h
    rw [h]
    exact ⟨rfl, rfl⟩
  · rw [unlessFault_of_fault hfault] at h
    cases (Prod.mk.inj h).1

theorem Env.onRemote_eq_ok {r : Except IoError α} (h : env.onRemote w r = (.ok a, w')) :
    r = .ok a ∧ w' = w.next :=
  unlessFault_eq_ok h

theorem Env.changeRemote_eq_ok {r : Except IoError α × Tree}
    (h : env.changeRemote w r = (.ok a, w')) :
    r.1 = .ok a ∧ w' = { w.next with remote := r.2 } :=
  unlessFault_eq_ok h

theorem Env.changeDisk_eq_ok {path : String} {r : Loc → Except IoError α × Tree}
    (h : env.changeDisk w path r = (.ok a, w')) :
    ∃ p, env.diskLoc path = some p ∧ (r p).1 = .ok a ∧ w' = { w.next with disk := (r p).2 } := by
  unfold changeDisk at h
  split at h
  · cases (unlessFault_eq_ok h).1
  · next p hp => exact ⟨p, hp, unlessFault_eq_ok h⟩

theorem Env.onRemote_of_none (hfault : env.fault w.tick = .none) (r : Except IoError α) :
    env.onRemote w r = (r, w.next) := unlessFault_of_none hfault _

theorem Env.onDisk_eq_ok {path : String} {r : Loc → Except IoError α}
    (h : env.onDisk w path r = (.ok a, w')) :
    ∃ p, env.diskLoc path = some p ∧ r p = .ok a ∧ w' = w.next := by
  unfold onDisk at h
  rcases hp : env.diskLoc path with _ | p
  · rw [hp] at h
    cases (unlessFault_eq_ok h).1
  · rw [hp] at h
    exact ⟨p, rfl, unlessFault_eq_ok h⟩

theorem Env.onDisk_of_none {path : String} {p : Loc} (hfault : env.fault w.tick = .none)
    (hp : env.diskLoc path = some p) (r : Loc → Except IoError α) :
    env.onDisk w path r = (r p, w.next) := by
  rw [onDisk, unlessFault_of_none hfault, hp]

theorem Tree.list_eq_ok {t : Tree} {p : Loc} {names : List String} (h : t.list p = .ok names) :
    t.get p = some .dir ∧ names = (t.children p).map FileName.str := by
  unfold Tree.list at h
  split at h
  · cases h
  · cases h
  · next hdir => exact ⟨hdir, (Except.ok.inj h).symm⟩

theorem exec_readDir_eq_ok {path : String} {names : List String}
    (h : exec (step env) (readDir path) w = (.ok names, w')) :
    w.remote.get (env.remoteLoc path) = some .dir ∧
      names = (w.remote.children (env.remoteLoc path)).map FileName.str ∧ w' = w.next := by
  obtain ⟨hlist, rfl⟩ := Env.onRemote_eq_ok h
  obtain ⟨hdir, hnames⟩ := Tree.list_eq_ok hlist
  exact ⟨hdir, hnames, rfl⟩

theorem exec_readDir_ok {path : String} (hfault : env.fault w.tick = .none)
    (hdir : w.remote.get (env.remoteLoc path) = some .dir) :
    exec (step env) (readDir path) w
      = (.ok ((w.remote.children (env.remoteLoc path)).map FileName.str), w.next) := by
  show env.onRemote w _ = _
  rw [Env.onRemote_of_none hfault, Tree.list, hdir]

theorem exec_metadata_eq_ok {path : String} {stat : Metadata}
    (h : exec (step env) (metadata path) w = (.ok stat, w')) :
    (w.remote.get (env.remoteLoc path) = some .dir ∧ stat = dirMetadata env.dirMode ∨
      ∃ f, w.remote.get (env.remoteLoc path) = some (.file f) ∧ stat = fileMetadata f) ∧
      w' = w.next := by
  obtain ⟨hstat, rfl⟩ := Env.onRemote_eq_ok h
  unfold Tree.stat at hstat
  split at hstat
  · cases hstat
  · next hdir => exact ⟨.inl ⟨hdir, (Except.ok.inj hstat).symm⟩, rfl⟩
  · next f hf => exact ⟨.inr ⟨f, hf, (Except.ok.inj hstat).symm⟩, rfl⟩

theorem exec_metadata_dir {path : String} (hfault : env.fault w.tick = .none)
    (hdir : w.remote.get (env.remoteLoc path) = some .dir) :
    exec (step env) (metadata path) w = (.ok (dirMetadata env.dirMode), w.next) := by
  show env.onRemote w _ = _
  rw [Env.onRemote_of_none hfault, Tree.stat, hdir]

theorem exec_metadata_file {path : String} {f : File} (hfault : env.fault w.tick = .none)
    (hf : w.remote.get (env.remoteLoc path) = some (.file f)) :
    exec (step env) (metadata path) w = (.ok (fileMetadata f), w.next) := by
  show env.onRemote w _ = _
  rw [Env.onRemote_of_none hfault, Tree.stat, hf]

theorem Tree.contentAt_eq_ok {t : Tree} {p : Loc} {data : Bytes} (h : t.contentAt p = .ok data) :
    ∃ f, t.get p = some (.file f) ∧ f.content = data := by
  unfold contentAt at h
  split at h
  · cases h
  · cases h
  · next f hf => exact ⟨f, hf, Except.ok.inj h⟩

theorem exec_read_eq_ok {path : String} {data : Bytes}
    (h : exec (step env) (read path) w = (.ok data, w')) :
    (∃ f, w.remote.get (env.remoteLoc path) = some (.file f) ∧ f.content = data) ∧
      w' = w.next := by
  obtain ⟨hread, rfl⟩ := Env.onRemote_eq_ok h
  exact ⟨Tree.contentAt_eq_ok hread, rfl⟩

theorem exec_read_ok {path : String} {f : File} (hfault : env.fault w.tick = .none)
    (hf : w.remote.get (env.remoteLoc path) = some (.file f)) :
    exec (step env) (read path) w = (.ok f.content, w.next) := by
  show env.onRemote w _ = _
  rw [Env.onRemote_of_none hfault, Tree.contentAt, hf]

theorem exec_fsMetadata_of_file {path : String} {p : Loc} {f : File}
    (hfault : env.fault w.tick = .none) (hp : env.diskLoc path = some p)
    (hf : w.disk.get p = some (.file f)) :
    exec (step env) (fsMetadata path) w =
      (.ok (localMetadata env.dirMode (.file f)), w.next) := by
  show env.onDisk w path _ = _
  rw [Env.onDisk_of_none hfault hp, Tree.localStat, hf]

theorem exec_fsReadDir_eq_ok {path : String} {names : List String}
    (h : exec (step env) (fsReadDir path) w = (.ok names, w')) :
    ∃ p, env.diskLoc path = some p ∧ w.disk.get p = some .dir ∧
      names = (w.disk.children p).map FileName.str ∧ w' = w.next := by
  obtain ⟨p, hp, hlist, rfl⟩ := Env.onDisk_eq_ok h
  obtain ⟨hdir, hnames⟩ := Tree.list_eq_ok hlist
  exact ⟨p, hp, hdir, hnames, rfl⟩

theorem exec_fsReadDir_ok {path : String} {p : Loc} (hfault : env.fault w.tick = .none)
    (hp : env.diskLoc path = some p) (hdir : w.disk.get p = some .dir) :
    exec (step env) (fsReadDir path) w
      = (.ok ((w.disk.children p).map FileName.str), w.next) := by
  show env.onDisk w path _ = _
  rw [Env.onDisk_of_none hfault hp, Tree.list, hdir]

theorem exec_fsNextEntry_eq_ok {dir : String}
    (h : exec (step env) (fsNextEntry dir) w = (.ok (), w')) : w' = w.next :=
  (Env.unlessFault_eq_ok h).2

theorem exec_fsNextEntry_ok {dir : String} (hfault : env.fault w.tick = .none) :
    exec (step env) (fsNextEntry dir) w = (.ok (), w.next) :=
  Env.unlessFault_of_none hfault _

theorem Tree.localStat_eq_ok {t : Tree} {dirMode : UInt32} {p : Loc} {attrs : LocalMetadata}
    (h : t.localStat dirMode p = .ok attrs) :
    ∃ node, t.get p = some node ∧ attrs = localMetadata dirMode node := by
  unfold localStat at h
  split at h
  · cases h
  · next node hnode => exact ⟨node, hnode, (Except.ok.inj h).symm⟩

theorem exec_fsMetadata_eq_ok {path : String} {attrs : LocalMetadata}
    (h : exec (step env) (fsMetadata path) w = (.ok attrs, w')) :
    ∃ p node, env.diskLoc path = some p ∧ w.disk.get p = some node ∧
      attrs = localMetadata env.dirMode node ∧ w' = w.next := by
  obtain ⟨p, hp, hstat, rfl⟩ := Env.onDisk_eq_ok h
  obtain ⟨node, hnode, rfl⟩ := Tree.localStat_eq_ok hstat
  exact ⟨p, node, hp, hnode, rfl, rfl⟩

theorem exec_fsFileType_eq_ok {dir name : String} {isDir : Bool}
    (h : exec (step env) (fsFileType dir name) w = (.ok isDir, w')) :
    ∃ p node, env.diskLoc (child dir name) = some p ∧ w.disk.get p = some node ∧
      isDir = (localMetadata env.dirMode node).isDir ∧ w' = w.next := by
  obtain ⟨p, hp, hstat, rfl⟩ := Env.onDisk_eq_ok h
  rcases hs : w.disk.localStat env.dirMode p with e | attrs
  · rw [hs] at hstat
    cases hstat
  · rw [hs] at hstat
    obtain ⟨node, hnode, rfl⟩ := Tree.localStat_eq_ok hs
    exact ⟨p, node, hp, hnode, (Except.ok.inj hstat).symm, rfl⟩

theorem exec_fsFileType_ok {dir name : String} {p : Loc} {node : Node File}
    (hfault : env.fault w.tick = .none) (hp : env.diskLoc (child dir name) = some p)
    (hnode : w.disk.get p = some node) :
    exec (step env) (fsFileType dir name) w
      = (.ok (localMetadata env.dirMode node).isDir, w.next) := by
  show env.onDisk w _ _ = _
  rw [Env.onDisk_of_none hfault hp, Tree.localStat, hnode]
  rfl

theorem exec_fsEntryMetadata_eq_ok {dir name : String} {attrs : LocalMetadata}
    (h : exec (step env) (fsEntryMetadata dir name) w = (.ok attrs, w')) :
    ∃ p node, env.diskLoc (child dir name) = some p ∧ w.disk.get p = some node ∧
      attrs = localMetadata env.dirMode node ∧ w' = w.next := by
  obtain ⟨p, hp, hstat, rfl⟩ := Env.onDisk_eq_ok h
  obtain ⟨node, hnode, hattrs⟩ := Tree.localStat_eq_ok hstat
  exact ⟨p, node, hp, hnode, hattrs, rfl⟩

theorem exec_fsEntryMetadata_ok {dir name : String} {p : Loc} {node : Node File}
    (hfault : env.fault w.tick = .none) (hp : env.diskLoc (child dir name) = some p)
    (hnode : w.disk.get p = some node) :
    exec (step env) (fsEntryMetadata dir name) w
      = (.ok (localMetadata env.dirMode node), w.next) := by
  show env.onDisk w _ _ = _
  rw [Env.onDisk_of_none hfault hp, Tree.localStat, hnode]

theorem exec_fsRead_eq_ok {path : String} {data : Bytes}
    (h : exec (step env) (fsRead path) w = (.ok data, w')) :
    (∃ p f, env.diskLoc path = some p ∧ w.disk.get p = some (.file f) ∧ f.content = data) ∧
      w' = w.next := by
  obtain ⟨p, hp, hread, rfl⟩ := Env.onDisk_eq_ok h
  obtain ⟨f, hf, hdata⟩ := Tree.contentAt_eq_ok hread
  exact ⟨⟨p, f, hp, hf, hdata⟩, rfl⟩

theorem exec_fsRead_ok {path : String} {p : Loc} {f : File} (hfault : env.fault w.tick = .none)
    (hp : env.diskLoc path = some p) (hf : w.disk.get p = some (.file f)) :
    exec (step env) (fsRead path) w = (.ok f.content, w.next) := by
  show env.onDisk w path _ = _
  rw [Env.onDisk_of_none hfault hp, Tree.contentAt, hf]

end Reads

/-! ## Writes that fail late -/

/-- The bytes that reach a file under a fault of `write_all`. -/
def Fault.wrote : Fault → Bytes → Bytes
  | .none, data => data
  | .fail, _ => []
  | .short k, data => data.take k
  | .inFlight k, data => data.take k
  | .refused arrives, data => arrived arrives data

/-- `write_all` returns the fault's error itself. -/
def Fault.reported : Fault → Bool
  | .none => false
  | .fail => true
  | .short _ => true
  | .inFlight _ => false
  | .refused _ => false

/-- Where all bytes arrive, they are the data. -/
theorem arrived_of_all {arrives : List Bool} {data : Bytes}
    (h : ¬ (arrives.takeWhile id).length < data.length) : arrived arrives data = data := by
  induction data generalizing arrives with
  | nil => cases arrives with
    | nil => rfl
    | cons a arrives => cases a <;> rfl
  | cons b data ih =>
    rcases arrives with _ | ⟨_ | _, arrives⟩
    · exact absurd (Nat.succ_pos _) h
    · exact absurd (Nat.succ_pos _) h
    · rw [arrived, ih fun hlt => h (Nat.succ_lt_succ hlt)]

/-- The only way for tokio to lose bytes behind an `Ok` is a write that is still in flight. -/
theorem Fault.onDisk_wrote_ne_iff {fault : Fault} (h : fault.onDisk.reported = false)
    (data : Bytes) :
    fault.onDisk.wrote data ≠ data ↔ ∃ k, fault = .inFlight k ∧ k < data.length := by
  cases fault with
  | none => simp [onDisk, wrote]
  | fail => cases h
  | short k => cases h
  | inFlight k => simp [onDisk, wrote, List.take_eq_self_iff]
  | refused arrives => cases h

/-- What `write_all` leaves, with what it writes where. -/
theorem World.writeBehind_cases (w : World) (fault : Fault) (h : FileHandle) (data : Bytes)
    (wrote : Bytes → World) :
    ∃ w', w.writeBehind fault h data wrote
        = (if fault.reported then .error .failure else .ok (), w') ∧
      (fault.reported = true ∧ w' = w.next ∧ fault.wrote data = [] ∨
        ∃ inos, w' = { wrote (fault.wrote data) with deferred := inos }) := by
  unfold writeBehind
  cases fault with
  | none => exact ⟨_, rfl, .inr ⟨_, rfl⟩⟩
  | fail => exact ⟨_, rfl, .inl ⟨rfl, rfl, rfl⟩⟩
  | short k => exact ⟨_, rfl, .inr ⟨_, rfl⟩⟩
  | inFlight k =>
    -- a write in flight that reaches the end of the data has nothing to report later
    by_cases hk : k < data.length
    · simp only [if_pos hk]
      exact ⟨_, rfl, .inr ⟨_, rfl⟩⟩
    · simp only [if_neg hk]
      refine ⟨_, rfl, .inr ⟨(wrote data).deferred, ?_⟩⟩
      rw [Fault.wrote, List.take_of_length_le (by omega)]
  | refused arrives =>
    by_cases hall : (arrives.takeWhile id).length < data.length
    · simp only [if_pos hall]
      exact ⟨_, rfl, .inr ⟨_, rfl⟩⟩
    · simp only [if_neg hall]
      refine ⟨_, rfl, .inr ⟨(wrote data).deferred, ?_⟩⟩
      rw [Fault.wrote, arrived_of_all hall]

/-- A write that loses bytes behind an `Ok` fails the next `flush`. -/
theorem Env.awaitWrites_of_lost (env : Env) (w : World) {fault : Fault} (h : FileHandle)
    {data : Bytes} (wrote : Bytes → World) (hquiet : fault.reported = false)
    (hlost : fault.wrote data ≠ data) :
    (env.awaitWrites (w.writeBehind fault h data wrote).2 h).1 = .error .failure := by
  have hdeferred : h.ino ∈ (w.writeBehind fault h data wrote).2.deferred := by
    unfold World.writeBehind
    cases fault with
    | none => exact absurd rfl hlost
    | fail => cases hquiet
    | short k => cases hquiet
    | inFlight k =>
      have hk : k < data.length := by
        by_contra hk
        exact hlost (List.take_of_length_le (by omega))
      simp only [if_pos hk]
      exact List.mem_cons_self
    | refused arrives =>
      have hall : (arrives.takeWhile id).length < data.length := by
        by_contra hall
        exact hlost (arrived_of_all hall)
      simp only [if_pos hall]
      exact List.mem_cons_self
  rw [awaitWrites, if_pos hdeferred]

/-! ## Calls that change the server's tree

`RemoteStep w w' nodes` is what such a call leaves of the rest of the world. -/

/-- One operation later, with `nodes` on the server and nothing else changed. -/
structure RemoteStep (w w' : World) (nodes : Loc → Option (Node File)) : Prop where
  tick : w'.tick = w.tick + 1
  disk : w'.disk = w.disk
  get : ∀ x, w'.remote.get x = nodes x

section RemoteCalls

variable {env : Env} {w : World} {path : String}

theorem remoteStep_set (w : World) {t : Tree} {nodes : Loc → Option (Node File)}
    (h : ∀ x, t.get x = nodes x) : RemoteStep w { w.next with remote := t } nodes :=
  ⟨rfl, rfl, h⟩

theorem exec_openWithFlags (hfault : env.fault w.tick = .none)
    (hnone : w.remote.get (env.remoteLoc path) = none)
    (hw : w.remote.writable (env.remoteLoc path) = true) :
    ∃ w', exec (step env) (openWithFlags path) w = (.ok ⟨env.remoteLoc path, w.tick⟩, w') ∧
      RemoteStep w w' fun x =>
        if x = env.remoteLoc path then
          some (.file ⟨[], env.newFileMode, env.clock w.tick, w.tick⟩)
        else w.remote.get x := by
  refine ⟨_, ?_, remoteStep_set w (FileTree.get_setFile hw _)⟩
  show env.changeRemote w _ = _
  rw [Env.changeRemote_of_none hfault, Tree.createNew_of_absent hnone hw]

theorem exec_openWithFlags_error (h : ¬ (env.fault w.tick = .none ∧
    w.remote.get (env.remoteLoc path) = none ∧
    w.remote.writable (env.remoteLoc path) = true)) :
    ∃ e, exec (step env) (openWithFlags path) w = (.error e, w.next) := by
  show ∃ e, env.changeRemote w _ = (.error e, w.next)
  by_cases hfault : env.fault w.tick = .none
  · rw [Env.changeRemote_of_none hfault]
    rcases Tree.createNew_cases w.remote (env.remoteLoc path) env.newFileMode
      (env.clock w.tick) w.tick with hopen | ⟨e, he⟩
    · exact absurd ⟨hfault, hopen⟩ h
    · rw [he]
      exact ⟨e, rfl⟩
  · rw [Env.changeRemote_of_fault hfault]
    exact ⟨_, rfl⟩

theorem exec_writeAll (env : Env) {w : World} {h : FileHandle} {f : File}
    (hf : w.remote.get h.loc = some (.file f)) (hino : f.ino = h.ino) (data : Bytes) :
    ∃ w' m, exec (step env) (writeAll h data) w
        = (if (env.fault w.tick).reported then .error .failure else .ok (), w') ∧
      RemoteStep w w' fun x =>
        if x = h.loc then
          some (.file { f with
            content := f.content ++ (env.fault w.tick).wrote data, mtime := m })
        else w.remote.get x := by
  obtain ⟨w', hrun, ⟨-, rfl, hnone⟩ | ⟨inos, rfl⟩⟩ :=
    w.writeBehind_cases (env.fault w.tick) h data fun bytes =>
      { w.next with remote := w.remote.append h bytes (env.clock w.tick) }
  · refine ⟨_, f.mtime, hrun, rfl, rfl, fun x => ?_⟩
    rw [hnone, List.append_nil]
    split
    · next hx => rw [hx]; exact hf
    · rfl
  · exact ⟨_, env.clock w.tick, hrun, rfl, rfl, Tree.get_append hf hino _ _⟩

theorem exec_flush (env : Env) (w : World) (h : FileHandle) :
    RemoteStep w (exec (step env) (flush h) w).2 w.remote.get :=
  Env.awaitWrites_rule (P := fun t => RemoteStep w t w.remote.get) env h
    fun _ => ⟨rfl, rfl, fun _ => rfl⟩

theorem exec_close (env : Env) (w : World) (h : FileHandle) :
    RemoteStep w (exec (step env) (close h) w).2 w.remote.get :=
  Env.awaitWrites_rule (P := fun t => RemoteStep w t w.remote.get) env h
    fun _ => ⟨rfl, rfl, fun _ => rfl⟩

theorem exec_removeFile (env : Env) (w : World) (path : String) :
    RemoteStep w (exec (step env) (removeFile path) w).2 fun x =>
      if x = env.remoteLoc path ∧ env.fault w.tick = .none ∧
        (w.remote.fileAt (env.remoteLoc path)).isSome then none
      else w.remote.get x := by
  show RemoteStep w (env.changeRemote w _).2 _
  by_cases hfault : env.fault w.tick = .none
  · rw [Env.changeRemote_of_none hfault]
    refine ⟨rfl, rfl, fun x => ?_⟩
    simpa [hfault] using Tree.get_unlink w.remote (env.remoteLoc path) x
  · rw [Env.changeRemote_of_fault hfault]
    refine ⟨rfl, rfl, fun x => ?_⟩
    simp [hfault]

/-- A rename of a file either moves it and nothing else, or fails and changes nothing. It fails
when it is made to, when the target is no place for a file, or when the server does not
replace files and one is there. -/
theorem exec_rename {oldPath newPath : String} {f : File}
    (hf : w.remote.get (env.remoteLoc oldPath) = some (.file f))
    (hne : env.remoteLoc oldPath ≠ env.remoteLoc newPath) :
    (env.fault w.tick = .none ∧ w.remote.writable (env.remoteLoc newPath) = true ∧
      (env.renameReplaces = true ∨ w.remote.fileAt (env.remoteLoc newPath) = none) ∧
      ∃ w', exec (step env) (rename oldPath newPath) w = (.ok (), w') ∧
        RemoteStep w w' fun x =>
          if x = env.remoteLoc newPath then some (.file f)
          else if x = env.remoteLoc oldPath then none else w.remote.get x) ∨
    (¬ (env.fault w.tick = .none ∧ w.remote.writable (env.remoteLoc newPath) = true ∧
      (env.renameReplaces = true ∨ w.remote.fileAt (env.remoteLoc newPath) = none)) ∧
      exec (step env) (rename oldPath newPath) w = (.error .failure, w.next)) := by
  have hexec : exec (step env) (rename oldPath newPath) w = env.changeRemote w
      (w.remote.move env.renameReplaces (env.remoteLoc oldPath) (env.remoteLoc newPath)) := rfl
  rw [hexec]
  by_cases hfault : env.fault w.tick = .none
  · rw [Env.changeRemote_of_none hfault]
    rcases Tree.move_cases w.remote env.renameReplaces hf hne with
      ⟨hw, hrep, hok, hget⟩ | ⟨hnot, herr⟩
    · exact .inl ⟨hfault, hw, hrep, _, by rw [hok], remoteStep_set w hget⟩
    · exact .inr ⟨fun h => hnot h.2, by rw [herr]; rfl⟩
  · exact .inr ⟨fun h => hfault h.1, Env.changeRemote_of_fault hfault _⟩

/-- Where no file is, there is nothing to rename. -/
theorem exec_rename_of_missing {oldPath : String}
    (hp : w.remote.fileAt (env.remoteLoc oldPath) = none) (newPath : String) :
    ∃ e w', exec (step env) (rename oldPath newPath) w = (.error e, w') ∧ SameTrees w w' := by
  show ∃ e w', env.changeRemote w _ = (.error e, w') ∧ _
  rw [Tree.move_of_missing hp]
  by_cases hfault : env.fault w.tick = .none
  · exact ⟨_, _, Env.changeRemote_of_none hfault _, rfl, rfl⟩
  · exact ⟨_, _, Env.changeRemote_of_fault hfault _, rfl, rfl⟩

/-- Setting the mode of a file changes at most its permission bits. -/
theorem exec_setMetadata (env : Env) {w : World} {f : File}
    (hf : w.remote.get (env.remoteLoc path) = some (.file f)) (mode : UInt32) :
    ∃ r w' perm, exec (step env) (setMetadata path ⟨none, some mode, none⟩) w = (r, w') ∧
      RemoteStep w w' fun x =>
        if x = env.remoteLoc path then some (.file { f with perm := perm })
        else w.remote.get x := by
  have hexec : exec (step env) (setMetadata path ⟨none, some mode, none⟩) w
      = env.changeRemote w (w.remote.chmod (env.remoteLoc path) mode) := rfl
  rw [hexec]
  by_cases hfault : env.fault w.tick = .none
  · rw [Env.changeRemote_of_none hfault, Tree.chmod_of_file hf]
    exact ⟨_, _, _, rfl,
      remoteStep_set w (FileTree.get_setFile (FileTree.writable_of_file hf) _)⟩
  · rw [Env.changeRemote_of_fault hfault]
    refine ⟨_, _, f.perm, rfl, rfl, rfl, fun x => ?_⟩
    split
    · next hx => rw [hx, World.next_remote, hf]
    · rfl

/-- Making a directory touches no file. -/
theorem exec_createDir (env : Env) (w : World) (path : String) :
    (exec (step env) (createDir path) w).2.disk = w.disk ∧
      (∀ x, (exec (step env) (createDir path) w).2.remote.fileAt x = w.remote.fileAt x) ∧
      (w.remote.get (env.remoteLoc path) ≠ none →
        (exec (step env) (createDir path) w).2.remote = w.remote) := by
  have hexec : exec (step env) (createDir path) w
      = env.changeRemote w (w.remote.makeDir (env.remoteLoc path)) := rfl
  rw [hexec]
  by_cases hfault : env.fault w.tick = .none
  · rw [Env.changeRemote_of_none hfault]
    refine ⟨rfl, Tree.fileAt_makeDir _ _, fun hne => ?_⟩
    obtain ⟨node, hnode⟩ := Option.ne_none_iff_exists'.mp hne
    show (w.remote.makeDir _).2 = w.remote
    rw [Tree.get_makeDir_of_exists hnode]
  · rw [Env.changeRemote_of_fault hfault]
    exact ⟨rfl, fun _ => rfl, fun _ => rfl⟩

theorem exec_createDir_eq_ok {w' : World} (h : exec (step env) (createDir path) w = (.ok (), w')) :
    w'.disk = w.disk ∧ w.remote.get (env.remoteLoc path) = none ∧
      ∀ x, w'.remote.get x =
        if x = env.remoteLoc path then some .dir else w.remote.get x := by
  obtain ⟨hok, rfl⟩ := Env.changeRemote_eq_ok h
  exact ⟨rfl, Tree.makeDir_eq_ok hok⟩

/-- A mode that is set is the mode of the file. -/
theorem exec_setMetadata_eq_ok {w' : World} {f : File} {mode : UInt32}
    (hf : w.remote.get (env.remoteLoc path) = some (.file f))
    (h : exec (step env) (setMetadata path ⟨none, some mode, none⟩) w = (.ok (), w')) :
    w'.disk = w.disk ∧ ∀ x, w'.remote.get x =
      if x = env.remoteLoc path then some (.file { f with perm := mode &&& 0o7777 })
      else w.remote.get x := by
  obtain ⟨-, rfl⟩ := Env.changeRemote_eq_ok h
  refine ⟨rfl, fun x => ?_⟩
  show (w.remote.chmod _ mode).2.get x = _
  rw [Tree.chmod_of_file hf, FileTree.get_setFile (FileTree.writable_of_file hf)]

end RemoteCalls

/-! ## Calls that change the local tree -/

/-- One operation later, with `nodes` on the local disk and the server unchanged. -/
structure DiskStep (w w' : World) (nodes : Loc → Option (Node File)) : Prop where
  tick : w'.tick = w.tick + 1
  remote : w'.remote = w.remote
  get : ∀ x, w'.disk.get x = nodes x

section DiskCalls

variable {env : Env} {w : World} {path : String} {p : Loc}

theorem diskStep_set (w : World) {t : Tree} {nodes : Loc → Option (Node File)}
    (h : ∀ x, t.get x = nodes x) : DiskStep w { w.next with disk := t } nodes := ⟨rfl, rfl, h⟩

theorem changeDisk_of_none (hfault : env.fault w.tick = .none) (hp : env.diskLoc path = some p)
    {α : Type} (r : Loc → Except IoError α × Tree) :
    env.changeDisk w path r = ((r p).1, { w.next with disk := (r p).2 }) := by
  unfold Env.changeDisk
  rw [hp]
  exact Env.unlessFault_of_none hfault _

theorem changeDisk_of_fault (hfault : env.fault w.tick ≠ .none) {α : Type}
    (r : Loc → Except IoError α × Tree) :
    env.changeDisk w path r = (.error .failure, w.next) := by
  unfold Env.changeDisk
  split
  · exact Env.unlessFault_of_fault hfault _
  · exact Env.unlessFault_of_fault hfault _

theorem exec_fsOpenCreateNew (hfault : env.fault w.tick = .none)
    (hp : env.diskLoc path = some p) (hnone : w.disk.get p = none)
    (hw : w.disk.writable p = true) :
    ∃ w', exec (step env) (fsOpenCreateNew path) w = (.ok ⟨p, w.tick⟩, w') ∧
      DiskStep w w' fun x =>
        if x = p then some (.file ⟨[], env.newFileMode, env.clock w.tick, w.tick⟩)
        else w.disk.get x := by
  refine ⟨_, ?_, diskStep_set w (FileTree.get_setFile hw _)⟩
  show env.changeDisk w path _ = _
  rw [changeDisk_of_none hfault hp, Tree.createNew_of_absent hnone hw]

theorem exec_fsOpenCreateNew_error (hp : env.diskLoc path = some p)
    (h : ¬ (env.fault w.tick = .none ∧ w.disk.get p = none ∧ w.disk.writable p = true)) :
    ∃ e, exec (step env) (fsOpenCreateNew path) w = (.error e, w.next) := by
  show ∃ e, env.changeDisk w path _ = (.error e, w.next)
  by_cases hfault : env.fault w.tick = .none
  · rw [changeDisk_of_none hfault hp]
    rcases Tree.createNew_cases w.disk p env.newFileMode (env.clock w.tick) w.tick with
      hopen | ⟨e, he⟩
    · exact absurd ⟨hfault, hopen⟩ h
    · rw [he]
      exact ⟨e, rfl⟩
  · exact ⟨_, changeDisk_of_fault hfault _⟩

theorem exec_fsWriteAll (env : Env) {w : World} {h : FileHandle} {f : File}
    (hf : w.disk.get h.loc = some (.file f))
    (hino : f.ino = h.ino) (data : Bytes) :
    ∃ w' m, exec (step env) (fsWriteAll h data) w
        = (if (env.fault w.tick).onDisk.reported then .error .failure else .ok (), w') ∧
      DiskStep w w' fun x =>
        if x = h.loc then
          some (.file { f with
            content := f.content ++ (env.fault w.tick).onDisk.wrote data, mtime := m })
        else w.disk.get x := by
  obtain ⟨w', hrun, ⟨-, rfl, hnone⟩ | ⟨inos, rfl⟩⟩ :=
    w.writeBehind_cases (env.fault w.tick).onDisk h data fun bytes =>
      { w.next with disk := w.disk.append h bytes (env.clock w.tick) }
  · refine ⟨_, f.mtime, hrun, rfl, rfl, fun x => ?_⟩
    rw [hnone, List.append_nil]
    split
    · next hx => rw [hx]; exact hf
    · rfl
  · exact ⟨_, env.clock w.tick, hrun, rfl, rfl, Tree.get_append hf hino _ _⟩

theorem exec_fsFlush (env : Env) (w : World) (h : FileHandle) :
    DiskStep w (exec (step env) (fsFlush h) w).2 w.disk.get :=
  Env.awaitWrites_rule (P := fun t => DiskStep w t w.disk.get) env h
    fun _ => ⟨rfl, rfl, fun _ => rfl⟩

theorem exec_fsSyncAll (env : Env) (w : World) (h : FileHandle) :
    exec (step env) (fsSyncAll h) w
      = (if env.fault w.tick = .none then .ok () else .error .failure, w.next) := by
  show env.unlessFault w _ = _
  by_cases hfault : env.fault w.tick = .none
  · rw [Env.unlessFault_of_none hfault, if_pos hfault]
  · rw [Env.unlessFault_of_fault hfault, if_neg hfault]

theorem exec_fsRemoveFile (w : World) (hp : env.diskLoc path = some p) :
    (DiskStep w (exec (step env) (fsRemoveFile path) w).2 fun x =>
      if x = p ∧ env.fault w.tick = .none ∧ (w.disk.fileAt p).isSome then none
      else w.disk.get x) ∧
    ((exec (step env) (fsRemoveFile path) w).1 = .ok () →
      (exec (step env) (fsRemoveFile path) w).2.disk.get p = none) := by
  have hexec : exec (step env) (fsRemoveFile path) w = env.changeDisk w path w.disk.unlink := rfl
  rw [hexec]
  by_cases hfault : env.fault w.tick = .none
  · rw [changeDisk_of_none hfault hp]
    refine ⟨⟨rfl, rfl, fun x => ?_⟩, fun hok => ?_⟩
    · simpa [hfault] using Tree.get_unlink w.disk p x
    · -- an unlink says `Ok` for a file only
      have hfile : (w.disk.fileAt p).isSome := by
        unfold Tree.unlink at hok
        unfold FileTree.fileAt
        split at hok
        · cases hok
        · cases hok
        · next hget => simp [hget]
      show (w.disk.unlink p).2.get p = none
      rw [Tree.get_unlink, if_pos ⟨rfl, hfile⟩]
  · rw [changeDisk_of_fault hfault]
    exact ⟨⟨rfl, rfl, fun x => by simp [hfault]⟩, fun h => by cases h⟩

/-- A local rename replaces an existing file, and fails when made to or when the target is no
place for a file. -/
theorem exec_fsRename {oldPath newPath : String} {f : File}
    (hp : env.diskLoc oldPath = some p) (hf : w.disk.get p = some (.file f))
    (hne : env.diskLoc newPath ≠ some p) :
    (env.fault w.tick = .none ∧ ∃ q w', env.diskLoc newPath = some q ∧
      w.disk.writable q = true ∧
      exec (step env) (fsRename oldPath newPath) w = (.ok (), w') ∧
      DiskStep w w' fun x =>
        if x = q then some (.file f) else if x = p then none else w.disk.get x) ∨
    (¬ (env.fault w.tick = .none ∧ ∃ q, env.diskLoc newPath = some q ∧
      w.disk.writable q = true) ∧
      ∃ e, exec (step env) (fsRename oldPath newPath) w = (.error e, w.next)) := by
  rcases hq : env.diskLoc newPath with _ | q
  · -- the empty path
    have hexec : exec (step env) (fsRename oldPath newPath) w
        = env.unlessFault w (.error .noSuchFile, w.next) := by
      show step env (.fsRename oldPath newPath) w = _
      simp only [step, hq]
    refine .inr ⟨by simp, ?_⟩
    rw [hexec]
    by_cases hfault : env.fault w.tick = .none
    · exact ⟨_, Env.unlessFault_of_none hfault _⟩
    · exact ⟨_, Env.unlessFault_of_fault hfault _⟩
  · have hexec : exec (step env) (fsRename oldPath newPath) w
        = env.changeDisk w oldPath fun p => w.disk.move true p q := by
      show step env (.fsRename oldPath newPath) w = _
      simp only [step, hq]
    have hpq : p ≠ q := fun h => hne (by rw [hq, h])
    rw [hexec]
    by_cases hfault : env.fault w.tick = .none
    · rw [changeDisk_of_none hfault hp]
      rcases Tree.move_cases w.disk true hf hpq with ⟨hw, -, hok, hget⟩ | ⟨hnot, herr⟩
      · exact .inl ⟨hfault, q, _, rfl, hw, by rw [hok], diskStep_set w hget⟩
      · refine .inr ⟨?_, .failure, by rw [herr]; rfl⟩
        rintro ⟨-, q', hq', hw⟩
        obtain rfl := Option.some.inj hq'
        exact hnot ⟨hw, .inl rfl⟩
    · exact .inr ⟨fun h => hfault h.1, _, changeDisk_of_fault hfault _⟩

theorem exec_fsRename_of_missing {oldPath : String} (hp : env.diskLoc oldPath = some p)
    (hmissing : w.disk.fileAt p = none) (newPath : String) :
    ∃ e w', exec (step env) (fsRename oldPath newPath) w = (.error e, w') ∧ SameTrees w w' := by
  show ∃ e w', step env (.fsRename oldPath newPath) w = (.error e, w') ∧ _
  simp only [step]
  by_cases hfault : env.fault w.tick = .none
  · split
    · exact ⟨_, _, Env.unlessFault_of_none hfault _, rfl, rfl⟩
    · rw [changeDisk_of_none hfault hp, Tree.move_of_missing hmissing]
      exact ⟨_, _, rfl, rfl, rfl⟩
  · split
    · exact ⟨_, _, Env.unlessFault_of_fault hfault _, rfl, rfl⟩
    · exact ⟨_, _, changeDisk_of_fault hfault _, rfl, rfl⟩

theorem exec_fsCreateDirAll_eq_ok {w' : World} (hp : env.diskLoc path = some p)
    (h : exec (step env) (fsCreateDirAll path) w = (.ok (), w')) :
    (w.disk.makeDirAll p).1 = .ok () ∧ w'.remote = w.remote ∧
      w'.disk = (w.disk.makeDirAll p).2 := by
  have hpath : path ≠ "" := Env.ne_empty_of_diskLoc hp
  have hexec : exec (step env) (fsCreateDirAll path) w
      = env.changeDisk w path w.disk.makeDirAll := if_neg hpath
  rw [hexec] at h
  obtain ⟨p', hp', hok, rfl⟩ := Env.changeDisk_eq_ok h
  obtain rfl := Option.some.inj (hp'.symm.trans hp)
  exact ⟨hok, rfl, rfl⟩

/-- Creating a directory that is there changes nothing, and neither does creating none. -/
theorem exec_fsCreateDirAll_of_dir {w' : World} (hdir : ∀ p, env.diskLoc path = some p →
      w.disk.get p = some .dir) (h : exec (step env) (fsCreateDirAll path) w = (.ok (), w')) :
    SameTrees w w' := by
  rcases hp : env.diskLoc path with _ | p
  · have hpath : path = "" := by
      by_contra hne
      simp [Env.diskLoc, hne] at hp
    have hexec : exec (step env) (fsCreateDirAll path) w = env.unlessFault w (.ok (), w.next) :=
      if_pos hpath
    rw [hexec] at h
    exact (Env.unlessFault_eq_ok h).2 ▸ (SameTrees.refl w).next
  · obtain ⟨-, hremote, hdisk⟩ := exec_fsCreateDirAll_eq_ok hp h
    exact ⟨hremote, by rw [hdisk, Tree.makeDirAll_of_dir (hdir p hp)]⟩

theorem exec_fsSetPermissions_eq_ok {w' : World} {f : File} {mode : UInt32}
    (hp : env.diskLoc path = some p) (hf : w.disk.get p = some (.file f))
    (h : exec (step env) (fsSetPermissions path mode) w = (.ok (), w')) :
    w'.remote = w.remote ∧ ∀ x, w'.disk.get x =
      if x = p then some (.file { f with perm := mode &&& 0o7777 }) else w.disk.get x := by
  obtain ⟨p', hp', -, rfl⟩ := Env.changeDisk_eq_ok h
  obtain rfl := Option.some.inj (hp'.symm.trans hp)
  refine ⟨rfl, fun x => ?_⟩
  show (w.disk.chmod _ mode).2.get x = _
  rw [Tree.chmod_of_file hf, FileTree.get_setFile (FileTree.writable_of_file hf)]

end DiskCalls

/-! ## Runs without an error

A run in which no operation is answered with an error, apart from an unlink: both writers unlink
what may not be there. -/

/-- The answer is no error, or an unlink found nothing to unlink. -/
def FileOp.Answered : (op : FileOp) → FileOp.Res op → Prop
  | .suffixHash, _ | .removeFile _, _ | .fsRemoveFile _, _ => True
  | .metadata _, r | .readDir _, r | .createDir _, r | .read _, r | .openWithFlags _, r
  | .writeAll _ _, r | .flush _, r | .syncAll _, r | .close _, r | .rename _ _, r
  | .setMetadata _ _, r | .fsMetadata _, r | .fsReadDir _, r | .fsNextEntry _, r
  | .fsFileType _ _, r | .fsEntryMetadata _ _, r | .fsRead _, r | .fsOpenCreateNew _, r
  | .fsWriteAll _ _, r | .fsFlush _, r | .fsSyncAll _, r | .fsRename _ _, r
  | .fsCreateDirAll _, r | .fsSetPermissions _ _, r => r.isOk = true

instance (op : FileOp) (r : FileOp.Res op) : Decidable (op.Answered r) := by
  cases op <;> unfold FileOp.Answered <;> infer_instance

/-- No operation of the run fails. -/
abbrev Unfailing {ε α : Type} (env : Env) (x : Action FileOp FileOp.Res ε α) (w : World) : Prop :=
  Issues (step env) FileOp.Answered x w

instance {ε α : Type} (env : Env) (x : Action FileOp FileOp.Res ε α) (w : World) :
    Decidable (Unfailing env x w) := List.decidableBAll _ (execLog (step env) x w)

/-- A program that ends with a result unless an operation fails. -/
abbrev Sound {ε α : Type} (x : Action FileOp FileOp.Res ε α) : Prop :=
  Succeeds FileOp.Answered (fun _ => True) x

theorem exec_ok_of_unfailing {ε α : Type} {x : Action FileOp FileOp.Res ε α} {env : Env}
    {w : World} (hlog : Unfailing env x w) (hx : Sound x) :
    ∃ a w', exec (step env) x w = (.ok a, w') := by
  obtain ⟨a, w', hrun, -⟩ := hx.exec_ok_of_issues hlog
  exact ⟨a, w', hrun⟩

theorem sound_withContext {α : Type} {msg : String} {x : FileCall α} (hx : Sound x) :
    Sound (withContext msg x) := succeeds_mapError hx

theorem sound_propagate {α : Type} {x : FileCall α} (hx : Sound x) : Sound (propagate x) :=
  succeeds_mapError hx

theorem sound_call {op : FileOp} {ε α : Type} {k : op.Res → Except ε α}
    (hk : ∀ r, op.Answered r → (k r).isOk = true) :
    Sound (call op k : Action FileOp FileOp.Res ε α) := by
  refine succeeds_call fun r hr => ?_
  have hok := hk r hr
  cases hr' : k r with
  | error e =>
    rw [hr'] at hok
    cases hok
  | ok a => exact ⟨a, rfl, trivial⟩

/-! ### Going on after an operation

When no operation of a run fails, its first part ends with a result and the run goes on from there,
still without a failure. One rule for each way the first part is handed over. -/

namespace Unfailing

variable {env : Env} {w : World} {α β : Type} {x : FileCall α}

theorem withContext_bind {msg : String} {g : α → FileM β}
    (hlog : Unfailing env (withContext msg x >>= g) w) (hx : Sound x) :
    ∃ a w', exec (step env) x w = (.ok a, w') ∧
      exec (step env) (withContext msg x >>= g) w = exec (step env) (g a) w' ∧
      Unfailing env (g a) w' := by
  obtain ⟨a, w', hrun⟩ := exec_ok_of_unfailing hlog.left (sound_withContext hx)
  exact ⟨a, w', exec_withContext_eq_ok.mp hrun, exec_bind_ok hrun _, hlog.right hrun⟩

theorem propagate_bind {g : α → FileM β} (hlog : Unfailing env (propagate x >>= g) w)
    (hx : Sound x) :
    ∃ a w', exec (step env) x w = (.ok a, w') ∧
      exec (step env) (propagate x >>= g) w = exec (step env) (g a) w' ∧
      Unfailing env (g a) w' := by
  obtain ⟨a, w', hrun⟩ := exec_ok_of_unfailing hlog.left (sound_propagate hx)
  exact ⟨a, w', exec_propagate_eq_ok.mp hrun, exec_bind_ok hrun _, hlog.right hrun⟩

theorem ignore_bind {g : Unit → FileM β} (hlog : Unfailing env (ignore x >>= g) w)
    (hx : Sound x) :
    ∃ a w', exec (step env) x w = (.ok a, w') ∧
      exec (step env) (ignore x >>= g) w = exec (step env) (g ()) w' ∧
      Unfailing env (g ()) w' := by
  obtain ⟨a, w', hrun⟩ := exec_ok_of_unfailing (issues_ignore.mp hlog.left) hx
  have hignore : exec (step env) (ignore x : FileM Unit) w = (.ok (), w') := by
    rw [exec_ignore, hrun]
  exact ⟨a, w', hrun, exec_bind_ok hignore _, hlog.right hignore⟩

theorem attempt_bind {g : Except IoError α → FileM β} (hlog : Unfailing env (attempt x >>= g) w)
    (hx : Sound x) :
    ∃ a w', exec (step env) x w = (.ok a, w') ∧
      exec (step env) (attempt x >>= g) w = exec (step env) (g (.ok a)) w' ∧
      Unfailing env (g (.ok a)) w' := by
  obtain ⟨a, w', hrun⟩ := exec_ok_of_unfailing (issues_attempt.mp hlog.left) hx
  have hattempt : exec (step env) (attempt x : FileM _) w = (.ok (.ok a), w') := by
    rw [exec_attempt, hrun]
  exact ⟨a, w', hrun, exec_bind_ok hattempt _, hlog.right hattempt⟩

end Unfailing

end Passhrs
