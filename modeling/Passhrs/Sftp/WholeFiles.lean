import Passhrs.Lib.Crash
import Passhrs.Sftp.Race

/-!
# Whole files

What is in a file while a transfer runs: after any operation, when the process or the connection
may be gone. A file that is not a temp file is never in the middle of something.

* **`Intact`**: every file on the side that is written has the content it had, or one that
  belongs there, and the other side is as it was.
* **`FileOp.Spares`**: the operations that put nothing in place. They keep this (`step_intact`).
* **`crash_atomicWriteRemote`** and **`crash_atomicWriteLocal`**: so does a write of what belongs
  there, in every state.
-/

namespace Passhrs

open Effects SlashPath

/-! ## Temp files -/

/-- A place with the name of a temp file. -/
def IsTemp (p : Loc) : Prop :=
  ∃ n dir front hash, p = n :: dir ∧ n.str = front ++ ".tmp." ++ tmpSuffix hash

theorem isTemp_locate {x : Normal} {n : FileName} {front : String} {hash : UInt64}
    (hn : n.str = front ++ ".tmp." ++ tmpSuffix hash) (cwd : Loc) :
    IsTemp (({ x with names := n :: x.names } : Normal).locate cwd) :=
  ⟨n, _, front, hash, Normal.locate_cons x n cwd, hn⟩

theorem isTemp_remote (env : Env) (path : String) (hash : UInt64) :
    IsTemp (env.remoteLoc (path ++ ".tmp." ++ tmpSuffix hash)) := by
  obtain ⟨x, last, n, hn, -, happ⟩ := normalize_append path (slash_not_mem_tmpSuffix hash)
    (by rw [length_tmpSuffix]; decide)
  rw [String.append_assoc, Env.remoteLoc, walk, happ]
  exact isTemp_locate (by rw [hn, String.append_assoc]) _

theorem isTemp_local (env : Env) (path : String) (hash : UInt64) :
    IsTemp (walk env.cwd (localTmp path (tmpSuffix hash))) := by
  obtain ⟨n, hn, htmp⟩ := normalize_localTmp path hash
  rw [walk, htmp]
  exact isTemp_locate hn _

/-! ## Trees -/

namespace Tree

variable {t t' t'' start : Tree} {p q : Loc} {allowed : Loc → Bytes → Prop}

/-- Beside temp files, what is in `t'` was in `t`. -/
def BringsNothing (t t' : Tree) : Prop :=
  ∀ p, ¬ IsTemp p → ∀ c, t'.contentOf p = some c → t.contentOf p = some c

/-- Beside temp files, a file has the content it had at the start, or one that is allowed there. -/
def Whole (allowed : Loc → Bytes → Prop) (start t : Tree) : Prop :=
  ∀ p, ¬ IsTemp p → ∀ c, t.contentOf p = some c → start.contentOf p = some c ∨ allowed p c

theorem whole_start : start.Whole allowed start := fun _ _ _ hc => .inl hc

theorem BringsNothing.whole (h : t.BringsNothing t') (ht : start.Whole allowed t) :
    start.Whole allowed t' := fun p hp c hc => ht p hp c (h p hp c hc)

theorem bringsNothing_refl (t : Tree) : t.BringsNothing t := fun _ _ _ hc => hc

/-- A tree where only files have changed, and these in temp places. -/
theorem bringsNothing_of_temp (h : ∀ x, t'.get x = t.get x ∨ IsTemp x ∨ t'.get x = none) :
    t.BringsNothing t' := by
  intro x hx c hc
  rcases h x with hsame | htemp | hnone
  · rwa [contentOf_congr hsame] at hc
  · exact absurd htemp hx
  · rw [contentOf_of_none hnone] at hc
    cases hc

theorem bringsNothing_createNew (hp : IsTemp p) (perm : UInt32) (mtime ino : Nat) :
    t.BringsNothing (t.createNew p perm mtime ino).2 := by
  rcases createNew_cases t p perm mtime ino with ⟨hnone, hw⟩ | ⟨e, he⟩
  · rw [createNew_of_absent hnone hw]
    refine bringsNothing_of_temp fun x => ?_
    rw [FileTree.get_setFile hw]
    split
    · next hx => exact .inr (.inl (hx ▸ hp))
    · exact .inl rfl
  · rw [he]
    exact bringsNothing_refl t

theorem bringsNothing_append {h : FileHandle} (hp : IsTemp h.loc) (data : Bytes) (mtime : Nat) :
    t.BringsNothing (t.append h data mtime) := by
  unfold append
  split
  · next f hf =>
    split
    · refine bringsNothing_of_temp fun x => ?_
      rw [FileTree.get_setFile (FileTree.writable_of_file (FileTree.fileAt_eq_some_iff.mp hf))]
      split
      · next hx => exact .inr (.inl (hx ▸ hp))
      · exact .inl rfl
    · exact bringsNothing_refl t
  · exact bringsNothing_refl t

theorem bringsNothing_unlink (t : Tree) (p : Loc) : t.BringsNothing (t.unlink p).2 := by
  refine bringsNothing_of_temp fun x => ?_
  rw [get_unlink]
  split
  · exact .inr (.inr rfl)
  · exact .inl rfl

theorem contentOf_chmod (t : Tree) (p : Loc) (mode : UInt32) (x : Loc) :
    (t.chmod p mode).2.contentOf x = t.contentOf x := by
  unfold chmod
  split
  · rfl
  · rfl
  · next f hf =>
    by_cases hx : x = p
    · have hnew : (t.setFile p { f with perm := mode &&& 0o7777 }).get x
          = some (.file { f with perm := mode &&& 0o7777 }) := by
        rw [FileTree.get_setFile (FileTree.writable_of_file hf), if_pos hx]
      rw [contentOf_of_file hnew, contentOf_of_file (hx ▸ hf)]
    · refine contentOf_congr ?_
      rw [FileTree.get_setFile (FileTree.writable_of_file hf), if_neg hx]

theorem contentOf_makeDir (t : Tree) (p x : Loc) :
    (t.makeDir p).2.contentOf x = t.contentOf x := by
  rw [contentOf, fileAt_makeDir, contentOf]

theorem bringsNothing_of_contentOf (h : ∀ x, t'.contentOf x = t.contentOf x) :
    t.BringsNothing t' := by
  intro x _ c hc
  rwa [h] at hc

/-- A file that is moved to a place where its content is allowed. -/
theorem whole_move {f : File} (ht : start.Whole allowed t) (hf : t.get p = some (.file f))
    (hpq : p ≠ q) (hallowed : allowed q f.content) (replaces : Bool) :
    start.Whole allowed (t.move replaces p q).2 := by
  rcases move_cases t replaces hf hpq with ⟨-, -, -, hget⟩ | ⟨-, herror⟩
  · intro x hx c hc
    by_cases hxq : x = q
    · have hnew : (t.move replaces p q).2.get x = some (.file f) := by rw [hget, if_pos hxq]
      rw [contentOf_of_file hnew] at hc
      exact .inr (hxq ▸ Option.some.inj hc ▸ hallowed)
    · by_cases hxp : x = p
      · have hgone : (t.move replaces p q).2.get x = none := by
          rw [hget, if_neg hxq, if_pos hxp]
        rw [contentOf_of_none hgone] at hc
        cases hc
      · have hsame : (t.move replaces p q).2.get x = t.get x := by
          rw [hget, if_neg hxq, if_neg hxp]
        rw [contentOf_congr hsame] at hc
        exact ht x hx c hc
  · rw [herror]
    exact ht

end Tree

/-! ## Operations that put nothing in place -/

/-- The tree that is read while this side is written. -/
def Side.source : Side → World → Tree
  | .remote, w => w.disk
  | .disk, w => w.remote

/-- The side that is written is whole, and the other one is what it was. -/
structure Intact (side : Side) (allowed : Loc → Bytes → Prop) (start w : World) : Prop where
  source : side.source w = side.source start
  whole : (side.tree start).Whole allowed (side.tree w)

theorem intact_start {side : Side} {allowed : Loc → Bytes → Prop} (w : World) :
    Intact side allowed w w := ⟨rfl, Tree.whole_start⟩

/-- The operation looks, or changes something on this side, where new bytes go to temp places. -/
def FileOp.Spares (side : Side) (env : Env) : FileOp → Prop
  | .createDir _ | .removeFile _ | .setMetadata _ _ => side = .remote
  | .openWithFlags path => side = .remote ∧ IsTemp (env.remoteLoc path)
  | .writeAll file _ => side = .remote ∧ IsTemp file.loc
  | .fsRemoveFile _ | .fsCreateDirAll _ | .fsSetPermissions _ _ => side = .disk
  | .fsOpenCreateNew path => side = .disk ∧ ∀ p, env.diskLoc path = some p → IsTemp p
  | .fsWriteAll file _ => side = .disk ∧ IsTemp file.loc
  | .rename _ _ | .fsRename _ _ => False
  | _ => True

section Steps

variable {side : Side} {env : Env} {allowed : Loc → Bytes → Prop} {start w w' : World}

theorem Intact.of_same (h : Intact side allowed start w) (hsame : SameTrees w w') :
    Intact side allowed start w' := by
  obtain ⟨hsource, hwhole⟩ := h
  obtain ⟨hremote, hdisk⟩ := hsame
  cases side with
  | remote => exact ⟨hdisk.trans hsource, show Tree.Whole _ _ w'.remote from hremote ▸ hwhole⟩
  | disk => exact ⟨hremote.trans hsource, show Tree.Whole _ _ w'.disk from hdisk ▸ hwhole⟩

theorem Intact.of_remote (h : Intact .remote allowed start w) {t : Tree}
    (ht : w.remote.BringsNothing t) {deferred : List Nat} :
    Intact .remote allowed start { w.next with remote := t, deferred := deferred } :=
  ⟨h.source, ht.whole h.whole⟩

theorem Intact.of_disk (h : Intact .disk allowed start w) {t : Tree}
    (ht : w.disk.BringsNothing t) {deferred : List Nat} :
    Intact .disk allowed start { w.next with disk := t, deferred := deferred } :=
  ⟨h.source, ht.whole h.whole⟩

theorem Intact.next (h : Intact side allowed start w) : Intact side allowed start w.next :=
  h.of_same (SameTrees.refl w).next

theorem Intact.changeRemote (h : Intact .remote allowed start w) {α : Type}
    {r : Except IoError α × Tree} (hr : w.remote.BringsNothing r.2) :
    Intact .remote allowed start (env.changeRemote w r).2 :=
  Env.unlessFault_rule (P := Intact .remote allowed start) h.next (h.of_remote hr)

theorem Intact.changeDisk (h : Intact .disk allowed start w) {α : Type} (path : String)
    {r : Loc → Except IoError α × Tree}
    (hr : ∀ p, env.diskLoc path = some p → w.disk.BringsNothing (r p).2) :
    Intact .disk allowed start (env.changeDisk w path r).2 := by
  unfold Env.changeDisk
  split
  · exact Env.unlessFault_rule (P := Intact .disk allowed start) h.next h.next
  · next p hp =>
    exact Env.unlessFault_rule (P := Intact .disk allowed start) h.next (h.of_disk (hr p hp))

theorem step_intact {op : FileOp} (hop : op.Spares side env)
    (h : Intact side allowed start w) : Intact side allowed start (step env op w).2 := by
  have hlook : ∀ {α : Type} (r : Except IoError α),
      Intact side allowed start (env.unlessFault w (r, w.next)).2 := fun _ =>
    Env.unlessFault_rule (P := Intact side allowed start) h.next h.next
  cases op with
  | createDir path =>
    obtain rfl := hop
    exact h.changeRemote (Tree.bringsNothing_of_contentOf (Tree.contentOf_makeDir _ _))
  | openWithFlags path =>
    obtain ⟨rfl, htemp⟩ := hop
    exact h.changeRemote (Tree.bringsNothing_createNew htemp _ _ _)
  | writeAll file data =>
    obtain ⟨rfl, htemp⟩ := hop
    exact World.writeBehind_rule (P := Intact .remote allowed start) _ file data h.next fun _ =>
      ⟨h.of_remote (Tree.bringsNothing_append htemp _ _),
        fun _ => h.of_remote (Tree.bringsNothing_append htemp _ _)⟩
  | removeFile path =>
    obtain rfl := hop
    exact h.changeRemote (Tree.bringsNothing_unlink _ _)
  | setMetadata path attrs =>
    obtain rfl := hop
    refine h.changeRemote ?_
    split
    -- another mode, the same content
    · exact Tree.bringsNothing_of_contentOf (Tree.contentOf_chmod _ _ _)
    · exact Tree.bringsNothing_refl _
  | fsOpenCreateNew path =>
    obtain ⟨rfl, htemp⟩ := hop
    exact h.changeDisk path fun p hp => Tree.bringsNothing_createNew (htemp p hp) _ _ _
  | fsWriteAll file data =>
    obtain ⟨rfl, htemp⟩ := hop
    exact World.writeBehind_rule (P := Intact .disk allowed start) _ file data h.next fun _ =>
      ⟨h.of_disk (Tree.bringsNothing_append htemp _ _),
        fun _ => h.of_disk (Tree.bringsNothing_append htemp _ _)⟩
  | flush file | close file | fsFlush file =>
    exact Env.awaitWrites_rule (P := Intact side allowed start) env file
      fun _ => h.of_same ⟨rfl, rfl⟩
  | fsRemoveFile path =>
    obtain rfl := hop
    exact h.changeDisk path fun p _ => Tree.bringsNothing_unlink _ _
  | fsCreateDirAll path =>
    obtain rfl := hop
    simp only [step]
    split
    · exact hlook _
    · refine h.changeDisk path fun p _ => Tree.bringsNothing_of_contentOf fun x => ?_
      rw [Tree.contentOf, Tree.fileAt_makeDirAll, Tree.contentOf]
  | fsSetPermissions path mode =>
    obtain rfl := hop
    exact h.changeDisk path fun p _ =>
      Tree.bringsNothing_of_contentOf (Tree.contentOf_chmod _ _ _)
  | rename old new => exact hop.elim
  | fsRename old new => exact hop.elim
  | suffixHash => exact h.next
  | _ => exact hlook _

end Steps

/-! ## Writes -/

section Writes

variable {env : Env} {allowed : Loc → Bytes → Prop} {start : World} {tmp path : String}
  {data : Bytes}

/-- The temp file of a write is where it was created, and holds these bytes. -/
def Staging (side : Side) (allowed : Loc → Bytes → Prop) (start : World) (h : FileHandle)
    (content : Bytes) (w : World) : Prop :=
  Intact side allowed start w ∧ (side.tree w).Holds h content

/-- An operation on this side that leaves the temp file where it is. -/
theorem crash_spares {side : Side} {h : FileHandle} {content : Bytes} (op : FileOp)
    (k : op.Res → Except IoError Unit) (hop : op.Spares side env)
    (hget : ∀ w, (side.tree w).Stands h →
      (side.tree (step env op w).2).get h.loc = (side.tree w).get h.loc) :
    CrashSafe (step env) (Intact side allowed start) (Staging side allowed start h content)
      (fun _ => Staging side allowed start h content)
      (fun _ => Staging side allowed start h content) (call op k) := by
  refine crash_call (fun _ hs => hs.1) fun w hw => ?_
  have hnext := step_intact hop hw.1
  have hstaging : Staging side allowed start h content (step env op w).2 :=
    ⟨hnext, hw.2.congr (hget w hw.2.stands)⟩
  exact ⟨hnext, fun _ _ => hstaging, fun _ _ => hstaging⟩

theorem Staging.intact {side : Side} {h : FileHandle} {content : Bytes} {w : World}
    (hw : Staging side allowed start h content w) : Intact side allowed start w := hw.1

/-! ### The bytes -/

/-- What a write that says `Ok` leaves in the file: the data, or what of it arrives when the rest
does not. On the local disk that is a front. -/
def Lands : Side → Env → Bytes → Bytes → Prop
  | .remote, env, data, content => content = data ∨
      ∃ n, (env.fault n).reported = false ∧ content = (env.fault n).wrote data
  | .disk, env, data, content => content = data ∨
      ∃ n k, env.fault n = .inFlight k ∧ k < data.length ∧ content = data.take k

theorem lands_wrote {side : Side} {n : Nat} (h : (side.fault (env.fault n)).reported = false)
    (data : Bytes) : Lands side env data ((side.fault (env.fault n)).wrote data) := by
  cases side with
  | remote => exact .inr ⟨n, h, rfl⟩
  | disk =>
    by_cases hall : (env.fault n).onDisk.wrote data = data
    · exact .inl hall
    · obtain ⟨k, hfault, hk⟩ := (Fault.onDisk_wrote_ne_iff h data).mp hall
      exact .inr ⟨n, k, hfault, hk, by rw [Side.fault, hfault]; rfl⟩

/-- After a write that says `Ok`, where `wrote` appends bytes to the side's tree. -/
theorem Staging.writeBehind {side : Side} {h : FileHandle} {w : World} {wrote : Bytes → World}
    {mtime : Nat} (hw : Staging side allowed start h [] w)
    (hwrote : ∀ bytes, side.tree (wrote bytes) = (side.tree w).append h bytes mtime)
    (hnext : Intact side allowed start
      (w.writeBehind (side.fault (env.fault w.tick)) h data wrote).2)
    (hok : (w.writeBehind (side.fault (env.fault w.tick)) h data wrote).1 = .ok ()) :
    ∃ content, Staging side allowed start h content
        (w.writeBehind (side.fault (env.fault w.tick)) h data wrote).2 ∧
      Lands side env data content := by
  obtain ⟨w', hrun, hcases⟩ := w.writeBehind_cases (side.fault (env.fault w.tick)) h data wrote
  rw [hrun] at hok hnext ⊢
  have hquiet : (side.fault (env.fault w.tick)).reported = false := by
    rw [← Bool.not_eq_true]
    intro hreported
    rw [if_pos hreported] at hok
    cases hok
  refine ⟨_, ⟨hnext, ?_⟩, lands_wrote hquiet data⟩
  have hdefer : ∀ t inos, side.tree { t with deferred := inos } = side.tree t := by
    cases side <;> exact fun _ _ => rfl
  rcases hcases with ⟨hreported, -⟩ | ⟨inos, rfl⟩
  · rw [hquiet] at hreported
    cases hreported
  · have happend := hw.2.append ((side.fault (env.fault w.tick)).wrote data) mtime
    rwa [← hwrote, ← hdefer _ inos] at happend

/-! ### On the server -/

theorem crash_openWithFlags (htemp : IsTemp (env.remoteLoc tmp)) :
    CrashSafe (step env) (Intact .remote allowed start) (Intact .remote allowed start)
      (fun h s => Staging .remote allowed start h [] s ∧ h.loc = env.remoteLoc tmp)
      (fun _ => Intact .remote allowed start) (openWithFlags tmp) := by
  refine crash_call (fun _ hs => hs) fun w hw => ?_
  have hnext : Intact .remote allowed start (step env (.openWithFlags tmp) w).2 :=
    step_intact ⟨rfl, htemp⟩ hw
  refine ⟨hnext, fun h hok => ?_, fun _ _ => hnext⟩
  by_cases hopen : env.fault w.tick = .none ∧ w.remote.get (env.remoteLoc tmp) = none ∧
      w.remote.writable (env.remoteLoc tmp) = true
  · obtain ⟨w', hexec, hstep⟩ := exec_openWithFlags hopen.1 hopen.2.1 hopen.2.2
    have hrun : step env (.openWithFlags tmp) w = (.ok ⟨env.remoteLoc tmp, w.tick⟩, w') := hexec
    rw [hrun] at hok hnext ⊢
    obtain rfl := Except.ok.inj hok
    exact ⟨⟨hnext, _, (hstep.get _).trans (if_pos rfl), rfl, rfl⟩, rfl⟩
  · obtain ⟨e, hexec⟩ := exec_openWithFlags_error hopen
    have hrun : step env (.openWithFlags tmp) w = (.error e, w.next) := hexec
    rw [hrun] at hok
    cases hok

theorem crash_writeAll {h : FileHandle} (htemp : IsTemp h.loc) :
    CrashSafe (step env) (Intact .remote allowed start) (Staging .remote allowed start h [])
      (fun _ s =>
        ∃ content, Staging .remote allowed start h content s ∧ Lands .remote env data content)
      (fun _ => Intact .remote allowed start) (writeAll h data) := by
  refine crash_call (fun _ hs => hs.1) fun w hw => ?_
  have hnext : Intact .remote allowed start (step env (.writeAll h data) w).2 :=
    step_intact ⟨rfl, htemp⟩ hw.1
  exact ⟨hnext, fun _ hok => hw.writeBehind (fun _ => rfl) hnext hok, fun _ _ => hnext⟩

theorem crash_rename {h : FileHandle} (hloc : h.loc = env.remoteLoc tmp)
    (hne : h.loc ≠ env.remoteLoc path) (hdata : allowed (env.remoteLoc path) data) :
    CrashSafe (step env) (Intact .remote allowed start) (Staging .remote allowed start h data)
      (fun _ s => Intact .remote allowed start s ∧ True) (fun _ => Intact .remote allowed start)
      (rename tmp path) := by
  refine crash_call (fun _ hs => hs.1) fun w hw => ?_
  obtain ⟨hintact, f, hf, -, hcontent⟩ := hw
  have hnext : Intact .remote allowed start (step env (.rename tmp path) w).2 := by
    refine Env.unlessFault_rule (P := Intact .remote allowed start) hintact.next ?_
    refine ⟨hintact.source, ?_⟩
    rw [← hloc]
    exact Tree.whole_move hintact.whole hf hne (hcontent.symm ▸ hdata) _
  exact ⟨hnext, fun _ _ => ⟨hnext, trivial⟩, fun _ _ => hnext⟩

theorem crash_writeRemoteTemp (htemp : IsTemp (env.remoteLoc tmp))
    (hne : env.remoteLoc tmp ≠ env.remoteLoc path)
    (hdata : ∀ content, Lands .remote env data content → allowed (env.remoteLoc path) content) :
    Sustains (step env) (Intact .remote allowed start) (fun _ => True)
      (writeRemoteTemp tmp path data) := by
  refine crash_bind (crash_mapError (crash_openWithFlags htemp)) fun h =>
    crash_assume fun hloc => ?_
  rw [← hloc] at htemp hne
  refine crash_bind (crash_mapError (crash_writeAll htemp)) fun _ =>
    crash_exists fun content => crash_assume fun hcontent => ?_
  refine crash_bind (crash_ignore (crash_spares (.flush h) id trivial fun w _ =>
    (exec_flush env w h).get h.loc)) fun _ => ?_
  refine crash_bind (crash_ignore (crash_spares (.syncAll h) id trivial fun w _ => ?_)) fun _ => ?_
  · rw [show (step env (.syncAll h) w).2 = _ from Env.onRemote_world ..]
    rfl
  refine crash_bind (crash_ignore (crash_spares (.close h) id trivial fun w _ =>
    (exec_close env w h).get h.loc)) fun _ => ?_
  refine crash_bind (crash_ignore (crash_spares (.removeFile path) id rfl fun w _ => ?_))
    fun _ => crash_mapError (crash_rename hloc hne (hdata content hcontent))
  -- the target is not the temp file
  exact ((exec_removeFile env w path).get h.loc).trans (if_neg fun hx => hne hx.1)

/-- The suffix of a temp path, whatever the hash is. -/
theorem sustains_randomTmpSuffix {side : Side} :
    Sustains (step env) (Intact side allowed start)
      (fun suffix => ∃ hash, suffix = tmpSuffix hash) randomTmpSuffix :=
  sustains_of_emits (A := fun _ _ => True) (P := FileOp.Spares side env)
    (emits_randomTmpSuffix trivial) (fun _ _ hop hs => ⟨trivial, step_intact hop hs⟩)
    fun w suffix w' _ hrun => by
      rw [exec_randomTmpSuffix] at hrun
      exact ⟨_, (Except.ok.inj (Prod.mk.inj hrun).1).symm⟩

/-- An operation that puts nothing in place, as a part of a program. -/
theorem sustains_spares {side : Side} {α : Type} {Q : α → Prop} (op : FileOp)
    (k : op.Res → Except IoError α) (hop : op.Spares side env)
    (hQ : ∀ w a, Intact side allowed start w → k (step env op w).1 = .ok a → Q a) :
    Sustains (step env) (Intact side allowed start) Q (call op k) :=
  crash_call (fun _ hs => hs) fun w hw =>
    ⟨step_intact hop hw, fun a ha => ⟨step_intact hop hw, hQ w a hw ha⟩,
      fun _ _ => step_intact hop hw⟩

/-- What a failed block leaves is removed, and its error passed on. -/
theorem sustains_cleanup {side : Side} {block : FileM Unit} (cleanup : FileOp)
    (k : cleanup.Res → Except IoError Unit)
    (hblock : Sustains (step env) (Intact side allowed start) (fun _ => True) block)
    (hclean : cleanup.Spares side env) {g : Except Error Unit → FileM Unit}
    (hok : g (.ok ()) = pure ())
    (herror : ∀ e, g (.error e) = ignore (call cleanup k) >>= fun _ => throw e) :
    Sustains (step env) (Intact side allowed start) (fun _ => True) (attempt block >>= g) := by
  refine sustains_bind (sustains_attempt hblock) fun r _ => ?_
  rcases r with e | ⟨⟩
  · rw [herror]
    exact sustains_bind (sustains_ignore (Q := fun _ => True)
      (sustains_spares cleanup k hclean fun _ _ _ _ => trivial)) fun _ _ => sustains_throw
  · rw [hok]
    exact sustains_pure trivial

/-- A write on the server of what belongs there, seen after any of its operations. -/
theorem crash_atomicWriteRemote
    (hdata : ∀ content, Lands .remote env data content → allowed (env.remoteLoc path) content) :
    Sustains (step env) (Intact .remote allowed start) (fun _ => True)
      (atomicWriteRemote path data) := by
  refine sustains_bind sustains_randomTmpSuffix ?_
  rintro _ ⟨hash, rfl⟩
  have hne : env.remoteLoc (path ++ ".tmp." ++ tmpSuffix hash) ≠ env.remoteLoc path := by
    rw [String.append_assoc]
    exact walk_append_ne _ _ (slash_not_mem_tmpSuffix hash) (by rw [length_tmpSuffix]; decide)
  exact sustains_cleanup (.removeFile (path ++ ".tmp." ++ tmpSuffix hash)) id
    (crash_writeRemoteTemp (isTemp_remote env path hash) hne hdata) rfl rfl fun _ => rfl

/-! ### On the local disk -/

theorem crash_fsOpenCreateNew {p : Loc} (hp : env.diskLoc tmp = some p) (htemp : IsTemp p) :
    CrashSafe (step env) (Intact .disk allowed start) (Intact .disk allowed start)
      (fun h s => Staging .disk allowed start h [] s ∧ h.loc = p)
      (fun _ => Intact .disk allowed start) (fsOpenCreateNew tmp) := by
  have hop : (FileOp.fsOpenCreateNew tmp).Spares .disk env :=
    ⟨rfl, fun q hq => Option.some.inj (hp.symm.trans hq) ▸ htemp⟩
  refine crash_call (fun _ hs => hs) fun w hw => ?_
  have hnext := step_intact hop hw
  refine ⟨hnext, fun h hok => ?_, fun _ _ => hnext⟩
  by_cases hopen : env.fault w.tick = .none ∧ w.disk.get p = none ∧ w.disk.writable p = true
  · obtain ⟨w', hexec, hstep⟩ := exec_fsOpenCreateNew hopen.1 hp hopen.2.1 hopen.2.2
    have hrun : step env (.fsOpenCreateNew tmp) w = (.ok ⟨p, w.tick⟩, w') := hexec
    rw [hrun] at hok hnext ⊢
    obtain rfl := Except.ok.inj hok
    exact ⟨⟨hnext, _, (hstep.get _).trans (if_pos rfl), rfl, rfl⟩, rfl⟩
  · obtain ⟨e, hexec⟩ := exec_fsOpenCreateNew_error hp hopen
    have hrun : step env (.fsOpenCreateNew tmp) w = (.error e, w.next) := hexec
    rw [hrun] at hok
    cases hok

theorem crash_fsWriteAll {h : FileHandle} (htemp : IsTemp h.loc) :
    CrashSafe (step env) (Intact .disk allowed start) (Staging .disk allowed start h [])
      (fun _ s => ∃ content, Staging .disk allowed start h content s ∧ Lands .disk env data content)
      (fun _ => Intact .disk allowed start) (fsWriteAll h data) := by
  refine crash_call (fun _ hs => hs.1) fun w hw => ?_
  have hnext : Intact .disk allowed start (step env (.fsWriteAll h data) w).2 :=
    step_intact ⟨rfl, htemp⟩ hw.1
  exact ⟨hnext, fun _ hok => hw.writeBehind (fun _ => rfl) hnext hok, fun _ _ => hnext⟩

theorem crash_fsRename {h : FileHandle} (hloc : env.diskLoc tmp = some h.loc)
    (hne : env.diskLoc path ≠ some h.loc)
    (hdata : ∀ q, env.diskLoc path = some q → allowed q data) :
    CrashSafe (step env) (Intact .disk allowed start) (Staging .disk allowed start h data)
      (fun _ s => Intact .disk allowed start s ∧ True) (fun _ => Intact .disk allowed start)
      (fsRename tmp path) := by
  refine crash_call (fun _ hs => hs.1) fun w hw => ?_
  -- what the rename puts in place is the content of the temp file
  obtain ⟨hintact, f, hf, -, hcontent⟩ := hw
  have hnext : Intact .disk allowed start (step env (.fsRename tmp path) w).2 := by
    simp only [step]
    split
    · exact Env.unlessFault_rule (P := Intact .disk allowed start) hintact.next hintact.next
    · next q hq =>
      unfold Env.changeDisk
      rw [hloc]
      refine Env.unlessFault_rule (P := Intact .disk allowed start) hintact.next ?_
      have hpq : h.loc ≠ q := fun hx => hne (hx ▸ hq)
      exact ⟨hintact.source,
        Tree.whole_move hintact.whole hf hpq (hcontent.symm ▸ hdata q hq) _⟩
  exact ⟨hnext, fun _ _ => ⟨hnext, trivial⟩, fun _ _ => hnext⟩

theorem crash_writeLocalTemp {p : Loc} (hp : env.diskLoc tmp = some p) (htemp : IsTemp p)
    (hne : env.diskLoc path ≠ some p)
    (hdata : ∀ q content, env.diskLoc path = some q → Lands .disk env data content →
      allowed q content) :
    Sustains (step env) (Intact .disk allowed start) (fun _ => True)
      (writeLocalTemp tmp path data) := by
  refine crash_bind (crash_mapError (crash_fsOpenCreateNew hp htemp)) fun h =>
    crash_assume fun hloc => ?_
  obtain rfl := hloc
  refine crash_bind (crash_mapError (crash_fsWriteAll htemp)) fun _ =>
    crash_exists fun content => crash_assume fun hcontent => ?_
  refine crash_bind (crash_ignore (crash_spares (.fsFlush h) id trivial fun w _ =>
    (exec_fsFlush env w h).get h.loc)) fun _ => ?_
  have hsync : CrashSafe (step env) (Intact .disk allowed start)
      (Staging .disk allowed start h content) (fun _ => Staging .disk allowed start h content)
      (fun _ => Staging .disk allowed start h content) (fsSyncAll h) := by
    refine crash_spares (.fsSyncAll h) id trivial fun w _ => ?_
    rw [show step env (.fsSyncAll h) w = _ from exec_fsSyncAll env w h]
    rfl
  refine crash_bind (crash_mapError (hsync.mono (fun _ hs => hs) (fun _ _ hs => hs)
    fun _ _ hs => hs.intact)) fun _ => ?_
  exact crash_mapError (crash_fsRename hp hne fun q hq => hdata q content hq hcontent)

/-- A local write of what belongs there, seen after any of its operations. -/
theorem crash_atomicWriteLocal
    (hdata : ∀ q content, env.diskLoc path = some q → Lands .disk env data content →
      allowed q content) :
    Sustains (step env) (Intact .disk allowed start) (fun _ => True)
      (atomicWriteLocal path data) := by
  refine sustains_bind sustains_randomTmpSuffix ?_
  rintro _ ⟨hash, rfl⟩
  exact sustains_cleanup (.fsRemoveFile (localTmp path (tmpSuffix hash))) id
    (crash_writeLocalTemp (diskLoc_localTmp env path hash) (isTemp_local env path hash)
      (diskLoc_ne_localTmp env path hash) hdata) rfl rfl fun _ => rfl

end Writes

end Passhrs
