import Passhrs.Sftp.DownloadRuns
import Passhrs.Sftp.Pull
import Passhrs.Sftp.WholeFiles

/-!
# Transfers that may be stopped

Whatever fails in a transfer, and wherever it stops: after each of its operations every file on the
side that is written, beside temp files, has the content it had before, or that of the file at the
same place on the other side, or what of that content had arrived, if the rest of it failed in
flight.

* **`rsyncUpload_whole`**, **`pushPath_whole`**: on the server.
* **`rsyncDownload_whole`**, **`pullPath_whole`**: on the local disk.
-/

namespace Passhrs

open Effects SlashPath

/-- What a write of the content of the file at the same place below another root may leave. -/
def Sent (side : Side) (env : Env) (source : Tree) (src dst p : Loc) (content : Bytes) : Prop :=
  ∃ ns data, p = ns ++ dst ∧ source.contentOf (ns ++ src) = some data ∧ Lands side env data content

theorem spares_of_readOnly {side : Side} {env : Env} {op : FileOp} (hop : op.ReadOnly) :
    op.Spares side env := by
  cases op <;> first | exact hop.elim | trivial

section Parts

variable {side : Side} {env : Env} {allowed : Loc → Bytes → Prop} {start : World}

/-- A program that only looks. -/
theorem sustains_looksOnly {α : Type} {Q : α → Prop} {x : FileM α} (hx : LooksOnly x)
    (hQ : ∀ w a w', Intact side allowed start w → exec (step env) x w = (.ok a, w') → Q a) :
    Sustains (step env) (Intact side allowed start) Q x :=
  sustains_of_emits hx (fun _ _ hop hs => ⟨trivial, step_intact (spares_of_readOnly hop) hs⟩) hQ

/-- An operation of which only the outcome matters. -/
theorem sustains_op {α : Type} (op : FileOp) (k : op.Res → Except IoError α)
    (hop : op.Spares side env) :
    Sustains (step env) (Intact side allowed start) (fun _ => True) (call op k) :=
  sustains_spares op k hop fun _ _ _ _ => trivial

theorem sustains_setRemoteMode (path : String) (mode : UInt32) :
    Sustains (step env) (Intact .remote allowed start) (fun _ => True)
      (setRemoteMode path mode) := by
  refine sustains_bind (sustains_mapError (sustains_op (.metadata path) id trivial)) fun _ _ => ?_
  exact sustains_mapError (sustains_op (.setMetadata path _) id rfl)

theorem sustains_applyLocalMode (path : String) (mode : UInt32) :
    Sustains (step env) (Intact .disk allowed start) (fun _ => True)
      (applyLocalMode path mode) :=
  sustains_mapError (sustains_op (.fsSetPermissions path _) id rfl)

/-- What is read from the local disk while the server is written. -/
theorem sustains_fsRead {path : String} {p : Loc} (hp : env.diskLoc path = some p) :
    Sustains (step env) (Intact .remote allowed start)
      (fun data => start.disk.contentOf p = some data) (fsRead path) := by
  refine sustains_spares (.fsRead path) id trivial fun w data hw hrun => ?_
  obtain ⟨⟨q, f, hq, hf, rfl⟩, -⟩ :=
    exec_fsRead_eq_ok (show exec (step env) (fsRead path) w = (.ok data, _) from Prod.ext hrun rfl)
  obtain rfl := Option.some.inj (hq.symm.trans hp)
  have hdisk : w.disk = start.disk := hw.source
  rw [← hdisk]
  exact Tree.contentOf_of_file hf

/-- What is read from the server while the local disk is written. -/
theorem sustains_read (path : String) :
    Sustains (step env) (Intact .disk allowed start)
      (fun data => start.remote.contentOf (env.remoteLoc path) = some data) (read path) := by
  refine sustains_spares (.read path) id trivial fun w data hw hrun => ?_
  obtain ⟨⟨f, hf, rfl⟩, -⟩ :=
    exec_read_eq_ok (show exec (step env) (read path) w = (.ok data, _) from Prod.ext hrun rfl)
  have hremote : w.remote = start.remote := hw.source
  rw [← hremote]
  exact Tree.contentOf_of_file hf

end Parts

/-! ## `rsync_upload` -/

section Upload

variable {env : Env} {copia : Copia} {start : World} {localRoot remoteRoot : String} {L : Loc}

/-- The invariant of a transfer to the server. -/
abbrev UploadIntact (env : Env) (remoteRoot : String) (L : Loc) (start w : World) : Prop :=
  Intact .remote (Sent .remote env start.disk L (env.remoteLoc remoteRoot)) start w

theorem sustains_uploadTo (hremote : remoteRoot ≠ "") (names : List FileName) {data : Bytes}
    (hdata : start.disk.contentOf (names.reverse ++ L) = some data) (mode : Option UInt32) :
    Sustains (step env) (UploadIntact env remoteRoot L start) (fun _ => True) (do
      atomicWriteRemote (below remoteRoot names) data
      preserveMode (below remoteRoot names) mode) := by
  have hloc : env.remoteLoc (below remoteRoot names)
      = names.reverse ++ env.remoteLoc remoteRoot := walk_below _ hremote names
  refine sustains_bind (crash_atomicWriteRemote fun content hlands =>
    ⟨names.reverse, data, hloc, hdata, hlands⟩) fun _ _ => ?_
  rcases mode with _ | m
  · exact sustains_pure trivial
  · exact sustains_ignore (sustains_setRemoteMode _ m)

theorem sustains_uploadIfChanged (hcopia : copia.Lawful) (hremote : remoteRoot ≠ "")
    (hlocal : env.diskLoc localRoot = some L) (o : RsyncOpts) (remoteFiles : FileMap)
    (names : List FileName) (info : RemoteFileInfo) :
    Sustains (step env) (UploadIntact env remoteRoot L start) (fun _ => True)
      (uploadIfChanged copia o remoteFiles (below localRoot names) (below remoteRoot names)
        info) := by
  have hread : Sustains (step env) (UploadIntact env remoteRoot L start)
      (fun data => start.disk.contentOf (names.reverse ++ L) = some data)
      (propagate (fsRead (below localRoot names))) :=
    sustains_mapError (sustains_fsRead (diskLoc_below hlocal names))
  have hwhole : Sustains (step env) (UploadIntact env remoteRoot L start) (fun _ => True)
      (uploadWhole o (below localRoot names) (below remoteRoot names) info) := by
    unfold uploadWhole
    split
    · exact sustains_pure trivial
    · exact sustains_bind hread fun _ hdata => sustains_uploadTo hremote names hdata info.mode
  unfold uploadIfChanged
  split
  case h_2 => exact hwhole
  split
  · exact sustains_pure trivial
  split
  case isFalse => exact hwhole
  refine sustains_bind hread fun localData hlocalData => ?_
  refine sustains_bind (sustains_mapError (sustains_op (.read _) id trivial)) fun remoteData _ => ?_
  split
  · exact sustains_pure trivial
  refine sustains_bind (sustains_mapError (sustains_ofResult fun _ h => h)) fun sig hsig => ?_
  refine sustains_bind (sustains_mapError (sustains_ofResult fun _ h => h)) fun delta hdelta => ?_
  split
  case isFalse => exact hwhole
  refine sustains_bind (sustains_mapError (sustains_ofResult fun _ h => h)) fun output houtput => ?_
  -- the patch is the local file again
  obtain ⟨sig', delta', hsig', hdelta', hpatch⟩ := hcopia.exists_delta remoteData localData
  obtain rfl := Except.ok.inj (hsig.symm.trans hsig')
  obtain rfl := Except.ok.inj (hdelta.symm.trans hdelta')
  obtain rfl := Except.ok.inj (houtput.symm.trans hpatch)
  exact sustains_uploadTo hremote names hlocalData info.mode

theorem sustains_rsyncUpload (hcopia : copia.Lawful) (hremote : remoteRoot ≠ "")
    (hlocal : env.diskLoc localRoot = some L) (localOrder remoteOrder : IterOrder) (fuel : Nat)
    (opts : List String) :
    Sustains (step env) (UploadIntact env remoteRoot L start) (fun _ => True)
      (rsyncUpload copia localOrder remoteOrder fuel localRoot remoteRoot opts) := by
  have hlist : Sustains (step env) (UploadIntact env remoteRoot L start)
      (fun files => start.disk.get L = some .dir ∧
        Lists localInfo start.disk L localRoot (fun _ => True) files)
      (listLocalFiles fuel localRoot) := by
    refine sustains_looksOnly (looksOnly_listLocalFiles fuel localRoot) fun w m w' hw hrun => ?_
    obtain ⟨p, hp, hdir, -, hlists⟩ := listLocalFiles_lists hrun
    obtain rfl := Option.some.inj (hp.symm.trans hlocal)
    have hdisk : w.disk = start.disk := hw.source
    exact hdisk ▸ ⟨hdir, hlists⟩
  refine sustains_bind (sustains_ignore (sustains_op (.createDir remoteRoot) id rfl)) fun _ _ => ?_
  refine sustains_bind hlist fun localFiles hfiles => ?_
  obtain ⟨hdir, hlists⟩ := hfiles
  refine sustains_bind (sustains_looksOnly (looksOnly_listRemoteFiles fuel remoteRoot)
    (Q := fun _ => True) fun _ _ _ _ _ => trivial) fun remoteFiles _ => ?_
  refine sustains_bind (sustains_forM fun e he => ?_) fun _ _ => ?_
  · obtain ⟨names, hne, hkey⟩ := hlists.key_below hdir localOrder e he
    show Sustains _ _ _ (uploadFile _ _ _ _ _ e.1 e.2)
    rw [hkey, uploadFile_below _ _ _ _ _ hne]
    split
    · exact sustains_pure trivial
    · exact sustains_uploadIfChanged hcopia hremote hlocal _ _ names e.2
  split
  -- the delete loop takes files away and brings none
  · refine sustains_forM fun e _ => ?_
    show Sustains _ _ _ (deleteFile _ _ _ _ e.1)
    unfold deleteFile
    dsimp only
    split
    · exact sustains_pure trivial
    split
    · exact sustains_pure trivial
    · exact sustains_ignore (sustains_op (.removeFile e.1) id rfl)
  · exact sustains_pure trivial

/-- **An upload leaves no file of the server half written**, unless a write fails in flight: every
file, beside temp files, has the content it had, or that of its own local file, or what of it such a
write left. Nothing has changed on the local disk. -/
theorem rsyncUpload_whole (hcopia : copia.Lawful) (hremote : remoteRoot ≠ "")
    (hlocal : env.diskLoc localRoot = some L) (localOrder remoteOrder : IterOrder) (fuel : Nat)
    (opts : List String) (w : World) :
    ∀ t ∈ (rsyncUpload copia localOrder remoteOrder fuel localRoot remoteRoot
        opts).run.states (step env) w,
      t.disk = w.disk ∧ ∀ p, ¬ IsTemp p → ∀ content, t.remote.contentOf p = some content →
        w.remote.contentOf p = some content ∨
          Sent .remote env w.disk L (env.remoteLoc remoteRoot) p content := by
  intro t ht
  obtain ⟨hsource, hwhole⟩ := (sustains_rsyncUpload hcopia hremote hlocal localOrder remoteOrder
    fuel opts).passes (intact_start w) t ht
  exact ⟨hsource, hwhole⟩

/-- An environment in which one operation fails, and a write in flight. -/
def Env.failing : Env :=
  { Env.reliable with
    fault := fun n => if n = 9 then .fail else if n = 14 then .inFlight 1 else .none }

theorem rsyncUpload_whole_two_files :
    let w := World.start (Tree.dirWith ⟨"r", by decide⟩ [(⟨"a", by decide⟩, [1])])
      (Tree.dirWith ⟨"l", by decide⟩ [(⟨"a", by decide⟩, [2, 3]), (⟨"b", by decide⟩, [4])])
    ∀ t ∈ (rsyncUpload .prefixOnly .asListed .asListed 3 "/l" "/r" ["delete"]).run.states
        (step .failing) w,
      t.disk = w.disk ∧ ∀ p, ¬ IsTemp p → ∀ content, t.remote.contentOf p = some content →
        w.remote.contentOf p = some content ∨
          Sent .remote .failing w.disk (walk [] "/l") (Env.failing.remoteLoc "/r") p content :=
  rsyncUpload_whole Copia.prefixOnly_lawful (by decide) (if_neg (by decide)) _ _ 3 _ _

end Upload

/-! ## `push_path` -/

section Push

variable {env : Env} {start : World} {remoteRoot : String} {L : Loc}

theorem sustains_pushPath (fuel : Nat) {localPath remote : String} (ns : Loc)
    (hlocal : env.diskLoc localPath = some (ns ++ L)) (hne : remote ≠ "")
    (hremote : env.remoteLoc remote = ns ++ env.remoteLoc remoteRoot) :
    Sustains (step env) (UploadIntact env remoteRoot L start) (fun _ => True)
      (pushPath fuel localPath remote) := by
  induction fuel generalizing localPath remote ns with
  | zero => exact sustains_throw
  | succ fuel ih =>
    refine sustains_bind (sustains_mapError (sustains_op (.fsMetadata localPath) id trivial))
      fun stat _ => ?_
    split
    -- a directory: every child is pushed to the same place below
    · refine sustains_bind (sustains_ignore (sustains_op (.createDir remote) id rfl)) fun _ _ => ?_
      have hlist : Sustains (step env) (UploadIntact env remoteRoot L start)
          (fun names => ∀ name ∈ names, ∃ n : FileName, name = n.str) (fsReadDir localPath) := by
        refine sustains_spares (.fsReadDir localPath) id trivial fun w names _ hrun => ?_
        obtain ⟨p, -, -, rfl, -⟩ := exec_fsReadDir_eq_ok
          (show exec (step env) (fsReadDir localPath) w = (.ok names, _) from Prod.ext hrun rfl)
        intro name hname
        obtain ⟨n, -, rfl⟩ := List.mem_map.mp hname
        exact ⟨n, rfl⟩
      refine sustains_bind (sustains_mapError hlist) fun names hnames => ?_
      have hentry : Sustains (step env) (UploadIntact env remoteRoot L start) (fun _ => True)
          (propagate (fsNextEntry localPath)) :=
        sustains_mapError (sustains_op (.fsNextEntry localPath) id trivial)
      refine sustains_bind (sustains_forM fun name hname => ?_) fun _ _ => hentry
      obtain ⟨n, rfl⟩ := hnames name hname
      refine sustains_bind hentry fun _ _ => ih (n :: ns) ?_ (child_ne_empty _ _) ?_
      · exact diskLoc_below hlocal [n]
      · rw [Env.remoteLoc, walk_child_name _ _ n hne]
        exact congrArg _ hremote
    -- a file: its content is written whole or not at all, and the mode brings no bytes
    · refine sustains_bind (sustains_mapError (sustains_fsRead hlocal)) fun content hcontent => ?_
      refine sustains_bind (crash_atomicWriteRemote fun _ hlands =>
        ⟨ns, content, hremote, hcontent, hlands⟩) fun _ _ => ?_
      exact sustains_ignore (sustains_setRemoteMode _ _)

/-- **A push leaves no file of the server half written**, unless a write fails in flight. -/
theorem pushPath_whole {localRoot : String} (hremote : remoteRoot ≠ "")
    (hlocal : env.diskLoc localRoot = some L) (fuel : Nat) (w : World) :
    ∀ t ∈ (pushPath fuel localRoot remoteRoot).run.states (step env) w,
      t.disk = w.disk ∧ ∀ p, ¬ IsTemp p → ∀ content, t.remote.contentOf p = some content →
        w.remote.contentOf p = some content ∨
          Sent .remote env w.disk L (env.remoteLoc remoteRoot) p content := by
  intro t ht
  obtain ⟨hsource, hwhole⟩ := (sustains_pushPath fuel [] hlocal hremote rfl).passes
    (intact_start w) t ht
  exact ⟨hsource, hwhole⟩

theorem pushPath_whole_two_files :
    let w := World.start (Tree.dirWith ⟨"r", by decide⟩ [(⟨"a", by decide⟩, [1])])
      (Tree.dirWith ⟨"l", by decide⟩ [(⟨"a", by decide⟩, [2, 3]), (⟨"b", by decide⟩, [4])])
    ∀ t ∈ (pushPath 3 "/l" "/r").run.states (step .failing) w,
      t.disk = w.disk ∧ ∀ p, ¬ IsTemp p → ∀ content, t.remote.contentOf p = some content →
        w.remote.contentOf p = some content ∨
          Sent .remote .failing w.disk (walk [] "/l") (Env.failing.remoteLoc "/r") p content :=
  pushPath_whole (by decide) (if_neg (by decide)) 3 _

end Push

/-! ## `rsync_download` -/

section Download

variable {env : Env} {copia : Copia} {start : World} {localRoot remoteRoot : String} {L : Loc}

/-- The invariant of a transfer to the local disk. -/
abbrev DownloadIntact (env : Env) (remoteRoot : String) (L : Loc) (start w : World) : Prop :=
  Intact .disk (Sent .disk env start.remote (env.remoteLoc remoteRoot) L) start w

/-- A local write of the content of the file at the same place. -/
theorem sustains_atomicWriteLocal {path : String} {ns : Loc} {data : Bytes}
    (hpath : env.diskLoc path = some (ns ++ L))
    (hdata : start.remote.contentOf (ns ++ env.remoteLoc remoteRoot) = some data) :
    Sustains (step env) (DownloadIntact env remoteRoot L start) (fun _ => True)
      (atomicWriteLocal path data) := by
  refine crash_atomicWriteLocal fun q content hq hlands => ⟨ns, data, ?_, hdata, hlands⟩
  exact Option.some.inj (hq.symm.trans hpath)

theorem sustains_downloadTo (hlocal : env.diskLoc localRoot = some L) (names : List FileName)
    {data : Bytes} (mode : Option UInt32)
    (hdata : start.remote.contentOf (names.reverse ++ env.remoteLoc remoteRoot) = some data) :
    Sustains (step env) (DownloadIntact env remoteRoot L start) (fun _ => True) (do
      atomicWriteLocal (below localRoot names) data
      keepMode (below localRoot names) mode) := by
  refine sustains_bind (sustains_atomicWriteLocal (diskLoc_below hlocal names) hdata) fun _ _ => ?_
  rcases mode with _ | m
  · exact sustains_pure trivial
  · exact sustains_ignore (sustains_applyLocalMode _ m)

theorem sustains_downloadIfChanged (hcopia : copia.Lawful) (hremote : remoteRoot ≠ "")
    (hlocal : env.diskLoc localRoot = some L) (o : RsyncOpts) (localFiles : FileMap)
    (names : List FileName) (info : RemoteFileInfo) :
    Sustains (step env) (DownloadIntact env remoteRoot L start) (fun _ => True)
      (downloadIfChanged copia o localFiles (below remoteRoot names) (below localRoot names)
        info) := by
  have hloc : env.remoteLoc (below remoteRoot names)
      = names.reverse ++ env.remoteLoc remoteRoot := walk_below _ hremote names
  have hread : Sustains (step env) (DownloadIntact env remoteRoot L start)
      (fun data => start.remote.contentOf (names.reverse ++ env.remoteLoc remoteRoot) = some data)
      (propagate (read (below remoteRoot names))) :=
    sustains_mapError (hloc ▸ sustains_read (below remoteRoot names))
  have hwhole : Sustains (step env) (DownloadIntact env remoteRoot L start) (fun _ => True)
      (downloadWhole o (below remoteRoot names) (below localRoot names) info) := by
    unfold downloadWhole
    split
    · exact sustains_pure trivial
    refine sustains_bind hread fun data hdata => ?_
    refine sustains_bind (Q := fun _ => True) ?_ fun _ _ =>
      sustains_downloadTo hlocal names info.mode hdata
    unfold createParents
    split
    · exact sustains_mapError (sustains_op (.fsCreateDirAll _) id rfl)
    · exact sustains_pure trivial
  unfold downloadIfChanged
  split
  case h_2 => exact hwhole
  split
  · exact sustains_pure trivial
  split
  case isFalse => exact hwhole
  refine sustains_bind (sustains_mapError (sustains_op (.fsRead _) id trivial))
    fun localData _ => ?_
  refine sustains_bind hread fun remoteData hremoteData => ?_
  split
  · exact sustains_pure trivial
  refine sustains_bind (sustains_mapError (sustains_ofResult fun _ h => h)) fun sig hsig => ?_
  refine sustains_bind (sustains_mapError (sustains_ofResult fun _ h => h)) fun delta hdelta => ?_
  split
  case isFalse => exact hwhole
  refine sustains_bind (sustains_mapError (sustains_ofResult fun _ h => h)) fun output houtput => ?_
  -- the patched data is the server's file again
  obtain ⟨sig', delta', hsig', hdelta', hpatch⟩ := hcopia.exists_delta localData remoteData
  obtain rfl := Except.ok.inj (hsig.symm.trans hsig')
  obtain rfl := Except.ok.inj (hdelta.symm.trans hdelta')
  obtain rfl := Except.ok.inj (houtput.symm.trans hpatch)
  exact sustains_downloadTo hlocal names info.mode hremoteData

theorem sustains_rsyncDownload (hcopia : copia.Lawful) (hremote : remoteRoot ≠ "")
    (hlocal : env.diskLoc localRoot = some L) (localOrder remoteOrder : IterOrder) (fuel : Nat)
    (opts : List String) :
    Sustains (step env) (DownloadIntact env remoteRoot L start) (fun _ => True)
      (rsyncDownload copia localOrder remoteOrder fuel remoteRoot localRoot opts) := by
  have hlist : Sustains (step env) (DownloadIntact env remoteRoot L start)
      (fun files => start.remote.get (env.remoteLoc remoteRoot) = some .dir ∧
        Lists remoteInfo start.remote (env.remoteLoc remoteRoot) remoteRoot (fun _ => True) files)
      (listRemoteFiles fuel remoteRoot) := by
    refine sustains_looksOnly (looksOnly_listRemoteFiles fuel remoteRoot) fun w m w' hw hrun => ?_
    obtain ⟨-, hdir, hlists⟩ := listRemoteFiles_lists hremote hrun
    have hsource : w.remote = start.remote := hw.source
    exact hsource ▸ ⟨hdir, hlists⟩
  refine sustains_bind (sustains_looksOnly (looksOnly_listLocalFiles fuel localRoot)
    (Q := fun _ => True) fun _ _ _ _ _ => trivial) fun localFiles _ => ?_
  refine sustains_bind hlist fun remoteFiles hfiles => ?_
  obtain ⟨hdir, hlists⟩ := hfiles
  refine sustains_bind (sustains_forM fun e he => ?_) fun _ _ => ?_
  · obtain ⟨names, hne, hkey⟩ := hlists.key_below hdir remoteOrder e he
    show Sustains _ _ _ (downloadFile _ _ _ _ _ e.1 e.2)
    rw [hkey, downloadFile_below _ _ _ _ _ hne]
    split
    · exact sustains_pure trivial
    · exact sustains_downloadIfChanged hcopia hremote hlocal _ _ names e.2
  split
  -- the delete loop takes files away and brings none
  · refine sustains_forM fun e _ => ?_
    show Sustains _ _ _ (deleteLocalFile _ _ _ _ e.1)
    unfold deleteLocalFile
    dsimp only
    split
    · exact sustains_pure trivial
    split
    · exact sustains_pure trivial
    · exact sustains_ignore (sustains_op (.fsRemoveFile e.1) id rfl)
  · exact sustains_pure trivial

/-- **A download leaves no local file half written**, unless a write fails in flight: every file,
beside temp files, has the content it had, or that of its own file on the server, or the front of it
that such a write left. Nothing has changed on the server. -/
theorem rsyncDownload_whole (hcopia : copia.Lawful) (hremote : remoteRoot ≠ "")
    (hlocal : env.diskLoc localRoot = some L) (localOrder remoteOrder : IterOrder) (fuel : Nat)
    (opts : List String) (w : World) :
    ∀ t ∈ (rsyncDownload copia localOrder remoteOrder fuel remoteRoot localRoot
        opts).run.states (step env) w,
      t.remote = w.remote ∧ ∀ p, ¬ IsTemp p → ∀ content, t.disk.contentOf p = some content →
        w.disk.contentOf p = some content ∨
          Sent .disk env w.remote (env.remoteLoc remoteRoot) L p content := by
  intro t ht
  obtain ⟨hsource, hwhole⟩ := (sustains_rsyncDownload hcopia hremote hlocal localOrder remoteOrder
    fuel opts).passes (intact_start w) t ht
  exact ⟨hsource, hwhole⟩

theorem rsyncDownload_whole_two_files :
    let w := World.start
      (Tree.dirWith ⟨"r", by decide⟩ [(⟨"a", by decide⟩, [2, 3]), (⟨"b", by decide⟩, [4])])
      (Tree.dirWith ⟨"l", by decide⟩ [(⟨"a", by decide⟩, [1])])
    ∀ t ∈ (rsyncDownload .prefixOnly .asListed .asListed 3 "/r" "/l" ["delete"]).run.states
        (step .failing) w,
      t.remote = w.remote ∧ ∀ p, ¬ IsTemp p → ∀ content, t.disk.contentOf p = some content →
        w.disk.contentOf p = some content ∨
          Sent .disk .failing w.remote (Env.failing.remoteLoc "/r") (walk [] "/l") p content :=
  rsyncDownload_whole Copia.prefixOnly_lawful (by decide) (if_neg (by decide)) _ _ 3 _ _

end Download

/-! ## `pull_path` -/

section Pull

variable {printable : Char → Bool} {env : Env} {start : World} {remoteRoot : String} {L : Loc}

theorem sustains_pullPath (fuel : Nat) {remote localPath : String} (ns : Loc)
    (hlocal : env.diskLoc localPath = some (ns ++ L)) (hne : remote ≠ "")
    (hremote : env.remoteLoc remote = ns ++ env.remoteLoc remoteRoot) :
    Sustains (step env) (DownloadIntact env remoteRoot L start) (fun _ => True)
      (pullPath printable fuel remote localPath) := by
  induction fuel generalizing localPath remote ns with
  | zero => exact sustains_throw
  | succ fuel ih =>
    refine sustains_bind (sustains_attempt (sustains_op (.metadata remote) id trivial))
      fun r _ => ?_
    rcases r with e | stat
    · exact sustains_throw
    dsimp only
    split
    -- a directory: every child is pulled to the same place below
    · refine sustains_bind (sustains_mapError (sustains_op (.fsCreateDirAll localPath) id rfl))
        fun _ _ => ?_
      have hlist : Sustains (step env) (DownloadIntact env remoteRoot L start)
          (fun names => ∀ name ∈ names, ∃ n : FileName, name = n.str) (readDir remote) := by
        refine sustains_spares (.readDir remote) id trivial fun w names _ hrun => ?_
        obtain ⟨-, rfl, -⟩ := exec_readDir_eq_ok
          (show exec (step env) (readDir remote) w = (.ok names, _) from Prod.ext hrun rfl)
        intro name hname
        obtain ⟨n, -, rfl⟩ := List.mem_map.mp hname
        exact ⟨n, rfl⟩
      refine sustains_bind (sustains_mapError hlist) fun names hnames => ?_
      refine sustains_forM fun name hname => ?_
      obtain ⟨n, rfl⟩ := hnames name hname
      refine ih (n :: ns) ?_ (child_ne_empty _ _) ?_
      · exact diskLoc_below hlocal [n]
      · rw [Env.remoteLoc, walk_child_name _ _ n hne]
        exact congrArg _ hremote
    -- a file: what is read is what the server had at the start
    · have hread : Sustains (step env) (DownloadIntact env remoteRoot L start)
          (fun data => start.remote.contentOf (ns ++ env.remoteLoc remoteRoot) = some data)
          (read remote) := hremote ▸ sustains_read remote
      refine sustains_bind (sustains_mapError hread) fun data hdata => ?_
      have hwrite := sustains_atomicWriteLocal hlocal hdata
      split
      · refine sustains_bind (sustains_mapError (sustains_op (.fsCreateDirAll _) id rfl))
          fun _ _ => sustains_bind hwrite fun _ _ => ?_
        split
        · exact sustains_ignore (sustains_applyLocalMode _ _)
        · exact sustains_pure trivial
      · refine sustains_bind hwrite fun _ _ => ?_
        split
        · exact sustains_ignore (sustains_applyLocalMode _ _)
        · exact sustains_pure trivial

/-- **A pull leaves no local file half written**, unless a write fails in flight. -/
theorem pullPath_whole {localRoot : String} (hremote : remoteRoot ≠ "")
    (hlocal : env.diskLoc localRoot = some L) (fuel : Nat) (w : World) :
    ∀ t ∈ (pullPath printable fuel remoteRoot localRoot).run.states (step env) w,
      t.remote = w.remote ∧ ∀ p, ¬ IsTemp p → ∀ content, t.disk.contentOf p = some content →
        w.disk.contentOf p = some content ∨
          Sent .disk env w.remote (env.remoteLoc remoteRoot) L p content := by
  intro t ht
  obtain ⟨hsource, hwhole⟩ := (sustains_pullPath fuel [] hlocal hremote rfl).passes
    (intact_start w) t ht
  exact ⟨hsource, hwhole⟩

theorem pullPath_whole_two_files :
    let w := World.start
      (Tree.dirWith ⟨"r", by decide⟩ [(⟨"a", by decide⟩, [2, 3]), (⟨"b", by decide⟩, [4])])
      (Tree.dirWith ⟨"l", by decide⟩ [(⟨"a", by decide⟩, [1])])
    ∀ t ∈ (pullPath (fun _ => true) 3 "/r" "/l").run.states (step .failing) w,
      t.remote = w.remote ∧ ∀ p, ¬ IsTemp p → ∀ content, t.disk.contentOf p = some content →
        w.disk.contentOf p = some content ∨
          Sent .disk .failing w.remote (Env.failing.remoteLoc "/r") (walk [] "/l") p content :=
  pullPath_whole (by decide) (if_neg (by decide)) 3 _

end Pull

end Passhrs
