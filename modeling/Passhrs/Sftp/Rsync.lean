import Mathlib.Algebra.GroupWithZero.Nat
import Mathlib.Data.List.Infix
import Passhrs.Lib.Separators
import Passhrs.Sftp.AtomicWrite
import Passhrs.Sftp.Listing

/-!
# `rsync_upload`

The upload direction of `--rsync`: list both sides, write every local file that differs, then
remove what the local side does not have. The `copia` delta engine is a parameter (`Copia`), and
the order in which a `HashMap` is iterated is another (`IterOrder`).
-/

namespace Passhrs

open Effects SlashPath

/-! ## Parameters -/

/-- `copia::DeltaOp`. -/
inductive DeltaOp where
  | literal (data : Bytes)
  | copy (offset len : Nat)
deriving DecidableEq

/-- The calls that `rsync_upload` makes to `copia::Sync` with a block size of 4096. -/
structure Copia where
  Signature : Type
  Delta : Type
  signature : Bytes → Except IoError Signature
  delta : Bytes → Signature → Except IoError Delta
  ops : Delta → List DeltaOp
  patch : Bytes → Delta → Except IoError Bytes

/-- What `copia` promises: patching the basis with the delta of the source gives the source. -/
def Copia.Lawful (copia : Copia) : Prop :=
  ∀ basis source : Bytes, (do
    let sig ← copia.signature basis
    let delta ← copia.delta source sig
    copia.patch basis delta) = .ok source

/-- A lawful engine never fails on the way, and patches back to the source. -/
theorem Copia.Lawful.exists_delta {copia : Copia} (h : copia.Lawful) (basis source : Bytes) :
    ∃ sig delta, copia.signature basis = .ok sig ∧ copia.delta source sig = .ok delta ∧
      copia.patch basis delta = .ok source := by
  have hlaw := h basis source
  rcases hsig : copia.signature basis with e | sig
  · rw [hsig] at hlaw
    cases hlaw
  · rw [hsig] at hlaw
    change (copia.delta source sig >>= fun delta => copia.patch basis delta) = .ok source at hlaw
    rcases hdelta : copia.delta source sig with e | delta
    · rw [hdelta] at hlaw
      cases hlaw
    · rw [hdelta] at hlaw
      exact ⟨sig, delta, rfl, hdelta, hlaw⟩

def commonPrefix : Bytes → Bytes → Nat
  | a :: as, b :: bs => if a = b then commonPrefix as bs + 1 else 0
  | _, _ => 0

theorem take_commonPrefix (as bs : Bytes) :
    as.take (commonPrefix as bs) = bs.take (commonPrefix as bs) := by
  induction as generalizing bs with
  | nil => simp [commonPrefix]
  | cons a as ih =>
    rcases bs with _ | ⟨b, bs⟩
    · simp [commonPrefix]
    · by_cases hab : a = b
      · simp [commonPrefix, hab, ih]
      · simp [commonPrefix, hab]

theorem commonPrefix_append (as bs cs : Bytes) :
    commonPrefix (as ++ bs) (as ++ cs) = as.length + commonPrefix bs cs := by
  induction as with
  | nil => simp
  | cons a as ih =>
    simp only [List.cons_append, commonPrefix, ↓reduceIte, ih, List.length_cons]
    omega

/-- The smallest lawful engine: copy what the two files start with, send the rest. -/
def Copia.prefixOnly : Copia where
  Signature := Bytes
  Delta := List DeltaOp
  signature basis := .ok basis
  delta source sig :=
    .ok [.copy 0 (commonPrefix sig source), .literal (source.drop (commonPrefix sig source))]
  ops delta := delta
  patch basis delta := .ok (delta.flatMap fun
    | .literal data => data
    | .copy offset len => (basis.drop offset).take len)

theorem Copia.prefixOnly_lawful : Copia.prefixOnly.Lawful := by
  intro basis source
  show Except.ok (_ : Bytes) = _
  simp only [List.flatMap_cons, List.flatMap_nil, List.drop_zero, List.append_nil]
  rw [take_commonPrefix, List.take_append_drop]

/-- The order in which a `HashMap` is iterated: any permutation of its entries. -/
structure IterOrder where
  order : List (String × RemoteFileInfo) → List (String × RemoteFileInfo)
  perm : ∀ entries, (order entries).Perm entries

def IterOrder.asListed : IterOrder := ⟨id, fun _ => .refl _⟩

def FileMap.items (files : FileMap) : List (String × RemoteFileInfo) :=
  files.entries.map fun e => (e.1, e.2)

theorem FileMap.mem_items {files : FileMap} {key : String} {i : RemoteFileInfo} :
    (key, i) ∈ files.items ↔ files.lookup key = some i := by
  rw [items, List.mem_map, ← Option.mem_def, AList.mem_lookup_iff]
  constructor
  · rintro ⟨⟨k, j⟩, hmem, heq⟩
    cases heq
    exact hmem
  · exact fun h => ⟨⟨key, i⟩, h, rfl⟩

theorem mem_order_lookup {files : FileMap} (ord : IterOrder) {e : String × RemoteFileInfo}
    (h : e ∈ ord.order files.items) : files.lookup e.1 = some e.2 :=
  FileMap.mem_items.mp ((ord.perm _).mem_iff.mp h)

/-- What is listed of a directory is below it. -/
theorem Lists.key_below {info : File → RemoteFileInfo} {t : Tree} {p : Loc} {root : String}
    {done : List FileName → Prop} {files : FileMap} (h : Lists info t p root done files)
    (hdir : t.get p = some .dir) (ord : IterOrder) :
    ∀ e ∈ ord.order files.items, ∃ names, names ≠ [] ∧ e.1 = below root names := by
  intro e he
  obtain ⟨names, f, hkey, hf, -⟩ := h.sound e.1 e.2 (mem_order_lookup ord he)
  refine ⟨names, ?_, hkey⟩
  rintro rfl
  simp [hdir] at hf

/-! ## String helpers -/

/-- `str::strip_prefix`. -/
def stripPrefix (pre s : String) : Option String :=
  if pre.toList <+: s.toList then some (String.ofList (s.toList.drop pre.toList.length)) else none

/-- `str::contains`. -/
def contains (s pat : String) : Bool := decide (pat.toList <:+: s.toList)

/-- `str::ends_with`. -/
def endsWith (s pat : String) : Bool := decide (pat.toList <:+ s.toList)

/-! ## Options -/

/-- The `--rsync-opt` values. -/
structure RsyncOpts where
  deleteExtra : Bool
  dryRun : Bool
  useChecksum : Bool
  excludes : List String
deriving DecidableEq

def RsyncOpts.add (o : RsyncOpts) (opt : String) : RsyncOpts :=
  if opt = "delete" then { o with deleteExtra := true }
  else if opt = "dry-run" || opt = "dry_run" then { o with dryRun := true }
  else if opt = "checksum" then { o with useChecksum := true }
  else
    match stripPrefix "exclude=" opt with
    | some pat => { o with excludes := o.excludes ++ [pat] }
    | none => o

def parseRsyncOpts (opts : List String) : RsyncOpts :=
  opts.foldl RsyncOpts.add ⟨false, false, false, []⟩

/-! ## The upload -/

def setRemoteMode (path : String) (srcMode : UInt32) : FileM Unit := do
  let cur ← withContext s!"cannot stat remote after write: {path}" (metadata path)
  let curPerms := cur.permissions.getD sIfreg
  let newPerms := (curPerms &&& sIfmt) ||| (srcMode &&& 0o7777)
  let attrs : Metadata := ⟨none, some newPerms, none⟩
  withContext s!"cannot set remote mode on {path}" (setMetadata path attrs)

/-- The block after each `atomic_write_remote` of `rsync_upload`. -/
def preserveMode (remotePath : String) (mode : Option UInt32) : FileM Unit :=
  match mode with
  | some m => ignore (setRemoteMode remotePath m)
  | none => pure ()

/-- A listed path relative to the root whose trimmed path is `pre`. -/
def relPath (pre path : String) : String :=
  let relPath := (stripPrefix pre path).getD path
  (stripPrefix "/" relPath).getD relPath

def isExcluded (o : RsyncOpts) (relPath localPath : String) : Bool :=
  o.excludes.any fun pat =>
    contains relPath pat || endsWith relPath pat || contains localPath pat

/-- The estimate that decides between a delta and a whole upload. -/
def deltaSize (copia : Copia) (delta : copia.Delta) : Nat :=
  ((copia.ops delta).map fun
    | .literal data => data.length
    | .copy _ _ => 13).sum

/-- The part of the loop body that no `continue` skipped. -/
def uploadWhole (o : RsyncOpts) (localPath remotePath : String) (info : RemoteFileInfo) :
    FileM Unit :=
  if o.dryRun then pure ()
  else do
    let data ← propagate (fsRead localPath)
    atomicWriteRemote remotePath data
    preserveMode remotePath info.mode

/-- The `match` on the remote entry, and what follows it. `continue` is `pure ()`. -/
def uploadIfChanged (copia : Copia) (o : RsyncOpts) (remoteFiles : FileMap)
    (localPath remotePath : String) (info : RemoteFileInfo) : FileM Unit :=
  match remoteFiles.lookup remotePath with
  | some ri =>
    if ri.size = info.size && (!o.useChecksum && ri.mtime = info.mtime) then pure ()
    else if ri.size = info.size then do
      let localData ← propagate (fsRead localPath)
      let remoteData ← propagate (read remotePath)
      if localData = remoteData then pure ()
      else
        let sig ← propagate (ofResult (copia.signature remoteData))
        let delta ← propagate (ofResult (copia.delta localData sig))
        if deltaSize copia delta < localData.length then
          -- this branch does not look at `dry_run`
          let output ← propagate (ofResult (copia.patch remoteData delta))
          atomicWriteRemote remotePath output
          preserveMode remotePath info.mode
        else uploadWhole o localPath remotePath info
    else uploadWhole o localPath remotePath info
  | none => uploadWhole o localPath remotePath info

/-- The upload loop's body. -/
def uploadFile (copia : Copia) (o : RsyncOpts) (localPrefix remotePrefix : String)
    (remoteFiles : FileMap) (localPath : String) (info : RemoteFileInfo) : FileM Unit :=
  let rel := relPath localPrefix localPath
  if isExcluded o rel localPath then pure ()
  else uploadIfChanged copia o remoteFiles localPath (remotePrefix ++ "/" ++ rel) info

/-- The body of the delete pass. -/
def deleteFile (o : RsyncOpts) (localPrefix remotePrefix : String) (localFiles : FileMap)
    (remotePath : String) : FileM Unit :=
  let rel := relPath remotePrefix remotePath
  let localPath := localPrefix ++ "/" ++ rel
  if (localFiles.lookup localPath).isSome then pure ()
  else if o.dryRun then pure ()
  else ignore (removeFile remotePath)

def rsyncUpload (copia : Copia) (localOrder remoteOrder : IterOrder) (fuel : Nat)
    (localRoot remoteRoot : String) (opts : List String) : FileM Unit := do
  let o := parseRsyncOpts opts
  ignore (createDir remoteRoot)
  let localFiles ← listLocalFiles fuel localRoot
  let remoteFiles ← listRemoteFiles fuel remoteRoot
  let localPrefix := trimEndSlash localRoot
  let remotePrefix := trimEndSlash remoteRoot
  forM (localOrder.order localFiles.items) fun (localPath, info) =>
    uploadFile copia o localPrefix remotePrefix remoteFiles localPath info
  if o.deleteExtra then
    forM (remoteOrder.order remoteFiles.items) fun (remotePath, _) =>
      deleteFile o localPrefix remotePrefix localFiles remotePath

/-! ## Options and relative paths -/

theorem stripPrefix_append (pre s : String) : stripPrefix pre (pre ++ s) = some s :=
  Text.stripPrefix_append pre s

theorem stripPrefix_eq_some {pre s t : String} (h : stripPrefix pre s = some t) :
    s = pre ++ t :=
  Text.stripPrefix_eq_some_iff.mp h

/-- What the option loop collects, as a whole. -/
theorem parseRsyncOpts_eq (opts : List String) : parseRsyncOpts opts =
    { deleteExtra := decide ("delete" ∈ opts)
      dryRun := decide ("dry-run" ∈ opts ∨ "dry_run" ∈ opts)
      useChecksum := decide ("checksum" ∈ opts)
      excludes := opts.filterMap (stripPrefix "exclude=") } := by
  induction opts using List.reverseRecOn with
  | nil => rfl
  | append_singleton opts opt ih =>
    have hfold : parseRsyncOpts (opts ++ [opt]) = (parseRsyncOpts opts).add opt := by
      simp [parseRsyncOpts]
    rw [hfold, ih, RsyncOpts.add]
    by_cases hdelete : opt = "delete"
    · simp [hdelete, show stripPrefix "exclude=" "delete" = none by decide]
    by_cases hdry : opt = "dry-run" ∨ opt = "dry_run"
    · rcases hdry with rfl | rfl
      · simp [show stripPrefix "exclude=" "dry-run" = none by decide]
      · simp [show stripPrefix "exclude=" "dry_run" = none by decide]
    rw [not_or] at hdry
    by_cases hchecksum : opt = "checksum"
    · simp [hchecksum, show stripPrefix "exclude=" "checksum" = none by decide]
    -- any other option is an exclude, or is ignored
    have hne : ∀ {s : String}, ¬ opt = s → ¬ s = opt := fun h => fun e => h e.symm
    rcases hpat : stripPrefix "exclude=" opt with _ | pat
    · simp [hdelete, hdry, hchecksum, hpat, hne hdelete, hne hdry.1, hne hdry.2, hne hchecksum]
    · simp [hdelete, hdry, hchecksum, hpat, hne hdelete, hne hdry.1, hne hdry.2, hne hchecksum]

theorem exclude_not_mem {opts : List String}
    (h : opts.filterMap (stripPrefix "exclude=") = []) (pat : String) :
    "exclude=" ++ pat ∉ opts := by
  intro hmem
  have hnone := List.filterMap_eq_nil_iff.mp h _ hmem
  rw [stripPrefix_append] at hnone
  cases hnone

theorem parseRsyncOpts_excludes_eq_nil {opts : List String}
    (h : ∀ pat, "exclude=" ++ pat ∉ opts) : (parseRsyncOpts opts).excludes = [] := by
  rw [parseRsyncOpts_eq, List.filterMap_eq_nil_iff]
  intro opt hopt
  rcases hpat : stripPrefix "exclude=" opt with _ | pat
  · rfl
  · exact absurd (stripPrefix_eq_some hpat ▸ hopt) (h pat)

/-- A listed path gives back the path relative to its root. -/
theorem relPath_below (root : String) {names : List FileName} (hne : names ≠ []) :
    relPath (trimEndSlash root) (below root names) = rel names := by
  have hslash : trimEndSlash root ++ "/" ++ rel names = trimEndSlash root ++ ("/" ++ rel names) :=
    String.append_assoc ..
  rw [relPath, below_eq root hne, hslash, stripPrefix_append, Option.getD_some,
    stripPrefix_append, Option.getD_some]

/-- The loop body on a listed path: the remote path is the same names below the remote root. -/
theorem uploadFile_below (copia : Copia) (o : RsyncOpts) (localRoot remoteRoot : String)
    (remoteFiles : FileMap) {names : List FileName} (hne : names ≠ []) (info : RemoteFileInfo) :
    uploadFile copia o (trimEndSlash localRoot) (trimEndSlash remoteRoot) remoteFiles
        (below localRoot names) info =
      if isExcluded o (rel names) (below localRoot names) then pure ()
      else uploadIfChanged copia o remoteFiles (below localRoot names) (below remoteRoot names)
        info := by
  rw [uploadFile, relPath_below localRoot hne, ← below_eq remoteRoot hne]

theorem deleteFile_below (o : RsyncOpts) (localRoot remoteRoot : String) (localFiles : FileMap)
    {names : List FileName} (hne : names ≠ []) :
    deleteFile o (trimEndSlash localRoot) (trimEndSlash remoteRoot) localFiles
        (below remoteRoot names) =
      if (localFiles.lookup (below localRoot names)).isSome then pure ()
      else if o.dryRun then pure ()
      else ignore (removeFile (below remoteRoot names)) := by
  rw [deleteFile, relPath_below remoteRoot hne, ← below_eq localRoot hne]

/-! ## One file -/

section Upload

variable {env : Env} {w w' : World}

/-- Keeping the mode never fails, and changes at most the permission bits of the file. -/
theorem exec_preserveMode (env : Env) {w : World} {path : String} {f : File} (mode : Option UInt32)
    (hf : w.remote.get (env.remoteLoc path) = some (.file f)) :
    ∃ w' perm, exec (step env) (preserveMode path mode) w = (.ok (), w') ∧ w'.disk = w.disk ∧
      ∀ x, w'.remote.get x =
        if x = env.remoteLoc path then some (.file { f with perm := perm })
        else w.remote.get x := by
  have hunchanged : ∀ x, w.remote.get x =
      if x = env.remoteLoc path then some (.file { f with perm := f.perm })
      else w.remote.get x := by
    intro x
    split
    · next hx => rw [hx, hf]
    · rfl
  rcases mode with _ | m
  · exact ⟨w, f.perm, rfl, rfl, hunchanged⟩
  · rw [preserveMode, exec_ignore, setRemoteMode]
    rcases hstat : exec (step env) (metadata path) w with ⟨e | cur, w₁⟩
    · have hw₁ : w.next = w₁ := (Env.onRemote_world env w _).symm.trans (congrArg Prod.snd hstat)
      rw [exec_bind_error (by rw [exec_withContext, hstat]; rfl)]
      exact ⟨w₁, f.perm, rfl, hw₁ ▸ rfl, hw₁ ▸ hunchanged⟩
    · -- the stat succeeded, and whatever `setMetadata` answers is passed over
      have hw₁ : w.next = w₁ := (Env.onRemote_world env w _).symm.trans (congrArg Prod.snd hstat)
      rw [exec_bind_ok (by rw [exec_withContext, hstat]; rfl), ← hw₁, exec_withContext]
      obtain ⟨r, w₂, perm, hset, hstep⟩ := exec_setMetadata env (w := w.next) hf
        ((cur.permissions.getD sIfreg &&& sIfmt) ||| (m &&& 0o7777))
      rw [hset]
      exact ⟨w₂, perm, rfl, hstep.disk, hstep.get⟩

/-- The file with this data is at `p`, and nothing else has changed on the server. -/
def Wrote (w w' : World) (p : Loc) (data : Bytes) : Prop :=
  w'.disk = w.disk ∧ ∃ g : File, g.content = data ∧
    ∀ x, w'.remote.get x = if x = p then some (.file g) else w.remote.get x

/-- An atomic write with the mode kept, if nothing fails and it returns `Ok`. -/
theorem exec_write_preserve_eq_ok (hok : env.NoFailure) {path : String} {data : Bytes}
    {mode : Option UInt32}
    (hrun : exec (step env) (do
      atomicWriteRemote path data
      preserveMode path mode) w = (.ok (), w')) :
    Wrote w w' (env.remoteLoc path) data := by
  obtain ⟨_, w₁, hwrite, hmode⟩ := exec_bind_eq_ok hrun
  obtain ⟨hdisk, f, hdata, hget⟩ := atomicWriteRemote_eq_ok_of_noFailure hok hwrite
  have hf : w₁.remote.get (env.remoteLoc path) = some (.file f) := by rw [hget, if_pos rfl]
  obtain ⟨w₂, perm, hexec, hdisk₂, hget₂⟩ := exec_preserveMode env mode hf
  rw [hexec] at hmode
  obtain rfl := (Prod.mk.inj hmode).2
  refine ⟨hdisk₂.trans hdisk, { f with perm := perm }, hdata, fun x => ?_⟩
  rw [hget₂, hget]
  split <;> rfl

/-- What the loop body relies on for one local file: where it is, and that the file is there. -/
structure Entry (env : Env) (w : World) (localRoot : String) (p : Loc) (names : List FileName)
    (f : File) : Prop where
  ne_nil : names ≠ []
  loc : env.diskLoc localRoot = some p
  file : w.disk.get (names.reverse ++ p) = some (.file f)

theorem Entry.congr {localRoot : String} {p : Loc} {names : List FileName} {f : File} {s : World}
    (hentry : Entry env w localRoot p names f) (hdisk : s.disk = w.disk) :
    Entry env s localRoot p names f := ⟨hentry.ne_nil, hentry.loc, hdisk ▸ hentry.file⟩

theorem Entry.content_eq {localRoot : String} {p : Loc} {names : List FileName} {f : File}
    {content : Bytes} (hentry : Entry env w localRoot p names f)
    (hread : exec (step env) (propagate (fsRead (below localRoot names))) w = (.ok content, w')) :
    content = f.content ∧ w' = w.next := by
  rw [exec_propagate_eq_ok] at hread
  obtain ⟨⟨q, g, hq, hg, rfl⟩, rfl⟩ := exec_fsRead_eq_ok hread
  rw [diskLoc_below hentry.loc] at hq
  obtain rfl := Option.some.inj hq
  rw [hentry.file] at hg
  cases hg
  exact ⟨rfl, rfl⟩

theorem exec_uploadWhole_eq_ok (hok : env.NoFailure) {o : RsyncOpts}
    {localRoot remotePath : String} {p : Loc} {names : List FileName} {f : File}
    {info : RemoteFileInfo} (hdry : o.dryRun = false)
    (hentry : Entry env w localRoot p names f)
    (hrun : exec (step env) (uploadWhole o (below localRoot names) remotePath info) w
      = (.ok (), w')) :
    Wrote w w' (env.remoteLoc remotePath) f.content := by
  rw [uploadWhole, hdry, if_neg (by decide)] at hrun
  obtain ⟨data, w₁, hread, hrun⟩ := exec_bind_eq_ok hrun
  obtain ⟨rfl, rfl⟩ := hentry.content_eq hread
  exact (exec_write_preserve_eq_ok hok hrun : Wrote w.next w' _ _)

/-- The files have the same size and time, and that is all that is looked at. -/
def QuickCheck (o : RsyncOpts) (info ri : RemoteFileInfo) : Prop :=
  ri.size = info.size ∧ o.useChecksum = false ∧ ri.mtime = info.mtime

/-- One file that does not pass the quick check: whether it is found identical, patched or
replaced, a run without failures that returns `Ok` leaves the local content on the server. -/
theorem exec_uploadIfChanged_eq_ok (hok : env.NoFailure) {copia : Copia} {o : RsyncOpts}
    (hdry : o.dryRun = false) {localRoot remotePath : String} {remoteFiles : FileMap} {p : Loc}
    {names : List FileName} {f : File} {info : RemoteFileInfo}
    (hentry : Entry env w localRoot p names f)
    (hcheck : ∀ ri, remoteFiles.lookup remotePath = some ri →
      copia.Lawful ∧ ¬ QuickCheck o info ri)
    (hrun : exec (step env) (uploadIfChanged copia o remoteFiles (below localRoot names) remotePath
      info) w = (.ok (), w')) :
    Wrote w w' (env.remoteLoc remotePath) f.content := by
  unfold uploadIfChanged at hrun
  split at hrun
  case h_2 => exact exec_uploadWhole_eq_ok hok hdry hentry hrun
  next ri hri =>
  obtain ⟨hcopia, hquick⟩ := hcheck ri hri
  rw [if_neg (by simpa [QuickCheck] using hquick)] at hrun
  split at hrun
  case isFalse => exact exec_uploadWhole_eq_ok hok hdry hentry hrun
  -- the sizes agree, so the contents are compared
  obtain ⟨localData, w₁, hlocal, hrun⟩ := exec_bind_eq_ok hrun
  obtain ⟨rfl, rfl⟩ := hentry.content_eq hlocal
  obtain ⟨remoteData, w₂, hremote, hrun⟩ := exec_bind_eq_ok hrun
  rw [exec_propagate_eq_ok] at hremote
  obtain ⟨⟨g, hg, rfl⟩, rfl⟩ := exec_read_eq_ok hremote
  rw [World.next_remote] at hg
  split at hrun
  · next heq =>
    cases hrun
    refine ⟨rfl, g, heq.symm, fun x => ?_⟩
    split
    · next hx => rw [hx]; exact hg
    · rfl
  · obtain ⟨sig, w₃, hsig, hrun⟩ := exec_bind_eq_ok hrun
    rw [exec_propagate_eq_ok, exec_ofResult] at hsig
    obtain ⟨delta, w₄, hdelta, hrun⟩ := exec_bind_eq_ok hrun
    rw [exec_propagate_eq_ok, exec_ofResult] at hdelta
    obtain ⟨hsigOk, rfl⟩ := Prod.mk.inj hsig
    obtain ⟨hdeltaOk, rfl⟩ := Prod.mk.inj hdelta
    split at hrun
    · obtain ⟨output, w₅, hpatch, hrun⟩ := exec_bind_eq_ok hrun
      rw [exec_propagate_eq_ok, exec_ofResult] at hpatch
      obtain ⟨hpatchOk, rfl⟩ := Prod.mk.inj hpatch
      obtain ⟨sig', delta', hsig', hdelta', hlaw⟩ := hcopia.exists_delta g.content f.content
      obtain rfl := Except.ok.inj (hsigOk.symm.trans hsig')
      obtain rfl := Except.ok.inj (hdeltaOk.symm.trans hdelta')
      obtain rfl := Except.ok.inj (hpatchOk.symm.trans hlaw)
      exact (exec_write_preserve_eq_ok hok hrun : Wrote w.next.next w' _ _)
    · exact exec_uploadWhole_eq_ok (w := w.next.next) hok hdry
        ⟨hentry.ne_nil, hentry.loc, hentry.file⟩ hrun

end Upload

/-! ## The two loops -/

section Loops

variable {env : Env} {copia : Copia} {o : RsyncOpts} {localRoot remoteRoot : String} {p : Loc}
  {localFiles remoteFiles : FileMap} {w w' : World} {xs : List (String × RemoteFileInfo)}

/-- The path of a remote file listed below the root. -/
theorem remoteLoc_below (env : Env) (hremote : remoteRoot ≠ "") (names : List FileName) :
    env.remoteLoc (below remoteRoot names) = names.reverse ++ env.remoteLoc remoteRoot :=
  walk_below _ hremote names

/-- A local entry is a file of the tree that was listed. -/
theorem Lists.entry (hlists : Lists localInfo w.disk p localRoot (fun _ => True) localFiles)
    (hp : env.diskLoc localRoot = some p) (hdir : w.disk.get p = some .dir) {key : String}
    {i : RemoteFileInfo} (hkey : localFiles.lookup key = some i) :
    ∃ names f, key = below localRoot names ∧ i = localInfo f ∧ Entry env w localRoot p names f := by
  obtain ⟨names, f, rfl, hf, rfl⟩ := hlists.sound key i hkey
  refine ⟨names, f, rfl, rfl, ?_, hp, hf⟩
  rintro rfl
  simp [hdir] at hf

/-- The keys that a loop over a listing visits. -/
theorem mem_order_keys {files : FileMap} (ord : IterOrder) {key : String} :
    key ∈ (ord.order files.items).map Prod.fst ↔ (files.lookup key).isSome := by
  rw [List.mem_map, Option.isSome_iff_exists]
  constructor
  · rintro ⟨⟨k, i⟩, hmem, rfl⟩
    exact ⟨i, FileMap.mem_items.mp ((ord.perm _).mem_iff.mp hmem)⟩
  · rintro ⟨i, hi⟩
    exact ⟨(key, i), (ord.perm _).mem_iff.mpr (FileMap.mem_items.mpr hi), rfl⟩

/-- No key is visited twice. -/
theorem nodup_order_keys {files : FileMap} (ord : IterOrder) :
    ((ord.order files.items).map Prod.fst).Nodup := by
  refine ((ord.perm files.items).map Prod.fst).nodup_iff.mpr ?_
  have hkeys : files.items.map Prod.fst = files.keys := by
    simp [FileMap.items, AList.keys, List.keys, Function.comp_def]
  rw [hkeys]
  exact files.keys_nodup

/-- The rule for the upload loop: if a round that finds the two files as they were at the start
leaves `Done` on the server and changes nothing else, every file of the list is left with it, and
nothing else has changed. -/
theorem uploads_rule (Done : List FileName → File → Option File → Prop)
    (hp : env.diskLoc localRoot = some p) (hdir : w.disk.get p = some .dir)
    (hlists : Lists localInfo w.disk p localRoot (fun _ => True) localFiles)
    (hnodup : (xs.map Prod.fst).Nodup) (hxs : ∀ e ∈ xs, localFiles.lookup e.1 = some e.2)
    (hround : ∀ names f s s', Entry env s localRoot p names f →
      s.remote.get (names.reverse ++ env.remoteLoc remoteRoot)
        = w.remote.get (names.reverse ++ env.remoteLoc remoteRoot) →
      exec (step env) (uploadFile copia o (trimEndSlash localRoot) (trimEndSlash remoteRoot)
        remoteFiles (below localRoot names) (localInfo f)) s = (.ok (), s') →
      s'.disk = s.disk ∧
        Done names f (s'.remote.fileAt (names.reverse ++ env.remoteLoc remoteRoot)) ∧
        ∀ x, x ≠ names.reverse ++ env.remoteLoc remoteRoot → s'.remote.get x = s.remote.get x)
    (hrun : exec (step env) (forM xs fun (localPath, info) => uploadFile copia o
      (trimEndSlash localRoot) (trimEndSlash remoteRoot) remoteFiles localPath info) w
        = (.ok (), w')) :
    w'.disk = w.disk ∧
      (∀ names f, below localRoot names ∈ xs.map Prod.fst →
        w.disk.get (names.reverse ++ p) = some (.file f) →
        Done names f (w'.remote.fileAt (names.reverse ++ env.remoteLoc remoteRoot))) ∧
      ∀ x, (∀ names, below localRoot names ∈ xs.map Prod.fst →
        x ≠ names.reverse ++ env.remoteLoc remoteRoot) → w'.remote.get x = w.remote.get x := by
  have hroot : localRoot ≠ "" := Env.ne_empty_of_diskLoc hp
  refine exec_forM_eq_ok (I := fun done s => s.disk = w.disk ∧
      (∀ names f, below localRoot names ∈ done.map Prod.fst →
        w.disk.get (names.reverse ++ p) = some (.file f) →
        Done names f (s.remote.fileAt (names.reverse ++ env.remoteLoc remoteRoot))) ∧
      ∀ x, (∀ names, below localRoot names ∈ done.map Prod.fst →
        x ≠ names.reverse ++ env.remoteLoc remoteRoot) → s.remote.get x = w.remote.get x)
    ?_ ⟨rfl, by simp, fun _ _ => rfl⟩ hrun
  rintro done ⟨key, i⟩ rest s s' hsplit ⟨hdisk, hdone, hother⟩ hexec
  obtain ⟨names, f, rfl, rfl, hentry⟩ := hlists.entry hp hdir (hxs (key, i) (hsplit ▸ by simp))
  have hlast : ∀ {names'}, below localRoot names' ∈
      (done ++ [(below localRoot names, localInfo f)]).map Prod.fst →
      below localRoot names' ∈ done.map Prod.fst ∨ names' = names := by
    intro names' hmem
    rw [List.map_append, List.mem_append] at hmem
    exact hmem.imp_right fun h => below_injective hroot (List.mem_singleton.mp h)
  have hearlier : ∀ {names'}, below localRoot names' ∈ done.map Prod.fst →
      below localRoot names' ∈ (done ++ [(below localRoot names, localInfo f)]).map Prod.fst := by
    intro names' hmem
    rw [List.map_append]
    exact List.mem_append_left _ hmem
  -- the entry has not been visited before, so its remote file is the one that was listed
  have hfirst : below localRoot names ∉ done.map Prod.fst := by
    rw [hsplit, List.map_append, List.map_cons] at hnodup
    exact fun hmem => (List.nodup_append.mp hnodup).2.2 _ hmem _ List.mem_cons_self rfl
  have hloc : ∀ names', below localRoot names' ∈ done.map Prod.fst →
      names.reverse ++ env.remoteLoc remoteRoot ≠ names'.reverse ++ env.remoteLoc remoteRoot := by
    intro names' hmem heq
    obtain rfl := List.reverse_injective (List.append_cancel_right heq)
    exact hfirst hmem
  obtain ⟨hdisk', hnow, hget⟩ := hround names f s s' ⟨hentry.ne_nil, hp, hdisk ▸ hentry.file⟩
    (hother _ hloc) hexec
  refine ⟨hdisk'.trans hdisk, fun names' f' hmem hf' => ?_, fun x hx => ?_⟩
  · rcases hlast hmem with hmem | rfl
    · rw [FileTree.fileAt_congr (hget _ (hloc names' hmem).symm)]
      exact hdone names' f' hmem hf'
    · -- the file of this round
      rw [hentry.file] at hf'
      cases hf'
      exact hnow
  · rw [hget x (hx names (by simp))]
    exact hother x fun names' hmem => hx names' (hearlier hmem)

/-- The upload loop over a listing. -/
theorem uploadPass_rule (Done : List FileName → File → Option File → Prop)
    (localOrder : IterOrder)
    (hp : env.diskLoc localRoot = some p) (hdir : w.disk.get p = some .dir)
    (hlists : Lists localInfo w.disk p localRoot (fun _ => True) localFiles)
    (hround : ∀ names f s s', Entry env s localRoot p names f →
      s.remote.get (names.reverse ++ env.remoteLoc remoteRoot)
        = w.remote.get (names.reverse ++ env.remoteLoc remoteRoot) →
      exec (step env) (uploadFile copia o (trimEndSlash localRoot) (trimEndSlash remoteRoot)
        remoteFiles (below localRoot names) (localInfo f)) s = (.ok (), s') →
      s'.disk = s.disk ∧
        Done names f (s'.remote.fileAt (names.reverse ++ env.remoteLoc remoteRoot)) ∧
        ∀ x, x ≠ names.reverse ++ env.remoteLoc remoteRoot → s'.remote.get x = s.remote.get x)
    (hrun : exec (step env) (forM (localOrder.order localFiles.items) fun (localPath, info) =>
      uploadFile copia o (trimEndSlash localRoot) (trimEndSlash remoteRoot) remoteFiles localPath
        info) w = (.ok (), w')) :
    w'.disk = w.disk ∧
      (∀ (names : List FileName) f, w.disk.get (names.reverse ++ p) = some (.file f) →
        Done names f (w'.remote.fileAt (names.reverse ++ env.remoteLoc remoteRoot))) ∧
      ∀ x, (∀ names : List FileName, (w.disk.fileAt (names.reverse ++ p)).isSome →
        x ≠ names.reverse ++ env.remoteLoc remoteRoot) → w'.remote.get x = w.remote.get x := by
  have hroot : localRoot ≠ "" := Env.ne_empty_of_diskLoc hp
  -- the local entries are the local files
  have hkeys : ∀ names, below localRoot names ∈ (localOrder.order localFiles.items).map Prod.fst ↔
      (w.disk.fileAt (names.reverse ++ p)).isSome := by
    intro names
    rw [mem_order_keys, hlists.lookup_below hroot, Option.isSome_map]
  obtain ⟨hdisk, hdone, hother⟩ := uploads_rule Done hp hdir hlists (nodup_order_keys localOrder)
    (fun e he => mem_order_lookup localOrder he) hround hrun
  refine ⟨hdisk, fun names f hf => hdone names f ((hkeys names).mpr ?_) hf,
    fun x hx => hother x fun names hmem => hx names ((hkeys names).mp hmem)⟩
  rw [FileTree.fileAt_eq_some_iff.mpr hf]
  rfl

/-- The upload loop leaves each file that is not excluded with what a round on it leaves. -/
theorem uploadPass_sends (Sent : File → File → Prop) (localOrder : IterOrder)
    (hp : env.diskLoc localRoot = some p) (hdir : w.disk.get p = some .dir)
    (hlists : Lists localInfo w.disk p localRoot (fun _ => True) localFiles)
    (hround : ∀ names f s s', Entry env s localRoot p names f →
      s.remote.get (names.reverse ++ env.remoteLoc remoteRoot)
        = w.remote.get (names.reverse ++ env.remoteLoc remoteRoot) →
      exec (step env) (uploadIfChanged copia o remoteFiles (below localRoot names)
        (below remoteRoot names) (localInfo f)) s = (.ok (), s') →
      s'.disk = s.disk ∧ ∃ g, Sent f g ∧ ∀ x, s'.remote.get x =
        if x = names.reverse ++ env.remoteLoc remoteRoot then some (.file g) else s.remote.get x)
    (hrun : exec (step env) (forM (localOrder.order localFiles.items) fun (localPath, info) =>
      uploadFile copia o (trimEndSlash localRoot) (trimEndSlash remoteRoot) remoteFiles localPath
        info) w = (.ok (), w')) :
    w'.disk = w.disk ∧
      (∀ (names : List FileName) f, w.disk.get (names.reverse ++ p) = some (.file f) →
        isExcluded o (rel names) (below localRoot names) = false → ∃ g, Sent f g ∧
          w'.remote.get (names.reverse ++ env.remoteLoc remoteRoot) = some (.file g)) ∧
      ∀ x, (∀ names : List FileName, (w.disk.fileAt (names.reverse ++ p)).isSome →
        x ≠ names.reverse ++ env.remoteLoc remoteRoot) → w'.remote.get x = w.remote.get x := by
  have hpass := uploadPass_rule (fun names f after => isExcluded o (rel names)
    (below localRoot names) = false → ∃ g, Sent f g ∧ after = some g) localOrder hp hdir hlists ?_
      hrun
  · obtain ⟨hdisk, hdone, hother⟩ := hpass
    refine ⟨hdisk, fun names f hf hkept => ?_, hother⟩
    obtain ⟨g, hsent, hg⟩ := hdone names f hf hkept
    exact ⟨g, hsent, FileTree.fileAt_eq_some_iff.mp hg⟩
  intro names f s s' hentry hsame hexec
  rw [uploadFile_below _ _ _ _ _ hentry.ne_nil] at hexec
  split at hexec
  -- an excluded file is passed over
  · next hexcluded =>
    cases hexec
    refine ⟨rfl, fun hkept => ?_, fun _ _ => rfl⟩
    rw [hexcluded] at hkept
    cases hkept
  · obtain ⟨hdisk, g, hsent, hget⟩ := hround names f s s' hentry hsame hexec
    refine ⟨hdisk, fun _ => ⟨g, hsent, FileTree.fileAt_eq_some_iff.mpr ?_⟩, fun x hx => ?_⟩
    · rw [hget, if_pos rfl]
    · rw [hget, if_neg hx]

/-- The upload loop without excludes: every local file is on the server, and nothing else has
changed. -/
theorem uploadPass_eq_ok (hok : env.NoFailure) (localOrder : IterOrder) (hremote : remoteRoot ≠ "")
    (hp : env.diskLoc localRoot = some p) (hdir : w.disk.get p = some .dir)
    (hlists : Lists localInfo w.disk p localRoot (fun _ => True) localFiles)
    (hdry : o.dryRun = false) (hexcludes : o.excludes = [])
    (hcheck : (o.useChecksum = true ∧ copia.Lawful) ∨
      ∀ names, names ≠ [] → remoteFiles.lookup (below remoteRoot names) = none)
    (hrun : exec (step env) (forM (localOrder.order localFiles.items) fun (localPath, info) =>
      uploadFile copia o (trimEndSlash localRoot) (trimEndSlash remoteRoot) remoteFiles localPath
        info) w = (.ok (), w')) :
    w'.disk = w.disk ∧
      (∀ (names : List FileName) f, w.disk.get (names.reverse ++ p) = some (.file f) →
        ∃ g : File, g.content = f.content ∧
          w'.remote.get (names.reverse ++ env.remoteLoc remoteRoot) = some (.file g)) ∧
      ∀ x, (∀ names : List FileName, (w.disk.fileAt (names.reverse ++ p)).isSome →
        x ≠ names.reverse ++ env.remoteLoc remoteRoot) → w'.remote.get x = w.remote.get x := by
  have hloop := uploadPass_sends (fun f g => g.content = f.content) localOrder hp hdir hlists ?_
    hrun
  · exact ⟨hloop.1, fun names f hf => hloop.2.1 names f hf (by simp [isExcluded, hexcludes]),
      hloop.2.2⟩
  · intro names f s s' hentry _ hexec
    rw [← remoteLoc_below env hremote]
    refine exec_uploadIfChanged_eq_ok hok hdry hentry (fun ri hri => ?_) hexec
    -- a listed file is compared by checksum, so that what is skipped holds the same
    obtain ⟨hchecksum, hcopia⟩ := hcheck.resolve_right fun h => by
      rw [h names hentry.ne_nil] at hri
      cases hri
    exact ⟨hcopia, fun hquick => by simp [hquick.2.1] at hchecksum⟩

/-- The delete loop: the files of the list that the local side does not have are gone, and
nothing else has changed. -/
theorem deletes_eq_ok (hok : env.NoFailure) (hremote : remoteRoot ≠ "") (hdry : o.dryRun = false)
    (hxs : ∀ e ∈ xs, ∃ names, names ≠ [] ∧ e.1 = below remoteRoot names)
    (hrun : exec (step env) (forM xs fun (remotePath, _) => deleteFile o (trimEndSlash localRoot)
      (trimEndSlash remoteRoot) localFiles remotePath) w = (.ok (), w')) :
    w'.disk = w.disk ∧
      (∀ names, below remoteRoot names ∈ xs.map Prod.fst →
        localFiles.lookup (below localRoot names) = none →
          w'.remote.fileAt (names.reverse ++ env.remoteLoc remoteRoot) = none) ∧
      ∀ x, (∀ names, below remoteRoot names ∈ xs.map Prod.fst →
        localFiles.lookup (below localRoot names) = none →
          x ≠ names.reverse ++ env.remoteLoc remoteRoot) → w'.remote.get x = w.remote.get x := by
  refine exec_forM_eq_ok (I := fun done w₁ => w₁.disk = w.disk ∧
      (∀ names, below remoteRoot names ∈ done.map Prod.fst →
        localFiles.lookup (below localRoot names) = none →
          w₁.remote.fileAt (names.reverse ++ env.remoteLoc remoteRoot) = none) ∧
      ∀ x, (∀ names, below remoteRoot names ∈ done.map Prod.fst →
        localFiles.lookup (below localRoot names) = none →
          x ≠ names.reverse ++ env.remoteLoc remoteRoot) → w₁.remote.get x = w.remote.get x)
    ?_ ⟨rfl, by simp, fun _ _ => rfl⟩ hrun
  rintro done ⟨key, i⟩ rest s s' hsplit ⟨hdisk, hgone, hother⟩ hround
  obtain ⟨names, hne, hkey⟩ := hxs (key, i) (hsplit ▸ by simp)
  obtain rfl : key = below remoteRoot names := hkey
  have hround : exec (step env) (deleteFile o (trimEndSlash localRoot) (trimEndSlash remoteRoot)
      localFiles (below remoteRoot names)) s = (.ok (), s') := hround
  rw [deleteFile_below _ _ _ _ hne] at hround
  have hlast : ∀ {names'}, below remoteRoot names' ∈
      (done ++ [(below remoteRoot names, i)]).map Prod.fst →
      below remoteRoot names' ∈ done.map Prod.fst ∨ names' = names := by
    intro names' hmem
    rw [List.map_append, List.mem_append] at hmem
    exact hmem.imp_right fun h => below_injective hremote (List.mem_singleton.mp h)
  split at hround
  · next hlocal =>
    -- the local side has it
    cases hround
    refine ⟨hdisk, fun names' hmem hnone => ?_, fun x hx => hother x fun names' hmem =>
      hx names' (by rw [List.map_append]; exact List.mem_append_left _ hmem)⟩
    rcases hlast hmem with hmem | rfl
    · exact hgone names' hmem hnone
    · simp [hnone] at hlocal
  · next hlocal =>
    rw [hdry, if_neg (by decide), exec_ignore] at hround
    obtain rfl := (Prod.mk.inj hround).2
    have hstep := exec_removeFile env s (below remoteRoot names)
    rw [remoteLoc_below env hremote] at hstep
    refine ⟨hstep.disk.trans hdisk, fun names' hmem hnone => ?_, fun x hx => ?_⟩
    · -- the call removes a file if one is there, and never makes one
      have hfile : ∀ x, (exec (step env) (removeFile (below remoteRoot names)) s).2.remote.fileAt x
          = if x = names.reverse ++ env.remoteLoc remoteRoot then none
            else s.remote.fileAt x := by
        intro x
        unfold FileTree.fileAt
        rw [hstep.get]
        by_cases hx : x = names.reverse ++ env.remoteLoc remoteRoot
        · rw [if_pos hx]
          rcases hget : s.remote.get x with _ | ⟨g | _⟩
          · simp
          · simp [FileTree.fileAt, ← hx, hget, hok s.tick]
          · simp [FileTree.fileAt, ← hx, hget]
        · simp [hx]
      rw [hfile]
      split
      · rfl
      · next hne' =>
        refine hgone names' ((hlast hmem).resolve_right fun h => hne' (by rw [h])) hnone
    · have hnone : localFiles.lookup (below localRoot names) = none := by simpa using hlocal
      rw [hstep.get, if_neg fun h => hx names (by simp) hnone h.1]
      exact hother x fun names' hmem => hx names' (by
        rw [List.map_append]
        exact List.mem_append_left _ hmem)

/-- The delete pass: the listed files that the local side does not have are gone, and nothing else
has changed. Without `delete` there is no such pass. -/
theorem deletePass_eq_ok {t d : Tree} {w₂ : World} (remoteOrder : IterOrder) (hok : env.NoFailure)
    (hremote : remoteRoot ≠ "") (hroot : localRoot ≠ "") (hdry : o.dryRun = false)
    (hrdir : t.get (env.remoteLoc remoteRoot) = some .dir)
    (hlists : Lists localInfo d p localRoot (fun _ => True) localFiles)
    (hrlists : Lists remoteInfo t (env.remoteLoc remoteRoot) remoteRoot (fun _ => True) remoteFiles)
    (hrun : if o.deleteExtra then
        exec (step env) (forM (remoteOrder.order remoteFiles.items) fun (remotePath, _) =>
          deleteFile o (trimEndSlash localRoot) (trimEndSlash remoteRoot) localFiles remotePath) w₂
            = (.ok (), w')
      else w' = w₂) :
    w'.disk = w₂.disk ∧
      (o.deleteExtra = true → ∀ names : List FileName,
        (t.fileAt (names.reverse ++ env.remoteLoc remoteRoot)).isSome →
        d.fileAt (names.reverse ++ p) = none →
          w'.remote.fileAt (names.reverse ++ env.remoteLoc remoteRoot) = none) ∧
      ∀ x, (o.deleteExtra = true → ∀ names : List FileName,
        (t.fileAt (names.reverse ++ env.remoteLoc remoteRoot)).isSome →
        d.fileAt (names.reverse ++ p) = none →
          x ≠ names.reverse ++ env.remoteLoc remoteRoot) → w'.remote.get x = w₂.remote.get x := by
  split at hrun
  swap
  · next hdelete =>
    subst hrun
    exact ⟨rfl, fun h => absurd h hdelete, fun _ _ => rfl⟩
  next hdelete =>
  -- the loop's keys and lookups say the same as the two trees
  have hkeys : ∀ names, below remoteRoot names ∈
      (remoteOrder.order remoteFiles.items).map Prod.fst ↔
        (t.fileAt (names.reverse ++ env.remoteLoc remoteRoot)).isSome := by
    intro names
    rw [mem_order_keys, hrlists.lookup_below hremote, Option.isSome_map]
  have hlookup : ∀ names, localFiles.lookup (below localRoot names) = none ↔
      d.fileAt (names.reverse ++ p) = none := by
    intro names
    rw [hlists.lookup_below hroot, Option.map_eq_none_iff]
  obtain ⟨hdisk, hgone, hother⟩ := deletes_eq_ok hok hremote hdry
    (hrlists.key_below hrdir remoteOrder) hrun
  exact ⟨hdisk,
    fun _ names hlist hnone => hgone names ((hkeys names).mpr hlist) ((hlookup names).mpr hnone),
    fun x hx => hother x fun names hlist hnone =>
      hx hdelete names ((hkeys names).mp hlist) ((hlookup names).mp hnone)⟩

/-- Without failures, and with enough fuel, both listings return, and they are right. -/
theorem listings_ok (hok : env.NoFailure) (hp : env.diskLoc localRoot = some p)
    (hdir : w.disk.get p = some .dir) (hremote : remoteRoot ≠ "")
    (hrdir : w.remote.get (env.remoteLoc remoteRoot) = some .dir) :
    ∃ enough, ∀ fuel, enough ≤ fuel → ∃ localFiles remoteFiles w₁ w₂,
      exec (step env) (listLocalFiles fuel localRoot)
        (exec (step env) (createDir remoteRoot) w).2 = (.ok localFiles, w₁) ∧
      exec (step env) (listRemoteFiles fuel remoteRoot) w₁ = (.ok remoteFiles, w₂) ∧
      SameTrees w w₂ ∧ Lists localInfo w₂.disk p localRoot (fun _ => True) localFiles ∧
      Lists remoteInfo w₂.remote (env.remoteLoc remoteRoot) remoteRoot (fun _ => True)
        remoteFiles := by
  obtain ⟨rounds, hlocal⟩ := listLocalFiles_ok hok hp hdir
  obtain ⟨depth, hdepth⟩ := FileTree.exists_depth w.remote
  refine ⟨max rounds (depth + 1), fun fuel hfuel => ?_⟩
  -- the root exists already, so creating it changes nothing
  obtain ⟨hdisk₀, -, hremote₀⟩ := exec_createDir env w remoteRoot
  have hsame₀ : SameTrees w (exec (step env) (createDir remoteRoot) w).2 :=
    ⟨hremote₀ (by simp [hrdir]), hdisk₀⟩
  obtain ⟨localFiles, w₁, hlocal⟩ := hlocal fuel (le_of_max_le_left hfuel) _ hdisk₀
  obtain ⟨p', hp', -, hsame₁, hlists⟩ := listLocalFiles_lists hlocal
  obtain rfl : p' = p := Option.some.inj (hp'.symm.trans hp)
  obtain ⟨remoteFiles, w₂, hlist, hsame₂⟩ := listRemoteFiles_ok hok hdepth fuel
    (hsame₀.trans hsame₁).remote hremote hrdir (by omega)
  obtain ⟨-, -, hrlists⟩ := listRemoteFiles_lists hremote hlist
  have hsame := hsame₁.trans hsame₂
  exact ⟨localFiles, remoteFiles, w₁, w₂, hlocal, hlist, hsame₀.trans hsame,
    hsame.disk ▸ hlists, hsame₂.remote ▸ hrlists⟩

end Loops

end Passhrs
