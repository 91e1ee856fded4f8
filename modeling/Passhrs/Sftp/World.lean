import Passhrs.Lib.Bytes
import Passhrs.Lib.Program
import Passhrs.Lib.SlashPath
import Passhrs.Lib.FileTree

/-!
# The file systems behind the SFTP code

`sftp.rs` talks to two file systems: the server's, through an SFTP session, and the local one,
through `tokio::fs`. This module fixes the operations it uses on them (`FileOp`, with the answer
type of each), what each operation does to a pair of file trees (`step`), and the fallible
programs built from them (`FileM`).

Everything the code cannot control is a field of `Env`, and every theorem quantifies over it:
which operations fail (`fault`, by position in the run), the hash that `random_tmp_suffix` mixes
from the clock and a counter, the server's clock and default mode, whether its `rename` replaces
an existing target, and the two working directories. A failed operation has no effect, except
for a `write_all`. On both sides it may fail after some bytes, or return `Ok` while writes are still
in flight and going to fail: tokio hands the last chunk to another thread, and russh-sftp sends its
WRITE requests without waiting for the answers, so that the server may refuse some of them and grant
others behind. That error is reported by the next `flush` (or, on the server's side, `close`) and by
nothing else.

Paths contain no symbolic links and names are UTF-8, so `to_string_lossy` is the identity and a
path denotes what it denotes lexically (`SlashPath.walk`).
-/

namespace Passhrs

open Effects SlashPath

/-! ## Files and answers -/

/-- A regular file. `perm` holds the low twelve mode bits, `mtime` seconds since the epoch, and
`ino` tells two files apart that were created at the same path at different times. -/
structure File where
  content : Bytes
  perm : UInt32
  mtime : Nat
  ino : Nat
deriving DecidableEq

abbrev Tree : Type := FileTree FileName File

/-- What an operation can fail with. `outOfFuel` is the model's own: the bound on a recursion
that the code does not bound. -/
inductive IoError where
  | noSuchFile
  | alreadyExists
  | notADirectory
  | isADirectory
  | failure
  | outOfFuel
deriving DecidableEq

/-- An `anyhow` error: the failing operation's error under the messages added on the way up,
outermost first. -/
structure Error where
  context : List String
  source : IoError
deriving DecidableEq

/-- `S_IFMT`, `S_IFREG` and `S_IFDIR`: the file-type bits of a mode. -/
def sIfmt : UInt32 := 0o170000
def sIfreg : UInt32 := 0o100000
def sIfdir : UInt32 := 0o040000

/-- The attributes of an SFTP `stat` answer or `setstat` request that the code reads or sets. -/
structure Metadata where
  size : Option Nat
  permissions : Option UInt32
  mtime : Option UInt32
deriving DecidableEq

def Metadata.isDir (m : Metadata) : Bool := m.permissions.getD 0 &&& sIfmt == sIfdir

/-- A local `std::fs::Metadata`. -/
structure LocalMetadata where
  isDir : Bool
  len : Nat
  modified : Nat
  mode : UInt32
deriving DecidableEq

/-- An open file: the location it was opened at and the file it was. -/
structure FileHandle where
  loc : Loc
  ino : Nat
deriving DecidableEq

/-! ## Operations -/

/-- The operations of `sftp.rs`: on the SFTP session, on the local file system (`fs…`), and the
hash behind a temporary suffix. -/
inductive FileOp where
  | metadata (path : String)
  | readDir (path : String)
  | createDir (path : String)
  | read (path : String)
  | openWithFlags (path : String)
  | writeAll (file : FileHandle) (data : Bytes)
  | flush (file : FileHandle)
  | syncAll (file : FileHandle)
  | close (file : FileHandle)
  | removeFile (path : String)
  | rename (oldPath newPath : String)
  | setMetadata (path : String) (attrs : Metadata)
  | fsMetadata (path : String)
  | fsReadDir (path : String)
  | fsNextEntry (dir : String)
  | fsFileType (dir name : String)
  | fsEntryMetadata (dir name : String)
  | fsRead (path : String)
  | fsOpenCreateNew (path : String)
  | fsWriteAll (file : FileHandle) (data : Bytes)
  | fsFlush (file : FileHandle)
  | fsSyncAll (file : FileHandle)
  | fsRename (oldPath newPath : String)
  | fsRemoveFile (path : String)
  | fsCreateDirAll (path : String)
  | fsSetPermissions (path : String) (mode : UInt32)
  | suffixHash
deriving DecidableEq

/-- The answer to an operation. `openWithFlags` is the only flag combination the code uses,
`CREATE | EXCLUDE | WRITE`. -/
abbrev FileOp.Res : FileOp → Type
  | .metadata _ => Except IoError Metadata
  | .readDir _ => Except IoError (List String)
  | .read _ => Except IoError Bytes
  | .openWithFlags _ => Except IoError FileHandle
  | .fsMetadata _ => Except IoError LocalMetadata
  | .fsReadDir _ => Except IoError (List String)
  | .fsFileType _ _ => Except IoError Bool
  | .fsEntryMetadata _ _ => Except IoError LocalMetadata
  | .fsRead _ => Except IoError Bytes
  | .fsOpenCreateNew _ => Except IoError FileHandle
  | .suffixHash => UInt64
  | _ => Except IoError Unit

/-! ## Environment and state -/

/-- How one operation goes wrong, if it does. `short` and `inFlight` matter to `write_all` only: it
stops after `k` bytes and says so, or says `Ok` and stops after `k` bytes. `refused` matters to the
`write_all` of the server's side only: it says `Ok`, and the bytes arrive that the list says. -/
inductive Fault where
  | none
  | fail
  | short (k : Nat)
  | inFlight (k : Nat)
  | refused (arrives : List Bool)
deriving DecidableEq

/-- What the fault is for a `write_all` of tokio, whose chunks go one after the other. -/
def Fault.onDisk : Fault → Fault
  | .refused _ => .fail
  | fault => fault

/-- What a file holds of the data of which these bytes arrive, each at its place. The server fills a
gap with zeros. -/
def arrived : List Bool → Bytes → Bytes
  | true :: arrives, b :: data => b :: arrived arrives data
  | false :: arrives, _ :: data =>
    if arrived arrives data = [] then [] else 0 :: arrived arrives data
  | _, _ => []

example : arrived [false, true, true, false] [1, 2, 3, 4] = [0, 2, 3] := rfl

/-- What the outside world decides. Functions of a `Nat` are indexed by the position of the
operation in the run. -/
structure Env where
  fault : Nat → Fault
  hash : Nat → UInt64
  clock : Nat → Nat
  home : Loc
  cwd : Loc
  renameReplaces : Bool
  newFileMode : UInt32
  dirMode : UInt32

/-- No operation of the run fails on its own account. -/
def Env.NoFailure (env : Env) : Prop := ∀ n, env.fault n = .none

/-- An environment in which nothing fails, and every hash is a new one for a while. -/
def Env.reliable : Env where
  fault _ := .none
  hash n := UInt64.ofNat n
  clock n := n
  home := []
  cwd := []
  renameReplaces := true
  newFileMode := 0o644
  dirMode := 0o755

structure World where
  /-- The server's file tree. -/
  remote : Tree
  /-- The local file tree. -/
  disk : Tree
  /-- Operations issued so far. -/
  tick : Nat
  /-- Open files whose in-flight write has failed without being reported. -/
  deferred : List Nat

/-- The state before the first operation. -/
def World.start (remote disk : Tree) : World := ⟨remote, disk, 0, []⟩

/-- The directory `/dir` with these files in it. -/
def Tree.dirWith (dir : FileName) (files : List (FileName × Bytes)) : Tree :=
  files.foldl (fun t (n, content) => t.setFile [n, dir] ⟨content, 0o644, 0, 0⟩)
    (FileTree.mkdir FileTree.empty [dir])

/-- The location of a path on the server, relative to the login directory. -/
def Env.remoteLoc (env : Env) (path : String) : Loc := walk env.home path

theorem Env.remoteLoc_congr {env env' : Env} (h : env'.home = env.home) :
    env'.remoteLoc = env.remoteLoc := by
  unfold remoteLoc
  rw [h]

/-- The location of a local path. The empty path denotes nothing. -/
def Env.diskLoc (env : Env) (path : String) : Option Loc :=
  if path = "" then none else some (walk env.cwd path)

/-- The empty path names nothing. -/
theorem Env.ne_empty_of_diskLoc {env : Env} {path : String} {p : Loc}
    (hp : env.diskLoc path = some p) : path ≠ "" := by
  rintro rfl
  cases hp

theorem Env.diskLoc_congr {env env' : Env} (h : env'.cwd = env.cwd) :
    env'.diskLoc = env.diskLoc := by
  unfold diskLoc
  rw [h]

/-- The state after an operation that changed no file. -/
def World.next (w : World) : World := { w with tick := w.tick + 1 }

/-- The operation at this position fails outright, or does `r`. -/
def Env.unlessFault (env : Env) (w : World) {α : Type} (r : Except IoError α × World) :
    Except IoError α × World :=
  match env.fault w.tick with
  | .none => r
  | _ => (.error .failure, w.next)

/-! ## File trees under operations

The functions below say what an operation does to one tree. They serve both sides. -/

def fileMetadata (f : File) : Metadata where
  size := some f.content.length
  permissions := some (sIfreg ||| (f.perm &&& 0o7777))
  mtime := some (UInt32.ofNat f.mtime)

def dirMetadata (mode : UInt32) : Metadata where
  size := none
  permissions := some (sIfdir ||| (mode &&& 0o7777))
  mtime := none

def Tree.stat (t : Tree) (dirMode : UInt32) (p : Loc) : Except IoError Metadata :=
  match t.get p with
  | none => .error .noSuchFile
  | some .dir => .ok (dirMetadata dirMode)
  | some (.file f) => .ok (fileMetadata f)

def Tree.list (t : Tree) (p : Loc) : Except IoError (List String) :=
  match t.get p with
  | none => .error .noSuchFile
  | some (.file _) => .error .notADirectory
  | some .dir => .ok ((t.children p).map FileName.str)

def Tree.contentAt (t : Tree) (p : Loc) : Except IoError Bytes :=
  match t.get p with
  | none => .error .noSuchFile
  | some .dir => .error .isADirectory
  | some (.file f) => .ok f.content

/-- Create an empty file where nothing is (`O_CREAT | O_EXCL`). -/
def Tree.createNew (t : Tree) (p : Loc) (perm : UInt32) (mtime ino : Nat) :
    Except IoError FileHandle × Tree :=
  match t.get p with
  | some _ => (.error .alreadyExists, t)
  | none =>
    if t.writable p then (.ok ⟨p, ino⟩, t.setFile p ⟨[], perm, mtime, ino⟩)
    else (.error .noSuchFile, t)

/-- Append to an open file. A file that is no longer linked where it was opened takes the bytes
along; the tree does not change. -/
def Tree.append (t : Tree) (h : FileHandle) (data : Bytes) (mtime : Nat) : Tree :=
  match t.fileAt h.loc with
  | some f => if f.ino = h.ino
      then t.setFile h.loc { f with content := f.content ++ data, mtime := mtime } else t
  | none => t

def Tree.unlink (t : Tree) (p : Loc) : Except IoError Unit × Tree :=
  match t.get p with
  | none => (.error .noSuchFile, t)
  | some .dir => (.error .isADirectory, t)
  | some (.file _) => (.ok (), t.removeFile p)

/-- Move a file. With `replaces`, an existing target file is replaced in the same step. -/
def Tree.move (t : Tree) (replaces : Bool) (p q : Loc) : Except IoError Unit × Tree :=
  match t.fileAt p with
  | none => (.error .noSuchFile, t)
  | some f =>
    if t.writable q && (replaces || (t.fileAt q).isNone) then
      (.ok (), (t.removeFile p).setFile q f)
    else (.error .failure, t)

def Tree.chmod (t : Tree) (p : Loc) (mode : UInt32) : Except IoError Unit × Tree :=
  match t.get p with
  | none => (.error .noSuchFile, t)
  | some .dir => (.ok (), t)
  | some (.file f) => (.ok (), t.setFile p { f with perm := mode &&& 0o7777 })

def Tree.makeDir (t : Tree) (p : Loc) : Except IoError Unit × Tree :=
  match t.get p, p with
  | none, n :: q => if t.isDir q then (.ok (), t.mkdir (n :: q)) else (.error .noSuchFile, t)
  | _, _ => (.error .failure, t)

/-- Create a directory and whatever ancestors are missing. -/
def Tree.makeDirAll (t : Tree) : Loc → Except IoError Unit × Tree
  | [] => (.ok (), t)
  | n :: p =>
    match Tree.makeDirAll t p with
    | (.error e, t') => (.error e, t')
    | (.ok (), t') =>
      match t'.get (n :: p) with
      | some .dir => (.ok (), t')
      | some (.file _) => (.error .alreadyExists, t')
      | none => (.ok (), t'.mkdir (n :: p))

def localMetadata (dirMode : UInt32) : Node File → LocalMetadata
  | .dir => ⟨true, 0, 0, sIfdir ||| (dirMode &&& 0o7777)⟩
  | .file f => ⟨false, f.content.length, f.mtime, sIfreg ||| (f.perm &&& 0o7777)⟩

def Tree.localStat (t : Tree) (dirMode : UInt32) (p : Loc) : Except IoError LocalMetadata :=
  match t.get p with
  | none => .error .noSuchFile
  | some node => .ok (localMetadata dirMode node)

/-! ## The step function -/

/-- Answer from the server's tree without changing it. -/
def Env.onRemote (env : Env) (w : World) {α : Type} (r : Except IoError α) :
    Except IoError α × World := env.unlessFault w (r, w.next)

/-- Change the server's tree. -/
def Env.changeRemote (env : Env) (w : World) {α : Type} (r : Except IoError α × Tree) :
    Except IoError α × World := env.unlessFault w (r.1, { w.next with remote := r.2 })

/-- Answer from the local tree without changing it; the empty path is not found. -/
def Env.onDisk (env : Env) (w : World) (path : String) {α : Type} (r : Loc → Except IoError α) :
    Except IoError α × World :=
  env.unlessFault w
    (match env.diskLoc path with
      | none => .error .noSuchFile
      | some p => r p, w.next)

/-- Change the local tree; the empty path is not found. -/
def Env.changeDisk (env : Env) (w : World) (path : String) {α : Type}
    (r : Loc → Except IoError α × Tree) : Except IoError α × World :=
  match env.diskLoc path with
  | none => env.unlessFault w (.error .noSuchFile, w.next)
  | some p => env.unlessFault w ((r p).1, { w.next with disk := (r p).2 })

/-- `write_all`, where `wrote` puts bytes into the open file. Only those that arrive do; whether the
error is returned here or left for later is up to the fault. -/
def World.writeBehind (w : World) (fault : Fault) (h : FileHandle) (data : Bytes)
    (wrote : Bytes → World) : Except IoError Unit × World :=
  match fault with
  | .none => (.ok (), wrote data)
  | .fail => (.error .failure, w.next)
  | .short k => (.error .failure, wrote (data.take k))
  | .inFlight k =>
    if k < data.length then
      (.ok (), { wrote (data.take k) with deferred := h.ino :: w.deferred })
    else (.ok (), wrote data)
  | .refused arrives =>
    if (arrives.takeWhile id).length < data.length then
      (.ok (), { wrote (arrived arrives data) with deferred := h.ino :: w.deferred })
    else (.ok (), wrote data)

/-- russh-sftp's `write_all`. -/
def Env.remoteWriteAll (env : Env) (w : World) (h : FileHandle) (data : Bytes) :
    Except IoError Unit × World :=
  w.writeBehind (env.fault w.tick) h data fun bytes =>
    { w.next with remote := w.remote.append h bytes (env.clock w.tick) }

/-- tokio's `write_all`. -/
def Env.diskWriteAll (env : Env) (w : World) (h : FileHandle) (data : Bytes) :
    Except IoError Unit × World :=
  w.writeBehind (env.fault w.tick).onDisk h data fun bytes =>
    { w.next with disk := w.disk.append h bytes (env.clock w.tick) }

/-- `flush`, and `close` on the server's side: wait for what is in flight and report its error,
once. -/
def Env.awaitWrites (env : Env) (w : World) (h : FileHandle) : Except IoError Unit × World :=
  if h.ino ∈ w.deferred then
    (.error .failure, { w.next with deferred := w.deferred.filter (· ≠ h.ino) })
  else env.unlessFault w (.ok (), w.next)

/-- What each operation does. -/
def step (env : Env) : Handler FileOp FileOp.Res World
  | .metadata path, w => env.onRemote w (w.remote.stat env.dirMode (env.remoteLoc path))
  | .readDir path, w => env.onRemote w (w.remote.list (env.remoteLoc path))
  | .createDir path, w => env.changeRemote w (w.remote.makeDir (env.remoteLoc path))
  | .read path, w => env.onRemote w (w.remote.contentAt (env.remoteLoc path))
  | .openWithFlags path, w =>
    env.changeRemote w
      (w.remote.createNew (env.remoteLoc path) env.newFileMode (env.clock w.tick) w.tick)
  | .writeAll h data, w => env.remoteWriteAll w h data
  | .flush h, w => env.awaitWrites w h
  | .syncAll _, w => env.onRemote w (.ok ())
  | .close h, w => env.awaitWrites w h
  | .removeFile path, w => env.changeRemote w (w.remote.unlink (env.remoteLoc path))
  | .rename old new, w =>
    env.changeRemote w
      (w.remote.move env.renameReplaces (env.remoteLoc old) (env.remoteLoc new))
  | .setMetadata path attrs, w =>
    env.changeRemote w
      (match attrs.permissions with
        | some mode => w.remote.chmod (env.remoteLoc path) mode
        | none => (.ok (), w.remote))
  | .fsMetadata path, w => env.onDisk w path (w.disk.localStat env.dirMode)
  | .fsReadDir path, w => env.onDisk w path w.disk.list
  | .fsNextEntry _, w => env.unlessFault w (.ok (), w.next)
  | .fsFileType dir name, w =>
    env.onDisk w (child dir name) fun p => (w.disk.localStat env.dirMode p).map (·.isDir)
  | .fsEntryMetadata dir name, w => env.onDisk w (child dir name) (w.disk.localStat env.dirMode)
  | .fsRead path, w => env.onDisk w path w.disk.contentAt
  | .fsOpenCreateNew path, w =>
    env.changeDisk w path fun p =>
      w.disk.createNew p env.newFileMode (env.clock w.tick) w.tick
  | .fsWriteAll h data, w => env.diskWriteAll w h data
  | .fsFlush h, w => env.awaitWrites w h
  | .fsSyncAll _, w => env.unlessFault w (.ok (), w.next)
  | .fsRename old new, w =>
    match env.diskLoc new with
    | none => env.unlessFault w (.error .noSuchFile, w.next)
    | some q => env.changeDisk w old fun p => w.disk.move true p q
  | .fsRemoveFile path, w => env.changeDisk w path w.disk.unlink
  | .fsCreateDirAll path, w =>
    -- `create_dir_all("")` is `Ok(())`
    if path = "" then env.unlessFault w (.ok (), w.next)
    else env.changeDisk w path w.disk.makeDirAll
  | .fsSetPermissions path mode, w => env.changeDisk w path fun p => w.disk.chmod p mode
  | .suffixHash, w => (env.hash w.tick, w.next)

/-! ## Programs -/

/-- A fallible program over file operations. -/
abbrev FileM (α : Type) : Type := Action FileOp FileOp.Res Error α

/-- One file operation, as a program of its own. -/
abbrev FileCall (α : Type) : Type := Action FileOp FileOp.Res IoError α

/-- `.with_context(|| msg)` on an operation. -/
def withContext {α : Type} (msg : String) (x : FileCall α) : FileM α :=
  mapError (fun e => ⟨[msg], e⟩) x

/-- `?` on an operation: its error becomes the program's. -/
def propagate {α : Type} (x : FileCall α) : FileM α := mapError (fun e => ⟨[], e⟩) x

def metadata (path : String) : FileCall Metadata := ExceptT.mk (.op (.metadata path) .pure)
def readDir (path : String) : FileCall (List String) := ExceptT.mk (.op (.readDir path) .pure)
def createDir (path : String) : FileCall Unit := ExceptT.mk (.op (.createDir path) .pure)
def read (path : String) : FileCall Bytes := ExceptT.mk (.op (.read path) .pure)
def openWithFlags (path : String) : FileCall FileHandle :=
  ExceptT.mk (.op (.openWithFlags path) .pure)
def writeAll (file : FileHandle) (data : Bytes) : FileCall Unit :=
  ExceptT.mk (.op (.writeAll file data) .pure)
def flush (file : FileHandle) : FileCall Unit := ExceptT.mk (.op (.flush file) .pure)
def syncAll (file : FileHandle) : FileCall Unit := ExceptT.mk (.op (.syncAll file) .pure)
def close (file : FileHandle) : FileCall Unit := ExceptT.mk (.op (.close file) .pure)
def removeFile (path : String) : FileCall Unit := ExceptT.mk (.op (.removeFile path) .pure)
def rename (oldPath newPath : String) : FileCall Unit :=
  ExceptT.mk (.op (.rename oldPath newPath) .pure)
def setMetadata (path : String) (attrs : Metadata) : FileCall Unit :=
  ExceptT.mk (.op (.setMetadata path attrs) .pure)
def fsMetadata (path : String) : FileCall LocalMetadata :=
  ExceptT.mk (.op (.fsMetadata path) .pure)
def fsReadDir (path : String) : FileCall (List String) :=
  ExceptT.mk (.op (.fsReadDir path) .pure)
def fsNextEntry (dir : String) : FileCall Unit := ExceptT.mk (.op (.fsNextEntry dir) .pure)
def fsFileType (dir name : String) : FileCall Bool :=
  ExceptT.mk (.op (.fsFileType dir name) .pure)
def fsEntryMetadata (dir name : String) : FileCall LocalMetadata :=
  ExceptT.mk (.op (.fsEntryMetadata dir name) .pure)
def fsRead (path : String) : FileCall Bytes := ExceptT.mk (.op (.fsRead path) .pure)
def fsOpenCreateNew (path : String) : FileCall FileHandle :=
  ExceptT.mk (.op (.fsOpenCreateNew path) .pure)
def fsWriteAll (file : FileHandle) (data : Bytes) : FileCall Unit :=
  ExceptT.mk (.op (.fsWriteAll file data) .pure)
def fsFlush (file : FileHandle) : FileCall Unit := ExceptT.mk (.op (.fsFlush file) .pure)
def fsSyncAll (file : FileHandle) : FileCall Unit := ExceptT.mk (.op (.fsSyncAll file) .pure)
def fsRename (oldPath newPath : String) : FileCall Unit :=
  ExceptT.mk (.op (.fsRename oldPath newPath) .pure)
def fsRemoveFile (path : String) : FileCall Unit := ExceptT.mk (.op (.fsRemoveFile path) .pure)
def fsCreateDirAll (path : String) : FileCall Unit :=
  ExceptT.mk (.op (.fsCreateDirAll path) .pure)
def fsSetPermissions (path : String) (mode : UInt32) : FileCall Unit :=
  ExceptT.mk (.op (.fsSetPermissions path mode) .pure)

/-- The hash `random_tmp_suffix` takes from the clock, its counter and a stack address. -/
def suffixHash : FileM UInt64 :=
  ExceptT.mk (.op .suffixHash fun hash => .pure (.ok hash))

end Passhrs
