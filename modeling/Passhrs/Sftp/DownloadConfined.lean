import Passhrs.Sftp.ChildPaths
import Passhrs.Sftp.Download

/-!
# Where a download writes

`rsync_download` makes its local paths from the names that the server lists, as `pull_path` does,
but by cutting the remote root off the listed paths and putting the local root before the rest. As
there, the question is asked of every server and disk: an operation is answered by an arbitrary
handler, and only the names in the listings are constrained.

* **`Under`**: the listed paths, as a trimmed root, a slash, and a part that leads strictly down.
* **`rsyncDownload_confined`**: a download changes nothing on the server, and each local path that
  it creates, writes, renames or removes is inside the local root.
-/

namespace Passhrs

open Effects SlashPath

/-! ## Listed paths -/

/-- A path below the root, by a part that leads strictly down. -/
def Under (root key : String) : Prop := ∃ t, Descends t ∧ key = child root t

theorem trimEndSlash_ne_empty {t : String} (h : Descends t) : trimEndSlash t ≠ "" := by
  intro hempty
  obtain ⟨part, hpart, htrivial⟩ := h.2
  obtain ⟨k, hk⟩ := parts_trimEndSlash t
  have hnil : part = "" := by
    rw [hk, hempty, parts_of_noSlash (by decide), List.mem_append] at hpart
    rcases hpart with hpart | hpart
    · exact List.mem_singleton.mp hpart
    · exact List.eq_of_mem_replicate hpart
  rw [hnil] at htrivial
  cases htrivial

/-- Trimming takes slashes off the last part only, where that is more than slashes. -/
theorem trimEndSlash_append {s t : String} (h : trimEndSlash t ≠ "") :
    trimEndSlash (s ++ t) = s ++ trimEndSlash t := by
  have hne : t.toList.reverse.dropWhile (· = '/') ≠ [] := by
    intro hnil
    refine h ?_
    rw [trimEndSlash, List.rdropWhile, hnil]
    rfl
  apply String.toList_injective
  rw [String.toList_append, trimEndSlash, trimEndSlash, String.toList_ofList, String.toList_ofList,
    String.toList_append, List.rdropWhile, List.rdropWhile, List.reverse_append,
    List.dropWhile_append, if_neg (by simpa using hne), List.reverse_append, List.reverse_reverse]

theorem descends_child {t name : String} (ht : Descends t) (hname : Descends name) :
    Descends (child t name) := by
  obtain ⟨k, hk⟩ := parts_trimEndSlash t
  have hparts : parts (child t name) = parts (trimEndSlash t) ++ parts name :=
    parts_append_slash _ _
  obtain ⟨part, hpart, htrivial⟩ := hname.2
  refine ⟨?_, part, ?_, htrivial⟩
  · rw [hparts, List.mem_append, not_or]
    exact ⟨fun h => ht.1 (hk ▸ List.mem_append_left _ h), hname.1⟩
  · rw [hparts]
    exact List.mem_append_right _ hpart

theorem under_child {root name : String} (h : Descends name) : Under root (child root name) :=
  ⟨name, h, rfl⟩

/-- An entry of a directory below the root is below the root. -/
theorem Under.entry {root key name : String} (h : Under root key) (hname : Descends name) :
    Under root (child key name) := by
  obtain ⟨t, ht, rfl⟩ := h
  refine ⟨child t name, descends_child ht hname, ?_⟩
  have htrim : trimEndSlash (child root t) = trimEndSlash root ++ "/" ++ trimEndSlash t :=
    trimEndSlash_append (trimEndSlash_ne_empty ht)
  show trimEndSlash (child root t) ++ "/" ++ name
    = trimEndSlash root ++ "/" ++ (trimEndSlash t ++ "/" ++ name)
  rw [htrim]
  simp only [String.append_assoc]

/-- A listed path gives back its part below the root. -/
theorem relPath_child (root t : String) : relPath (trimEndSlash root) (child root t) = t := by
  have hslash : child root t = trimEndSlash root ++ ("/" ++ t) := String.append_assoc ..
  rw [relPath, hslash, stripPrefix_append, Option.getD_some, stripPrefix_append, Option.getD_some]

/-! ## What a download issues -/

/-- Directory listings, of the server and of the disk, with names that lead strictly down; any
other answer. -/
def NamesDescend : (op : FileOp) → FileOp.Res op → Prop
  | .readDir _, r => ∀ names, r = .ok names → ∀ name ∈ names, Descends name
  | .fsReadDir _, r => ∀ names, r = .ok names → ∀ name ∈ names, Descends name
  | _, _ => True

/-- The operations that change the server's tree. -/
def FileOp.ChangesServer : FileOp → Prop
  | .createDir _ | .openWithFlags _ | .writeAll _ _ | .removeFile _ | .rename _ _
  | .setMetadata _ _ => True
  | _ => False

/-- An operation that leaves the server alone and writes, if at all, inside the local root. -/
structure FetchesInto (localRoot : String) (op : FileOp) : Prop where
  server : ¬ op.ChangesServer
  inside : Confined localRoot op

/-- Such a program fetches into `localRoot`, as long as names lead down, and ends in `Q`. -/
abbrev Fetches {ε α : Type} (localRoot : String) (Q : α → Prop)
    (x : Action FileOp FileOp.Res ε α) : Prop :=
  Emits NamesDescend (FetchesInto localRoot) Q x

section Fetches

variable {localRoot remoteRoot : String}

/-- An operation that writes nothing. -/
theorem fetchesInto_nil {op : FileOp} (hserver : ¬ op.ChangesServer) (h : op.localTargets = []) :
    FetchesInto localRoot op := ⟨hserver, confined_nil h⟩

theorem fetches_listRemoteFiles (fuel : Nat) {root path : String}
    (hpath : path = root ∨ Under root path) :
    Fetches localRoot (FileMap.KeysIn (Under root)) (listRemoteFiles fuel path) := by
  induction fuel generalizing path with
  | zero => exact emits_throw _
  | succ fuel ih =>
    refine emits_bind (Q := fun names => ∀ name ∈ names, Descends name)
      (emits_mapError ⟨fetchesInto_nil id rfl, fun _ h => h⟩) fun entries hentries => ?_
    refine emits_foldlM_of_rounds (fun files hfiles name hname => ?_) keysIn_empty
    have hfull : Under root (child path name) :=
      hpath.elim (fun h => h ▸ under_child (hentries name hname))
        fun h => h.entry (hentries name hname)
    refine emits_bind (emits_mapError ⟨fetchesInto_nil id rfl, fun _ _ _ _ => trivial⟩)
      fun stat _ => ?_
    split
    · exact emits_bind (ih (.inr hfull)) fun sub hsub => emits_pure (hfiles.extend hsub)
    · exact emits_pure (hfiles.insert hfull _)

/-- The directories that are left to read, and the files that have been found. -/
def FoundUnder (root : String) (state : List String × FileMap) : Prop :=
  (∀ dir ∈ state.1, dir = root ∨ Under root dir) ∧ state.2.KeysIn (Under root)

theorem fetches_listLocalEntry {root dir name : String} (hdir : dir = root ∨ Under root dir)
    (hname : Descends name) {state : List String × FileMap} (hstate : FoundUnder root state) :
    Fetches localRoot (FoundUnder root) (listLocalEntry dir state name) := by
  have hfull : Under root (child dir name) :=
    hdir.elim (fun h => h ▸ under_child hname) fun h => h.entry hname
  refine emits_bind (emits_mapError ⟨fetchesInto_nil id rfl, fun _ _ _ _ => trivial⟩)
    fun _ _ => ?_
  refine emits_bind (emits_mapError ⟨fetchesInto_nil id rfl, fun _ _ _ _ => trivial⟩)
    fun isDir _ => ?_
  split
  · exact emits_pure ⟨List.forall_mem_cons.mpr ⟨.inr hfull, hstate.1⟩, hstate.2⟩
  · exact emits_bind (emits_mapError ⟨fetchesInto_nil id rfl, fun _ _ _ _ => trivial⟩)
      fun attrs _ => emits_pure ⟨hstate.1, hstate.2.insert hfull _⟩

theorem fetches_listLocalFiles (fuel : Nat) (root : String) :
    Fetches localRoot (FileMap.KeysIn (Under root)) (listLocalFiles fuel root) := by
  suffices h : ∀ stack files, FoundUnder root (stack, files) →
      Fetches localRoot (FileMap.KeysIn (Under root)) (listLocalStack fuel stack files) from
    h [root] ∅ ⟨by simp, keysIn_empty⟩
  induction fuel with
  | zero =>
    rintro (_ | ⟨dir, stack⟩) files hstate
    · exact emits_pure hstate.2
    · exact emits_throw _
  | succ fuel ih =>
    rintro (_ | ⟨dir, stack⟩) files ⟨hstack, hfiles⟩
    · exact emits_pure hfiles
    -- one directory comes off the stack, and its subdirectories go onto it
    obtain ⟨hdir, hstack⟩ := List.forall_mem_cons.mp hstack
    refine emits_bind (Q := FoundUnder root) ?_ fun state hstate => ih _ _ hstate
    refine emits_bind (Q := fun names => ∀ name ∈ names, Descends name)
      (emits_mapError ⟨fetchesInto_nil id rfl, fun _ h => h⟩) fun rd hrd => ?_
    refine emits_bind (emits_foldlM_of_rounds (fun state hstate name hname =>
      fetches_listLocalEntry hdir (hrd name hname) hstate) ⟨hstack, hfiles⟩) fun state hstate => ?_
    exact emits_bind (emits_mapError ⟨fetchesInto_nil id rfl, fun _ _ _ _ => trivial⟩)
      fun _ _ => emits_pure hstate

/-- A local path that leads to the inside of the root, as its directory does. -/
structure LandsIn (localRoot path : String) : Prop where
  inside : Normal.Inside (normalize localRoot) (normalize path)
  dir : ∃ dir, parent path = some dir ∧ Normal.Inside (normalize localRoot) (normalize dir)

theorem landsIn_child (hroot : localRoot ≠ "") {t : String} (ht : Descends t) :
    LandsIn localRoot (child localRoot t) := by
  obtain ⟨dir, n, hparent, hinside, hchild⟩ := parent_child hroot ht
  refine ⟨?_, dir, hparent, hinside⟩
  rw [hchild]
  exact hinside.trans ⟨rfl, rfl, List.suffix_cons _ _⟩

/-- An operation that writes one local path, inside the root. -/
theorem fetchesInto_one {op : FileOp} {path : String} (hserver : ¬ op.ChangesServer)
    (h : op.localTargets = [path])
    (hpath : Normal.Inside (normalize localRoot) (normalize path)) :
    FetchesInto localRoot op := ⟨hserver, confined_one h hpath⟩

theorem fetches_atomicWriteLocal {path : String} (h : LandsIn localRoot path) (data : Bytes) :
    Fetches localRoot (fun _ => True) (atomicWriteLocal path data) := by
  refine emits_atomicWriteLocal (fetchesInto_nil id rfl) (fun hash => ?_) data
  have htmp : Normal.Inside (normalize localRoot)
      (normalize (localTmp path (tmpSuffix hash))) := by
    obtain ⟨m, -, hm⟩ := normalize_localTmp path hash
    obtain ⟨dir, hparent, hdir⟩ := h.dir
    rw [hm, hparent]
    exact hdir.trans (Normal.inside_cons _ m)
  refine ⟨fetchesInto_one id rfl htmp, fun _ _ => fetchesInto_nil id rfl,
    fun _ => fetchesInto_nil id rfl, fun _ => fetchesInto_nil id rfl, ⟨id, fun q hq => ?_⟩,
    fetchesInto_one id rfl htmp⟩
  rcases List.mem_pair.mp hq with rfl | rfl
  · exact htmp
  · exact h.inside

/-- Writing a local file and setting its mode. -/
theorem fetches_writeKeep {path : String} (h : LandsIn localRoot path) (data : Bytes)
    (mode : Option UInt32) :
    Fetches localRoot (fun _ => True) (do
      atomicWriteLocal path data
      keepMode path mode) := by
  refine emits_bind (fetches_atomicWriteLocal h data) fun _ _ => ?_
  rcases mode with _ | m
  · exact emits_pure trivial
  · exact emits_ignore (emits_mapError (Q := fun _ => True)
      ⟨fetchesInto_one id rfl h.inside, fun _ _ _ _ => trivial⟩)

theorem fetches_downloadWhole (o : RsyncOpts) (remotePath : String) {path : String}
    (h : LandsIn localRoot path) (info : RemoteFileInfo) :
    Fetches localRoot (fun _ => True) (downloadWhole o remotePath path info) := by
  unfold downloadWhole
  split
  · exact emits_pure trivial
  refine emits_bind (emits_mapError ⟨fetchesInto_nil id rfl, fun _ _ _ _ => trivial⟩)
    fun data _ => ?_
  refine emits_bind (Q := fun _ => True) ?_ fun _ _ => fetches_writeKeep h data info.mode
  obtain ⟨dir, hparent, hdir⟩ := h.dir
  unfold createParents
  rw [hparent]
  exact emits_mapError ⟨fetchesInto_one id rfl hdir, fun _ _ _ _ => trivial⟩

theorem fetches_downloadIfChanged (copia : Copia) (o : RsyncOpts) (localFiles : FileMap)
    (remotePath : String) {path : String} (h : LandsIn localRoot path) (info : RemoteFileInfo) :
    Fetches localRoot (fun _ => True)
      (downloadIfChanged copia o localFiles remotePath path info) := by
  have hwhole := fetches_downloadWhole o remotePath h info
  unfold downloadIfChanged
  split
  case h_2 => exact hwhole
  split
  · exact emits_pure trivial
  split
  case isFalse => exact hwhole
  refine emits_bind (emits_mapError ⟨fetchesInto_nil id rfl, fun _ _ _ _ => trivial⟩)
    fun localData _ => ?_
  refine emits_bind (emits_mapError ⟨fetchesInto_nil id rfl, fun _ _ _ _ => trivial⟩)
    fun remoteData _ => ?_
  split
  · exact emits_pure trivial
  refine emits_bind (emits_mapError (emits_ofResult fun _ _ => trivial)) fun sig _ => ?_
  refine emits_bind (emits_mapError (emits_ofResult fun _ _ => trivial)) fun delta _ => ?_
  split
  · refine emits_bind (emits_mapError (emits_ofResult fun _ _ => trivial)) fun output _ => ?_
    exact fetches_writeKeep h output info.mode
  · exact hwhole

theorem fetches_rsyncDownload (hroot : localRoot ≠ "") (copia : Copia)
    (localOrder remoteOrder : IterOrder) (fuel : Nat) (remoteRoot : String) (opts : List String) :
    Fetches localRoot (fun _ => True) (rsyncDownload copia localOrder remoteOrder fuel remoteRoot
      localRoot opts) := by
  refine emits_bind (fetches_listLocalFiles fuel localRoot) fun localFiles hlocal => ?_
  refine emits_bind (fetches_listRemoteFiles fuel (.inl rfl)) fun remoteFiles hremote => ?_
  refine emits_bind (emits_forM fun e he => ?_) fun _ _ => ?_
  · obtain ⟨t, ht, hkey⟩ := hremote e.1 e.2 (mem_order_lookup remoteOrder he)
    show Fetches _ _ (downloadFile _ _ _ _ _ e.1 e.2)
    rw [downloadFile, hkey, relPath_child]
    split
    · exact emits_pure trivial
    · exact fetches_downloadIfChanged copia _ localFiles _ (landsIn_child hroot ht) e.2
  split
  -- what is deleted is what the local listing has found
  · refine emits_forM fun e he => ?_
    obtain ⟨t, ht, hkey⟩ := hlocal e.1 e.2 (mem_order_lookup localOrder he)
    show Fetches _ _ (deleteLocalFile _ _ _ _ e.1)
    unfold deleteLocalFile
    dsimp only
    split
    · exact emits_pure trivial
    split
    · exact emits_pure trivial
    · rw [hkey]
      exact emits_ignore (Q := fun _ => True)
        ⟨fetchesInto_one id rfl (landsIn_child hroot ht).inside, fun _ _ _ _ => trivial⟩
  · exact emits_pure trivial

end Fetches

/-- **A download writes inside the local root only, and nothing on the server**, for every server
and disk that list names that lead strictly down, whatever else they answer, and all options. -/
theorem rsyncDownload_confined {σ : Type} {h : Handler FileOp FileOp.Res σ} {localRoot : String}
    (hroot : localRoot ≠ "")
    (hremote : ∀ path s names, (h (.readDir path) s).1 = .ok names → ∀ name ∈ names, Descends name)
    (hlocal : ∀ path s names, (h (.fsReadDir path) s).1 = .ok names →
      ∀ name ∈ names, Descends name)
    (copia : Copia) (localOrder remoteOrder : IterOrder) (fuel : Nat) (remoteRoot : String)
    (opts : List String) (s : σ) :
    ∀ e ∈ execLog h (rsyncDownload copia localOrder remoteOrder fuel remoteRoot localRoot opts) s,
      ¬ e.1.ChangesServer ∧ ∀ path ∈ e.1.localTargets,
        Normal.Inside (normalize localRoot) (normalize path) := by
  have hanswers : ∀ op s, NamesDescend op (h op s).1 := by
    rintro ⟨⟩ s <;> first | exact hremote _ s | exact hlocal _ s | trivial
  intro e he
  have hfetches := (fetches_rsyncDownload hroot copia localOrder remoteOrder fuel remoteRoot opts
    ).of_mem_execLog hanswers s e he
  exact ⟨hfetches.server, hfetches.inside⟩

/-- A disk that lists its own files lists names that lead down. -/
theorem step_fsReadDir_descends (env : Env) (path : String) (w : World) (names : List String)
    (h : (step env (.fsReadDir path) w).1 = .ok names) : ∀ name ∈ names, Descends name := by
  have hexec : exec (step env) (fsReadDir path) w
      = (.ok names, (step env (.fsReadDir path) w).2) := Prod.ext h rfl
  obtain ⟨p, -, -, rfl, -⟩ := exec_fsReadDir_eq_ok hexec
  intro name hname
  obtain ⟨n, -, rfl⟩ := List.mem_map.mp hname
  exact n.descends

theorem rsyncDownload_confined_nested :
    let w := World.start (Tree.nested ⟨"r", by decide⟩ ⟨"d", by decide⟩ ⟨"x", by decide⟩ [1])
      (Tree.dirWith ⟨"l", by decide⟩ [(⟨"a", by decide⟩, [2])])
    ∀ e ∈ execLog (step .reliable) (rsyncDownload .prefixOnly .asListed .asListed 3 "/r" "/l"
      ["delete"]) w, ¬ e.1.ChangesServer ∧ ∀ path ∈ e.1.localTargets,
        Normal.Inside (normalize "/l") (normalize path) :=
  rsyncDownload_confined (by decide) (step_readDir_descends .reliable)
    (step_fsReadDir_descends .reliable) _ _ _ 3 _ _ _

end Passhrs
