import Passhrs.Sftp.Steps

/-!
# Listing files

`list_remote_files` and `list_local_files`: one by recursion on directories, the other with an
explicit stack. Both build a map from path strings to file attributes.

* **`Lists`**: what such a map is to say about a tree. `Lists.lookup_below` reads it as one
  equation.
* **`listRemoteFiles_lists`**, **`listLocalFiles_lists`**: a listing that returns has it right,
  whatever else fails.
* **`listRemoteFiles_ok`**, **`listLocalFiles_ok`**: without failures and with enough fuel it
  returns.
-/

namespace Passhrs

open Effects SlashPath

/-! ## The code -/

structure RemoteFileInfo where
  size : Nat
  mtime : Nat
  mode : Option UInt32
deriving DecidableEq

/-- `HashMap<String, RemoteFileInfo>`. -/
abbrev FileMap : Type := AList (fun _ : String => RemoteFileInfo)

/-- `files.extend(sub)`. -/
def FileMap.extend (files sub : FileMap) : FileMap :=
  sub.entries.foldl (fun m e => m.insert e.1 e.2) files

def listRemoteFiles : Nat → String → FileM FileMap
  | 0, _ => throw ⟨[], .outOfFuel⟩
  | fuel + 1, path => do
    let entries ← withContext s!"cannot read remote directory: {path}" (readDir path)
    entries.foldlM (fun files name => do
      let fullPath := child path name
      let stat ← withContext s!"cannot stat remote: {fullPath}" (metadata fullPath)
      if stat.isDir then
        let sub ← listRemoteFiles fuel fullPath
        pure (files.extend sub)
      else
        pure (files.insert fullPath
          ⟨stat.size.getD 0, (stat.mtime.getD 0).toNat, stat.permissions⟩)) ∅

/-- One entry of `dir` in `list_local_files`: a directory goes onto the stack, anything else into
the map. -/
def listLocalEntry (dir : String) (state : List String × FileMap) (name : String) :
    FileM (List String × FileMap) := do
  propagate (fsNextEntry dir)
  let full := child dir name
  if ← propagate (fsFileType dir name) then
    pure (full :: state.1, state.2)
  else
    let attrs ← propagate (fsEntryMetadata dir name)
    pure (state.1, state.2.insert full ⟨attrs.len, attrs.modified, some attrs.mode⟩)

/-- One round of the outer loop of `list_local_files`. -/
def listLocalDir (dir : String) (stack : List String) (files : FileMap) :
    FileM (List String × FileMap) := do
  let rd ← withContext s!"cannot read directory: {dir}" (fsReadDir dir)
  let state ← rd.foldlM (listLocalEntry dir) (stack, files)
  -- the call that finds no further entry
  propagate (fsNextEntry dir)
  pure state

/-- The outer loop of `list_local_files`. The top of the stack is the head of the list. -/
def listLocalStack : Nat → List String → FileMap → FileM FileMap
  | _, [], files => pure files
  | 0, _ :: _, _ => throw ⟨[], .outOfFuel⟩
  | fuel + 1, dir :: stack, files => do
    let (stack, files) ← listLocalDir dir stack files
    listLocalStack fuel stack files

def listLocalFiles (fuel : Nat) (path : String) : FileM FileMap := listLocalStack fuel [path] ∅

theorem FileMap.lookup_extend {files sub : FileMap} {key : String} {i : RemoteFileInfo}
    (h : (files.extend sub).lookup key = some i) :
    sub.lookup key = some i ∨ files.lookup key = some i := by
  suffices hgen : ∀ (l : List (Sigma fun _ : String => RemoteFileInfo)) (files : FileMap),
      (l.foldl (fun m e => m.insert e.1 e.2) files).lookup key = some i →
        ⟨key, i⟩ ∈ l ∨ files.lookup key = some i from
    (hgen _ files h).imp_left AList.mem_lookup_iff.mpr
  intro l
  induction l with
  | nil => exact fun _ h => .inr h
  | cons e l ih =>
    intro files h
    rcases ih _ h with h | h
    · exact .inl (List.mem_cons_of_mem _ h)
    · by_cases hkey : key = e.1
      · subst hkey
        rw [AList.lookup_insert] at h
        obtain rfl := Option.some.inj h
        exact .inl (by simp)
      · rw [AList.lookup_insert_ne hkey] at h
        exact .inr h

theorem FileMap.isSome_lookup_extend {files sub : FileMap} {key : String}
    (h : (sub.lookup key).isSome ∨ (files.lookup key).isSome) :
    ((files.extend sub).lookup key).isSome := by
  suffices hgen : ∀ (l : List (Sigma fun _ : String => RemoteFileInfo)) (files : FileMap),
      (key ∈ l.map Sigma.fst ∨ (files.lookup key).isSome) →
        ((l.foldl (fun m e => m.insert e.1 e.2) files).lookup key).isSome by
    refine hgen _ files (h.imp_left fun hsub => ?_)
    obtain ⟨i, hi⟩ := Option.isSome_iff_exists.mp hsub
    exact List.mem_map_of_mem (AList.mem_lookup_iff.mp hi)
  intro l
  induction l with
  | nil => simp
  | cons e l ih =>
    intro files h
    refine ih _ ?_
    by_cases hkey : key = e.1
    · right
      subst hkey
      simp
    · rw [AList.lookup_insert_ne hkey]
      simpa [hkey] using h

/-! ## What a listing says -/

/-- `m` maps paths below `root` to what `what` says of the names they are reached by, and has an
entry for each of those that `done` selects. -/
structure Records (what : List FileName → Option RemoteFileInfo) (root : String)
    (done : List FileName → Prop) (m : FileMap) : Prop where
  sound : ∀ key i, m.lookup key = some i → ∃ names, key = below root names ∧ what names = some i
  complete : ∀ names i, done names → what names = some i → (m.lookup (below root names)).isSome

namespace Records

variable {what what' : List FileName → Option RemoteFileInfo} {root : String}
  {done done' : List FileName → Prop} {m sub : FileMap}

theorem lookup_below (h : Records what root (fun _ => True) m) (hroot : root ≠ "")
    (names : List FileName) : m.lookup (below root names) = what names := by
  rcases hwhat : what names with _ | i
  · rw [Option.eq_none_iff_forall_ne_some]
    intro i hi
    obtain ⟨names', hkey, hi'⟩ := h.sound _ i hi
    rw [← below_injective hroot hkey, hwhat] at hi'
    cases hi'
  · obtain ⟨i', hi'⟩ := Option.isSome_iff_exists.mp (h.complete names i trivial hwhat)
    obtain ⟨names', hkey, hwhat'⟩ := h.sound _ i' hi'
    rw [← below_injective hroot hkey, hwhat] at hwhat'
    rw [hi', hwhat']

theorem empty : Records what root (fun _ => False) ∅ :=
  ⟨fun _ _ h => by simp at h, fun _ _ h => h.elim⟩

theorem mono (h : Records what root done m)
    (himp : ∀ names i, done' names → what names = some i → done names) :
    Records what root done' m :=
  ⟨h.sound, fun names i hd hi => h.complete names i (himp names i hd hi) hi⟩

/-- One more file, under its own path. -/
theorem insert (h : Records what root done m) (names : List FileName) {i : RemoteFileInfo}
    (hi : what names = some i) :
    Records what root (fun ns => done ns ∨ ns = names) (AList.insert (below root names) i m) := by
  refine ⟨fun key j hj => ?_, fun ns j hd hj => ?_⟩
  · by_cases hkey : key = below root names
    · subst hkey
      rw [AList.lookup_insert] at hj
      exact ⟨names, rfl, Option.some.inj hj ▸ hi⟩
    · rw [AList.lookup_insert_ne hkey] at hj
      exact h.sound key j hj
  · by_cases hkey : below root ns = below root names
    · rw [hkey, AList.lookup_insert]
      rfl
    · rw [AList.lookup_insert_ne hkey]
      rcases hd with hd | rfl
      · exact h.complete ns j hd hj
      · exact absurd rfl hkey

/-- The files of a subdirectory, under their own paths. -/
theorem extend (h : Records what root done m) {n : FileName}
    (hsub : Records what' (child root n.str) (fun _ => True) sub)
    (hwhat : ∀ rest, what (n :: rest) = what' rest) :
    Records what root (fun ns => done ns ∨ ∃ rest, ns = n :: rest) (m.extend sub) := by
  refine ⟨fun key i hi => ?_, fun ns i hd hi => FileMap.isSome_lookup_extend ?_⟩
  · rcases FileMap.lookup_extend hi with hi | hi
    · obtain ⟨names, hkey, hi⟩ := hsub.sound key i hi
      exact ⟨n :: names, hkey, (hwhat names).trans hi⟩
    · exact h.sound key i hi
  · rcases hd with hd | ⟨rest, rfl⟩
    · exact .inr (h.complete ns i hd hi)
    · exact .inl (hsub.complete rest i trivial ((hwhat rest).symm.trans hi))

end Records

/-- `m` maps paths below `root` to the attributes of the files of `t` below `p`, and has an
entry for each of those that `done` selects. -/
structure Lists (info : File → RemoteFileInfo) (t : Tree) (p : Loc) (root : String)
    (done : List FileName → Prop) (m : FileMap) : Prop where
  sound : ∀ key i, m.lookup key = some i → ∃ names f, key = below root names ∧
    t.get (names.reverse ++ p) = some (.file f) ∧ i = info f
  complete : ∀ names f, done names → t.get (names.reverse ++ p) = some (.file f) →
    (m.lookup (below root names)).isSome

theorem lists_iff_records {info : File → RemoteFileInfo} {t : Tree} {p : Loc} {root : String}
    {done : List FileName → Prop} {m : FileMap} :
    Lists info t p root done m ↔
      Records (fun names => (t.fileAt (names.reverse ++ p)).map info) root done m := by
  constructor
  · intro h
    refine ⟨fun key i hi => ?_, fun names i hd hi => ?_⟩
    · obtain ⟨names, f, hkey, hf, rfl⟩ := h.sound key i hi
      exact ⟨names, hkey, by rw [FileTree.fileAt_eq_some_iff.mpr hf, Option.map_some]⟩
    · obtain ⟨f, hf, -⟩ := Option.map_eq_some_iff.mp hi
      exact h.complete names f hd (FileTree.fileAt_eq_some_iff.mp hf)
  · intro h
    refine ⟨fun key i hi => ?_, fun names f hd hf => ?_⟩
    · obtain ⟨names, hkey, hi⟩ := h.sound key i hi
      obtain ⟨f, hf, rfl⟩ := Option.map_eq_some_iff.mp hi
      exact ⟨names, f, hkey, FileTree.fileAt_eq_some_iff.mp hf, rfl⟩
    · exact h.complete names (info f) hd
        (by rw [FileTree.fileAt_eq_some_iff.mpr hf, Option.map_some])

namespace Lists

variable {info : File → RemoteFileInfo} {t : Tree} {p : Loc} {root : String}
  {done done' : List FileName → Prop} {m sub : FileMap}

theorem lookup_below (h : Lists info t p root (fun _ => True) m) (hroot : root ≠ "")
    (names : List FileName) :
    m.lookup (below root names) = (t.fileAt (names.reverse ++ p)).map info :=
  (lists_iff_records.mp h).lookup_below hroot names

theorem empty : Lists info t p root (fun _ => False) ∅ := lists_iff_records.mpr Records.empty

theorem mono (h : Lists info t p root done m)
    (himp : ∀ names f, done' names → t.get (names.reverse ++ p) = some (.file f) → done names) :
    Lists info t p root done' m :=
  ⟨h.sound, fun names f hd hf => h.complete names f (himp names f hd hf) hf⟩

theorem insert (h : Lists info t p root done m) (names : List FileName) {f : File}
    (hf : t.get (names.reverse ++ p) = some (.file f)) :
    Lists info t p root (fun ns => done ns ∨ ns = names)
      (AList.insert (below root names) (info f) m) := by
  refine lists_iff_records.mpr ((lists_iff_records.mp h).insert names ?_)
  rw [FileTree.fileAt_eq_some_iff.mpr hf, Option.map_some]

theorem extend (h : Lists info t p root done m) {n : FileName}
    (hsub : Lists info t (n :: p) (child root n.str) (fun _ => True) sub) :
    Lists info t p root (fun ns => done ns ∨ ∃ rest, ns = n :: rest) (m.extend sub) := by
  refine lists_iff_records.mpr ((lists_iff_records.mp h).extend (lists_iff_records.mp hsub) ?_)
  intro rest
  rw [List.reverse_cons, List.append_assoc, List.singleton_append]

end Lists

/-! ## `list_remote_files` -/

/-- What `list_remote_files` records of a file. -/
def remoteInfo (f : File) : RemoteFileInfo :=
  ⟨f.content.length, (UInt32.ofNat f.mtime).toNat, some (sIfreg ||| (f.perm &&& 0o7777))⟩

/-- Bits outside a mask do not come into what it takes out. -/
theorem or_and_of_disjoint (a b : UInt32) {other mask : UInt32} (h : other &&& mask = 0) :
    (a ||| (b &&& other)) &&& mask = a &&& mask := by
  apply UInt32.toBitVec_inj.1
  have hdisjoint : other.toBitVec &&& mask.toBitVec = 0 := congrArg UInt32.toBitVec h
  simp only [UInt32.toBitVec_and, UInt32.toBitVec_or]
  ext i hi
  have hbit := congrArg (fun b => b.getLsbD i) hdisjoint
  simp only [BitVec.getLsbD_and] at hbit
  simp at hbit ⊢
  grind

/-- The permission bits do not reach into the file type. -/
theorem mode_and_sIfmt (kind mode : UInt32) :
    (kind ||| (mode &&& 0o7777)) &&& sIfmt = kind &&& sIfmt :=
  or_and_of_disjoint kind mode (by decide)

@[simp] theorem isDir_dirMetadata (mode : UInt32) : (dirMetadata mode).isDir = true := by
  show ((sIfdir ||| (mode &&& 0o7777)) &&& sIfmt == sIfdir) = true
  rw [mode_and_sIfmt]
  decide

@[simp] theorem isDir_fileMetadata (f : File) : (fileMetadata f).isDir = false := by
  show ((sIfreg ||| (f.perm &&& 0o7777)) &&& sIfmt == sIfdir) = false
  rw [mode_and_sIfmt]
  decide

/-- The files below a directory are below its entries. -/
theorem exists_child_of_file {t : Tree} {p : Loc} {names : List FileName} {f : File}
    (hdir : t.get p = some .dir) (hf : t.get (names.reverse ++ p) = some (.file f)) :
    ∃ n rest, names = n :: rest ∧ n ∈ t.children p := by
  rcases names with _ | ⟨n, rest⟩
  · simp [hdir] at hf
  · refine ⟨n, rest, rfl, FileTree.mem_children.mpr fun hnone => ?_⟩
    rw [List.reverse_cons, List.append_assoc] at hf
    by_cases hrest : rest = []
    · simp [hrest, hnone] at hf
    · have habove := FileTree.get_append_eq_none (t := t) (p := n :: p) (by simp [hnone])
        (List.reverse_ne_nil_iff.mpr hrest)
      rw [List.singleton_append, habove] at hf
      cases hf

theorem eq_nil_of_below_file {t : Tree} {p : Loc} (names : List FileName) {rest : List FileName}
    {f : File} {node : Node File} (hf : t.get (names.reverse ++ p) = some (.file f))
    (hg : t.get ((names ++ rest).reverse ++ p) = some node) : rest = [] := by
  by_contra hrest
  have habove := FileTree.get_append_eq_none (t := t) (p := names.reverse ++ p)
    (by rw [hf]; simp) (List.reverse_ne_nil_iff.mpr hrest)
  rw [← List.append_assoc, ← List.reverse_append, hg] at habove
  cases habove

theorem listRemoteFiles_lists {env : Env} {fuel : Nat} {path : String} {w w' : World}
    {m : FileMap} (hpath : path ≠ "")
    (hrun : exec (step env) (listRemoteFiles fuel path) w = (.ok m, w')) :
    SameTrees w w' ∧ w.remote.get (env.remoteLoc path) = some .dir ∧
      Lists remoteInfo w.remote (env.remoteLoc path) path (fun _ => True) m := by
  induction fuel generalizing path w w' m with
  | zero => cases hrun
  | succ fuel ih =>
    rw [listRemoteFiles] at hrun
    obtain ⟨entries, w₁, hread, hloop⟩ := exec_bind_eq_ok hrun
    rw [exec_withContext_eq_ok] at hread
    obtain ⟨hdir, rfl, rfl⟩ := exec_readDir_eq_ok hread
    -- after some entries: the map holds what is below these
    have hinv := exec_foldlM_eq_ok
      (I := fun done m w₁ => SameTrees w w₁ ∧ Lists remoteInfo w.remote (env.remoteLoc path) path
        (fun names => ∃ n rest, names = n :: rest ∧ n.str ∈ done) m)
      ?_ ⟨SameTrees.refl w |>.next, Lists.empty.mono (by simp)⟩ hloop
    · refine ⟨hinv.1, hdir, hinv.2.mono fun names f _ hf => ?_⟩
      obtain ⟨n, rest, rfl, hmem⟩ := exists_child_of_file hdir hf
      exact ⟨n, rest, rfl, List.mem_map_of_mem hmem⟩
    · intro done name rest files files' s s' hsplit hI hround
      obtain ⟨hsame, hlists⟩ := hI
      obtain ⟨n, -, rfl⟩ : ∃ n ∈ w.remote.children (env.remoteLoc path), n.str = name :=
        List.mem_map.mp (hsplit ▸ by simp)
      have hloc : env.remoteLoc (child path n.str) = n :: env.remoteLoc path :=
        walk_child_name _ _ _ hpath
      obtain ⟨stat, s₁, hstat, hround⟩ := exec_bind_eq_ok hround
      rw [exec_withContext_eq_ok] at hstat
      obtain ⟨hnode, rfl⟩ := exec_metadata_eq_ok hstat
      rw [hloc, hsame.remote] at hnode
      rcases hnode with ⟨hsubdir, rfl⟩ | ⟨f, hf, rfl⟩
      · -- a directory
        rw [isDir_dirMetadata, if_pos rfl] at hround
        obtain ⟨sub, s₂, hsub, hround⟩ := exec_bind_eq_ok hround
        obtain ⟨hsame₂, -, hsublists⟩ := ih (child_ne_empty path n.str) hsub
        cases hround
        rw [World.next_remote, hsame.remote, hloc] at hsublists
        refine ⟨⟨hsame₂.remote.trans hsame.remote, hsame₂.disk.trans hsame.disk⟩,
          (hlists.extend hsublists).mono ?_⟩
        rintro names - ⟨n', rest, rfl, hmem⟩ -
        rcases List.mem_append.mp hmem with hmem | hmem
        · exact .inl ⟨n', rest, rfl, hmem⟩
        · exact .inr ⟨rest, by rw [FileName.ext (List.mem_singleton.mp hmem)]⟩
      · -- a file
        rw [isDir_fileMetadata, if_neg (by decide)] at hround
        cases hround
        refine ⟨hsame.next, (hlists.insert [n] hf).mono ?_⟩
        rintro names g ⟨n', rest, rfl, hmem⟩ hg
        rcases List.mem_append.mp hmem with hmem | hmem
        · exact .inl ⟨n', rest, rfl, hmem⟩
        · right
          rw [FileName.ext (List.mem_singleton.mp hmem)] at hg ⊢
          obtain rfl := eq_nil_of_below_file [n] hf hg
          rfl

/-- Without failures, a directory no deeper than the fuel allows is listed. -/
theorem listRemoteFiles_ok {env : Env} (hok : env.NoFailure) {t : Tree} {depth : Nat}
    (hdepth : ∀ p, t.get p ≠ none → p.length ≤ depth) (fuel : Nat) {path : String} {w : World}
    (hremote : w.remote = t) (hpath : path ≠ "")
    (hdir : t.get (env.remoteLoc path) = some .dir)
    (hfuel : depth < (env.remoteLoc path).length + fuel) :
    ∃ m w', exec (step env) (listRemoteFiles fuel path) w = (.ok m, w') ∧ SameTrees w w' := by
  suffices h : ∃ m w', exec (step env) (listRemoteFiles fuel path) w = (.ok m, w') by
    obtain ⟨m, w', hrun⟩ := h
    exact ⟨m, w', hrun, (listRemoteFiles_lists hpath hrun).1⟩
  induction fuel generalizing path w with
  | zero =>
    have hlen := hdepth (env.remoteLoc path) (by simp [hdir])
    omega
  | succ fuel ih =>
    rw [listRemoteFiles, exec_bind_ok (by
      rw [exec_withContext_eq_ok]
      exact exec_readDir_ok (hok _) (hremote ▸ hdir))]
    refine (exec_foldlM_ok (I := fun _ _ w₁ => w₁.remote = t) (s := w.next) ?_ hremote).imp
      fun _ => .imp fun _ h => h.1
    intro done name rest files s hsplit hs
    obtain ⟨n, hn, rfl⟩ : ∃ n ∈ w.remote.children (env.remoteLoc path), n.str = name :=
      List.mem_map.mp (hsplit ▸ by simp)
    have hloc : env.remoteLoc (child path n.str) = n :: env.remoteLoc path :=
      walk_child_name _ _ _ hpath
    rw [FileTree.mem_children, hremote] at hn
    obtain ⟨node, hnode⟩ := Option.ne_none_iff_exists'.mp hn
    rcases node with f | _
    · -- a file
      refine ⟨files.insert (child path n.str) (remoteInfo f), s.next, ?_, hs⟩
      rw [exec_bind_ok (by
        rw [exec_withContext_eq_ok]
        exact exec_metadata_file (hok _) (by rw [hloc, hs, hnode])), isDir_fileMetadata,
        if_neg (by decide)]
      rfl
    · -- a directory
      obtain ⟨sub, s', hsub⟩ := ih (w := s.next) hs (child_ne_empty path n.str)
        (by rw [hloc, hnode]) (by rw [hloc, List.length_cons]; omega)
      obtain ⟨hsame, -, -⟩ := listRemoteFiles_lists (child_ne_empty path n.str) hsub
      refine ⟨files.extend sub, s', ?_, hsame.remote.trans hs⟩
      rw [exec_bind_ok (by
        rw [exec_withContext_eq_ok]
        exact exec_metadata_dir (hok _) (by rw [hloc, hs, hnode])), isDir_dirMetadata,
        if_pos rfl, exec_bind_ok hsub]
      rfl

/-! ## `list_local_files` -/

/-- What `list_local_files` records of a file. -/
def localInfo (f : File) : RemoteFileInfo :=
  ⟨f.content.length, f.mtime, some (sIfreg ||| (f.perm &&& 0o7777))⟩

theorem diskLoc_below {env : Env} {root : String} {p : Loc} (hp : env.diskLoc root = some p)
    (names : List FileName) : env.diskLoc (below root names) = some (names.reverse ++ p) := by
  unfold Env.diskLoc at hp ⊢
  split at hp
  · cases hp
  · next hroot =>
    rw [if_neg (below_ne_empty hroot names), walk_below _ hroot, Option.some.inj hp]

/-- The stack holds directories below the root. -/
def StackBelow (root : String) (stack : List String) : Prop :=
  ∀ dir ∈ stack, ∃ names, dir = below root names

/-- A file that some directory on the stack will still lead to. -/
def Pending (root : String) (stack : List String) (names : List FileName) : Prop :=
  ∃ dirs, below root dirs ∈ stack ∧ dirs <+: names

/-- After some entries of a directory: what is below these is in the map, or below a directory that
was pushed. -/
structure EntriesListed (root : String) (p : Loc) (dirs : List FileName) (stack : List String)
    (w : World) (done : List String) (state : List String × FileMap) (w₁ : World) : Prop where
  same : SameTrees w w₁
  stack_below : StackBelow root state.1
  pushed : stack ⊆ state.1
  lists : Lists localInfo w.disk p root (fun names =>
    ¬ Pending root (below root dirs :: stack) names ∨
      ∃ n rest, names = dirs ++ n :: rest ∧ n.str ∈ done ∧
        below root (dirs ++ [n]) ∉ state.1) state.2

/-- What one more entry adds to those that are done, once it is settled itself. -/
theorem exists_entry_done {root : String} {dirs names : List FileName} {n : FileName}
    {done stack stack' : List String} (hstack : stack ⊆ stack')
    (h : ∃ n' rest, names = dirs ++ n' :: rest ∧ n'.str ∈ done ++ [n.str] ∧
      below root (dirs ++ [n']) ∉ stack') :
    (∃ n' rest, names = dirs ++ n' :: rest ∧ n'.str ∈ done ∧ below root (dirs ++ [n']) ∉ stack) ∨
      ∃ rest, names = dirs ++ n :: rest ∧ below root (dirs ++ [n]) ∉ stack' := by
  obtain ⟨n', rest, rfl, hmem, hnot⟩ := h
  rcases List.mem_append.mp hmem with hmem | hmem
  · exact .inl ⟨n', rest, rfl, hmem, fun hold => hnot (hstack hold)⟩
  · obtain rfl := FileName.ext (List.mem_singleton.mp hmem)
    exact .inr ⟨rest, rfl, hnot⟩

theorem EntriesListed.entry {env : Env} {root : String} {p : Loc} (hp : env.diskLoc root = some p)
    {dirs : List FileName} {n : FileName} {stack done : List String}
    {state state' : List String × FileMap} {w s s' : World}
    (h : EntriesListed root p dirs stack w done state s)
    (hrun : exec (step env) (listLocalEntry (below root dirs) state n.str) s = (.ok state', s')) :
    EntriesListed root p dirs stack w (done ++ [n.str]) state' s' := by
  obtain ⟨hsame, hbelow, hsub, hall⟩ := h
  have hchild : child (below root dirs) n.str = below root (dirs ++ [n]) :=
    (below_append root dirs n).symm
  obtain ⟨_, s₁, hnext, hrun⟩ := exec_bind_eq_ok hrun
  rw [exec_propagate_eq_ok] at hnext
  obtain rfl := exec_fsNextEntry_eq_ok hnext
  obtain ⟨isDir, s₂, htype, hrun⟩ := exec_bind_eq_ok hrun
  rw [exec_propagate_eq_ok] at htype
  obtain ⟨q, node, hq, hnode, rfl, rfl⟩ := exec_fsFileType_eq_ok htype
  rw [hchild, diskLoc_below hp] at hq
  obtain rfl := Option.some.inj hq
  rw [World.next_disk, hsame.disk] at hnode
  rcases node with f | _
  · -- a file goes into the map
    obtain ⟨attrs, s₃, hattrs, hrun⟩ := exec_bind_eq_ok hrun
    rw [exec_propagate_eq_ok] at hattrs
    obtain ⟨q, node, hq, hnode', rfl, rfl⟩ := exec_fsEntryMetadata_eq_ok hattrs
    rw [hchild, diskLoc_below hp] at hq
    obtain rfl := Option.some.inj hq
    rw [World.next_disk, World.next_disk, hsame.disk, hnode] at hnode'
    obtain rfl := Option.some.inj hnode'
    cases hrun
    rw [hchild]
    refine ⟨hsame.next.next.next, hbelow, hsub, (hall.insert _ (f := f) hnode).mono ?_⟩
    rintro names g (hold | hnew) hg
    · exact .inl (.inl hold)
    · rcases exists_entry_done (List.Subset.refl _) hnew with hnew | ⟨rest, rfl, -⟩
      · exact .inl (.inr hnew)
      · rw [List.append_cons] at hg ⊢
        obtain rfl := eq_nil_of_below_file _ hnode hg
        exact .inr (List.append_nil _)
  · -- a directory goes onto the stack
    cases hrun
    simp only [hchild]
    have hpush : state.1 ⊆ below root (dirs ++ [n]) :: state.1 := List.subset_cons_self _ _
    refine ⟨hsame.next.next, ?_, List.Subset.trans hsub hpush, hall.mono ?_⟩
    · intro dir hmem
      rcases List.mem_cons.mp hmem with rfl | hmem
      · exact ⟨_, rfl⟩
      · exact hbelow dir hmem
    · rintro names g (hold | hnew) -
      · exact .inl hold
      · rcases exists_entry_done hpush hnew with hnew | ⟨rest, -, hnot⟩
        · exact .inr hnew
        · exact absurd List.mem_cons_self hnot

/-- One round takes a directory off the stack: what is below it is now in the map or below a
directory that was pushed. -/
theorem listLocalDir_lists {env : Env} {root : String} {p : Loc} (hp : env.diskLoc root = some p)
    (hroot : root ≠ "") {dirs : List FileName} {stack stack' : List String}
    {files files' : FileMap} {w w' : World} (hstack : StackBelow root stack)
    (hlists : Lists localInfo w.disk p root
      (fun names => ¬ Pending root (below root dirs :: stack) names) files)
    (hrun : exec (step env) (listLocalDir (below root dirs) stack files) w
      = (.ok (stack', files'), w')) :
    SameTrees w w' ∧ StackBelow root stack' ∧
      Lists localInfo w.disk p root (fun names => ¬ Pending root stack' names) files' := by
  rw [listLocalDir] at hrun
  obtain ⟨rd, w₁, hread, hrun⟩ := exec_bind_eq_ok hrun
  rw [exec_withContext_eq_ok] at hread
  obtain ⟨q, hq, hdir, rfl, rfl⟩ := exec_fsReadDir_eq_ok hread
  rw [diskLoc_below hp] at hq
  obtain rfl := Option.some.inj hq
  obtain ⟨state, w₂, hloop, hrun⟩ := exec_bind_eq_ok hrun
  obtain ⟨_, w₃, hlast, hrun⟩ := exec_bind_eq_ok hrun
  rw [exec_propagate_eq_ok] at hlast
  obtain rfl := exec_fsNextEntry_eq_ok hlast
  cases hrun
  have hinit : EntriesListed root p dirs stack w [] (stack, files) w.next :=
    ⟨(SameTrees.refl w).next, hstack, fun _ h => h, hlists.mono fun names _ h _ =>
      h.resolve_right (by rintro ⟨_, _, _, hnil, _⟩; cases hnil)⟩
  have hinv := exec_foldlM_eq_ok (I := EntriesListed root p dirs stack w)
    (fun done name rest state state' s s' hsplit hI hround => by
      obtain ⟨n, -, rfl⟩ : ∃ n ∈ w.disk.children (dirs.reverse ++ p), n.str = name :=
        List.mem_map.mp (hsplit ▸ by simp)
      exact hI.entry hp hround) hinit hloop
  refine ⟨hinv.same.next, hinv.stack_below, hinv.lists.mono fun names f hnot hf => ?_⟩
  by_cases hbelow : dirs <+: names
  · -- below the directory itself
    obtain ⟨tail, rfl⟩ := hbelow
    rw [List.reverse_append, List.append_assoc] at hf
    obtain ⟨n, rest, rfl, hmem⟩ := exists_child_of_file hdir hf
    refine .inr ⟨n, rest, rfl, List.mem_map_of_mem hmem, fun hpushed => ?_⟩
    exact hnot ⟨dirs ++ [n], hpushed, ⟨rest, by simp⟩⟩
  · -- elsewhere nothing has changed
    refine .inl ?_
    rintro ⟨ds, hds, hpre⟩
    rcases List.mem_cons.mp hds with heq | hds
    · exact hbelow (below_injective hroot heq ▸ hpre)
    · exact hnot ⟨ds, hinv.pushed hds, hpre⟩

theorem listLocalStack_lists {env : Env} {root : String} {p : Loc}
    (hp : env.diskLoc root = some p) (hroot : root ≠ "") {fuel : Nat} (stack : List String)
    {files m : FileMap} {w w' : World} (hstack : StackBelow root stack)
    (hlists : Lists localInfo w.disk p root (fun names => ¬ Pending root stack names) files)
    (hrun : exec (step env) (listLocalStack fuel stack files) w = (.ok m, w')) :
    SameTrees w w' ∧ Lists localInfo w.disk p root (fun _ => True) m := by
  induction fuel generalizing stack files w with
  | zero =>
    rcases stack with _ | ⟨dir, stack⟩
    · cases hrun
      exact ⟨.refl _, hlists.mono fun _ _ _ _ => by simp [Pending]⟩
    · cases hrun
  | succ fuel ih =>
    rcases stack with _ | ⟨dir, stack⟩
    · cases hrun
      exact ⟨.refl _, hlists.mono fun _ _ _ _ => by simp [Pending]⟩
    · -- one round moves what was pending under `dir` to the listing or to the new stack
      obtain ⟨dirs, rfl⟩ := hstack dir List.mem_cons_self
      obtain ⟨⟨stack', files'⟩, w₁, hround, hrun⟩ := exec_bind_eq_ok hrun
      obtain ⟨hsame, hstack', hlists'⟩ := listLocalDir_lists hp hroot
        (fun d hd => hstack d (List.mem_cons_of_mem _ hd)) hlists hround
      rw [← hsame.disk] at hlists' ⊢
      obtain ⟨hsame', hall⟩ := ih _ hstack' hlists' hrun
      exact ⟨⟨hsame'.remote.trans hsame.remote, hsame'.disk.trans hsame.disk⟩, hall⟩

theorem listLocalFiles_lists {env : Env} {root : String} {fuel : Nat} {m : FileMap} {w w' : World}
    (hrun : exec (step env) (listLocalFiles fuel root) w = (.ok m, w')) :
    ∃ p, env.diskLoc root = some p ∧ w.disk.get p = some .dir ∧ SameTrees w w' ∧
      Lists localInfo w.disk p root (fun _ => True) m := by
  rcases fuel with _ | fuel
  · cases hrun
  -- the root was read, so it is a directory
  obtain ⟨state, w₁, hround, -⟩ := exec_bind_eq_ok hrun
  obtain ⟨rd, w₂, hread, -⟩ := exec_bind_eq_ok hround
  rw [exec_withContext_eq_ok] at hread
  obtain ⟨p, hp, hdir, -, -⟩ := exec_fsReadDir_eq_ok hread
  have hroot : root ≠ "" := Env.ne_empty_of_diskLoc hp
  obtain ⟨hsame, hall⟩ := listLocalStack_lists hp hroot [root]
    (fun dir hdir => ⟨[], List.mem_singleton.mp hdir⟩)
    (Lists.empty.mono fun names _ h _ =>
      h ⟨[], List.mem_singleton_self _, List.nil_prefix⟩) hrun
  exact ⟨p, hp, hdir, hsame, hall⟩

/-! ### Enough fuel

The rounds spent on a directory and all that is below it do not depend on what else is on the
stack, so they add up. -/

section Fuel

variable {env : Env} {t : Tree} {root : String} {p : Loc}

/-- The directories among the entries `ns` of `dirs`, last first: what a round pushes. -/
def dirsAmong (t : Tree) (p : Loc) (dirs ns : List FileName) : List (List FileName) :=
  ((ns.filter fun n => t.isDir (n :: (dirs.reverse ++ p))).map fun n => dirs ++ [n]).reverse

/-- The directories that a round on `dirs` pushes, topmost first. -/
def subdirs (t : Tree) (p : Loc) (dirs : List FileName) : List (List FileName) :=
  dirsAmong t p dirs (t.children (dirs.reverse ++ p))

theorem listLocalDir_ok (hok : env.NoFailure) (hp : env.diskLoc root = some p)
    {dirs : List FileName} (hdir : t.get (dirs.reverse ++ p) = some .dir) (stack : List String)
    (files : FileMap) {w : World} (hw : w.disk = t) :
    ∃ files' w', exec (step env) (listLocalDir (below root dirs) stack files) w
      = (.ok ((subdirs t p dirs).map (below root) ++ stack, files'), w') ∧ w'.disk = t := by
  have hread : exec (step env) (withContext s!"cannot read directory: {below root dirs}"
      (fsReadDir (below root dirs))) w
        = (.ok ((t.children (dirs.reverse ++ p)).map FileName.str), w.next) := by
    rw [exec_withContext_eq_ok, ← hw]
    exact exec_fsReadDir_ok (hok _) (diskLoc_below hp dirs) (hw ▸ hdir)
  have hloop := exec_foldlM_ok (h := step env) (f := listLocalEntry (below root dirs))
    (s := w.next) (b := (stack, files)) (l := (t.children (dirs.reverse ++ p)).map FileName.str)
    (I := fun done state s => s.disk = t ∧ ∃ ns : List FileName,
      done = ns.map FileName.str ∧ state.1 = (dirsAmong t p dirs ns).map (below root) ++ stack)
    ?_ ⟨hw, [], rfl, rfl⟩
  · obtain ⟨⟨stack', files'⟩, w', hrun, hw', ns, hns, hstack⟩ := hloop
    have hns : t.children (dirs.reverse ++ p) = ns :=
      List.map_injective_iff.mpr (fun _ _ => FileName.ext) hns
    have hstack : stack' = (subdirs t p dirs).map (below root) ++ stack := by
      rw [subdirs, hns]
      exact hstack
    refine ⟨files', w'.next, ?_, hw'⟩
    rw [listLocalDir, exec_bind_ok hread, exec_bind_ok hrun, exec_bind_ok (by
      rw [exec_propagate_eq_ok]
      exact exec_fsNextEntry_ok (hok _)), exec_pure, hstack]
  · rintro done name rest ⟨stack', files'⟩ s hsplit ⟨hs, ns, rfl, hstack⟩
    obtain ⟨n, hn, rfl⟩ : ∃ n ∈ t.children (dirs.reverse ++ p), n.str = name :=
      List.mem_map.mp (hsplit ▸ by simp)
    obtain ⟨node, hnode⟩ := Option.ne_none_iff_exists'.mp (FileTree.mem_children.mp hn)
    have hloc : env.diskLoc (child (below root dirs) n.str)
        = some (n :: (dirs.reverse ++ p)) := by
      rw [← below_append, diskLoc_below hp]
      simp
    rw [listLocalEntry, exec_bind_ok (by
      rw [exec_propagate_eq_ok]
      exact exec_fsNextEntry_ok (hok _)), exec_bind_ok (by
      rw [exec_propagate_eq_ok]
      exact exec_fsFileType_ok (hok _) hloc (hs ▸ hnode))]
    rcases node with f | _
    · -- a file
      rw [show (localMetadata env.dirMode (.file f)).isDir = false from rfl,
        if_neg (by decide), exec_bind_ok (by
          rw [exec_propagate_eq_ok]
          exact exec_fsEntryMetadata_ok (hok _) hloc (hs ▸ hnode))]
      refine ⟨_, _, exec_pure _ _ _, hs, ns ++ [n], by simp, ?_⟩
      have hfile : t.isDir (n :: (dirs.reverse ++ p)) = false := by
        simp [FileTree.isDir, hnode]
      simpa [dirsAmong, List.filter_append, hfile] using hstack
    · -- a directory
      rw [show (localMetadata env.dirMode .dir).isDir = true from rfl, if_pos rfl]
      refine ⟨_, _, exec_pure _ _ _, hs, ns ++ [n], by simp, ?_⟩
      have hdir : t.isDir (n :: (dirs.reverse ++ p)) = true := FileTree.isDir_iff.mpr hnode
      rw [← below_append]
      simpa [dirsAmong, List.filter_append, hdir] using hstack

/-- A directory on top of the stack is dealt with in a number of rounds of its own. -/
def Finishes (env : Env) (t : Tree) (root : String) (tops : List (List FileName)) (rounds : Nat) :
    Prop :=
  ∀ fuel stack files w, w.disk = t → ∃ files' w', w'.disk = t ∧
    exec (step env) (listLocalStack (fuel + rounds) (tops.map (below root) ++ stack) files) w
      = exec (step env) (listLocalStack fuel stack files') w'

theorem finishes_nil : Finishes env t root [] 0 :=
  fun _ _ files w hw => ⟨files, w, hw, rfl⟩

theorem finishes_cons {top : List FileName} {tops : List (List FileName)} {a b : Nat}
    (htop : Finishes env t root [top] a) (htops : Finishes env t root tops b) :
    Finishes env t root (top :: tops) (b + a) := by
  intro fuel stack files w hw
  obtain ⟨files₁, w₁, hw₁, h₁⟩ :=
    htop (fuel + b) (tops.map (below root) ++ stack) files w hw
  obtain ⟨files₂, w₂, hw₂, h₂⟩ := htops fuel stack files₁ w₁ hw₁
  refine ⟨files₂, w₂, hw₂, ?_⟩
  rw [← h₂, ← h₁, ← Nat.add_assoc]
  rfl

theorem exists_finishes (hok : env.NoFailure) (hp : env.diskLoc root = some p) {depth : Nat}
    (hdepth : ∀ q, t.get q ≠ none → q.length ≤ depth) (k : Nat) (dirs : List FileName)
    (hdir : t.get (dirs.reverse ++ p) = some .dir)
    (hk : depth < (dirs.reverse ++ p).length + k) :
    ∃ rounds, Finishes env t root [dirs] rounds := by
  induction k generalizing dirs with
  | zero =>
    -- the directory would be deeper than the tree
    have hlen := hdepth _ (by rw [hdir]; simp)
    omega
  | succ k ih =>
    -- the rounds of the subdirectories add up, one after the other
    have hsub : ∀ tops : List (List FileName), (∀ top ∈ tops, top ∈ subdirs t p dirs) →
        ∃ rounds, Finishes env t root tops rounds := by
      intro tops
      induction tops with
      | nil => exact fun _ => ⟨0, finishes_nil⟩
      | cons top tops ihtops =>
        intro hmem
        obtain ⟨b, hb⟩ := ihtops fun t ht => hmem t (List.mem_cons_of_mem _ ht)
        have htop := hmem top List.mem_cons_self
        simp only [subdirs, dirsAmong, List.mem_reverse, List.mem_map, List.mem_filter] at htop
        obtain ⟨n, ⟨-, hn⟩, rfl⟩ := htop
        obtain ⟨a, ha⟩ := ih (dirs ++ [n])
          (by simpa using FileTree.isDir_iff.mp hn) (by simp at hk ⊢; omega)
        exact ⟨b + a, finishes_cons ha hb⟩
    obtain ⟨rounds, hrounds⟩ := hsub _ fun _ h => h
    refine ⟨rounds + 1, fun fuel stack files w hw => ?_⟩
    obtain ⟨files₁, w₁, hround, hw₁⟩ := listLocalDir_ok hok hp hdir stack files hw
    obtain ⟨files₂, w₂, hw₂, h₂⟩ := hrounds fuel stack files₁ w₁ hw₁
    refine ⟨files₂, w₂, hw₂, ?_⟩
    rw [← h₂]
    exact exec_bind_ok hround _

theorem listLocalFiles_ok (hok : env.NoFailure) (hp : env.diskLoc root = some p)
    (hdir : t.get p = some .dir) :
    ∃ rounds, ∀ fuel, rounds ≤ fuel → ∀ w : World, w.disk = t →
      ∃ m w', exec (step env) (listLocalFiles fuel root) w = (.ok m, w') := by
  obtain ⟨depth, hdepth⟩ := FileTree.exists_depth t
  obtain ⟨rounds, hrounds⟩ := exists_finishes hok hp hdepth (depth + 1) [] hdir
    (by simp; omega)
  refine ⟨rounds, fun fuel hfuel w hw => ?_⟩
  obtain ⟨extra, rfl⟩ := Nat.exists_eq_add_of_le' hfuel
  obtain ⟨files', w', -, hrun⟩ := hrounds extra [] ∅ w hw
  refine ⟨files', w', hrun.trans ?_⟩
  cases extra <;> rfl

end Fuel

end Passhrs
