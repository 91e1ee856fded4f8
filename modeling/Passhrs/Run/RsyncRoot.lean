import Passhrs.Lib.Separators
import Passhrs.Run.FileSpec
import Passhrs.Run.Main

/-!
# The root of an rsync

`--rsync` takes a local and a remote path, and `run` passes both through `expand_path` before it
checks that they are absolute. Two runs with one spec and two home directories show which path of
the local machine ends up on the other one.

* **`remote_root_iff`**: the specs whose remote root is the same under every home directory.
-/

namespace Passhrs

open Text Effects

/-! ## Expanding a path -/

/-- `expand_path`. `home` is what `dirs::home_dir` returns, displayed. -/
def expandPath (home : Option String) (path : String) : String :=
  let expanded :=
    if path = "~" then home.getD path
    else
      (Text.stripPrefix "~/" path).elim path fun rest =>
        home.elim path fun home => home ++ "/" ++ rest
  normalizeSlashes expanded

/-- A path that is expanded. -/
def TildePath (path : String) : Prop := path = "~" ∨ ∃ rest, path = "~/" ++ rest

theorem normalizeSlashes_append (s t : String) :
    normalizeSlashes (s ++ t) = normalizeSlashes s ++ normalizeSlashes t := by
  rw [normalizeSlashes, normalizeSlashes, normalizeSlashes, String.toList_append, List.map_append,
    String.ofList_append]

theorem normalizeSlashes_idem (s : String) :
    normalizeSlashes (normalizeSlashes s) = normalizeSlashes s := by
  unfold normalizeSlashes
  rw [String.toList_ofList, List.map_map]
  congr 1
  refine List.map_congr_left fun c _ => ?_
  by_cases hc : c = '\\'
  · simp [hc]
  · simp [hc]

/-- Both paths of a spec come with their slashes turned. -/
theorem normalized_of_parseFileSpec {spec left right : String}
    (h : parseFileSpec spec = .ok (left, right)) :
    normalizeSlashes left = left ∧ normalizeSlashes right = right := by
  unfold parseFileSpec at h
  split at h
  · cases h
  · obtain ⟨rfl, rfl⟩ := Prod.mk.inj (Except.ok.inj h)
    exact ⟨normalizeSlashes_idem _, normalizeSlashes_idem _⟩

theorem expandPath_of_not_tilde {path : String} (h : ¬ TildePath path) (home : Option String) :
    expandPath home path = normalizeSlashes path := by
  have hslash : Text.stripPrefix "~/" path = none := by
    rcases hstrip : Text.stripPrefix "~/" path with _ | rest
    · rfl
    · exact absurd (.inr ⟨rest, stripPrefix_eq_some_iff.mp hstrip⟩) h
  unfold expandPath
  rw [if_neg fun hpath => h (.inl hpath), hslash]
  rfl

theorem expandPath_none (path : String) : expandPath none path = normalizeSlashes path := by
  unfold expandPath
  split
  · rfl
  · rcases Text.stripPrefix "~/" path with _ | rest
    · rfl
    · rfl

theorem isAbsolutePath_iff {s : String} :
    isAbsolutePath s = true ↔ (∃ l, s.toList = '/' :: l) ∨
      ∃ a c l, s.toList = a :: ':' :: c :: l ∧ a.isAlpha = true ∧ (c = '/' ∨ c = '\\') := by
  unfold isAbsolutePath
  split
  · next l hs => exact iff_of_true rfl (.inl ⟨l, hs⟩)
  · next a c l hslash hs =>
    rw [Bool.and_eq_true, Bool.or_eq_true, decide_eq_true_eq, decide_eq_true_eq]
    constructor
    · rintro ⟨ha, hc⟩
      exact .inr ⟨a, c, l, hs, ha, hc⟩
    · rintro (⟨l', hl'⟩ | ⟨a', c', l', hl', ha', hc'⟩)
      · exact absurd (List.cons.inj (hs.symm.trans hl')).1 hslash
      · rw [hs] at hl'
        obtain ⟨rfl, hrest⟩ := List.cons.inj hl'
        obtain ⟨rfl, -⟩ := List.cons.inj (List.cons.inj hrest).2
        exact ⟨ha', hc'⟩
  · next hslash hdrive =>
    refine iff_of_false Bool.false_ne_true ?_
    rintro (⟨l, hl⟩ | ⟨a, c, l, hl, -⟩)
    · exact hslash l hl
    · exact hdrive a c l hl

theorem isAbsolutePath_append {s : String} (h : isAbsolutePath s = true) (t : String) :
    isAbsolutePath (s ++ t) = true := by
  rw [isAbsolutePath_iff] at h ⊢
  rw [String.toList_append]
  rcases h with ⟨l, hl⟩ | ⟨a, c, l, hl, ha, hc⟩
  · exact .inl ⟨l ++ t.toList, by rw [hl]; rfl⟩
  · exact .inr ⟨a, c, l ++ t.toList, by rw [hl]; rfl, ha, hc⟩

theorem not_isAbsolutePath_of_tilde {path : String} (h : path.toList.head? = some '~') :
    isAbsolutePath path = false := by
  obtain ⟨l, hl⟩ := List.head?_eq_some_iff.mp h
  rw [Bool.eq_false_iff, ne_eq, isAbsolutePath_iff, hl]
  rintro (⟨l', hl'⟩ | ⟨a, c, l', hl', ha, -⟩)
  · exact absurd (List.cons.inj hl').1 (by decide)
  · rw [← (List.cons.inj hl').1] at ha
    exact absurd ha (by decide)

theorem TildePath.head? {path : String} (h : TildePath path) : path.toList.head? = some '~' := by
  rcases h with rfl | ⟨rest, rfl⟩
  · decide
  · simp

/-- A home directory. -/
structure HomeDir where
  path : String
  absolute : isAbsolutePath (normalizeSlashes path) = true

theorem isAbsolutePath_expandPath {path : String} (h : TildePath path) (home : HomeDir) :
    isAbsolutePath (expandPath (some home.path) path) = true := by
  unfold expandPath
  rcases h with rfl | ⟨rest, rfl⟩
  · exact home.absolute
  · have hne : "~/" ++ rest ≠ "~" := by
      rw [ne_eq, ← String.toList_inj]
      simp
    rw [if_neg hne, Text.stripPrefix_append, Option.elim_some, Option.elim_some,
      String.append_assoc, normalizeSlashes_append]
    exact isAbsolutePath_append home.absolute _

/-! ## The root of a run -/

/-- A process with a home directory, or with none. -/
def withHome (ctx : Surroundings) (home : Option String) : Surroundings :=
  { ctx with parseFileSpec := parseFileSpec, expandPath := expandPath home }

/-- The remote roots that `rsync_upload` was called with. -/
def RunLog.remoteRoots (log : RunLog) : List String :=
  log.filterMap fun e =>
    match e with
    | ⟨.rsyncUpload _ remotePath _, _⟩ => some remotePath
    | _ => none

variable {τ : Type}

/-- The remote roots of a run with the home directory. -/
def remoteRoots (h : Handler RunOp RunOp.Res τ) (ctx : Surroundings) (cli : Cli) (spec : String)
    (t : τ) (home : Option String) : List String :=
  RunLog.remoteRoots (execLog h (rsyncSpec (withHome ctx home) cli spec) t)

theorem remoteRoots_eq (h : Handler RunOp RunOp.Res τ) (ctx : Surroundings) (cli : Cli)
    (spec : String) (t : τ) (home : Option String) :
    remoteRoots h ctx cli spec t home =
      match parseFileSpec spec with
      | .error _ => []
      | .ok (left, right) =>
        if isAbsolutePath (expandPath home right) = true ∧
          isAbsolutePath (expandPath home left) = true then [expandPath home right] else [] := by
  unfold remoteRoots rsyncSpec
  have hcall : exec h (ofResult (parseFileSpec spec) : RunM (String × String)) t =
      (parseFileSpec spec, t) := rfl
  rcases hparse : parseFileSpec spec with e | ⟨left, right⟩
  · rw [hparse] at hcall
    show RunLog.remoteRoots (execLog h (ofResult (parseFileSpec spec) >>= _) t) = _
    rw [hparse, execLog_bind_error hcall]
    rfl
  · rw [hparse] at hcall
    show RunLog.remoteRoots (execLog h (ofResult (parseFileSpec spec) >>= _) t) = _
    rw [hparse, execLog_bind_ok hcall]
    dsimp only [withHome]
    by_cases habsolute : isAbsolutePath (expandPath home right) = true ∧
        isAbsolutePath (expandPath home left) = true
    · rw [if_pos habsolute, if_neg (by simp [habsolute])]
      rfl
    · rw [if_neg habsolute, if_pos (by simpa [-not_and, not_and_or] using habsolute)]
      rfl

/-! ## The same root in both runs -/

/-- Both runs pass the same remote root or none, and none in the place of a remote path that begins
with a tilde. -/
structure RootKept (spec : String) (roots roots' : List String) : Prop where
  same : roots = roots'
  tilde : ∀ left right, parseFileSpec spec = .ok (left, right) → right.toList.head? = some '~' →
    ∀ root ∈ roots ++ roots', root = right

/-- The remote path is one that is expanded, and the local path does not fail the check. -/
def TildeRoot (spec : String) : Prop :=
  ∃ left right, parseFileSpec spec = .ok (left, right) ∧ TildePath right ∧
    (TildePath left ∨ isAbsolutePath left = true)

/-- The local path is one that is expanded, and the remote path does not fail the check. -/
def TildeSource (spec : String) : Prop :=
  ∃ left right, parseFileSpec spec = .ok (left, right) ∧ isAbsolutePath right = true ∧
    TildePath left

variable {h : Handler RunOp RunOp.Res τ} {ctx : Surroundings} {cli : Cli} {spec : String} {t : τ}
  {left right : String}

/-- A local path that fails the check in every run passes nothing. -/
theorem remoteRoots_of_relative (hparse : parseFileSpec spec = .ok (left, right))
    (htilde : ¬ TildePath left) (hrelative : isAbsolutePath left = false) (home : Option String) :
    remoteRoots h ctx cli spec t home = [] := by
  have hleft := (normalized_of_parseFileSpec hparse).1
  rw [remoteRoots_eq, hparse]
  dsimp only
  rw [if_neg]
  rw [expandPath_of_not_tilde htilde, hleft, hrelative]
  exact fun habsolute => Bool.false_ne_true habsolute.2

/-- A remote path that is not expanded is passed as it is. -/
theorem remoteRoots_of_not_tilde (hparse : parseFileSpec spec = .ok (left, right))
    (htilde : ¬ TildePath right) (home : Option String) :
    remoteRoots h ctx cli spec t home =
      if isAbsolutePath right = true ∧ isAbsolutePath (expandPath home left) = true then [right]
      else [] := by
  rw [remoteRoots_eq, hparse]
  dsimp only
  rw [expandPath_of_not_tilde htilde, (normalized_of_parseFileSpec hparse).2]

theorem RootKept.of_nil {roots roots' : List String} (hroots : roots = []) (hroots' : roots' = []) :
    RootKept spec roots roots' := by
  subst hroots hroots'
  exact ⟨rfl, fun _ _ _ _ _ hroot => by cases hroot⟩

theorem RootKept.of_error {e : String} (hparse : parseFileSpec spec = .error e)
    (home home' : Option String) :
    RootKept spec (remoteRoots h ctx cli spec t home) (remoteRoots h ctx cli spec t home') := by
  have hroots : ∀ home, remoteRoots h ctx cli spec t home = [] := by
    intro home
    rw [remoteRoots_eq, hparse]
  exact .of_nil (hroots home) (hroots home')

/-- A remote path that is expanded is kept where the local path fails the check. -/
theorem RootKept.of_tilde (hparse : parseFileSpec spec = .ok (left, right))
    (htilde : TildePath right) (hroot : ¬ TildeRoot spec) (home home' : Option String) :
    RootKept spec (remoteRoots h ctx cli spec t home) (remoteRoots h ctx cli spec t home') := by
  have hleft : ¬ (TildePath left ∨ isAbsolutePath left = true) := fun hleft =>
    hroot ⟨left, right, hparse, htilde, hleft⟩
  rw [not_or, Bool.not_eq_true] at hleft
  exact .of_nil (remoteRoots_of_relative hparse hleft.1 hleft.2 home)
    (remoteRoots_of_relative hparse hleft.1 hleft.2 home')

/-- A remote path that is not expanded is kept, if the check of the local path comes out as
before. -/
theorem RootKept.of_not_tilde (hparse : parseFileSpec spec = .ok (left, right))
    (htilde : ¬ TildePath right) {home home' : Option String}
    (hleft : isAbsolutePath right = true →
      isAbsolutePath (expandPath home left) = isAbsolutePath (expandPath home' left)) :
    RootKept spec (remoteRoots h ctx cli spec t home) (remoteRoots h ctx cli spec t home') := by
  rcases hright : isAbsolutePath right
  · have hroots : ∀ home, remoteRoots h ctx cli spec t home = [] := by
      intro home
      rw [remoteRoots_of_not_tilde hparse htilde, hright]
      exact if_neg fun habsolute => Bool.false_ne_true habsolute.1
    exact .of_nil (hroots home) (hroots home')
  · constructor
    · rw [remoteRoots_of_not_tilde hparse htilde, remoteRoots_of_not_tilde hparse htilde,
        hleft hright]
    · intro left' right' hparse' hhead
      obtain ⟨-, rfl⟩ := Prod.mk.inj (Except.ok.inj (hparse.symm.trans hparse'))
      rw [not_isAbsolutePath_of_tilde hhead] at hright
      cases hright

/-- Under a home directory the root is kept, unless the remote path is expanded and passed. -/
theorem rootKept_iff (home home' : HomeDir) :
    RootKept spec (remoteRoots h ctx cli spec t (some home.path))
        (remoteRoots h ctx cli spec t (some home'.path)) ↔ ¬ TildeRoot spec := by
  constructor
  · rintro ⟨-, htilde⟩ ⟨left, right, hparse, hright, hleft⟩
    have habsolute : isAbsolutePath (expandPath (some home.path) left) = true := by
      by_cases hpath : TildePath left
      · exact isAbsolutePath_expandPath hpath home
      · rw [expandPath_of_not_tilde hpath, (normalized_of_parseFileSpec hparse).1]
        exact hleft.resolve_left hpath
    -- a root with a tilde is expanded with this side's home, and so begins with a slash
    have hroot : expandPath (some home.path) right ∈
        remoteRoots h ctx cli spec t (some home.path) := by
      rw [remoteRoots_eq, hparse]
      dsimp only
      rw [if_pos ⟨isAbsolutePath_expandPath hright home, habsolute⟩]
      exact List.mem_singleton_self _
    have hexpanded := isAbsolutePath_expandPath hright home
    rw [htilde left right hparse hright.head? _ (List.mem_append_left _ hroot),
      not_isAbsolutePath_of_tilde hright.head?] at hexpanded
    cases hexpanded
  · intro hkept
    rcases hparse : parseFileSpec spec with e | ⟨left, right⟩
    · exact .of_error hparse _ _
    by_cases hright : TildePath right
    · exact .of_tilde hparse hright hkept _ _
    -- a root without one is the same under every home
    · refine .of_not_tilde hparse hright fun _ => ?_
      by_cases hpath : TildePath left
      · rw [isAbsolutePath_expandPath hpath home, isAbsolutePath_expandPath hpath home']
      · rw [expandPath_of_not_tilde hpath, expandPath_of_not_tilde hpath]

/-- **The remote root and the home directory**: for every `--rsync` spec, two runs pass the same
remote root, or none, and never a local path in the place of a remote one that begins with a tilde,
if and only if the remote path is not one that is expanded next to a local path that passes the
check. Where the home directories may be missing too, or relative, that is so for any two of them
if and only if the local path is not one that is expanded either, next to an absolute remote
path. -/
theorem remote_root_iff (h : Handler RunOp RunOp.Res τ) (ctx : Surroundings) (cli : Cli)
    (spec : String) (t : τ) :
    (∀ home home' : HomeDir, RootKept spec (remoteRoots h ctx cli spec t (some home.path))
        (remoteRoots h ctx cli spec t (some home'.path)) ↔ ¬ TildeRoot spec) ∧
    ((∀ home home' : Option String, RootKept spec (remoteRoots h ctx cli spec t home)
        (remoteRoots h ctx cli spec t home')) ↔ ¬ TildeRoot spec ∧ ¬ TildeSource spec) := by
  refine ⟨rootKept_iff, fun hkept => ⟨?_, ?_⟩, ?_⟩
  · exact (rootKept_iff ⟨"/root", by decide⟩ ⟨"/root", by decide⟩).mp (hkept _ _)
  · rintro ⟨left, right, hparse, hright, hleft⟩
    have htilde : ¬ TildePath right := fun htilde => by
      rw [not_isAbsolutePath_of_tilde htilde.head?] at hright
      cases hright
    -- without a home the source keeps its tilde, is not absolute, and nothing is uploaded
    have hsame := (hkept (some "/root") none).same
    rw [remoteRoots_of_not_tilde hparse htilde, remoteRoots_of_not_tilde hparse htilde,
      expandPath_none, (normalized_of_parseFileSpec hparse).1,
      not_isAbsolutePath_of_tilde hleft.head?,
      if_pos ⟨hright, isAbsolutePath_expandPath hleft ⟨"/root", by decide⟩⟩,
      if_neg fun habsolute => Bool.false_ne_true habsolute.2] at hsame
    cases hsame
  · rintro ⟨hroot, hsource⟩ home home'
    rcases hparse : parseFileSpec spec with e | ⟨left, right⟩
    · exact .of_error hparse home home'
    by_cases hright : TildePath right
    · exact .of_tilde hparse hright hroot home home'
    · refine .of_not_tilde hparse hright fun habsolute => ?_
      have hpath : ¬ TildePath left := fun hpath =>
        hsource ⟨left, right, hparse, habsolute, hpath⟩
      rw [expandPath_of_not_tilde hpath, expandPath_of_not_tilde hpath]

/-- `--rsync /src:~/dst` of alice goes to `/home/alice/dst` on the server. -/
theorem home_is_the_root :
    (remoteRoots grantAll bareSurroundings (Cli.ofCommand []) "/src:~/dst" () (some "/home/alice") =
      ["/home/alice/dst"]) ∧
    remoteRoots grantAll bareSurroundings (Cli.ofCommand []) "/src:~/dst" () (some "/home/bob") =
      ["/home/bob/dst"] := by
  rw [remoteRoots_eq, remoteRoots_eq]
  decide +kernel

end Passhrs
