import Passhrs.Sftp.Stages

/-!
# Writers of one target

Any number of processes run `atomic_write_remote`, or any number run `atomic_write_local`, on one
target at the same time. Each operation of a process is one step, the processes have environments of
their own, so that temp suffixes may be equal, and any operation may fail.

* **`KeepsOthers`**, **`Settled`**: what is promised of a step, and of the end.
* **`Race.Inv`**: what holds of the calls together, from what is known of a call at each stage
  (`Stage.Sound`) and what a move leaves alone (`Move.get_of_ne`, `Move.get_target`).
* **`race_keepsOthers_settled`**: the promise, for every interleaving whose steps meet `Spares`.
-/

namespace Passhrs

open Effects SlashPath

variable {ι : Type} [DecidableEq ι]

/-! ## The race -/

/-- Calls that are under way. -/
abbrev Race (ι : Type) : Type :=
  Threads ι FileOp FileOp.Res (Shared ι) (Except Error Unit)

def Race.start (side : Side) (path : ι → String) (data : ι → Bytes) (w : World) : Race ι where
  state := ⟨w, fun _ => []⟩
  rest c := (side.atomicWrite (path c) (data c)).run

/-- A call has finished, with this result. -/
def Race.Returned (s : Race ι) (c : ι) (r : Except Error Unit) : Prop := s.rest c = .pure r

/-- The file that was opened is still where it was created. -/
def Tree.Stands (t : Tree) (h : FileHandle) : Prop :=
  ∃ f, t.get h.loc = some (.file f) ∧ f.ino = h.ino

/-- The step of `c` leaves the temp files of the other calls as they are. -/
def KeepsOthers (side : Side) (env : ι → Env) (s : Race ι) (c : ι) : Prop :=
  ∀ t, Threads.step (Shared.step env) s c = some t →
    ∀ c' ≠ c, ∀ h ∈ s.state.created c', (side.tree s.state.world).Stands h →
      (side.tree t.state.world).get h.loc = (side.tree s.state.world).get h.loc

/-- When all calls have finished, the target holds the data of one that returned `Ok`, if any
did. -/
def Settled (side : Side) (env : ι → Env) (path : ι → String) (data : ι → Bytes)
    (s : Race ι) : Prop :=
  (∀ c, ∃ r, s.Returned c r) → (∃ c, s.Returned c (.ok ())) →
    ∃ c, s.Returned c (.ok ()) ∧
      (side.loc (env c) (path c)).bind (side.tree s.state.world).contentOf = some (data c)

/-- What a step of `c` has to avoid. -/
structure Spares (side : Side) (env : ι → Env) (path : ι → String) (data : ι → Bytes)
    (s : Race ι) (c : ι) : Prop where
  /-- A call whose own open failed does not come to remove the temp path while another call's temp
  file is there. -/
  sweeps : ∀ tmp, (s.rest c).next = some (side.remove tmp) → s.state.created c = [] →
    (env c).fault s.state.world.tick = .none →
    ∀ c' ≠ c, ∀ h ∈ s.state.created c', (side.tree s.state.world).Stands h →
      side.loc (env c) tmp ≠ some h.loc
  /-- The rename is not made to fail while the target is missing and another call has returned. -/
  renames : ∀ tmp, (s.rest c).next = some (side.rename tmp (path c)) →
    (side.loc (env c) (path c)).bind (side.tree s.state.world).get = none →
    (∃ c', s.Returned c' (.ok ())) → (env c).fault s.state.world.tick = .none
  /-- Everything arrives that is written without an error. -/
  writes : ∀ h, (s.rest c).next = some (side.write h (data c)) →
    (side.fault ((env c).fault s.state.world.tick)).reported = false →
    (side.fault ((env c).fault s.state.world.tick)).wrote (data c) = data c

/-! ## What holds across the moves -/

/-- The file opened as `h` is where it was created, and holds `content`. -/
def Tree.Holds (t : Tree) (h : FileHandle) (content : Bytes) : Prop :=
  ∃ f, t.get h.loc = some (.file f) ∧ f.ino = h.ino ∧ f.content = content

/-- What is known of a call at a stage, where `mine` are the files it has created. -/
def Stage.Sound (target : Option Loc) (data : Bytes) (mine : List FileHandle) (t : Tree) :
    Stage → Prop
  | .unnamed => mine = []
  | .opening p => target ≠ some p ∧ mine = []
  | .refused p => target ≠ some p ∧ mine = []
  | .opened h => h ∈ mine ∧ t.Holds h []
  | .staged h => h ∈ mine ∧ t.Holds h data
  | .cleared h => h ∈ mine ∧ t.Holds h data
  | .failing h => h ∈ mine ∧ t.Stands h
  | .ended _ => True

section Sound

variable {t t' : Tree} {h h' : FileHandle} {content : Bytes}

theorem Tree.Holds.stands (hh : t.Holds h content) : t.Stands h := by
  obtain ⟨f, hf, hino, -⟩ := hh
  exact ⟨f, hf, hino⟩

theorem Tree.Holds.congr (hh : t.Holds h content) (hget : t'.get h.loc = t.get h.loc) :
    t'.Holds h content := by
  unfold Holds
  rwa [hget]

theorem Tree.Stands.congr (hh : t.Stands h) (hget : t'.get h.loc = t.get h.loc) :
    t'.Stands h := by
  unfold Stands
  rwa [hget]

/-- Two files in one place are one file. -/
theorem Tree.Stands.ino_eq (hh : t.Stands h) (hh' : t.Stands h') (hloc : h.loc = h'.loc) :
    h.ino = h'.ino := by
  obtain ⟨f, hf, hino⟩ := hh
  obtain ⟨g, hg, hino'⟩ := hh'
  rw [hloc, hg] at hf
  cases hf
  exact hino.symm.trans hino'

theorem Tree.Stands.get_append (hh : t.Stands h) (bytes : Bytes) (mtime : Nat) {x : Loc}
    (hx : x ≠ h.loc) : (t.append h bytes mtime).get x = t.get x := by
  obtain ⟨f, hf, hino⟩ := hh
  rw [Tree.get_append hf hino, if_neg hx]

theorem Tree.Holds.append (hh : t.Holds h content) (bytes : Bytes) (mtime : Nat) :
    (t.append h bytes mtime).Holds h (content ++ bytes) := by
  obtain ⟨f, hf, hino, rfl⟩ := hh
  have hget := Tree.get_append hf hino bytes mtime h.loc
  rw [if_pos rfl] at hget
  exact ⟨_, hget, hino, rfl⟩

variable {target : Option Loc} {data : Bytes} {mine : List FileHandle} {st : Stage}

/-- What is known of a call stays true as long as its temp file stays as it is. -/
theorem Stage.Sound.congr (hst : st.Sound target data mine t)
    (hget : ∀ h ∈ mine, t.Stands h → t'.get h.loc = t.get h.loc) :
    st.Sound target data mine t' := by
  cases st with
  | opened h => exact ⟨hst.1, hst.2.congr (hget h hst.1 hst.2.stands)⟩
  | staged h => exact ⟨hst.1, hst.2.congr (hget h hst.1 hst.2.stands)⟩
  | cleared h => exact ⟨hst.1, hst.2.congr (hget h hst.1 hst.2.stands)⟩
  | failing h => exact ⟨hst.1, hst.2.congr (hget h hst.1 hst.2)⟩
  | _ => exact hst

end Sound

section Move

variable {side : Side} {env : Env} {path : String} {data : Bytes} {op : FileOp} {w : World}
  {st st' : Stage} {t' : Tree} {mine made : List FileHandle}

/-- A call that has returned makes no more moves. -/
theorem Move.ne_ended (hmove : Move side env path data op w st st' t' made)
    (r : Except Error Unit) : st ≠ .ended r := by
  rintro rfl
  cases hmove with
  | publish hcase => simp at hcase
  | clean hresidue => cases hresidue

/-- What an operation creates is new, and not at the target. -/
theorem Move.of_mem_made (hmove : Move side env path data op w st st' t' made)
    (hst : st.Sound (side.loc env path) data mine (side.tree w)) {h : FileHandle}
    (hh : h ∈ made) : h.ino = w.tick ∧ side.loc env path ≠ some h.loc := by
  cases hmove with
  | create =>
    obtain rfl := List.mem_singleton.mp hh
    exact ⟨rfl, hst.1⟩
  | _ => cases hh

/-- A move leaves other places alone: the target, unless it unlinks or replaces it, and every file
but the call's own, unless the cleanup goes by a name that is not the call's. -/
theorem Move.get_of_ne (hmove : Move side env path data op w st st' t' made)
    (hst : st.Sound (side.loc env path) data mine (side.tree w)) {x : Loc}
    (hx : (side.tree w).get x ≠ none) (hmine : ∀ h ∈ mine, (side.tree w).Stands h → x ≠ h.loc)
    (htarget : side.loc env path ≠ some x)
    (hsweep : ∀ tmp, op = side.remove tmp → mine = [] → env.fault w.tick = .none →
      side.loc env tmp ≠ some x) :
    t'.get x = (side.tree w).get x := by
  cases hmove with
  | name hp hget => rw [hget]
  | @create p _ _ hfree hino hempty hget =>
    -- the open is exclusive, so that it creates nothing where something is
    have hxp : x ≠ p := by
      rintro rfl
      exact hx hfree
    rw [hget, if_neg hxp]
  | refuse hget => rw [hget]
  | write hop hquiet ht =>
    rw [ht]
    exact hst.2.stands.get_append _ _ (hmine _ hst.1 hst.2.stands)
  | failWrite ht =>
    rcases ht with hget | ⟨bytes, mtime, rfl⟩
    · rw [hget]
    · exact hst.2.stands.get_append _ _ (hmine _ hst.1 hst.2.stands)
  | wait hget => rw [hget]
  | fail hget => rw [hget]
  | clear hq hget =>
    rcases hget x with hsame | ⟨rfl, -⟩
    · exact hsame
    · exact absurd hq htarget
  | @publish _ h _ q _ hcase hq hwritable hf hget =>
    -- the rename takes the call's own temp file away and changes the target
    have hown : x ≠ h.loc := by
      rcases hcase with rfl | rfl
      · exact hmine _ hst.1 hst.2.stands
      · exact hmine _ hst.1 hst.2.stands
    have hxq : x ≠ q := by
      rintro rfl
      exact htarget hq
    rw [hget, if_neg hxq, if_neg hown]
  | drop hop hget hfault => rw [hget]
  | @clean _ p _ _ _ hresidue hop hp hget =>
    rcases hget with hsame | ⟨hfault, hget⟩
    · rw [hsame]
    · rcases hget x with hsame | ⟨rfl, -⟩
      · exact hsame
      -- the cleanup goes by name: after a refused open the file there may be another call's
      · cases st with
        | refused =>
          obtain rfl := Option.some.inj hresidue
          exact absurd hp (hsweep _ hop hst.2 hfault)
        | failing h =>
          obtain rfl := Option.some.inj hresidue
          exact absurd rfl (hmine h hst.1 hst.2)
        | _ => cases hresidue

/-- What is known of a call is known of it after its own move. -/
theorem Move.sound (hmove : Move side env path data op w st st' t' made)
    (hst : st.Sound (side.loc env path) data mine (side.tree w))
    (haside : ∀ h ∈ mine, side.loc env path ≠ some h.loc)
    (hwrites : ∀ h, op = side.write h data →
      (side.fault (env.fault w.tick)).reported = false →
      (side.fault (env.fault w.tick)).wrote data = data) :
    st'.Sound (side.loc env path) data (made ++ mine) t' := by
  cases hmove with
  | name hp hget => exact ⟨hp, hst⟩
  | @create p f _ hfree hino hempty hget =>
    exact ⟨List.mem_cons_self, f, by rw [hget, if_pos rfl], hino, hempty⟩
  | refuse hget => exact hst
  | @write h mtime _ hop hquiet ht =>
    rw [ht, hwrites h hop hquiet]
    exact ⟨hst.1, hst.2.append _ mtime⟩
  | failWrite ht =>
    refine ⟨hst.1, ?_⟩
    rcases ht with hget | ⟨bytes, mtime, rfl⟩
    · exact hst.2.stands.congr (congrFun hget _)
    · exact (hst.2.append _ _).stands
  | wait hget => exact ⟨hst.1, hst.2.congr (congrFun hget _)⟩
  | fail hget => exact ⟨hst.1, (hst.2.congr (congrFun hget _)).stands⟩
  | @clear h _ _ hq hget =>
    -- the unlinked target is none of the call's own files
    refine ⟨hst.1, hst.2.congr ?_⟩
    rcases hget h.loc with hsame | ⟨hloc, -⟩
    · exact hsame
    · exact absurd (hloc ▸ hq) (haside h hst.1)
  | publish => trivial
  | drop hop hget hfault => exact ⟨hst.1, (hst.2.congr (congrFun hget _)).stands⟩
  | clean => trivial

theorem Tree.Without.get_dir_iff {t t' : Tree} {p : Loc} (h : t.Without t' p) (x : Loc) :
    t'.get x = some .dir ↔ t.get x = some .dir := by
  rcases h x with hsame | ⟨rfl, hfile, hnone⟩
  · rw [hsame]
  · obtain ⟨f, hf⟩ := Option.isSome_iff_exists.mp hfile
    rw [hnone, FileTree.fileAt_eq_some_iff.mp hf]
    exact iff_of_false (by simp) (by simp)

/-- A file that is put where no directory is makes none and removes none. -/
theorem put_file_dir_iff {t : Tree} {p : Loc} (hp : t.get p ≠ some .dir) (f : File) (x : Loc) :
    (if x = p then some (.file f) else t.get x) = some .dir ↔ t.get x = some .dir := by
  split
  · next hx =>
    rw [hx]
    exact iff_of_false (by simp) hp
  · exact Iff.rfl

theorem Tree.Stands.get_dir_append_iff {t : Tree} {h : FileHandle} (hh : t.Stands h)
    (bytes : Bytes) (mtime : Nat) (x : Loc) :
    (t.append h bytes mtime).get x = some .dir ↔ t.get x = some .dir := by
  obtain ⟨f, hf, hino⟩ := hh
  rw [Tree.get_append hf hino]
  exact put_file_dir_iff (by simp [hf]) _ x

/-- Files come and go where no directory is. -/
theorem Move.get_dir_iff (hmove : Move side env path data op w st st' t' made)
    (hst : st.Sound (side.loc env path) data mine (side.tree w)) (x : Loc) :
    t'.get x = some .dir ↔ (side.tree w).get x = some .dir := by
  cases hmove with
  | name hp hget => rw [hget]
  | create hfree hino hempty hget =>
    rw [hget]
    exact put_file_dir_iff (by simp [hfree]) _ x
  | refuse hget => rw [hget]
  | write hop hquiet ht =>
    rw [ht]
    exact hst.2.stands.get_dir_append_iff _ _ x
  | failWrite ht =>
    rcases ht with hget | ⟨bytes, mtime, rfl⟩
    · rw [hget]
    · exact hst.2.stands.get_dir_append_iff _ _ x
  | wait hget => rw [hget]
  | fail hget => rw [hget]
  | clear hq hget => exact hget.get_dir_iff x
  | publish hcase hq hwritable hf hget =>
    rw [hget]
    split
    · next hx =>
      rw [hx]
      exact iff_of_false (by simp) (FileTree.get_ne_dir_of_writable hwritable)
    · split
      · next hx =>
        rw [hx, hf]
        exact iff_of_false (by simp) (by simp)
      · exact Iff.rfl
  | drop hop hget hfault => rw [hget]
  | clean hresidue hop hp hget =>
    rcases hget with hsame | ⟨-, hget⟩
    · rw [hsame]
    · exact hget.get_dir_iff x

/-- A call that returns `Ok` has put its data at the target. -/
theorem Move.publishes (hmove : Move side env path data op w st (.ended (.ok ())) t' made)
    (hst : st.Sound (side.loc env path) data mine (side.tree w)) :
    ∃ q, side.loc env path = some q ∧ t'.contentOf q = some data ∧
      (side.tree w).writable q = true := by
  cases hmove with
  | @publish _ h f q _ hcase hq hwritable hf hget =>
    have hdata : (side.tree w).Holds h data := by
      rcases hcase with rfl | rfl
      · exact hst.2
      · exact hst.2
    obtain ⟨g, hg, -, rfl⟩ := hdata
    rw [hf] at hg
    cases hg
    exact ⟨q, hq, Tree.contentOf_of_file (by rw [hget, if_pos rfl]), hwritable⟩

/-- Short of that, a call leaves the target alone or unlinks it. -/
theorem Move.get_target (hmove : Move side env path data op w st st' t' made)
    (hst : st.Sound (side.loc env path) data mine (side.tree w))
    (haside : ∀ h ∈ mine, side.loc env path ≠ some h.loc) (hends : st' ≠ .ended (.ok ())) {q : Loc}
    (hq : side.loc env path = some q) :
    t'.get q = (side.tree w).get q ∨ (∃ h, st' = .cleared h) ∧ t'.get q = none := by
  have hown : ∀ h ∈ mine, q ≠ h.loc := by
    rintro h hh rfl
    exact haside h hh hq
  cases hmove with
  | name hp hget => exact .inl (congrFun hget q)
  | @create p _ _ hfree hino hempty hget =>
    -- the temp path is not the target's
    have hqp : q ≠ p := by
      rintro rfl
      exact hst.1 hq
    exact .inl (by rw [hget, if_neg hqp])
  | refuse hget => exact .inl (congrFun hget q)
  | write hop hquiet ht =>
    rw [ht]
    exact .inl (hst.2.stands.get_append _ _ (hown _ hst.1))
  | failWrite ht =>
    left
    rcases ht with hget | ⟨bytes, mtime, rfl⟩
    · exact congrFun hget q
    · exact hst.2.stands.get_append _ _ (hown _ hst.1)
  | wait hget => exact .inl (congrFun hget q)
  | fail hget => exact .inl (congrFun hget q)
  | clear hq' hget =>
    obtain rfl := Option.some.inj (hq.symm.trans hq')
    rcases hget q with hsame | ⟨-, -, hnone⟩
    · exact .inl hsame
    -- only the unlink before the rename takes the target away
    · exact .inr ⟨⟨_, rfl⟩, hnone⟩
  | publish => exact absurd rfl hends
  | drop hop hget hfault => exact .inl (congrFun hget q)
  | @clean _ p _ _ _ hresidue hop hp hget =>
    have hqp : q ≠ p := by
      rintro rfl
      cases st with
      | refused =>
        obtain rfl := Option.some.inj hresidue
        exact hst.1 hq
      | failing h =>
        obtain rfl := Option.some.inj hresidue
        exact hown h hst.1 rfl
      | _ => cases hresidue
    left
    rcases hget with hsame | ⟨-, hget⟩
    · exact congrFun hsame q
    · rcases hget q with hsame | ⟨hx, -⟩
      · exact hsame
      · exact absurd hx hqp

end Move

/-! ## Runs -/

/-- What holds of the calls together: temp files are apart from each other and from the target, each
call is where its stage says, and once a call has returned `Ok`, the target holds the data of such a
call, or a call is about to rename to it. -/
structure Race.Inv (side : Side) (target : Option Loc) (data : ι → Bytes) (st : ι → Stage)
    (s : Shared ι) : Prop where
  sound : ∀ c, (st c).Sound target (data c) (s.created c) (side.tree s.world)
  old : ∀ c, ∀ h ∈ s.created c, h.ino < s.world.tick
  aside : ∀ c, ∀ h ∈ s.created c, target ≠ some h.loc
  apart : ∀ c c', ∀ h ∈ s.created c, ∀ h' ∈ s.created c', h.ino = h'.ino → c = c'
  published : ∀ c, st c = .ended (.ok ()) → ∃ q, target = some q ∧
    (side.tree s.world).writable q = true ∧
    ((∃ c', st c' = .ended (.ok ()) ∧ (side.tree s.world).contentOf q = some (data c')) ∨
      (side.tree s.world).get q = none ∧ ∃ c' h, st c' = .cleared h)

section Run

variable {side : Side} {env : ι → Env} {path : ι → String} {data : ι → Bytes}
  {target : Option Loc} {s t : Race ι} {st : ι → Stage} {c : ι} {op : FileOp} {st' : Stage}

omit [DecidableEq ι] in
theorem Race.inv_start (w : World) :
    Race.Inv side target data (fun _ => .unnamed) (Race.start side path data w).state where
  sound c := rfl
  old c h hh := by cases hh
  aside c h hh := by cases hh
  apart c c' h hh := by cases hh
  published c hc := by cases hc

omit [DecidableEq ι] in
/-- What the invariant says of one call, at the place where its own path leads. -/
theorem Race.Inv.own (htarget : ∀ c, side.loc (env c) (path c) = target)
    (hinv : Race.Inv side target data st s.state) (c : ι) :
    (st c).Sound (side.loc (env c) (path c)) (data c) (s.state.created c)
        (side.tree s.state.world) ∧
      ∀ h ∈ s.state.created c, side.loc (env c) (path c) ≠ some h.loc := by
  rw [htarget]
  exact ⟨hinv.sound c, hinv.aside c⟩

/-- The step of a call leaves the other calls' files as they are. -/
theorem Race.Inv.keepsOthers (htarget : ∀ c, side.loc (env c) (path c) = target)
    (hinv : Race.Inv side target data st s.state) (hspares : Spares side env path data s c)
    (hnext : (s.rest c).next = some op)
    (hmove : Protocol side env path data c op (st c) s.state st' t.state) {c' : ι} (hc : c' ≠ c)
    {h : FileHandle} (hh : h ∈ s.state.created c') (hstands : (side.tree s.state.world).Stands h) :
    (side.tree t.state.world).get h.loc = (side.tree s.state.world).get h.loc := by
  obtain ⟨made, hmove, -, -⟩ := hmove
  refine hmove.get_of_ne (hinv.own htarget c).1 ?_ ?_ ?_ ?_
  · obtain ⟨f, hf, -⟩ := hstands
    simp [hf]
  · -- one place holds one file, and one file has one creator
    intro g hg hgstands hloc
    exact hc (hinv.apart c' c h hh g hg (hstands.ino_eq hgstands hloc))
  · rw [htarget]
    exact hinv.aside c' h hh
  · intro tmp hop hmine hfault
    exact hspares.sweeps tmp (hop ▸ hnext) hmine hfault c' hc h hh hstands

/-- Once a call has returned `Ok`, some such call's data is at the target, or a call that has
unlinked the target is about to rename to it. -/
theorem Race.Inv.published_step (htarget : ∀ c, side.loc (env c) (path c) = target)
    (hinv : Race.Inv side target data st s.state) (hspares : Spares side env path data s c)
    (hreturned : ∀ c, st c = .ended (.ok ()) → s.Returned c (.ok ()))
    (hnext : (s.rest c).next = some op) {t : Tree} {made : List FileHandle}
    (hmove : Move side (env c) (path c) (data c) op s.state.world (st c) st' t made) (c₁ : ι)
    (hc₁ : Function.update st c st' c₁ = .ended (.ok ())) :
    ∃ q, target = some q ∧ t.writable q = true ∧
      ((∃ c', Function.update st c st' c' = .ended (.ok ()) ∧ t.contentOf q = some (data c')) ∨
        t.get q = none ∧ ∃ c' h, Function.update st c st' c' = .cleared h) := by
  obtain ⟨hsound, haside⟩ := hinv.own htarget c
  have hwritable : ∀ q, t.writable q = (side.tree s.state.world).writable q :=
    FileTree.writable_congr (hmove.get_dir_iff hsound)
  by_cases hends : st' = .ended (.ok ())
  · subst hends
    obtain ⟨q, hq, hdata, hw⟩ := hmove.publishes hsound
    rw [htarget] at hq
    exact ⟨q, hq, by rw [hwritable, hw], .inl ⟨c, by rw [Function.update_self], hdata⟩⟩
  have hne : c₁ ≠ c := by
    rintro rfl
    rw [Function.update_self] at hc₁
    exact hends hc₁
  rw [Function.update_of_ne hne] at hc₁
  obtain ⟨q, hq, hw, hcase⟩ := hinv.published c₁ hc₁
  refine ⟨q, hq, by rw [hwritable, hw], ?_⟩
  rw [← htarget c] at hq
  rcases hmove.get_target hsound haside hends hq with hsame | ⟨⟨h, rfl⟩, hnone⟩
  · rcases hcase with ⟨c₂, hc₂, hdata⟩ | ⟨hnone, c₂, h, hc₂⟩
    · have hne₂ : c₂ ≠ c := by
        rintro rfl
        exact hmove.ne_ended _ hc₂
      left
      exact ⟨c₂, by rw [Function.update_of_ne hne₂, hc₂],
        (Tree.contentOf_congr hsame).trans hdata⟩
    · have hne₂ : c₂ ≠ c := by
        rintro rfl
        rw [hc₂] at hmove hsound
        -- the rename that was left has not been made to fail, so it has gone through
        cases hmove with
        | publish => exact hends rfl
        | drop hop hget hfault =>
          have hmissing : (side.loc (env c₂) (path c₂)).bind (side.tree s.state.world).get
              = none := by
            rw [hq]
            exact hnone
          have hsure := hspares.renames _ (hop ▸ hnext) hmissing ⟨c₁, hreturned c₁ hc₁⟩
          obtain ⟨f, hf, -⟩ := hsound.2
          refine hfault hsure q f hq ?_ hf hw hnone
          rintro rfl
          exact haside h hsound.1 hq
        | clean hresidue => cases hresidue
      right
      exact ⟨hsame.trans hnone, c₂, h, by rw [Function.update_of_ne hne₂, hc₂]⟩
  · right
    exact ⟨hnone, c, h, by rw [Function.update_self]⟩

theorem Race.Inv.step (htarget : ∀ c, side.loc (env c) (path c) = target)
    (hinv : Race.Inv side target data st s.state) (hspares : Spares side env path data s c)
    (hreturned : ∀ c, st c = .ended (.ok ()) → s.Returned c (.ok ()))
    (hnext : (s.rest c).next = some op)
    (hmove : Protocol side env path data c op (st c) s.state st' t.state) :
    Race.Inv side target data (Function.update st c st') t.state := by
  have hkeeps : ∀ c' ≠ c, ∀ h ∈ s.state.created c', (side.tree s.state.world).Stands h →
      (side.tree t.state.world).get h.loc = (side.tree s.state.world).get h.loc :=
    fun c' hc h => hinv.keepsOthers htarget hspares hnext hmove hc
  obtain ⟨made, hmove, htick, hcreated⟩ := hmove
  obtain ⟨hsound, haside⟩ := hinv.own htarget c
  have hmade : ∀ h ∈ made, h.ino = s.state.world.tick ∧
      side.loc (env c) (path c) ≠ some h.loc := fun h => hmove.of_mem_made hsound
  -- what a call has created was there before, or is what this operation has created
  have hmem : ∀ c', ∀ h ∈ t.state.created c', h ∈ s.state.created c' ∨ c' = c ∧ h ∈ made := by
    intro c' h hh
    rw [hcreated] at hh
    by_cases hc : c' = c
    · subst hc
      rw [Function.update_self, List.mem_append] at hh
      exact hh.symm.imp_right fun hh => ⟨rfl, hh⟩
    · rw [Function.update_of_ne hc] at hh
      exact .inl hh
  refine ⟨fun c' => ?_, fun c' h hh => ?_, fun c' h hh => ?_, ?_, ?_⟩
  · by_cases hc : c' = c
    · subst hc
      rw [hcreated, Function.update_self, Function.update_self, ← htarget c']
      exact hmove.sound hsound haside fun h hop => hspares.writes h (hop ▸ hnext)
    · rw [hcreated, Function.update_of_ne hc, Function.update_of_ne hc]
      exact (hinv.sound c').congr (hkeeps c' hc)
  · rw [htick]
    rcases hmem c' h hh with hh | ⟨-, hh⟩
    · exact (hinv.old c' h hh).trans (Nat.lt_succ_self _)
    · rw [(hmade h hh).1]
      exact Nat.lt_succ_self _
  · rcases hmem c' h hh with hh | ⟨-, hh⟩
    · exact hinv.aside c' h hh
    · rw [← htarget c]
      exact (hmade h hh).2
  · intro c₁ c₂ h₁ hh₁ h₂ hh₂ hino
    rcases hmem c₁ h₁ hh₁ with hh₁ | ⟨rfl, hh₁⟩
    · rcases hmem c₂ h₂ hh₂ with hh₂ | ⟨-, hh₂⟩
      · exact hinv.apart c₁ c₂ h₁ hh₁ h₂ hh₂ hino
      · exact absurd (hino.trans (hmade h₂ hh₂).1) (hinv.old c₁ h₁ hh₁).ne
    · rcases hmem c₂ h₂ hh₂ with hh₂ | ⟨rfl, -⟩
      · exact absurd (hino.symm.trans (hmade h₁ hh₁).1) (hinv.old c₂ h₂ hh₂).ne
      · rfl
  · exact hinv.published_step htarget hspares hreturned hnext hmove

/-- The stage says whether a call has returned. -/
theorem Race.returned_iff
    (hfollow : s.Follow (Shared.step env) (Protocol side env path data) (fun _ => EndsIn) st)
    {r : Except Error Unit} : s.Returned c r ↔ st c = .ended r := by
  have hc := hfollow c
  unfold Returned
  cases hrest : s.rest c with
  | pure r' =>
    rw [hrest] at hc
    rw [show st c = .ended r' from hc, Prog.pure.injEq, Stage.ended.injEq]
  | op f k =>
    rw [hrest] at hc
    obtain ⟨st', ⟨made, hmove, -, -⟩, -⟩ := hc s.state
    exact iff_of_false nofun (hmove.ne_ended r)

theorem Race.Inv.settled
    (hfollow : s.Follow (Shared.step env) (Protocol side env path data) (fun _ => EndsIn) st)
    (htarget : ∀ c, side.loc (env c) (path c) = target)
    (hinv : Race.Inv side target data st s.state) : Settled side env path data s := by
  rintro hall ⟨c, hc⟩
  obtain ⟨q, hq, -, ⟨c', hc', hdata⟩ | ⟨-, c', h, hc'⟩⟩ :=
    hinv.published c ((returned_iff hfollow).mp hc)
  · refine ⟨c', (returned_iff hfollow).mpr hc', ?_⟩
    rw [htarget, hq]
    exact hdata
  · -- a call that has finished is not about to rename
    obtain ⟨r, hr⟩ := hall c'
    rw [returned_iff hfollow, hc'] at hr
    cases hr

/-- The calls are where some stages say, and these fit together. -/
def Race.OnCourse (side : Side) (env : ι → Env) (path : ι → String) (data : ι → Bytes)
    (target : Option Loc) (s : Race ι) : Prop :=
  ∃ st, s.Follow (Shared.step env) (Protocol side env path data) (fun _ => EndsIn) st ∧
    Race.Inv side target data st s.state

theorem Race.OnCourse.step (htarget : ∀ c, side.loc (env c) (path c) = target) (s : Race ι) (c : ι)
    (t : Race ι) (hs : Race.OnCourse side env path data target s)
    (hspares : Spares side env path data s c)
    (hstep : Threads.step (Shared.step env) s c = some t) :
    KeepsOthers side env s c ∧ Race.OnCourse side env path data target t := by
  obtain ⟨st, hfollow, hinv⟩ := hs
  obtain ⟨op, st', hnext, hmove, hfollow'⟩ := Threads.exists_move hfollow hstep
  refine ⟨fun t' hstep' c' hc' h hh hstands => ?_, _, hfollow', ?_⟩
  · obtain rfl := Option.some.inj (hstep.symm.trans hstep')
    exact hinv.keepsOthers htarget hspares hnext hmove hc' hh hstands
  · exact hinv.step htarget hspares (fun _ => (Race.returned_iff hfollow).mpr) hnext hmove

/-- **In every interleaving whose steps spare what they should, no call touches a temp file of
another, and the target ends up with the data of a call that returned `Ok`.** -/
theorem race_keepsOthers_settled (side : Side) (env : ι → Env) (path : ι → String)
    (data : ι → Bytes) (w : World) (target : Option Loc)
    (htarget : ∀ c, side.loc (env c) (path c) = target) {schedule : List ι} {t : Race ι}
    (hrun : Machine.run (Threads.step (Shared.step env)) (Race.start side path data w) schedule
      = some t)
    (hspares : Machine.EachStep (Threads.step (Shared.step env)) (Spares side env path data)
      (Race.start side path data w) schedule) :
    Machine.EachStep (Threads.step (Shared.step env)) (KeepsOthers side env)
      (Race.start side path data w) schedule ∧ Settled side env path data t := by
  have hstart : Race.OnCourse side env path data target (Race.start side path data w) :=
    ⟨_, side.atomicWrite_follows env path data, Race.inv_start w⟩
  obtain ⟨hkeeps, st, hfollow, hinv⟩ :=
    Machine.eachStep_rule hstart (Race.OnCourse.step htarget) hrun hspares
  exact ⟨hkeeps, hinv.settled hfollow htarget⟩

end Run

/-- Two local writers of `f`, step by step in turn: both return, and `f` holds the data of the one
that renamed last. -/
theorem race_two_in_turn :
    let env : Bool → Env := fun _ => .reliable
    let data : Bool → Bytes := fun c => if c then [1] else [2]
    let start := Race.start .disk (fun _ => "f") data (.start FileTree.empty FileTree.empty)
    let schedule := (List.replicate 6 [true, false]).flatten
    ∃ t, Machine.run (Threads.step (Shared.step env)) start schedule = some t ∧
      t.state.world.disk.contentOf [⟨"f", by decide⟩] = some [2] ∧
      Machine.EachStep (Threads.step (Shared.step env)) (KeepsOthers .disk env) start schedule ∧
      Settled .disk env (fun _ => "f") data t := by
  intro env data start schedule
  -- no step of this run is a cleanup
  have hcheck : Machine.EachStep (Threads.step (Shared.step env)) (fun s c =>
      (s.rest c).next.map FileOp.ctorIdx ≠ some (FileOp.fsRemoveFile "").ctorIdx)
      start schedule := by
    decide +kernel
  have hspares : Machine.EachStep (Threads.step (Shared.step env))
      (Spares .disk env (fun _ => "f") data) start schedule := by
    refine hcheck.mono fun s c h => ⟨fun tmp hnext => ?_, fun _ _ _ _ => rfl, fun _ _ _ => rfl⟩
    rw [hnext] at h
    exact absurd rfl h
  have hrun : (Machine.run (Threads.step (Shared.step env)) start schedule).map
      (fun t => t.state.world.disk.contentOf [⟨"f", by decide⟩]) = some (some [2]) := by
    decide +kernel
  obtain ⟨t, ht, hdata⟩ := Option.map_eq_some_iff.mp hrun
  exact ⟨t, ht, hdata, race_keepsOthers_settled .disk env (fun _ => "f") data
    (.start FileTree.empty FileTree.empty) (Env.reliable.diskLoc "f") (fun _ => rfl) ht hspares⟩

/-- Two writers of `f` with one suffix: the second is refused the temp file, and its cleanup removes
the first one's. -/
theorem race_equal_suffixes :
    let env : Bool → Env := fun _ => { Env.reliable with hash := fun _ => 0 }
    let start := Race.start .remote (fun _ => "f") (fun c => if c then [1] else [2])
      (.start FileTree.empty FileTree.empty)
    ¬ ∀ schedule t, Machine.run (Threads.step (Shared.step env)) start schedule = some t →
      Machine.EachStep (Threads.step (Shared.step env)) (KeepsOthers .remote env) start
        schedule := by
  intro env start hall
  let tmp := (env true).remoteLoc "f.tmp.aaaaaa"
  -- what the first has created, what is there before the second one's cleanup, and after it
  have hrun : ((Machine.run (Threads.step (Shared.step env)) start [true, true, false, false]).bind
      fun s => (Threads.step (Shared.step env) s false).map fun t =>
        (s.state.created true, s.state.world.remote.get tmp, t.state.world.remote.get tmp))
      = some ([⟨tmp, 1⟩], some (.file ⟨[], 0o644, 1, 1⟩), none) := by
    decide +kernel
  obtain ⟨s, hs, hrun⟩ := Option.bind_eq_some_iff.mp hrun
  obtain ⟨t, ht, hfacts⟩ := Option.map_eq_some_iff.mp hrun
  simp only [Prod.mk.injEq] at hfacts
  obtain ⟨hcreated, hbefore, hafter⟩ := hfacts
  have hall := hall _ t (Machine.run_concat_eq_some.mpr ⟨s, hs, ht⟩) _ false [] s rfl hs
  have hkept := hall t ht true (by decide) ⟨tmp, 1⟩ (by rw [hcreated]; exact .head _)
    ⟨_, hbefore, rfl⟩
  rw [show (Side.remote.tree t.state.world).get _ = none from hafter,
    show (Side.remote.tree s.state.world).get _ = some _ from hbefore] at hkept
  cases hkept

end Passhrs
