import Passhrs.Lib.PathComponents
import Passhrs.Lib.Splice
import Passhrs.Lib.Text

/-!
# `Include` in a configuration

`preprocess_includes` puts the files that a configuration includes in the place of its `Include`
lines. It is a program over the files that it has met, and an error is the outermost message of its
chain.

* **`preprocessIncludes_run`**: it is the expansion of a document with a memory, where the document
  of a file (`itemsFrom`) has its lines, each with the block that it belongs to in that file.
* **`preprocessIncludes_eq_ok_iff`**: what has a result, and which one.
-/

namespace Passhrs

open SlashPath Splice Text

/-! ## What it reads -/

/-- The file system, the user, and the crate `globset`: a pattern, if it is one, and what it
matches. -/
structure ConfigWorld where
  readToString : String → Except String String
  canonicalize : String → Option String
  isDir : String → Bool
  /-- The names of the entries that can be read. -/
  readDir : String → Except String (List String)
  homeDir : Option String
  username : Option String
  glob : String → Option (String → Bool)

/-- `expand_include_tokens`. -/
def expandTokens (w : ConfigWorld) (host : String) : List Char → List Char
  | [] => []
  | '%' :: 'd' :: rest => (w.homeDir.getD "").toList ++ expandTokens w host rest
  | '%' :: 'u' :: rest => (w.username.getD "").toList ++ expandTokens w host rest
  | '%' :: 'h' :: rest => host.toList ++ expandTokens w host rest
  | '%' :: '%' :: rest => '%' :: expandTokens w host rest
  | c :: rest => c :: expandTokens w host rest

/-- `pattern_path`, for the value of an `Include` line. -/
def patternPath (w : ConfigWorld) (host base value : String) : String :=
  let pattern : String := .ofList (expandTokens w host value.toList)
  match stripPrefix "~" pattern with
  | some stripped =>
    let home := w.homeDir.getD "."
    let rest := trimStartMatches '/' stripped
    if rest = "" then home else join home rest
  | none => if isAbsolute pattern then pattern else join base pattern

/-- `expand_glob`. The entries of one directory are ordered like their names. -/
def expandGlob (w : ConfigWorld) (pattern : String) : Except String (List String) :=
  if pattern.toList.any fun c => c = '*' || c = '?' || c = '[' then
    let dir := (parent pattern).getD "."
    match fileName pattern with
    | none => .error s!"Include: invalid pattern: {pattern}"
    | some globExpr =>
      match w.glob globExpr with
      | none => .error s!"Include: invalid glob: {globExpr}"
      | some isMatch =>
        if w.isDir dir then
          match w.readDir dir with
          | .error _ => .error s!"Include: failed to read directory {dir}"
          | .ok names => .ok (((names.filter isMatch).insertionSort (· ≤ ·)).map (join dir))
        else .ok []
  else .ok [pattern]

/-! ## Lines -/

/-- The keyword of a line and its value. Blank lines and comments have none. -/
def splitLine (line : String) : Option (String × Option String) :=
  let trimmed := trimStart line
  if trimmed = "" ∨ trimmed.toList.head? = some '#' then none
  else
    match splitOnceWhitespace trimmed with
    | some (key, value) => some (toAsciiLowercase key, some (trim value))
    | none => some (toAsciiLowercase trimmed, none)

/-- What the loop makes of a line. A `Host` or `Match` without a value is any other line. -/
inductive LineKind where
  | other
  | block
  | includes (value : String)
  | bareInclude
deriving DecidableEq

def lineKind (line : String) : LineKind :=
  match splitLine line with
  | some (key, some value) =>
    if key = "host" ∨ key = "match" then .block
    else if key = "include" then .includes value
    else .other
  | some (key, none) => if key = "include" then .bareInclude else .other
  | none => .other

example : lineKind "  HOST\tdb" = .block ∧ lineKind "include a.conf " = .includes "a.conf" := by
  decide

/-! ## The function -/

/-- `seen`, in the order in which it was filled, and what `read_to_string` was called for, as it
stands in `seen`. -/
structure Visited where
  seen : List String
  reads : List String

abbrev IncludeM (α : Type) : Type := ExceptT String (StateM Visited) α

def maxIncludeDepth : Nat := 16

/-- A round of the loop over the files that an `Include` line names. -/
def includeFile (w : ConfigWorld) (nested : String → String → IncludeM String)
    (base path : String) : IncludeM String := do
  let canonical := (w.canonicalize path).getD path
  let visited ← get
  if canonical ∈ visited.seen then throw s!"Include cycle detected: {canonical}"
  else
    set (⟨visited.seen ++ [canonical], visited.reads ++ [canonical]⟩ : Visited)
    match w.readToString path with
    | .error _ => throw s!"Include: failed to read {path}"
    | .ok content => nested content ((parent path).getD base)

/-- A round of the loop over the lines: `seen_block_keyword` after it, and what it pushes. -/
def includeLine (w : ConfigWorld) (host : String) (nested : String → String → IncludeM String)
    (base : String) (seenBlock : Bool) (line : String) : IncludeM (Bool × String) :=
  match lineKind line with
  | .other => pure (seenBlock, line ++ "\n")
  | .block => pure (true, line ++ "\n")
  | .bareInclude => throw s!"Include directive missing pattern: {line}"
  | .includes value =>
    if seenBlock then throw s!"Include directive not allowed after Host/Match block: {line}"
    else if value = "" then throw s!"Include directive missing pattern: {line}"
    else
      let path := patternPath w host base value
      match expandGlob w path with
      | .error e => throw e
      | .ok [] => throw s!"Include: no files matched pattern {path}"
      | .ok matched => do
        let pushed ← matched.foldlM (fun pushed path => do
          let merged ← includeFile w nested base path
          pure (pushed ++ merged)) ""
        pure (seenBlock, pushed)

/-- `preprocess_includes`. `left` is the number of levels that `depth` may still go down, this one
included: `MAX_INCLUDE_DEPTH + 1 - depth`. -/
def preprocessIncludes (w : ConfigWorld) (host : String) :
    (left : Nat) → (content base : String) → IncludeM String
  | 0, _, _ => throw s!"Include nesting exceeds {maxIncludeDepth} levels"
  | left + 1, content, base => do
    let state ← (lines content).foldlM (fun (state : Bool × String) line => do
      let (seenBlock, pushed) ←
        includeLine w host (preprocessIncludes w host left) base state.1 line
      pure (seenBlock, state.2 ++ pushed)) (false, "")
    pure state.2

/-! ## The documents -/

/-- A line, and the last `Host` or `Match` line before it in its own file. -/
structure ConfigText where
  line : String
  scope : Option String
deriving DecidableEq

/-- An included file. Its own `Include` lines are relative to `base`. -/
structure IncludedFile where
  path : String
  base : String
deriving DecidableEq

def includedFrom (base path : String) : IncludedFile := ⟨path, (parent path).getD base⟩

abbrev ConfigItem : Type := Item ConfigText IncludedFile String

/-- What an `Include` line stands for. -/
def includeItems (w : ConfigWorld) (host base : String) (seenBlock : Bool) (line value : String) :
    List ConfigItem :=
  if seenBlock then [.fail s!"Include directive not allowed after Host/Match block: {line}"]
  else if value = "" then [.fail s!"Include directive missing pattern: {line}"]
  else
    match expandGlob w (patternPath w host base value) with
    | .error e => [.fail e]
    | .ok [] => [.fail s!"Include: no files matched pattern {patternPath w host base value}"]
    | .ok matched => matched.map fun path => .file (includedFrom base path)

def lineItems (w : ConfigWorld) (host base : String) (scope : Option String) (line : String) :
    List ConfigItem :=
  match lineKind line with
  | .other | .block => [.text ⟨line, scope⟩]
  | .bareInclude => [.fail s!"Include directive missing pattern: {line}"]
  | .includes value => includeItems w host base scope.isSome line value

/-- The last block, after a line. -/
def scopeAfter (scope : Option String) (line : String) : Option String :=
  if lineKind line = .block then some line else scope

/-- The items of the lines of a file, from a place on where the last block was `scope`. -/
def itemsFrom (w : ConfigWorld) (host base : String) : Option String → List String → List ConfigItem
  | _, [] => []
  | scope, line :: rest =>
    lineItems w host base scope line ++ itemsFrom w host base (scopeAfter scope line) rest

def includeDocs (w : ConfigWorld) (host : String) :
    Docs ConfigText IncludedFile String String where
  key file := (w.canonicalize file.path).getD file.path
  doc file :=
    match w.readToString file.path with
    | .error _ => .error s!"Include: failed to read {file.path}"
    | .ok content => .ok (itemsFrom w host file.base none (lines content))

theorem includeDocs_doc_eq_ok_iff {w : ConfigWorld} {host : String} {file : IncludedFile}
    {items : List ConfigItem} : (includeDocs w host).doc file = .ok items ↔
      ∃ content, w.readToString file.path = .ok content ∧
        items = itemsFrom w host file.base none (lines content) := by
  rw [includeDocs]
  dsimp only
  rcases w.readToString file.path with e | content
  · simp
  · simp only [Except.ok.injEq, exists_eq_left']
    exact eq_comm

def cycleDetected (canonical : String) : String := s!"Include cycle detected: {canonical}"

def tooDeep : String := s!"Include nesting exceeds {maxIncludeDepth} levels"

abbrev Expansion : Type := Except String (List ConfigText) × List String

/-- The expansion of a file with `left` levels, its own one included. -/
def expandIncludes (w : ConfigWorld) (host : String) :
    (left : Nat) → List ConfigItem → List String → Expansion
  | 0, _, seen => (.error tooDeep, seen)
  | left + 1, items, seen =>
    takeItems (take (includeDocs w host) cycleDetected tooDeep left) items seen

/-- The text that is handed on. -/
def render (texts : List ConfigText) : String := String.join (texts.map fun t => t.line ++ "\n")

/-! ## One is the expansion of the other -/

namespace IncludeM

variable {α β : Type}

/-- The result, and what has been met. -/
def exec (x : IncludeM α) (v : Visited) : Except String α × Visited := StateT.run (ExceptT.run x) v

@[simp] theorem exec_pure (a : α) (v : Visited) : exec (pure a) v = (.ok a, v) := rfl

@[simp] theorem exec_throw (e : String) (v : Visited) :
    exec (throw e : IncludeM α) v = (.error e, v) :=
  rfl

theorem exec_bind (x : IncludeM α) (f : α → IncludeM β) (v : Visited) :
    exec (x >>= f) v =
      match exec x v with
      | (.ok a, v') => exec (f a) v'
      | (.error e, v') => (.error e, v') := by
  show StateT.run (ExceptT.run x >>= ExceptT.bindCont f) v = _
  rw [StateT.run_bind]
  show _ = match StateT.run (ExceptT.run x) v with
    | (.ok a, v') => exec (f a) v'
    | (.error e, v') => (.error e, v')
  show (fun p : Except String α × Visited => StateT.run (ExceptT.bindCont f p.1) p.2)
    (StateT.run (ExceptT.run x) v) = _
  rcases StateT.run (ExceptT.run x) v with ⟨_ | _, _⟩ <;> rfl

end IncludeM

section Simulation

variable {α β : Type} {w : ConfigWorld} {host base : String}

/-- The program `x` comes to what an expansion comes to, which `f` turns into its result. -/
def Computes (v : Visited) (x : IncludeM α) (r : Expansion) (f : List ConfigText → α) : Prop :=
  ∃ ks, r.2 = v.seen ++ ks ∧ x.exec v = (r.1.map f, ⟨v.seen ++ ks, v.reads ++ ks⟩)

variable {takeIn : IncludedFile → List String → Expansion} {v : Visited} {x : IncludeM α}
  {f : List ConfigText → α} {a : α}

theorem computes_nil (ha : a = f []) : Computes v (pure a) (takeItems takeIn [] v.seen) f :=
  ⟨[], (List.append_nil _).symm, by simp [takeItems, ha, Except.map]⟩

theorem computes_text {t : ConfigText} (ha : a = f [t]) :
    Computes v (pure a) (takeItems takeIn [.text t] v.seen) f :=
  ⟨[], (List.append_nil _).symm, by simp [takeItems, ha, Except.map]⟩

theorem computes_fail {e : String} : Computes v (throw e) (takeItems takeIn [.fail e] v.seen) f :=
  ⟨[], (List.append_nil _).symm, by simp [takeItems, Except.map]⟩

theorem computes_file {file : IncludedFile} (h : Computes v x (takeIn file v.seen) f) :
    Computes v x (takeItems takeIn [.file file] v.seen) f := by
  have hfile : takeItems takeIn [.file file] v.seen = takeIn file v.seen := by
    rw [takeItems]
    rcases takeIn file v.seen with ⟨_ | ts, _⟩
    · rfl
    · simp [takeItems]
  rwa [hfile]

theorem Computes.map {r : Expansion} {g : α → β} (h : Computes v x r f) :
    Computes v (x >>= fun a => pure (g a)) r fun ts => g (f ts) := by
  obtain ⟨ks, hks, hexec⟩ := h
  refine ⟨ks, hks, ?_⟩
  rw [IncludeM.exec_bind, hexec]
  rcases r.1 with _ | _ <;> rfl

theorem Computes.bind {k : α → IncludeM β} {g : List ConfigText → β}
    {items items' : List ConfigItem}
    (hx : Computes v x (takeItems takeIn items v.seen) f)
    (hk : ∀ ts v', Computes v' (k (f ts)) (takeItems takeIn items' v'.seen) fun ts' =>
      g (ts ++ ts')) :
    Computes v (x >>= k) (takeItems takeIn (items ++ items') v.seen) g := by
  obtain ⟨ks, hseen, hexec⟩ := hx
  rw [takeItems_append, Computes]
  simp only [IncludeM.exec_bind, hexec]
  rcases hitems : takeItems takeIn items v.seen with ⟨e | ts, seen⟩
  · rw [hitems] at hseen
    exact ⟨ks, hseen, rfl⟩
  · rw [hitems] at hseen
    obtain rfl : seen = v.seen ++ ks := hseen
    obtain ⟨ks', hseen', hexec'⟩ := hk ts ⟨v.seen ++ ks, v.reads ++ ks⟩
    dsimp only [Except.map] at hseen' hexec' ⊢
    rw [hexec']
    rcases hitems' : takeItems takeIn items' (v.seen ++ ks) with ⟨e | ts', seen'⟩
    all_goals
      rw [hitems'] at hseen'
      exact ⟨ks ++ ks', hseen'.trans (List.append_assoc ..), by simp⟩

theorem exec_includeFile {nested : String → String → IncludeM String} (base path : String)
    (v : Visited) : (includeFile w nested base path).exec v =
      if (w.canonicalize path).getD path ∈ v.seen then
        (.error (cycleDetected ((w.canonicalize path).getD path)), v)
      else
        match w.readToString path with
        | .error _ =>
          (.error s!"Include: failed to read {path}",
            ⟨v.seen ++ [(w.canonicalize path).getD path],
              v.reads ++ [(w.canonicalize path).getD path]⟩)
        | .ok content => (nested content ((parent path).getD base)).exec
          ⟨v.seen ++ [(w.canonicalize path).getD path],
            v.reads ++ [(w.canonicalize path).getD path]⟩ := by
  show (if _ then throw _ else _ : IncludeM String).exec v = _
  split_ifs with hseen
  · rfl
  · show IncludeM.exec (match w.readToString path with | .error _ => _ | .ok content => _) _ = _
    rcases w.readToString path with _ | content <;> rfl

/-- One included file, once the files below it are known. -/
theorem computes_includeFile {left : Nat}
    (hnested : ∀ content base v, Computes v (preprocessIncludes w host left content base)
      (expandIncludes w host left (itemsFrom w host base none (lines content)) v.seen) render)
    (base path : String) (v : Visited) :
    Computes v (includeFile w (preprocessIncludes w host left) base path)
      (take (includeDocs w host) cycleDetected tooDeep left (includedFrom base path) v.seen)
      render := by
  rw [Computes, exec_includeFile]
  have hkey : (includeDocs w host).key (includedFrom base path) =
      (w.canonicalize path).getD path := rfl
  have hdoc : (includeDocs w host).doc (includedFrom base path) =
      match w.readToString path with
      | .error _ => .error s!"Include: failed to read {path}"
      | .ok content =>
        .ok (itemsFrom w host ((parent path).getD base) none (lines content)) := rfl
  generalize (w.canonicalize path).getD path = canonical at hkey ⊢
  by_cases hseen : canonical ∈ v.seen
  -- a file that was seen before is a cycle, and its key is not recorded again
  · rw [if_pos hseen]
    refine ⟨[], ?_, ?_⟩
    all_goals cases left <;> simp [take, hkey, hseen, Except.map]
  · rw [if_neg hseen]
    rcases hread : w.readToString path with e | content
    · rw [hread] at hdoc
      refine ⟨[canonical], ?_, ?_⟩
      all_goals cases left <;> simp [take, hkey, hseen, hdoc, Except.map]
    · rw [hread] at hdoc
      obtain ⟨ks, hks, hexec⟩ := hnested content ((parent path).getD base)
        ⟨v.seen ++ [canonical], v.reads ++ [canonical]⟩
      -- a new file that can be read: its lines are taken with its key recorded
      have htake : take (includeDocs w host) cycleDetected tooDeep left (includedFrom base path)
          v.seen = expandIncludes w host left
            (itemsFrom w host ((parent path).getD base) none (lines content))
            (v.seen ++ [canonical]) := by
        cases left <;> simp [take, expandIncludes, hkey, hseen, hdoc]
      rw [htake]
      exact ⟨canonical :: ks, by simpa using hks, by simpa using hexec⟩

theorem render_append (ts ts' : List ConfigText) :
    render (ts ++ ts') = render ts ++ render ts' := by
  rw [render, List.map_append, String.join_append, render, render]

/-- The files that one line names. -/
theorem computes_matched {nested : String → String → IncludeM String}
    (hfile : ∀ path v, Computes v (includeFile w nested base path)
      (takeIn (includedFrom base path) v.seen) render)
    (matched : List String) (pushed : String) (v : Visited) :
    Computes v
      (matched.foldlM (fun pushed path => do
        let merged ← includeFile w nested base path
        pure (pushed ++ merged)) pushed)
      (takeItems takeIn (matched.map fun path => .file (includedFrom base path)) v.seen)
      fun ts => pushed ++ render ts := by
  induction matched generalizing pushed v with
  | nil => exact computes_nil String.append_empty.symm
  | cons path rest ih =>
    rw [List.foldlM_cons, List.map_cons, ← List.singleton_append]
    refine (computes_file (hfile path v)).map.bind fun ts v' => ?_
    have := ih (pushed ++ render ts) v'
    simp only [render_append, ← String.append_assoc]
    exact this

theorem computes_includes (host : String) {nested : String → String → IncludeM String}
    (hfile : ∀ path v, Computes v (includeFile w nested base path)
      (takeIn (includedFrom base path) v.seen) render)
    {line value : String} (hline : lineKind line = .includes value) (seenBlock : Bool)
    (v : Visited) : Computes v (includeLine w host nested base seenBlock line)
      (takeItems takeIn (includeItems w host base seenBlock line value) v.seen)
      fun ts => (seenBlock, render ts) := by
  rw [includeLine, hline, includeItems]
  dsimp only
  split_ifs with hblock hvalue
  · exact computes_fail
  · exact computes_fail
  · rcases expandGlob w (patternPath w host base value) with e | matched
    · exact computes_fail
    · cases matched with
      | nil => exact computes_fail
      | cons path rest =>
        have := (computes_matched hfile (path :: rest) "" v).map (g := fun pushed =>
          (seenBlock, pushed))
        simpa only [String.empty_append] using this
theorem computes_includeLine (host : String) {nested : String → String → IncludeM String}
    (hfile : ∀ path v, Computes v (includeFile w nested base path)
      (takeIn (includedFrom base path) v.seen) render)
    (scope : Option String) (line : String) (v : Visited) :
    Computes v (includeLine w host nested base scope.isSome line)
      (takeItems takeIn (lineItems w host base scope line) v.seen)
      fun ts => ((scopeAfter scope line).isSome, render ts) := by
  rw [lineItems]
  cases hline : lineKind line with
  | other =>
    rw [includeLine, hline, scopeAfter, hline]
    exact computes_text (by simp [render])
  | block =>
    rw [includeLine, hline, scopeAfter, hline]
    exact computes_text (by simp [render])
  | bareInclude =>
    rw [includeLine, hline]
    exact computes_fail
  | includes value =>
    have := computes_includes host hfile hline scope.isSome v
    rwa [scopeAfter, hline]

/-- The lines from a place on: `scope` is the last block before it, `pushed` what is there. -/
theorem computes_lines (host : String) {nested : String → String → IncludeM String}
    (hfile : ∀ path v, Computes v (includeFile w nested base path)
      (takeIn (includedFrom base path) v.seen) render)
    (scope : Option String) (ls : List String) (pushed : String) (v : Visited) :
    Computes v
      (ls.foldlM (fun (state : Bool × String) line => do
        let (seenBlock, pushed) ← includeLine w host nested base state.1 line
        pure (seenBlock, state.2 ++ pushed)) (scope.isSome, pushed))
      (takeItems takeIn (itemsFrom w host base scope ls) v.seen)
      fun ts => ((ls.foldl scopeAfter scope).isSome, pushed ++ render ts) := by
  induction ls generalizing scope pushed v with
  | nil => exact computes_nil (by simp [render])
  | cons line rest ih =>
    rw [List.foldlM_cons, itemsFrom]
    refine Computes.bind (f := fun ts => ((scopeAfter scope line).isSome, pushed ++ render ts))
      (computes_includeLine host hfile scope line v).map fun ts v' => ?_
    simp only [List.foldl_cons, render_append, ← String.append_assoc]
    exact ih _ _ v'

/-- **`preprocess_includes`** is the expansion of the lines of its content: its result, the visited
set, and what was read. -/
theorem preprocessIncludes_run (w : ConfigWorld) (host : String) (left : Nat)
    (content base : String) (v : Visited) :
    Computes v (preprocessIncludes w host left content base)
      (expandIncludes w host left (itemsFrom w host base none (lines content)) v.seen) render := by
  induction left generalizing content base v with
  | zero =>
    have hthrow : preprocessIncludes w host 0 content base = throw tooDeep := rfl
    rw [hthrow, expandIncludes]
    exact ⟨[], (List.append_nil _).symm, by simp [Except.map]⟩
  | succ left ih =>
    rw [preprocessIncludes, expandIncludes]
    have := (computes_lines host (fun path v => computes_includeFile ih base path v) none
      (lines content) "" v).map (g := Prod.snd)
    simp only [String.empty_append] at this
    exact this

end Simulation

/-! ## A whole resolution -/

/-- The call in `load_and_parse`, which starts with an empty `seen`, and what it has met. -/
def mergeIncludes (w : ConfigWorld) (host content base : String) : Except String String × Visited :=
  (preprocessIncludes w host (maxIncludeDepth + 1) content base).exec ⟨[], []⟩

/-- However it ends, what has been met is new, each file once. -/
theorem preprocessIncludes_visited (w : ConfigWorld) (host : String) (left : Nat)
    (content base : String) (v : Visited) :
    ∃ ks, ((preprocessIncludes w host left content base).exec v).2 =
      ⟨v.seen ++ ks, v.reads ++ ks⟩ ∧ Fresh v.seen ks := by
  obtain ⟨ks, hks, hexec⟩ := preprocessIncludes_run w host left content base v
  refine ⟨ks, by rw [hexec], ?_⟩
  cases left with
  | zero =>
    obtain rfl : ks = [] := List.append_right_eq_self.mp hks.symm
    exact ⟨List.nodup_nil, by simp⟩
  | succ left =>
    obtain ⟨ks', hks', hfresh⟩ := takeItems_visited left _ v.seen
    rw [expandIncludes, hks'] at hks
    obtain rfl := List.append_cancel_left hks
    exact hfresh

/-- The result is text exactly for what has an expansion with new keys, each of them once. -/
theorem preprocessIncludes_eq_ok_iff {w : ConfigWorld} {host : String} {left : Nat}
    {content base s : String} {v : Visited} :
    ((preprocessIncludes w host left content base).exec v).1 = .ok s ↔
      ∃ d ts ks, left = d + 1 ∧
        Expands (includeDocs w host) d (itemsFrom w host base none (lines content)) ts ks ∧
        Fresh v.seen ks ∧ s = render ts := by
  obtain ⟨ks, hks, hexec⟩ := preprocessIncludes_run w host left content base v
  rw [hexec]
  cases left with
  | zero =>
    refine iff_of_false (by rintro ⟨⟩) ?_
    rintro ⟨d, ts, ks, hleft, -⟩
    cases hleft
  | succ left =>
    rw [expandIncludes] at hks ⊢
    generalize hitems : itemsFrom w host base none (lines content) = items at hks ⊢
    constructor
    · intro h
      rcases hr : takeItems (take (includeDocs w host) cycleDetected tooDeep left) items v.seen with
        ⟨e | ts, seen⟩
      · rw [hr] at h
        cases h
      · rw [hr] at h
        obtain ⟨ks', hexpands, -, hfresh⟩ := takeItems_eq_ok_iff.mp hr
        exact ⟨left, ts, ks', rfl, hexpands, hfresh, (Except.ok.inj h).symm⟩
    · rintro ⟨d, ts, ks', hleft, hexpands, hfresh, rfl⟩
      obtain rfl := Nat.succ.inj hleft
      rw [takeItems_eq_ok_iff.mpr ⟨ks', hexpands, rfl, hfresh⟩]
      rfl

end Passhrs
